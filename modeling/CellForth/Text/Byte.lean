/-!
# Classes of bytes

Lines are read as bytes, and only ASCII bytes have a meaning of their own: the six blanks that
separate words, the digits, and the printable range. No byte of a longer UTF-8 sequence is in
any of the classes (`isBlank_lt`, `isPrintable_lt`), so cutting at a blank never cuts a
character.
-/

namespace CellForth.Byte

/-- The blank that separates words, and the one skipped before quoted text. -/
def space : UInt8 := 0x20

/-- The byte that ends quoted text. -/
def quote : UInt8 := 0x22

/-- The byte that ends a line. -/
def lineFeed : UInt8 := 0x0A

/-- The byte that may stand before a line's end. -/
def carriageReturn : UInt8 := 0x0D

/-- The byte of the minus sign. -/
def minus : UInt8 := 0x2D

/-- A byte with a visible form, or the space. -/
def isPrintable (b : UInt8) : Bool :=
  0x20 ≤ b && b ≤ 0x7E

/-- A decimal digit. -/
def isDigit (b : UInt8) : Bool :=
  0x30 ≤ b && b ≤ 0x39

/-- The space, or one of the five control bytes from the tab to the carriage return. -/
def isBlank (b : UInt8) : Bool :=
  b = 0x20 || 0x09 ≤ b && b ≤ 0x0D

theorem isBlank_lt {b : UInt8} (h : isBlank b) : b < 0x80 := by
  simp only [isBlank, Bool.or_eq_true, Bool.and_eq_true, decide_eq_true_eq, UInt8.le_iff_toNat_le,
    UInt8.lt_iff_toNat_lt] at h ⊢
  rcases h with rfl | ⟨_, h⟩
  · decide
  · exact Nat.lt_of_le_of_lt h (by decide)

theorem isPrintable_lt {b : UInt8} (h : isPrintable b) : b < 0x80 := by
  simp only [isPrintable, Bool.and_eq_true, decide_eq_true_eq, UInt8.le_iff_toNat_le,
    UInt8.lt_iff_toNat_lt] at h ⊢
  exact Nat.lt_of_le_of_lt h.2 (by decide)

end CellForth.Byte
