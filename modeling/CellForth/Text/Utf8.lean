/-!
# UTF-8

`encode` writes a text as bytes. `decode` reads bytes one at a time: `lead` takes the first
byte of a character, and a `Begun` character knows the range its next byte must be in, so a
sequence that can no longer become a character is given up at the first byte that rules it
out. Each such longest beginning is one `none` in the answer, and the byte that ended it is
read afresh.

`lossy` writes the replacement character for every `none`; `text?` refuses bytes that have
one.
-/

namespace CellForth.Utf8

/-- The bytes of a text. -/
def encode (s : String) : List UInt8 :=
  s.toList.flatMap String.utf8EncodeChar

/-- A character of which some bytes were read: its bits so far, the range of the next byte, and
how many bytes come after that one. -/
structure Begun where
  bits : Nat
  low : UInt8
  high : UInt8
  later : Nat
  deriving DecidableEq

/-- What is known after a byte: the characters and failures that it settled, and the character
it left unfinished. -/
abbrev Settled := List (Option Char) × Option Begun

/-- Reads the first byte of a character. The second byte has a narrower range after `E0`, `ED`,
`F0` and `F4`, which keeps out overlong forms, surrogates and what lies above `10FFFF`. -/
def lead (b : UInt8) : Settled :=
  if b < 0x80 then ([some (Char.ofNat b.toNat)], none)
  else if 0xC2 ≤ b ∧ b ≤ 0xDF then ([], some ⟨b.toNat - 0xC0, 0x80, 0xBF, 0⟩)
  else if b = 0xE0 then ([], some ⟨0, 0xA0, 0xBF, 1⟩)
  else if b = 0xED then ([], some ⟨0xD, 0x80, 0x9F, 1⟩)
  else if 0xE1 ≤ b ∧ b ≤ 0xEF then ([], some ⟨b.toNat - 0xE0, 0x80, 0xBF, 1⟩)
  else if b = 0xF0 then ([], some ⟨0, 0x90, 0xBF, 2⟩)
  else if b = 0xF4 then ([], some ⟨4, 0x80, 0x8F, 2⟩)
  else if 0xF1 ≤ b ∧ b ≤ 0xF3 then ([], some ⟨b.toNat - 0xF0, 0x80, 0xBF, 2⟩)
  else ([none], none)

/-- Adds a byte to a begun character, or gives the character up and reads the byte afresh. -/
def Begun.next (p : Begun) (b : UInt8) : Settled :=
  if p.low ≤ b ∧ b ≤ p.high then
    let bits := p.bits * 64 + (b.toNat - 0x80)
    match p.later with
    | 0 => ([some (Char.ofNat bits)], none)
    | later + 1 => ([], some ⟨bits, 0x80, 0xBF, later⟩)
  else (none :: (lead b).1, (lead b).2)

/-- One byte, between characters or inside one. -/
def step : Option Begun → UInt8 → Settled
  | none, b => lead b
  | some p, b => p.next b

/-- Reads the bytes that follow a begun character. -/
def decodeFrom : Option Begun → List UInt8 → List (Option Char)
  | none, [] => []
  | some _, [] => [none]
  | begun, b :: bytes => (step begun b).1 ++ decodeFrom (step begun b).2 bytes

/-- The characters of a byte sequence in order, with `none` for each longest beginning of a
character that does not go on as one. -/
def decode (bytes : List UInt8) : List (Option Char) :=
  decodeFrom none bytes

/-- What stands in a text for bytes that are no character. -/
def replacement : Char := '\uFFFD'

/-- Reads bytes as text, with the replacement character where they are none. -/
def lossy (bytes : List UInt8) : String :=
  String.ofList ((decode bytes).map (·.getD replacement))

/-- Reads bytes as text, if they are a text. -/
def text? (bytes : List UInt8) : Option String :=
  ((decode bytes).mapM id).map String.ofList

@[simp]
theorem encode_empty : encode "" = [] :=
  rfl

theorem encode_append (s t : String) : encode (s ++ t) = encode s ++ encode t := by
  simp [encode]

/-! ## The bytes of a character -/

theorem utf8EncodeChar_ne_nil (c : Char) : String.utf8EncodeChar c ≠ [] := by
  simp only [String.utf8EncodeChar]
  repeat' split
  all_goals exact List.cons_ne_nil _ _

/-- An ASCII character is its own byte. -/
theorem utf8EncodeChar_of_ascii {c : Char} (hc : c.toNat < 128) :
    String.utf8EncodeChar c = [UInt8.ofNat c.toNat] :=
  if_pos (Nat.le_of_lt_succ hc)

/-- All bytes of a character that is not ASCII are outside ASCII. -/
theorem le_of_mem_utf8EncodeChar {c : Char} {b : UInt8} (hc : 128 ≤ c.toNat)
    (h : b ∈ String.utf8EncodeChar c) : 128 ≤ b.toNat := by
  have hv : c.val.toNat = c.toNat := rfl
  simp only [String.utf8EncodeChar, hv, if_neg (Nat.not_le.2 hc)] at h
  split at h
  · simp only [List.mem_cons, List.not_mem_nil, or_false] at h
    rcases h with rfl | rfl <;> rw [UInt8.toNat_ofNat'] <;> omega
  split at h
  · simp only [List.mem_cons, List.not_mem_nil, or_false] at h
    rcases h with rfl | rfl | rfl <;> rw [UInt8.toNat_ofNat'] <;> omega
  · simp only [List.mem_cons, List.not_mem_nil, or_false] at h
    rcases h with rfl | rfl | rfl | rfl <;> rw [UInt8.toNat_ofNat'] <;> omega

end CellForth.Utf8
