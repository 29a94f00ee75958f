import CellForth.Text.Byte
import CellForth.Text.Utf8

/-!
# Reading a line

A `Cursor` stands in the bytes of a line. `readWord` takes the next run of bytes that hold no
delimiter, and stays in front of the delimiter that ended it. `parse` takes everything up to a
delimiter and steps past it, after at most one space: that is how quoted text is read.

What either of them returns depends only on the bytes not yet read, `Cursor.rest`; the
position counts those that were.
-/

namespace CellForth

/-- A place in the bytes of a line: how many were read, and which are left. -/
structure Cursor where
  position : Nat
  rest : List UInt8
  deriving DecidableEq

namespace Cursor

/-- The cursor of no line. -/
def empty : Cursor := ⟨0, []⟩

/-- The cursor in front of a line. -/
def ofString (line : String) : Cursor := ⟨0, Utf8.encode line⟩

/-- Whether the whole line was read. -/
def exhausted (c : Cursor) : Bool := c.rest.isEmpty

/-- The cursor behind the next `n` bytes. -/
def advance (c : Cursor) (n : Nat) : Cursor :=
  ⟨c.position + (c.rest.take n).length, c.rest.drop n⟩

/-- Whether a byte ends a word: a space stands for every blank. -/
def separates (delimiter b : UInt8) : Bool :=
  if delimiter = Byte.space then Byte.isBlank b else b = delimiter

/-- Reads the next word, if one is left. -/
def readWord (delimiter : UInt8) (c : Cursor) : Option String × Cursor :=
  let skipped := c.rest.takeWhile (separates delimiter)
  let start := c.advance skipped.length
  let word := start.rest.takeWhile (!separates delimiter ·)
  (if word.isEmpty then none else some (Utf8.lossy word), start.advance word.length)

/-- Reads up to a delimiter and past it, after one space if there is one. -/
def parse (delimiter : UInt8) (c : Cursor) : String × Cursor :=
  let start := if c.rest.head? = some Byte.space then c.advance 1 else c
  let text := start.rest.takeWhile (· ≠ delimiter)
  (Utf8.lossy text, start.advance (text.length + 1))

@[simp]
theorem rest_advance (c : Cursor) (n : Nat) : (c.advance n).rest = c.rest.drop n :=
  rfl

/-- Reading never loses count: position and bytes left add up to the same total. -/
theorem position_add_length_advance (c : Cursor) (n : Nat) :
    (c.advance n).position + (c.advance n).rest.length = c.position + c.rest.length := by
  simp only [advance, List.length_take, List.length_drop]
  omega

theorem rest_readWord (delimiter : UInt8) (c : Cursor) :
    (c.readWord delimiter).2.rest <:+ c.rest :=
  (List.drop_suffix _ _).trans (List.drop_suffix _ _)

theorem rest_parse (delimiter : UInt8) (c : Cursor) : (c.parse delimiter).2.rest <:+ c.rest := by
  unfold parse
  refine (List.drop_suffix _ _).trans ?_
  split
  · exact List.drop_suffix _ _
  · exact List.suffix_rfl

/-- A word takes at least one byte. -/
theorem length_rest_readWord_lt {delimiter : UInt8} {c : Cursor} {word : String}
    (h : (c.readWord delimiter).1 = some word) :
    (c.readWord delimiter).2.rest.length < c.rest.length := by
  let left := c.rest.drop (c.rest.takeWhile (separates delimiter)).length
  have hword : left.takeWhile (!separates delimiter ·) ≠ [] := by
    intro hnil
    simp [readWord, left, hnil] at h
  have hpos := List.length_pos_iff.2 hword
  have hle := (List.takeWhile_prefix (!separates delimiter ·) (l := left)).length_le
  simp only [readWord, rest_advance, List.length_drop, left] at hpos hle ⊢
  omega

end Cursor

end CellForth
