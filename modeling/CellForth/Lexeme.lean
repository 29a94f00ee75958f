import CellForth.Fault

/-!
# Words of a line

A word of a line is a number or a name. It is a number exactly when it is a decimal numeral,
an optional minus sign and then digits only (`numeral?`); a numeral that does not fit a cell is
refused and never taken for a name.
-/

namespace CellForth

/-- The value of a nonempty run of decimal digits. -/
def digits? (cs : List Char) : Option Nat :=
  if cs ≠ [] ∧ cs.all Char.isDigit then some (Nat.ofDigitChars 10 cs 0) else none

/-- The value of a decimal numeral: digits, with or without a minus sign in front. -/
def numeral? (word : String) : Option Int :=
  match word.toList with
  | '-' :: cs => (digits? cs).map fun n => -(n : Int)
  | cs => (digits? cs).map fun n => (n : Int)

/-- Whether an integer has a 64-bit two's complement form. -/
def fitsCell (n : Int) : Bool :=
  Int64.minValue.toInt ≤ n && n ≤ Int64.maxValue.toInt

/-- What a word of a line is. -/
inductive Lexeme where
  | number (n : Int64)
  | name (word : String)
  deriving DecidableEq

namespace Lexeme

/-- Tells numbers from names; a numeral too large for a cell is refused. -/
def classify (word : String) : Except Fault Lexeme :=
  match numeral? word with
  | none => .ok (.name word)
  | some n => if fitsCell n then .ok (.number (Int64.ofInt n)) else .error ⟨.outOfRange, word⟩

/-- A numeral too large for a cell is no fault of the outside world. -/
theorem isFatal_of_classify_error {word : String} {f : Fault} (h : classify word = .error f) :
    f.isFatal = false := by
  unfold classify at h
  split at h
  · cases h
  · split at h <;> cases h
    rfl

/-- The text of a lexeme: a number in decimal, a name as it was written. -/
def render : Lexeme → String
  | .number n => toString n.toInt
  | .name word => word

end Lexeme

end CellForth
