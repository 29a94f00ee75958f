import CellForth.Word

/-!
# Values

A cell of a stack or of memory holds a 64-bit integer, a text, the address of a memory cell,
or a token. `Value.render` is how a value is shown to a person.
-/

namespace CellForth

/-- The content of a cell. -/
inductive Value where
  | int (n : Int64)
  | text (s : String)
  | addr (a : Nat)
  | token (t : Token)
  deriving DecidableEq

namespace Value

instance : Inhabited Value := ⟨.int 0⟩

/-- The text of a value: a text stands between quotes as it is, an address and a token are
marked as such. -/
def render : Value → String
  | .int n => toString n.toInt
  | .text s => "\"" ++ s ++ "\""
  | .addr a => "<addr " ++ toString a ++ ">"
  | .token t => "<xt " ++ t.name ++ ">"

end Value

end CellForth
