import CellForth.Text.Lowercase
import CellForth.Word
import Std.Data.TreeMap

/-!
# The dictionary

A `Dictionary` maps names to tokens without regard to letter case: entries are kept under the
lower case of their name, and keep the spelling they were defined with. Defining a name again
replaces its entry. The names come out in ascending order of their code points, which is the
order of their UTF-8 bytes too.
-/

namespace CellForth

/-- A defined word: its name as it was spelled, its token, and whether it is immediate. -/
structure Entry where
  name : String
  token : Token
  immediate : Bool
  deriving DecidableEq

/-- The entries, each under the lower case of its name. -/
structure Dictionary where
  entries : Std.TreeMap String Entry

namespace Dictionary

/-- The dictionary without words. -/
def empty : Dictionary := ⟨∅⟩

/-- How many words are defined. -/
def size (d : Dictionary) : Nat := d.entries.size

/-- Gives a name a token, in place of the one it may have had. -/
def define (name : String) (token : Token) (immediate : Bool) (d : Dictionary) : Dictionary :=
  ⟨d.entries.insert (Text.lowercase name) ⟨name, token, immediate⟩⟩

/-- The entry of a name, in any spelling. -/
def find? (d : Dictionary) (name : String) : Option Entry :=
  d.entries[Text.lowercase name]?

/-- The lower-case names in ascending order. -/
def names (d : Dictionary) : List String := d.entries.keys

/-- The dictionary of the built-in words. -/
def builtins : Dictionary :=
  Builtin.all.foldl (fun d b => d.define b.name (.builtin b) false) empty

end Dictionary

end CellForth
