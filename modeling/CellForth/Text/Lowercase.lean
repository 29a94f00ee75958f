import CellForth.Text.CaseIgnorable
import CellForth.Text.CaseRuns
import CellForth.Text.Cased

/-!
# Lower case

`lowercase` is the full Unicode lower case of a text. Each character goes by `simpleLower`,
with two exceptions: the capital I with a dot above becomes an `i` and a combining dot, and
the capital sigma takes its final form at the end of a word (`endsWord`): some cased letter
comes before it and none after it, case-ignorable characters passed over.
-/

namespace CellForth.Text

/-- The capital sigma, whose lower case depends on its place in the word. -/
def capitalSigma : Char := '\u03A3'

/-- The lower case of a character that does not depend on its neighbours. -/
def lowerChar (c : Char) : List Char :=
  if c = '\u0130' then ['i', '\u0307'] else [Char.ofNat (simpleLower c.toNat)]

/-- Whether the nearest character that counts is a cased letter. -/
def reachesCased (cs : List Char) : Bool :=
  (cs.dropWhile isCaseIgnorable).head?.any isCased

/-- Whether a letter stands at the end of a word, given the characters before it, nearest
first, and those after it. -/
def endsWord (before after : List Char) : Bool :=
  reachesCased before && !reachesCased after

/-- The lower case of a character in its place. -/
def lowerAt (before : List Char) (c : Char) (after : List Char) : List Char :=
  if c = capitalSigma then [if endsWord before after then '\u03C2' else '\u03C3']
  else lowerChar c

/-- Lowers characters that follow those of `before`, nearest first. -/
def lowerFrom (before : List Char) : List Char → List Char
  | [] => []
  | c :: after => lowerAt before c after ++ lowerFrom (c :: before) after

/-- The lower case of a text. -/
def lowercase (s : String) : String :=
  String.ofList (lowerFrom [] s.toList)

end CellForth.Text
