import CellForth.Interpreter.Basic

/-!
# Words that look beyond the machine

The built-in words that use the dictionary, the rest of the line or the channel, and run no
other word. Each word that writes makes exactly one call on the channel, also when there is
nothing to write.
-/

namespace CellForth.Interpreter

/-! ## Words on the dictionary -/

/-- Looks up the name on top: its token and a flag in its place, or a zero on top of it. The
flag is `1` for an immediate word and `-1` for any other. -/
def find : Run Unit := do
  match ← onMachine Machine.top with
  | .text name =>
    match ← findWord name with
    | some entry => do
      onMachine (Machine.replaceTop (.token entry.token))
      onMachine (Machine.push (.int (if entry.immediate then 1 else -1)))
    | none => onMachine (Machine.push (.int 0))
  | _ => refuse .textRequired "find"

/-- Pushes the token of the next word of the line. -/
def tick : Run Unit := do
  match ← readWord Byte.space with
  | some name => do onMachine (Machine.push (.token (← tokenOf name)))
  | none => refuse .undefinedWord "' expects a name"

/-- Writes the name of every word, and ends the line. -/
def words : Run Unit := do
  let names ← view (·.dictionary.names)
  onChannel (Channel.write (String.join (names.map (· ++ " ")) ++ "\n"))

/-! ## Words on quoted text -/

/-- Pushes the text up to the next quote. -/
def sQuote : Run Unit := do
  let text ← parse Byte.quote
  onMachine (Machine.push (.text text))

/-- Writes the text up to the next quote. -/
def dotQuote : Run Unit := do
  let text ← parse Byte.quote
  onChannel (Channel.write text)

/-! ## Words that show cells -/

/-- Takes a value and writes it. -/
def dot : Run Unit := do
  let v ← onMachine Machine.pop
  onChannel (Channel.write (v.render ++ " "))

/-- How a stack is shown: its depth, and its cells from the bottom. -/
def showStack (s : Stack) : String :=
  "<" ++ toString s.depth ++ "> " ++ String.join (s.elements.map (·.render ++ " "))

/-- Writes the data stack. -/
def dotS : Run Unit := do
  onChannel (Channel.write (showStack (← view (·.machine.data))))

/-- The character with a code, if the whole integer is one. -/
def scalar? (n : Int64) : Option Char :=
  if 0 ≤ n.toInt ∧ n.toInt.toNat.isValidChar then some (Char.ofNat n.toInt.toNat) else none

/-- Takes the code of a character and writes the character. -/
def emit : Run Unit := do
  match ← onMachine Machine.pop with
  | .int n =>
    match scalar? n with
    | some c => onChannel (Channel.write c.toString)
    | none => refuse .outOfRange ("emit: " ++ toString n.toInt)
  | _ => refuse .integerRequired "emit"

/-- Ends the line. -/
def cr : Run Unit := onChannel (Channel.write "\n")

/-- Pushes the code of the space. -/
def bl : Run Unit := onMachine (Machine.push (.int 32))

end CellForth.Interpreter
