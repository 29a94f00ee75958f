import CellForth.Channel
import CellForth.Cursor
import CellForth.Dictionary
import CellForth.Machine

/-!
# The interpreter

An `Interpreter` is a machine with a dictionary, the code of the host's words, the cursor in
the line at hand, and the channel. It also keeps a trace of the words it began, the lines it
entered and left, and the times it emptied its stacks, newest first, so that one can say of a
run what it did.

A `Run` is a computation on an interpreter. It can stop early with a fault, or because a count
that bounds its loops or the nesting of its lines was used up; the second is no fault, and no
word can recover from it.
-/

namespace CellForth

/-- Something that a run did. -/
inductive Mark where
  /-- A token began to run. -/
  | began (t : Token)
  /-- A line was entered, and the return stack then held so many cells. -/
  | entered (cells : Nat)
  /-- A line was left, and the return stack then held so many cells. -/
  | left (cells : Nat)
  /-- Both stacks were emptied after a fault. -/
  | recovered
  deriving DecidableEq

/-- The state that words work on. -/
structure Interpreter where
  machine : Machine
  dictionary : Dictionary
  hostCode : Array (Machine.Action Unit)
  cursor : Cursor
  channel : Channel
  trace : List Mark

/-- Why a run stopped early: it was refused, or a count that bounds it was used up. -/
inductive Stop where
  | fault (f : Fault)
  | tooDeep
  deriving DecidableEq

/-- What is said of a run that stopped early. -/
def Stop.message : Stop → String
  | .fault f => f.message
  | .tooDeep => "lines nested too deep"

/-- A computation on an interpreter. -/
abbrev Run (α : Type) := ExceptT Stop (StateM Interpreter) α

namespace Interpreter

/-- A new interpreter: the built-in words, stacks of a capacity, and a channel. -/
def new (capacity : Nat) (channel : Channel) : Interpreter :=
  ⟨.ofCapacity capacity, .builtins, #[], .empty, channel, []⟩

/-- Adds a host word under a name. -/
def defineHost (name : String) (code : Machine.Action Unit) (s : Interpreter) : Interpreter :=
  { s with
    hostCode := s.hostCode.push code
    dictionary := s.dictionary.define name (.host ⟨s.hostCode.size, name⟩) false }

variable {α : Type}

/-! ## Access to the parts -/

/-- Looks at the state. -/
def view (f : Interpreter → α) : Run α := fun s =>
  (.ok (f s), s)

/-- Steps on the machine. -/
def onMachine (act : Machine.Action α) : Run α := fun s =>
  let r := act s.machine
  (r.1.mapError .fault, { s with machine := r.2 })

/-- Calls on the channel. -/
def onChannel (act : Channel.Action α) : Run α := fun s =>
  let r := act s.channel
  (r.1.mapError .fault, { s with channel := r.2 })

/-- Stops with a fault. -/
def refuse (kind : Fault.Kind) (detail : String) : Run α :=
  throw (.fault ⟨kind, detail⟩)

/-- Notes what the run does. -/
def mark (m : Mark) : Run Unit := fun s =>
  (.ok (), { s with trace := m :: s.trace })

/-- Empties both stacks of the machine. -/
def resetMachine : Run Unit := fun s =>
  (.ok (), { s with machine := s.machine.reset, trace := .recovered :: s.trace })

/-- Puts another cursor in place, and returns the one that was there. -/
def exchangeCursor (cursor : Cursor) : Run Cursor := fun s =>
  (.ok s.cursor, { s with cursor })

/-- Reads the next word of the line. -/
def readWord (delimiter : UInt8) : Run (Option String) := fun s =>
  let r := s.cursor.readWord delimiter
  (.ok r.1, { s with cursor := r.2 })

/-- Reads the line up to a delimiter. -/
def parse (delimiter : UInt8) : Run String := fun s =>
  let r := s.cursor.parse delimiter
  (.ok r.1, { s with cursor := r.2 })

/-- The entry of a name. -/
def findWord (name : String) : Run (Option Entry) :=
  view (·.dictionary.find? name)

/-- The token of a name that has to be defined. -/
def tokenOf (name : String) : Run Token := do
  match ← findWord name with
  | some entry => pure entry.token
  | none => refuse .undefinedWord name

/-- Runs the code of a host word; a handle that was never given out does nothing. -/
def callHost (word : HostWord) : Run Unit := do
  onMachine (← view (·.hostCode.getD word.handle (pure ())))

end Interpreter

end CellForth
