import CellForth.Interpreter.Run
import CellForth.Source.Lines
import CellForth.Source.Tree

/-!
# Sessions

`load` interprets a source file line by line, and says in a fault which line of which file it
came from. `session` loads files, greets, and then reads lines from the channel. A file that
cannot be loaded is reported and the next one is tried, unless the fault is fatal; a file that
runs `bye` ends the session. Both are defined over the run of a line (`loadWith`, `sessionWith`), so
that they can be had with any number of levels of lines.

`runProgram` is a whole session over the bytes of standard input: what is written, and how it
ends.
-/

namespace CellForth

namespace Interpreter

/-- What is said of bytes that are no text. -/
def notText : String := "stream did not contain valid UTF-8"

/-- Goes on with `next` after a run that came to its end; a fault says at what place it arose. A
run that leaves ends here. -/
def locating (place : String) (act next : Run Flow) : Run Flow := do
  match ← attempt act with
  | .ok .proceed => next
  | .ok .exit => pure .exit
  | .error (.fault f) => throw (.fault (f.within place))
  | .error .tooDeep => throw .tooDeep

/-- Interprets the lines of a file from a line number on, each as `nested` does. A line that is no
text stops the run as it is; a fault inside a line says where it arose. -/
def loadLinesWith (nested : String → Run Flow) (name : String) :
    Nat → List (List UInt8) → Run Flow
  | _, [] => pure .proceed
  | number, piece :: pieces =>
    match Utf8.text? (Lines.withoutEnding piece) with
    | none => refuse .io notText
    | some line => locating ("in line " ++ toString number ++ " of " ++ name) (nested line)
      (loadLinesWith nested name (number + 1) pieces)

/-- Interprets a source file, each line as `nested` does. -/
def loadWith (nested : String → Run Flow) (files : Files) (name : String) : Run Flow :=
  match files name with
  | .ok bytes => loadLinesWith nested name 1 (Lines.cut bytes)
  | .error f => throw (.fault f)

/-- Loads files in order, until one leaves. A fault that is not fatal is reported and both
stacks are emptied. -/
def loadAllWith (nested : String → Run Flow) (files : Files) : List String → Run Flow
  | [] => pure .proceed
  | name :: names =>
    recovering (loadWith nested files name) (pure ()) (loadAllWith nested files names)

/-- What a person is greeted with. -/
def banner : String := "Stack Machine\nType BYE or CTRL-D to exit.\n"

/-- Loads files, greets if asked to, and goes on with a read loop. -/
def sessionWith (nested : String → Run Flow) (loop : Run Flow) (files : Files)
    (names : List String) (greet : Bool) : Run Unit := do
  match ← loadAllWith nested files names with
  | .exit => pure ()
  | .proceed => do
    if greet then onChannel (Channel.write banner)
    discard loop

/-- Interprets the lines of a file from a line number on. -/
def loadLines (name : String) (number : Nat) (pieces : List (List UInt8)) : Run Flow :=
  loadLinesWith interpret name number pieces

/-- Interprets a source file. -/
def load (files : Files) (name : String) : Run Flow :=
  loadWith interpret files name

/-- Loads files in order, until one leaves. -/
def loadAll (files : Files) (names : List String) : Run Flow :=
  loadAllWith interpret files names

/-- Loads files, greets if asked to, and reads lines. -/
def session (files : Files) (names : List String) (greet : Bool) : Run Unit :=
  sessionWith interpret quit files names greet

theorem loadLines_of_noText {piece : List UInt8}
    (h : Utf8.text? (Lines.withoutEnding piece) = none) (name : String) (number : Nat)
    (pieces : List (List UInt8)) :
    loadLines name number (piece :: pieces) = refuse .io notText := by
  simp only [loadLines, loadLinesWith, h]

theorem loadLines_of_text {piece : List UInt8} {line : String}
    (h : Utf8.text? (Lines.withoutEnding piece) = some line) (name : String) (number : Nat)
    (pieces : List (List UInt8)) :
    loadLines name number (piece :: pieces) =
      locating ("in line " ++ toString number ++ " of " ++ name) (interpret line)
        (loadLines name (number + 1) pieces) := by
  simp only [loadLines, loadLinesWith, h]

theorem load_of_ok {files : Files} {name : String} {bytes : List UInt8}
    (h : files name = .ok bytes) : load files name = loadLines name 1 (Lines.cut bytes) := by
  simp only [load, loadWith, h, loadLines]

theorem load_of_error {files : Files} {name : String} {f : Fault} (h : files name = .error f) :
    load files name = throw (.fault f) := by
  simp only [load, loadWith, h]

theorem loadAll_cons (files : Files) (name : String) (names : List String) :
    loadAll files (name :: names) =
      recovering (load files name) (pure ()) (loadAll files names) :=
  rfl

end Interpreter

/-- How a program ended: what it wrote on each stream, and its exit code. -/
structure Report where
  output : String
  complaint : String
  exitCode : UInt32
  deriving DecidableEq

/-- The channel over the bytes of standard input. It breaks at the first line that is no
text. -/
def Channel.ofBytes (bytes : List UInt8) : Channel :=
  let lines := (Lines.cut bytes).map fun piece => Utf8.text? (Lines.withoutTrail piece)
  let texts := (lines.takeWhile Option.isSome).filterMap id
  { Channel.ofLines texts with
    readBreakage :=
      if texts.length = lines.length then none else some ⟨texts.length, Interpreter.notText⟩ }

/-- Runs a session over standard input. -/
def runProgram (files : Files) (names : List String) (greet : Bool) (input : List UInt8) :
    Report :=
  let start := Interpreter.new Machine.defaultCapacity (Channel.ofBytes input)
  match (Interpreter.session files names greet).run.run start with
  | (.ok (), s) => ⟨s.channel.output, "", 0⟩
  | (.error stop, s) => ⟨s.channel.output, stop.message ++ "\n", 1⟩

end CellForth
