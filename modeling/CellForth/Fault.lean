/-!
# Faults

An operation that is refused says why with a `Fault`: the kind of refusal, and a detail that
names the operation and what it was given. `Fault.message` is the text shown to a person,
`Fault.within` notes where a fault arose, and `Fault.isFatal` tells the faults that end a
session from those that only end a line.
-/

namespace CellForth

/-- The kinds of refusal. -/
inductive Fault.Kind where
  | stackUnderflow
  | stackOverflow
  | integerRequired
  | textRequired
  | tokenRequired
  | addressRequired
  | divisionByZero
  | undefinedWord
  | invalidAddress
  | outOfRange
  | fileNotFound
  | io
  deriving DecidableEq, Inhabited

/-- What a kind of refusal is called in a message. -/
def Fault.Kind.label : Fault.Kind → String
  | .stackUnderflow => "stack underflow"
  | .stackOverflow => "stack overflow"
  | .integerRequired => "integer required"
  | .textRequired => "string required"
  | .tokenRequired => "xt required"
  | .addressRequired => "address required"
  | .divisionByZero => "division by zero"
  | .undefinedWord => "undefined word"
  | .invalidAddress => "invalid memory address"
  | .outOfRange => "result out of range"
  | .fileNotFound => "file not found"
  | .io => "i/o error"

/-- A refusal: its kind, and a detail that may be empty. -/
structure Fault where
  kind : Fault.Kind
  detail : String
  deriving DecidableEq, Inhabited

namespace Fault

/-- The text shown for a fault: the label, and the detail unless it is empty. -/
def message (f : Fault) : String :=
  if f.detail.isEmpty then f.kind.label else f.kind.label ++ ": " ++ f.detail

/-- Notes where a fault arose, after what the detail already says. -/
def within (f : Fault) (place : String) : Fault :=
  { f with detail := if f.detail.isEmpty then place else f.detail ++ "; " ++ place }

/-- Only a fault of the outside world ends a session: a broken channel or an unreadable file. -/
def isFatal (f : Fault) : Bool :=
  f.kind = .io

/-- The line that reports a fault to the person at the channel. -/
def report (f : Fault) : String :=
  "error: " ++ f.message ++ "\n"

@[simp]
theorem within_kind (f : Fault) (place : String) : (f.within place).kind = f.kind :=
  rfl

@[simp]
theorem isFatal_within (f : Fault) (place : String) : (f.within place).isFatal = f.isFatal :=
  rfl

end Fault

end CellForth
