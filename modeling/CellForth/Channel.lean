import CellForth.Transaction

/-!
# The channel

A session talks to a person over a `Channel`: it writes text, writes error reports, and takes
lines until there are none left. The channel remembers every call made on it (`Channel.calls`),
and what was written is a view of that history.

A channel can break: from some call on, every write or every read is refused with a fault that
ends the session (`Breakage`). `Channel.Leads` is what calls do to a channel.
-/

namespace CellForth

/-- A direction of the channel that fails after so many more calls, and what it then says. -/
structure Breakage where
  after : Nat
  reason : String
  deriving DecidableEq

/-- Counts a call against a breakage: the reason to refuse it, or the breakage afterwards. -/
def Breakage.count : Option Breakage → Except String (Option Breakage)
  | none => .ok none
  | some ⟨0, reason⟩ => .error reason
  | some ⟨n + 1, reason⟩ => .ok (some ⟨n, reason⟩)

/-- The directions in which a channel is called. -/
inductive Direction where
  | writing
  | reading
  deriving DecidableEq

/-- A call on a channel and how it went. -/
inductive Call where
  /-- The text was written. -/
  | wrote (text : String)
  /-- The error report was written. -/
  | reported (text : String)
  /-- Nothing could be written. -/
  | refusedWrite
  /-- The line was taken. -/
  | took (line : String)
  /-- No line was left. -/
  | ended
  /-- Nothing could be read. -/
  | refusedRead
  deriving DecidableEq

/-- The direction of a call. -/
def Call.direction : Call → Direction
  | .wrote _ => .writing
  | .reported _ => .writing
  | .refusedWrite => .writing
  | .took _ => .reading
  | .ended => .reading
  | .refusedRead => .reading

/-- The call that was refused in a direction. -/
def Direction.refusal : Direction → Call
  | .writing => .refusedWrite
  | .reading => .refusedRead

/-- What a call put out. -/
def Call.output : Call → String
  | .wrote text => text
  | .reported text => text
  | _ => ""

/-- The error report a call put out. -/
def Call.report? : Call → Option String
  | .reported text => some text
  | _ => none

/-- The lines still to be taken, the calls made so far, newest first, and the failures to
come. -/
structure Channel where
  unread : List String
  calls : List Call
  writeBreakage : Option Breakage
  readBreakage : Option Breakage
  deriving DecidableEq

namespace Channel

/-- A channel with lines to be taken, on which no call was made. -/
def ofLines (lines : List String) : Channel := ⟨lines, [], none, none⟩

/-- Steps on a channel. -/
abbrev Action (α : Type) := Activity Channel α

variable {α : Type}

/-- Adds a line after those still to be taken. -/
def pushLine (line : String) (c : Channel) : Channel :=
  { c with unread := c.unread ++ [line] }

/-- The failure to come in a direction. -/
def breakage (c : Channel) : Direction → Option Breakage
  | .writing => c.writeBreakage
  | .reading => c.readBreakage

/-- The channel with another failure to come in a direction. -/
def breaking (d : Direction) (b : Option Breakage) (c : Channel) : Channel :=
  { c with
    writeBreakage := if d = .writing then b else c.writeBreakage
    readBreakage := if d = .reading then b else c.readBreakage }

/-- The channel after a call that leaves `rest` to be taken. -/
def recording (call : Call) (rest : List String) (c : Channel) : Channel :=
  { c with unread := rest, calls := call :: c.calls }

/-- A call, recorded as `call`: it answers `a` and leaves `rest` to be taken, or is refused. -/
def answer (call : Call) (a : α) (rest : List String) : Action α := fun c =>
  match Breakage.count (c.breakage call.direction) with
  | .error reason => (.error ⟨.io, reason⟩, c.recording call.direction.refusal c.unread)
  | .ok later => (.ok a, (c.breaking call.direction later).recording call rest)

/-- Writes a text. -/
def write (text : String) : Action Unit := fun c =>
  answer (.wrote text) () c.unread c

/-- Writes an error report. -/
def report (text : String) : Action Unit := fun c =>
  answer (.reported text) () c.unread c

/-- Takes the next line, if there is one. -/
def read : Action (Option String) := fun c =>
  match c.unread with
  | [] => answer .ended none [] c
  | line :: rest => answer (.took line) (some line) rest c

/-- The text written by the calls after the first `n`. -/
def outputSince (n : Nat) (c : Channel) : String :=
  String.join ((c.calls.reverse.drop n).map Call.output)

/-- All text written. -/
def output (c : Channel) : String := c.outputSince 0

/-- The error reports written, in order. -/
def reports (c : Channel) : List String := c.calls.reverse.filterMap Call.report?

/-! ## What calls do -/

/-- What calls do to a channel: lines are only taken, and every call is remembered. -/
structure Leads (c c' : Channel) : Prop where
  unread : c'.unread <:+ c.unread
  calls : c.calls <:+ c'.calls

namespace Leads

theorem refl (c : Channel) : c.Leads c :=
  ⟨List.suffix_rfl, List.suffix_rfl⟩

theorem trans {c c' c'' : Channel} (h : c.Leads c') (h' : c'.Leads c'') : c.Leads c'' :=
  ⟨h'.unread.trans h.unread, h.calls.trans h'.calls⟩

theorem reports {c c' : Channel} (h : c.Leads c') : c.reports <+: c'.reports := by
  obtain ⟨new, hnew⟩ := h.calls
  simp [Channel.reports, ← hnew]

end Leads

theorem read_of_nil {c : Channel} (h : c.unread = []) : read c = answer .ended none [] c := by
  rw [read, h]

theorem read_of_cons {c : Channel} {line : String} {rest : List String}
    (h : c.unread = line :: rest) : read c = answer (.took line) (some line) rest c := by
  rw [read, h]

theorem leads_of_answer {call : Call} {a : α} {rest : List String} {c c' : Channel}
    {x : Except Fault α} (h : answer call a rest c = (x, c')) (hrest : rest <:+ c.unread) :
    c.Leads c' := by
  unfold answer at h
  split at h
  · cases h
    exact ⟨List.suffix_rfl, List.suffix_cons _ _⟩
  · cases h
    exact ⟨hrest, List.suffix_cons _ _⟩

theorem leads_of_write {text : String} {c c' : Channel} {x : Except Fault Unit}
    (h : write text c = (x, c')) : c.Leads c' :=
  leads_of_answer h List.suffix_rfl

theorem leads_of_report {text : String} {c c' : Channel} {x : Except Fault Unit}
    (h : report text c = (x, c')) : c.Leads c' :=
  leads_of_answer h List.suffix_rfl

theorem leads_of_read {c c' : Channel} {x : Except Fault (Option String)}
    (h : read c = (x, c')) : c.Leads c' := by
  cases hu : c.unread with
  | nil => exact leads_of_answer (read_of_nil hu ▸ h) List.nil_suffix
  | cons line rest => exact leads_of_answer (read_of_cons hu ▸ h) (hu ▸ List.suffix_cons _ _)

/-- A call that is not refused is remembered, and answers what it should. -/
theorem eq_of_answer_ok {call : Call} {a a' : α} {rest : List String} {c c' : Channel}
    (h : answer call a rest c = (.ok a', c')) :
    a' = a ∧ c'.unread = rest ∧ c'.calls = call :: c.calls := by
  unfold answer at h
  split at h <;> cases h
  exact ⟨rfl, rfl, rfl⟩

/-- A call that is refused is remembered as that, and takes no line. -/
theorem eq_of_answer_error {call : Call} {a : α} {rest : List String} {c c' : Channel} {f : Fault}
    (h : answer call a rest c = (.error f, c')) :
    f.isFatal = true ∧ c'.unread = c.unread ∧ c'.calls = call.direction.refusal :: c.calls := by
  unfold answer at h
  split at h <;> cases h
  exact ⟨rfl, rfl, rfl⟩

/-- A line that is read is no longer unread. -/
theorem unread_of_read_some {c c' : Channel} {line : String} (h : read c = (.ok (some line), c')) :
    c.unread = line :: c'.unread := by
  cases hu : c.unread with
  | nil =>
    rw [read_of_nil hu] at h
    cases (eq_of_answer_ok h).1
  | cons first rest =>
    rw [read_of_cons hu] at h
    obtain ⟨⟨⟩, hrest, -⟩ := eq_of_answer_ok h
    rw [hrest]

/-- The end is only told when no line is left. -/
theorem unread_of_read_none {c c' : Channel} (h : read c = (.ok none, c')) : c.unread = [] := by
  cases hu : c.unread with
  | nil => rfl
  | cons first rest =>
    rw [read_of_cons hu] at h
    cases (eq_of_answer_ok h).1

theorem calls_of_read_some {c c' : Channel} {line : String} (h : read c = (.ok (some line), c')) :
    c'.calls = .took line :: c.calls := by
  have hu := unread_of_read_some h
  rw [read_of_cons hu] at h
  exact (eq_of_answer_ok h).2.2

theorem eq_of_read_none {c c' : Channel} (h : read c = (.ok none, c')) :
    c'.unread = [] ∧ c'.calls = .ended :: c.calls := by
  have hu := unread_of_read_none h
  rw [read_of_nil hu] at h
  exact (eq_of_answer_ok h).2

theorem eq_of_read_error {c c' : Channel} {f : Fault} (h : read c = (.error f, c')) :
    f.isFatal = true ∧ c'.unread = c.unread ∧ c'.calls = .refusedRead :: c.calls := by
  cases hu : c.unread with
  | nil => exact hu ▸ eq_of_answer_error (read_of_nil hu ▸ h)
  | cons line rest => exact hu ▸ eq_of_answer_error (read_of_cons hu ▸ h)

/-- A report that is not refused is remembered. -/
theorem reports_of_report_ok {c c' : Channel} {text : String} (h : report text c = (.ok (), c')) :
    c'.reports = c.reports ++ [text] := by
  simp [reports, (eq_of_answer_ok h).2.2, Call.report?]

end Channel

end CellForth
