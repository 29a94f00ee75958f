import CellForth.Proofs.Composition

/-!
# What a broken channel does to a run

A channel can break in one direction: from some call on all writes are refused, or all reads.
Here a run on such a channel is compared with the same run on a channel that does not break.

The two runs do the same until the first refusal. A refusal is a fatal fault, and no level of a
run does anything more on the channel after one: lines are left, files are named in the fault,
and the fault is passed on. So the run on the broken channel is either the same as the other one
(`Broken.spared`), or it is cut off at the first call that is refused (`Broken.cut`).

`Breaks.attempt_bind` says once how this carries over to a run that goes on after another. The
rest is a case for each place where a run goes on, and the induction over the levels of lines
(`Breaks.closed`). `calls_broken_off` says it of lines, read loops, files and sessions.
-/

namespace CellForth

namespace Call

/-- The line that a call took. -/
def line? : Call → Option String
  | .took line => some line
  | _ => none

/-- How many calls there are in a direction. -/
def count (d : Direction) (calls : List Call) : Nat :=
  calls.countP (·.direction = d)

/-- The lines that calls took, where the newest call comes first. -/
def taken (calls : List Call) : List String :=
  calls.reverse.filterMap line?

@[simp]
theorem count_append (d : Direction) (made earlier : List Call) :
    count d (made ++ earlier) = count d made + count d earlier :=
  List.countP_append

/-- Lines are listed in the order in which they were taken, and calls newest first. -/
@[simp]
theorem taken_append (made earlier : List Call) :
    taken (made ++ earlier) = taken earlier ++ taken made := by
  simp [taken]

@[simp]
theorem direction_refusal (d : Direction) : d.refusal.direction = d := by
  cases d <;> rfl

@[simp]
theorem taken_refusal (d : Direction) : taken [d.refusal] = [] := by
  cases d <;> rfl

end Call

namespace Channel

variable {α : Type} {d e : Direction}

@[simp]
theorem breakage_breaking_self (d : Direction) (b : Option Breakage) (c : Channel) :
    (c.breaking d b).breakage d = b := by
  cases d <;> rfl

theorem breakage_breaking_of_ne (h : e ≠ d) (b : Option Breakage) (c : Channel) :
    (c.breaking d b).breakage e = c.breakage e := by
  cases d with
  | writing =>
    cases e with
    | writing => exact absurd rfl h
    | reading => rfl
  | reading =>
    cases e with
    | writing => rfl
    | reading => exact absurd rfl h

theorem breaking_breaking_self (d : Direction) (b b' : Option Breakage) (c : Channel) :
    (c.breaking d b).breaking d b' = c.breaking d b' := by
  cases d <;> rfl

/-- How the two directions fail can be set in any order. -/
theorem breaking_comm (h : e ≠ d) (b b' : Option Breakage) (c : Channel) :
    (c.breaking d b).breaking e b' = (c.breaking e b').breaking d b := by
  cases d with
  | writing =>
    cases e with
    | writing => exact absurd rfl h
    | reading => rfl
  | reading =>
    cases e with
    | writing => rfl
    | reading => exact absurd rfl h

theorem breaking_breakage (d : Direction) (c : Channel) : c.breaking d (c.breakage d) = c := by
  cases d <;> rfl

theorem breaking_none {c : Channel} (h : c.breakage d = none) : c.breaking d none = c := by
  rw [← h]
  exact breaking_breakage d c

theorem breaking_recording (d : Direction) (b : Option Breakage) (call : Call)
    (rest : List String) (c : Channel) :
    (c.recording call rest).breaking d b = (c.breaking d b).recording call rest :=
  rfl

/-- A call does not mind how the other direction is going to fail. -/
theorem answer_breaking_of_ne {call : Call} (h : call.direction ≠ d) (a : α) (rest : List String)
    (b : Option Breakage) (c : Channel) :
    answer call a rest (c.breaking d b) =
      ((answer call a rest c).1, (answer call a rest c).2.breaking d b) := by
  unfold answer
  rw [breakage_breaking_of_ne h]
  cases Breakage.count (c.breakage call.direction) with
  | error reason => rfl
  | ok later =>
    dsimp only
    rw [breaking_recording, breaking_comm h]

theorem answer_of_none {call : Call} {c : Channel} (h : c.breakage call.direction = none) (a : α)
    (rest : List String) : answer call a rest c = (.ok a, c.recording call rest) := by
  rw [answer, h]
  dsimp only [Breakage.count]
  rw [breaking_none h]

/-- Once no call is left, a call is refused, and so is every later one. -/
theorem answer_breaking_zero (call : Call) (a : α) (rest : List String) (reason : String)
    (c : Channel) :
    answer call a rest (c.breaking call.direction (some ⟨0, reason⟩)) = (.error ⟨.io, reason⟩,
      (c.recording call.direction.refusal c.unread).breaking call.direction
        (some ⟨0, reason⟩)) := by
  rw [answer, breakage_breaking_self]
  rfl

/-- A call that is granted leaves one less before the first refusal. -/
theorem answer_breaking_succ (call : Call) (a : α) (rest : List String) (k : Nat)
    (reason : String) (c : Channel) :
    answer call a rest (c.breaking call.direction (some ⟨k + 1, reason⟩)) =
      (.ok a, (c.breaking call.direction (some ⟨k, reason⟩)).recording call rest) := by
  rw [answer, breakage_breaking_self]
  dsimp only [Breakage.count]
  rw [breaking_breaking_self]

end Channel

namespace Interpreter

variable {α β : Type} {s s' s'' : Interpreter} {d : Direction} {b : Breakage}
  {made earlier : List Call}

/-- The interpreter on a channel with a direction that is going to fail. -/
def breaking (d : Direction) (b : Breakage) (s : Interpreter) : Interpreter :=
  { s with channel := s.channel.breaking d (some b) }

/-! ## Two runs -/

/-- A stretch of a run on which a direction did not fail, with its calls, newest first. -/
structure Unfailing (d : Direction) (made : List Call) (s s' : Interpreter) : Prop where
  calls : s'.channel.calls = made ++ s.channel.calls
  unread : s.channel.unread = Call.taken made ++ s'.channel.unread
  granted : d.refusal ∉ made
  unbroken : s'.channel.breakage d = none

theorem Unfailing.of_channel (h : s'.channel = s.channel) (hs : s.channel.breakage d = none) :
    Unfailing d [] s s' :=
  ⟨by rw [h]; rfl, by rw [h]; rfl, List.not_mem_nil, by rw [h, hs]⟩

/-- Two stretches without a failure make one, with the calls of both. -/
theorem Unfailing.trans (h : Unfailing d earlier s s') (h' : Unfailing d made s' s'') :
    Unfailing d (made ++ earlier) s s'' where
  calls := by rw [h'.calls, h.calls, List.append_assoc]
  unread := by rw [h.unread, h'.unread, Call.taken_append, List.append_assoc]
  granted hmem := (List.mem_append.1 hmem).elim h'.granted h.granted
  unbroken := h'.unbroken

/-- A result of the kind that a refused call has. -/
def Refused (x : Except Stop α) : Prop :=
  ∃ f, x = .error (.fault f) ∧ f.kind = .io

/-- How a run from `s` ends, and how it ends if a direction fails as `b` says. -/
inductive Broken (d : Direction) (b : Breakage) (s : Interpreter) :
    Except Stop α × Interpreter → Except Stop α × Interpreter → Prop where
  /-- There were not more calls than the direction allows for. -/
  | spared (x : Except Stop α) {s' : Interpreter} {made : List Call} (h : Unfailing d made s s')
    (hle : Call.count d made ≤ b.after) :
    Broken d b s (x, s') (x, s'.breaking d ⟨b.after - Call.count d made, b.reason⟩)
  /-- A call was refused, and nothing was called after it. -/
  | cut {p q : Except Stop α × Interpreter} {late early : List Call} {call : Call}
    (h : Unfailing d (late ++ call :: early) s p.2) (hcall : call.direction = d)
    (hcount : Call.count d early = b.after)
    (hcalls : q.2.channel.calls = d.refusal :: (early ++ s.channel.calls))
    (hunread : s.channel.unread = Call.taken early ++ q.2.channel.unread)
    (hrefused : Refused q.1) : Broken d b s p q

namespace Broken

variable {p q : Except Stop α × Interpreter}

/-- A run that leaves the channel alone is spared, whatever its result. -/
theorem of_channel (x : Except Stop α) (h : s'.channel = s.channel)
    (hs : s.channel.breakage d = none) : Broken d b s (x, s') (x, s'.breaking d b) :=
  spared x (.of_channel h hs) (Nat.zero_le _)

/-- The first of the two runs does not fail. -/
theorem unfailing (h : Broken d b s p q) : ∃ made, Unfailing d made s p.2 := by
  cases h with
  | spared x h _ => exact ⟨_, h⟩
  | cut h _ _ _ _ _ => exact ⟨_, h⟩

/-- What is spared at first may be cut later, by so many calls less. -/
theorem after (h : Unfailing d made s s') (hle : Call.count d made ≤ b.after)
    (h' : Broken d ⟨b.after - Call.count d made, b.reason⟩ s' p q) : Broken d b s p q := by
  cases h' with
  | @spared x _ later h' hle' =>
    have hcount : Call.count d (later ++ made) ≤ b.after := by
      rw [Call.count_append]
      exact Nat.add_le_of_le_sub hle hle'
    rw [Nat.sub_sub, Nat.add_comm, ← Call.count_append]
    exact spared x (h.trans h') hcount
  | @cut _ _ late early call h' hcall hcount hcalls hunread hrefused =>
    have htrans := h.trans h'
    rw [List.append_assoc, List.cons_append] at htrans
    refine cut htrans hcall ?_ ?_ ?_ hrefused
    · rw [Call.count_append, hcount]
      exact Nat.sub_add_cancel hle
    · rw [hcalls, h.calls, List.append_assoc]
    · rw [h.unread, hunread, Call.taken_append, List.append_assoc]

/-- A call in the other direction is no concern of the one that fails. -/
theorem recording (call : Call) (hd : call.direction ≠ d) (x : Except Stop α)
    (hs : s'.channel.breakage d = none) (hcalls : s'.channel.calls = call :: s.channel.calls)
    (hunread : s.channel.unread = Call.taken [call] ++ s'.channel.unread) :
    Broken d b s (x, s') (x, s'.breaking d b) := by
  have hgranted : d.refusal ∉ [call] := by
    rintro (_ | _)
    · exact hd (Call.direction_refusal d)
    · contradiction
  have hcount : Call.count d [call] = 0 := by simp [Call.count, hd]
  have hspared := spared (b := b) x ⟨hcalls, hunread, hgranted, hs⟩ (hcount ▸ Nat.zero_le _)
  rwa [hcount] at hspared

/-- A call in the other direction may be refused itself, but in both runs alike. -/
theorem answer_of_ne {call : Call} (hd : call.direction ≠ d) (a : α) {rest : List String}
    (hs : s.channel.breakage d = none) (hunread : s.channel.unread = Call.taken [call] ++ rest) :
    Broken d b s (onChannel (Channel.answer call a rest) s)
      (onChannel (Channel.answer call a rest) (s.breaking d b)) := by
  have hbreaking : onChannel (Channel.answer call a rest) (s.breaking d b) =
      ((onChannel (Channel.answer call a rest) s).1,
        (onChannel (Channel.answer call a rest) s).2.breaking d b) :=
    onChannel_of (Channel.answer_breaking_of_ne hd a rest _ _)
  rw [hbreaking]
  rcases hcount : Breakage.count (s.channel.breakage call.direction) with reason | later
  · have hanswer : Channel.answer call a rest s.channel = (.error ⟨.io, reason⟩,
        s.channel.recording call.direction.refusal s.channel.unread) := by
      rw [Channel.answer, hcount]
    rw [onChannel_of hanswer]
    refine recording call.direction.refusal ?_ _ hs rfl ?_
    · rwa [Call.direction_refusal]
    · rw [Call.taken_refusal]
      rfl
  · have hanswer : Channel.answer call a rest s.channel = (.ok a,
        (s.channel.breaking call.direction later).recording call rest) := by
      rw [Channel.answer, hcount]
    rw [onChannel_of hanswer]
    refine recording call hd _ ?_ rfl hunread
    exact (Channel.breakage_breaking_of_ne (Ne.symm hd) _ _).trans hs

/-- A call in the direction that fails is refused, or brings the first refusal nearer. -/
theorem answer_self {call : Call} (a : α) {rest : List String}
    (hs : s.channel.breakage call.direction = none) (hgranted : call ≠ call.direction.refusal)
    (hunread : s.channel.unread = Call.taken [call] ++ rest) :
    Broken call.direction b s (onChannel (Channel.answer call a rest) s)
      (onChannel (Channel.answer call a rest) (s.breaking call.direction b)) := by
  have hgoes : Unfailing call.direction ([] ++ [call]) s
      { s with channel := s.channel.recording call rest } :=
    ⟨rfl, hunread, by simpa using hgranted.symm, hs⟩
  rw [onChannel_of (Channel.answer_of_none hs a rest)]
  obtain ⟨k, reason⟩ := b
  cases k with
  | zero =>
    rw [onChannel_of (s := s.breaking _ _) (Channel.answer_breaking_zero call a rest reason _)]
    exact cut hgoes rfl rfl rfl rfl ⟨_, rfl, rfl⟩
  | succ k =>
    have hcount : Call.count call.direction ([] ++ [call]) = 1 := by simp [Call.count]
    have hspared := spared (b := ⟨k + 1, reason⟩) (.ok a) hgoes (hcount ▸ Nat.le_add_left 1 k)
    rw [hcount] at hspared
    rw [onChannel_of (s := s.breaking _ _) (Channel.answer_breaking_succ call a rest k reason _)]
    exact hspared

/-- One call compares with itself, in both directions. -/
theorem answer (call : Call) (a : α) {rest : List String} (hs : s.channel.breakage d = none)
    (hgranted : call ≠ call.direction.refusal)
    (hunread : s.channel.unread = Call.taken [call] ++ rest) :
    Broken d b s (onChannel (Channel.answer call a rest) s)
      (onChannel (Channel.answer call a rest) (s.breaking d b)) := by
  by_cases hd : call.direction = d
  · subst hd
    exact answer_self a hs hgranted hunread
  · exact answer_of_ne hd a hs hunread

end Broken

/-- Runs that a broken channel cuts off. -/
def Breaks (d : Direction) : Relation := fun _ act act' => ∀ s b,
  s.channel.breakage d = none → Broken d b s (act s) (act' (s.breaking d b))

/-- Runs that do no more than pass on the result. -/
def PassesOn (act : Run α) : Prop :=
  ∀ s, Refused (act s).1 ∧ (act s).2.channel = s.channel

namespace Breaks

/-! ## Steps -/

/-- A run that does not look at the channel is spared. -/
theorem of_channel {act : Run α} (hchannel : ∀ s, (act s).2.channel = s.channel)
    (hbreaking : ∀ s b, act (s.breaking d b) = ((act s).1, (act s).2.breaking d b)) :
    Breaks d α act act := by
  intro s b hs
  rw [hbreaking]
  exact .of_channel _ (hchannel s) hs

theorem write (text : String) :
    Breaks d Unit (onChannel (Channel.write text)) (onChannel (Channel.write text)) :=
  fun _ _ hs => .answer (.wrote text) () hs nofun rfl

theorem report (text : String) :
    Breaks d Unit (onChannel (Channel.report text)) (onChannel (Channel.report text)) :=
  fun _ _ hs => .answer (.reported text) () hs nofun rfl

/-- A read may find the end of the input, and that too is a call that can be refused. -/
theorem read : Breaks d (Option String) (onChannel Channel.read) (onChannel Channel.read) := by
  intro s b hs
  cases hu : s.channel.unread with
  | nil =>
    rw [onChannel_congr (Channel.read_of_nil hu),
      onChannel_congr (s := s.breaking d b) (Channel.read_of_nil hu)]
    exact .answer .ended none hs nofun hu
  | cons line rest =>
    rw [onChannel_congr (Channel.read_of_cons hu),
      onChannel_congr (s := s.breaking d b) (Channel.read_of_cons hu)]
    exact .answer (.took line) (some line) hs nofun hu

/-- Of the steps only a write is a call on the channel. -/
theorem step {act : Run α} (h : Step act) : Breaks d α act act := by
  cases h with
  | write text => exact write text
  | _ => exact of_channel (fun _ => rfl) fun _ _ => rfl

/-! ## Where a run goes on after another -/

/-- A run goes on after another one. If what follows is cut off by a broken channel, and only
passes on a refusal, then this holds of the whole. -/
theorem attempt_bind {act act' : Run α} {next next' : Except Stop α → Run β}
    (h : Breaks d α act act') (hnext : ∀ x, Breaks d β (next x) (next' x))
    (hpass : ∀ x, Refused x → PassesOn (next' x)) :
    Breaks d β (attempt act >>= next) (attempt act' >>= next') := by
  intro s b hs
  rw [CellForth.attempt_bind, CellForth.attempt_bind]
  have hact := h s b hs
  generalize act s = p, act' (s.breaking d b) = q at hact
  cases hact with
  | spared x h hle => exact .after h hle (hnext x _ _ h.unbroken)
  | cut h hcall hcount hcalls hunread hrefused =>
    -- the run that is not cut goes on, so its calls are added to the late ones
    obtain ⟨more, hmore⟩ := (hnext _ _ b h.unbroken).unfailing
    have htrans := h.trans hmore
    rw [← List.append_assoc] at htrans
    obtain ⟨hr, hc⟩ := hpass _ hrefused q.2
    refine .cut htrans hcall hcount ?_ ?_ hr
    · rw [hc, hcalls]
    · rw [hc, hunread]

theorem pure (a : α) : Breaks d α (Pure.pure a) (Pure.pure a) :=
  of_channel (fun _ => rfl) fun _ _ => rfl

theorem throw (e : Stop) : Breaks d α (MonadExcept.throw e) (MonadExcept.throw e) :=
  of_channel (fun _ => rfl) fun _ _ => rfl

/-- A fault that is passed on calls nothing, so a refusal in the first part cuts off the whole. -/
theorem bind {act act' : Run α} {next next' : α → Run β} (h : Breaks d α act act')
    (hnext : ∀ a, Breaks d β (next a) (next' a)) :
    Breaks d β (act >>= next) (act' >>= next') := by
  rw [bind_eq_attempt_bind act, bind_eq_attempt_bind act']
  refine attempt_bind h ?_ ?_
  · rintro (e | a)
    · exact throw e
    · exact hnext a
  · rintro _ ⟨f, rfl, hf⟩ s
    exact ⟨⟨f, rfl, hf⟩, rfl⟩

theorem recover (f : Fault) : Breaks d Unit (recover f) (recover f) :=
  bind (report _) fun _ => of_channel (fun _ => rfl) fun _ _ => rfl

/-- The faults that are recovered from are not fatal, and a refusal is, so it is passed on. -/
theorem recovering {act act' next next' : Run Flow} {done done' : Run Unit}
    (h : Breaks d Flow act act') (hdone : Breaks d Unit done done')
    (hnext : Breaks d Flow next next') :
    Breaks d Flow (recovering act done next) (recovering act' done' next') := by
  refine attempt_bind h ?_ ?_
  · rintro ((f | -) | (- | -))
    · dsimp only
      split
      · exact throw _
      · exact bind (recover f) fun _ => hnext
    · exact throw _
    · exact bind hdone fun _ => hnext
    · exact pure _
  · rintro _ ⟨f, rfl, hf⟩ s
    have hfatal : f.isFatal = true := decide_eq_true hf
    simp only [hfatal, if_true]
    exact ⟨⟨f, rfl, hf⟩, rfl⟩

/-- A refusal gets the place as any fault does, and stays a refusal. -/
theorem locating {act act' next next' : Run Flow} (place : String) (h : Breaks d Flow act act')
    (hnext : Breaks d Flow next next') :
    Breaks d Flow (locating place act next) (locating place act' next') := by
  refine attempt_bind h ?_ ?_
  · rintro ((f | -) | (- | -))
    · exact throw _
    · exact throw _
    · exact hnext
    · exact pure _
  · rintro _ ⟨f, rfl, hf⟩ s
    exact ⟨⟨f.within place, rfl, hf⟩, rfl⟩

/-- A refused read ends the read loop, and a refusal inside its line is passed on. -/
theorem takeLineWith {nested nested' : String → Run Flow} {next next' : Run Flow}
    (hn : ∀ line, Breaks d Flow (nested line) (nested' line)) (hnext : Breaks d Flow next next') :
    Breaks d Flow (takeLineWith nested next) (takeLineWith nested' next') := by
  refine bind read fun line => ?_
  cases line with
  | none => exact pure _
  | some line => exact recovering (hn line) (write _) hnext

theorem enter (line : String) : Breaks d (Nat × Cursor) (enter line) (enter line) :=
  bind (of_channel (fun _ => rfl) fun _ _ => rfl) fun _ =>
    of_channel (fun _ => rfl) fun _ _ => rfl

/-- A line that is left touches only the machine and the trace, so a refusal passes through it. -/
theorem within {body body' : Run Flow} (line : String) (h : Breaks d Flow body body') :
    Breaks d Flow (within line body) (within line body') := by
  refine bind (enter line) fun (depth, saved) => attempt_bind h (fun x => ?_) ?_
  · exact of_channel (fun _ => rfl) fun _ _ => rfl
  · rintro _ ⟨f, rfl, hf⟩ s
    exact ⟨⟨f, rfl, hf⟩, rfl⟩

/-- A broken channel cuts off every line, token, word and read loop. -/
theorem closed : Closed (Breaks d) where
  pure := pure
  step := step
  bind := bind
  count h := by cases h <;> exact of_channel (fun _ => rfl) fun _ _ => rfl
  tooDeep := throw _
  takeLineWith := takeLineWith
  within := within

/-! ## Lines, files and sessions -/

theorem interpret (line : String) : Breaks d Flow (interpret line) (interpret line) :=
  bind (of_channel (fun _ => rfl) fun _ _ => rfl) fun n => closed.interpretAt n line

theorem quit : Breaks d Flow quit quit :=
  bind (of_channel (fun _ => rfl) fun _ _ => rfl) fun n => closed.quitWith (closed.interpretAt n)

section Files

variable {nested : String → Run Flow} (hn : ∀ line, Breaks d Flow (nested line) (nested line))
include hn

theorem loadLinesWith (name : String) (pieces : List (List UInt8)) : ∀ number,
    Breaks d Flow (loadLinesWith nested name number pieces)
      (loadLinesWith nested name number pieces) := by
  induction pieces with
  | nil => exact fun _ => pure _
  | cons piece pieces ih =>
    intro number
    unfold Interpreter.loadLinesWith
    split
    · exact throw _
    · exact locating _ (hn _) (ih (number + 1))

theorem loadWith (files : Files) (name : String) :
    Breaks d Flow (loadWith nested files name) (loadWith nested files name) := by
  unfold Interpreter.loadWith
  split
  · exact loadLinesWith hn name _ 1
  · exact throw _

theorem loadAllWith (files : Files) (names : List String) :
    Breaks d Flow (loadAllWith nested files names) (loadAllWith nested files names) := by
  induction names with
  | nil => exact pure _
  | cons name names ih => exact recovering (loadWith hn files name) (pure _) ih

/-- A refusal ends a session, in its files, in its greeting or in its read loop. -/
theorem sessionWith {loop : Run Flow} (hloop : Breaks d Flow loop loop) (files : Files)
    (names : List String) (greet : Bool) :
    Breaks d Unit (sessionWith nested loop files names greet)
      (sessionWith nested loop files names greet) := by
  refine bind (loadAllWith hn files names) fun flow => ?_
  have hdiscard : Breaks d Unit (discard loop) (discard loop) := bind hloop fun _ => pure _
  cases flow with
  | exit => exact pure _
  | proceed =>
    cases greet with
    | true => exact bind (write _) fun _ => hdiscard
    | false => exact hdiscard

end Files

end Breaks

/-! ## Calls -/

/-- The calls that a run makes on the channel, in order. -/
def callsOf (act : Run α) (s : Interpreter) : List Call :=
  (act s).2.channel.calls.reverse.drop s.channel.calls.length

/-- The calls that a run makes in a direction, in order. -/
def callsIn (d : Direction) (act : Run α) (s : Interpreter) : List Call :=
  (callsOf act s).filter (·.direction = d)

/-- A run that is cut off where the direction fails, compared with the run on a channel that does
not fail: up to the first refusal both make the same calls and take the same lines, nothing is
called after it, and it is the result. -/
structure CutOff (d : Direction) (b : Breakage) (act : Run α) (s : Interpreter)
    (before : List Call) (call : Call) (after : List Call) : Prop where
  unfailing : callsOf act s = before ++ call :: after
  direction : call.direction = d
  granted : before.filter (·.direction = d) = (callsIn d act s).take b.after
  failing : callsOf act (s.breaking d b) = before ++ [d.refusal]
  taken : s.channel.unread =
    before.filterMap Call.line? ++ (act (s.breaking d b)).2.channel.unread
  refused : Refused (act (s.breaking d b)).1

/-- What a direction that fails after so many calls means for a run: nothing if the run makes no
more calls than that, and else the run is cut off. -/
structure BrokenOff (d : Direction) (b : Breakage) (act : Run α) (s : Interpreter) : Prop where
  granted : d.refusal ∉ callsOf act s
  taken : s.channel.unread = (callsOf act s).filterMap Call.line? ++ (act s).2.channel.unread
  spared : (callsIn d act s).length ≤ b.after → act (s.breaking d b) =
    ((act s).1, (act s).2.breaking d ⟨b.after - (callsIn d act s).length, b.reason⟩)
  cut : b.after < (callsIn d act s).length →
    ∃ before call after, CutOff d b act s before call after

theorem callsOf_eq {act : Run α} (h : (act s).2.channel.calls = made ++ s.channel.calls) :
    callsOf act s = made.reverse := by
  rw [callsOf, h, List.reverse_append, ← List.length_reverse, List.drop_left]

theorem length_callsIn {act : Run α} (h : callsOf act s = made.reverse) :
    (callsIn d act s).length = Call.count d made := by
  rw [callsIn, h, ← List.countP_eq_length_filter, List.countP_reverse]
  rfl

theorem Unfailing.refusal_notMem {act : Run α} (h : Unfailing d made s (act s).2) :
    d.refusal ∉ callsOf act s := by
  rw [callsOf_eq h.calls, List.mem_reverse]
  exact h.granted

theorem Unfailing.unread_eq {act : Run α} (h : Unfailing d made s (act s).2) :
    s.channel.unread = (callsOf act s).filterMap Call.line? ++ (act s).2.channel.unread := by
  rw [callsOf_eq h.calls]
  exact h.unread

/-- What two runs come to on the record of a channel is what a caller can see of them. -/
theorem Breaks.brokenOff {act : Run α} (h : Breaks d α act act)
    (hs : s.channel.breakage d = none) (b : Breakage) : BrokenOff d b act s := by
  have hbroken := h s b hs
  generalize hp : act s = p, hq : act (s.breaking d b) = q at hbroken
  cases hbroken with
  | @spared x s' made hgoes hle =>
    have hgoes : Unfailing d made s (act s).2 := hp ▸ hgoes
    have hlength : (callsIn d act s).length = Call.count d made :=
      length_callsIn (callsOf_eq hgoes.calls)
    refine ⟨hgoes.refusal_notMem, hgoes.unread_eq, fun _ => ?_, fun hlt => ?_⟩
    · rw [hq, hp, hlength]
    · omega
  | @cut _ _ late early call hgoes hcall hcount hcalls hunread hrefused =>
    have hgoes : Unfailing d (late ++ call :: early) s (act s).2 := hp ▸ hgoes
    -- The record is newest first, so the calls before the refusal come last in it.
    have hunfailing : callsOf act s = early.reverse ++ call :: late.reverse := by
      rw [callsOf_eq hgoes.calls]
      simp
    have hbefore : (early.reverse.filter (·.direction = d)).length = b.after := by
      rw [← List.countP_eq_length_filter, List.countP_reverse]
      exact hcount
    have hin : callsIn d act s = early.reverse.filter (·.direction = d) ++
        call :: late.reverse.filter (·.direction = d) := by
      rw [callsIn, hunfailing]
      simp [hcall]
    refine ⟨hgoes.refusal_notMem, hgoes.unread_eq, fun hle => ?_, fun _ =>
      ⟨early.reverse, call, late.reverse, hunfailing, hcall, ?_, ?_, ?_, ?_⟩⟩
    · rw [hin, List.length_append, hbefore, List.length_cons] at hle
      omega
    · rw [hin, ← hbefore, List.take_left]
    · have hfailing : (act (s.breaking d b)).2.channel.calls =
          (d.refusal :: early) ++ (s.breaking d b).channel.calls := by
        rw [hq, hcalls]
        rfl
      rw [callsOf_eq hfailing, List.reverse_cons]
    · rw [hq]
      exact hunread
    · rw [hq]
      exact hrefused

/-- A channel that fails in a direction cuts off every call at the first refusal, and changes
nothing before that. -/
theorem calls_broken_off (b : Breakage) (hs : s.channel.breakage d = none) :
    (∀ line, BrokenOff d b (interpret line) s) ∧ BrokenOff d b quit s ∧
    (∀ files name, BrokenOff d b (load files name) s) ∧
    ∀ files names greet, BrokenOff d b (session files names greet) s :=
  ⟨fun line => (Breaks.interpret line).brokenOff hs b, Breaks.quit.brokenOff hs b,
    fun files name => (Breaks.loadWith Breaks.interpret files name).brokenOff hs b,
    fun files names greet =>
      (Breaks.sessionWith Breaks.interpret Breaks.quit files names greet).brokenOff hs b⟩

/-- The third write of a line that reads two others is refused. -/
theorem calls_broken_off_quit :
    (new 2 (.ofLines ["1 .", "2 ."])).channel.breakage .writing = none ∧
    2 < (callsIn .writing (interpret "quit") (new 2 (.ofLines ["1 .", "2 ."]))).length ∧
    BrokenOff .writing ⟨2, "closed"⟩ (interpret "quit") (new 2 (.ofLines ["1 .", "2 ."])) :=
  ⟨rfl, by decide +kernel, (calls_broken_off ⟨2, "closed"⟩ rfl).1 "quit"⟩

end Interpreter

end CellForth
