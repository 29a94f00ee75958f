import CellForth.Proofs.Rules
import CellForth.Proofs.StackEffects

/-!
# Calls of a run

The calls that a run makes on the channel are those of its events (`Runs.makes`), and the lines
that they took are the lines no longer unread, in order.

A fatal fault is a fault of the outside world. Words refuse for reasons of their own, so if the
host words do not fail in this way, a run ends with a fatal fault only where a call was refused
(`Runs.refuses_of_isFatal`). On a channel that does not break, no run does (`Steady`).
-/

namespace CellForth

/-- Calls that lead from one channel to another, newest first: they are remembered, and the lines
that they took are no longer unread. -/
structure Channel.Makes (made : List Call) (c c' : Channel) : Prop where
  calls : c'.calls = made ++ c.calls
  unread : c.unread = Call.taken made ++ c'.unread

namespace Channel.Makes

variable {made later : List Call} {c c' c'' : Channel}

theorem refl (c : Channel) : Makes [] c c :=
  ⟨rfl, rfl⟩

theorem trans (h : Makes made c c') (h' : Makes later c' c'') : Makes (later ++ made) c c'' :=
  ⟨by rw [h'.calls, h.calls, List.append_assoc],
    by rw [h.unread, h'.unread, Call.taken_append, List.append_assoc]⟩

/-- A write is one call, granted or refused, and takes no line. -/
theorem of_write {text : String} {x : Except Fault Unit} (h : write text c = (x, c')) :
    ∃ call, Makes [call] c c' ∧ call.direction = .writing := by
  cases x with
  | ok a =>
    obtain ⟨-, hunread, hcalls⟩ := eq_of_answer_ok h
    exact ⟨.wrote text, ⟨hcalls, hunread.symm⟩, rfl⟩
  | error f =>
    obtain ⟨-, hunread, hcalls⟩ := eq_of_answer_error h
    exact ⟨.refusedWrite, ⟨hcalls, hunread.symm⟩, rfl⟩

theorem of_report {text : String} {x : Except Fault Unit} (h : report text c = (x, c')) :
    ∃ call, Makes [call] c c' ∧ call.direction = .writing := by
  cases x with
  | ok a =>
    obtain ⟨-, hunread, hcalls⟩ := eq_of_answer_ok h
    exact ⟨.reported text, ⟨hcalls, hunread.symm⟩, rfl⟩
  | error f =>
    obtain ⟨-, hunread, hcalls⟩ := eq_of_answer_error h
    exact ⟨.refusedWrite, ⟨hcalls, hunread.symm⟩, rfl⟩

theorem of_read_none (h : read c = (.ok none, c')) : Makes [.ended] c c' := by
  obtain ⟨hunread, hcalls⟩ := eq_of_read_none h
  exact ⟨hcalls, by rw [unread_of_read_none h, hunread]; rfl⟩

theorem of_read_some {line : String} (h : read c = (.ok (some line), c')) :
    Makes [.took line] c c' :=
  ⟨calls_of_read_some h, unread_of_read_some h⟩

theorem of_read_error {f : Fault} (h : read c = (.error f, c')) : Makes [.refusedRead] c c' := by
  obtain ⟨-, hunread, hcalls⟩ := eq_of_read_error h
  exact ⟨hcalls, hunread.symm⟩

end Channel.Makes

/-- A call was refused on the way from one channel to another. -/
def Channel.Refuses (c c' : Channel) : Prop :=
  ∃ (made : List Call) (d : Direction), c'.calls = made ++ c.calls ∧ d.refusal ∈ made

namespace Channel

variable {c c' c'' : Channel}

theorem breakage_recording (d : Direction) (call : Call) (rest : List String) (c : Channel) :
    (c.recording call rest).breakage d = c.breakage d := by
  cases d <;> rfl

/-- Calls only add to the record and take lines from the front. -/
theorem Makes.leads {made : List Call} (h : Makes made c c') : c.Leads c' :=
  ⟨⟨_, h.unread.symm⟩, ⟨_, h.calls.symm⟩⟩

/-- A call that was refused later was refused on the whole way. -/
theorem Leads.trans_refuses (h : c.Leads c') (h' : c'.Refuses c'') : c.Refuses c'' := by
  obtain ⟨earlier, hearlier⟩ := h.calls
  obtain ⟨made, d, hcalls, hmem⟩ := h'
  exact ⟨made ++ earlier, d, by rw [hcalls, ← hearlier, List.append_assoc],
    List.mem_append_left earlier hmem⟩

theorem refuses_of_answer_error {α : Type} {call : Call} {a : α} {rest : List String} {f : Fault}
    (h : answer call a rest c = (.error f, c')) : c.Refuses c' :=
  ⟨[call.direction.refusal], call.direction, (eq_of_answer_error h).2.2, List.mem_singleton_self _⟩

theorem refuses_of_read_error {f : Fault} (h : read c = (.error f, c')) : c.Refuses c' :=
  ⟨[.refusedRead], .reading, (eq_of_read_error h).2.2, List.mem_singleton_self _⟩

end Channel

/-- Memory refuses for reasons of its own. -/
theorem Memory.Operation.isFatal_of_error {α : Type} {t : Transaction Memory α}
    (h : Memory.Operation t) {m : Memory} {f : Fault} (ht : t m = .error f) :
    f.isFatal = false := by
  cases h with
  | allocate count =>
    unfold Memory.allocate at ht
    split at ht <;> cases ht
    rfl
  | fetch a =>
    unfold Memory.fetch at ht
    split at ht <;> cases ht
    rfl
  | store a v =>
    unfold Memory.store at ht
    split at ht <;> cases ht
    rfl

namespace Interpreter

/-- A run that only writes on the channel. -/
def Writes {α : Type} (act : Run α) (s : Interpreter) : Prop :=
  ∃ made, Channel.Makes made s.channel (act s).2.channel ∧ ∀ call ∈ made, call.direction = .writing

variable {s s' s₁ : Interpreter} {p : Part} {i : Item} {es : List Event} {x : Except Fault Flow}
  {line : String} {c : Channel}

/-! ## The calls of a run are those of its events -/

/-- What is made of steps only writes: lines are taken by the read loop alone. -/
theorem Made.writes {α : Type} {act : Run α} (h : Made act) (s : Interpreter) : Writes act s := by
  induction h generalizing s with
  | pure a => exact ⟨[], .refl _, nofun⟩
  | step hstep =>
    cases hstep with
    | write text =>
      rcases hw : Channel.write text s.channel with ⟨x, c⟩
      obtain ⟨call, hcall, hd⟩ := Channel.Makes.of_write hw
      refine ⟨[call], ?_, by simpa using hd⟩
      rw [onChannel_of hw]
      exact hcall
    | _ => exact ⟨[], .refl _, nofun⟩
  | @bind _ _ act next _ _ ih ihnext =>
    obtain ⟨made, hmade, hw⟩ := ih s
    unfold Writes
    rw [bind_apply]
    rcases hx : act s with ⟨e | a, s'⟩ <;> rw [hx] at hmade
    · exact ⟨made, hmade, hw⟩
    · obtain ⟨later, hlater, hw'⟩ := ihnext a s'
      refine ⟨later ++ made, hmade.trans hlater, fun call hcall => ?_⟩
      exact (List.mem_append.1 hcall).elim (hw' call) (hw call)

/-- However a line is acknowledged, there is at most one write for it. -/
theorem writes_acknowledge (x : Except Fault Flow) (s : Interpreter) :
    Writes (acknowledge x) s := by
  have hway := acknowledges x s
  unfold Writes
  generalize acknowledge x s = r at hway
  cases hway with
  | leaves => exact ⟨[], .refl _, nofun⟩
  | fatal _ => exact ⟨[], .refl _, nofun⟩
  | prompts h =>
    obtain ⟨call, hcall, hd⟩ := Channel.Makes.of_write h
    exact ⟨[call], hcall, by simpa using hd⟩
  | unprompted h =>
    obtain ⟨call, hcall, hd⟩ := Channel.Makes.of_write h
    exact ⟨[call], hcall, by simpa using hd⟩
  | recovers _ h =>
    obtain ⟨call, hcall, hd⟩ := Channel.Makes.of_report h
    exact ⟨[call], hcall, by simpa using hd⟩
  | unreported _ h =>
    obtain ⟨call, hcall, hd⟩ := Channel.Makes.of_report h
    exact ⟨[call], hcall, by simpa using hd⟩

/-- The calls of a run that writes are those it adds to the record. -/
theorem Writes.makes {α : Type} {act : Run α} (h : Writes act s) :
    Channel.Makes (callsOf act s).reverse s.channel (act s).2.channel := by
  obtain ⟨made, hmade, -⟩ := h
  rw [callsOf_eq hmade.calls, List.reverse_reverse]
  exact hmade

theorem Writes.direction {α : Type} {act : Run α} (h : Writes act s) :
    ∀ call ∈ callsOf act s, call.direction = .writing := by
  obtain ⟨made, hmade, hw⟩ := h
  rw [callsOf_eq hmade.calls]
  simpa using hw

theorem callsOf_eq_nil {α : Type} {act : Run α} {r : Except Stop α} (h : act s = (r, s'))
    (hcalls : s'.channel.calls = s.channel.calls) : callsOf act s = [] := by
  have hmade : (act s).2.channel.calls = [] ++ s.channel.calls := by
    rw [h]
    exact hcalls
  exact callsOf_eq hmade

theorem callsOf_eq_singleton {α : Type} {act : Run α} {r : Except Stop α} {call : Call}
    (h : act s = (r, s')) (hcalls : s'.channel.calls = call :: s.channel.calls) :
    callsOf act s = [call] := by
  have hmade : (act s).2.channel.calls = [call] ++ s.channel.calls := by
    rw [h]
    exact hcalls
  exact callsOf_eq hmade

/-- The calls that events are, in order. -/
def Event.calls (es : List Event) : List Call :=
  es.filterMap Event.call?

theorem Event.calls_append (es es' : List Event) :
    Event.calls (es ++ es') = Event.calls es ++ Event.calls es' :=
  List.filterMap_append

/-- The events of an item are its calls, after the mark that it began. -/
theorem Item.calls_events (i : Item) (s : Interpreter) :
    Event.calls (i.events s) = callsOf i.lead s := by
  have hbeginning : Event.calls i.beginning = [] := by cases i <;> rfl
  have hevent : Event.call? ∘ i.event = some := by
    funext call
    unfold Item.event
    dsimp only [Function.comp]
    split <;> rfl
  rw [Item.events, Event.calls_append, hbeginning, List.nil_append, Event.calls,
    List.filterMap_map, hevent, List.filterMap_some]

theorem calls_acknowledgement (line : String) (x : Except Fault Flow) (s : Interpreter) :
    Event.calls (acknowledgement line x s) = callsOf (acknowledge x) s := by
  have hevent : Event.call? ∘ Event.acknowledged line = some := rfl
  rw [acknowledgement, Event.calls, List.filterMap_map, hevent, List.filterMap_some]

theorem channel_of_readWord {d : UInt8} {word : Except Stop (Option String)}
    (h : readWord d s = (word, s')) : s'.channel = s.channel :=
  congrArg (·.2.channel) h.symm

/-- What an item does itself, it does by the calls of its events. -/
theorem Item.makes_of_lead {r : Except Stop (Flow ⊕ Part)} (h : i.lead s = (r, s')) :
    Channel.Makes (Event.calls (i.events s)).reverse s.channel s'.channel := by
  have hmakes := (i.made_lead.writes s).makes
  rwa [h, ← Item.calls_events] at hmakes

/-- A line that is taken, run and acknowledged. -/
theorem makes_of_acknowledge {s₂ : Interpreter} {r : Except Stop (Option Flow)}
    (hread : Channel.read s.channel = (.ok (some line), c))
    (hline : Channel.Makes (Event.calls es).reverse c s₁.channel)
    (hack : acknowledge x s₁ = (r, s₂)) :
    Channel.Makes (Event.calls (.asked (.took line) :: es ++ acknowledgement line x s₁)).reverse
      s.channel s₂.channel := by
  have hmakes := (writes_acknowledge x s₁).makes
  rw [hack, ← calls_acknowledgement line] at hmakes
  have hall := ((Channel.Makes.of_read_some hread).trans hline).trans hmakes
  rw [Event.calls_append, List.reverse_append]
  simpa [Event.calls, Event.call?] using hall

/-- The calls of a run are those of its events, and the lines that they took are no longer
unread. -/
theorem Runs.makes (h : Runs p s es x s') :
    Channel.Makes (Event.calls es).reverse s.channel s'.channel := by
  induction h with
  | full h => exact .refl _
  | line h _ ih => exact ih
  | noWord h =>
    rw [channel_of_readWord h]
    exact .refl _
  | nextWord h _ _ ih ih' =>
    rw [channel_of_readWord h] at ih
    rw [Event.calls_append, List.reverse_append]
    exact ih.trans ih'
  | lastWord h _ _ ih => rwa [channel_of_readWord h] at ih
  | done h => exact Item.makes_of_lead h
  | refused h => exact Item.makes_of_lead h
  | handsOver h _ ih =>
    rw [Event.calls_append, List.reverse_append]
    exact (Item.makes_of_lead h).trans ih
  | ended h => exact .of_read_none h
  | unread h => exact .of_read_error h
  | readsOn h _ hack _ ih ih' =>
    rw [Event.calls_append, List.reverse_append]
    exact (makes_of_acknowledge h ih hack).trans ih'
  | leaves h _ hack ih => exact makes_of_acknowledge h ih hack
  | breaksOff h _ hack ih => exact makes_of_acknowledge h ih hack

/-- The calls of a read loop: its first prompt, and those of its events. -/
theorem Runs.callsOf_quit (hs : s.HostsKeepReturns)
    (h : Channel.write prompt s.channel = (.ok (), c))
    (hloop : Runs .loop { s with channel := c } es x s') :
    callsOf quit s = .wrote prompt :: Event.calls es := by
  have hcalls : (quit s).2.channel.calls =
      ((Event.calls es).reverse ++ [.wrote prompt]) ++ s.channel.calls := by
    rw [hloop.quit_eq hs h, hloop.makes.calls, (Channel.eq_of_answer_ok h).2.2]
    simp
  rw [callsOf_eq hcalls, List.reverse_append, List.reverse_reverse]
  rfl

/-! ## Fatal faults -/

variable {α : Type} {f : Fault}

/-- Host words do not fail for reasons of the outside world. -/
def HostsNotFatal (s : Interpreter) : Prop :=
  ∀ code ∈ s.hostCode, ∀ m f, (code m).1 = .error f → f.isFatal = false

theorem of_onMachine_error {act : Machine.Action α}
    (h : onMachine act s = (.error (.fault f), s')) :
    (act s.machine).1 = .error f := by
  rcases hact : act s.machine with ⟨g | a, m⟩ <;> rw [onMachine_of hact] at h <;> cases h
  rfl

theorem of_onChannel_error {act : Channel.Action α}
    (h : onChannel act s = (.error (.fault f), s')) : act s.channel = (.error f, s'.channel) := by
  rcases hact : act s.channel with ⟨g | a, c⟩ <;> rw [onChannel_of hact] at h <;> cases h
  rfl

/-- A handle without code does nothing, so it does not fail either. -/
theorem HostsNotFatal.getD (hs : s.HostsNotFatal) (handle : Nat) (m : Machine)
    (h : ((s.hostCode.getD handle (pure ())) m).1 = .error f) : f.isFatal = false := by
  by_cases hlt : handle < s.hostCode.size
  · rw [Array.getD, dif_pos hlt] at h
    exact hs _ (Array.getElem_mem hlt) m f h
  · rw [Array.getD, dif_neg hlt] at h
    cases h

/-- A step ends with a fatal fault only if it is a call that was refused. -/
theorem Step.refuses_of_isFatal {act : Run α} (h : Step act) (hs : s.HostsNotFatal)
    (hact : act s = (.error (.fault f), s')) (hf : f.isFatal = true) :
    s.channel.Refuses s'.channel := by
  have hcontra : f.isFatal = false → s.channel.Refuses s'.channel := fun h => by simp [h] at hf
  cases h with
  | stack hop =>
    have herror := of_onMachine_error hact
    exact hcontra (hop.isFatal_of_error (Transaction.settle_eq_error_iff.1 herror))
  | memory hop =>
    have herror := of_onMachine_error hact
    exact hcontra (hop.isFatal_of_error (Transaction.settle_eq_error_iff.1 herror))
  | trial hop => cases of_onMachine_error hact
  | refuse g hg =>
    cases hact
    exact hcontra hg
  | host word => exact hcontra (hs.getD word.handle s.machine (of_onMachine_error hact))
  | write text => exact Channel.refuses_of_answer_error (of_onChannel_error hact)
  | begin t => cases hact
  | readWord d => cases hact
  | parse d => cases hact
  | findWord name => cases hact
  | names => cases hact
  | data => cases hact

/-- No step defines a host word. -/
theorem Made.hostCode {act : Run α} (h : Made act) (s : Interpreter) :
    (act s).2.hostCode = s.hostCode := by
  induction h generalizing s with
  | pure a => rfl
  | step hstep => cases hstep <;> rfl
  | @bind _ _ act next _ _ ih ihnext =>
    have hact := ih s
    rw [bind_apply]
    rcases hx : act s with ⟨e | a, s'⟩ <;> rw [hx] at hact
    · exact hact
    · exact (ihnext a s').trans hact

theorem HostsNotFatal.of_eq (hs : s.HostsNotFatal) (h : s'.hostCode = s.hostCode) :
    s'.HostsNotFatal := by
  unfold HostsNotFatal
  rw [h]
  exact hs

/-- What is made of steps ends with a fatal fault only where a call was refused. -/
theorem Made.refuses_of_isFatal {act : Run α} (h : Made act) (hs : s.HostsNotFatal)
    (hact : act s = (.error (.fault f), s')) (hf : f.isFatal = true) :
    s.channel.Refuses s'.channel := by
  induction h generalizing s s' with
  | pure a => cases hact
  | step hstep => exact hstep.refuses_of_isFatal hs hact hf
  | @bind _ _ act next h hnext ih ihnext =>
    rw [bind_apply] at hact
    rcases hx : act s with ⟨e | a, s₁⟩ <;> rw [hx] at hact
    · cases hact
      exact ih hs hx
    · have hcode := h.hostCode s
      have hleads := (h.writes s).makes.leads
      rw [hx] at hcode hleads
      exact hleads.trans_refuses (ihnext a (hs.of_eq hcode) hact)

theorem Runs.hostCode (h : Runs p s es x s') : s'.hostCode = s.hostCode := by
  induction h with
  | full h => rfl
  | line h _ ih => exact ih
  | noWord h => exact congrArg (·.2.hostCode) h.symm
  | nextWord h _ _ ih ih' => exact ih'.trans (ih.trans (congrArg (·.2.hostCode) h.symm))
  | lastWord h _ _ ih => exact ih.trans (congrArg (·.2.hostCode) h.symm)
  | @done s _ i _ h => exact (congrArg (·.2.hostCode) h.symm).trans (i.made_lead.hostCode s)
  | @refused s _ i _ h => exact (congrArg (·.2.hostCode) h.symm).trans (i.made_lead.hostCode s)
  | @handsOver s _ _ i _ _ _ h _ ih =>
    exact ih.trans ((congrArg (·.2.hostCode) h.symm).trans (i.made_lead.hostCode s))
  | ended h => rfl
  | unread h => rfl
  | readsOn h _ hack _ ih ih' => exact ih'.trans ((Acknowledges.of_eq hack).hostCode.trans ih)
  | leaves h _ hack ih => exact (Acknowledges.of_eq hack).hostCode.trans ih
  | breaksOff h _ hack ih => exact (Acknowledges.of_eq hack).hostCode.trans ih

/-- A run ends with a fatal fault only if a call was refused. -/
theorem Runs.refuses_of_isFatal (h : Runs p s es x s') (hs : s.HostsNotFatal)
    (hx : x = .error f) (hf : f.isFatal = true) : s.channel.Refuses s'.channel := by
  induction h with
  | full h =>
    cases hx
    cases hf
  | line h _ ih => exact ih hs hx
  | noWord h => cases hx
  | nextWord h hword _ _ ih' =>
    have hleads := hword.makes.leads
    rw [channel_of_readWord h] at hleads
    refine hleads.trans_refuses (ih' (hs.of_eq ?_) hx)
    exact hword.hostCode.trans (congrArg (·.2.hostCode) h.symm)
  | lastWord h _ _ ih =>
    rw [← channel_of_readWord h]
    exact ih (hs.of_eq (congrArg (·.2.hostCode) h.symm)) hx
  | done h => cases hx
  | @refused s s' i _ h =>
    cases hx
    exact i.made_lead.refuses_of_isFatal hs h hf
  | @handsOver s s₁ _ i _ _ _ h _ ih =>
    have hcode := i.made_lead.hostCode s
    rw [h] at hcode
    exact (Item.makes_of_lead h).leads.trans_refuses (ih (hs.of_eq hcode) hx)
  | ended h => cases hx
  | unread h => exact Channel.refuses_of_read_error h
  | readsOn h hline hack _ _ ih' =>
    have hleads := (makes_of_acknowledge h hline.makes hack).leads
    refine hleads.trans_refuses (ih' (hs.of_eq ?_) hx)
    exact (Acknowledges.of_eq hack).hostCode.trans hline.hostCode
  | leaves h _ hack ih => cases hx
  | breaksOff h hline hack ih =>
    cases hx
    -- The loop ends with the fault of the line, or because a prompt or a report was refused.
    have hread := (Channel.Makes.of_read_some h).leads
    cases Acknowledges.of_eq hack with
    | fatal _ => exact hread.trans_refuses (ih hs rfl)
    | unprompted hw =>
      exact (hread.trans hline.makes.leads).trans_refuses (Channel.refuses_of_answer_error hw)
    | unreported _ hw =>
      exact (hread.trans hline.makes.leads).trans_refuses (Channel.refuses_of_answer_error hw)

/-- A read loop goes on after every other fault. -/
theorem Runs.isFatal_of_loop (h : Runs p s es x s') (hp : p = .loop) (hx : x = .error f) :
    f.isFatal = true := by
  induction h with
  | full _ => cases hp
  | line _ _ _ => cases hp
  | noWord _ => cases hp
  | nextWord _ _ _ _ _ => cases hp
  | lastWord _ _ _ _ => cases hp
  | done _ => cases hp
  | refused _ => cases hp
  | handsOver _ _ _ => cases hp
  | ended _ => cases hx
  | unread h =>
    cases hx
    exact (Channel.eq_of_read_error h).1
  | readsOn _ _ _ _ _ ih' => exact ih' rfl hx
  | leaves _ _ _ _ => cases hx
  | breaksOff _ _ hack _ =>
    cases hx
    cases Acknowledges.of_eq hack with
    | fatal hf => exact hf
    | unprompted hw => exact (Channel.eq_of_answer_error hw).1
    | unreported _ hw => exact (Channel.eq_of_answer_error hw).1

/-! ## Host words to be trusted -/

/-- Host words leave the return stack as they found it, and do not fail for reasons of the outside
world. -/
structure Trusted (s : Interpreter) : Prop where
  returns : s.HostsKeepReturns
  hosts : s.HostsNotFatal

namespace Trusted

theorem of_eq (hs : s.Trusted) (h : s'.hostCode = s.hostCode) : s'.Trusted where
  returns := by
    unfold HostsKeepReturns
    rw [h]
    exact hs.returns
  hosts := hs.hosts.of_eq h

/-- A new interpreter has no host words that could not be trusted. -/
theorem new (capacity : Nat) (channel : Channel) : (Interpreter.new capacity channel).Trusted where
  returns := hostsKeepReturns_new capacity channel
  hosts _ hcode := absurd hcode (Array.not_mem_empty _)

theorem defineHost {code : Machine.Action Unit} (hs : s.Trusted)
    (hreturns : ∀ m, (code m).2.returns = m.returns)
    (hfatal : ∀ m f, (code m).1 = .error f → f.isFatal = false) (name : String) :
    (s.defineHost name code).Trusted where
  returns := hs.returns.defineHost hreturns name
  hosts code' hcode := by
    rcases Array.mem_push.1 hcode with h | rfl
    · exact hs.hosts code' h
    · exact hfatal

end Trusted

/-! ## Channels that do not break -/

/-- An interpreter on which nothing of the outside world goes wrong. -/
structure Steady (s : Interpreter) : Prop extends Trusted s where
  unbroken : ∀ d, s.channel.breakage d = none

/-- A channel made of lines does not break. -/
theorem steady_new (capacity : Nat) (lines : List String) :
    (new capacity (.ofLines lines)).Steady where
  toTrusted := .new capacity _
  unbroken d := by cases d <;> rfl

namespace Steady

variable (hs : s.Steady)
include hs

/-- A call on a channel that does not break is answered. -/
theorem answer {a : α} {call : Call} {rest : List String} :
    Channel.answer call a rest s.channel = (.ok a, s.channel.recording call rest) :=
  Channel.answer_of_none (hs.unbroken _) a rest

theorem of_eq (hcode : s'.hostCode = s.hostCode) (hchannel : s'.channel = s.channel) :
    s'.Steady where
  toTrusted := hs.toTrusted.of_eq hcode
  unbroken := hchannel ▸ hs.unbroken

theorem defineHost {code : Machine.Action Unit} (hreturns : ∀ m, (code m).2.returns = m.returns)
    (hfatal : ∀ m f, (code m).1 = .error f → f.isFatal = false) (name : String) :
    (s.defineHost name code).Steady where
  toTrusted := hs.toTrusted.defineHost hreturns hfatal name
  unbroken := hs.unbroken

theorem readWord {d : UInt8} {word : Except Stop (Option String)}
    (h : Interpreter.readWord d s = (word, s')) : s'.Steady :=
  hs.of_eq (congrArg (·.2.hostCode) h.symm) (channel_of_readWord h)

/-- An item leaves the host words as they are, and a channel that does not break stays so. -/
theorem lead {r : Except Stop (Flow ⊕ Part)} (h : i.lead s = (r, s')) : s'.Steady where
  toTrusted := by
    have hcode := i.made_lead.hostCode s
    rw [h] at hcode
    exact hs.toTrusted.of_eq hcode
  unbroken d := by
    have hbroken := (Breaks.closed.made i.made_lead s ⟨0, ""⟩ (hs.unbroken d)).unfailing
    rw [h] at hbroken
    exact hbroken.choose_spec.unbroken

theorem recording (call : Call) (rest : List String) :
    Steady { s with channel := s.channel.recording call rest } where
  toTrusted := hs.toTrusted.of_eq rfl
  unbroken d := (Channel.breakage_recording d _ _ _).trans (hs.unbroken d)

/-- Taking a line, or finding that there is none, does not break the channel. -/
theorem read {r : Option String} (h : Channel.read s.channel = (.ok r, c)) :
    Steady { s with channel := c } := by
  cases hu : s.channel.unread with
  | nil =>
    rw [Channel.read_of_nil hu, hs.answer] at h
    cases h
    exact hs.recording _ _
  | cons line rest =>
    rw [Channel.read_of_cons hu, hs.answer] at h
    cases h
    exact hs.recording _ _

theorem acknowledge (h : Acknowledges s x (.ok none, s')) : s'.Steady := by
  cases h with
  | prompts h =>
    rw [Channel.write, hs.answer] at h
    cases h
    exact hs.recording _ _
  | recovers _ h =>
    rw [Channel.report, hs.answer] at h
    cases h
    exact (hs.recording _ _).of_eq rfl rfl

end Steady

theorem Part.breaks (d : Direction) : ∀ p : Part, Breaks d Flow p.run p.run
  | .line text => Breaks.interpret text
  | .rest => Breaks.closed.lineWith Breaks.interpret
  | .item (.word text) => Breaks.closed.wordWith
      (Breaks.closed.executeTokenWith Breaks.interpret) text
  | .item (.token t) => Breaks.closed.executeTokenWith Breaks.interpret t
  | .loop => Breaks.closed.readLoopWith Breaks.interpret

theorem Runs.unfailing {d : Direction} (h : Runs p s es x s') (hs : s.HostsKeepReturns)
    (hd : s.channel.breakage d = none) : ∃ made, Unfailing d made s s' := by
  have hbroken := (p.breaks d s ⟨0, ""⟩ hd).unfailing
  rwa [h.sound hs] at hbroken

/-- On a channel that does not break, no call is refused. -/
theorem Runs.not_refuses (h : Runs p s es x s') (hs : s.Steady) :
    ¬ s.channel.Refuses s'.channel := by
  rintro ⟨made, d, hcalls, hmem⟩
  obtain ⟨made', hmade'⟩ := h.unfailing hs.returns (hs.unbroken d)
  obtain rfl : made' = made := List.append_cancel_right (hmade'.calls.symm.trans hcalls)
  exact hmade'.granted hmem

/-- A channel that does not break still does not after a run. -/
theorem Runs.steady (h : Runs p s es x s') (hs : s.Steady) : s'.Steady where
  toTrusted := hs.toTrusted.of_eq h.hostCode
  unbroken d := (h.unfailing hs.returns (hs.unbroken d)).choose_spec.unbroken

/-- On a channel that does not break, no run ends with a fatal fault. -/
theorem Runs.isFatal_of_steady (h : Runs p s es x s') (hs : s.Steady) (hx : x = .error f) :
    f.isFatal = false := by
  cases hf : f.isFatal with
  | false => rfl
  | true => exact absurd (h.refuses_of_isFatal hs.hosts hx hf) (h.not_refuses hs)

end Interpreter

end CellForth
