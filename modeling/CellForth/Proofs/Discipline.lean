import CellForth.Proofs.Composition

/-!
# What a run leaves as it was

`Leads s s'` is what a run can do to an interpreter apart from the data stack, memory and the
trace: the dictionary stays, the line is only read on, lines are only taken off the channel, no
call is forgotten, and the return stack stays as it was unless a read loop recovered from a
fault. Then a line was taken for good, a report was written, and the return stack is empty.

It holds for every run if the host words leave the return stack alone (`HostsKeepReturns`).
The argument is a step for each part of a run and an induction over the levels
(`Disciplined.closed`); the one place with an argument of its own is `within`, where the return
stack is cut back to a depth that an inner recovery may have undercut.
-/

namespace CellForth.Interpreter

variable {α : Type} {s s' s'' : Interpreter}

/-- Host words leave the return stack as they found it, however they end. -/
def HostsKeepReturns (s : Interpreter) : Prop :=
  ∀ code ∈ s.hostCode, ∀ m, (code m).2.returns = m.returns

/-- A read loop recovered on the way from one state to another. -/
structure Recovered (s s' : Interpreter) : Prop where
  returns : s'.machine.returns = s.machine.returns.clear
  unread : s'.channel.unread.length < s.channel.unread.length
  reports : s.channel.reports.length < s'.channel.reports.length

/-- What a run can do to an interpreter. -/
structure Leads (s s' : Interpreter) : Prop where
  dictionary : s'.dictionary = s.dictionary
  hostCode : s'.hostCode = s.hostCode
  rest : s'.cursor.rest <:+ s.cursor.rest
  channel : s.channel.Leads s'.channel
  returns : s'.machine.returns = s.machine.returns ∨ Recovered s s'

/-- A single step does not touch the return stack. -/
theorem Step.returns {act : Run α} (h : Step act) (hs : s.HostsKeepReturns) :
    (act s).2.machine.returns = s.machine.returns := by
  cases h with
  | host word =>
    show ((s.hostCode.getD word.handle (pure ())) s.machine).2.returns = s.machine.returns
    by_cases hw : word.handle < s.hostCode.size
    · rw [Array.getD, dif_pos hw]
      exact hs _ (Array.getElem_mem hw) _
    · rw [Array.getD, dif_neg hw]
      rfl
  | _ => rfl

namespace Leads

theorem refl (s : Interpreter) : Leads s s :=
  ⟨rfl, rfl, List.suffix_rfl, .refl _, Or.inl rfl⟩

/-- Two stretches of a run make one: what was recovered stays recovered. -/
theorem trans (h : Leads s s') (h' : Leads s' s'') : Leads s s'' where
  dictionary := h'.dictionary.trans h.dictionary
  hostCode := h'.hostCode.trans h.hostCode
  rest := h'.rest.trans h.rest
  channel := h.channel.trans h'.channel
  returns := by
    have hunread := h.channel.unread.length_le
    have hunread' := h'.channel.unread.length_le
    have hreports := h.channel.reports.length_le
    have hreports' := h'.channel.reports.length_le
    rcases h.returns with hr | hr <;> rcases h'.returns with hr' | hr'
    · exact Or.inl (hr'.trans hr)
    · exact Or.inr ⟨by rw [hr'.returns, hr], by have := hr'.unread; omega,
        by have := hr'.reports; omega⟩
    · exact Or.inr ⟨by rw [hr', hr.returns], by have := hr.unread; omega,
        by have := hr.reports; omega⟩
    · exact Or.inr ⟨by rw [hr'.returns, hr.returns]; rfl, by have := hr.unread; omega,
        by have := hr.reports; omega⟩

/-- The host words are the same afterwards, so they still leave the return stack alone. -/
theorem hosts (h : Leads s s') (hs : s.HostsKeepReturns) : s'.HostsKeepReturns := by
  unfold HostsKeepReturns
  rw [h.hostCode]
  exact hs

/-- The return stack is the one on entry, or empty. -/
theorem returns_or_clear (h : Leads s s') : s'.machine.returns = s.machine.returns ∨
    s'.machine.returns = s.machine.returns.clear :=
  h.returns.imp id Recovered.returns

/-- No run changes how much the return stack can hold. -/
theorem returns_capacity (h : Leads s s') :
    s'.machine.returns.capacity = s.machine.returns.capacity := by
  rcases h.returns_or_clear with hr | hr <;> rw [hr]
  rfl

/-- Only a recovery clears the return stack, and a recovery is reported. -/
theorem returns_of_reports (h : Leads s s') (hr : s'.channel.reports = s.channel.reports) :
    s'.machine.returns = s.machine.returns := by
  rcases h.returns with h | h
  · exact h
  · have := h.reports
    rw [hr] at this
    omega

/-! ## Steps -/

/-- An action that leaves the return stack alone keeps to the discipline. -/
theorem of_machine {act : Machine.Action α}
    (h : (act s.machine).2.returns = s.machine.returns) : Leads s (onMachine act s).2 :=
  ⟨rfl, rfl, List.suffix_rfl, .refl _, Or.inl h⟩

theorem of_channel {c : Channel} (h : s.channel.Leads c) : Leads s { s with channel := c } :=
  ⟨rfl, rfl, List.suffix_rfl, h, Or.inl rfl⟩

/-- Reading on in the line keeps to the discipline, since the cursor only goes forward. -/
theorem of_cursor {c : Cursor} (h : c.rest <:+ s.cursor.rest) : Leads s { s with cursor := c } :=
  ⟨rfl, rfl, h, .refl _, Or.inl rfl⟩

/-- Steps keep to the discipline, host words by the hypothesis on their code. -/
theorem step {act : Run α} (h : Step act) (hs : s.HostsKeepReturns) : Leads s (act s).2 := by
  cases h with
  | stack _ => exact of_machine rfl
  | memory _ => exact of_machine rfl
  | trial _ => exact of_machine rfl
  | refuse f _ => exact refl s
  | host word => exact of_machine (Step.host word |>.returns hs)
  | begin t => exact ⟨rfl, rfl, List.suffix_rfl, .refl _, Or.inl rfl⟩
  | readWord d => exact of_cursor (Cursor.rest_readWord d s.cursor)
  | parse d => exact of_cursor (Cursor.rest_parse d s.cursor)
  | write text => exact of_channel (Channel.leads_of_write rfl)
  | findWord name => exact refl s
  | names => exact refl s
  | data => exact refl s

theorem count {act : Run Nat} (h : Count act) : Leads s (act s).2 := by
  cases h <;> exact refl s

end Leads

/-! ## Runs -/

/-- Runs that do to an interpreter what `Leads` allows. -/
def Disciplined : Relation := fun _ act _ => ∀ s, s.HostsKeepReturns → Leads s (act s).2

/-- Runs that keep to the discipline do so in order. -/
theorem Disciplined.bind {β : Type} {act act' : Run α} {next next' : α → Run β}
    (h : Disciplined α act act') (hnext : ∀ a, Disciplined β (next a) (next' a)) :
    Disciplined β (act >>= next) (act' >>= next') := by
  intro s hs
  have hact := h s hs
  rw [bind_apply]
  rcases hx : act s with ⟨e | a, s'⟩ <;> rw [hx] at hact
  · exact hact
  · exact hact.trans (hnext a s' (hact.hosts hs))

/-- A line was taken, and after it the stacks were emptied: that is a recovery. -/
theorem Leads.recovered {c c' : Channel} {line : String} {f : Fault}
    (hread : Channel.read s.channel = (.ok (some line), c))
    (h : Leads { s with channel := c } s')
    (hrep : Channel.report f.report s'.channel = (.ok (), c')) :
    Leads s { s' with
      machine := s'.machine.reset, channel := c', trace := .recovered :: s'.trace } := by
  have hs' : Leads s s' := (of_channel (Channel.leads_of_read hread)).trans h
  have hc' : s'.channel.Leads c' := Channel.leads_of_report hrep
  refine ⟨hs'.dictionary, hs'.hostCode, hs'.rest, hs'.channel.trans hc', Or.inr ⟨?_, ?_, ?_⟩⟩
  · show s'.machine.returns.clear = s.machine.returns.clear
    rcases hs'.returns_or_clear with hr | hr
    · rw [hr]
    · rw [hr]
      rfl
  · show c'.unread.length < s.channel.unread.length
    have hle : c'.unread.length ≤ c.unread.length :=
      (hc'.unread.trans h.channel.unread).length_le
    rw [Channel.unread_of_read_some hread, List.length_cons]
    omega
  · show s.channel.reports.length < c'.reports.length
    have hle := hs'.channel.reports.length_le
    rw [Channel.reports_of_report_ok hrep, List.length_append, List.length_singleton]
    omega

/-- What a turn of a loop comes to: it ends the loop, whatever was to follow, or it goes on where
less is left to do. It is cut short only where the word or line inside it was. -/
inductive Turn (turn : Run Flow → Run Flow) (inner : String → Run Flow)
    (left : Interpreter → Nat) (s : Interpreter) : Prop where
  | ends (r : Except Stop Flow × Interpreter) (hr : Leads s r.2) (heq : ∀ next, turn next s = r)
    (hdeep : r.1 = .error .tooDeep → ∃ text s', Leads s s' ∧ inner text s' = r)
  | goesOn (s' : Interpreter) (hs' : Leads s s') (hlt : left s' < left s)
    (heq : ∀ next, turn next s = next s')

/-- A turn of the read loop takes a line, so fewer are left for the turns after it. -/
theorem takeLineWith_turn {nested nested' : String → Run Flow}
    (hn : ∀ line, Disciplined Flow (nested line) (nested' line)) (hs : s.HostsKeepReturns) :
    Turn (takeLineWith nested) nested (·.channel.unread.length) s := by
  rcases hread : Channel.read s.channel with ⟨f | (- | line), c⟩
  · exact .ends _ (.of_channel (Channel.leads_of_read hread))
      (fun _ => takeLineWith_of_error hread) nofun
  · exact .ends _ (.of_channel (Channel.leads_of_read hread))
      (fun _ => takeLineWith_of_none hread) nofun
  have hc : Leads s { s with channel := c } := .of_channel (Channel.leads_of_read hread)
  have hline := hn line { s with channel := c } hs
  -- In this order: the line fails, is cut short, goes through, leaves.
  rcases hx : nested line { s with channel := c } with ⟨(f | -) | (- | -), s'⟩ <;>
    rw [hx] at hline <;>
    have hleads := hc.trans hline <;>
    have hunread : s'.channel.unread.length < s.channel.unread.length := by
      rw [Channel.unread_of_read_some hread, List.length_cons]
      exact Nat.lt_succ_of_le hline.channel.unread.length_le
  all_goals
    have heq : ∀ next, takeLineWith nested next s = _ := fun next =>
      (takeLineWith_of_some hread).trans (recovering_apply _ _ next _)
    simp only [hx] at heq
  · by_cases hfatal : f.isFatal = true
    · exact .ends (.error (.fault f), s') hleads
        (fun next => (heq next).trans (if_pos hfatal)) nofun
    simp only [if_neg hfatal] at heq
    rcases hrep : Channel.report f.report s'.channel with ⟨g | _, c'⟩
    · exact .ends _ (hleads.trans (.of_channel (Channel.leads_of_report hrep)))
        (fun next => (heq next).trans (bind_of_error (recover_of_error hrep))) nofun
    · exact .goesOn _ (hline.recovered hread hrep)
        (Nat.lt_of_le_of_lt (Channel.leads_of_report hrep).unread.length_le hunread)
        (fun next => (heq next).trans (bind_of_ok (recover_of_ok hrep)))
  · exact .ends (.error .tooDeep, s') hleads heq fun _ => ⟨line, _, hc, hx⟩
  · rcases hw : Channel.write prompt s'.channel with ⟨g | _, c'⟩
    · exact .ends _ (hleads.trans (.of_channel (Channel.leads_of_write hw)))
        (fun next => (heq next).trans (bind_of_error (onChannel_of hw))) nofun
    · exact .goesOn _ (hleads.trans (.of_channel (Channel.leads_of_write hw)))
        (Nat.lt_of_le_of_lt (Channel.leads_of_write hw).unread.length_le hunread)
        (fun next => (heq next).trans (bind_of_ok (onChannel_of hw)))
  · exact .ends (.ok .exit, s') hleads heq nofun

/-- A turn of a line takes a word, so fewer bytes are left for the turns after it. -/
theorem nextWordWith_turn {nested : String → Run Flow}
    (hw : ∀ word, Disciplined Flow (wordWith nested word) (wordWith nested word))
    (hs : s.HostsKeepReturns) :
    Turn (nextWordWith nested) (wordWith nested) (·.cursor.rest.length) s := by
  let s₁ : Interpreter := { s with cursor := (s.cursor.readWord Byte.space).2 }
  have hs₁ : Leads s s₁ := .of_cursor (Cursor.rest_readWord _ _)
  have hread : readWord Byte.space s = (.ok (s.cursor.readWord Byte.space).1, s₁) := rfl
  cases hword : (s.cursor.readWord Byte.space).1 with
  | none =>
    rw [hword] at hread
    exact .ends _ hs₁ (fun _ => bind_of_ok hread) nofun
  | some word =>
    rw [hword] at hread
    have hrest : s₁.cursor.rest.length < s.cursor.rest.length :=
      Cursor.length_rest_readWord_lt hword
    have hleads := hw word s₁ hs
    have heq : ∀ next, nextWordWith nested next s = _ := fun next =>
      (bind_of_ok hread).trans (bind_apply _ _ _)
    rcases hx : wordWith nested word s₁ with ⟨e | (- | -), s'⟩ <;> rw [hx] at hleads <;>
      simp only [hx] at heq
    · exact .ends (.error e, s') (hs₁.trans hleads) heq fun he => ⟨word, s₁, hs₁, hx⟩
    · exact .goesOn s' (hs₁.trans hleads)
        (Nat.lt_of_le_of_lt hleads.rest.length_le hrest) heq
    · exact .ends (.ok .exit, s') (hs₁.trans hleads) heq nofun

/-- The turn keeps to the discipline since its line does, and a recovery ends with empty stacks. -/
theorem Disciplined.takeLineWith {nested nested' : String → Run Flow} {next next' : Run Flow}
    (hn : ∀ line, Disciplined Flow (nested line) (nested' line))
    (hnext : Disciplined Flow next next') :
    Disciplined Flow (takeLineWith nested next) (takeLineWith nested' next') := by
  intro s hs
  rcases takeLineWith_turn hn hs with ⟨r, hr, heq, -⟩ | ⟨s', hs', -, heq⟩
  · rw [heq]
    exact hr
  · rw [heq]
    exact hs'.trans (hnext s' (hs'.hosts hs))

/-- What a line puts on the return stack is taken off when it is left, so only a recovery shows. -/
theorem Disciplined.within {body body' : Run Flow} (line : String)
    (h : Disciplined Flow body body') :
    Disciplined Flow (within line body) (within line body') := by
  intro s hs
  cases hfull : s.machine.returns.isFull with
  | true =>
    rw [within_of_full hfull]
    exact .refl s
  | false =>
    rw [within_of_room hfull]
    have hbody := h (s.entering line) hs
    refine ⟨hbody.dictionary, hbody.hostCode, List.suffix_rfl, hbody.channel, ?_⟩
    rcases hbody.returns with hr | hr
    · left
      simp only [leaving, Machine.unnest, hr]
      exact Stack.truncate_cons _ _
    · right
      refine ⟨?_, hr.unread, hr.reports⟩
      -- the remembered depth may lie above the emptied stack: cutting back then does nothing
      simp only [leaving, Machine.unnest, hr.returns]
      exact Stack.truncate_clear _ _

/-- Keeping to the discipline is closed, so it holds of every line, token, word and read loop. -/
theorem Disciplined.closed : Closed Disciplined where
  pure _ s _ := .refl s
  step h _ hs := .step h hs
  bind := .bind
  count h _ _ := .count h
  tooDeep s _ := .refl s
  takeLineWith := .takeLineWith
  within := .within

theorem disciplined_interpret (line : String) :
    Disciplined Flow (interpret line) (interpret line) := by
  intro s hs
  rw [interpret, view_bind]
  exact Disciplined.closed.interpretAt s.levels line s hs

/-- Whatever happens inside, the line that was left is read on from where it was. -/
theorem cursor_within (line : String) (body : Run Flow) (s : Interpreter) :
    (within line body s).2.cursor = s.cursor := by
  cases hfull : s.machine.returns.isFull with
  | true => rw [within_of_full hfull]
  | false =>
    rw [within_of_room hfull]
    rfl

theorem cursor_interpretAt (n : Nat) (line : String) (s : Interpreter) :
    (interpretAt n line s).2.cursor = s.cursor := by
  cases n with
  | zero => rfl
  | succ n => exact cursor_within line _ s

/-! ## Interpreters whose host words leave the return stack alone -/

/-- A new interpreter has no host words. -/
theorem hostsKeepReturns_new (capacity : Nat) (channel : Channel) :
    (new capacity channel).HostsKeepReturns := by
  intro code hcode
  simp [new] at hcode

/-- A host word may be added if its code leaves the return stack alone. -/
theorem HostsKeepReturns.defineHost {code : Machine.Action Unit} (hs : s.HostsKeepReturns)
    (hcode : ∀ m, (code m).2.returns = m.returns) (name : String) :
    (s.defineHost name code).HostsKeepReturns := by
  intro code' hmem
  rcases Array.mem_push.1 hmem with h | rfl
  · exact hs code' h
  · exact hcode

theorem HostsKeepReturns.recover (h : s.HostsKeepReturns) (f : Fault) :
    (recover f s).2.HostsKeepReturns := by
  obtain ⟨c, hc | hc⟩ := recover_state f s <;> rw [hc] <;> exact h

/-! ## What a caller finds -/

/-- The dictionary is as it was, and the return stack is as it was or empty. It is as it was if
no error was reported. -/
structure KeepsReturns (s s' : Interpreter) : Prop where
  dictionary : s'.dictionary = s.dictionary
  returns : s'.machine.returns = s.machine.returns ∨ s'.machine.returns = s.machine.returns.clear
  unreported : s'.channel.reports = s.channel.reports → s'.machine.returns = s.machine.returns

/-- A caller finds the old return stack, or an empty one after a report. -/
theorem Leads.keepsReturns (h : Leads s s') : KeepsReturns s s' :=
  ⟨h.dictionary, h.returns_or_clear, h.returns_of_reports⟩

/-- However a call ends, the dictionary and the return stack are kept as `KeepsReturns` says, and
a line also puts back the cursor. -/
theorem calls_keepReturns (hs : s.HostsKeepReturns) :
    (∀ line, (interpret line s).2.cursor = s.cursor ∧ KeepsReturns s (interpret line s).2) ∧
    (∀ t, KeepsReturns s (execute t s).2) ∧
    (∀ name, KeepsReturns s (executeWord name s).2) ∧
    KeepsReturns s (quit s).2 := by
  have hn : ∀ line, Disciplined Flow (interpretAt s.levels line) (interpretAt s.levels line) :=
    Disciplined.closed.interpretAt s.levels
  refine ⟨fun line => ?_, fun t => ?_, fun name => ?_, ?_⟩
  · rw [interpret, view_bind]
    exact ⟨cursor_interpretAt _ line s, (hn line s hs).keepsReturns⟩
  · rw [execute, view_bind]
    exact (Disciplined.closed.executeTokenWith hn t s hs).keepsReturns
  · rw [executeWord, view_bind]
    exact (Disciplined.closed.executeWordWith hn name s hs).keepsReturns
  · rw [quit, view_bind]
    exact (Disciplined.closed.quitWith hn s hs).keepsReturns

/-- A host word that does nothing, and a read loop that recovers inside the line. -/
theorem calls_keepReturns_quit :
    ((new 3 (.ofLines ["oops"])).defineHost "noop" (pure ())).HostsKeepReturns ∧
    KeepsReturns ((new 3 (.ofLines ["oops"])).defineHost "noop" (pure ()))
      (interpret "noop quit" ((new 3 (.ofLines ["oops"])).defineHost "noop" (pure ()))).2 :=
  have hs := (hostsKeepReturns_new 3 (.ofLines ["oops"])).defineHost (fun _ => rfl) "noop"
  ⟨hs, ((calls_keepReturns hs).1 "noop quit").2⟩

end CellForth.Interpreter
