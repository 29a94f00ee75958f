import CellForth.Proofs.Calls

/-!
# Runs that report a fault

A read loop reports the fault of a line that it took, unless the fault is fatal. `Reports` are the
rules by which a run comes to such a report. The report itself may be refused, and then the calls of
the run do not tell it from a prompt that was refused. If no write is refused, a run comes to a
report exactly if one is among its calls (`Runs.reports_iff`).
-/

namespace CellForth.Interpreter

variable {α : Type} {s s' s₁ s₂ : Interpreter} {p : Part} {es : List Event}
  {x : Except Fault Flow} {line : String} {c : Channel}

/-- A run comes to the point where a read loop reports a fault: a line that it took ended in one
that is not fatal. The report may be refused. -/
inductive Reports : Part → Interpreter → Prop where
  | line {s : Interpreter} {text : String} (h : s.machine.returns.isFull = false)
    (hrest : Reports .rest (s.entering text)) : Reports (.line text) s
  | word {s s₁ : Interpreter} {text : String} (h : readWord Byte.space s = (.ok (some text), s₁))
    (hword : Reports (.item (.word text)) s₁) : Reports .rest s
  | nextWord {s s₁ s₂ : Interpreter} {text : String} {es : List Event}
    (h : readWord Byte.space s = (.ok (some text), s₁))
    (hword : Runs (.item (.word text)) s₁ es (.ok .proceed) s₂) (hrest : Reports .rest s₂) :
    Reports .rest s
  | handsOver {s s₁ : Interpreter} {i : Item} {p : Part} (h : i.lead s = (.ok (.inr p), s₁))
    (hpart : Reports p s₁) : Reports (.item i) s
  | takes {s : Interpreter} {line : String} {c : Channel}
    (h : Channel.read s.channel = (.ok (some line), c))
    (hline : Reports (.line line) { s with channel := c }) : Reports .loop s
  | fails {s s₁ : Interpreter} {line : String} {c : Channel} {es : List Event} {f : Fault}
    (h : Channel.read s.channel = (.ok (some line), c))
    (hline : Runs (.line line) { s with channel := c } es (.error f) s₁)
    (hf : f.isFatal = false) : Reports .loop s
  | readsOn {s s₁ s₂ : Interpreter} {line : String} {c : Channel} {es : List Event}
    {x : Except Fault Flow} (h : Channel.read s.channel = (.ok (some line), c))
    (hline : Runs (.line line) { s with channel := c } es x s₁)
    (hack : acknowledge x s₁ = (.ok none, s₂)) (hloop : Reports .loop s₂) : Reports .loop s

/-! ## Inverting the rules -/

/-- What the rules give is given once. -/
theorem Runs.unique {es' : List Event} {x' : Except Fault Flow} (h : Runs p s es x s₁)
    (h' : Runs p s es' x' s₂) (hs : s.HostsKeepReturns) : x' = x ∧ s₂ = s₁ := by
  have heq := (h'.sound hs).symm.trans (h.sound hs)
  obtain ⟨hx, rfl⟩ := Prod.mk.inj heq
  refine ⟨?_, rfl⟩
  rcases x with f | flow <;> rcases x' with f' | flow' <;> cases hx <;> rfl

/-- The rest of a line in front of a word runs the word, and what is left after it. -/
theorem Runs.of_rest {text : String} (h : readWord Byte.space s = (.ok (some text), s₁))
    (hruns : Runs .rest s es x s') : ∃ es₁ es₂ y s₂, Runs (.item (.word text)) s₁ es₁ y s₂ ∧
      es = es₁ ++ es₂ ∧ (y = .ok .proceed → Runs .rest s₂ es₂ x s') := by
  cases hruns with
  | noWord h' => cases h.symm.trans h'
  | nextWord h' hword hrest =>
    cases h.symm.trans h'
    exact ⟨_, _, _, _, hword, rfl, fun _ => hrest⟩
  | lastWord h' hword hx =>
    cases h.symm.trans h'
    exact ⟨es, [], x, s', hword, (List.append_nil es).symm, fun hy => absurd hy hx⟩

/-- A read loop that takes a line runs it, acknowledges it, and may read on. -/
theorem Runs.of_loop (h : Channel.read s.channel = (.ok (some line), c))
    (hruns : Runs .loop s es x s') :
    ∃ es₁ es₂ y s₁, Runs (.line line) { s with channel := c } es₁ y s₁ ∧
      es = .asked (.took line) :: es₁ ++ acknowledgement line y s₁ ++ es₂ ∧
      ∀ s₂, acknowledge y s₁ = (.ok none, s₂) → Runs .loop s₂ es₂ x s' := by
  cases hruns with
  | ended h' => cases h.symm.trans h'
  | unread h' => cases h.symm.trans h'
  | readsOn h' hline hack hloop =>
    cases h.symm.trans h'
    refine ⟨_, _, _, _, hline, rfl, fun s₂ hack' => ?_⟩
    cases hack.symm.trans hack'
    exact hloop
  | leaves h' hline hack =>
    cases h.symm.trans h'
    exact ⟨_, [], _, _, hline, (List.append_nil _).symm, fun _ hack' => by
      cases hack.symm.trans hack'⟩
  | breaksOff h' hline hack =>
    cases h.symm.trans h'
    exact ⟨_, [], _, _, hline, (List.append_nil _).symm, fun _ hack' => by
      cases hack.symm.trans hack'⟩

/-! ## Reports are calls -/

/-- A fault that is not fatal is reported, unless the report is refused. -/
theorem exists_call_of_acknowledge {f : Fault} (hf : f.isFatal = false) (s : Interpreter) :
    ∃ call ∈ callsOf (acknowledge (.error f)) s,
      call = .refusedWrite ∨ ∃ text, call = .reported text := by
  have hway := acknowledges (.error f) s
  generalize hack : acknowledge (.error f) s = r at hway
  cases hway with
  | fatal h => simp [hf] at h
  | recovers _ h =>
    rw [callsOf_eq_singleton hack (Channel.eq_of_answer_ok h).2.2]
    exact ⟨_, List.mem_singleton_self _, .inr ⟨_, rfl⟩⟩
  | unreported _ h =>
    rw [callsOf_eq_singleton hack (Channel.eq_of_answer_error h).2.2]
    exact ⟨_, List.mem_singleton_self _, .inl rfl⟩

/-- A line is reported only if it failed, and not fatally. -/
theorem of_mem_acknowledge {text : String} (h : .reported text ∈ callsOf (acknowledge x) s) :
    ∃ f, x = .error f ∧ f.isFatal = false := by
  have hway := acknowledges x s
  generalize hack : acknowledge x s = r at hway
  cases hway with
  | prompts hw =>
    rw [callsOf_eq_singleton hack (Channel.eq_of_answer_ok hw).2.2] at h
    cases List.mem_singleton.1 h
  | unprompted hw =>
    rw [callsOf_eq_singleton hack (Channel.eq_of_answer_error hw).2.2] at h
    cases List.mem_singleton.1 h
  | leaves =>
    rw [callsOf_eq_nil hack rfl] at h
    cases h
  | fatal _ =>
    rw [callsOf_eq_nil hack rfl] at h
    cases h
  | recovers hf _ => exact ⟨_, rfl, hf⟩
  | unreported hf _ => exact ⟨_, rfl, hf⟩

/-- Words write, but do not report. -/
theorem Made.not_reported {act : Run α} (h : Made act) (s : Interpreter) (text : String) :
    .reported text ∉ callsOf act s := by
  have hmade : ∃ made, (act s).2.channel.calls = made ++ s.channel.calls ∧
      .reported text ∉ made := by
    induction h generalizing s with
    | pure a => exact ⟨[], rfl, nofun⟩
    | step hstep =>
      cases hstep with
      | write written =>
        rcases hw : Channel.write written s.channel with ⟨f | _, c⟩ <;> rw [onChannel_of hw]
        · exact ⟨[.refusedWrite], (Channel.eq_of_answer_error hw).2.2, by simp⟩
        · exact ⟨[.wrote written], (Channel.eq_of_answer_ok hw).2.2, by simp⟩
      | _ => exact ⟨[], rfl, nofun⟩
    | @bind _ _ act next _ _ ih ihnext =>
      obtain ⟨made, hmade, hnot⟩ := ih s
      rw [bind_apply]
      rcases hx : act s with ⟨e | a, s'⟩ <;> rw [hx] at hmade
      · exact ⟨made, hmade, hnot⟩
      · obtain ⟨later, hlater, hnot'⟩ := ihnext a s'
        refine ⟨later ++ made, by rw [hlater, hmade, List.append_assoc], ?_⟩
        simp [hnot, hnot']
  obtain ⟨made, hcalls, hnot⟩ := hmade
  rwa [callsOf_eq hcalls, List.mem_reverse]

/-- The calls of a turn: the line is taken, run and acknowledged. -/
theorem calls_turn (line : String) (es : List Event) (x : Except Fault Flow) (s : Interpreter) :
    Event.calls (.asked (.took line) :: es ++ acknowledgement line x s) =
      .took line :: (Event.calls es ++ callsOf (acknowledge x) s) := by
  rw [Event.calls_append, calls_acknowledgement]
  rfl

/-- A run that comes to report a fault makes a call for it. -/
theorem Reports.exists_call (h : Reports p s) (hs : s.HostsKeepReturns)
    (hruns : Runs p s es x s') :
    ∃ call ∈ Event.calls es, call = .refusedWrite ∨ ∃ text, call = .reported text := by
  induction h generalizing es x s' with
  | line h _ ih =>
    cases hruns with
    | full hfull => simp [h] at hfull
    | line _ hrest =>
      obtain ⟨call, hcall, hreport⟩ := ih hs hrest
      exact ⟨call, hcall, hreport⟩
  | word h _ ih =>
    have hs₁ := (Leads.step (.readWord Byte.space) hs).hosts hs
    rw [h] at hs₁
    obtain ⟨es₁, es₂, y, s₂, hword, rfl, -⟩ := hruns.of_rest h
    obtain ⟨call, hcall, hreport⟩ := ih hs₁ hword
    exact ⟨call, by simp [Event.calls_append, hcall], hreport⟩
  | nextWord h hword _ ih =>
    have hs₁ := (Leads.step (.readWord Byte.space) hs).hosts hs
    rw [h] at hs₁
    obtain ⟨es₁, es₂, y, s₂, hword', rfl, hrest⟩ := hruns.of_rest h
    -- The word has one run only, so this is the one in which the rest comes to report.
    obtain ⟨rfl, rfl⟩ := hword.unique hword' hs₁
    obtain ⟨call, hcall, hreport⟩ := ih ((hword.leads hs₁).hosts hs₁) (hrest rfl)
    exact ⟨call, by simp [Event.calls_append, hcall], hreport⟩
  | @handsOver _ _ i _ h _ ih =>
    have hs₁ := (Disciplined.closed.made i.made_lead _ hs).hosts hs
    rw [h] at hs₁
    cases hruns with
    | done h' => cases h.symm.trans h'
    | refused h' => cases h.symm.trans h'
    | handsOver h' hpart =>
      cases h.symm.trans h'
      obtain ⟨call, hcall, hreport⟩ := ih hs₁ hpart
      exact ⟨call, by simp [Event.calls_append, hcall], hreport⟩
  | takes h _ ih =>
    obtain ⟨es₁, es₂, y, s₁, hline, rfl, -⟩ := hruns.of_loop h
    obtain ⟨call, hcall, hreport⟩ := ih hs hline
    rw [Event.calls_append, calls_turn]
    exact ⟨call, by simp [hcall], hreport⟩
  | fails h hline hf =>
    obtain ⟨es₁, es₂, y, s₁, hline', rfl, -⟩ := hruns.of_loop h
    obtain ⟨rfl, rfl⟩ := hline.unique hline' hs
    obtain ⟨call, hcall, hreport⟩ := exists_call_of_acknowledge hf s₁
    rw [Event.calls_append, calls_turn]
    exact ⟨call, by simp [hcall], hreport⟩
  | readsOn h hline hack _ ih =>
    obtain ⟨es₁, es₂, y, s₁, hline', rfl, hloop⟩ := hruns.of_loop h
    obtain ⟨rfl, rfl⟩ := hline.unique hline' hs
    obtain ⟨call, hcall, hreport⟩ := ih (((hline.leads hs).hosts hs).acknowledge (.of_eq hack))
      (hloop _ hack)
    rw [Event.calls_append]
    exact ⟨call, List.mem_append_right _ hcall, hreport⟩

/-- A report in a turn is one for the line, or one that was made inside it. -/
theorem reports_of_mem_turn {text : String} (h : Channel.read s.channel = (.ok (some line), c))
    (hline : Runs (.line line) { s with channel := c } es x s₁)
    (ih : .reported text ∈ Event.calls es → Reports (.line line) { s with channel := c })
    (hcall : .reported text ∈
      Event.calls (.asked (.took line) :: es ++ acknowledgement line x s₁)) : Reports .loop s := by
  rw [calls_turn] at hcall
  rcases List.mem_append.1 ((List.mem_cons.1 hcall).resolve_left nofun) with hcall | hcall
  · exact .takes h (ih hcall)
  · obtain ⟨f, rfl, hf⟩ := of_mem_acknowledge hcall
    exact .fails h hline hf

/-- A report that was written is one that the run came to. -/
theorem Runs.reports_of_mem {text : String} (h : Runs p s es x s')
    (hcall : .reported text ∈ Event.calls es) : Reports p s := by
  induction h with
  | full h => cases hcall
  | line h _ ih => exact .line h (ih hcall)
  | noWord h => cases hcall
  | nextWord h hword _ ih ih' =>
    rw [Event.calls_append] at hcall
    rcases List.mem_append.1 hcall with hcall | hcall
    · exact .word h (ih hcall)
    · exact .nextWord h hword (ih' hcall)
  | lastWord h _ _ ih => exact .word h (ih hcall)
  | @done _ _ i _ h =>
    rw [i.calls_events] at hcall
    exact absurd hcall (i.made_lead.not_reported _ _)
  | @refused _ _ i _ h =>
    rw [i.calls_events] at hcall
    exact absurd hcall (i.made_lead.not_reported _ _)
  | @handsOver _ _ _ i _ _ _ h _ ih =>
    rw [Event.calls_append, i.calls_events] at hcall
    rcases List.mem_append.1 hcall with hcall | hcall
    · exact absurd hcall (i.made_lead.not_reported _ _)
    · exact .handsOver h (ih hcall)
  | ended h => cases List.mem_singleton.1 hcall
  | unread h => cases List.mem_singleton.1 hcall
  | readsOn h hline hack _ ih ih' =>
    rw [Event.calls_append] at hcall
    rcases List.mem_append.1 hcall with hcall | hcall
    · exact reports_of_mem_turn h hline ih hcall
    · exact .readsOn h hline hack (ih' hcall)
  | leaves h hline _ ih => exact reports_of_mem_turn h hline ih hcall
  | breaksOff h hline _ ih => exact reports_of_mem_turn h hline ih hcall

/-- If no write is refused, a run comes to a report exactly if one is among its calls. -/
theorem Runs.reports_iff (h : Runs p s es x s') (hs : s.HostsKeepReturns)
    (hwrites : .refusedWrite ∉ Event.calls es) :
    Reports p s ↔ ∃ text, .reported text ∈ Event.calls es := by
  refine ⟨fun hreports => ?_, fun ⟨_, hcall⟩ => h.reports_of_mem hcall⟩
  obtain ⟨call, hcall, rfl | ⟨text, rfl⟩⟩ := hreports.exists_call hs h
  · exact absurd hcall hwrites
  · exact ⟨text, hcall⟩

/-! ## Lines and read loops -/

theorem callsOf_interpret (h : Runs (.line line) s es x s') (hs : s.HostsKeepReturns) :
    callsOf (interpret line) s = Event.calls es := by
  have hsound : interpret line s = (x.mapError .fault, s') := h.sound hs
  have hcalls : (interpret line s).2.channel.calls =
      (Event.calls es).reverse ++ s.channel.calls := by
    rw [hsound]
    exact h.makes.calls
  rw [callsOf_eq hcalls, List.reverse_reverse]

/-- Whether a line comes to a report can be read off its calls. -/
theorem reports_line_iff (hs : s.HostsKeepReturns)
    (hwrites : .refusedWrite ∉ callsOf (interpret line) s) :
    Reports (.line line) s ↔ ∃ text, .reported text ∈ callsOf (interpret line) s := by
  obtain ⟨es, x, s', hruns⟩ := Runs.exists (.line line) hs
  rw [callsOf_interpret hruns hs] at hwrites ⊢
  exact hruns.reports_iff hs hwrites

/-- The read loop of `quit` comes to report a fault. -/
def QuitReports (s : Interpreter) : Prop :=
  ∃ c, Channel.write prompt s.channel = (.ok (), c) ∧ Reports .loop { s with channel := c }

theorem quitReports_iff (hs : s.HostsKeepReturns) (hwrites : .refusedWrite ∉ callsOf quit s) :
    QuitReports s ↔ ∃ text, .reported text ∈ callsOf quit s := by
  rcases hw : Channel.write prompt s.channel with ⟨f | _, c⟩
  · have hquit : quit s = (.error (.fault f), { s with channel := c }) := by
      rw [quit_eq hs, quitWith, bind_of_error (onChannel_of hw)]
    rw [callsOf_eq_singleton hquit (Channel.eq_of_answer_error hw).2.2] at hwrites
    exact absurd (List.mem_singleton_self _) hwrites
  · obtain ⟨es, x, s', hruns⟩ := Runs.exists (s := { s with channel := c }) .loop hs
    rw [hruns.callsOf_quit hs hw] at hwrites ⊢
    have hloop := hruns.reports_iff hs fun hmem => hwrites (List.mem_cons_of_mem _ hmem)
    have hquit : QuitReports s ↔ Reports .loop { s with channel := c } := by
      refine ⟨?_, (⟨c, hw, ·⟩)⟩
      rintro ⟨_, hw', hreports⟩
      cases hw.symm.trans hw'
      exact hreports
    simp only [hquit, hloop, List.mem_cons, reduceCtorEq, false_or]

end CellForth.Interpreter
