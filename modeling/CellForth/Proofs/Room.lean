import CellForth.Proofs.Frame
import CellForth.Proofs.Reporting

/-!
# Room to spare

Two facts about how a run uses its stacks. A run that had enough room and reported no fault does the
same with more room (`withRoom_sameRun`): whether a stack is full, and how deep it is, matters only
where the run is refused for it. And a line that succeeds does not touch the cells below those that
it started with (`interpret_onto`).

Both come from one simulation (`Runs.carries`), by induction on the rules: a run from a state
`Roomier` than another goes through the same steps, as long as the first one does. It cannot be
carried past a report, since a read loop empties both stacks after one and the levels outside of it
are left without their cells.
-/

namespace CellForth.Interpreter

variable {k : Frame} {s s' s₁ s₂ t : Interpreter} {p : Part} {es : List Event}
  {x : Except Fault Flow} {line : String} {c : Channel}

/-! ## The simulation -/

theorem Carried.refl (h : Roomier k s t) : Carried k s t s t :=
  ⟨h, rfl, rfl⟩

namespace Roomier

theorem hostsKeepReturns (h : Roomier k s t) : s.HostsKeepReturns :=
  hostsKeepReturns_of_eq h.hosts

theorem hostsKeepReturns_right (h : Roomier k s t) : t.HostsKeepReturns :=
  hostsKeepReturns_of_eq (h.hostCode.trans h.hosts)

theorem withChannel (h : Roomier k s t) (c : Channel) :
    Carried k s t { s with channel := c } { t with channel := c } :=
  ⟨{ h with channel := rfl }, rfl, rfl⟩

theorem isFull (h : Roomier k s t) (hroom : s.machine.returns.isFull = false) :
    t.machine.returns.isFull = false := by
  have hfree := h.free
  rw [Stack.isFull_eq_false_iff] at hroom ⊢
  simp only [Stack.free] at hfree
  omega

/-- With no room to spare, the return stacks are full together. -/
theorem isFull_of_tight (h : Roomier k s t) (hk : k.tight) :
    t.machine.returns.isFull = s.machine.returns.isFull := by
  rw [Bool.eq_iff_iff, Stack.isFull_iff_free, Stack.isFull_iff_free, h.free_of_tight hk]

/-- A line takes one of the free cells in both states. -/
theorem entering (h : Roomier k s t) (text : String) :
    Roomier k (s.entering text) (t.entering text) := by
  have hfree : ∀ u : Interpreter,
      (u.entering text).machine.returns.free = u.machine.returns.free - 1 := by
    intro u
    simp only [Interpreter.entering, Stack.free, Stack.depth, List.length_cons]
    omega
  refine { h with free := ?_, free_of_tight := fun hk => ?_, cursor := rfl }
  · rw [hfree, hfree]
    exact Nat.sub_le_sub_right h.free 1
  · rw [hfree, hfree, h.free_of_tight hk]

end Roomier

/-- A line that is left takes off the cell that it put there. -/
theorem returns_leaving {text : String}
    (h : s'.machine.returns = (s.entering text).machine.returns) :
    (s'.leaving s.machine.returns.depth s.cursor).machine.returns = s.machine.returns := by
  simp only [leaving, Machine.unnest, h]
  exact Stack.truncate_cons _ _

/-- Two lines side by side are left side by side. -/
theorem Carried.leaving {text : String} {t' : Interpreter} (h : Roomier k s t)
    (hc : Carried k (s.entering text) (t.entering text) s' t') :
    Carried k s t (s'.leaving s.machine.returns.depth s.cursor)
      (t'.leaving t.machine.returns.depth t.cursor) := by
  have hs := returns_leaving hc.returns_left
  have ht := returns_leaving hc.returns_right
  refine ⟨{ hc.roomier with free := ?_, free_of_tight := ?_, cursor := h.cursor }, hs, ht⟩
  · rw [hs, ht]
    exact h.free
  · rw [hs, ht]
    exact h.free_of_tight

/-- What was carried out in the first state is carried out in the second. -/
theorem Carries.of_eq {α : Type} {Q : α → Prop} {act : Run α} {r : Except Stop α}
    (h : Carries k act Q) (hst : Roomier k s t) (hact : act s = (r, s'))
    (hr : ∀ f, r = .error (.fault f) → k.Passes f) :
    (∀ a, r = .ok a → Q a) ∧ ∃ t', act t = (r, t') ∧ Carried k s t s' t' := by
  have hframed := h s t hst
  rw [hact] at hframed
  generalize act t = r' at hframed ⊢
  cases hframed with
  | ok ha hc => exact ⟨fun _ hb => by cases hb; exact ha, _, rfl, hc⟩
  | refused hc => exact ⟨nofun, _, rfl, hc⟩
  | lost hlost => exact absurd (hr _ rfl) hlost

/-- A line that did not fail, or failed for good, is acknowledged without a report. -/
theorem Carries.acknowledge (hx : ∀ f, x = .error f → f.isFatal = true) :
    Carries k (acknowledge x) fun _ => True := by
  rcases x with f | (- | -)
  · rw [Interpreter.acknowledge, if_pos (hx f rfl)]
    exact throw f
  · exact bind (onChannel _) fun _ _ => pure trivial
  · exact pure trivial

/-- A line that failed for good hands its fault on. -/
theorem passes_of_acknowledge {r : Except Stop (Option Flow)}
    (hx : ∀ f, x = .error f → f.isFatal = true) (hack : acknowledge x s = (r, s'))
    (hr : ∀ f, r = .error (.fault f) → k.Passes f) : ∀ f, x = .error f → k.Passes f := by
  rintro f rfl
  rw [acknowledge, if_pos (hx f rfl)] at hack
  cases hack
  exact hr f rfl

/-- A line of a read loop that reports nothing did not fail, or failed for good. -/
theorem isFatal_of_not_reports (hquiet : ¬ Reports .loop s)
    (h : Channel.read s.channel = (.ok (some line), c))
    (hline : Runs (.line line) { s with channel := c } es x s') :
    ∀ f, x = .error f → f.isFatal = true := by
  rintro f rfl
  cases hf : f.isFatal with
  | true => rfl
  | false => exact absurd (.fails h hline hf) hquiet

/-- From every state that differs as the frame says, a part comes to the same result. This is asked
only if the part runs what is allowed, reports nothing, and ends in a way that passes. -/
def Repeats (k : Frame) (p : Part) (s : Interpreter) (x : Except Fault Flow) (s' : Interpreter) :
    Prop :=
  ∀ t, Roomier k s t → p.Within k.held → (k.allowed .quit → ¬ Reports p s) →
    (∀ f, x = .error f → k.Passes f) → ∃ es t', Runs p t es x t' ∧ Carried k s t s' t'

/-- A line that a read loop takes is run and acknowledged in both states. -/
theorem Repeats.acknowledge {r : Except Stop (Option Flow)} (hst : Roomier k s t)
    (hp : k.allowed .quit) (hquiet : k.allowed .quit → ¬ Reports .loop s)
    (h : Channel.read s.channel = (.ok (some line), c))
    (hline : Runs (.line line) { s with channel := c } es x s₁)
    (ih : Repeats k (.line line) { s with channel := c } x s₁)
    (hack : acknowledge x s₁ = (r, s₂)) (hr : ∀ f, r = .error (.fault f) → k.Passes f) :
    ∃ es' t₁ t₂, Channel.read t.channel = (.ok (some line), c) ∧
      Runs (.line line) { t with channel := c } es' x t₁ ∧ Interpreter.acknowledge x t₁ = (r, t₂) ∧
      Carried k s t s₂ t₂ := by
  have hread := hst.withChannel c
  have hfatal := isFatal_of_not_reports (hquiet hp) h hline
  obtain ⟨es', t₁, hruns, hc₁⟩ := ih _ hread.roomier trivial
    (fun hq hreports => hquiet hq (.takes h hreports)) (passes_of_acknowledge hfatal hack hr)
  obtain ⟨-, t₂, hack', hc₂⟩ := (Carries.acknowledge hfatal).of_eq hc₁.roomier hack hr
  exact ⟨es', t₁, t₂, hst.channel ▸ h, hruns, hack', (hread.trans hc₁).trans hc₂⟩

/-- The simulation, by induction on the rules of the first run. -/
theorem Runs.carries (h : Runs p s es x s') : Repeats k p s x s' := by
  induction h with
  | full h =>
    -- if there were more room for lines in the second state, this fault would not pass
    intro t hst _ _ hx
    have htight : k.tight := (hx _ rfl).2.resolve_right fun hkind => hkind rfl
    exact ⟨_, t, .full ((hst.isFull_of_tight htight).trans h), .refl hst⟩
  | line h _ ih =>
    intro t hst _ hquiet hx
    obtain ⟨es', t', hruns, hc⟩ := ih _ (hst.entering _) trivial
      (fun hq hreports => hquiet hq (.line h hreports)) hx
    exact ⟨_, _, .line (hst.isFull h) hruns, .leaving hst hc⟩
  | noWord h =>
    intro t hst _ _ _
    obtain ⟨-, t', hread, hc⟩ := (Carries.readWord _).of_eq hst h nofun
    exact ⟨_, t', .noWord hread, hc⟩
  | nextWord h hword _ ih ih' =>
    intro t hst _ hquiet hx
    obtain ⟨-, t₁, hread, hc⟩ := (Carries.readWord _).of_eq hst h nofun
    obtain ⟨es₁, t₂, hruns, hc₁⟩ := ih _ hc.roomier trivial
      (fun hq hreports => hquiet hq (.word h hreports)) nofun
    obtain ⟨es₂, t₃, hrest, hc₂⟩ := ih' _ hc₁.roomier trivial
      (fun hq hreports => hquiet hq (.nextWord h hword hreports)) hx
    exact ⟨_, t₃, .nextWord hread hruns hrest, (hc.trans hc₁).trans hc₂⟩
  | lastWord h _ hne ih =>
    intro t hst _ hquiet hx
    obtain ⟨-, t₁, hread, hc⟩ := (Carries.readWord _).of_eq hst h nofun
    obtain ⟨es₁, t₂, hruns, hc₁⟩ := ih _ hc.roomier trivial
      (fun hq hreports => hquiet hq (.word h hreports)) hx
    exact ⟨_, t₂, .lastWord hread hruns hne, hc.trans hc₁⟩
  | done h =>
    intro t hst hp _ _
    obtain ⟨-, t', hlead, hc⟩ := (Carries.closed.lead hp).of_eq hst h nofun
    exact ⟨_, t', .done hlead, hc⟩
  | refused h =>
    intro t hst hp _ hx
    obtain ⟨-, t', hlead, hc⟩ := (Carries.closed.lead hp).of_eq hst h fun _ hf => by
      cases hf
      exact hx _ rfl
    exact ⟨_, t', .refused hlead, hc⟩
  | handsOver h _ ih =>
    -- what is handed over to is allowed, since it came from the stack or the dictionary
    intro t hst hp hquiet hx
    obtain ⟨hover, t₁, hlead, hc⟩ := (Carries.closed.lead hp).of_eq hst h nofun
    obtain ⟨es', t', hruns, hc₁⟩ := ih _ hc.roomier (hover _ rfl _ rfl)
      (fun hq hreports => hquiet hq (.handsOver h hreports)) hx
    exact ⟨_, t', .handsOver hlead hruns, hc.trans hc₁⟩
  | ended h =>
    intro t hst _ _ _
    exact ⟨_, _, .ended (hst.channel ▸ h), hst.withChannel _⟩
  | unread h =>
    intro t hst _ _ _
    exact ⟨_, _, .unread (hst.channel ▸ h), hst.withChannel _⟩
  | readsOn h hline hack _ ih ih' =>
    intro t hst hp hquiet hx
    obtain ⟨es₁, t₁, t₂, hread, hruns, hack', hc⟩ :=
      Repeats.acknowledge hst hp hquiet h hline ih hack nofun
    obtain ⟨es₃, t₃, hloop, hc'⟩ := ih' _ hc.roomier hp
      (fun hq hreports => hquiet hq (.readsOn h hline hack hreports)) hx
    exact ⟨_, t₃, .readsOn hread hruns hack' hloop, hc.trans hc'⟩
  | leaves h hline hack ih =>
    intro t hst hp hquiet hx
    obtain ⟨es₁, t₁, t₂, hread, hruns, hack', hc⟩ :=
      Repeats.acknowledge hst hp hquiet h hline ih hack nofun
    exact ⟨_, t₂, .leaves hread hruns hack', hc⟩
  | breaksOff h hline hack ih =>
    intro t hst hp hquiet hx
    obtain ⟨es₁, t₁, t₂, hread, hruns, hack', hc⟩ :=
      Repeats.acknowledge hst hp hquiet h hline ih hack fun _ hf => by
        cases hf
        exact hx _ rfl
    exact ⟨_, t₂, .breaksOff hread hruns hack', hc⟩

/-- A part does the same in a state that differs as a frame says, if it stays quiet and ends in a
way that the frame passes on. -/
theorem Part.carries (hst : Roomier k s t) (hp : p.Within k.held)
    (hquiet : k.allowed .quit → ¬ Reports p s)
    (hx : ∀ f, (p.run s).1 = .error (.fault f) → k.Passes f) :
    ∃ t', p.run t = ((p.run s).1, t') ∧ Carried k s t (p.run s).2 t' := by
  obtain ⟨es, x, s', hruns⟩ := Runs.exists p hst.hostsKeepReturns
  have hsound := hruns.sound hst.hostsKeepReturns
  rw [hsound] at hx ⊢
  obtain ⟨es', t', hruns', hc⟩ := hruns.carries _ hst hp hquiet fun f hf => hx f (by rw [hf]; rfl)
  exact ⟨t', hruns'.sound hst.hostsKeepReturns_right, hc⟩

/-- The read loop of `quit` does the same after its first prompt. -/
theorem quit_carries (hst : Roomier k s t) (hp : k.allowed .quit) (hquiet : ¬ QuitReports s)
    (hx : ∀ f, (quit s).1 = .error (.fault f) → k.Passes f) :
    ∃ t', quit t = ((quit s).1, t') ∧ Carried k s t (quit s).2 t' := by
  have hleft := quit_eq hst.hostsKeepReturns
  have hright := quit_eq hst.hostsKeepReturns_right
  rcases hw : Channel.write prompt s.channel with ⟨f | _, c⟩
  · rw [quitWith, bind_of_error (onChannel_of hw)] at hleft
    rw [quitWith, bind_of_error (onChannel_of (hst.channel ▸ hw))] at hright
    rw [hleft, hright]
    exact ⟨_, rfl, hst.withChannel c⟩
  · rw [quitWith, bind_of_ok (onChannel_of hw)] at hleft
    rw [quitWith, bind_of_ok (onChannel_of (hst.channel ▸ hw))] at hright
    rw [hleft] at hx ⊢
    rw [hright]
    obtain ⟨t', hrun, hc⟩ := Part.carries (p := .loop) (hst.withChannel c).roomier hp
      (fun _ hreports => hquiet ⟨c, hw, hreports⟩) hx
    exact ⟨t', hrun, (hst.withChannel c).trans hc⟩

/-! ## More room -/

/-- The same interpreter with stacks of other capacities. -/
def withRoom (m n : Nat) (s : Interpreter) : Interpreter :=
  { s with machine := { s.machine with
      data := { s.machine.data with capacity := m }
      returns := { s.machine.returns with capacity := n } } }

/-- Runs with the same result, after which the stacks hold the same cells, and memory, dictionary
and channel are the same. -/
structure SameRun (r r' : Except Stop Flow × Interpreter) : Prop where
  result : r'.1 = r.1
  data : r'.2.machine.data.cells = r.2.machine.data.cells
  returns : r'.2.machine.returns.cells = r.2.machine.returns.cells
  memory : r'.2.machine.memory = r.2.machine.memory
  dictionary : r'.2.dictionary = r.2.dictionary
  channel : r'.2.channel = r.2.channel

/-- Nothing but more room. -/
def roomy : Frame := ⟨fun _ => True, [], False, fun _ => rfl⟩

/-- With nothing below, two runs side by side end with the same cells. -/
theorem Carried.sameRun {t' : Interpreter} {r : Except Stop Flow} (hc : Carried k s t s' t')
    (hbelow : k.below = []) (hreturns : t.machine.returns.cells = s.machine.returns.cells) :
    SameRun (r, s') (r, t') where
  result := rfl
  data := hc.roomier.data.cells_of_nil hbelow
  returns := by rw [hc.returns_left, hc.returns_right, hreturns]
  memory := hc.roomier.memory
  dictionary := hc.roomier.dictionary
  channel := hc.roomier.channel

/-- More room changes no run that had enough and reported nothing. -/
theorem withRoom_sameRun (hs : s.HoldsOnly fun _ => True) {m n : Nat}
    (hm : s.machine.data.capacity ≤ m) (hn : s.machine.returns.capacity ≤ n) :
    (∀ line, ¬ Reports (.line line) s →
      (∀ f, (interpret line s).1 = .error (.fault f) → f.kind ≠ .stackOverflow) →
      SameRun (interpret line s) (interpret line (s.withRoom m n))) ∧
    (¬ QuitReports s →
      (∀ f, (quit s).1 = .error (.fault f) → f.kind ≠ .stackOverflow) →
      SameRun (quit s) (quit (s.withRoom m n))) := by
  have hst : Roomier roomy s (s.withRoom m n) :=
    hs.roomier s.trace (List.append_nil _).symm hm (Nat.sub_le_sub_right hn _) False.elim
  refine ⟨fun line hquiet hroom => ?_, fun hquiet hroom => ?_⟩
  · obtain ⟨t', hrun, hc⟩ := Part.carries (p := .line line) hst trivial (fun _ => hquiet)
      fun f hf => ⟨rfl, .inr (hroom f hf)⟩
    have hrun : interpret line (s.withRoom m n) = ((interpret line s).1, t') := hrun
    rw [hrun]
    exact hc.sameRun rfl rfl
  · obtain ⟨t', hrun, hc⟩ := quit_carries hst trivial hquiet fun f hf => ⟨rfl, .inr (hroom f hf)⟩
    rw [hrun]
    exact hc.sameRun rfl rfl

/-- Stacks that are used up at times, by a read loop within a line and a line within its lines. -/
theorem withRoom_sameRun_full :
    let s := new 3 (.ofLines ["1 2 swap .", "s\" 3 . .\" evaluate", "bye"])
    let line := "s\" 1 2 over .s\" evaluate drop drop drop quit"
    s.HoldsOnly (fun _ => True) ∧
    (¬ Reports (.line line) s ∧ SameRun (interpret line s) (interpret line (s.withRoom 4 9))) ∧
    ¬ QuitReports s ∧ SameRun (quit s) (quit (s.withRoom 3 5)) := by
  intro s line
  have hs : s.HoldsOnly fun _ => True := holdsOnly_new Builtin.all (fun _ _ => trivial) 3 _
  obtain ⟨hline, hcalls, hquit, hcalls'⟩ : (interpret line s).1.toOption = some .exit ∧
      (∀ call ∈ callsOf (interpret line) s, call ≠ .refusedWrite ∧ call.report? = none) ∧
      (quit s).1.toOption = some .exit ∧
      ∀ call ∈ callsOf quit s, call ≠ .refusedWrite ∧ call.report? = none := by
    decide +kernel
  have hquiet : ¬ Reports (.line line) s := by
    rw [reports_line_iff (hostsKeepReturns_of_eq hs.hosts) fun hcall => (hcalls _ hcall).1 rfl]
    exact fun ⟨_, hcall⟩ => nomatch (hcalls _ hcall).2
  have hquiet' : ¬ QuitReports s := by
    rw [quitReports_iff (hostsKeepReturns_of_eq hs.hosts) fun hcall => (hcalls' _ hcall).1 rfl]
    exact fun ⟨_, hcall⟩ => nomatch (hcalls' _ hcall).2
  refine ⟨hs, ⟨hquiet, ?_⟩, hquiet', ?_⟩
  · refine (withRoom_sameRun hs (by decide) (by decide)).1 line hquiet ?_
    rw [eq_of_toOption hline]
    exact nofun
  · refine (withRoom_sameRun hs (by decide) (by decide)).2 hquiet' ?_
    rw [eq_of_toOption hquit]
    exact nofun

/-! ## Cells below -/

/-- The same interpreter with other cells below those of the data stack, which are given from the
bottom, and with a data stack of another capacity. -/
def onto (below : List Value) (capacity : Nat) (s : Interpreter) : Interpreter :=
  { s with machine := { s.machine with
      data := ⟨capacity, (below ++ s.machine.data.elements).reverse⟩ } }

/-- The words that can be held where cells lie below. -/
def IsLocal (b : Builtin) : Prop :=
  b ≠ .depth ∧ b ≠ .dotS ∧ b ≠ .quit

instance (b : Builtin) : Decidable (IsLocal b) :=
  inferInstanceAs (Decidable (_ ∧ _))

/-- More room on top of other cells. -/
def lifted (below : List Value) : Frame :=
  ⟨IsLocal, below.reverse, False, fun h => h.elim (absurd rfl ·.1) (absurd rfl ·.2.1)⟩

/-- A line that succeeds does the same on top of other cells, and leaves them as they were. -/
theorem interpret_onto (hs : s.HoldsOnly IsLocal) {flow : Flow}
    (h : interpret line s = (.ok flow, s')) (below : List Value) {m : Nat}
    (hm : s.machine.data.capacity + below.length ≤ m) :
    ∃ t', interpret line (s.onto below m) = (.ok flow, t') ∧
      t'.machine.data.elements = below ++ s'.machine.data.elements ∧
      t'.machine.returns = s'.machine.returns ∧ t'.machine.memory = s'.machine.memory ∧
      t'.dictionary = s'.dictionary ∧ t'.channel = s'.channel := by
  have hst : Roomier (lifted below) s (s.onto below m) := by
    refine hs.roomier s.trace ?_ ?_ (Nat.le_refl _) False.elim
    · simp [lifted, Stack.elements]
    · simpa [lifted] using hm
  have hrun : (Part.line line).run s = (.ok flow, s') := h
  obtain ⟨t', hrun', hc⟩ := Part.carries (p := .line line) hst trivial
    (fun hquit => absurd rfl hquit.2.2) (by rw [hrun]; simp)
  rw [hrun] at hrun' hc
  refine ⟨t', hrun', ?_, hc.returns_right.trans hc.returns_left.symm, hc.roomier.memory,
    hc.roomier.dictionary, hc.roomier.channel⟩
  have hcells : t'.machine.data.cells = s'.machine.data.cells ++ below.reverse :=
    hc.roomier.data.cells
  rw [Stack.elements, hcells, List.reverse_append, List.reverse_reverse, Stack.elements]

/-- A cell is picked from under two others, and a text is evaluated, on top of two more cells. -/
theorem interpret_onto_pick :
    let words : List Builtin := [.pick, .swap, .drop, .dot, .evaluate, .sQuote]
    let s : Interpreter := { new 4 (.ofLines []) with dictionary := .of words }
    let line := "7 8 2 pick s\" swap . 2 pick\" evaluate"
    s.HoldsOnly IsLocal ∧ ∃ s' t', interpret line s = (.ok .proceed, s') ∧
      interpret line (s.onto [.text "x", .int 1] 6) = (.ok .proceed, t') ∧
      t'.machine.data.elements = [.text "x", .int 1] ++ s'.machine.data.elements ∧
      t'.machine.returns = s'.machine.returns ∧ t'.machine.memory = s'.machine.memory ∧
      t'.dictionary = s'.dictionary ∧ t'.channel = s'.channel := by
  intro words s line
  have hs : s.HoldsOnly IsLocal := holdsOnly_new words (by decide) 4 _
  have hline : (interpret line s).1.toOption = some .proceed := by decide +kernel
  obtain ⟨t', hrun, hend⟩ :=
    interpret_onto hs (eq_of_toOption hline) [.text "x", .int 1] (m := 6) (by decide)
  exact ⟨hs, _, t', eq_of_toOption hline, hrun, hend⟩

end CellForth.Interpreter
