import CellForth.Proofs.Discipline

/-!
# Every call comes to an end

The definitions of a run count its tokens, its words, its lines and its levels of lines, and a
count that is used up stops the run with `Stop.tooDeep`. Here no count is ever used up, if the
host words leave the return stack alone.

The levels are bounded by `headroom`: the free cells of the return stack, and a whole return
stack for each line still to be taken. Entering a line takes a cell. Nothing else a run does
raises the headroom (`Leads.headroom_le`), since the read loop empties the return stack only
after it has taken a line.

A run that was not cut short is the same at every larger number of levels (`Extends`). So
`interpret`, `execute`, `executeWord` and `quit` are solutions of the recursion in which nothing
is counted (`calls_terminate`).
-/

namespace CellForth.Interpreter

variable {α β : Type} {s s' : Interpreter} {nested : String → Run Flow} {N : Nat}

/-! ## The headroom of a run -/

/-- How many more lines can be entered, one inside the other: as many as the return stack has
free cells, and a whole return stack and one for each line that can be taken. -/
def headroom (s : Interpreter) : Nat :=
  s.channel.unread.length * (s.machine.returns.capacity + 1)
    + (s.machine.returns.capacity - s.machine.returns.depth)

/-- The levels that `interpret` provides are more than the headroom. -/
theorem headroom_lt_levels (s : Interpreter) : s.headroom < s.levels := by
  unfold headroom levels
  rw [Nat.add_mul]
  omega

/-- A run does not raise the headroom: a recovery gives back the return stack, and costs a
line. -/
theorem Leads.headroom_le (h : Leads s s') : s'.headroom ≤ s.headroom := by
  unfold headroom
  rcases h.returns with hr | hr
  · rw [hr]
    have := Nat.mul_le_mul_right (s.machine.returns.capacity + 1) h.channel.unread.length_le
    omega
  · rw [hr.returns]
    have := Nat.mul_le_mul_right (s.machine.returns.capacity + 1) (Nat.succ_le_of_lt hr.unread)
    rw [Nat.succ_mul] at this
    simp only [Stack.clear]
    omega

/-- Entering a line takes a cell. -/
theorem headroom_entering_lt (line : String) (h : s.machine.returns.isFull = false) :
    (s.entering line).headroom < s.headroom := by
  have hlt := Stack.isFull_eq_false_iff.1 h
  simp only [headroom, entering, Stack.depth, List.length_cons] at hlt ⊢
  omega

/-! ## Runs that have levels enough -/

theorem onMachine_ne_tooDeep (act : Machine.Action α) (s : Interpreter) :
    (onMachine act s).1 ≠ .error .tooDeep := by
  unfold onMachine
  rcases act s.machine with ⟨_ | _, _⟩ <;> nofun

theorem onChannel_ne_tooDeep (act : Channel.Action α) (s : Interpreter) :
    (onChannel act s).1 ≠ .error .tooDeep := by
  unfold onChannel
  rcases act s.channel with ⟨_ | _, _⟩ <;> nofun

/-- A step counts nothing, so it is never cut short. -/
theorem Step.ne_tooDeep {act : Run α} (h : Step act) (s : Interpreter) :
    (act s).1 ≠ .error .tooDeep := by
  cases h with
  | stack _ => exact onMachine_ne_tooDeep _ s
  | memory _ => exact onMachine_ne_tooDeep _ s
  | trial _ => exact onMachine_ne_tooDeep _ s
  | host word => exact onMachine_ne_tooDeep _ s
  | write text => exact onChannel_ne_tooDeep _ s
  | _ => nofun

/-- Runs that are not cut short if the headroom is below `N`. -/
def Suffices (N : Nat) : Relation := fun α act act' =>
  Disciplined α act act' ∧
    ∀ s, s.HostsKeepReturns → s.headroom < N → (act s).1 ≠ .error .tooDeep

/-- What is enough for two runs is enough for one after the other, since the first does not raise
the headroom. -/
theorem Suffices.bind {act act' : Run α} {next next' : α → Run β}
    (h : Suffices N α act act') (hnext : ∀ a, Suffices N β (next a) (next' a)) :
    Suffices N β (act >>= next) (act' >>= next') := by
  refine ⟨h.1.bind fun a => (hnext a).1, fun s hs hN => ?_⟩
  have hleads := h.1 s hs
  have hact := h.2 s hs hN
  rw [bind_apply]
  rcases hx : act s with ⟨e | a, s'⟩ <;> rw [hx] at hleads hact
  · simpa using hact
  · exact (hnext a).2 s' (hleads.hosts hs) (Nat.lt_of_le_of_lt hleads.headroom_le hN)

/-- With levels enough for lines, all that is made of steps and lines has levels enough. -/
theorem Suffices.composable (N : Nat) : Composable (Suffices N) where
  pure a := ⟨Disciplined.closed.pure a, fun _ _ _ => nofun⟩
  step h := ⟨Disciplined.closed.step h, fun s _ _ => h.ne_tooDeep s⟩
  bind := .bind

/-! ## Counts that are not used up -/

/-- A loop has turns enough if each of them leaves less to do. -/
theorem turns_ne_tooDeep {turn : Run Flow → Run Flow} {inner : String → Run Flow}
    {left : Interpreter → Nat}
    (hturn : ∀ s : Interpreter, s.HostsKeepReturns → Turn turn inner left s)
    (hinner : ∀ text, Suffices N Flow (inner text) (inner text)) :
    ∀ (n : Nat) (s : Interpreter), s.HostsKeepReturns → s.headroom < N → left s < n →
      (turns turn n s).1 ≠ .error .tooDeep
  | 0, _, _, _, h => absurd h (Nat.not_lt_zero _)
  | n + 1, s, hs, hN, hlt => by
    rw [turns]
    rcases hturn s hs with ⟨r, -, heq, hdeep⟩ | ⟨s', hs', hleft, heq⟩
    · rw [heq]
      intro hr
      obtain ⟨text, s', hs', rfl⟩ := hdeep hr
      exact (hinner text).2 s' (hs'.hosts hs) (Nat.lt_of_le_of_lt hs'.headroom_le hN) hr
    · rw [heq]
      exact turns_ne_tooDeep hturn hinner n s' (hs'.hosts hs)
        (Nat.lt_of_le_of_lt hs'.headroom_le hN) (by omega)

/-- Only `execute` looks at the run of the token it takes. -/
theorem tokenWith_eq_of_ne (nested : String → Run Flow) (execute execute' : Token → Run Flow)
    {t : Token} (ht : t ≠ .builtin .execute) :
    tokenWith nested execute t = tokenWith nested execute' t := by
  cases t with
  | host word => rfl
  | builtin word =>
    cases word with
    | execute => exact absurd rfl ht
    | _ => rfl

/-- Running `execute` takes a token off the data stack, or is refused. -/
theorem tokenWith_execute (nested : String → Run Flow) (s : Interpreter) :
    (∃ f s', ∀ execute, tokenWith nested execute (.builtin .execute) s = (.error (.fault f), s')) ∨
    ∃ t s', Leads s s' ∧ s'.machine.data.depth + 1 = s.machine.data.depth ∧
      ∀ execute, tokenWith nested execute (.builtin .execute) s = execute t s' := by
  let s₁ : Interpreter := { s with trace := .began (.builtin .execute) :: s.trace }
  have hmark : mark (.began (.builtin .execute)) s = (.ok (), s₁) := rfl
  cases hcells : s.machine.data.cells with
  | nil =>
    exact Or.inl ⟨_, _, fun _ => (bind_of_ok hmark).trans
      (bind_of_error (onMachine_of (s := s₁) (Machine.pop_of_nil hcells)))⟩
  | cons v below =>
    let s₂ : Interpreter := { s₁ with
      machine := { s.machine with data := { s.machine.data with cells := below } } }
    have hpop : onMachine Machine.pop s₁ = (.ok v, s₂) :=
      onMachine_of (s := s₁) (Machine.pop_of_cons hcells)
    cases v with
    | token t =>
      refine Or.inr ⟨t, s₂, ⟨rfl, rfl, List.suffix_rfl, .refl _, Or.inl rfl⟩, ?_,
        fun _ => (bind_of_ok hmark).trans (bind_of_ok hpop)⟩
      simp [s₂, Stack.depth, hcells]
    | int n => exact Or.inl ⟨_, _, fun _ => (bind_of_ok hmark).trans (bind_of_ok hpop)⟩
    | text line => exact Or.inl ⟨_, _, fun _ => (bind_of_ok hmark).trans (bind_of_ok hpop)⟩
    | addr a => exact Or.inl ⟨_, _, fun _ => (bind_of_ok hmark).trans (bind_of_ok hpop)⟩

section Levels

variable (hn : ∀ line, Suffices N Flow (nested line) (nested line))
include hn

/-- The read loop has a turn for each line that can be taken, and one to find the end. -/
theorem Suffices.readLoopWith : Suffices N Flow (readLoopWith nested) (readLoopWith nested) :=
  ⟨Disciplined.closed.readLoopWith fun line => (hn line).1, fun s hs hN =>
    turns_ne_tooDeep (fun _ => takeLineWith_turn fun line => (hn line).1) hn _ s hs hN
      (Nat.lt_succ_self _)⟩

theorem Suffices.quitWith : Suffices N Flow (quitWith nested) (quitWith nested) :=
  Suffices.bind ((composable N).step (.write _)) fun _ => Suffices.readLoopWith hn

/-- Each `execute` takes a cell off the data stack, so as many levels as it has cells are enough. -/
theorem executeWith_ne_tooDeep : ∀ (n : Nat) (t : Token) (s : Interpreter), s.HostsKeepReturns →
    s.headroom < N → s.machine.data.depth < n → (executeWith nested n t s).1 ≠ .error .tooDeep
  | 0, _, _, _, _, h => absurd h (Nat.not_lt_zero _)
  | n + 1, t, s, hs, hN, hlt => by
    rw [executeWith]
    by_cases ht : t = .builtin .execute
    · subst ht
      rcases tokenWith_execute nested s with ⟨f, s', heq⟩ | ⟨t, s', hs', hdepth, heq⟩
      · rw [heq]
        nofun
      · rw [heq]
        exact executeWith_ne_tooDeep n t s' (hs'.hosts hs)
          (Nat.lt_of_le_of_lt hs'.headroom_le hN) (by omega)
    · have h : Suffices N Flow (tokenWith nested (executeWith nested n) t)
          (tokenWith nested (executeWith nested n) t) :=
        (Suffices.composable N).tokenWith_of_ne ht hn (Suffices.quitWith hn)
      exact h.2 s hs hN

/-- A token that runs others is not cut short if the lines it may run are not. -/
theorem Suffices.executeTokenWith (t : Token) :
    Suffices N Flow (executeTokenWith nested t) (executeTokenWith nested t) :=
  ⟨Disciplined.closed.executeTokenWith (fun line => (hn line).1) t, fun s hs hN =>
    executeWith_ne_tooDeep hn _ t s hs hN (Nat.lt_succ_self _)⟩

theorem Suffices.executeWordWith (name : String) :
    Suffices N Flow (executeWordWith nested name) (executeWordWith nested name) :=
  (composable N).executeWordWith (Suffices.executeTokenWith hn) name

theorem Suffices.wordWith (word : String) :
    Suffices N Flow (wordWith nested word) (wordWith nested word) :=
  (composable N).wordWith (Suffices.executeTokenWith hn) word

/-- A line has a turn for each byte that is left of it, and each turn takes at least one. -/
theorem Suffices.lineWith : Suffices N Flow (lineWith nested) (lineWith nested) :=
  ⟨Disciplined.closed.lineWith fun line => (hn line).1, fun s hs hN =>
    turns_ne_tooDeep (fun _ => nextWordWith_turn fun word => (Suffices.wordWith hn word).1)
      (Suffices.wordWith hn) _ s hs hN (Nat.lt_succ_self _)⟩

/-- A line inside which `N` levels are enough is run to its end with `N + 1`. -/
theorem Suffices.interpretWith (line : String) :
    Suffices (N + 1) Flow (interpretWith nested line) (interpretWith nested line) := by
  refine ⟨Disciplined.closed.interpretWith (fun line => (hn line).1) line, fun s hs hN => ?_⟩
  rw [Interpreter.interpretWith]
  cases hfull : s.machine.returns.isFull with
  | true =>
    rw [within_of_full hfull]
    nofun
  | false =>
    rw [within_of_room hfull]
    have := headroom_entering_lt line hfull
    exact (Suffices.lineWith hn).2 (s.entering line) hs (by omega)

end Levels

/-- `N` levels are enough for a headroom below `N`, by induction on the levels. -/
theorem Suffices.interpretAt (N : Nat) :
    ∀ line, Suffices N Flow (interpretAt N line) (interpretAt N line) := by
  induction N with
  | zero =>
    exact fun line =>
      ⟨Disciplined.closed.interpretAt 0 line, fun _ _ h => absurd h (Nat.not_lt_zero _)⟩
  | succ N ih => exact Suffices.interpretWith ih

/-! ## More levels change nothing -/

/-- The second run does what the first one does, unless the first one was cut short. -/
def Extends : Relation := fun _ act act' => ∀ s, (act s).1 ≠ .error .tooDeep → act' s = act s

/-- If the two runs in order were not cut short, neither was the first of them. -/
theorem Extends.bind {act act' : Run α} {next next' : α → Run β} (h : Extends α act act')
    (hnext : ∀ a, Extends β (next a) (next' a)) : Extends β (act >>= next) (act' >>= next') := by
  intro s hs
  rw [bind_apply] at hs ⊢
  have hact := h s
  rcases hx : act s with ⟨e | a, s'⟩ <;> rw [hx] at hact hs
  · rw [hact (by simpa using hs), bind_apply, hx]
  · rw [hact nofun, bind_apply, hx]
    exact hnext a s' hs

/-- Being cut short is not recovered from, so a run that went on was not cut short before. -/
theorem Extends.recovering {act act' next next' : Run Flow} {done : Run Unit}
    (h : Extends Flow act act') (hnext : Extends Flow next next') :
    Extends Flow (recovering act done next) (recovering act' done next') := by
  have hthen : ∀ first : Run Unit,
      Extends Flow (first >>= fun _ => next) (first >>= fun _ => next') :=
    fun first => Extends.bind (fun _ _ => rfl) fun _ => hnext
  intro s hs
  have hact := h s
  simp only [recovering_apply] at hs ⊢
  rcases hx : act s with ⟨(f | -) | (- | -), s'⟩ <;> simp only [hx] at hact hs ⊢
  · rw [hact nofun]
    by_cases hfatal : f.isFatal = true
    · simp only [if_pos hfatal]
    · simp only [if_neg hfatal] at hs ⊢
      exact hthen _ s' hs
  · exact absurd rfl hs
  · rw [hact nofun]
    exact hthen _ s' hs
  · rw [hact nofun]

/-- Everything a line can do is the same over nested lines with more levels. -/
theorem Extends.closed : Closed Extends where
  pure _ _ _ := rfl
  step _ _ _ := rfl
  bind := .bind
  count _ _ _ := rfl
  tooDeep _ _ := rfl
  takeLineWith hn hnext := by
    refine Extends.bind (fun _ _ => rfl) fun line => ?_
    cases line with
    | none => exact fun _ _ => rfl
    | some line => exact (hn line).recovering hnext
  within {body body'} line h := by
    intro s hs
    cases hfull : s.machine.returns.isFull with
    | true => rw [within_of_full hfull, within_of_full hfull]
    | false =>
      rw [within_of_room hfull] at hs ⊢
      rw [within_of_room hfull, h _ hs]

/-- One more level changes nothing for a line that was not cut short. -/
theorem Extends.interpretAt_succ (n : Nat) :
    ∀ line, Extends Flow (interpretAt n line) (interpretAt (n + 1) line) := by
  induction n with
  | zero => exact fun line s hs => absurd rfl hs
  | succ n ih => exact Extends.closed.interpretWith ih

theorem interpretAt_eq_of_le (line : String) {n m : Nat} (hnm : n ≤ m)
    (hs : s.HostsKeepReturns) (hn : s.headroom < n) :
    interpretAt m line s = interpretAt n line s := by
  induction hnm with
  | refl => rfl
  | @step m hle ih =>
    rw [Extends.interpretAt_succ m line s, ih]
    exact (Suffices.interpretAt m line).2 s hs (Nat.lt_of_lt_of_le hn hle)

/-- Any number of levels above the headroom is as good as the number provided. -/
theorem interpret_eq_interpretAt (line : String) {n : Nat} (hs : s.HostsKeepReturns)
    (hn : s.headroom < n) : interpret line s = interpretAt n line s := by
  rw [interpret, view_bind]
  rcases Nat.le_total n s.levels with h | h
  · exact interpretAt_eq_of_le line h hs hn
  · exact (interpretAt_eq_of_le line h hs (headroom_lt_levels s)).symm

/-! ## Levels without a count -/

/-- Runs that do the same if the headroom is below `N`. -/
def Agrees (N : Nat) : Relation := fun α act act' =>
  Disciplined α act act' ∧ ∀ s, s.HostsKeepReturns → s.headroom < N → act' s = act s

/-- A run that keeps to the discipline agrees with itself. -/
theorem Agrees.rfl {act : Run α} (h : Disciplined α act act) : Agrees N α act act :=
  ⟨h, fun _ _ _ => Eq.refl _⟩

/-- Runs that agree do so in order: the first leaves the second no more headroom than it had. -/
theorem Agrees.bind {act act' : Run α} {next next' : α → Run β}
    (h : Agrees N α act act') (hnext : ∀ a, Agrees N β (next a) (next' a)) :
    Agrees N β (act >>= next) (act' >>= next') := by
  refine ⟨h.1.bind fun a => (hnext a).1, fun s hs hN => ?_⟩
  have hleads := h.1 s hs
  rw [bind_apply, h.2 s hs hN, bind_apply]
  rcases hx : act s with ⟨e | a, s'⟩ <;> rw [hx] at hleads
  exact (hnext a).2 s' (hleads.hosts hs) (Nat.lt_of_le_of_lt hleads.headroom_le hN)

/-- Taking a line costs headroom, so the line and the turns after it still agree. -/
theorem Agrees.takeLineWith {nested nested' : String → Run Flow} {next next' : Run Flow}
    (hn : ∀ line, Agrees N Flow (nested line) (nested' line)) (hnext : Agrees N Flow next next') :
    Agrees N Flow (takeLineWith nested next) (takeLineWith nested' next') := by
  refine ⟨Disciplined.closed.takeLineWith (fun line => (hn line).1) hnext.1, fun s hs hN => ?_⟩
  have hsame : Interpreter.takeLineWith nested' next' s
      = Interpreter.takeLineWith nested next' s := by
    refine takeLineWith_congr next' fun line c hread => ?_
    have hc : Leads s { s with channel := c } := .of_channel (Channel.leads_of_read hread)
    exact (hn line).2 _ hs (Nat.lt_of_le_of_lt hc.headroom_le hN)
  rw [hsame]
  rcases takeLineWith_turn (fun line => (hn line).1) hs with ⟨r, -, heq, -⟩ | ⟨s', hs', -, heq⟩
  · rw [heq, heq]
  · rw [heq, heq, hnext.2 s' (hs'.hosts hs) (Nat.lt_of_le_of_lt hs'.headroom_le hN)]

/-- A line takes a cell, so it may start with more headroom than what it runs. -/
theorem Agrees.within {body body' : Run Flow} (line : String) (h : Agrees N Flow body body') :
    Agrees (N + 1) Flow (within line body) (within line body') := by
  refine ⟨Disciplined.closed.within line h.1, fun s hs hN => ?_⟩
  cases hfull : s.machine.returns.isFull with
  | true => rw [within_of_full hfull, within_of_full hfull]
  | false =>
    have := headroom_entering_lt line hfull
    rw [within_of_room hfull, within_of_room hfull, h.2 (s.entering line) hs (by omega)]

/-- Agreement below any headroom is kept by all that lines are made of. -/
theorem Agrees.closed (N : Nat) : Closed (Agrees N) where
  pure a := .rfl (Disciplined.closed.pure a)
  step h := .rfl (Disciplined.closed.step h)
  bind := .bind
  count h := .rfl (Disciplined.closed.count h)
  tooDeep := .rfl Disciplined.closed.tooDeep
  takeLineWith := .takeLineWith
  within line h := ⟨(h.within line).1, fun s hs hN => (h.within line).2 s hs (by omega)⟩

/-- `interpret` is a line with any number of levels that is above the headroom. -/
theorem Agrees.interpret (N : Nat) (line : String) :
    Agrees N Flow (interpretAt N line) (interpret line) :=
  ⟨Disciplined.closed.interpretAt N line, fun _ hs hN => interpret_eq_interpretAt line hs hN⟩

/-- A line is run by its words, and lines inside it by `interpret` itself. -/
theorem interpret_eq (line : String) (hs : s.HostsKeepReturns) :
    interpret line s = within line (lineWith interpret) s := by
  rw [interpret_eq_interpretAt line hs (Nat.lt_succ_self s.headroom)]
  have hline := (Agrees.closed s.headroom).lineWith (Agrees.interpret s.headroom)
  exact ((hline.within line).2 s hs (Nat.lt_succ_self _)).symm

/-- The read loop runs its lines by `interpret`. -/
theorem quit_eq (hs : s.HostsKeepReturns) : quit s = quitWith interpret s := by
  rw [quit, view_bind]
  exact (((Agrees.closed _).quitWith (Agrees.interpret s.levels)).2 s hs
    (headroom_lt_levels s)).symm

theorem execute_eq_executeTokenWith (t : Token) (hs : s.HostsKeepReturns) :
    execute t s = executeTokenWith interpret t s := by
  rw [execute, view_bind]
  exact (((Agrees.closed _).executeTokenWith (Agrees.interpret s.levels) t).2 s hs
    (headroom_lt_levels s)).symm

theorem executeWord_eq_executeWordWith (name : String) (hs : s.HostsKeepReturns) :
    executeWord name s = executeWordWith interpret name s := by
  rw [executeWord, view_bind]
  exact (((Agrees.closed _).executeWordWith (Agrees.interpret s.levels) name).2 s hs
    (headroom_lt_levels s)).symm

/-! ## Loops without a count -/

/-- A loop with turns enough is the same with any number of them. -/
theorem turns_eq_of_lt {turn : Run Flow → Run Flow} {inner : String → Run Flow}
    {left : Interpreter → Nat}
    (hturn : ∀ s : Interpreter, s.HostsKeepReturns → Turn turn inner left s) :
    ∀ (n m : Nat) (s : Interpreter), s.HostsKeepReturns → left s < n → left s < m →
      turns turn n s = turns turn m s
  | 0, _, _, _, h, _ => absurd h (Nat.not_lt_zero _)
  | _, 0, _, _, _, h => absurd h (Nat.not_lt_zero _)
  | n + 1, m + 1, s, hs, hn, hm => by
    rw [turns, turns]
    rcases hturn s hs with ⟨r, -, heq, -⟩ | ⟨s', hs', hleft, heq⟩
    · rw [heq, heq]
    · rw [heq, heq]
      exact turns_eq_of_lt hturn n m s' (hs'.hosts hs) (by omega) (by omega)

/-- A loop whose turns are counted by what is left to do unfolds as if they were not counted. -/
theorem turns_unfold {turn : Run Flow → Run Flow} {inner : String → Run Flow}
    {left : Interpreter → Nat}
    (hturn : ∀ s : Interpreter, s.HostsKeepReturns → Turn turn inner left s)
    (hs : s.HostsKeepReturns) :
    (view left >>= fun n => turns turn (n + 1)) s =
      turn (view left >>= fun n => turns turn (n + 1)) s := by
  rw [view_bind, turns]
  rcases hturn s hs with ⟨r, -, heq, -⟩ | ⟨s', hs', hleft, heq⟩
  · rw [heq, heq]
  · rw [heq, heq, view_bind]
    exact turns_eq_of_lt hturn _ _ s' (hs'.hosts hs) hleft (Nat.lt_succ_self _)

/-- The read loop takes a line and goes on with itself. -/
theorem readLoopWith_eq (hn : ∀ line, Disciplined Flow (nested line) (nested line))
    (hs : s.HostsKeepReturns) :
    readLoopWith nested s = takeLineWith nested (readLoopWith nested) s :=
  turns_unfold (fun _ => takeLineWith_turn hn) hs

theorem lineWith_eq (hn : ∀ line, Disciplined Flow (nested line) (nested line))
    (hs : s.HostsKeepReturns) :
    lineWith nested s = nextWordWith nested (lineWith nested) s :=
  turns_unfold (fun _ => nextWordWith_turn
    (Disciplined.closed.wordWith (Disciplined.closed.executeTokenWith hn))) hs

/-- A token that `execute` finds is run as if nothing was counted. -/
theorem executeTokenWith_eq (nested : String → Run Flow) (t : Token) (s : Interpreter) :
    executeTokenWith nested t s = tokenWith nested (executeTokenWith nested) t s := by
  rw [executeTokenWith, view_bind, executeWith]
  by_cases ht : t = .builtin .execute
  · subst ht
    rcases tokenWith_execute nested s with ⟨f, s', heq⟩ | ⟨t, s', -, hdepth, heq⟩
    · rw [heq, heq]
    · rw [heq, heq, executeTokenWith, view_bind, hdepth]
  · rw [tokenWith_eq_of_ne nested _ (executeTokenWith nested) ht]

theorem Agrees.execute (N : Nat) (t : Token) :
    Agrees N Flow (executeTokenWith Interpreter.interpret t) (Interpreter.execute t) :=
  ⟨fun s hs => Disciplined.closed.executeTokenWith disciplined_interpret t s hs,
    fun _ hs _ => execute_eq_executeTokenWith t hs⟩

/-- A token is run by `interpret` for its lines and by `execute` itself for its tokens. -/
theorem execute_eq (t : Token) (hs : s.HostsKeepReturns) :
    execute t s = tokenWith interpret execute t s := by
  rw [execute_eq_executeTokenWith t hs, executeTokenWith_eq]
  have htoken := (Agrees.closed (s.headroom + 1)).tokenWith
    (fun line => .rfl (disciplined_interpret line))
    (.rfl (Disciplined.closed.quitWith disciplined_interpret)) (Agrees.execute _) t
  exact (htoken.2 s hs (Nat.lt_succ_self _)).symm

/-- A word that is called by name is looked up, then executed. -/
theorem executeWord_eq (name : String) (hs : s.HostsKeepReturns) :
    executeWord name s = (tokenOf name >>= execute) s := by
  rw [executeWord_eq_executeWordWith name hs, executeWordWith]
  have hname := Agrees.bind ((Agrees.closed (s.headroom + 1)).made (.tokenOf name))
    (Agrees.execute _)
  exact (hname.2 s hs (Nat.lt_succ_self _)).symm

/-! ## Calls -/

/-- No call is cut short, and together the calls solve the recursion in which nothing is
counted. -/
theorem calls_terminate (hs : s.HostsKeepReturns) :
    (∀ line, (interpret line s).1 ≠ .error .tooDeep ∧
      interpret line s = within line (lineWith interpret) s) ∧
    lineWith interpret s = nextWordWith interpret (lineWith interpret) s ∧
    (∀ t, (execute t s).1 ≠ .error .tooDeep ∧ execute t s = tokenWith interpret execute t s) ∧
    (∀ name, (executeWord name s).1 ≠ .error .tooDeep ∧
      executeWord name s = (tokenOf name >>= execute) s) ∧
    ((quit s).1 ≠ .error .tooDeep ∧ quit s = quitWith interpret s) ∧
    readLoopWith interpret s = takeLineWith interpret (readLoopWith interpret) s := by
  have hn := Suffices.interpretAt s.levels
  have hlevels := headroom_lt_levels s
  refine ⟨fun line => ⟨?_, interpret_eq line hs⟩, lineWith_eq disciplined_interpret hs,
    fun t => ⟨?_, execute_eq t hs⟩, fun name => ⟨?_, executeWord_eq name hs⟩, ⟨?_, quit_eq hs⟩,
    readLoopWith_eq disciplined_interpret hs⟩
  · rw [interpret, view_bind]
    exact (hn line).2 s hs hlevels
  · rw [execute, view_bind]
    exact (Suffices.executeTokenWith hn t).2 s hs hlevels
  · rw [executeWord, view_bind]
    exact (Suffices.executeWordWith hn name).2 s hs hlevels
  · rw [quit, view_bind]
    exact (Suffices.quitWith hn).2 s hs hlevels

/-- A host word that does nothing, and a line that evaluates itself for as long as it can, inside
a read loop. -/
theorem calls_terminate_evaluate :
    ((new 3 (.ofLines ["s\" noop dup evaluate\" dup evaluate"])).defineHost "noop"
      (pure ())).HostsKeepReturns ∧
    (quit ((new 3 (.ofLines ["s\" noop dup evaluate\" dup evaluate"])).defineHost "noop"
      (pure ()))).1 ≠ .error .tooDeep :=
  have hs := (hostsKeepReturns_new 3 (.ofLines ["s\" noop dup evaluate\" dup evaluate"])).defineHost
    (fun _ => rfl) "noop"
  ⟨hs, (calls_terminate hs).2.2.2.2.1.1⟩

end CellForth.Interpreter
