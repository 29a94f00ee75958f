import CellForth.Proofs.Discipline

/-!
# How deep lines nest

The trace of a run, newest mark first, says at every moment which lines are open: entered and
not yet left (`openLines`). A line has a cell on the return stack from when it is entered. A
read loop that recovers from a fault empties the return stack, also under the lines that are
open around it. These keep running without a cell: they are stranded (`strandedLines`).

At every moment the open lines are those that still have a cell and those that are stranded,
and only the first are bounded by the capacity of the return stack (`Accounted`). So the
capacity bounds the nesting as long as no read loop recovers inside a line. In general each
recovery allows for a whole return stack more (`NestingAt`).
-/

namespace CellForth

/-! ## Moments of a trace -/

/-- The lines that were entered and not yet left. -/
def openLines : List Mark → Nat
  | [] => 0
  | .entered _ :: u => openLines u + 1
  | .left _ :: u => openLines u - 1
  | _ :: u => openLines u

/-- The cells of the return stack, which was empty at first. -/
def returnCells : List Mark → Nat
  | [] => 0
  | .began _ :: u => returnCells u
  | .entered cells :: _ => cells
  | .left cells :: _ => cells
  | .recovered :: _ => 0

/-- The open lines that were already open at the latest recovery. Lines are left from the
inside, so a line that is left is one of these only when no other line is open. -/
def strandedLines : List Mark → Nat
  | [] => 0
  | .left _ :: u => min (strandedLines u) (openLines u - 1)
  | .recovered :: u => openLines u
  | _ :: u => strandedLines u

/-- How often a run recovered. -/
def recoveries (u : List Mark) : Nat :=
  u.count .recovered

/-- The account of a moment: the lines that are open and not stranded are the cells of the
return stack, those fit its capacity, and a line that is left was open. -/
structure Accounted (capacity : Nat) (u : List Mark) : Prop where
  cells_le : returnCells u ≤ capacity
  open_eq : openLines u = returnCells u + strandedLines u
  left_open : ∀ cells v, u = .left cells :: v → openLines v ≠ 0

variable {capacity : Nat} {u : List Mark}

/-- Before the first mark nothing is open and the return stack is empty. -/
theorem Accounted.nil (capacity : Nat) : Accounted capacity [] :=
  ⟨Nat.zero_le _, rfl, nofun⟩

theorem Accounted.began (h : Accounted capacity u) (t : Token) :
    Accounted capacity (.began t :: u) :=
  ⟨h.cells_le, h.open_eq, nofun⟩

/-- A line that is entered is open and has the new cell. -/
theorem Accounted.entered (h : Accounted capacity u) (hlt : returnCells u < capacity) :
    Accounted capacity (.entered (returnCells u + 1) :: u) := by
  refine ⟨hlt, ?_, nofun⟩
  have := h.open_eq
  simp only [openLines, returnCells, strandedLines]
  omega

/-- A line that still has its cell takes it away. -/
theorem Accounted.left {cells : Nat} (h : Accounted capacity u) (hopen : openLines u ≠ 0)
    (hcells : returnCells u = cells + 1) : Accounted capacity (.left cells :: u) := by
  have := h.cells_le
  have := h.open_eq
  refine ⟨by simp only [returnCells]; omega, ?_, ?_⟩
  · simp only [openLines, returnCells, strandedLines]
    omega
  · rintro _ _ ⟨⟩
    exact hopen

/-- A stranded line has no cell to take away. -/
theorem Accounted.left_stranded (h : Accounted capacity u) (hopen : openLines u ≠ 0)
    (hcells : returnCells u = 0) : Accounted capacity (.left 0 :: u) := by
  have := h.open_eq
  refine ⟨Nat.zero_le _, ?_, ?_⟩
  · simp only [openLines, returnCells, strandedLines]
    omega
  · rintro _ _ ⟨⟩
    exact hopen

/-- A recovery takes all cells, and every open line is stranded. -/
theorem Accounted.recovered (capacity : Nat) (u : List Mark) :
    Accounted capacity (.recovered :: u) :=
  ⟨Nat.zero_le _, (Nat.zero_add _).symm, nofun⟩

/-- Lines are stranded only by a recovery while lines are open. -/
theorem exists_recovered_of_strandedLines :
    ∀ u : List Mark, strandedLines u ≠ 0 → ∃ v, .recovered :: v <:+ u ∧ openLines v ≠ 0
  | [], h => absurd rfl h
  | .recovered :: u, h => ⟨u, List.suffix_rfl, h⟩
  | .began _ :: u, h => by
    obtain ⟨v, hv, ho⟩ := exists_recovered_of_strandedLines u h
    exact ⟨v, hv.trans (List.suffix_cons _ _), ho⟩
  | .entered _ :: u, h => by
    obtain ⟨v, hv, ho⟩ := exists_recovered_of_strandedLines u h
    exact ⟨v, hv.trans (List.suffix_cons _ _), ho⟩
  | .left _ :: u, h => by
    simp only [strandedLines] at h
    obtain ⟨v, hv, ho⟩ := exists_recovered_of_strandedLines u (by omega)
    exact ⟨v, hv.trans (List.suffix_cons _ _), ho⟩

/-- Each recovery strands at most the lines with a cell and those stranded before. -/
theorem strandedLines_le_mul : ∀ u : List Mark, (∀ v, v <:+ u → Accounted capacity v) →
    strandedLines u ≤ capacity * recoveries u
  | [], _ => Nat.zero_le _
  | m :: u, h => by
    have ih := strandedLines_le_mul u fun v hv => h v (hv.trans (List.suffix_cons _ _))
    have hu := h u (List.suffix_cons _ _)
    cases m with
    | recovered =>
      have := hu.cells_le
      have := hu.open_eq
      simp only [strandedLines, recoveries, List.count_cons_self, Nat.mul_succ] at ih ⊢
      omega
    | began t => simpa [strandedLines, recoveries] using ih
    | entered cells => simpa [strandedLines, recoveries] using ih
    | left cells =>
      have hcount : recoveries (.left cells :: u) = recoveries u := by simp [recoveries]
      rw [hcount]
      exact Nat.le_trans (Nat.min_le_left _ _) ih

namespace Interpreter

variable {α : Type} {s s' : Interpreter}

/-! ## The account of a run -/

/-- The return stack has the cells that the trace says, and the account was right at every moment
so far. -/
structure Counted (s : Interpreter) : Prop where
  depth : s.machine.returns.depth = returnCells s.trace
  moments : ∀ u, u <:+ s.trace → Accounted s.machine.returns.capacity u

theorem Counted.now (h : Counted s) : Accounted s.machine.returns.capacity s.trace :=
  h.moments _ List.suffix_rfl

/-- A mark keeps the count if its own account is right. -/
theorem Counted.cons {m : Mark} (h : Counted s) (htrace : s'.trace = m :: s.trace)
    (hcapacity : s'.machine.returns.capacity = s.machine.returns.capacity)
    (hdepth : s'.machine.returns.depth = returnCells (m :: s.trace))
    (hm : Accounted s.machine.returns.capacity (m :: s.trace)) : Counted s' := by
  refine ⟨by rw [hdepth, htrace], fun u hu => ?_⟩
  rw [hcapacity]
  rw [htrace] at hu
  rcases List.suffix_cons_iff.1 hu with rfl | hu
  · exact hm
  · exact h.moments u hu

theorem Counted.of_eq (h : Counted s) (htrace : s'.trace = s.trace)
    (hreturns : s'.machine.returns = s.machine.returns) : Counted s' := by
  refine ⟨by rw [htrace, hreturns, h.depth], ?_⟩
  rw [htrace, hreturns]
  exact h.moments

/-- A step marks at most the beginning of a token, which opens no line. -/
theorem Counted.step {act : Run α} (h : Counted s) (hact : Step act) (hs : s.HostsKeepReturns) :
    Counted (act s).2 := by
  have hreturns := hact.returns hs
  cases hact with
  | begin t => exact h.cons rfl rfl h.depth (h.now.began t)
  | _ => exact h.of_eq rfl hreturns

/-- Entering a line puts one cell on the return stack and marks how many there are. -/
theorem Counted.entering (h : Counted s) (line : String)
    (hroom : s.machine.returns.isFull = false) : Counted (s.entering line) := by
  have hlt := Stack.isFull_eq_false_iff.1 hroom
  rw [h.depth] at hlt
  refine h.cons (m := .entered (returnCells s.trace + 1)) ?_ rfl ?_ (h.now.entered hlt)
  · simp only [Interpreter.entering, h.depth]
  · show s.machine.returns.depth + 1 = _
    rw [h.depth]
    rfl

/-- A line is left with its cell, or stranded and with an empty return stack. -/
theorem Counted.leaving {line : String} (h : Counted s') (hleads : Leads (s.entering line) s')
    (hopen : openLines s'.trace ≠ 0) :
    Counted (s'.leaving s.machine.returns.depth s.cursor) := by
  have hdepth := h.depth
  rcases hleads.returns_or_clear with hr | hr
  · have hcut : s'.machine.returns.truncate s.machine.returns.depth = s.machine.returns := by
      rw [hr]
      exact Stack.truncate_cons _ _
    have hcells : returnCells s'.trace = s.machine.returns.depth + 1 := by
      rw [← hdepth, hr]
      rfl
    refine h.cons (m := .left s.machine.returns.depth) ?_ rfl ?_ (h.now.left hopen hcells)
    · simp only [Interpreter.leaving, Machine.unnest, hcut]
    · simp only [Interpreter.leaving, Machine.unnest, hcut, returnCells]
  · have hcut : s'.machine.returns.truncate s.machine.returns.depth = s'.machine.returns := by
      rw [hr]
      exact Stack.truncate_clear _ _
    have hzero : s'.machine.returns.depth = 0 := by
      rw [hr]
      rfl
    refine h.cons (m := .left 0) ?_ rfl ?_
      (h.now.left_stranded hopen (hdepth.symm.trans hzero))
    · simp only [Interpreter.leaving, Machine.unnest, hcut, hzero]
    · simp only [Interpreter.leaving, Machine.unnest, hcut, hzero, returnCells]

/-- A recovery empties the return stack, and is marked if its report was made. -/
theorem Counted.recover (h : Counted s) (f : Fault) : Counted (recover f s).2 := by
  obtain ⟨c, hc | hc⟩ := recover_state f s
  · rw [hc]
    exact h.of_eq rfl rfl
  · rw [hc]
    exact h.cons rfl rfl rfl (.recovered _ _)

/-- The invariant of a run: its host words leave the return stack alone, and it is counted. -/
def Tallied (s : Interpreter) : Prop :=
  s.HostsKeepReturns ∧ Counted s

/-- Runs that leave the lines open that were open, and no other. -/
def Balanced : Relation := fun α act act' =>
  ∀ n, Preserves (openLines ·.trace = n) α act act'

/-- A line is closed again by the time it is left, so as many are open as before. -/
theorem Balanced.within {body body' : Run Flow} (line : String) (h : Balanced Flow body body') :
    Balanced Flow (within line body) (within line body') := by
  intro n s hs
  cases hfull : s.machine.returns.isFull with
  | true =>
    rw [within_of_full hfull]
    exact hs
  | false =>
    rw [within_of_room hfull]
    have hbody := h (n + 1) (s.entering line) (congrArg (· + 1) hs)
    exact congrArg (· - 1) hbody

/-- A recovery closes no line. -/
theorem Balanced.recover (f : Fault) : Balanced Unit (recover f) (recover f) := by
  intro n s hs
  obtain ⟨c, hc | hc⟩ := recover_state f s <;> rw [hc] <;> exact hs

/-- No run opens a line for good, whatever recovers inside it. -/
theorem Balanced.closed : Closed Balanced where
  pure _ _ _ hs := hs
  step h _ _ hs := by cases h <;> exact hs
  bind h hnext n := (h n).bind fun a => hnext a n
  count h _ _ hs := by cases h <;> exact hs
  tooDeep _ _ hs := hs
  takeLineWith hn hnext n := .takeLineWith (fun _ hs => hs) (fun _ _ hs => hs)
    (fun f => Balanced.recover f n) (fun line => hn line n) (hnext n)
  within := .within

/-- Runs that keep the count. -/
structure Tallying (α : Type) (act act' : Run α) : Prop where
  disciplined : Disciplined α act act'
  balanced : Balanced α act act'
  tallied : Preserves Tallied α act act'

/-- A line keeps the count: it enters, its body is balanced, and it is still open when it is
left. -/
theorem Tallying.within {body body' : Run Flow} (line : String) (h : Tallying Flow body body') :
    Tallying Flow (within line body) (within line body') := by
  refine ⟨h.disciplined.within line, h.balanced.within line, fun s hs => ?_⟩
  cases hfull : s.machine.returns.isFull with
  | true =>
    rw [within_of_full hfull]
    exact hs
  | false =>
    rw [within_of_room hfull]
    have hbody := h.tallied (s.entering line) ⟨hs.1, hs.2.entering line hfull⟩
    -- the line itself is still open when its body ends, however often the body recovered
    have hopen : openLines (body (s.entering line)).2.trace = openLines s.trace + 1 :=
      h.balanced _ (s.entering line) rfl
    exact ⟨hbody.1, hbody.2.leaving (h.disciplined (s.entering line) hs.1) (by omega)⟩

/-- The count is kept by every line, token, word and read loop. -/
theorem Tallying.closed : Closed Tallying where
  pure a := ⟨Disciplined.closed.pure a, Balanced.closed.pure a, fun _ hs => hs⟩
  step h := ⟨Disciplined.closed.step h, Balanced.closed.step h, fun _ hs =>
    ⟨(Leads.step h hs.1).hosts hs.1, hs.2.step h hs.1⟩⟩
  bind h hnext := ⟨h.disciplined.bind fun a => (hnext a).disciplined,
    Balanced.closed.bind h.balanced fun a => (hnext a).balanced,
    h.tallied.bind fun a => (hnext a).tallied⟩
  count h := ⟨Disciplined.closed.count h, Balanced.closed.count h, fun _ hs => by
    cases h <;> exact hs⟩
  tooDeep := ⟨Disciplined.closed.tooDeep, Balanced.closed.tooDeep, fun _ hs => hs⟩
  takeLineWith hn hnext :=
    ⟨Disciplined.closed.takeLineWith (fun line => (hn line).disciplined) hnext.disciplined,
      Balanced.closed.takeLineWith (fun line => (hn line).balanced) hnext.balanced,
      .takeLineWith (fun _ hs => ⟨hs.1, hs.2.of_eq rfl rfl⟩)
        (fun _ _ hs => ⟨hs.1, hs.2.of_eq rfl rfl⟩)
        (fun f _ hs => ⟨hs.1.recover f, hs.2.recover f⟩)
        (fun line => (hn line).tallied) hnext.tallied⟩
  within := .within

/-! ## Calls -/

/-- The marks that a run makes. -/
def marks (act : Run α) (s : Interpreter) : List Mark :=
  (act { s with trace := [] }).2.trace

/-- What holds of the nesting at every moment of a run that starts with an empty return stack. The
capacity bounds the open lines exactly if the stranded ones find room beside the cells, and
lines are stranded only by a recovery while lines are open. -/
structure NestingAt (capacity : Nat) (u : List Mark) : Prop extends Accounted capacity u where
  bounded_iff : openLines u ≤ capacity ↔ strandedLines u ≤ capacity - returnCells u
  stranded : strandedLines u ≠ 0 → ∃ v, .recovered :: v <:+ u ∧ openLines v ≠ 0
  open_le : openLines u ≤ capacity * (recoveries u + 1)

/-- The bounds on the nesting follow from the account at the moments up to there. -/
theorem Counted.nestingAt (h : Counted s) (hu : u <:+ s.trace) :
    NestingAt s.machine.returns.capacity u := by
  have hmoment := h.moments u hu
  have hle := hmoment.cells_le
  have heq := hmoment.open_eq
  refine ⟨hmoment, by omega, exists_recovered_of_strandedLines u, ?_⟩
  have := strandedLines_le_mul u fun v hv => h.moments v (hv.trans hu)
  rw [Nat.mul_succ]
  omega

/-- A run on an empty return stack is counted from its first mark on. -/
theorem tallied_start (hs : s.HostsKeepReturns) (hempty : s.machine.returns.cells = []) :
    Tallied { s with trace := [] } := by
  refine ⟨hs, ?_, fun u hu => ?_⟩
  · show s.machine.returns.cells.length = 0
    rw [hempty]
    rfl
  · rw [List.suffix_nil.1 hu]
    exact .nil _

/-- A run that keeps the count nests as its account says, if the return stack was empty at first. -/
theorem Tallying.nestingAt {act : Run α} (h : Tallying α act act) (hs : s.HostsKeepReturns)
    (hempty : s.machine.returns.cells = []) (hu : u <:+ marks act s) :
    NestingAt s.machine.returns.capacity u := by
  have hleads : Leads { s with trace := [] } (act { s with trace := [] }).2 := h.disciplined _ hs
  have hcapacity : (act { s with trace := [] }).2.machine.returns.capacity =
      s.machine.returns.capacity := hleads.returns_capacity
  rw [← hcapacity]
  exact (h.tallied _ (tallied_start hs hempty)).2.nestingAt hu

/-- At every moment of a call on an empty return stack the open lines are those with a cell and
those that a recovery has stranded. -/
theorem nesting_accounted (hs : s.HostsKeepReturns) (hempty : s.machine.returns.cells = []) :
    (∀ line u, u <:+ marks (interpret line) s → NestingAt s.machine.returns.capacity u) ∧
    ∀ u, u <:+ marks quit s → NestingAt s.machine.returns.capacity u := by
  have hn := Tallying.closed.interpretAt (levels { s with trace := [] })
  refine ⟨fun line u hu => (hn line).nestingAt hs hempty ?_,
    fun u hu => (Tallying.closed.quitWith hn).nestingAt hs hempty ?_⟩
  · rwa [marks, interpret, view_bind] at hu
  · rwa [marks, quit, view_bind] at hu

/-- A read loop inside a line takes a line that fails and then one that is done. While that one
runs two lines are open, on a return stack of one cell. -/
theorem nesting_accounted_quit :
    (new 1 (.ofLines ["foo", ".\" deep\""])).HostsKeepReturns ∧
    (new 1 (.ofLines ["foo", ".\" deep\""])).machine.returns.cells = [] ∧
    openLines ((marks (interpret "quit") (new 1 (.ofLines ["foo", ".\" deep\""]))).drop 2) = 2 ∧
    NestingAt 1 ((marks (interpret "quit") (new 1 (.ofLines ["foo", ".\" deep\""]))).drop 2) :=
  ⟨hostsKeepReturns_new _ _, rfl, by decide +kernel,
    (nesting_accounted (hostsKeepReturns_new 1 _) rfl).1 "quit" _ (List.drop_suffix 2 _)⟩

/-- The capacity of the return stack does not bound the open lines: a line that is open around a
recovery has lost its cell to the lines after it. -/
theorem openLines_exceed_capacity :
    ¬ ∀ (capacity : Nat) (lines : List String) (line : String) (u : List Mark),
      u <:+ marks (interpret line) (new capacity (.ofLines lines)) → openLines u ≤ capacity := by
  intro h
  have hmoment := h 1 ["foo", ".\" deep\""] "quit" _ (List.drop_suffix 2 _)
  revert hmoment
  decide +kernel

end Interpreter

end CellForth
