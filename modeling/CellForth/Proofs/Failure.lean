import CellForth.Proofs.Routes

/-!
# What a word that fails leaves behind

A word is made of steps, and each step is refused without a trace. So a word that fails has done the
steps before the one that was refused, and what these do is little: they look at things, they take
cells off the data stack (`Takes`), and the last one changes nothing (`Spares`). This bounds what
is lost of the data stack (`Builtin.loss`):

* nothing by words that look before they take;
* one cell by arithmetic and by words that write a cell;
* two cells by `!`.

Two words put something on the stack before they can be refused for want of room: `allocate` puts
its first answer in place of the count, and `find` the token in place of the name. On a full stack
they leave the other top cell there (`Displaces`), and `allocate` has then used up memory
(`reserved`). `failure_remains` says all this of every built-in word that runs no other.
-/

namespace CellForth

/-- How many cells of the data stack a word that fails can have lost. -/
def Builtin.loss : Builtin → Nat
  | .plus | .minus | .star | .slash | .dot | .emit | .allocate => 1
  | .store => 2
  | _ => 0

namespace Machine

variable {m m' : Machine} {v w : Value} {f : Fault}

/-- Of two values the first or the second has no room. -/
theorem of_push_push_error (h : (push v >>= fun _ => push w) m = (.error f, m')) :
    f.kind = .stackOverflow ∧ (m.data.capacity ≤ m.data.depth ∧ m' = m ∨
      m.data.capacity = m.data.depth + 1 ∧
        m' = { m with data := { m.data with cells := v :: m.data.cells } }) := by
  cases hfull : m.data.isFull with
  | true =>
    rw [bind_of_error (push_of_full hfull v)] at h
    cases h
    exact ⟨rfl, .inl ⟨of_decide_eq_true hfull, rfl⟩⟩
  | false =>
    rw [bind_of_ok (push_of_room hfull v)] at h
    cases hfull' : ({ m.data with cells := v :: m.data.cells } : Stack).isFull with
    | true =>
      rw [push_of_full hfull'] at h
      cases h
      have hroom := Stack.isFull_eq_false_iff.1 hfull
      have hnone : m.data.capacity ≤ m.data.depth + 1 := of_decide_eq_true hfull'
      exact ⟨rfl, .inr ⟨by omega, rfl⟩⟩
    | false =>
      rw [push_of_room hfull'] at h
      cases h

section Reserve

variable {n : Int64} {below : List Value} (hcells : m.data.cells = .int n :: below) (hn : ¬ n < 0)
include hcells hn

/-- Without memory for the count, the answers are no address and a flag for failure. -/
theorem reserve_of_short (hshort : Memory.limit - m.memory.size < n.toInt.toNat) :
    reserve m = (push (.int 0) >>= fun _ => push (.int allocateFailed))
      { m with data := { m.data with cells := below } } := by
  have hrefused : Memory.allocate n.toInt.toNat m.memory =
      .error ⟨.outOfRange, "allocate: " ++ toString n.toInt.toNat⟩ := if_pos hshort
  rw [reserve, bind_of_ok (pop_of_cons hcells)]
  simp only [if_neg hn, attempt_bind, allocate, onMemory, Transaction.settle_of_error hrefused]

theorem reserve_of_granted (hgranted : ¬ Memory.limit - m.memory.size < n.toInt.toNat) :
    reserve m = (push (.addr m.memory.size) >>= fun _ => push (.int 0))
      { m with
        data := { m.data with cells := below }
        memory := ⟨m.memory.cells ++ Array.replicate n.toInt.toNat (.int 0)⟩ } := by
  have hallocate : Memory.allocate n.toInt.toNat m.memory = .ok (m.memory.size,
      ⟨m.memory.cells ++ Array.replicate n.toInt.toNat (.int 0)⟩) := if_neg hgranted
  rw [reserve, bind_of_ok (pop_of_cons hcells)]
  simp only [if_neg hn, attempt_bind, allocate, onMemory, Transaction.settle_of_ok hallocate]

end Reserve

end Machine

namespace Interpreter

variable {α β : Type} {k n : Nat} {s s' s'' : Interpreter} {b : Builtin} {f : Fault} {e : Stop}

/-! ## Cells that are lost -/

/-- Some cells were taken off the data stack, and nothing else that words work on has changed. -/
structure Lost (k : Nat) (s s' : Interpreter) : Prop where
  dictionary : s'.dictionary = s.dictionary
  returns : s'.machine.returns = s.machine.returns
  memory : s'.machine.memory = s.machine.memory
  capacity : s'.machine.data.capacity = s.machine.data.capacity
  cells : ∃ lost, lost.length ≤ k ∧ s.machine.data.cells = lost ++ s'.machine.data.cells

namespace Lost

theorem of_eq (hdictionary : s'.dictionary = s.dictionary) (hmachine : s'.machine = s.machine) :
    Lost k s s' :=
  ⟨hdictionary, by rw [hmachine], by rw [hmachine], by rw [hmachine],
    [], Nat.zero_le k, by rw [hmachine, List.nil_append]⟩

/-- Cells that are lost twice add up. -/
theorem trans (h : Lost k s s') (h' : Lost n s' s'') : Lost (k + n) s s'' := by
  obtain ⟨lost, hlength, hcells⟩ := h.cells
  obtain ⟨later, hlength', hcells'⟩ := h'.cells
  refine ⟨h'.dictionary.trans h.dictionary, h'.returns.trans h.returns,
    h'.memory.trans h.memory, h'.capacity.trans h.capacity, lost ++ later, ?_, ?_⟩
  · rw [List.length_append]
    exact Nat.add_le_add hlength hlength'
  · rw [hcells, hcells', List.append_assoc]

theorem mono (h : Lost k s s') (hk : k ≤ n) : Lost n s s' := by
  obtain ⟨lost, hlength, hcells⟩ := h.cells
  exact { h with cells := ⟨lost, Nat.le_trans hlength hk, hcells⟩ }

/-- What is left is the lower part of the stack. -/
theorem elements_prefix (h : Lost k s s') :
    s'.machine.data.elements <+: s.machine.data.elements := by
  obtain ⟨lost, -, hcells⟩ := h.cells
  rw [Stack.elements, Stack.elements, hcells, List.reverse_append]
  exact List.prefix_append ..

/-- No more cells are missing than were lost. -/
theorem depth_le (h : Lost k s s') : s.machine.data.depth ≤ s'.machine.data.depth + k := by
  obtain ⟨lost, hlength, hcells⟩ := h.cells
  rw [Stack.depth, Stack.depth, hcells, List.length_append, Nat.add_comm]
  exact Nat.add_le_add_left hlength _

end Lost

/-- However the run ends, it has only taken cells off the data stack. -/
def Takes (k : Nat) (act : Run α) : Prop :=
  ∀ s, (act s).1 ≠ .error .tooDeep ∧ Lost k s (act s).2

/-- If the run is refused, it has only taken cells off the data stack. -/
def Spares (k : Nat) (act : Run α) : Prop :=
  ∀ s e s', act s = (.error e, s') → e ≠ .tooDeep ∧ Lost k s s'

theorem mapError_ne_tooDeep (x : Except Fault α) : x.mapError Stop.fault ≠ .error .tooDeep := by
  cases x <;> nofun

namespace Takes

/-- A run that only takes cells has also only taken cells when it is refused. -/
theorem spares {act : Run α} (h : Takes k act) : Spares k act := by
  intro s e s' hact
  obtain ⟨hdeep, hlost⟩ := h s
  rw [hact] at hdeep hlost
  exact ⟨fun he => hdeep (congrArg _ he), hlost⟩

/-- The first steps have taken what they take when the others are refused. -/
theorem bind {act : Run α} {next : α → Run β} (h : Takes k act) (hnext : ∀ a, Spares n (next a)) :
    Spares (k + n) (act >>= next) := by
  intro s e s' hrun
  obtain ⟨hdeep, hlost⟩ := h s
  rw [bind_apply] at hrun
  rcases hact : act s with ⟨e₁ | a, s₁⟩ <;> rw [hact] at hrun hdeep hlost
  · cases hrun
    exact ⟨fun he => hdeep (congrArg _ he), hlost.mono (Nat.le_add_right k n)⟩
  · obtain ⟨hdeep', hlost'⟩ := hnext a s₁ e s' hrun
    exact ⟨hdeep', hlost.trans hlost'⟩

/-- The first steps take nothing. -/
theorem look {act : Run α} {next : α → Run β} (h : Takes 0 act) (hnext : ∀ a, Spares n (next a)) :
    Spares n (act >>= next) :=
  Nat.zero_add n ▸ h.bind hnext

theorem pure (a : α) : Takes 0 (pure a) :=
  fun _ => ⟨nofun, .of_eq rfl rfl⟩

theorem throw (f : Fault) : Takes 0 (throw (.fault f) : Run α) :=
  fun _ => ⟨nofun, .of_eq rfl rfl⟩

theorem view (g : Interpreter → α) : Takes 0 (view g) :=
  fun _ => ⟨nofun, .of_eq rfl rfl⟩

theorem readWord (d : UInt8) : Takes 0 (readWord d) :=
  fun _ => ⟨nofun, .of_eq rfl rfl⟩

theorem parse (d : UInt8) : Takes 0 (parse d) :=
  fun _ => ⟨nofun, .of_eq rfl rfl⟩

theorem onChannel (act : Channel.Action α) : Takes 0 (onChannel act) :=
  fun _ => ⟨mapError_ne_tooDeep _, .of_eq rfl rfl⟩

theorem onMachine {act : Machine.Action α} (h : ∀ m, (act m).2 = m) : Takes 0 (onMachine act) :=
  fun s => ⟨mapError_ne_tooDeep _, .of_eq rfl (h s.machine)⟩

theorem top : Takes 0 (Interpreter.onMachine Machine.top) := by
  refine onMachine fun m => ?_
  cases hcells : m.data.cells with
  | nil => rw [Machine.top_of_nil hcells]
  | cons v below => rw [Machine.top_of_cons hcells]

theorem fetch (a : Nat) : Takes 0 (Interpreter.onMachine (Machine.onMemory (Memory.fetch a))) := by
  refine onMachine fun m => ?_
  cases hcell : m.memory.cells[a]? <;>
    simp [Machine.onMemory, Transaction.settle, Memory.fetch, hcell]

theorem pop : Takes 1 (Interpreter.onMachine Machine.pop) := by
  refine fun s => ⟨mapError_ne_tooDeep _, ?_⟩
  cases hcells : s.machine.data.cells with
  | nil => exact .of_eq rfl (congrArg Prod.snd (Machine.pop_of_nil hcells))
  | cons v below =>
    rw [onMachine_of (Machine.pop_of_cons hcells)]
    exact ⟨rfl, rfl, rfl, rfl, [v], Nat.le_refl 1, hcells⟩

theorem tokenOf (name : String) : Takes 0 (tokenOf name) := by
  intro s
  rw [Interpreter.tokenOf, findWord, view_bind]
  cases s.dictionary.find? name with
  | some entry => exact pure entry.token s
  | none => exact throw _ s

end Takes

namespace Spares

theorem refuse (f : Fault) : Spares 0 (throw (.fault f) : Run α) :=
  (Takes.throw f).spares

/-- A transaction that is refused leaves no trace. -/
theorem onMachine {act : Machine.Action α} (h : ∀ m f m', act m = (.error f, m') → m' = m) :
    Spares 0 (onMachine act) := by
  intro s e s' hact
  rcases hm : act s.machine with ⟨f | a, m'⟩ <;> rw [onMachine_of hm] at hact <;> cases hact
  exact ⟨nofun, .of_eq rfl (h _ f m' hm)⟩

theorem onData (t : Transaction Stack α) : Spares 0 (Interpreter.onMachine (Machine.onData t)) := by
  refine onMachine fun m f m' h => ?_
  rcases ht : t m.data with f | ⟨a, d⟩
  · rw [Machine.onData, Transaction.settle_of_error ht] at h
    cases h
    rfl
  · rw [Machine.onData, Transaction.settle_of_ok ht] at h
    cases h

theorem onMemory (t : Transaction Memory α) :
    Spares 0 (Interpreter.onMachine (Machine.onMemory t)) := by
  refine onMachine fun m f m' h => ?_
  rcases ht : t m.memory with f | ⟨a, d⟩
  · rw [Machine.onMemory, Transaction.settle_of_error ht] at h
    cases h
    rfl
  · rw [Machine.onMemory, Transaction.settle_of_ok ht] at h
    cases h

/-! ## Words -/

/-- Arithmetic pops one operand and replaces the other, so it can lose one cell. -/
theorem compute (op : Operation) : Spares 1 (Interpreter.onMachine (Machine.compute op)) := by
  simp only [Machine.compute, onMachine_bind]
  refine Takes.pop.bind (n := 0) fun r => Takes.top.look fun l => ?_
  rcases op.apply l r with f | v
  · exact (Takes.throw f).look fun _ => onData _
  · exact (Takes.pure v).look fun _ => onData _

/-- A store pops the address and the value, and can be refused after both. -/
theorem store : Spares 2 (Interpreter.onMachine Machine.store) := by
  simp only [Machine.store, onMachine_bind]
  refine Takes.pop.bind (n := 1) fun target => Takes.pop.bind (n := 0) fun v => ?_
  cases target with
  | addr a => exact onMemory _
  | int n => exact refuse _
  | text w => exact refuse _
  | token t => exact refuse _

/-- The address stays on the stack until its cell was read. -/
theorem fetch : Spares 0 (Interpreter.onMachine Machine.fetch) := by
  simp only [Machine.fetch, onMachine_bind]
  refine Takes.top.look fun target => ?_
  cases target with
  | addr a =>
    simp only [onMachine_bind]
    exact (Takes.fetch a).look fun v => onData _
  | int n => exact refuse _
  | text w => exact refuse _
  | token t => exact refuse _

/-- The address stays on the stack until it is replaced. -/
theorem cellPlus : Spares 0 (Interpreter.onMachine Machine.cellPlus) := by
  simp only [Machine.cellPlus, onMachine_bind]
  refine Takes.top.look fun target => ?_
  cases target with
  | addr a => exact onData _
  | int n => exact refuse _
  | text w => exact refuse _
  | token t => exact refuse _

/-- `tick` reads the line and the dictionary before it pushes. -/
theorem tick : Spares 0 tick := by
  refine (Takes.readWord _).look fun word => ?_
  cases word with
  | some name => exact (Takes.tokenOf name).look fun _ => onData _
  | none => exact refuse _

/-- The code is popped, and then it may stand for no character. -/
theorem emit : Spares 1 emit := by
  refine Takes.pop.bind (n := 0) fun v => ?_
  cases v with
  | int n =>
    dsimp only
    split
    · exact (Takes.onChannel _).spares
    · exact refuse _
  | text w => exact refuse _
  | addr a => exact refuse _
  | token t => exact refuse _

end Spares

/-! ## Words that cannot be refused for want of room halfway -/

/-- A token that runs no other is refused as its steps are. -/
theorem refused_of_execute {act : Run Unit} (hb : ∀ nested execute,
    tokenWith nested execute (.builtin b) = (do mark (.began (.builtin b)); thenProceed act))
    (h : execute (.builtin b) s = (.error e, s')) :
    act { s with trace := .began (.builtin b) :: s.trace } = (.error e, s') := by
  have hmark : mark (.began (.builtin b)) s =
    (.ok (), { s with trace := .began (.builtin b) :: s.trace }) := rfl
  rw [execute, view_bind, executeTokenWith_eq, hb, bind_of_ok hmark] at h
  rcases hact : act { s with trace := .began (.builtin b) :: s.trace } with ⟨e₁ | a, s₁⟩
  · rw [thenProceed, bind_of_error hact] at h
    cases h
    rfl
  · rw [thenProceed, bind_of_ok hact] at h
    cases h

/-- Beginning a token loses nothing. -/
theorem Spares.execute {act : Run Unit} (h : Spares k act) (hb : ∀ nested execute,
    tokenWith nested execute (.builtin b) = (do mark (.began (.builtin b)); thenProceed act)) :
    Spares k (execute (.builtin b)) := by
  intro s e s' hrun
  obtain ⟨hdeep, hlost⟩ := h _ e s' (refused_of_execute hb hrun)
  exact ⟨hdeep, { hlost with }⟩

/-- Words that lose no more than they may, whatever the stack holds. -/
theorem spares_execute (hruns : b ∉ [.execute, .evaluate, .quit])
    (hanswers : b ∉ [.allocate, .find]) : Spares b.loss (execute (.builtin b)) := by
  cases b with
  | depth => exact (Spares.onData _).execute fun _ _ => rfl
  | dup => exact (Spares.onData _).execute fun _ _ => rfl
  | drop => exact (Spares.onData _).execute fun _ _ => rfl
  | swap => exact (Spares.onData _).execute fun _ _ => rfl
  | copyBelow => exact (Spares.onData _).execute fun _ _ => rfl
  | pick => exact (Spares.onData _).execute fun _ _ => rfl
  | plus => exact (Spares.compute .sum).execute fun _ _ => rfl
  | minus => exact (Spares.compute .difference).execute fun _ _ => rfl
  | star => exact (Spares.compute .product).execute fun _ _ => rfl
  | slash => exact (Spares.compute .quotient).execute fun _ _ => rfl
  | store => exact Spares.store.execute fun _ _ => rfl
  | fetch => exact Spares.fetch.execute fun _ _ => rfl
  | allocate => simp at hanswers
  | cellPlus => exact Spares.cellPlus.execute fun _ _ => rfl
  | find => simp at hanswers
  | tick => exact Spares.tick.execute fun _ _ => rfl
  | execute => simp at hruns
  | evaluate => simp at hruns
  | quit => simp at hruns
  | bye =>
    intro s e s' hrun
    rw [execute, view_bind, executeTokenWith_eq] at hrun
    cases hrun
  | dot => exact (Takes.pop.bind fun _ => (Takes.onChannel _).spares).execute fun _ _ => rfl
  | dotS => exact ((Takes.view _).look fun _ => (Takes.onChannel _).spares).execute fun _ _ => rfl
  | dotQuote =>
    exact ((Takes.parse _).look fun _ => (Takes.onChannel _).spares).execute fun _ _ => rfl
  | emit => exact Spares.emit.execute fun _ _ => rfl
  | cr => exact (Takes.onChannel _).spares.execute fun _ _ => rfl
  | bl => exact (Spares.onData _).execute fun _ _ => rfl
  | words => exact ((Takes.view _).look fun _ => (Takes.onChannel _).spares).execute fun _ _ => rfl
  | sQuote => exact ((Takes.parse _).look fun _ => Spares.onData _).execute fun _ _ => rfl

/-! ## What remains -/

/-- How many cells of memory a word that fails has reserved all the same. -/
def reserved (b : Builtin) (m : Machine) : Nat :=
  match b, m.data.cells with
  | .allocate, .int n :: _ =>
    if m.data.isFull ∧ 0 ≤ n ∧ n.toInt.toNat ≤ Memory.limit - m.memory.size then n.toInt.toNat
    else 0
  | _, _ => 0

/-- The word fails for want of room when it has put something in place of the top cell. -/
inductive Displaces (m : Machine) (d : Dictionary) (f : Fault) : Builtin → Prop where
  | allocate (hfull : m.data.depth = m.data.capacity) (hf : f.kind = .stackOverflow) :
    Displaces m d f .allocate
  | find {name : String} {below : List Value} {entry : Entry}
    (hcells : m.data.cells = .text name :: below) (hentry : d.find? name = some entry) :
    Displaces m d f .find

/-- What a built-in word that failed leaves behind. -/
structure Remains (b : Builtin) (s : Interpreter) (f : Fault) (s' : Interpreter) : Prop where
  dictionary : s'.dictionary = s.dictionary
  returns : s'.machine.returns = s.machine.returns
  memory : s'.machine.memory.cells =
    s.machine.memory.cells ++ Array.replicate (reserved b s.machine) (.int 0)
  capacity : s'.machine.data.capacity = s.machine.data.capacity
  data : ¬ Displaces s.machine s.dictionary f b →
    s'.machine.data.elements <+: s.machine.data.elements ∧
      s.machine.data.depth ≤ s'.machine.data.depth + b.loss
  displaced : Displaces s.machine s.dictionary f b →
    f.kind = .stackOverflow ∧ s.machine.data.isFull = true ∧
      ∃ v v' below, s.machine.data.cells = v :: below ∧ s'.machine.data.cells = v' :: below ∧
        v' ≠ v

/-- Where nothing was reserved or displaced, the cells that were lost are all that is missing. -/
theorem Lost.remains (h : Lost k s s') (hk : k ≤ b.loss) (hreserved : reserved b s.machine = 0)
    (hdisplaces : ¬ Displaces s.machine s.dictionary f b) : Remains b s f s' where
  dictionary := h.dictionary
  returns := h.returns
  memory := by simp [h.memory, hreserved]
  capacity := h.capacity
  data _ := ⟨h.elements_prefix, (h.mono hk).depth_le⟩
  displaced hd := absurd hd hdisplaces

/-! ## Words that answer before they are refused -/

section Answers

variable {m' : Machine} {v first second : Value} {below : List Value} {memory : Memory}

/-- The word has taken the top cell and puts two answers on the stack. -/
theorem remains_of_pushes (hcells : s.machine.data.cells = v :: below) (hne : first ≠ v)
    (hmemory : s.machine.data.isFull = true → memory.cells =
      s.machine.memory.cells ++ Array.replicate (reserved .allocate s.machine) (.int 0))
    (h : (Machine.push first >>= fun _ => Machine.push second)
      { s.machine with data := { s.machine.data with cells := below }, memory } = (.error f, m')) :
    Remains .allocate s f { s with machine := m' } := by
  obtain ⟨hkind, hwant⟩ := Machine.of_push_push_error h
  have hdepth : s.machine.data.depth = below.length + 1 := by rw [Stack.depth, hcells]; rfl
  have hfull : s.machine.data.isFull = true := by
    simp only [Stack.isFull, hdepth, decide_eq_true_eq]
    rcases hwant with ⟨hwant, -⟩ | ⟨hwant, -⟩
    · exact Nat.le_succ_of_le hwant
    · exact Nat.le_of_eq hwant
  rcases hwant with ⟨hwant, rfl⟩ | ⟨hwant, rfl⟩
  · have hlost : Lost 1 s { s with machine :=
        { s.machine with data := { s.machine.data with cells := below } } } :=
      ⟨rfl, rfl, rfl, rfl, [v], Nat.le_refl 1, hcells⟩
    refine ⟨rfl, rfl, hmemory hfull, rfl, fun _ => ⟨hlost.elements_prefix, hlost.depth_le⟩, ?_⟩
    rintro ⟨hcapacity, -⟩
    have : s.machine.data.capacity ≤ below.length := hwant
    omega
  · refine ⟨rfl, rfl, hmemory hfull, rfl, fun hd => ?_, fun _ => ⟨hkind, hfull, ?_⟩⟩
    · exact absurd (.allocate (hdepth.trans hwant.symm) hkind) hd
    · exact ⟨v, first, below, hcells, rfl, hne⟩

theorem not_displaces_allocate {m : Machine} {d : Dictionary} (hf : f.kind ≠ .stackOverflow) :
    ¬ Displaces m d f .allocate := by
  rintro ⟨-, h⟩
  exact hf h

/-- A count for which there is memory is not the first answer, and neither is one for which there
is none. -/
theorem remains_of_count {n : Int64} (hcells : s.machine.data.cells = .int n :: below)
    (hn : ¬ n < 0) (h : Machine.reserve s.machine = (.error f, m')) :
    Remains .allocate s f { s with machine := m' } := by
  by_cases hshort : Memory.limit - s.machine.memory.size < n.toInt.toNat
  · rw [Machine.reserve_of_short hcells hn hshort] at h
    have hne : Value.int 0 ≠ .int n := by
      rintro ⟨⟩
      exact Nat.not_lt_zero _ hshort
    have hreserved : reserved .allocate s.machine = 0 := by
      unfold reserved
      rw [hcells]
      exact if_neg fun hfits => Nat.not_le.2 hshort hfits.2.2
    refine remains_of_pushes hcells hne (fun _ => ?_) h
    rw [hreserved, Array.replicate_zero, Array.append_empty]
  · rw [Machine.reserve_of_granted hcells hn hshort] at h
    have hne : Value.addr s.machine.memory.size ≠ .int n := nofun
    refine remains_of_pushes hcells hne (fun hfull => ?_) h
    have hreserved : reserved .allocate s.machine = n.toInt.toNat := by
      unfold reserved
      rw [hcells]
      exact if_pos ⟨hfull, Int64.not_lt.1 hn, Nat.not_lt.1 hshort⟩
    rw [hreserved]

/-- What a refused `allocate` leaves, by what was on top of the stack. -/
theorem remains_of_reserve (h : onMachine Machine.reserve s = (.error e, s')) :
    ∃ f, e = .fault f ∧ Remains .allocate s f s' := by
  rcases hm : Machine.reserve s.machine with ⟨f | a, m'⟩ <;> rw [onMachine_of hm] at h <;> cases h
  refine ⟨f, rfl, ?_⟩
  cases hcells : s.machine.data.cells with
  | nil =>
    rw [Machine.reserve, bind_of_error (Machine.pop_of_nil hcells)] at hm
    cases hm
    exact (Lost.of_eq (k := 0) rfl rfl).remains (Nat.zero_le _) (by simp [reserved, hcells])
      (not_displaces_allocate nofun)
  | cons v below =>
    have hlost : Lost 1 s { s with machine :=
        { s.machine with data := { s.machine.data with cells := below } } } :=
      ⟨rfl, rfl, rfl, rfl, [v], Nat.le_refl 1, hcells⟩
    have hpop := Machine.pop_of_cons hcells
    cases v with
    | int n =>
      by_cases hn : n < 0
      · rw [Machine.reserve, bind_of_ok hpop] at hm
        simp only [if_pos hn] at hm
        cases hm
        exact hlost.remains (Nat.le_refl 1) (by simp [reserved, hcells, Int64.not_le.2 hn])
          (not_displaces_allocate nofun)
      · exact remains_of_count hcells hn hm
    | text w =>
      rw [Machine.reserve, bind_of_ok hpop] at hm
      cases hm
      exact hlost.remains (Nat.le_refl 1) (by simp [reserved, hcells])
        (not_displaces_allocate nofun)
    | addr a =>
      rw [Machine.reserve, bind_of_ok hpop] at hm
      cases hm
      exact hlost.remains (Nat.le_refl 1) (by simp [reserved, hcells])
        (not_displaces_allocate nofun)
    | token t =>
      rw [Machine.reserve, bind_of_ok hpop] at hm
      cases hm
      exact hlost.remains (Nat.le_refl 1) (by simp [reserved, hcells])
        (not_displaces_allocate nofun)

/-- The token of a name that is defined stands in place of it. -/
theorem remains_of_found {name : String} {entry : Entry}
    (hcells : s.machine.data.cells = .text name :: below)
    (hentry : s.dictionary.find? name = some entry)
    (h : onMachine (Machine.push second) (s.withCells (.token entry.token :: below)) =
      (.error e, s')) : ∃ f, e = .fault f ∧ Remains .find s f s' := by
  have hsame : (s.withCells (.token entry.token :: below)).machine.data.isFull =
      s.machine.data.isFull := by
    rw [Stack.isFull, Stack.isFull, Stack.depth, Stack.depth, hcells]
    rfl
  cases hfull : s.machine.data.isFull with
  | true =>
    rw [onMachine_of (Machine.push_of_full (hsame.trans hfull) second)] at h
    cases h
    refine ⟨_, rfl, rfl, rfl, by simp [withCells, reserved], rfl, fun hd => ?_, fun _ => ?_⟩
    · exact absurd (.find hcells hentry) hd
    · exact ⟨rfl, hfull, _, _, _, hcells, rfl, by simp⟩
  | false =>
    rw [onMachine_of (Machine.push_of_room (hsame.trans hfull) second)] at h
    cases h

theorem remains_of_find (h : find s = (.error e, s')) :
    ∃ f, e = .fault f ∧ Remains .find s f s' := by
  -- what is no name, or the name of no word, stays where it is
  have hmissed : (∀ name below entry, s.machine.data.cells = .text name :: below →
      s.dictionary.find? name ≠ some entry) → e ≠ .tooDeep ∧ Lost 0 s s' →
      ∃ f, e = .fault f ∧ Remains .find s f s' := by
    rintro hmiss ⟨hdeep, hlost⟩
    cases e with
    | tooDeep => exact absurd rfl hdeep
    | fault f =>
      refine ⟨f, rfl, hlost.remains (Nat.le_refl 0) (by simp [reserved]) ?_⟩
      rintro (_ | ⟨hcells, hentry⟩)
      exact hmiss _ _ _ hcells hentry
  rw [find] at h
  cases hcells : s.machine.data.cells with
  | nil =>
    rw [bind_of_error (onMachine_of (Machine.top_of_nil hcells))] at h
    cases h
    exact hmissed (by simp [hcells]) ⟨by simp, .of_eq rfl rfl⟩
  | cons v below =>
    have htop : onMachine Machine.top s = (.ok v, s) := onMachine_of (Machine.top_of_cons hcells)
    rw [bind_of_ok htop] at h
    cases v with
    | text name =>
      dsimp only at h
      rw [findWord, view_bind] at h
      cases hentry : s.dictionary.find? name with
      | none =>
        rw [hentry] at h
        refine hmissed (fun name' below' entry hname => ?_) (Spares.onData _ s e s' h)
        cases hcells.symm.trans hname
        simp [hentry]
      | some entry =>
        have hreplace : onMachine (Machine.replaceTop (.token entry.token)) s =
            (.ok (), s.withCells (.token entry.token :: below)) :=
          onData_of_ok (by simp [Stack.replaceTop, hcells])
        rw [hentry] at h
        dsimp only at h
        rw [bind_of_ok hreplace] at h
        exact remains_of_found hcells hentry h
    | int n => exact hmissed (by simp [hcells]) (Spares.refuse _ s e s' h)
    | addr a => exact hmissed (by simp [hcells]) (Spares.refuse _ s e s' h)
    | token t => exact hmissed (by simp [hcells]) (Spares.refuse _ s e s' h)

end Answers

/-- A built-in word that runs no other and fails leaves the dictionary and the return stack as they
were. It takes a few cells off the data stack at most, but for the words that answer before they
find no room. -/
theorem failure_remains (hb : b ∉ [.execute, .evaluate, .quit])
    (h : execute (.builtin b) s = (.error e, s')) : ∃ f, e = .fault f ∧ Remains b s f s' := by
  by_cases hanswers : b ∈ [.allocate, .find]
  · simp only [List.mem_cons, List.not_mem_nil, or_false] at hanswers
    rcases hanswers with rfl | rfl
    · obtain ⟨f, rfl, hremains⟩ := remains_of_reserve (refused_of_execute (fun _ _ => rfl) h)
      exact ⟨f, rfl, { hremains with }⟩
    · obtain ⟨f, rfl, hremains⟩ := remains_of_find (refused_of_execute (fun _ _ => rfl) h)
      exact ⟨f, rfl, { hremains with }⟩
  · obtain ⟨hdeep, hlost⟩ := spares_execute hb hanswers s e s' h
    cases e with
    | tooDeep => exact absurd rfl hdeep
    | fault f =>
      refine ⟨f, rfl, hlost.remains (Nat.le_refl _) ?_ ?_⟩
      · unfold reserved
        split
        · simp at hanswers
        · rfl
      · rintro (_ | _) <;> simp at hanswers

/-- Three cells are reserved on a full stack: their address stands in place of the count, and there
is no room for the second answer. -/
theorem failure_remains_allocate :
    let s := (new 2 (.ofLines [])).withCells [.int 3, .text "x"]
    .allocate ∉ [Builtin.execute, .evaluate, .quit] ∧
    ∃ f s', execute (.builtin .allocate) s = (.error (.fault f), s') ∧ Remains .allocate s f s' ∧
      s'.machine.data.cells = [.addr 0, .text "x"] ∧
      s'.machine.memory.cells = #[.int 0, .int 0, .int 0] := by
  intro s
  have hb : .allocate ∉ [Builtin.execute, .evaluate, .quit] := by decide
  obtain ⟨hfails, hcells, hmemory⟩ : (execute (.builtin .allocate) s).1.toOption = none ∧
      (execute (.builtin .allocate) s).2.machine.data.cells = [.addr 0, .text "x"] ∧
      (execute (.builtin .allocate) s).2.machine.memory.cells = #[.int 0, .int 0, .int 0] := by
    decide +kernel
  rcases hrun : execute (.builtin .allocate) s with ⟨e | flow, s'⟩ <;>
    rw [hrun] at hfails hcells hmemory
  · obtain ⟨f, rfl, hremains⟩ := failure_remains hb hrun
    exact ⟨hb, f, s', rfl, hremains, hcells, hmemory⟩
  · cases hfails

end Interpreter
end CellForth
