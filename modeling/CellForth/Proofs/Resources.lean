import CellForth.Proofs.StackEffects

/-!
# Bounds on stacks and memory

Neither stack ever holds more cells than its capacity, which stays what it was at the start. Memory
never holds more cells than its limit and never shrinks, so an address that was good once stays good
(`Machine.Bounded`, `Machine.Sound`).

`Machine.Move` are the single operations on a machine, and `Machine.Method` is everything that can
be called on one. Host words are programs made of methods, and may go on after a refusal
(`Machine.Program`); they may do to the return stack what they like. What can be called on an
interpreter is a `Request`, and `After` is any number of them, however they end.

The bounds hold between requests and also inside of them. A run is made of moves, and `Passes` says
that each of these moves starts on a machine with a property. A property that every single move
keeps (`Machine.Invariant`) is one that every run passes with, at every level of lines.
-/

namespace CellForth

/-! ## Single operations -/

/-- Memory within its limit that holds so many cells at least. -/
structure Memory.Fits (size : Nat) (m : Memory) : Prop where
  size_le : size ≤ m.size
  le_limit : m.size ≤ Memory.limit

/-- An operation that is granted keeps memory within its limit and takes no cell away. -/
theorem Memory.Operation.fits_of_ok {α : Type} {t : Transaction Memory α} (h : Memory.Operation t)
    {size : Nat} {m m' : Memory} {a : α} (hm : m.Fits size) (ht : t m = .ok (a, m')) :
    m'.Fits size := by
  obtain ⟨hsize, hlimit⟩ := hm
  cases h with
  | allocate count =>
    unfold Memory.allocate at ht
    split at ht
    · cases ht
    · next hroom =>
      cases ht
      have happend : (⟨m.cells ++ Array.replicate count (.int 0)⟩ : Memory).size =
          m.size + count := by
        simp [Memory.size]
      exact ⟨by omega, by omega⟩
  | fetch a =>
    unfold Memory.fetch at ht
    split at ht <;> cases ht
    exact ⟨hsize, hlimit⟩
  | store a v =>
    unfold Memory.store at ht
    split at ht <;> cases ht
    exact ⟨by simpa [Memory.size] using hsize, by simpa [Memory.size] using hlimit⟩

/-- A refused operation leaves memory as it was, so operations keep the bounds however they end. -/
theorem Memory.Operation.fits {α : Type} {t : Transaction Memory α} (h : Memory.Operation t)
    {size : Nat} {m : Memory} (hm : m.Fits size) : (t.settle m).2.Fits size := by
  rcases ht : t m with f | ⟨a, m'⟩
  · rw [Transaction.settle_of_error ht]
    exact hm
  · rw [Transaction.settle_of_ok ht]
    exact h.fits_of_ok hm ht

theorem Memory.exists_fetch {m : Memory} {a : Nat} (h : a < m.size) :
    ∃ v, Memory.fetch a m = .ok (v, m) := by
  refine ⟨m.cells[a], ?_⟩
  rw [fetch, Array.getElem?_eq_getElem h]

namespace Machine

variable {α β : Type} {c size : Nat} {m m' : Machine}

/-- The single operations on a machine. -/
inductive Move : {α : Type} → Action α → Prop where
  | data {α : Type} {t : Transaction Stack α} (h : Stack.Operation t) : Move (onData t)
  | returns {α : Type} {t : Transaction Stack α} (h : Stack.Operation t) : Move (onReturns t)
  | memory {α : Type} {t : Transaction Memory α} (h : Memory.Operation t) : Move (onMemory t)
  | unnest (depth : Nat) : Move (modify (unnest depth))
  | clearReturns : Move (modify fun m => { m with returns := m.returns.clear })
  | reset : Move (modify reset)
  | look {α : Type} (f : Machine → α) : Move (fun m => (.ok (f m), m))
  | refuse {α : Type} (f : Fault) : Move (throw f : Action α)

/-- What can be called on a machine. To shorten the return stack is to `unnest`. -/
inductive Method : {α : Type} → Action α → Prop where
  | data {α : Type} {t : Transaction Stack α} (h : Stack.Operation t) : Method (onData t)
  | returns {α : Type} {t : Transaction Stack α} (h : Stack.Operation t) : Method (onReturns t)
  | clearReturns : Method (modify fun m => { m with returns := m.returns.clear })
  | compute (op : Operation) : Method (compute op)
  | store : Method store
  | fetch : Method fetch
  | cellPlus : Method cellPlus
  | reserve : Method reserve
  | allocate (count : Nat) : Method (allocate count)
  | read (a : Nat) : Method (onMemory (Memory.fetch a))
  | nest : Method nest
  | unnest (depth : Nat) : Method (modify (unnest depth))
  | reset : Method (modify reset)
  | look {α : Type} (f : Machine → α) : Method (fun m => (.ok (f m), m))
  | refuse {α : Type} (f : Fault) : Method (throw f : Action α)

/-- Programs made of methods. -/
inductive Program : {α : Type} → Action α → Prop where
  | method {α : Type} {act : Action α} (h : Method act) : Program act
  | bind {α β : Type} {act : Action α} {next : α → Action β} (h : Program act)
    (hnext : ∀ a, Program (next a)) : Program (act >>= next)
  | attempt {α : Type} {act : Action α} (h : Program act) : Program (attempt act)

/-- Any number of methods after each other, refused or not. -/
inductive After : Machine → Machine → Prop where
  | refl (m : Machine) : After m m
  | call {α : Type} {act : Action α} {m m' : Machine} (h : After m m') (hact : Method act) :
    After m (act m').2

/-! ## Every move of an action -/

/-- An action made of moves, each of which starts on a machine with a property. -/
inductive Passes (P : Machine → Prop) : {α : Type} → Action α → Machine → Prop where
  | move {α : Type} {act : Action α} {m : Machine} (h : Move act) (hm : P m) : Passes P act m
  | bind {α β : Type} {act : Action α} {next : α → Action β} {m : Machine} (h : Passes P act m)
    (hnext : ∀ a m', act m = (.ok a, m') → Passes P (next a) m') : Passes P (act >>= next) m
  | attempt {α : Type} {act : Action α} {m : Machine} (h : Passes P act m) :
    Passes P (attempt act) m

/-- A property that no single move breaks. -/
structure Invariant (P : Machine → Prop) : Prop where
  move : ∀ {α : Type} {act : Action α}, Move act → ∀ m, P m → P (act m).2

/-- An action that has a property at every move, and at its end. -/
def Keeps (P : Machine → Prop) (act : Action α) : Prop :=
  ∀ m, P m → Passes P act m ∧ P (act m).2

namespace Keeps

variable {P : Machine → Prop} (hP : Invariant P)
include hP

/-- A property that no move breaks is kept by each of them. -/
theorem move {act : Action α} (h : Move act) : Keeps P act :=
  fun m hm => ⟨.move h hm, hP.move h m hm⟩

omit hP in
/-- What two actions keep at every move, they keep in order. -/
theorem bind {act : Action α} {next : α → Action β} (h : Keeps P act)
    (hnext : ∀ a, Keeps P (next a)) : Keeps P (act >>= next) := by
  intro m hm
  obtain ⟨hpass, hend⟩ := h m hm
  rcases hact : act m with ⟨f | a, m'⟩ <;> rw [hact] at hend
  · refine ⟨.bind hpass fun a m₁ h₁ => ?_, by rw [bind_of_error hact]; exact hend⟩
    rw [hact] at h₁
    cases h₁
  · refine ⟨.bind hpass fun a₁ m₁ h₁ => ?_, by rw [bind_of_ok hact]; exact (hnext a m' hend).2⟩
    rw [hact] at h₁
    cases h₁
    exact (hnext a m' hend).1

omit hP in
/-- Going on after a refusal adds no move. -/
theorem attempt {act : Action α} (h : Keeps P act) : Keeps P (attempt act) :=
  fun m hm => ⟨.attempt (h m hm).1, (h m hm).2⟩

theorem pure (a : α) : Keeps P (pure a) :=
  move hP (.look fun _ => a)

theorem data {t : Transaction Stack α} (h : Stack.Operation t) : Keeps P (onData t) :=
  move hP (.data h)

/-- The words of the machine keep what their operations do. -/
theorem made {act : Action α} (h : Made act) : Keeps P act := by
  induction h with
  | pure a => exact pure hP a
  | data h => exact data hP h
  | memory h => exact move hP (.memory h)
  | trial h => exact attempt (move hP (.memory h))
  | refuse f _ => exact move hP (.refuse f)
  | bind _ _ ih ihnext => exact bind ih ihnext

/-- `nest` looks whether the return stack has room, and then pushes a cell. -/
theorem nest : Keeps P nest := by
  refine bind (move hP (.look id)) fun m => ?_
  dsimp only
  split
  · exact move hP (.refuse _)
  · exact bind (move hP (.returns (.push _))) fun _ => pure hP _

/-- Everything that can be called on a machine goes by moves. -/
theorem method {act : Action α} (h : Method act) : Keeps P act := by
  cases h with
  | data h => exact move hP (.data h)
  | returns h => exact move hP (.returns h)
  | clearReturns => exact move hP .clearReturns
  | compute op => exact made hP (.compute op)
  | store => exact made hP .store
  | fetch => exact made hP .fetch
  | cellPlus => exact made hP .cellPlus
  | reserve => exact made hP .reserve
  | allocate count => exact move hP (.memory (.allocate count))
  | read a => exact move hP (.memory (.fetch a))
  | nest => exact nest hP
  | unnest depth => exact move hP (.unnest depth)
  | reset => exact move hP .reset
  | look f => exact move hP (.look f)
  | refuse f => exact move hP (.refuse f)

/-- What all moves keep, all programs keep, also those that go on after a refusal. -/
theorem program {act : Action α} (h : Program act) : Keeps P act := by
  induction h with
  | method h => exact method hP h
  | bind _ _ ih ihnext => exact bind ih ihnext
  | attempt _ ih => exact attempt ih

end Keeps

/-- What no move breaks holds after any methods. -/
theorem Invariant.after {P : Machine → Prop} (hP : Invariant P) (h : After m m') (hm : P m) :
    P m' := by
  induction h with
  | refl => exact hm
  | call _ hact ih => exact (Keeps.method hP hact _ (ih hm)).2

/-! ## The bounds -/

/-- The bounds on a machine whose stacks have a capacity, and whose memory had a size before. -/
structure Bounded (c size : Nat) (m : Machine) : Prop where
  data : m.data.Fits c
  returns : m.returns.Fits c
  memory : m.memory.Fits size

/-- A bounded machine on which every place that is computed exists: what memory held before can be
read, and the operations by position are the operations. -/
structure Sound (c size : Nat) (m : Machine) : Prop extends Bounded c size m where
  readable : ∀ a < size, ∃ v, Memory.fetch a m.memory = .ok (v, m.memory)
  data_checked : m.data.Checked
  returns_checked : m.returns.Checked
  memory_checked : m.memory.Checked

/-- Within the bounds every place that is computed exists. -/
theorem Bounded.sound (h : m.Bounded c size) : m.Sound c size where
  toBounded := h
  readable _ ha := Memory.exists_fetch (Nat.lt_of_lt_of_le ha h.memory.size_le)
  data_checked := m.data.checked
  returns_checked := m.returns.checked
  memory_checked := Memory.checked h.memory.le_limit

/-- A new machine is within its bounds, with nothing in memory. -/
theorem sound_ofCapacity (c : Nat) : (ofCapacity c).Sound c 0 :=
  Bounded.sound ⟨⟨rfl, Nat.zero_le c⟩, ⟨rfl, Nat.zero_le c⟩, ⟨Nat.zero_le _, Nat.zero_le _⟩⟩

/-- What was sound is so for the size that memory has now. -/
theorem Sound.now (h : m.Sound c size) : m.Sound c m.memory.size :=
  Bounded.sound ⟨h.data, h.returns, ⟨Nat.le_refl _, h.memory.le_limit⟩⟩

/-- No single move leaves the bounds. -/
theorem Bounded.move {act : Action α} (h : Move act) (hm : m.Bounded c size) :
    (act m).2.Bounded c size := by
  cases h with
  | data h => exact { hm with data := h.fits hm.data }
  | returns h => exact { hm with returns := h.fits hm.returns }
  | memory h => exact { hm with memory := h.fits hm.memory }
  | unnest depth => exact { hm with returns := hm.returns.truncate depth }
  | clearReturns => exact { hm with returns := hm.returns.clear }
  | reset => exact { hm with data := hm.data.clear, returns := hm.returns.clear }
  | look f => exact hm
  | refuse f => exact hm

/-- The bounds are kept by moves, so by all that is made of them. -/
theorem invariant_sound (c size : Nat) : Invariant (Sound c size) :=
  ⟨fun h _ hm => (hm.toBounded.move h).sound⟩

/-- From a machine as it is made, methods keep the bounds, and what memory held at some time. -/
theorem After.sound (h : After (ofCapacity c) m) (h' : After m m') : m'.Sound c m.memory.size :=
  (invariant_sound c _).after h' ((invariant_sound c 0).after h (sound_ofCapacity c)).now

end Machine

namespace Interpreter

variable {α β : Type} {P : Machine → Prop}

/-! ## Every move of a run -/

/-- A run made of moves, each of which starts on a machine with a property. -/
inductive Passes (P : Machine → Prop) : {α : Type} → Run α → Interpreter → Prop where
  | machine {α : Type} {act : Machine.Action α} {s : Interpreter}
    (h : Machine.Passes P act s.machine) : Passes P (onMachine act) s
  | elsewhere {α : Type} {act : Run α} {s : Interpreter}
    (h : ∀ s, (act s).2.machine = s.machine) : Passes P act s
  | bind {α β : Type} {act : Run α} {next : α → Run β} {s : Interpreter} (h : Passes P act s)
    (hnext : ∀ a s', act s = (.ok a, s') → Passes P (next a) s') : Passes P (act >>= next) s
  | attempt {α : Type} {act : Run α} {s : Interpreter} (h : Passes P act s) :
    Passes P (attempt act) s

/-- The host words are programs on the machine. -/
def Hosted (s : Interpreter) : Prop :=
  ∀ code ∈ s.hostCode, Machine.Program code

/-- A run that has a property at every move, and at its end. -/
def Keeps (P : Machine → Prop) (act : Run α) : Prop :=
  ∀ s, s.Hosted → P s.machine → Passes P act s ∧ (act s).2.Hosted ∧ P (act s).2.machine

/-- The runs that have a property at every move, as a relation that looks at one run only. -/
def Throughout (P : Machine → Prop) : Relation := fun _ act _ => Keeps P act

namespace Keeps

/-- A run that leaves machine and host words alone makes no move. -/
theorem elsewhere {act : Run α}
    (h : ∀ s, (act s).2.machine = s.machine ∧ (act s).2.hostCode = s.hostCode) : Keeps P act := by
  intro s hs hm
  refine ⟨.elsewhere fun s => (h s).1, ?_, by rw [(h s).1]; exact hm⟩
  rw [Hosted, (h s).2]
  exact hs

theorem machine {act : Machine.Action α} (h : Machine.Keeps P act) : Keeps P (onMachine act) :=
  fun s hs hm => ⟨.machine (h s.machine hm).1, hs, (h s.machine hm).2⟩

/-- What two runs keep at every move, they keep in order. -/
theorem bind {act : Run α} {next : α → Run β} (h : Keeps P act) (hnext : ∀ a, Keeps P (next a)) :
    Keeps P (act >>= next) := by
  intro s hs hm
  obtain ⟨hpass, hhosts, hend⟩ := h s hs hm
  rcases hact : act s with ⟨e | a, s'⟩ <;> rw [hact] at hhosts hend
  · rw [bind_of_error hact]
    refine ⟨.bind hpass fun a s₁ h₁ => ?_, hhosts, hend⟩
    rw [hact] at h₁
    cases h₁
  · rw [bind_of_ok hact]
    refine ⟨.bind hpass fun a₁ s₁ h₁ => ?_, (hnext a s' hhosts hend).2⟩
    rw [hact] at h₁
    cases h₁
    exact (hnext a s' hhosts hend).1

theorem attempt {act : Run α} (h : Keeps P act) : Keeps P (attempt act) :=
  fun s hs hm => ⟨.attempt (h s hs hm).1, (h s hs hm).2⟩

theorem pure (a : α) : Keeps P (pure a) :=
  elsewhere fun _ => ⟨rfl, rfl⟩

theorem stop (e : Stop) : Keeps P (throw e : Run α) :=
  elsewhere fun _ => ⟨rfl, rfl⟩

theorem view (f : Interpreter → α) : Keeps P (view f) :=
  elsewhere fun _ => ⟨rfl, rfl⟩

theorem onChannel (act : Channel.Action α) : Keeps P (onChannel act) :=
  elsewhere fun _ => ⟨rfl, rfl⟩

variable (hP : Machine.Invariant P)
include hP

/-- The code of a host word is a program, so it goes by moves. -/
theorem callHost (word : HostWord) : Keeps P (callHost word) := by
  intro s hs hm
  -- The code depends on the state, and only that of this state is known to be a program, so `bind`,
  -- which asks for every code there could be, does not apply.
  have hcode : Machine.Program (s.hostCode.getD word.handle (Pure.pure ())) := by
    rw [Array.getD_eq_getD_getElem?]
    cases hget : s.hostCode[word.handle]? with
    | none => exact .method (.look fun _ => ())
    | some code => exact hs code (Array.mem_of_getElem? hget)
  obtain ⟨hpass, hhosts, hend⟩ := machine (.program hP hcode) s hs hm
  rw [Interpreter.callHost, view_bind]
  refine ⟨.bind (.elsewhere fun _ => rfl) fun a s' h => ?_, hhosts, hend⟩
  cases h
  exact hpass

/-- Every step of a run makes at most one move, host words apart. -/
theorem step {act : Run α} (h : Step act) : Keeps P act := by
  cases h with
  | stack h => exact machine (.data hP h)
  | memory h => exact machine (.move hP (.memory h))
  | trial h => exact machine (.attempt (.move hP (.memory h)))
  | refuse f _ => exact stop _
  | host word => exact callHost hP word
  | begin t => exact elsewhere fun _ => ⟨rfl, rfl⟩
  | readWord delimiter => exact elsewhere fun _ => ⟨rfl, rfl⟩
  | parse delimiter => exact elsewhere fun _ => ⟨rfl, rfl⟩
  | write text => exact onChannel _
  | findWord name => exact view _
  | names => exact view _
  | data => exact view _

theorem resetMachine : Keeps P resetMachine :=
  -- Besides the machine only the trace changes, which a mark can do on its own.
  show Keeps P (onMachine (modify Machine.reset) >>= fun _ => mark .recovered) from
    bind (machine (.move hP .reset)) fun _ => elsewhere fun _ => ⟨rfl, rfl⟩

/-- A recovery makes the one move that empties the stacks. -/
theorem recovering {act next : Run Flow} {done : Run Unit} (h : Keeps P act) (hdone : Keeps P done)
    (hnext : Keeps P next) : Keeps P (recovering act done next) := by
  refine bind (attempt h) fun result => ?_
  rcases result with (f | -) | (- | -)
  · dsimp only
    split
    · exact stop _
    · exact bind (bind (onChannel _) fun _ => resetMachine hP) fun _ => hnext
  · exact stop _
  · exact bind hdone fun _ => hnext
  · exact pure _

theorem takeLineWith {nested : String → Run Flow} {next : Run Flow}
    (hn : ∀ line, Keeps P (nested line)) (hnext : Keeps P next) :
    Keeps P (takeLineWith nested next) := by
  refine bind (onChannel _) fun line => ?_
  cases line with
  | none => exact pure _
  | some line => exact recovering hP (hn line) (onChannel _) hnext

/-- Entering a line makes the moves of `nest`, and leaving it makes one. -/
theorem within {body : Run Flow} (line : String) (h : Keeps P body) :
    Keeps P (within line body) := by
  have henter : Keeps P (enter line) :=
    bind (machine (.nest hP)) fun _ => bind (elsewhere fun _ => ⟨rfl, rfl⟩) fun _ =>
      bind (view _) fun _ => bind (elsewhere fun _ => ⟨rfl, rfl⟩) fun _ => pure _
  have hleave : ∀ depth saved, Keeps P (leave depth saved) := fun depth saved =>
    bind (machine (.move hP (.unnest depth))) fun _ => bind (elsewhere fun _ => ⟨rfl, rfl⟩) fun _ =>
      bind (view _) fun _ => elsewhere fun _ => ⟨rfl, rfl⟩
  exact bind henter fun _ => bind (attempt h) fun _ => bind (hleave _ _) fun _ =>
    elsewhere fun _ => ⟨rfl, rfl⟩

/-- What no single move breaks holds throughout every line. -/
theorem closed : Closed (Throughout P) where
  pure := pure
  step := step hP
  bind := bind
  count h := by cases h <;> exact view _
  tooDeep := stop _
  takeLineWith := takeLineWith hP
  within := within hP

theorem interpretAt (n : Nat) (line : String) : Keeps P (interpretAt n line) :=
  (closed hP).interpretAt n line

theorem executeTokenAt (n : Nat) (t : Token) :
    Keeps P (executeTokenWith (Interpreter.interpretAt n) t) :=
  (closed hP).executeTokenWith ((closed hP).interpretAt n) t

theorem executeWordAt (n : Nat) (name : String) :
    Keeps P (executeWordWith (Interpreter.interpretAt n) name) :=
  (closed hP).executeWordWith ((closed hP).interpretAt n) name

theorem quitAt (n : Nat) : Keeps P (quitWith (Interpreter.interpretAt n)) :=
  (closed hP).quitWith ((closed hP).interpretAt n)

section Files

variable {nested : String → Run Flow} (hn : ∀ line, Keeps P (nested line))
include hn

omit hP in
theorem loadLinesWith (name : String) (pieces : List (List UInt8)) :
    ∀ number, Keeps P (loadLinesWith nested name number pieces) := by
  induction pieces with
  | nil => exact fun _ => pure _
  | cons piece pieces ih =>
    intro number
    unfold Interpreter.loadLinesWith
    split
    · exact stop _
    · refine bind (attempt (hn _)) fun result => ?_
      rcases result with (f | -) | (- | -)
      · exact stop _
      · exact stop _
      · exact ih _
      · exact pure _

omit hP in
theorem loadWith (files : Files) (name : String) : Keeps P (loadWith nested files name) := by
  unfold Interpreter.loadWith
  split
  · exact loadLinesWith hn name _ 1
  · exact stop _

theorem loadAllWith (files : Files) (names : List String) :
    Keeps P (loadAllWith nested files names) := by
  induction names with
  | nil => exact pure _
  | cons name names ih => exact recovering hP (loadWith hn files name) (pure _) ih

/-- A session keeps what its lines and its read loop keep. -/
theorem sessionWith {loop : Run Flow} (hloop : Keeps P loop) (files : Files)
    (names : List String) (greet : Bool) : Keeps P (sessionWith nested loop files names greet) := by
  refine bind (loadAllWith hP hn files names) fun flow => ?_
  have hdiscard : Keeps P (discard loop) := bind hloop fun _ => pure _
  cases flow with
  | exit => exact pure _
  | proceed =>
    dsimp only
    split
    · exact bind (onChannel _) fun _ => hdiscard
    · exact hdiscard

end Files

end Keeps

/-! ## Requests -/

/-- What can be called on an interpreter. All that interprets lines may also be called with any
number of levels. -/
inductive Request : {α : Type} → Run α → Prop where
  | machine {α : Type} {act : Machine.Action α} (h : Machine.Method act) : Request (onMachine act)
  | defineHost (name : String) {code : Machine.Action Unit} (h : Machine.Program code) :
    Request (fun s => (.ok (), s.defineHost name code))
  | exchangeChannel (f : Channel → Channel) :
    Request (fun s => (.ok (), { s with channel := f s.channel }))
  | view {α : Type} (f : Interpreter → α) : Request (view f)
  | readWord (delimiter : UInt8) : Request (readWord delimiter)
  | interpret (line : String) : Request (interpret line)
  | interpretAt (n : Nat) (line : String) : Request (interpretAt n line)
  | execute (t : Token) : Request (execute t)
  | executeAt (n : Nat) (t : Token) : Request (executeTokenWith (interpretAt n) t)
  | executeWord (name : String) : Request (executeWord name)
  | executeWordAt (n : Nat) (name : String) : Request (executeWordWith (interpretAt n) name)
  | quit : Request quit
  | quitAt (n : Nat) : Request (quitWith (interpretAt n))
  | load (files : Files) (name : String) : Request (load files name)
  | loadAt (n : Nat) (files : Files) (name : String) :
    Request (loadWith (interpretAt n) files name)
  | session (files : Files) (names : List String) (greet : Bool) :
    Request (session files names greet)
  | sessionAt (n : Nat) (files : Files) (names : List String) (greet : Bool) :
    Request (sessionWith (interpretAt n) (quitWith (interpretAt n)) files names greet)

/-- Any number of requests after each other, refused or not. -/
inductive After : Interpreter → Interpreter → Prop where
  | refl (s : Interpreter) : After s s
  | call {α : Type} {act : Run α} {s s' : Interpreter} (h : After s s') (hact : Request act) :
    After s (act s').2

/-- A new host word that is a program leaves all host words programs. -/
theorem Keeps.defineHost (name : String) {code : Machine.Action Unit} (h : Machine.Program code) :
    Keeps P (fun s => (.ok (), s.defineHost name code)) := by
  intro s hs hm
  refine ⟨.elsewhere fun _ => rfl, fun code' hcode' => ?_, hm⟩
  rcases Array.mem_push.1 hcode' with hmem | rfl
  · exact hs code' hmem
  · exact h

/-- What no move of a machine breaks holds throughout every request. -/
theorem Keeps.request (hP : Machine.Invariant P) {act : Run α} (h : Request act) : Keeps P act := by
  have hline : ∀ line, Keeps P (interpret line) :=
    fun line => bind (view _) fun n => interpretAt hP n line
  have hquit : Keeps P quit := bind (view _) fun n => quitAt hP n
  cases h with
  | machine h => exact machine (.method hP h)
  | defineHost name h => exact defineHost name h
  | exchangeChannel f => exact elsewhere fun _ => ⟨rfl, rfl⟩
  | view f => exact view f
  | readWord delimiter => exact step hP (.readWord delimiter)
  | interpret line => exact hline line
  | interpretAt n line => exact interpretAt hP n line
  | execute t => exact bind (view _) fun n => executeTokenAt hP n t
  | executeAt n t => exact executeTokenAt hP n t
  | executeWord name => exact bind (view _) fun n => executeWordAt hP n name
  | executeWordAt n name => exact executeWordAt hP n name
  | quit => exact hquit
  | quitAt n => exact quitAt hP n
  | load files name => exact loadWith hline files name
  | loadAt n files name => exact loadWith (interpretAt hP n) files name
  | session files names greet => exact sessionWith hP hline hquit files names greet
  | sessionAt n files names greet =>
    exact sessionWith hP (interpretAt hP n) (quitAt hP n) files names greet

/-- What no move of a machine breaks holds after any number of requests. -/
theorem After.keeps {s s' : Interpreter} (hP : Machine.Invariant P) (h : After s s')
    (hs : s.Hosted) (hm : P s.machine) : s'.Hosted ∧ P s'.machine := by
  induction h with
  | refl => exact ⟨hs, hm⟩
  | call _ hact ih =>
    obtain ⟨hs', hm'⟩ := ih hs hm
    exact (Keeps.request hP hact _ hs' hm').2

/-- Whatever was called on an interpreter and on its machine, both stacks are within the capacity
they were made with, memory is within its limit, and what it held at some time can be read at every
later time. The same holds before every single move of whatever is called next, and of a machine
that is used without an interpreter. -/
theorem resources_sound {c : Nat} {channel : Channel} {s s' : Interpreter}
    (h : After (new c channel) s) (h' : After s s') :
    s'.machine.Sound c s.machine.memory.size ∧
    (∀ {α : Type} {act : Run α}, Request act →
      Passes (Machine.Sound c s.machine.memory.size) act s') ∧
    (∀ size, Machine.Invariant (Machine.Sound c size)) ∧
    ∀ {m m' : Machine}, Machine.After (.ofCapacity c) m → Machine.After m m' →
      m'.Sound c m.memory.size ∧
      ∀ {α : Type} {act : Machine.Action α}, Machine.Method act →
        Machine.Passes (Machine.Sound c m.memory.size) act m' := by
  have hP := Machine.invariant_sound c
  obtain ⟨hs, hm⟩ := h.keeps (hP 0) (fun _ hmem => absurd hmem (Array.not_mem_empty _))
    (Machine.sound_ofCapacity c)
  -- The bound on memory is taken afresh at `s`: from there on it never goes below that size.
  obtain ⟨hs', hm'⟩ := h'.keeps (hP _) hs hm.now
  refine ⟨hm', fun hact => (Keeps.request (hP _) hact s' hs' hm').1, hP, fun h₁ h₂ => ?_⟩
  exact ⟨h₁.sound h₂, fun hact => (Machine.Keeps.method (hP _) hact _ (h₁.sound h₂)).1⟩

/-- Two cells are allocated. Then a host word takes the cell of its line off the return stack, the
data stack overflows, and both stacks are emptied: the two cells can still be read. -/
theorem resources_sound_recovered :
    let lose := Machine.onReturns Stack.drop
    let s := (onMachine (Machine.allocate 2)
      ((new 2 (.ofLines ["lose 1 2 3", "bye"])).defineHost "lose" lose)).2
    s.machine.memory.size = 2 ∧ Mark.recovered ∈ (quit s).2.trace ∧
      (quit s).2.machine.Sound 2 s.machine.memory.size := by
  intro lose s
  have hlose : Machine.Program lose := .method (.returns .drop)
  have hs : After (new 2 (.ofLines ["lose 1 2 3", "bye"])) s :=
    .call (.call (.refl _) (.defineHost "lose" hlose)) (.machine (.allocate 2))
  exact ⟨rfl, by decide +kernel, (resources_sound hs (.call (.refl s) .quit)).1⟩

end Interpreter

end CellForth
