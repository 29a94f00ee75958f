import CellForth.Proofs.Provenance

/-!
# Runs side by side

Two runs of the same words are compared, the second of which has more room on its stacks, or has
other cells below those of the first on its data stack, or runs one level of lines deeper. A `Frame`
says in which way they differ, and `Roomier` relates their states.

Each step of the first run is a step of the second, with the same result (`Carries`). The first may
however be refused where the second is not: for want of room if the second has more of it, for want
of cells if there are some below. Then nothing is said (`Framed.lost`), so what holds of a whole run
holds if it does not end like that.

Words that look at the whole data stack would tell the two apart, and so would host words. So it has
to be known which tokens an interpreter can come to run: it holds only words that are allowed
(`HoldsOnly`), and no word makes a token of anything else. For that reason `Carries` keeps track of
the values that a word takes from the stack, from memory and from the dictionary. It is proved for
the steps that follow values (`Guarded`), and so for all words.
-/

namespace CellForth

/-! ## What an interpreter holds -/

/-- A token of a built-in word that is allowed. -/
def Token.IsAllowed (allowed : Builtin → Prop) : Token → Prop
  | .builtin b => allowed b
  | .host _ => False

/-- All tokens in the dictionary, on the data stack and in memory are of built-in words that are
allowed, and there is no code of host words. -/
structure Interpreter.HoldsOnly (allowed : Builtin → Prop) (s : Interpreter) : Prop where
  hosts : s.hostCode = #[]
  words : ∀ name entry, s.dictionary.find? name = some entry → entry.token.IsAllowed allowed
  data : ∀ v ∈ s.machine.data.cells, v.Within (Token.IsAllowed allowed)
  memory : ∀ v ∈ s.machine.memory.cells, v.Within (Token.IsAllowed allowed)

/-- Without host code there is none that could touch the return stack. -/
theorem Interpreter.hostsKeepReturns_of_eq {s : Interpreter} (h : s.hostCode = #[]) :
    s.HostsKeepReturns := by
  intro code hcode
  simp [h] at hcode

namespace Dictionary

/-- The dictionary of some of the built-in words. -/
def of (words : List Builtin) : Dictionary :=
  words.foldl (fun d b => d.define b.name (.builtin b) false) empty

/-- A definition is found under every spelling of its name, and hides what was found there
before. -/
theorem find?_define (d : Dictionary) (name other : String) (t : Token) (immediate : Bool) :
    (d.define name t immediate).find? other =
      if Text.lowercase name = Text.lowercase other then some ⟨name, t, immediate⟩
      else d.find? other := by
  simp only [define, find?, Std.TreeMap.getElem?_insert, Std.LawfulEqCmp.compare_eq_iff_eq]

/-- A dictionary filled with allowed words has no others than it had. -/
theorem isAllowed_of_foldl {allowed : Builtin → Prop} {words : List Builtin}
    (hwords : ∀ b ∈ words, allowed b) {d : Dictionary}
    (hd : ∀ name entry, d.find? name = some entry → entry.token.IsAllowed allowed) :
    ∀ name entry, (words.foldl (fun d b => d.define b.name (.builtin b) false) d).find? name =
      some entry → entry.token.IsAllowed allowed := by
  induction words generalizing d with
  | nil => exact hd
  | cons b words ih =>
    obtain ⟨hb, hwords⟩ := List.forall_mem_cons.1 hwords
    refine ih hwords fun name entry hfind => ?_
    rw [find?_define] at hfind
    split at hfind
    · cases hfind
      exact hb
    · exact hd name entry hfind

end Dictionary

/-- A new interpreter that knows only words that are allowed. -/
theorem Interpreter.holdsOnly_new {allowed : Builtin → Prop} (words : List Builtin)
    (hwords : ∀ b ∈ words, allowed b) (capacity : Nat) (channel : Channel) :
    HoldsOnly allowed { new capacity channel with dictionary := .of words } where
  hosts := rfl
  words := Dictionary.isAllowed_of_foldl hwords fun name entry h => by
    simp [Dictionary.find?, Dictionary.empty] at h
  data := nofun
  memory := by simp [new, Machine.ofCapacity, Memory.empty]

/-! ## Stacks with more room, on top of other cells -/

/-- How many cells there is room for. -/
def Stack.free (s : Stack) : Nat := s.capacity - s.depth

/-- A stack is full if there is room for no more cells. -/
theorem Stack.isFull_iff_free {s : Stack} : s.isFull = true ↔ s.free = 0 := by
  simp only [isFull, free, decide_eq_true_eq]
  omega

/-- How the second of two runs may differ from the first: it has more room, unless it is `tight`,
and cells that lie `below` those of the first. Words that look at the whole data stack are not
allowed then. -/
structure Frame where
  allowed : Builtin → Prop
  below : List Value
  tight : Prop
  whole : allowed .depth ∨ allowed .dotS → below = []

namespace Frame

/-- The tokens of words that are allowed. -/
abbrev held (k : Frame) : Token → Prop := Token.IsAllowed k.allowed

variable {α β : Type} {k : Frame} {s t : Stack} {Q : α → Prop}

/-- The faults that the second run has to have in common with the first. -/
def Passes (k : Frame) (f : Fault) : Prop :=
  k.below = [] ∧ (k.tight ∨ f.kind ≠ .stackOverflow)

/-- The second stack has the cells of the first on top of others, and room for both. -/
structure Over (k : Frame) (s t : Stack) : Prop where
  cells : t.cells = s.cells ++ k.below
  room : s.capacity + k.below.length ≤ t.capacity
  tight : k.tight → t.capacity = s.capacity + k.below.length
  allowed : ∀ v ∈ s.cells, v.Within k.held

namespace Over

theorem cells_of_nil (h : k.Over s t) (hbelow : k.below = []) : t.cells = s.cells := by
  rw [h.cells, hbelow, List.append_nil]

theorem depth (h : k.Over s t) : t.depth = s.depth + k.below.length := by
  rw [Stack.depth, h.cells, List.length_append, Stack.depth]

theorem isFull (h : k.Over s t) (hroom : s.isFull = false) : t.isFull = false := by
  rw [Stack.isFull_eq_false_iff] at hroom ⊢
  have := h.depth
  have := h.room
  omega

/-- With no room to spare, the stacks are full together. -/
theorem isFull_of_tight (h : k.Over s t) (hk : k.tight) : t.isFull = s.isFull := by
  have hdepth := h.depth
  have hcapacity := h.tight hk
  simp only [Stack.isFull, decide_eq_decide]
  omega

/-- Both stacks with other cells on top. -/
theorem put (h : k.Over s t) {cells : List Value} (hcells : ∀ v ∈ cells, v.Within k.held) :
    k.Over { s with cells } { t with cells := cells ++ k.below } :=
  ⟨rfl, h.room, h.tight, hcells⟩

end Over

/-- What a transaction comes to on two stacks: the same, or it is refused on the first one for a
reason that need not hold of the second. -/
inductive Outcome (k : Frame) (Q : α → Prop) :
    Except Fault (α × Stack) → Except Fault (α × Stack) → Prop where
  | ok {a : α} {s t : Stack} (ha : Q a) (h : k.Over s t) : Outcome k Q (.ok (a, s)) (.ok (a, t))
  | refused (f : Fault) : Outcome k Q (.error f) (.error f)
  | lost {f : Fault} {r : Except Fault (α × Stack)} (h : ¬ k.Passes f) : Outcome k Q (.error f) r

/-- Transactions that come to the same on stacks that differ as the frame says. -/
def Handles (k : Frame) (op : Transaction Stack α) (Q : α → Prop) : Prop :=
  ∀ s t, k.Over s t → k.Outcome Q (op s) (op t)

/-- Want of cells on the first stack is want of cells on the second, unless there are some below. -/
theorem Outcome.of_underflow {what : String} {r : Except Fault (α × Stack)}
    (h : k.below = [] → r = Stack.underflow what) : k.Outcome Q (Stack.underflow what) r := by
  by_cases hbelow : k.below = []
  · rw [h hbelow]
    exact .refused _
  · exact .lost fun hpass => hbelow hpass.1

/-- Want of room on the first stack is want of room on the second, unless there is more. -/
theorem Outcome.of_overflow (h : k.Over s t) (hfull : s.isFull = true) (what : String)
    (r : Except Fault (α × Stack)) :
    k.Outcome Q (Stack.overflow what) (if t.isFull then Stack.overflow what else r) := by
  by_cases hk : k.tight
  · rw [if_pos ((h.isFull_of_tight hk).trans hfull)]
    exact .refused _
  · exact .lost fun hpass => hpass.2.elim hk fun hkind => hkind rfl

end Frame

namespace Stack

variable {k : Frame}

/-- A push needs room, and the second stack has at least as much. -/
theorem handles_push {v : Value} (hv : v.Within k.held) :
    k.Handles (push v) fun _ => True := by
  intro s t h
  cases hfull : s.isFull with
  | true =>
    simp only [push, hfull, if_true]
    exact .of_overflow h hfull _ _
  | false =>
    simp only [push, hfull, h.isFull hfull, h.cells, Bool.false_eq_true, if_false]
    exact .ok trivial (h.put (List.forall_mem_cons.2 ⟨hv, h.allowed⟩))

/-- The depth is the same on both stacks if no cells lie below, and only then is it asked for. -/
theorem handles_pushDepth (hk : k.allowed .depth) : k.Handles pushDepth fun _ => True := by
  intro s t h
  have hdepth : t.depth = s.depth := by
    rw [h.depth, k.whole (.inl hk), List.length_nil, Nat.add_zero]
  simp only [pushDepth, hdepth]
  exact handles_push (v := .int (Int64.ofNat s.depth)) trivial s t h

/-- The top of the first stack is the top of the second, if there is one. -/
theorem handles_top : k.Handles top (·.Within k.held) := by
  intro s t h
  unfold top
  rcases hcells : s.cells with _ | ⟨v, below⟩
  · exact .of_underflow fun hbelow => by rw [h.cells_of_nil hbelow, hcells]
  · have hv := h.allowed v (by simp [hcells])
    simp only [h.cells, hcells, List.cons_append]
    exact .ok hv h

theorem handles_pop : k.Handles pop (·.Within k.held) := by
  intro s t h
  unfold pop
  rcases hcells : s.cells with _ | ⟨v, below⟩
  · exact .of_underflow fun hbelow => by rw [h.cells_of_nil hbelow, hcells]
  · obtain ⟨hv, hbelow⟩ := List.forall_mem_cons.1 (hcells ▸ h.allowed)
    simp only [h.cells, hcells, List.cons_append]
    exact .ok hv (h.put hbelow)

theorem handles_drop : k.Handles drop fun _ => True := by
  intro s t h
  unfold drop
  rcases hcells : s.cells with _ | ⟨v, below⟩
  · exact .of_underflow fun hbelow => by rw [h.cells_of_nil hbelow, hcells]
  · obtain ⟨-, hbelow⟩ := List.forall_mem_cons.1 (hcells ▸ h.allowed)
    simp only [h.cells, hcells, List.cons_append]
    exact .ok trivial (h.put hbelow)

theorem handles_replaceTop {v : Value} (hv : v.Within k.held) :
    k.Handles (replaceTop v) fun _ => True := by
  intro s t h
  unfold replaceTop
  rcases hcells : s.cells with _ | ⟨w, below⟩
  · exact .of_underflow fun hbelow => by rw [h.cells_of_nil hbelow, hcells]
  · obtain ⟨-, hbelow⟩ := List.forall_mem_cons.1 (hcells ▸ h.allowed)
    simp only [h.cells, hcells, List.cons_append]
    exact .ok trivial (h.put (List.forall_mem_cons.2 ⟨hv, hbelow⟩))

theorem handles_dup : k.Handles dup fun _ => True := by
  intro s t h
  unfold dup
  rcases hcells : s.cells with _ | ⟨v, below⟩
  · exact .of_underflow fun hbelow => by rw [h.cells_of_nil hbelow, hcells]
  · have hcopied : ∀ w ∈ v :: v :: below, w.Within k.held := by
      simpa [hcells] using h.allowed
    simp only [h.cells, hcells, List.cons_append]
    cases hfull : s.isFull with
    | true => exact .of_overflow h hfull _ _
    | false =>
      rw [h.isFull hfull]
      exact .ok trivial (h.put hcopied)

theorem handles_swap : k.Handles swap fun _ => True := by
  intro s t h
  unfold swap
  rcases hcells : s.cells with _ | ⟨v, _ | ⟨w, below⟩⟩
  · exact .of_underflow fun hbelow => by rw [h.cells_of_nil hbelow, hcells]
  · exact .of_underflow fun hbelow => by rw [h.cells_of_nil hbelow, hcells]
  · have hswapped : ∀ u ∈ w :: v :: below, u.Within k.held := by
      have := h.allowed
      simp_all
    simp only [h.cells, hcells, List.cons_append]
    exact .ok trivial (h.put hswapped)

theorem handles_copyBelow : k.Handles copyBelow fun _ => True := by
  intro s t h
  unfold copyBelow
  rcases hcells : s.cells with _ | ⟨v, _ | ⟨w, below⟩⟩
  · exact .of_underflow fun hbelow => by rw [h.cells_of_nil hbelow, hcells]
  · exact .of_underflow fun hbelow => by rw [h.cells_of_nil hbelow, hcells]
  · have hcopied : ∀ u ∈ w :: v :: w :: below, u.Within k.held := by
      have := h.allowed
      simp_all
    simp only [h.cells, hcells, List.cons_append]
    cases hfull : s.isFull with
    | true => exact .of_overflow h hfull _ _
    | false =>
      rw [h.isFull hfull]
      exact .ok trivial (h.put hcopied)

/-- What can be picked on the first stack lies above the cells below. -/
theorem handles_pick : k.Handles pick fun _ => True := by
  intro s t h
  unfold pick
  rcases hcells : s.cells with _ | ⟨v, below⟩
  · exact .of_underflow fun hbelow => by rw [h.cells_of_nil hbelow, hcells]
  · simp only [h.cells, hcells, List.cons_append]
    cases v with
    | int n =>
      dsimp only
      split
      · exact .refused _
      · rcases hpicked : (Value.int n :: below)[n.toInt.toNat]? with _ | u
        · exact .of_underflow fun hbelow => by rw [hbelow, List.append_nil, hpicked]
        · obtain ⟨hlt, hu⟩ := List.getElem?_eq_some_iff.1 hpicked
          rw [← List.cons_append, List.getElem?_append_left hlt, hpicked]
          have hmem : u ∈ s.cells := by
            rw [hcells]
            exact hu ▸ List.getElem_mem hlt
          obtain ⟨-, hbelow⟩ := List.forall_mem_cons.1 (hcells ▸ h.allowed)
          exact .ok trivial (h.put (List.forall_mem_cons.2 ⟨h.allowed u hmem, hbelow⟩))
    | text w => exact .refused _
    | addr a => exact .refused _
    | token w => exact .refused _

end Stack

namespace Interpreter

variable {α β : Type} {k : Frame} {s s' t t' : Interpreter} {Q : α → Prop}

/-! ## Runs with more room, on top of other cells -/

/-- The second state differs from the first as a frame says, and the first holds what is allowed.
The cells of the return stacks need not be the same. -/
structure Roomier (k : Frame) (s t : Interpreter) : Prop where
  hosts : s.hostCode = #[]
  words : ∀ name entry, s.dictionary.find? name = some entry → k.held entry.token
  values : ∀ v ∈ s.machine.memory.cells, v.Within k.held
  data : k.Over s.machine.data t.machine.data
  free : s.machine.returns.free ≤ t.machine.returns.free
  free_of_tight : k.tight → t.machine.returns.free = s.machine.returns.free
  memory : t.machine.memory = s.machine.memory
  dictionary : t.dictionary = s.dictionary
  hostCode : t.hostCode = s.hostCode
  cursor : t.cursor = s.cursor
  channel : t.channel = s.channel

/-- An interpreter that holds what is allowed, and one with other stacks. -/
theorem HoldsOnly.roomier {data returns : Stack} (hs : s.HoldsOnly k.allowed) (trace : List Mark)
    (hcells : data.cells = s.machine.data.cells ++ k.below)
    (hroom : s.machine.data.capacity + k.below.length ≤ data.capacity)
    (hfree : s.machine.returns.free ≤ returns.free)
    (htight : k.tight → data.capacity = s.machine.data.capacity + k.below.length ∧
      returns.free = s.machine.returns.free) :
    Roomier k s { s with machine := ⟨data, returns, s.machine.memory⟩, trace } where
  hosts := hs.hosts
  words := hs.words
  values := hs.memory
  data := ⟨hcells, hroom, fun hk => (htight hk).1, hs.data⟩
  free := hfree
  free_of_tight := fun hk => (htight hk).2
  memory := rfl
  dictionary := rfl
  hostCode := rfl
  cursor := rfl
  channel := rfl

/-- Two runs that went on side by side, and left the return stacks as they were. -/
structure Carried (k : Frame) (s t s' t' : Interpreter) : Prop where
  roomier : Roomier k s' t'
  returns_left : s'.machine.returns = s.machine.returns
  returns_right : t'.machine.returns = t.machine.returns

/-- Two stretches side by side make one. -/
theorem Carried.trans {s'' t'' : Interpreter} (h : Carried k s t s' t')
    (h' : Carried k s' t' s'' t'') : Carried k s t s'' t'' :=
  ⟨h'.roomier, h'.returns_left.trans h.returns_left, h'.returns_right.trans h.returns_right⟩

/-- What a run comes to in two states: the same, or it is refused in the first for a reason that
need not hold in the second. -/
inductive Framed (k : Frame) (Q : α → Prop) (s t : Interpreter) :
    Except Stop α × Interpreter → Except Stop α × Interpreter → Prop where
  | ok {a : α} {s' t' : Interpreter} (ha : Q a) (h : Carried k s t s' t') :
    Framed k Q s t (.ok a, s') (.ok a, t')
  | refused {f : Fault} {s' t' : Interpreter} (h : Carried k s t s' t') :
    Framed k Q s t (.error (.fault f), s') (.error (.fault f), t')
  | lost {f : Fault} {s' : Interpreter} {r : Except Stop α × Interpreter} (h : ¬ k.Passes f) :
    Framed k Q s t (.error (.fault f), s') r

/-- Runs that come to the same in states that differ as the frame says, with results of a kind. -/
def Carries (k : Frame) (act : Run α) (Q : α → Prop) : Prop :=
  ∀ s t, Roomier k s t → Framed k Q s t (act s) (act t)

/-- What a later stretch comes to is what the whole comes to. -/
theorem Framed.after {r r' : Except Stop α × Interpreter} (hc : Carried k s t s' t')
    (h : Framed k Q s' t' r r') : Framed k Q s t r r' := by
  cases h with
  | ok ha h => exact .ok ha (hc.trans h)
  | refused h => exact .refused (hc.trans h)
  | lost h => exact .lost h

namespace Carries

theorem pure {a : α} (ha : Q a) : Carries k (pure a) Q :=
  fun _ _ h => .ok ha ⟨h, rfl, rfl⟩

theorem throw (f : Fault) : Carries k (throw (.fault f) : Run α) Q :=
  fun _ _ h => .refused ⟨h, rfl, rfl⟩

/-- Runs that are carried are carried in order, and what is lost in the first part is lost. -/
theorem bind {act : Run α} {next : α → Run β} {Q' : β → Prop} (h : Carries k act Q)
    (hnext : ∀ a, Q a → Carries k (next a) Q') : Carries k (act >>= next) Q' := by
  intro s t hst
  have hact := h s t hst
  rw [bind_apply, bind_apply]
  generalize act s = r, act t = r' at hact
  cases hact with
  | ok ha hc => exact (hnext _ ha _ _ hc.roomier).after hc
  | refused hc => exact .refused hc
  | lost hf => exact .lost hf

/-- A transaction on the data stack is carried if the frame handles it. -/
theorem stack {op : Transaction Stack α} (h : k.Handles op Q) :
    Carries k (onMachine (Machine.onData op)) Q := by
  intro s t hst
  have hop := h _ _ hst.data
  simp only [onMachine, Machine.onData, Transaction.settle]
  generalize op s.machine.data = r, op t.machine.data = r' at hop
  cases hop with
  | ok ha hover => exact .ok ha ⟨{ hst with data := hover }, rfl, rfl⟩
  | refused f => exact .refused ⟨{ hst with data := hst.data }, rfl, rfl⟩
  | lost hf => exact .lost hf

/-- Memory is the same for both runs, so a transaction on it comes to the same. -/
theorem memory {op : Transaction Memory α}
    (h : ∀ m, (∀ v ∈ m.cells, v.Within k.held) → ∀ a m', op m = .ok (a, m') →
      Q a ∧ ∀ v ∈ m'.cells, v.Within k.held) :
    Carries k (onMachine (Machine.onMemory op)) Q := by
  intro s t hst
  have hop := h _ hst.values
  simp only [onMachine, Machine.onMemory, Transaction.settle, hst.memory]
  rcases heq : op s.machine.memory with f | ⟨a, m⟩
  · exact .refused ⟨{ hst with memory := rfl }, rfl, rfl⟩
  · obtain ⟨ha, hm⟩ := hop a m heq
    exact .ok ha ⟨{ hst with values := hm, memory := rfl }, rfl, rfl⟩

theorem mark (m : Mark) : Carries k (mark m) fun _ => True :=
  fun _ _ h => .ok trivial ⟨{ h with }, rfl, rfl⟩

theorem readWord (d : UInt8) : Carries k (readWord d) fun _ => True := by
  intro s t h
  simp only [Interpreter.readWord, h.cursor]
  exact .ok trivial ⟨{ h with cursor := rfl }, rfl, rfl⟩

theorem parse (d : UInt8) : Carries k (parse d) fun _ => True := by
  intro s t h
  simp only [Interpreter.parse, h.cursor]
  exact .ok trivial ⟨{ h with cursor := rfl }, rfl, rfl⟩

/-- The channel is the same for both runs, so a call on it comes to the same. -/
theorem onChannel (act : Channel.Action α) : Carries k (onChannel act) fun _ => True := by
  intro s t h
  simp only [Interpreter.onChannel, h.channel]
  rcases act s.channel with ⟨f | a, c⟩
  · exact .refused ⟨{ h with channel := rfl }, rfl, rfl⟩
  · exact .ok trivial ⟨{ h with channel := rfl }, rfl, rfl⟩

/-- A look at the state is carried if the two runs see the same. -/
theorem view {f : Interpreter → α} (h : ∀ s t, Roomier k s t → Q (f s) ∧ f t = f s) :
    Carries k (view f) Q := by
  intro s t hst
  obtain ⟨hq, heq⟩ := h s t hst
  simp only [Interpreter.view, heq]
  exact .ok hq ⟨hst, rfl, rfl⟩

/-! ## Steps that follow values -/

/-- Moving, copying and dropping cells does not reach below those of the first stack. -/
theorem rearrange {op : Transaction Stack Unit} (h : Stack.Rearrangement op) :
    Carries k (onMachine (Machine.onData op)) fun _ => True := by
  cases h with
  | drop => exact stack Stack.handles_drop
  | dup => exact stack Stack.handles_dup
  | swap => exact stack Stack.handles_swap
  | copyBelow => exact stack Stack.handles_copyBelow
  | pick => exact stack Stack.handles_pick

/-- Memory is the same for both runs, so it is given out to both or to neither. -/
theorem allocate (count : Nat) :
    Carries k (onMachine (attempt (Machine.allocate count))) fun _ => True := by
  intro s t hst
  simp only [onMachine, attempt, Machine.allocate, Machine.onMemory, Transaction.settle, hst.memory]
  rcases heq : Memory.allocate count s.machine.memory with f | ⟨a, m⟩
  · exact .ok trivial ⟨{ hst with memory := rfl }, rfl, rfl⟩
  · exact .ok trivial
      ⟨{ hst with values := Memory.within_of_allocate heq hst.values, memory := rfl }, rfl, rfl⟩

/-- The data stack is shown by its cells, and its room does not show. -/
theorem dotS (hk : k.allowed .dotS) : Carries k dotS fun _ => True := by
  intro s t h
  have hcells : t.machine.data.cells = s.machine.data.cells :=
    h.data.cells_of_nil (k.whole (.inr hk))
  have hshow : showStack t.machine.data = showStack s.machine.data := by
    simp only [showStack, Stack.depth, Stack.elements, hcells]
  rw [Interpreter.dotS, view_bind, view_bind, hshow]
  exact onChannel _ s t h

/-- Memory and the dictionary are the same for both runs, and the data stack differs as the frame
says. -/
theorem guarded {act : Run α} (h : Guarded k.held k.held act Q) : Carries k act Q := by
  cases h with
  | machine h =>
    cases h with
    | push hv => exact stack (Stack.handles_push hv)
    | replaceTop hv => exact stack (Stack.handles_replaceTop hv)
    | top => exact stack Stack.handles_top
    | pop => exact stack Stack.handles_pop
    | rearrange ht => exact rearrange ht
    | pushDepth hdepth => exact stack (Stack.handles_pushDepth hdepth)
    | store a hv => exact memory fun m hm _ m' h => ⟨trivial, Memory.within_of_store h hv hm⟩
    | fetch a => exact memory fun m hm v m' h => (Memory.within_of_fetch h hm).symm
    | allocate count => exact allocate count
  | refuse f => exact throw f
  | host word hword => exact hword.elim
  | readWord => exact readWord _
  | parse _ => exact parse _
  | write text => exact onChannel _
  | findWord name => exact view fun _ _ h => ⟨h.words name, by rw [h.dictionary]⟩
  | names => exact view fun _ _ h => ⟨trivial, by rw [h.dictionary]⟩
  | dotS hshow => exact dotS hshow

/-- To be carried is a closed judgement. -/
theorem closed : Judgement.Closed k.held k.held fun _ => Carries k where
  pure := pure
  begin _ := mark _
  step := guarded
  bind := bind

end Carries

end Interpreter
end CellForth
