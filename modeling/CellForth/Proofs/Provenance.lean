import CellForth.Proofs.Rules
import CellForth.Proofs.StackEffects

/-!
# Where values come from

The steps of `Composition` may push any value at all. What words do with values is narrower: a
value that a word puts into a cell was in a cell before, or is the token of an entry of the
dictionary, or is no token. `Guarded` lists the steps once more with what they ask of the values
they are given and what is known of the values they answer (`Machine.Guarded` those on the machine),
and `Sourced` puts them in order, so that each step has what it asks for from the answers before it.

There are two sides to a token. The tokens of a set `held` may lie in cells and stand in the
dictionary, and those of a set `runnable` may run. Four things that a step can do depend on what
may run: to push the depth of the data stack, to show all of it, to read on to a quote, and to call
the host.

Every plain token is sourced (`exists_sourced_of_isPlain`), and so is what an item does before it
hands over (`Item.sourced_word`, `Item.exists_sourced_token`). Properties that have to follow values
through a run are judgements on runs and on their answers. One that holds of each step and is kept
by putting runs in order (`Judgement.Closed`) holds of all of these.
-/

namespace CellForth

/-- A value that is no token, or one of some tokens. -/
def Value.Within (held : Token → Prop) : Value → Prop
  | .token t => held t
  | _ => True

/-- Arithmetic gives no tokens. -/
theorem Operation.within_of_apply {held : Token → Prop} (op : Operation) {l r v : Value}
    (h : op.apply l r = .ok v) : v.Within held := by
  unfold apply at h
  split at h
  · next l r =>
    cases hc : op.compute l r <;> rw [hc] at h <;> cases h
    trivial
  · cases h

/-- The stack operations that only move, copy or drop cells. -/
inductive Stack.Rearrangement : Transaction Stack Unit → Prop where
  | drop : Rearrangement Stack.drop
  | dup : Rearrangement Stack.dup
  | swap : Rearrangement Stack.swap
  | copyBelow : Rearrangement Stack.copyBelow
  | pick : Rearrangement Stack.pick

/-- A rearrangement leaves no cell that was not on the stack before. -/
theorem Stack.Rearrangement.mem_of_mem {t : Transaction Stack Unit} (h : Rearrangement t)
    {s s' : Stack} (ht : t s = .ok ((), s')) {v : Value} (hv : v ∈ s'.cells) : v ∈ s.cells := by
  have hperform :
      ((fun _ => none) <$> t : Transaction Stack (Option Value)) s = .ok (none, s') := by
    rw [Transaction.map_apply, ht]
    rfl
  cases h with
  | drop => simpa using mem_of_transaction (r := .drop) hperform hv
  | dup => simpa using mem_of_transaction (r := .dup) hperform hv
  | swap => simpa using mem_of_transaction (r := .swap) hperform hv
  | copyBelow => simpa using mem_of_transaction (r := .copyBelow) hperform hv
  | pick => simpa using mem_of_transaction (r := .pick) hperform hv

namespace Memory

variable {held : Token → Prop} {m m' : Memory} {v : Value}

/-- A store puts one value into memory, so only that one has to be looked at. -/
theorem within_of_store {a : Nat} (h : store a v m = .ok ((), m')) (hv : v.Within held)
    (hm : ∀ u ∈ m.cells, u.Within held) : ∀ u ∈ m'.cells, u.Within held := by
  unfold store at h
  split at h <;> cases h
  next hlt =>
  intro u (hu : u ∈ m.cells.set a v hlt)
  exact (Array.mem_or_eq_of_mem_set hu).elim (hm u) fun heq => heq ▸ hv

/-- A value that is fetched was in memory. -/
theorem within_of_fetch {a : Nat} (h : fetch a m = .ok (v, m'))
    (hm : ∀ u ∈ m.cells, u.Within held) : (∀ u ∈ m'.cells, u.Within held) ∧ v.Within held := by
  unfold fetch at h
  split at h <;> cases h
  next hget => exact ⟨hm, hm v (Array.mem_of_getElem? hget)⟩

/-- New cells hold the number zero, which is no token. -/
theorem within_of_allocate {a count : Nat} (h : allocate count m = .ok (a, m'))
    (hm : ∀ u ∈ m.cells, u.Within held) : ∀ u ∈ m'.cells, u.Within held := by
  unfold allocate at h
  split at h <;> cases h
  intro u hu
  rcases Array.mem_append.1 hu with hu | hu
  · exact hm u hu
  · rw [(Array.mem_replicate.1 hu).2]
    trivial

end Memory

/-! ## Cells that words can reach -/

/-- All tokens on the data stack and in memory are some. Words do not reach those on the return
stack. -/
structure Machine.Exposes (held : Token → Prop) (m : Machine) : Prop where
  data : ∀ v ∈ m.data.cells, v.Within held
  memory : ∀ v ∈ m.memory.cells, v.Within held

/-- Machine steps that expose no tokens but some, answer as told, and leave the return stack
alone. -/
structure Machine.Careful {α : Type} (held : Token → Prop) (act : Machine.Action α)
    (Q : α → Prop) : Prop where
  exposes : ∀ m, m.Exposes held → (act m).2.Exposes held
  returns : ∀ m, (act m).2.returns = m.returns
  result : ∀ m a, m.Exposes held → (act m).1 = .ok a → Q a

namespace Machine.Careful

variable {α : Type} {held : Token → Prop} {Q : α → Prop}

theorem data {t : Transaction Stack α} (h : ∀ s a s', t s = .ok (a, s') →
      (∀ v ∈ s.cells, v.Within held) → (∀ v ∈ s'.cells, v.Within held) ∧ Q a) :
    Careful held (onData t) Q := by
  refine ⟨fun m hm => ?_, fun m => rfl, fun m a hm ha => ?_⟩
  · rcases ht : t m.data with f | ⟨a, d⟩
    · simp only [onData, Transaction.settle_of_error ht]
      exact hm
    · simp only [onData, Transaction.settle_of_ok ht]
      exact { hm with data := (h _ a d ht hm.data).1 }
  · rcases ht : t m.data with f | ⟨b, d⟩ <;>
      simp only [onData, Transaction.settle, ht] at ha <;> cases ha
    exact (h _ a d ht hm.data).2

/-- A memory operation leaves the data stack alone, so what it does to memory is enough. -/
theorem memory {t : Transaction Memory α} (h : ∀ m a m', t m = .ok (a, m') →
      (∀ v ∈ m.cells, v.Within held) → (∀ v ∈ m'.cells, v.Within held) ∧ Q a) :
    Careful held (onMemory t) Q := by
  refine ⟨fun m hm => ?_, fun m => rfl, fun m a hm ha => ?_⟩
  · rcases ht : t m.memory with f | ⟨a, d⟩
    · simp only [onMemory, Transaction.settle_of_error ht]
      exact hm
    · simp only [onMemory, Transaction.settle_of_ok ht]
      exact { hm with memory := (h _ a d ht hm.memory).1 }
  · rcases ht : t m.memory with f | ⟨b, d⟩ <;>
      simp only [onMemory, Transaction.settle, ht] at ha <;> cases ha
    exact (h _ a d ht hm.memory).2

/-- An attempt is as careful, and answers anything. -/
theorem attempt {act : Machine.Action α} (h : Careful held act Q) :
    Careful held (CellForth.attempt act) fun _ => True :=
  ⟨h.exposes, h.returns, fun _ _ _ _ => trivial⟩

end Machine.Careful

/-- The steps of words on the machine, with what is known of their answers. -/
inductive Machine.Guarded (held runnable : Token → Prop) :
    {α : Type} → Machine.Action α → (α → Prop) → Prop where
  | push {v : Value} (hv : v.Within held) : Guarded held runnable (push v) fun _ => True
  | replaceTop {v : Value} (hv : v.Within held) :
    Guarded held runnable (replaceTop v) fun _ => True
  | top : Guarded held runnable top (·.Within held)
  | pop : Guarded held runnable pop (·.Within held)
  | rearrange {t : Transaction Stack Unit} (ht : Stack.Rearrangement t) :
    Guarded held runnable (onData t) fun _ => True
  | pushDepth (h : runnable (.builtin .depth)) :
    Guarded held runnable (onData Stack.pushDepth) fun _ => True
  | store (a : Nat) {v : Value} (hv : v.Within held) :
    Guarded held runnable (onMemory (Memory.store a v)) fun _ => True
  | fetch (a : Nat) : Guarded held runnable (onMemory (Memory.fetch a)) (·.Within held)
  | allocate (count : Nat) : Guarded held runnable (attempt (allocate count)) fun _ => True

/-- What a step does to the machine follows from the values it is given. -/
theorem Machine.Guarded.careful {α : Type} {held runnable : Token → Prop} {Q : α → Prop}
    {act : Machine.Action α} (h : Guarded held runnable act Q) : Careful held act Q := by
  cases h with
  | push hv =>
    refine .data fun s _ s' h hs => ⟨?_, trivial⟩
    unfold Stack.push at h
    split at h <;> cases h
    exact List.forall_mem_cons.2 ⟨hv, hs⟩
  | replaceTop hv =>
    refine .data fun s _ s' h hs => ⟨?_, trivial⟩
    unfold Stack.replaceTop at h
    split at h <;> cases h
    next hcells => exact List.forall_mem_cons.2 ⟨hv, (List.forall_mem_cons.1 (hcells ▸ hs)).2⟩
  | top =>
    refine .data fun s v s' h hs => ?_
    unfold Stack.top at h
    split at h <;> cases h
    next hcells => exact ⟨hs, hs _ (by simp [hcells])⟩
  | pop =>
    refine .data fun s v s' h hs => ?_
    unfold Stack.pop at h
    split at h <;> cases h
    next hcells => exact (List.forall_mem_cons.1 (hcells ▸ hs)).symm
  | rearrange ht =>
    exact .data fun _ _ _ h hs => ⟨fun v hv => hs v (ht.mem_of_mem h hv), trivial⟩
  | pushDepth _ =>
    refine .data fun s _ s' h hs => ⟨?_, trivial⟩
    unfold Stack.pushDepth Stack.push at h
    split at h <;> cases h
    exact List.forall_mem_cons.2 ⟨trivial, hs⟩
  | store a hv => exact .memory fun _ _ _ h hm => ⟨Memory.within_of_store h hv hm, trivial⟩
  | fetch a => exact .memory fun _ _ _ h hm => Memory.within_of_fetch h hm
  | allocate count =>
    refine .attempt (Q := fun _ => True) (.memory fun _ _ _ h hm => ?_)
    exact ⟨Memory.within_of_allocate h hm, trivial⟩

namespace Interpreter

variable {α β : Type} {held runnable : Token → Prop} {Q : α → Prop}

/-! ## Steps that follow values -/

/-- The steps of words, with what is known of their answers. -/
inductive Guarded (held runnable : Token → Prop) : {α : Type} → Run α → (α → Prop) → Prop where
  | machine {α : Type} {Q : α → Prop} {act : Machine.Action α}
    (h : Machine.Guarded held runnable act Q) : Guarded held runnable (onMachine act) Q
  | refuse {α : Type} (f : Fault) (Q : α → Prop) :
    Guarded held runnable (throw (.fault f) : Run α) Q
  | host (word : HostWord) (h : runnable (.host word)) :
    Guarded held runnable (callHost word) fun _ => True
  | readWord : Guarded held runnable (readWord Byte.space) fun _ => True
  | parse (h : runnable (.builtin .sQuote) ∨ runnable (.builtin .dotQuote)) :
    Guarded held runnable (parse Byte.quote) fun _ => True
  | write (text : String) : Guarded held runnable (onChannel (Channel.write text)) fun _ => True
  | findWord (name : String) : Guarded held runnable (findWord name)
    fun entry => ∀ e, entry = some e → held e.token
  | names : Guarded held runnable (view (·.dictionary.names)) fun _ => True
  | dotS (h : runnable (.builtin .dotS)) : Guarded held runnable dotS fun _ => True

/-- Runs made of such steps in order. -/
inductive Sourced (held runnable : Token → Prop) : {α : Type} → Run α → (α → Prop) → Prop where
  | pure {α : Type} {Q : α → Prop} {a : α} (ha : Q a) : Sourced held runnable (pure a) Q
  | step {α : Type} {Q : α → Prop} {act : Run α} (h : Guarded held runnable act Q) :
    Sourced held runnable act Q
  | bind {α β : Type} {Q : α → Prop} {Q' : β → Prop} {act : Run α} {next : α → Run β}
    (h : Sourced held runnable act Q) (hnext : ∀ a, Q a → Sourced held runnable (next a) Q') :
    Sourced held runnable (act >>= next) Q'

namespace Sourced

theorem refuse (f : Fault) : Sourced held runnable (throw (.fault f)) Q :=
  step (.refuse f Q)

theorem machine {act : Machine.Action α} (h : Machine.Guarded held runnable act Q) :
    Sourced held runnable (onMachine act) Q :=
  step (.machine h)

theorem push {v : Value} (hv : v.Within held) :
    Sourced held runnable (onMachine (Machine.push v)) fun _ => True :=
  machine (.push hv)

/-! ## Words of the machine -/

/-- The result of arithmetic is no token, so it may be put in the place of the top. -/
theorem compute (op : Operation) :
    Sourced held runnable (onMachine (Machine.compute op)) fun _ => True := by
  simp only [Machine.compute, onMachine_bind]
  refine bind (machine .pop) fun r _ => bind (machine .top) fun l _ => ?_
  rcases heq : op.apply l r with f | v
  · exact bind (Q := fun _ => False) (refuse f) fun _ => False.elim
  · exact bind (pure (a := v) (op.within_of_apply heq)) fun _ hv => machine (.replaceTop hv)

/-- The value that is stored was popped, so it may lie in memory. -/
theorem store : Sourced held runnable (onMachine Machine.store) fun _ => True := by
  simp only [Machine.store, onMachine_bind]
  refine bind (machine .pop) fun target _ => bind (machine .pop) fun v hv => ?_
  cases target with
  | addr a => exact machine (.store a hv)
  | int n => exact refuse _
  | text w => exact refuse _
  | token t => exact refuse _

/-- The value that is fetched was in memory, so it may be put in the place of the top. -/
theorem fetch : Sourced held runnable (onMachine Machine.fetch) fun _ => True := by
  simp only [Machine.fetch, onMachine_bind]
  refine bind (machine .top) fun target _ => ?_
  cases target with
  | addr a =>
    simp only [onMachine_bind]
    exact bind (machine (.fetch a)) fun v hv => machine (.replaceTop hv)
  | int n => exact refuse _
  | text w => exact refuse _
  | token t => exact refuse _

theorem cellPlus : Sourced held runnable (onMachine Machine.cellPlus) fun _ => True := by
  simp only [Machine.cellPlus, onMachine_bind]
  refine bind (machine .top) fun target _ => ?_
  cases target with
  | addr a => exact machine (.replaceTop trivial)
  | int n => exact refuse _
  | text w => exact refuse _
  | token t => exact refuse _

/-- What `reserve` pushes is no token, granted or not. -/
theorem reserve : Sourced held runnable (onMachine Machine.reserve) fun _ => True := by
  simp only [Machine.reserve, onMachine_bind]
  refine bind (machine .pop) fun count _ => ?_
  cases count with
  | int n =>
    dsimp only
    split
    · exact refuse _
    · simp only [onMachine_bind]
      refine bind (machine (.allocate _)) fun result _ => ?_
      cases result with
      | ok a =>
        simp only [onMachine_bind]
        exact bind (push trivial) fun _ _ => push trivial
      | error f =>
        simp only [onMachine_bind]
        exact bind (push trivial) fun _ _ => push trivial
  | text w => exact refuse _
  | addr a => exact refuse _
  | token t => exact refuse _

/-! ## Words that look beyond the machine -/

/-- The token of a word is one that stands in the dictionary. -/
theorem tokenOf (name : String) : Sourced held runnable (tokenOf name) held := by
  refine bind (step (.findWord name)) fun entry hentry => ?_
  cases entry with
  | some entry => exact pure (hentry entry rfl)
  | none => exact refuse _

theorem find : Sourced held runnable find fun _ => True := by
  refine bind (machine .top) fun v _ => ?_
  cases v with
  | text name =>
    refine bind (step (.findWord name)) fun entry hentry => ?_
    cases entry with
    | some entry => exact bind (machine (.replaceTop (hentry entry rfl))) fun _ _ => push trivial
    | none => exact push trivial
  | int n => exact refuse _
  | addr a => exact refuse _
  | token t => exact refuse _

/-- The token that `tick` pushes stands in the dictionary. -/
theorem tick : Sourced held runnable tick fun _ => True := by
  refine bind (step .readWord) fun word _ => ?_
  cases word with
  | some name => exact bind (tokenOf name) fun _ ht => push ht
  | none => exact refuse _

theorem words : Sourced held runnable words fun _ => True :=
  bind (step .names) fun _ _ => step (.write _)

theorem sQuote (h : runnable (.builtin .sQuote)) : Sourced held runnable sQuote fun _ => True :=
  bind (step (.parse (.inl h))) fun _ _ => push trivial

theorem dotQuote (h : runnable (.builtin .dotQuote)) :
    Sourced held runnable dotQuote fun _ => True :=
  bind (step (.parse (.inr h))) fun _ _ => step (.write _)

theorem dot : Sourced held runnable dot fun _ => True :=
  bind (machine .pop) fun _ _ => step (.write _)

theorem emit : Sourced held runnable emit fun _ => True := by
  refine bind (machine .pop) fun v _ => ?_
  cases v with
  | int n =>
    dsimp only
    split
    · exact step (.write _)
    · exact refuse _
  | text w => exact refuse _
  | addr a => exact refuse _
  | token t => exact refuse _

end Sourced

/-! ## Tokens -/

/-- A plain token that may run begins and then goes through steps that follow values. -/
theorem exists_sourced_of_isPlain (held runnable : Token → Prop) {t : Token}
    (ht : t.isPlain = true) (hrun : runnable t) :
    ∃ act : Run Unit, (Sourced held runnable act fun _ => True) ∧
      ∀ nested execute, tokenWith nested execute t = (do mark (.began t); thenProceed act) := by
  cases t with
  | host word => exact ⟨_, .step (.host word hrun), fun _ _ => rfl⟩
  | builtin word =>
    cases word with
    | depth => exact ⟨_, .machine (.pushDepth hrun), fun _ _ => rfl⟩
    | dup => exact ⟨_, .machine (.rearrange .dup), fun _ _ => rfl⟩
    | drop => exact ⟨_, .machine (.rearrange .drop), fun _ _ => rfl⟩
    | swap => exact ⟨_, .machine (.rearrange .swap), fun _ _ => rfl⟩
    | copyBelow => exact ⟨_, .machine (.rearrange .copyBelow), fun _ _ => rfl⟩
    | pick => exact ⟨_, .machine (.rearrange .pick), fun _ _ => rfl⟩
    | plus => exact ⟨_, .compute .sum, fun _ _ => rfl⟩
    | minus => exact ⟨_, .compute .difference, fun _ _ => rfl⟩
    | star => exact ⟨_, .compute .product, fun _ _ => rfl⟩
    | slash => exact ⟨_, .compute .quotient, fun _ _ => rfl⟩
    | store => exact ⟨_, .store, fun _ _ => rfl⟩
    | fetch => exact ⟨_, .fetch, fun _ _ => rfl⟩
    | allocate => exact ⟨_, .reserve, fun _ _ => rfl⟩
    | cellPlus => exact ⟨_, .cellPlus, fun _ _ => rfl⟩
    | find => exact ⟨_, .find, fun _ _ => rfl⟩
    | tick => exact ⟨_, .tick, fun _ _ => rfl⟩
    | execute => cases ht
    | evaluate => cases ht
    | quit => cases ht
    | bye => cases ht
    | dot => exact ⟨_, .dot, fun _ _ => rfl⟩
    | dotS => exact ⟨_, .step (.dotS hrun), fun _ _ => rfl⟩
    | dotQuote => exact ⟨_, .dotQuote hrun, fun _ _ => rfl⟩
    | emit => exact ⟨_, .emit, fun _ _ => rfl⟩
    | cr => exact ⟨_, .step (.write _), fun _ _ => rfl⟩
    | bl => exact ⟨_, .push (v := .int 32) trivial, fun _ _ => rfl⟩
    | words => exact ⟨_, .words, fun _ _ => rfl⟩
    | sQuote => exact ⟨_, .sQuote hrun, fun _ _ => rfl⟩

/-! ## Items -/

/-- A part that begins with none but some tokens. -/
def Part.Within (held : Token → Prop) : Part → Prop
  | .item (.token t) => held t
  | .loop => held (.builtin .quit)
  | _ => True

/-- What an item hands over to begins with none but some tokens, if it hands over. -/
def HandsOverTo (held : Token → Prop) (next : Flow ⊕ Part) : Prop :=
  ∀ p, next = .inr p → p.Within held

/-- A word hands over to the token of an entry. -/
theorem Item.sourced_word (text : String) :
    Sourced held runnable (Item.word text).lead (HandsOverTo held) := by
  simp only [Item.lead]
  split
  · exact .bind (.push trivial) fun _ _ => .pure (by rintro _ ⟨⟩)
  · exact .bind (.tokenOf _) fun t ht => .pure (by rintro _ ⟨⟩; exact ht)
  · exact .refuse _

/-- A token begins, and then it goes through steps that follow values. What it hands over to comes
from the data stack, unless it is the read loop. -/
theorem Item.exists_sourced_token {t : Token} (ht : held t) :
    ∃ act, (Item.token t).lead = (do mark (.began t); act) ∧
      Sourced held held act (HandsOverTo held) := by
  by_cases hp : t.isPlain = true
  · obtain ⟨act, hact, heq⟩ := exists_sourced_of_isPlain held held hp ht
    exact ⟨_, Item.lead_eq_of_isPlain hp heq, .bind hact fun _ _ => .pure nofun⟩
  by_cases he : t = .builtin .execute
  · subst he
    refine ⟨_, rfl, .bind (.machine .pop) fun v hv => ?_⟩
    cases v with
    | token u => exact .pure (by rintro _ ⟨⟩; exact hv)
    | int n => exact .refuse _
    | text w => exact .refuse _
    | addr a => exact .refuse _
  obtain rfl | rfl | rfl := Token.eq_of_not_isPlain hp he
  · refine ⟨_, rfl, .bind (.machine .pop) fun v hv => ?_⟩
    cases v with
    | text line => exact .pure (by rintro _ ⟨⟩; trivial)
    | int n => exact .refuse _
    | addr a => exact .refuse _
    | token u => exact .refuse _
  · exact ⟨_, rfl, .bind (.step (.write _)) fun _ _ => .pure (by rintro _ ⟨⟩; exact ht)⟩
  · exact ⟨pure (.inl .exit), rfl, .pure nofun⟩

/-! ## Judgements -/

/-- A judgement on runs of every type of result and on what is known of their answers. -/
abbrev Judgement := (α : Type) → Run α → (α → Prop) → Prop

/-- A judgement that holds where a token begins and of every step that follows values, and that is
kept by putting runs in order. -/
structure Judgement.Closed (held runnable : Token → Prop) (J : Judgement) : Prop where
  pure : ∀ {α : Type} {Q : α → Prop} {a : α}, Q a → J α (Pure.pure a) Q
  begin : ∀ {t : Token}, held t → J Unit (mark (.began t)) fun _ => True
  step : ∀ {α : Type} {Q : α → Prop} {act : Run α}, Guarded held runnable act Q → J α act Q
  bind : ∀ {α β : Type} {Q : α → Prop} {Q' : β → Prop} {act : Run α} {next : α → Run β},
    J α act Q → (∀ a, Q a → J β (next a) Q') → J β (act >>= next) Q'

namespace Judgement.Closed

variable {J : Judgement}

/-- Such a judgement holds of every run made of steps that follow values. -/
theorem sourced (hJ : Closed held runnable J) {act : Run α} (h : Sourced held runnable act Q) :
    J α act Q := by
  induction h with
  | pure ha => exact hJ.pure ha
  | step h => exact hJ.step h
  | bind _ _ ih ihnext => exact hJ.bind ih ihnext

/-- Such a judgement holds of what an item does before it hands over. -/
theorem lead (hJ : Closed held held J) {i : Item} (hi : (Part.item i).Within held) :
    J _ i.lead (HandsOverTo held) := by
  cases i with
  | word text => exact hJ.sourced (Item.sourced_word text)
  | token t =>
    obtain ⟨act, hlead, hact⟩ := Item.exists_sourced_token hi
    rw [hlead]
    exact hJ.bind (hJ.begin hi) fun _ _ => hJ.sourced hact

end Judgement.Closed

end Interpreter

end CellForth
