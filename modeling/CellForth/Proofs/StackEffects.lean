import CellForth.Proofs.Composition
import CellForth.Proofs.Positions

/-!
# What calls do to a stack

A stack can be called in any order (`Request`), and cells can be thrown away in between (`Change`).
Whatever was done to it, how the next call ends is told by the cells alone:

* there are too few of them (`Lacks`);
* `pick` finds something else than an integer on top, or a negative one;
* the stack would have to grow (`Request.grows`) and is full.

The first reason that applies is the one that is given, and nothing has changed then. In all other
cases the call is granted, replaces some cells on top by others (`Effect`), and leaves the cells
below them alone. `Outcome` has a case for each of these ends, and every call has one of them
(`outcome`). The operations that words perform are calls as well (`Operation.exists_request`), so
what holds of all of them is read off these cases: they keep a stack within its capacity
(`Operation.fits`), and none of their faults is fatal (`Operation.isFatal_of_error`).

Main statement: the reasons are exact, on every stack that calls can lead to (`calls_exact`).
-/

namespace CellForth

namespace Stack

/-- A call on a stack. -/
inductive Request where
  | push (v : Value)
  | top
  | pop
  | drop
  | replaceTop (v : Value)
  | dup
  | swap
  | copyBelow
  | pick
  | depth

namespace Request

/-- Makes a call, step by step. It answers with a cell, or with nothing. -/
def perform : Request → Positional Stack (Option Value)
  | .push v => (fun _ => none) <$> pushAt v
  | .top => some <$> topAt
  | .pop => some <$> popAt
  | .drop => (fun _ => none) <$> dropAt
  | .replaceTop v => (fun _ => none) <$> replaceTopAt v
  | .dup => (fun _ => none) <$> dupAt
  | .swap => (fun _ => none) <$> swapAt
  | .copyBelow => (fun _ => none) <$> copyBelowAt
  | .pick => (fun _ => none) <$> pickAt
  | .depth => (fun _ => none) <$> pushDepthAt

/-- A call as a transaction. -/
def transaction : Request → Transaction Stack (Option Value)
  | .push v => (fun _ => none) <$> Stack.push v
  | .top => some <$> Stack.top
  | .pop => some <$> Stack.pop
  | .drop => (fun _ => none) <$> Stack.drop
  | .replaceTop v => (fun _ => none) <$> Stack.replaceTop v
  | .dup => (fun _ => none) <$> Stack.dup
  | .swap => (fun _ => none) <$> Stack.swap
  | .copyBelow => (fun _ => none) <$> Stack.copyBelow
  | .pick => (fun _ => none) <$> Stack.pick
  | .depth => (fun _ => none) <$> pushDepth

/-- To make a call step by step is to make it at once. -/
theorem perform_eq (r : Request) (s : Stack) : r.perform s = some (r.transaction.settle s) := by
  have hs := s.checked
  cases r with
  | push v => exact Positional.map_eq_settle _ (hs.push v)
  | top => exact Positional.map_eq_settle _ hs.top
  | pop => exact Positional.map_eq_settle _ hs.pop
  | drop => exact Positional.map_eq_settle _ hs.drop
  | replaceTop v => exact Positional.map_eq_settle _ (hs.replaceTop v)
  | dup => exact Positional.map_eq_settle _ hs.dup
  | swap => exact Positional.map_eq_settle _ hs.swap
  | copyBelow => exact Positional.map_eq_settle _ hs.copyBelow
  | pick => exact Positional.map_eq_settle _ hs.pick
  | depth => exact Positional.map_eq_settle _ hs.pushDepth

/-- How many cells a call cannot do without. -/
def needs : Request → Nat
  | .push _ | .depth => 0
  | .swap | .copyBelow => 2
  | _ => 1

/-- Whether a call leaves a cell more than there were. -/
def grows : Request → Bool
  | .push _ | .dup | .copyBelow | .depth => true
  | _ => false

theorem ne_pick_of_grows {r : Request} (h : r.grows = true) : r ≠ .pick := by
  rintro rfl
  cases h

end Request

variable {s s' : Stack} {r : Request} {c : Nat}

/-! ## How a call can end -/

/-- There are too few cells for a call. `pick` reaches as many cells below its own as the integer on
top says. -/
def Lacks (s : Stack) (r : Request) : Prop :=
  s.depth < r.needs ∨
    r = .pick ∧ ∃ n : Int64, s.elements.getLast? = some (.int n) ∧ (s.depth : Int) ≤ n.toInt

/-- The effect of a call that is granted: the cells on top that it takes and those that it puts in
their place, both from the bottom to the top, and its answer. -/
inductive Effect (s : Stack) : Request → List Value → List Value → Option Value → Prop where
  | push (v : Value) : Effect s (.push v) [] [v] none
  | top (x : Value) : Effect s .top [x] [x] (some x)
  | pop (x : Value) : Effect s .pop [x] [] (some x)
  | drop (x : Value) : Effect s .drop [x] [] none
  | replaceTop (v x : Value) : Effect s (.replaceTop v) [x] [v] none
  | dup (x : Value) : Effect s .dup [x] [x, x] none
  | swap (x y : Value) : Effect s .swap [x, y] [y, x] none
  | copyBelow (x y : Value) : Effect s .copyBelow [x, y] [x, y, x] none
  | pick {n : Int64} {i : Nat} {x : Value} (hi : (i : Int) + n.toInt + 1 = s.depth)
    (hx : s.elements[i]? = some x) : Effect s .pick [.int n] [x] none
  | depth {n : Int64} (hn : n.toInt = (s.depth : Int).bmod Int64.size) :
    Effect s .depth [] [.int n] none

/-- Cells on top were replaced by others, and the cells below them are the same. -/
structure Replaced (before after : List Value) (s s' : Stack) : Prop where
  capacity : s'.capacity = s.capacity
  elements : ∃ below, s.elements = below ++ before ∧ s'.elements = below ++ after

/-- How a call can end. -/
inductive Outcome (s : Stack) : Request → Except Fault (Option Value × Stack) → Prop where
  | lacking {r : Request} {what : String} (h : s.Lacks r) :
    Outcome s r (.error ⟨.stackUnderflow, what⟩)
  | notInteger {what : String} (h : ¬ s.Lacks .pick)
    (htop : ∀ n, s.elements.getLast? ≠ some (.int n)) :
    Outcome s .pick (.error ⟨.integerRequired, what⟩)
  | negative {what : String} {n : Int64} (h : ¬ s.Lacks .pick)
    (htop : s.elements.getLast? = some (.int n)) (hn : n < 0) :
    Outcome s .pick (.error ⟨.outOfRange, what⟩)
  | full {r : Request} {what : String} (h : ¬ s.Lacks r) (hgrows : r.grows = true)
    (hfull : s.capacity ≤ s.depth) : Outcome s r (.error ⟨.stackOverflow, what⟩)
  | granted {r : Request} {before after : List Value} {answer : Option Value} {s' : Stack}
    (h : ¬ s.Lacks r) (hroom : r.grows = true → s.depth < s.capacity)
    (heffect : Effect s r before after answer) (hreplaced : Replaced before after s s') :
    Outcome s r (.ok (answer, s'))

/-! ## Every call ends in one of these ways -/

/-- The cells on top are the first of the list, so replacing its front leaves the others. -/
theorem replaced_of_cells {before after below : List Value}
    (h : s.cells = before.reverse ++ below) :
    Replaced before after s { s with cells := after.reverse ++ below } := by
  refine ⟨rfl, below.reverse, ?_, ?_⟩
  · rw [elements, h, List.reverse_append, List.reverse_reverse]
  · simp only [elements, List.reverse_append, List.reverse_reverse]

theorem lacks_of_cells {cells : List Value} (h : s.cells = cells) (hlt : cells.length < r.needs) :
    s.Lacks r :=
  .inl (by rwa [depth, h])

theorem Effect.length_before {before after : List Value} {answer : Option Value}
    (h : Effect s r before after answer) : before.length = r.needs := by
  cases h <;> rfl

/-- Where a call finds the cells that it takes, there are cells enough, unless it is `pick`. -/
theorem Effect.not_lacks {before after below : List Value} {answer : Option Value}
    (h : Effect s r before after answer) (hr : r ≠ .pick)
    (hcells : s.cells = before.reverse ++ below) : ¬ s.Lacks r := by
  rintro (hlt | ⟨rfl, -⟩)
  · rw [Stack.depth, hcells, List.length_append, List.length_reverse, h.length_before] at hlt
    omega
  · exact hr rfl

/-- A call that does not grow the stack is granted where it finds its cells. -/
theorem Effect.outcome {before after below : List Value} {answer : Option Value}
    (h : Effect s r before after answer) (hr : r ≠ .pick) (hgrows : r.grows = false)
    (hcells : s.cells = before.reverse ++ below) :
    Outcome s r (.ok (answer, { s with cells := after.reverse ++ below })) :=
  .granted (h.not_lacks hr hcells) (by simp [hgrows]) h (replaced_of_cells hcells)

/-- A call that grows the stack is granted if there is room as well. -/
theorem Effect.outcome_of_grows {before after below : List Value} {answer : Option Value}
    {what : String} (h : Effect s r before after answer) (hr : r ≠ .pick) (hgrows : r.grows = true)
    (hcells : s.cells = before.reverse ++ below) :
    Outcome s r (if s.isFull then .error ⟨.stackOverflow, what⟩
      else .ok (answer, { s with cells := after.reverse ++ below })) := by
  have hlacks := h.not_lacks hr hcells
  cases hfull : s.isFull with
  | true => exact .full hlacks hgrows (of_decide_eq_true hfull)
  | false =>
    exact .granted hlacks (fun _ => isFull_eq_false_iff.1 hfull) h (replaced_of_cells hcells)

theorem map_ite_isFull {α β : Type} {f : α → β} {what : String} {a : α} :
    (if s.isFull then overflow what else .ok a : Except Fault α).map f =
      if s.isFull then .error ⟨.stackOverflow, what⟩ else .ok (f a) := by
  split <;> rfl

/-- Only an integer on top can tell `pick` to reach down too far. -/
theorem lacks_pick_iff {v : Value} (h : s.elements.getLast? = some v) :
    s.Lacks .pick ↔ ∃ n : Int64, v = .int n ∧ (s.depth : Int) ≤ n.toInt := by
  have hdepth : s.depth ≠ 0 := by
    intro hzero
    rw [getLast?_elements, List.eq_nil_of_length_eq_zero hzero] at h
    cases h
  constructor
  · rintro (hlt | ⟨-, n, hn, hle⟩)
    · exact absurd (Nat.lt_one_iff.1 hlt) hdepth
    · rw [h] at hn
      exact ⟨n, Option.some.inj hn, hle⟩
  · rintro ⟨n, rfl, hle⟩
    exact .inr ⟨rfl, n, h, hle⟩

/-- `pick` is the one call that looks at a value to find its cell. -/
theorem outcome_pick (s : Stack) : Outcome s .pick (Request.transaction .pick s) := by
  simp only [Request.transaction, Transaction.map_apply, pick]
  rcases hcells : s.cells with _ | ⟨v, below⟩
  · exact .lacking (lacks_of_cells hcells Nat.zero_lt_one)
  · have htop : s.elements.getLast? = some v := by
      rw [getLast?_elements, hcells, List.head?_cons]
    have hnot : ∀ {what : String}, (∀ n, v ≠ .int n) →
        Outcome s .pick (.error ⟨.integerRequired, what⟩) := by
      intro what hv
      refine .notInteger ?_ (by simpa [htop] using hv)
      rw [lacks_pick_iff htop]
      rintro ⟨n, hn, -⟩
      exact hv n hn
    cases v with
    | int n =>
      have hlacks : s.Lacks .pick ↔ (s.depth : Int) ≤ n.toInt := by
        simpa using lacks_pick_iff htop
      have hdepth : s.depth = s.cells.length := rfl
      dsimp only
      by_cases hn : n < 0
      · rw [if_pos hn]
        refine .negative ?_ htop hn
        rw [Int64.lt_iff_toInt_lt, Int64.toInt_zero] at hn
        rw [hlacks]
        omega
      · rw [if_neg hn]
        rw [Int64.lt_iff_toInt_lt, Int64.toInt_zero] at hn
        cases hget : (Value.int n :: below)[n.toInt.toNat]? with
        | none =>
          rw [List.getElem?_eq_none_iff, ← hcells] at hget
          exact .lacking (hlacks.2 (by omega))
        | some x =>
          have hlt := (List.getElem?_eq_some_iff.1 hget).1
          rw [← hcells] at hget hlt
          -- the same cell, counted from the bottom
          have hx : s.elements[s.depth - 1 - n.toInt.toNat]? = some x := by
            rw [getElem?_elements (k := n.toInt.toNat) (by omega), hget]
          refine .granted ?_ (by simp [Request.grows]) (.pick (n := n) (by omega) hx)
            (replaced_of_cells hcells)
          rw [hlacks]
          omega
    | text line => exact hnot (by simp)
    | addr a => exact hnot (by simp)
    | token t => exact hnot (by simp)

/-- Every call ends in one of these ways. -/
theorem outcome (s : Stack) (r : Request) : Outcome s r (r.transaction s) := by
  cases r with
  | push v =>
    simp only [Request.transaction, Transaction.map_apply, push, map_ite_isFull]
    exact (Effect.push v).outcome_of_grows (by simp) rfl rfl
  | depth =>
    simp only [Request.transaction, Transaction.map_apply, pushDepth, push, map_ite_isFull]
    exact (Effect.depth Int64.toInt_ofNat').outcome_of_grows (by simp) rfl rfl
  | top =>
    simp only [Request.transaction, Transaction.map_apply, top]
    rcases hcells : s.cells with _ | ⟨x, below⟩
    · exact .lacking (lacks_of_cells hcells Nat.zero_lt_one)
    · have hgranted := (Effect.top x).outcome (by simp) rfl hcells
      have hsame : { s with cells := x :: below } = s := by rw [← hcells]
      exact hsame ▸ hgranted
  | pop =>
    simp only [Request.transaction, Transaction.map_apply, pop]
    rcases hcells : s.cells with _ | ⟨x, below⟩
    · exact .lacking (lacks_of_cells hcells Nat.zero_lt_one)
    · exact (Effect.pop x).outcome (by simp) rfl hcells
  | drop =>
    simp only [Request.transaction, Transaction.map_apply, drop]
    rcases hcells : s.cells with _ | ⟨x, below⟩
    · exact .lacking (lacks_of_cells hcells Nat.zero_lt_one)
    · exact (Effect.drop x).outcome (by simp) rfl hcells
  | replaceTop v =>
    simp only [Request.transaction, Transaction.map_apply, replaceTop]
    rcases hcells : s.cells with _ | ⟨x, below⟩
    · exact .lacking (lacks_of_cells hcells Nat.zero_lt_one)
    · exact (Effect.replaceTop v x).outcome (by simp) rfl hcells
  | dup =>
    simp only [Request.transaction, Transaction.map_apply, dup]
    rcases hcells : s.cells with _ | ⟨x, below⟩
    · exact .lacking (lacks_of_cells hcells Nat.zero_lt_one)
    · simp only [map_ite_isFull]
      exact (Effect.dup x).outcome_of_grows (by simp) rfl hcells
  | swap =>
    simp only [Request.transaction, Transaction.map_apply, swap]
    rcases hcells : s.cells with _ | ⟨y, _ | ⟨x, below⟩⟩
    · exact .lacking (lacks_of_cells hcells Nat.two_pos)
    · exact .lacking (lacks_of_cells hcells Nat.one_lt_two)
    · exact (Effect.swap x y).outcome (by simp) rfl hcells
  | copyBelow =>
    simp only [Request.transaction, Transaction.map_apply, copyBelow]
    rcases hcells : s.cells with _ | ⟨y, _ | ⟨x, below⟩⟩
    · exact .lacking (lacks_of_cells hcells Nat.two_pos)
    · exact .lacking (lacks_of_cells hcells Nat.one_lt_two)
    · simp only [map_ite_isFull]
      exact (Effect.copyBelow x y).outcome_of_grows (by simp) rfl hcells
  | pick => exact outcome_pick s

/-! ## What all operations have in common -/

/-- An operation that words perform is a call, up to its answer. -/
theorem Operation.exists_request {α : Type} {t : Transaction Stack α} (h : Operation t) :
    ∃ (r : Request) (f : α → Option Value), r.transaction = f <$> t := by
  cases h with
  | push v => exact ⟨.push v, _, rfl⟩
  | top => exact ⟨.top, _, rfl⟩
  | pop => exact ⟨.pop, _, rfl⟩
  | drop => exact ⟨.drop, _, rfl⟩
  | replaceTop v => exact ⟨.replaceTop v, _, rfl⟩
  | dup => exact ⟨.dup, _, rfl⟩
  | swap => exact ⟨.swap, _, rfl⟩
  | copyBelow => exact ⟨.copyBelow, _, rfl⟩
  | pick => exact ⟨.pick, _, rfl⟩
  | pushDepth => exact ⟨.depth, _, rfl⟩

/-- What was granted was granted as a call. -/
theorem Operation.exists_outcome_of_ok {α : Type} {t : Transaction Stack α} (h : Operation t)
    {a : α} (ht : t s = .ok (a, s')) : ∃ r answer, Outcome s r (.ok (answer, s')) := by
  obtain ⟨r, f, hr⟩ := h.exists_request
  have hends := outcome s r
  rw [hr, Transaction.map_apply, ht] at hends
  exact ⟨r, f a, hends⟩

theorem Operation.exists_outcome_of_error {α : Type} {t : Transaction Stack α} (h : Operation t)
    {f : Fault} (ht : t s = .error f) : ∃ r, Outcome s r (.error f) := by
  obtain ⟨r, g, hr⟩ := h.exists_request
  have hends := outcome s r
  rw [hr, Transaction.map_apply, ht] at hends
  exact ⟨r, hends⟩

/-- A stack of the same capacity, deeper by one cell at most, and only if there was room. -/
def Follows (s s' : Stack) : Prop :=
  s'.capacity = s.capacity ∧ (s'.depth ≤ s.depth ∨ s.depth < s.capacity ∧ s'.depth = s.depth + 1)

/-- The depth changes by the cells that were taken and put. -/
theorem Replaced.depth {before after : List Value} (h : Replaced before after s s') :
    s'.depth + before.length = s.depth + after.length := by
  obtain ⟨below, hbefore, hafter⟩ := h.elements
  have hs := congrArg List.length hbefore
  have hs' := congrArg List.length hafter
  simp only [Stack.elements, List.length_reverse, List.length_append] at hs hs'
  simp only [Stack.depth]
  omega

/-- A call leaves at most one cell more, and only if it grows the stack. -/
theorem Effect.length_after {before after : List Value} {answer : Option Value}
    (h : Effect s r before after answer) :
    after.length ≤ before.length ∨ r.grows = true ∧ after.length = before.length + 1 := by
  cases h <;> simp [Request.grows]

/-- A granted operation keeps the capacity, and grows the stack only where there is room. -/
theorem Operation.follows {α : Type} {t : Transaction Stack α} (h : Operation t) {a : α}
    (ht : t s = .ok (a, s')) : s.Follows s' := by
  obtain ⟨r, answer, hends⟩ := h.exists_outcome_of_ok ht
  cases hends with
  | granted hlacks hroom heffect hreplaced =>
    have hdepth := hreplaced.depth
    refine ⟨hreplaced.capacity, ?_⟩
    rcases heffect.length_after with hle | ⟨hgrows, heq⟩
    · left
      omega
    · right
      exact ⟨hroom hgrows, by omega⟩

/-- A stack of a capacity that holds no more cells than that. -/
structure Fits (c : Nat) (s : Stack) : Prop where
  capacity_eq : s.capacity = c
  depth_le : s.depth ≤ c

theorem Fits.clear {c : Nat} (h : s.Fits c) : s.clear.Fits c :=
  ⟨h.capacity_eq, Nat.zero_le c⟩

theorem Fits.truncate {c : Nat} (h : s.Fits c) (n : Nat) : (s.truncate n).Fits c := by
  refine ⟨h.capacity_eq, ?_⟩
  rw [depth_truncate]
  exact Nat.le_trans (Nat.min_le_right _ _) h.depth_le

/-- Operations keep a stack within its capacity however they end. -/
theorem Operation.fits {α : Type} {t : Transaction Stack α} (h : Operation t) {c : Nat}
    (hs : s.Fits c) : (t.settle s).2.Fits c := by
  rcases ht : t s with f | ⟨a, s'⟩
  · rw [Transaction.settle_of_error ht]
    exact hs
  · rw [Transaction.settle_of_ok ht]
    obtain ⟨rfl, hdepth⟩ := hs
    obtain ⟨hcapacity, hle | ⟨hroom, heq⟩⟩ := h.follows ht
    · exact ⟨hcapacity, Nat.le_trans hle hdepth⟩
    · exact ⟨hcapacity, heq ▸ hroom⟩

/-- Words refuse for reasons of their own. -/
theorem Operation.isFatal_of_error {α : Type} {t : Transaction Stack α} (h : Operation t)
    {f : Fault} (ht : t s = .error f) : f.isFatal = false := by
  obtain ⟨r, hends⟩ := h.exists_outcome_of_error ht
  cases hends <;> rfl

/-- What a call puts down it has taken, or found on the stack, or was given, or is the depth. -/
theorem Effect.mem_after {before after : List Value} {answer : Option Value}
    (h : Effect s r before after answer) {v : Value} (hv : v ∈ after) :
    v ∈ before ∨ v ∈ s.elements ∨ r = .push v ∨ r = .replaceTop v ∨ r = .depth := by
  cases h with
  | push w => simp_all
  | replaceTop w x => simp_all
  | depth hn => simp
  | pick hi hx =>
    rw [List.mem_singleton.1 hv]
    exact .inr (.inl (List.mem_of_getElem? hx))
  | top x | pop x | drop x | dup x | swap x y | copyBelow x y =>
    left
    grind

/-- A value that a call leaves was there before, or came with the call, or is the depth. -/
theorem mem_of_transaction {answer : Option Value} (h : r.transaction s = .ok (answer, s'))
    {v : Value} (hv : v ∈ s'.cells) :
    v ∈ s.cells ∨ r = .push v ∨ r = .replaceTop v ∨ r = .depth := by
  have hends := outcome s r
  rw [h] at hends
  cases hends with
  | granted hlacks hroom heffect hreplaced =>
    obtain ⟨below, hbefore, hafter⟩ := hreplaced.elements
    rw [← List.mem_reverse, ← elements, hafter, List.mem_append] at hv
    rw [← List.mem_reverse, ← elements]
    rcases hv with hbelow | hput
    · exact .inl (hbefore ▸ List.mem_append_left _ hbelow)
    · rcases heffect.mem_after hput with htaken | hrest
      · exact .inl (hbefore ▸ List.mem_append_right _ htaken)
      · exact hrest

/-! ## The reasons exclude each other -/

/-- A call is refused for a reason of some kind. -/
def Refuses (s : Stack) (r : Request) (kind : Fault.Kind) : Prop :=
  ∃ what s', r.perform s = some (.error ⟨kind, what⟩, s')

/-- A call by position is refused as its transaction is. -/
theorem refuses_iff {kind : Fault.Kind} :
    s.Refuses r kind ↔ ∃ what, r.transaction s = .error ⟨kind, what⟩ := by
  simp only [Refuses, r.perform_eq, Option.some.injEq]
  constructor
  · rintro ⟨what, s', h⟩
    exact ⟨what, (Transaction.of_settle_eq_error h).1⟩
  · rintro ⟨what, h⟩
    exact ⟨what, s, Transaction.settle_of_error h⟩

/-- `pick` is granted where it finds an integer on top that is not negative. -/
theorem Effect.top_of_pick {before after : List Value} {answer : Option Value}
    (h : Effect s .pick before after answer) (hreplaced : Replaced before after s s') :
    ∃ n : Int64, s.elements.getLast? = some (.int n) ∧ ¬ n < 0 := by
  obtain ⟨below, hbefore, -⟩ := hreplaced.elements
  cases h with
  | @pick n i x hi hx =>
    refine ⟨n, by rw [hbefore, List.getLast?_concat], ?_⟩
    have hlt := (List.getElem?_eq_some_iff.1 hx).1
    rw [elements, List.length_reverse] at hlt
    rw [Stack.depth] at hi
    rw [Int64.lt_iff_toInt_lt, Int64.toInt_zero]
    omega

theorem refuses_stackUnderflow_iff : s.Refuses r .stackUnderflow ↔ s.Lacks r := by
  have hends := outcome s r
  rw [refuses_iff]
  generalize r.transaction s = x at hends
  cases hends <;> simp [*]

/-- Only `pick` asks for an integer, and only once it has a cell to look at. -/
theorem refuses_integerRequired_iff : s.Refuses r .integerRequired ↔
    ¬ s.Lacks r ∧ r = .pick ∧ ∀ n, s.elements.getLast? ≠ some (.int n) := by
  have hends := outcome s r
  rw [refuses_iff]
  generalize r.transaction s = x at hends
  cases hends with
  | lacking h => simp [h]
  | notInteger h htop => simpa [h] using htop
  | negative h htop hn => simp [htop]
  | full h hgrows hfull => simp [Request.ne_pick_of_grows hgrows]
  | granted h hroom heffect hreplaced =>
    suffices ¬ (r = .pick ∧ ∀ n, s.elements.getLast? ≠ some (.int n)) by simp [this]
    rintro ⟨rfl, htop⟩
    obtain ⟨n, hn, -⟩ := heffect.top_of_pick hreplaced
    exact htop n hn

/-- Only `pick` can be told to reach above the top. -/
theorem refuses_outOfRange_iff : s.Refuses r .outOfRange ↔
    ¬ s.Lacks r ∧ r = .pick ∧ ∃ n < 0, s.elements.getLast? = some (.int n) := by
  have hends := outcome s r
  rw [refuses_iff]
  generalize r.transaction s = x at hends
  cases hends with
  | lacking h => simp [h]
  | notInteger h htop => simp [htop]
  | negative h htop hn => simp [h, htop, hn]
  | full h hgrows hfull => simp [Request.ne_pick_of_grows hgrows]
  | granted h hroom heffect hreplaced =>
    suffices ¬ (r = .pick ∧ ∃ n < 0, s.elements.getLast? = some (.int n)) by simp [this]
    rintro ⟨rfl, m, hm, htop⟩
    obtain ⟨n, hn, hnonneg⟩ := heffect.top_of_pick hreplaced
    rw [htop] at hn
    cases hn
    exact hnonneg hm

/-- A call is refused for want of room exactly if it grows a full stack and lacks nothing. -/
theorem refuses_stackOverflow_iff : s.Refuses r .stackOverflow ↔
    ¬ s.Lacks r ∧ r.grows = true ∧ s.capacity ≤ s.depth := by
  have hends := outcome s r
  rw [refuses_iff]
  generalize r.transaction s = x at hends
  cases hends with
  | lacking h => simp [h]
  | notInteger h htop => simp [Request.grows]
  | negative h htop hn => simp [Request.grows]
  | full h hgrows hfull => simp [h, hgrows, hfull]
  | granted h hroom heffect hreplaced => simpa [h] using hroom

/-! ## After any calls -/

/-- What can be done to a stack: it is called, or cells are thrown away. -/
inductive Change where
  | call (r : Request)
  | clear
  | truncate (n : Nat)

/-- Makes a change. -/
def change (s : Stack) : Change → Option Stack
  | .call r => (r.perform s).map (·.2)
  | .clear => some s.clear
  | .truncate n => some (s.truncate n)

/-- What an empty stack has become after changes, given newest first. -/
def after (c : Nat) : List Change → Option Stack
  | [] => some (empty c)
  | latest :: earlier => (after c earlier).bind (·.change latest)

/-- A call is an operation that words perform. -/
theorem Request.exists_operation (r : Request) : ∃ (α : Type) (t : Transaction Stack α)
    (f : α → Option Value), Operation t ∧ r.transaction = f <$> t := by
  cases r with
  | push v => exact ⟨_, _, _, .push v, rfl⟩
  | top => exact ⟨_, _, _, .top, rfl⟩
  | pop => exact ⟨_, _, _, .pop, rfl⟩
  | drop => exact ⟨_, _, _, .drop, rfl⟩
  | replaceTop v => exact ⟨_, _, _, .replaceTop v, rfl⟩
  | dup => exact ⟨_, _, _, .dup, rfl⟩
  | swap => exact ⟨_, _, _, .swap, rfl⟩
  | copyBelow => exact ⟨_, _, _, .copyBelow, rfl⟩
  | pick => exact ⟨_, _, _, .pick, rfl⟩
  | depth => exact ⟨_, _, _, .pushDepth, rfl⟩

/-- A change of a stack within its capacity gives a stack within its capacity. -/
theorem Fits.change (h : s.Fits c) (latest : Change) :
    ∃ s', s.change latest = some s' ∧ s'.Fits c := by
  cases latest with
  | call r =>
    obtain ⟨α, t, f, ht, hr⟩ := r.exists_operation
    refine ⟨(r.transaction.settle s).2, by rw [Stack.change, r.perform_eq]; rfl, ?_⟩
    rw [hr, Transaction.settle_map]
    exact ht.fits h
  | clear => exact ⟨s.clear, rfl, h.clear⟩
  | truncate n => exact ⟨s.truncate n, rfl, h.truncate n⟩

/-- Changes of an empty stack, however many, end in a stack within its capacity. -/
theorem exists_after (c : Nat) (changes : List Change) :
    ∃ s, after c changes = some s ∧ s.Fits c := by
  induction changes with
  | nil => exact ⟨empty c, rfl, rfl, Nat.zero_le c⟩
  | cons latest earlier ih =>
    obtain ⟨s, hs, hfits⟩ := ih
    obtain ⟨s', hs', hfits'⟩ := hfits.change latest
    exact ⟨s', by rw [after, hs, Option.bind_some, hs'], hfits'⟩

/-- A stack after any changes: a call comes to an end. It is refused for the first reason that
applies, and then no step of it has changed anything. Else it has its effect on the cells on top,
and the cells below them are the same. -/
theorem calls_exact (c : Nat) (changes : List Change) (r : Request) :
    ∃ s, after c changes = some s ∧ s.Fits c ∧
    (∃ result, r.perform s = some result) ∧
    (s.Refuses r .stackUnderflow ↔ s.Lacks r) ∧
    (s.Refuses r .integerRequired ↔
      ¬ s.Lacks r ∧ r = .pick ∧ ∀ n, s.elements.getLast? ≠ some (.int n)) ∧
    (s.Refuses r .outOfRange ↔
      ¬ s.Lacks r ∧ r = .pick ∧ ∃ n < 0, s.elements.getLast? = some (.int n)) ∧
    (s.Refuses r .stackOverflow ↔ ¬ s.Lacks r ∧ r.grows = true ∧ s.depth = c) ∧
    (∀ f s', r.perform s = some (.error f, s') → s' = s ∧
      f.kind ∈ [.stackUnderflow, .integerRequired, .outOfRange, .stackOverflow]) ∧
    ∀ answer s', r.perform s = some (.ok answer, s') →
      ∃ before after, Effect s r before after answer ∧ Replaced before after s s' := by
  obtain ⟨s, hs, hfits⟩ := exists_after c changes
  have hends := outcome s r
  have hfull : s.capacity ≤ s.depth ↔ s.depth = c := by
    rw [hfits.capacity_eq]
    exact ⟨Nat.le_antisymm hfits.depth_le, Nat.le_of_eq ∘ Eq.symm⟩
  refine ⟨s, hs, hfits, ⟨_, r.perform_eq s⟩, refuses_stackUnderflow_iff,
    refuses_integerRequired_iff, refuses_outOfRange_iff, by rw [refuses_stackOverflow_iff, hfull],
    fun f s' hrun => ?_, fun answer s' hrun => ?_⟩
  · rw [r.perform_eq, Option.some.injEq] at hrun
    obtain ⟨hrefused, hsame⟩ := Transaction.of_settle_eq_error hrun
    rw [hrefused] at hends
    refine ⟨hsame, ?_⟩
    cases hends <;> simp
  · rw [r.perform_eq, Option.some.injEq] at hrun
    rw [Transaction.of_settle_eq_ok hrun] at hends
    cases hends with
    | granted h hroom heffect hreplaced => exact ⟨_, _, heffect, hreplaced⟩

end Stack

end CellForth
