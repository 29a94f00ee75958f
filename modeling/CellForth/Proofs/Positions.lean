import CellForth.Machine

/-!
# Cells by position

The operations on stacks and memory are transactions on lists, where a missing cell is a case of its
own, and where a refusal leaves no trace because it has no state to leave behind. Here are the same
operations step by step: cells are counted from the bottom, the places that an operation needs are
computed from the depth by subtraction, and what was done before a refusal stays done
(`Positional`). Neither a subtraction below zero nor a place outside the stack has a meaning then;
either makes the whole operation `none`.

`Stack.checked` says that this never happens, and that each operation comes to the same as the
transaction: so it has changed nothing when it refuses. For memory this holds as long as there are
not more cells than the limit (`Memory.checked`).
-/

namespace CellForth

/-- Subtraction that does not go below zero. -/
def sub? (a b : Nat) : Option Nat :=
  if b ≤ a then some (a - b) else none

theorem sub?_of_le {a b : Nat} (h : b ≤ a) : sub? a b = some (a - b) :=
  if_pos h

/-- Steps on a state that can be refused, and that have no result at all where a place was computed
wrongly. A refusal keeps the state as the steps before it have left it. -/
abbrev Positional (σ α : Type) := ExceptT Fault (StateT σ Option) α

namespace Positional

variable {σ α β : Type} {s s' : σ}

/-- Something that has to be there. -/
def found (x : Option α) : Positional σ α := fun s =>
  x.map fun a => (.ok a, s)

/-- Refuses in a case. -/
def refuseIf (c : Prop) [Decidable c] (f : Fault) : Positional σ Unit :=
  if c then throw f else pure ()

theorem found_of_some {x : Option α} {a : α} (h : x = some a) (s : σ) :
    (found x : Positional σ α) s = some (.ok a, s) := by
  rw [found, h]
  rfl

theorem get_apply (s : σ) : (get : Positional σ σ) s = some (.ok s, s) :=
  rfl

theorem modify_apply (f : σ → σ) (s : σ) : (modify f : Positional σ Unit) s = some (.ok (), f s) :=
  rfl

/-- Steps go on where the ones before them ended. -/
theorem bind_of_ok {act : Positional σ α} {next : α → Positional σ β} {a : α}
    (h : act s = some (.ok a, s')) : (act >>= next) s = next a s' := by
  change (act s).bind _ = _
  rw [h]
  rfl

/-- A refusal is the end, in the state that it was met in. -/
theorem bind_of_error {act : Positional σ α} {next : α → Positional σ β} {f : Fault}
    (h : act s = some (.error f, s')) : (act >>= next) s = some (.error f, s') := by
  change (act s).bind _ = _
  rw [h]
  rfl

/-- Steps after one that looks at the state. -/
theorem get_bind (next : σ → Positional σ β) (s : σ) : (get >>= next) s = next s s :=
  bind_of_ok (get_apply s)

theorem refuseIf_bind_of {c : Prop} [Decidable c] (h : c) (f : Fault) (next : Unit → Positional σ β)
    (s : σ) : (refuseIf c f >>= next) s = some (.error f, s) := by
  rw [refuseIf, if_pos h]
  exact bind_of_error rfl

theorem refuseIf_bind_of_not {c : Prop} [Decidable c] (h : ¬ c) (f : Fault)
    (next : Unit → Positional σ β) (s : σ) : (refuseIf c f >>= next) s = next () s := by
  rw [refuseIf, if_neg h]
  exact bind_of_ok rfl

theorem found_bind {x : Option α} {a : α} (h : x = some a) (next : α → Positional σ β) (s : σ) :
    (found x >>= next) s = next a s :=
  bind_of_ok (found_of_some h s)

/-- Mapping an answer keeps the refusals and the state. -/
theorem map_apply (f : α → β) (act : Positional σ α) (s : σ) :
    (f <$> act) s = (act s).map fun r => (r.1.map f, r.2) := by
  rw [map_eq_pure_bind]
  change (act s).bind _ = _
  rcases act s with _ | ⟨_ | _, _⟩ <;> rfl

/-- Steps that come to the same as a transaction still do when their answers are mapped. -/
theorem map_eq_settle {act : Positional σ α} {t : Transaction σ α} (f : α → β)
    (h : act s = some (t.settle s)) :
    (f <$> act) s = some ((f <$> t : Transaction σ β).settle s) := by
  rw [map_apply, h, Transaction.settle_map]
  rfl

end Positional

namespace Stack

/-- The stack with other cells, given from the bottom to the top. -/
def withElements (cells : List Value) (s : Stack) : Stack :=
  { s with cells := cells.reverse }

/-! ## Steps on a stack -/

/-- Refuses if there are fewer cells. -/
def needCells (n : Nat) (what : String) : Positional Stack Unit := do
  Positional.refuseIf ((← get).depth < n) ⟨.stackUnderflow, what⟩

/-- Refuses if there is no room for another cell. -/
def needRoom (what : String) : Positional Stack Unit := do
  Positional.refuseIf ((← get).isFull = true) ⟨.stackOverflow, what⟩

/-- The cell at a place, which has to be one of the stack. -/
def cellAt (i : Nat) : Positional Stack Value := do
  Positional.found (← get).elements[i]?

/-- Writes the cell at a place, which has to be one of the stack. -/
def writeAt (i : Nat) (v : Value) : Positional Stack Unit := do
  let _ ← cellAt i
  modify fun s => s.withElements (s.elements.set i v)

/-- Puts a cell on top, whether there is room or not. -/
def append (v : Value) : Positional Stack Unit :=
  modify fun s => s.withElements (s.elements ++ [v])

/-- Takes the cell on top off, if there is one. -/
def takeLast : Positional Stack (Option Value) := do
  let s ← get
  modify (withElements s.elements.dropLast)
  pure s.elements.getLast?

/-! ## The operations, step by step -/

/-- Puts a value on top. -/
def pushAt (v : Value) : Positional Stack Unit := do
  needRoom ("push: " ++ v.render)
  append v

/-- Looks at the top. -/
def topAt : Positional Stack Value := do
  match (← get).elements.getLast? with
  | some v => pure v
  | none => throw ⟨.stackUnderflow, "top"⟩

/-- Takes the top. -/
def popAt : Positional Stack Value := do
  match ← takeLast with
  | some v => pure v
  | none => throw ⟨.stackUnderflow, "pop"⟩

/-- Throws the top away. -/
def dropAt : Positional Stack Unit := do
  match ← takeLast with
  | some _ => pure ()
  | none => throw ⟨.stackUnderflow, "drop"⟩

/-- Puts a value in place of the top. -/
def replaceTopAt (v : Value) : Positional Stack Unit := do
  let s ← get
  match s.elements.getLast? with
  | some _ => writeAt (← Positional.found (sub? s.depth 1)) v
  | none => throw ⟨.stackUnderflow, "replace top: " ++ v.render⟩

/-- Copies the top. -/
def dupAt : Positional Stack Unit := do
  needCells 1 "dup"
  needRoom "dup"
  let top ← Positional.found (sub? (← get).depth 1)
  append (← cellAt top)

/-- Exchanges the two topmost cells. -/
def swapAt : Positional Stack Unit := do
  needCells 2 "swap"
  let depth := (← get).depth
  let i ← Positional.found (sub? depth 1)
  let j ← Positional.found (sub? depth 2)
  let v ← cellAt i
  let w ← cellAt j
  writeAt i w
  writeAt j v

/-- Copies the cell below the top. -/
def copyBelowAt : Positional Stack Unit := do
  needCells 2 "over"
  needRoom "over"
  let i ← Positional.found (sub? (← get).depth 2)
  append (← cellAt i)

/-- Puts in place of the top the cell so many places below it. -/
def pickFrom (top : Nat) (n : Int64) : Positional Stack Unit := do
  Positional.refuseIf (n < 0) ⟨.outOfRange, "pick: " ++ toString n.toInt⟩
  Positional.refuseIf (top < n.toInt.toNat) ⟨.stackUnderflow, "pick"⟩
  let i ← Positional.found (sub? top n.toInt.toNat)
  writeAt top (← cellAt i)

/-- Puts in place of the integer on top the cell that many places below it. -/
def pickAt : Positional Stack Unit := do
  needCells 1 "pick"
  let top ← Positional.found (sub? (← get).depth 1)
  match ← cellAt top with
  | .int n => pickFrom top n
  | _ => throw ⟨.integerRequired, "pick"⟩

/-- Pushes the number of cells. -/
def pushDepthAt : Positional Stack Unit := do
  pushAt (.int (Int64.ofNat (← get).depth))

/-! ## Each step on cells from the top -/

/-- The places from the bottom are those from the top, counted the other way. -/
theorem getElem?_elements {s : Stack} {i k : Nat} (h : i + k + 1 = s.depth) :
    s.elements[i]? = s.cells[k]? := by
  have hk : s.cells.length - 1 - i = k := by
    unfold depth at h
    omega
  rw [elements, List.getElem?_reverse (by unfold depth at h; omega), hk]

theorem getLast?_elements (s : Stack) : s.elements.getLast? = s.cells.head? :=
  List.getLast?_reverse

variable {s : Stack} {v w : Value} {below : List Value} {β : Type}

/-- The depth of a stack with a cell on top, as a place. -/
theorem found_depth (h : s.cells = v :: below) : sub? s.depth 1 = some below.length := by
  rw [depth, h, List.length_cons, sub?_of_le (Nat.le_add_left 1 _), Nat.add_sub_cancel]

/-- With two cells on the stack, the place below the top can be computed. -/
theorem found_below_top (h : s.cells = v :: w :: below) : sub? s.depth 2 = some below.length := by
  rw [depth, h, List.length_cons, List.length_cons, sub?_of_le (Nat.le_add_left 2 _)]
  rfl

/-- Places are counted from the bottom, and the cells of a stack from its top. -/
theorem cellAt_of {i k : Nat} (hi : i + k + 1 = s.depth) (hv : s.cells[k]? = some v) :
    cellAt i s = some (.ok v, s) := by
  rw [cellAt, Positional.get_bind]
  exact Positional.found_of_some ((getElem?_elements hi).trans hv) s

theorem cellAt_top (h : s.cells = v :: below) : cellAt below.length s = some (.ok v, s) :=
  cellAt_of (k := 0) (by simp [depth, h]) (by simp [h])

theorem cellAt_below_top (h : s.cells = v :: w :: below) :
    cellAt below.length s = some (.ok w, s) :=
  cellAt_of (k := 1) (by simp [depth, h]) (by simp [h])

theorem append_apply (v : Value) (s : Stack) :
    append v s = some (.ok (), { s with cells := v :: s.cells }) := by
  rw [append, Positional.modify_apply, withElements, elements, List.reverse_append,
    List.reverse_reverse]
  rfl

/-- The topmost cell is written in place. -/
theorem writeAt_top (h : s.cells = v :: below) (w : Value) :
    writeAt below.length w s = some (.ok (), { s with cells := w :: below }) := by
  rw [writeAt, Positional.bind_of_ok (cellAt_top h), Positional.modify_apply, withElements]
  simp [elements, h]

/-- The cell below the top is written in place. -/
theorem writeAt_below (h : s.cells = v :: w :: below) (u : Value) :
    writeAt below.length u s = some (.ok (), { s with cells := v :: u :: below }) := by
  rw [writeAt, Positional.bind_of_ok (cellAt_below_top h), Positional.modify_apply, withElements]
  simp [elements, h]

/-- There is no last cell to take on an empty stack, and that is an answer. -/
theorem takeLast_of_nil (h : s.cells = []) : takeLast s = some (.ok none, s) := by
  have hsame : s.withElements s.elements.dropLast = s := by
    rw [withElements, elements, h]
    exact congrArg (Stack.mk s.capacity) h.symm
  rw [takeLast, Positional.get_bind, Positional.bind_of_ok (Positional.modify_apply _ _), hsame,
    getLast?_elements, h]
  rfl

theorem takeLast_of_cons (h : s.cells = v :: below) :
    takeLast s = some (.ok (some v), { s with cells := below }) := by
  have hrest : s.withElements s.elements.dropLast = { s with cells := below } := by
    simp [withElements, elements, h]
  rw [takeLast, Positional.get_bind, Positional.bind_of_ok (Positional.modify_apply _ _), hrest,
    getLast?_elements, h]
  rfl

theorem needCells_bind_of_lt {n : Nat} (h : s.depth < n) (what : String)
    (next : Unit → Positional Stack β) :
    (needCells n what >>= next) s = some (.error ⟨.stackUnderflow, what⟩, s) := by
  rw [needCells, bind_assoc, Positional.get_bind, Positional.refuseIf_bind_of h]

theorem needCells_bind_of_le {n : Nat} (h : n ≤ s.depth) (what : String)
    (next : Unit → Positional Stack β) : (needCells n what >>= next) s = next () s := by
  rw [needCells, bind_assoc, Positional.get_bind, Positional.refuseIf_bind_of_not (by omega)]

theorem needRoom_bind (what : String) (next : Unit → Positional Stack β) (s : Stack) :
    (needRoom what >>= next) s =
      if s.isFull then some (.error ⟨.stackOverflow, what⟩, s) else next () s := by
  rw [needRoom, bind_assoc, Positional.get_bind]
  split
  · next hfull => rw [Positional.refuseIf_bind_of hfull]
  · next hroom => rw [Positional.refuseIf_bind_of_not hroom]

/-! ## Each operation is its transaction -/

/-- A push looks for room first, then it appends. -/
theorem pushAt_eq (v : Value) (s : Stack) : pushAt v s = some ((push v).settle s) := by
  rw [pushAt, needRoom_bind, append_apply, Transaction.settle, push]
  split <;> rfl

theorem topAt_eq (s : Stack) : topAt s = some (top.settle s) := by
  rw [topAt, Positional.get_bind, getLast?_elements, Transaction.settle, top]
  cases s.cells <;> rfl

theorem popAt_eq (s : Stack) : popAt s = some (pop.settle s) := by
  cases hcells : s.cells with
  | nil =>
    rw [popAt, Positional.bind_of_ok (takeLast_of_nil hcells), Transaction.settle, pop, hcells]
    rfl
  | cons v below =>
    rw [popAt, Positional.bind_of_ok (takeLast_of_cons hcells), Transaction.settle, pop, hcells]
    rfl

theorem dropAt_eq (s : Stack) : dropAt s = some (drop.settle s) := by
  cases hcells : s.cells with
  | nil =>
    rw [dropAt, Positional.bind_of_ok (takeLast_of_nil hcells), Transaction.settle, drop, hcells]
    rfl
  | cons v below =>
    rw [dropAt, Positional.bind_of_ok (takeLast_of_cons hcells), Transaction.settle, drop, hcells]
    rfl

theorem replaceTopAt_eq (v : Value) (s : Stack) :
    replaceTopAt v s = some ((replaceTop v).settle s) := by
  rw [replaceTopAt, Positional.get_bind, getLast?_elements, Transaction.settle, replaceTop]
  cases hcells : s.cells with
  | nil => rfl
  | cons w below =>
    rw [List.head?_cons]
    dsimp only
    rw [Positional.found_bind (found_depth hcells), writeAt_top hcells]

theorem dupAt_eq (s : Stack) : dupAt s = some (dup.settle s) := by
  rw [dupAt, Transaction.settle, dup]
  cases hcells : s.cells with
  | nil =>
    rw [needCells_bind_of_lt (by simp [depth, hcells])]
    rfl
  | cons v below =>
    rw [needCells_bind_of_le (by simp [depth, hcells]), needRoom_bind, Positional.get_bind,
      Positional.found_bind (found_depth hcells), Positional.bind_of_ok (cellAt_top hcells),
      append_apply, hcells]
    split <;> rfl

/-- The two cells on top are both there before either is overwritten. -/
theorem swapAt_eq (s : Stack) : swapAt s = some (swap.settle s) := by
  rw [swapAt, Transaction.settle, swap]
  rcases hcells : s.cells with _ | ⟨v, _ | ⟨w, below⟩⟩
  · rw [needCells_bind_of_lt (by simp [depth, hcells])]
    rfl
  · rw [needCells_bind_of_lt (by simp [depth, hcells])]
    rfl
  · rw [needCells_bind_of_le (by simp [depth, hcells]), Positional.get_bind]
    dsimp only
    rw [Positional.found_bind (found_depth hcells), Positional.found_bind (found_below_top hcells),
      Positional.bind_of_ok (cellAt_top hcells), Positional.bind_of_ok (cellAt_below_top hcells),
      Positional.bind_of_ok (writeAt_top hcells w), writeAt_below rfl]

theorem copyBelowAt_eq (s : Stack) : copyBelowAt s = some (copyBelow.settle s) := by
  rw [copyBelowAt, Transaction.settle, copyBelow]
  rcases hcells : s.cells with _ | ⟨v, _ | ⟨w, below⟩⟩
  · rw [needCells_bind_of_lt (by simp [depth, hcells])]
    rfl
  · rw [needCells_bind_of_lt (by simp [depth, hcells])]
    rfl
  · rw [needCells_bind_of_le (by simp [depth, hcells]), needRoom_bind, Positional.get_bind,
      Positional.found_bind (found_below_top hcells),
      Positional.bind_of_ok (cellAt_below_top hcells), append_apply, hcells]
    split <;> rfl

/-- A cell that is picked is one from the top. -/
theorem pickFrom_eq {n : Int64} (hcells : s.cells = .int n :: below) :
    pickFrom below.length n s = some (pick.settle s) := by
  rw [pickFrom, Transaction.settle, pick, hcells]
  dsimp only
  by_cases hn : n < 0
  · rw [Positional.refuseIf_bind_of hn, if_pos hn]
  rw [Positional.refuseIf_bind_of_not hn, if_neg hn, ← hcells]
  rcases Nat.lt_or_ge below.length n.toInt.toNat with hlt | hle
  · have hnone : s.cells[n.toInt.toNat]? = none :=
      List.getElem?_eq_none (by rw [hcells, List.length_cons]; omega)
    rw [Positional.refuseIf_bind_of hlt, hnone]
    rfl
  · have hdepth : s.depth = below.length + 1 := by simp [depth, hcells]
    have hget : s.cells[n.toInt.toNat]? = some (s.cells[n.toInt.toNat]?.getD (.int 0)) := by
      rw [List.getElem?_eq_getElem (by rw [hcells, List.length_cons]; omega)]
      rfl
    rw [Positional.refuseIf_bind_of_not (Nat.not_lt.2 hle), Positional.found_bind (sub?_of_le hle),
      Positional.bind_of_ok (cellAt_of (by omega) hget), writeAt_top hcells, hget]
    rfl

/-- `pick` has overwritten nothing when it finds that it was told to reach too far. -/
theorem pickAt_eq (s : Stack) : pickAt s = some (pick.settle s) := by
  cases hcells : s.cells with
  | nil =>
    rw [pickAt, needCells_bind_of_lt (by simp [depth, hcells]), Transaction.settle, pick, hcells]
    rfl
  | cons v below =>
    rw [pickAt, needCells_bind_of_le (by simp [depth, hcells]), Positional.get_bind,
      Positional.found_bind (found_depth hcells), Positional.bind_of_ok (cellAt_top hcells)]
    cases v with
    | int n => exact pickFrom_eq hcells
    | text line | addr a | token t =>
      rw [Transaction.settle, pick, hcells]
      rfl

theorem pushDepthAt_eq (s : Stack) : pushDepthAt s = some (pushDepth.settle s) := by
  rw [pushDepthAt, Positional.get_bind, pushAt_eq]
  rfl

/-- Each operation step by step is its transaction: the places that it computes are places of the
stack, and where it refuses it has changed nothing. -/
structure Checked (s : Stack) : Prop where
  push : ∀ v, pushAt v s = some ((Stack.push v).settle s)
  top : topAt s = some (Stack.top.settle s)
  pop : popAt s = some (Stack.pop.settle s)
  drop : dropAt s = some (Stack.drop.settle s)
  replaceTop : ∀ v, replaceTopAt v s = some ((Stack.replaceTop v).settle s)
  dup : dupAt s = some (Stack.dup.settle s)
  swap : swapAt s = some (Stack.swap.settle s)
  copyBelow : copyBelowAt s = some (Stack.copyBelow.settle s)
  pick : pickAt s = some (Stack.pick.settle s)
  pushDepth : pushDepthAt s = some (Stack.pushDepth.settle s)

/-- All ten operations by position are the transactions, on every stack. -/
theorem checked (s : Stack) : s.Checked where
  push v := pushAt_eq v s
  top := topAt_eq s
  pop := popAt_eq s
  drop := dropAt_eq s
  replaceTop v := replaceTopAt_eq v s
  dup := dupAt_eq s
  swap := swapAt_eq s
  copyBelow := copyBelowAt_eq s
  pick := pickAt_eq s
  pushDepth := pushDepthAt_eq s

end Stack

namespace Memory

/-! ## Memory, step by step -/

/-- Hands out a block of cells, by the number of cells that are left. -/
def allocateAt (count : Nat) : Positional Memory Nat := do
  let first := (← get).size
  let room ← Positional.found (sub? limit first)
  Positional.refuseIf (room < count) ⟨.outOfRange, "allocate: " ++ toString count⟩
  modify fun m => ⟨m.cells ++ Array.replicate count (.int 0)⟩
  pure first

/-- Reads a cell. -/
def fetchAt (a : Nat) : Positional Memory Value := do
  match (← get).cells[a]? with
  | some v => pure v
  | none => throw ⟨.invalidAddress, "@: " ++ toString a⟩

/-- Writes a cell. -/
def storeAt (a : Nat) (v : Value) : Positional Memory Unit := do
  match (← get).cells[a]? with
  | some _ => modify fun m => ⟨m.cells.setIfInBounds a v⟩
  | none => throw ⟨.invalidAddress, "!: " ++ toString a⟩

/-- Within the limit the room that is left can be computed. -/
theorem allocateAt_eq {m : Memory} (h : m.size ≤ limit) (count : Nat) :
    allocateAt count m = some ((allocate count).settle m) := by
  rw [allocateAt, Positional.get_bind, Transaction.settle, allocate,
    Positional.found_bind (sub?_of_le h)]
  by_cases hfew : limit - m.size < count
  · rw [Positional.refuseIf_bind_of hfew, if_pos hfew]
  · rw [Positional.refuseIf_bind_of_not hfew, if_neg hfew,
      Positional.bind_of_ok (Positional.modify_apply _ _)]
    rfl

theorem fetchAt_eq (a : Nat) (m : Memory) : fetchAt a m = some ((fetch a).settle m) := by
  rw [fetchAt, Positional.get_bind, Transaction.settle, fetch]
  cases m.cells[a]? <;> rfl

theorem storeAt_eq (a : Nat) (v : Value) (m : Memory) :
    storeAt a v m = some ((store a v).settle m) := by
  rw [storeAt, Positional.get_bind, Transaction.settle, store]
  by_cases ha : a < m.cells.size
  · rw [Array.getElem?_eq_getElem ha, dif_pos ha]
    dsimp only
    rw [Positional.modify_apply, Array.setIfInBounds, dif_pos ha]
  · rw [Array.getElem?_eq_none (Nat.not_lt.1 ha), dif_neg ha]
    rfl

/-- Each operation step by step is its transaction. -/
structure Checked (m : Memory) : Prop where
  allocate : ∀ count, allocateAt count m = some ((Memory.allocate count).settle m)
  fetch : ∀ a, fetchAt a m = some ((Memory.fetch a).settle m)
  store : ∀ a v, storeAt a v m = some ((Memory.store a v).settle m)

/-- The operations on memory by position are the transactions, within the limit. -/
theorem checked {m : Memory} (h : m.size ≤ limit) : m.Checked where
  allocate := allocateAt_eq h
  fetch a := fetchAt_eq a m
  store a v := storeAt_eq a v m

end Memory

end CellForth
