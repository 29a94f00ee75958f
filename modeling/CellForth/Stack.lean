import CellForth.Transaction
import CellForth.Value

/-!
# Bounded stacks

A `Stack` holds at most `capacity` cells, the top first. Every operation is a transaction: it
names the cells it needs and the room it needs, and is refused without a trace when one of them
is missing. Of two reasons to refuse, too few cells comes before too little room.
-/

namespace CellForth

/-- A stack of cells, the top first, with room for `capacity` of them. -/
structure Stack where
  capacity : Nat
  cells : List Value
  deriving DecidableEq

namespace Stack

/-- The empty stack of a capacity. -/
def empty (capacity : Nat) : Stack := ⟨capacity, []⟩

/-- How many cells are on the stack. -/
def depth (s : Stack) : Nat := s.cells.length

/-- Whether there is no room for another cell. -/
def isFull (s : Stack) : Bool := s.capacity ≤ s.depth

/-- The cells from the bottom to the top. -/
def elements (s : Stack) : List Value := s.cells.reverse

/-- A refusal for want of cells. -/
def underflow {α : Type} (what : String) : Except Fault α :=
  .error ⟨.stackUnderflow, what⟩

/-- A refusal for want of room. -/
def overflow {α : Type} (what : String) : Except Fault α :=
  .error ⟨.stackOverflow, what⟩

/-- Puts a value on top. -/
def push (v : Value) : Transaction Stack Unit := fun s =>
  if s.isFull then overflow ("push: " ++ v.render)
  else .ok ((), { s with cells := v :: s.cells })

/-- Looks at the top. -/
def top : Transaction Stack Value := fun s =>
  match s.cells with
  | [] => underflow "top"
  | v :: _ => .ok (v, s)

/-- Takes the top. -/
def pop : Transaction Stack Value := fun s =>
  match s.cells with
  | [] => underflow "pop"
  | v :: below => .ok (v, { s with cells := below })

/-- Throws the top away. -/
def drop : Transaction Stack Unit := fun s =>
  match s.cells with
  | [] => underflow "drop"
  | _ :: below => .ok ((), { s with cells := below })

/-- Puts a value in place of the top. -/
def replaceTop (v : Value) : Transaction Stack Unit := fun s =>
  match s.cells with
  | [] => underflow ("replace top: " ++ v.render)
  | _ :: below => .ok ((), { s with cells := v :: below })

/-- Copies the top. -/
def dup : Transaction Stack Unit := fun s =>
  match s.cells with
  | [] => underflow "dup"
  | v :: below =>
    if s.isFull then overflow "dup"
    else .ok ((), { s with cells := v :: v :: below })

/-- Exchanges the two topmost cells. -/
def swap : Transaction Stack Unit := fun s =>
  match s.cells with
  | v :: w :: below => .ok ((), { s with cells := w :: v :: below })
  | _ => underflow "swap"

/-- Copies the cell below the top. -/
def copyBelow : Transaction Stack Unit := fun s =>
  match s.cells with
  | v :: w :: below =>
    if s.isFull then overflow "over"
    else .ok ((), { s with cells := w :: v :: w :: below })
  | _ => underflow "over"

/-- Puts in place of the integer on top the cell that many places below it. -/
def pick : Transaction Stack Unit := fun s =>
  match s.cells with
  | [] => underflow "pick"
  | .int n :: below =>
    if n < 0 then .error ⟨.outOfRange, "pick: " ++ toString n.toInt⟩
    else match s.cells[n.toInt.toNat]? with
      | none => underflow "pick"
      | some v => .ok ((), { s with cells := v :: below })
  | _ :: _ => .error ⟨.integerRequired, "pick"⟩

/-- Pushes the number of cells. -/
def pushDepth : Transaction Stack Unit := fun s =>
  push (.int (Int64.ofNat s.depth)) s

/-- Throws all cells away. -/
def clear (s : Stack) : Stack := { s with cells := [] }

/-- Keeps the `n` lowest cells. -/
def truncate (n : Nat) (s : Stack) : Stack :=
  { s with cells := s.cells.drop (s.depth - n) }

@[simp]
theorem depth_clear (s : Stack) : s.clear.depth = 0 :=
  rfl

theorem isFull_eq_false_iff {s : Stack} : s.isFull = false ↔ s.depth < s.capacity := by
  simp [isFull]

theorem depth_truncate (n : Nat) (s : Stack) : (s.truncate n).depth = min n s.depth := by
  simp only [truncate, depth, List.length_drop]
  omega

theorem elements_truncate (n : Nat) (s : Stack) :
    (s.truncate n).elements = s.elements.take n := by
  simp [truncate, elements, depth, List.take_reverse]

@[simp]
theorem truncate_clear (n : Nat) (s : Stack) : s.clear.truncate n = s.clear := by
  simp [truncate, clear]

/-- Cutting back to the depth before a cell was put on top takes that cell off. -/
theorem truncate_cons (v : Value) (s : Stack) :
    ({ s with cells := v :: s.cells } : Stack).truncate s.depth = s := by
  simp [truncate, depth]

end Stack

end CellForth
