import CellForth.Arithmetic
import CellForth.Memory
import CellForth.Stack

/-!
# The machine

A `Machine` is a data stack, a return stack and cell memory. Its operations are activities:
a word made of several stack operations that is refused halfway has done the first of them.
In particular the arithmetic words take the right operand before they look at the left one.

The return stack counts the lines being interpreted: `nest` pushes its own depth when a line
begins, and `unnest` cuts it back to that depth when the line ends.
-/

namespace CellForth

/-- The two stacks and the memory that words work on. -/
structure Machine where
  data : Stack
  returns : Stack
  memory : Memory
  deriving DecidableEq

namespace Machine

/-- The room of a stack when nothing else is asked for. -/
def defaultCapacity : Nat := 128

/-- A machine whose stacks have room for `capacity` cells each. -/
def ofCapacity (capacity : Nat) : Machine :=
  ⟨.empty capacity, .empty capacity, .empty⟩

/-- Steps on a machine. -/
abbrev Action (α : Type) := Activity Machine α

variable {α : Type}

/-! ## Access to the parts -/

/-- A stack operation on the data stack. -/
def onData (t : Transaction Stack α) : Action α := fun m =>
  let r := t.settle m.data
  (r.1, { m with data := r.2 })

/-- A stack operation on the return stack. -/
def onReturns (t : Transaction Stack α) : Action α := fun m =>
  let r := t.settle m.returns
  (r.1, { m with returns := r.2 })

/-- An operation on memory. -/
def onMemory (t : Transaction Memory α) : Action α := fun m =>
  let r := t.settle m.memory
  (r.1, { m with memory := r.2 })

/-- Refuses to go on. -/
def refuse (kind : Fault.Kind) (detail : String) : Action α :=
  throw ⟨kind, detail⟩

/-! ## Stack words -/

/-- Puts a value on the data stack. -/
def push (v : Value) : Action Unit := onData (Stack.push v)

/-- Looks at the top of the data stack. -/
def top : Action Value := onData Stack.top

/-- Takes the top of the data stack. -/
def pop : Action Value := onData Stack.pop

/-- Puts a value in place of the top of the data stack. -/
def replaceTop (v : Value) : Action Unit := onData (Stack.replaceTop v)

/-! ## Arithmetic words -/

/-- Computes with the two topmost cells: the right operand is taken, and the result put in
place of the left one. -/
def compute (op : Operation) : Action Unit := do
  let r ← pop
  let l ← top
  replaceTop (← op.apply l r)

/-! ## Memory words -/

/-- Hands out a block of cells. -/
def allocate (count : Nat) : Action Nat := onMemory (Memory.allocate count)

/-- Takes an address and then a value, and stores the value at the address. -/
def store : Action Unit := do
  let target ← pop
  let v ← pop
  match target with
  | .addr a => onMemory (Memory.store a v)
  | _ => refuse .addressRequired "!"

/-- Puts in place of the address on top what is stored there. -/
def fetch : Action Unit := do
  match ← top with
  | .addr a => replaceTop (← onMemory (Memory.fetch a))
  | _ => refuse .addressRequired "@"

/-- Puts the address of the next cell in place of the address on top, whether memory has such a cell
or not. -/
def cellPlus : Action Unit := do
  match ← top with
  | .addr a => replaceTop (.addr (Memory.next a))
  | _ => refuse .addressRequired "cell+"

/-- The answer of `allocate` when there are not enough cells. -/
def allocateFailed : Int64 := -59

/-- Takes a count and hands out that many cells: the address and a zero, or a zero and a code
when memory has not that many left. -/
def reserve : Action Unit := do
  match ← pop with
  | .int n =>
    if n < 0 then refuse .outOfRange ("allocate: " ++ toString n.toInt)
    else match ← attempt (allocate n.toInt.toNat) with
      | .ok a => do push (.addr a); push (.int 0)
      | .error _ => do push (.int 0); push (.int allocateFailed)
  | _ => refuse .integerRequired "allocate"

/-! ## Lines within lines -/

/-- Notes on the return stack that a line begins, and returns the depth to go back to. -/
def nest : Action Nat := do
  let returns := (← get).returns
  if returns.isFull then refuse .stackOverflow "evaluate"
  else do
    onReturns (Stack.push (.int (Int64.ofNat returns.depth)))
    pure returns.depth

/-- Cuts the return stack back when a line ends. -/
def unnest (depth : Nat) (m : Machine) : Machine :=
  { m with returns := m.returns.truncate depth }

/-- Empties both stacks and keeps the memory. -/
def reset (m : Machine) : Machine :=
  { m with data := m.data.clear, returns := m.returns.clear }

/-! ## Each operation by what is on the stack -/

variable {m : Machine}

theorem push_of_full (h : m.data.isFull = true) (v : Value) :
    push v m = (.error ⟨.stackOverflow, "push: " ++ v.render⟩, m) := by
  simp [push, onData, Transaction.settle, Stack.push, Stack.overflow, h]

theorem push_of_room (h : m.data.isFull = false) (v : Value) :
    push v m = (.ok (), { m with data := { m.data with cells := v :: m.data.cells } }) := by
  simp [push, onData, Transaction.settle, Stack.push, h]

theorem pop_of_nil (h : m.data.cells = []) :
    pop m = (.error ⟨.stackUnderflow, "pop"⟩, m) := by
  simp [pop, onData, Transaction.settle, Stack.pop, Stack.underflow, h]

theorem pop_of_cons {v : Value} {below : List Value} (h : m.data.cells = v :: below) :
    pop m = (.ok v, { m with data := { m.data with cells := below } }) := by
  simp [pop, onData, Transaction.settle, Stack.pop, h]

theorem top_of_nil (h : m.data.cells = []) : top m = (.error ⟨.stackUnderflow, "top"⟩, m) := by
  simp [top, onData, Transaction.settle, Stack.top, Stack.underflow, h]

theorem top_of_cons {v : Value} {below : List Value} (h : m.data.cells = v :: below) :
    top m = (.ok v, m) := by
  simp [top, onData, Transaction.settle, Stack.top, h]

theorem replaceTop_of_cons {w : Value} {below : List Value}
    (h : m.data.cells = w :: below) (v : Value) :
    replaceTop v m = (.ok (), { m with data := { m.data with cells := v :: below } }) := by
  simp [replaceTop, onData, Transaction.settle, Stack.replaceTop, h]

/-- The address on top goes to the next cell. -/
theorem cellPlus_of_addr {a : Nat} {below : List Value} (h : m.data.cells = .addr a :: below) :
    cellPlus m =
      (.ok (), { m with data := { m.data with cells := .addr (Memory.next a) :: below } }) := by
  rw [cellPlus, bind_of_ok (top_of_cons h)]
  exact replaceTop_of_cons h _

theorem nest_of_full (h : m.returns.isFull = true) :
    nest m = (.error ⟨.stackOverflow, "evaluate"⟩, m) := by
  rw [nest, bind_of_ok (get_apply m), if_pos h]
  rfl

theorem nest_of_room (h : m.returns.isFull = false) :
    nest m = (.ok m.returns.depth,
      { m with returns :=
          { m.returns with cells := .int (Int64.ofNat m.returns.depth) :: m.returns.cells } }) := by
  have hpush : onReturns (Stack.push (.int (Int64.ofNat m.returns.depth))) m = (.ok (),
      { m with returns :=
          { m.returns with cells := .int (Int64.ofNat m.returns.depth) :: m.returns.cells } }) := by
    simp [onReturns, Transaction.settle, Stack.push, h]
  rw [nest, bind_of_ok (get_apply m), if_neg (by simp [h]), bind_of_ok hpush]
  rfl

end Machine

end CellForth
