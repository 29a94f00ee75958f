import CellForth.Transaction
import CellForth.Value

/-!
# Cell memory

Memory grows by blocks of cells and never shrinks, so an address once handed out stays good.
New cells hold zero. All operations are transactions.
-/

namespace CellForth

/-- The cells handed out so far, by address. -/
structure Memory where
  cells : Array Value
  deriving DecidableEq

namespace Memory

/-- The largest number of cells. -/
def limit : Nat := 65536

/-- Memory of which nothing was handed out. -/
def empty : Memory := ⟨#[]⟩

/-- How many cells were handed out. -/
def size (m : Memory) : Nat := m.cells.size

/-- Hands out a block of `count` cells and returns the address of its first cell. -/
def allocate (count : Nat) : Transaction Memory Nat := fun m =>
  if limit - m.size < count then .error ⟨.outOfRange, "allocate: " ++ toString count⟩
  else .ok (m.size, ⟨m.cells ++ Array.replicate count (.int 0)⟩)

/-- Reads a cell. -/
def fetch (a : Nat) : Transaction Memory Value := fun m =>
  match m.cells[a]? with
  | none => .error ⟨.invalidAddress, "@: " ++ toString a⟩
  | some v => .ok (v, m)

/-- Writes a cell. -/
def store (a : Nat) (v : Value) : Transaction Memory Unit := fun m =>
  if h : a < m.cells.size then .ok ((), ⟨m.cells.set a v h⟩)
  else .error ⟨.invalidAddress, "!: " ++ toString a⟩

/-- The address of the next cell. Addresses have 64 bits, and after the last one comes the first. -/
def next (a : Nat) : Nat := (a + 1) % UInt64.size

/-- The cells that hold anything but zero, with their addresses. -/
def occupied (m : Memory) : List (Nat × Value) :=
  (m.cells.toList.zipIdx.filter (·.1 ≠ .int 0)).map fun (v, a) => (a, v)

/-- From no address that can have been handed out does the next one go back to the first. -/
theorem next_of_le_limit {a : Nat} (h : a ≤ limit) : next a = a + 1 :=
  Nat.mod_eq_of_lt (Nat.lt_of_le_of_lt (Nat.succ_le_succ h) (by decide))

end Memory

end CellForth
