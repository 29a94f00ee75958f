import CellForth.Machine
import Mathlib.Algebra.Order.Ring.Int
import Mathlib.Data.Int.ModEq
import Mathlib.Tactic.Ring

/-!
# Arithmetic on the machine

The arithmetic words take two integers off the data stack and put one in their place. Here what they
put there is said over the integers, without reference to words of 64 bits:

* sum, difference and product are the one integer in the range of a cell that is congruent to the
  exact result modulo `2 ^ 64` (`Operation.Wraps`);
* a quotient is the one integer that leaves a rest smaller than the divisor, and zero or of the sign
  of the dividend (`Operation.Truncates`). Only `-2 ^ 63` by `-1` has a quotient that no cell can
  hold, and it wraps like the other results.

All four operations wrap their exact result (`Operation.compute_wraps`), and a truncated quotient
that fits a cell is not changed by that. The machine takes the right operand first, so the operands
come in the order in which they were pushed (`Machine.arithmetic_exact`).
-/

namespace CellForth

namespace Operation

/-- An integer of 64 bits stands for an exact result: of the integers in its range it is the only
one that is congruent to it. -/
def Wraps (exact : Int) (n : Int64) : Prop :=
  ∀ k : Int, k = n.toInt ↔ (-2 ^ 63 ≤ k ∧ k ≤ 2 ^ 63 - 1) ∧ k ≡ exact [ZMOD 2 ^ 64]

/-- An integer of 64 bits is a quotient that was rounded toward zero: only with it the rest is
smaller than the divisor, and zero or of the sign of the dividend. -/
def Truncates (l r : Int) (n : Int64) : Prop :=
  ∀ q : Int, q = n.toInt ↔ ∃ m, l = q * r + m ∧ |m| < |r| ∧ (m = 0 ∨ m.sign = l.sign)

/-- What an operation computes over the integers. -/
def exact : Operation → Int → Int → Int
  | .sum, l, r => l + r
  | .difference, l, r => l - r
  | .product, l, r => l * r
  | .quotient, l, r => l.tdiv r

/-- The balanced remainder by the size of a cell is the wrapped result. -/
theorem wraps_of_bmod {exact : Int} {n : Int64} (h : n.toInt = exact.bmod (2 ^ 64)) :
    Wraps exact n := by
  intro k
  have hhigh : k < (((2 ^ 64 : Nat) : Int) + 1) / 2 ↔ k ≤ 2 ^ 63 - 1 := by omega
  rw [h, eq_comm, Int.bmod_eq_iff (by decide), hhigh, ← and_assoc, Int.modEq_comm,
    Int.modEq_iff_dvd]
  rfl

/-- Rounding toward zero leaves the only rest of this kind. -/
theorem eq_tdiv_iff {l r q : Int} (hr : r ≠ 0) :
    q = l.tdiv r ↔ ∃ m, l = q * r + m ∧ |m| < |r| ∧ (m = 0 ∨ m.sign = l.sign) := by
  constructor
  · rintro rfl
    refine ⟨l.tmod r, ?_, ?_, ?_⟩
    · rw [mul_comm, Int.mul_tdiv_add_tmod]
    · rw [Int.abs_eq_natAbs, Int.abs_eq_natAbs, Int.natAbs_tmod]
      exact_mod_cast Nat.mod_lt _ (Int.natAbs_pos.2 hr)
    · have hsign := Int.sign_tmod l r
      split at hsign
      · exact .inl (Int.sign_eq_zero_iff_zero.1 hsign)
      · exact .inr hsign
  · rintro ⟨m, hl, hm, hsign⟩
    rw [Int.abs_eq_natAbs r, abs_lt] at hm
    have hsum : m + r * q = l := by
      rw [hl]
      ring
    -- the library has uniqueness for each sign of the dividend
    rcases Int.le_total 0 l with hpos | hneg
    · have hrest : 0 ≤ m := by
        rcases hsign with rfl | hsign
        · exact le_refl 0
        · rwa [← Int.sign_nonneg_iff, hsign, Int.sign_nonneg_iff]
      exact ((Int.tdiv_tmod_unique hpos hr).2 ⟨hsum, hrest, hm.2⟩).1.symm
    · have hrest : m ≤ 0 := by
        rcases hsign with rfl | hsign
        · exact le_refl 0
        · rwa [← Int.sign_nonpos_iff, hsign, Int.sign_nonpos_iff]
      exact ((Int.tdiv_tmod_unique' hneg hr).2 ⟨hsum, hm.1, hrest⟩).1.symm

/-- Every operation that is not refused wraps its exact result. -/
theorem compute_wraps (op : Operation) (l r : Int64) (h : op = .quotient → r ≠ 0) :
    ∃ n, op.compute l r = .ok n ∧ Wraps (op.exact l.toInt r.toInt) n := by
  cases op with
  | sum => exact ⟨l + r, rfl, wraps_of_bmod (Int64.toInt_add l r)⟩
  | difference => exact ⟨l - r, rfl, wraps_of_bmod (Int64.toInt_sub l r)⟩
  | product => exact ⟨l * r, rfl, wraps_of_bmod (Int64.toInt_mul l r)⟩
  | quotient => exact ⟨l / r, if_neg (h rfl), wraps_of_bmod (Int64.toInt_div l r)⟩

/-- The quotient fits a cell, unless it is the one that is too large. -/
theorem compute_truncates {l r : Int64} (hr : r ≠ 0) (h : ¬ (l = Int64.minValue ∧ r = -1)) :
    ∃ n, compute .quotient l r = .ok n ∧ Truncates l.toInt r.toInt n := by
  have hquotient : (l / r).toInt = l.toInt.tdiv r.toInt := by
    by_cases hl : l = Int64.minValue
    · exact Int64.toInt_div_of_ne_right l r fun hminus => h ⟨hl, hminus⟩
    · exact Int64.toInt_div_of_ne_left l r hl
  have hzero : r.toInt ≠ 0 := by
    rwa [Ne, ← Int64.toInt_zero, Int64.toInt_inj]
  refine ⟨l / r, if_neg hr, fun q => ?_⟩
  rw [hquotient]
  exact eq_tdiv_iff hzero

theorem apply_of_not_int {op : Operation} {x y : Value}
    (h : ∀ l r : Int64, ¬ (x = .int l ∧ y = .int r)) :
    op.apply x y = .error ⟨.integerRequired, op.sign⟩ := by
  unfold apply
  split
  · exact absurd ⟨rfl, rfl⟩ (h _ _)
  · rfl

end Operation

namespace Machine

open Operation (Wraps Truncates)

variable {m : Machine} {x y : Value} {below : List Value} {l r : Int64}

/-- The machine with other cells on the data stack. -/
def withCells (cells : List Value) (m : Machine) : Machine :=
  { m with data := { m.data with cells } }

/-- The machine computes with the cell below the top and the top, in this order. -/
theorem compute_of_ok {op : Operation} {v : Value} (hcells : m.data.cells = y :: x :: below)
    (h : op.apply x y = .ok v) : compute op m = (.ok (), m.withCells (v :: below)) := by
  have hlift : ∀ m, (liftM (op.apply x y) : Action Value) m = (.ok v, m) := by
    intro m
    rw [h]
    rfl
  rw [compute, bind_of_ok (pop_of_cons hcells), bind_of_ok (top_of_cons rfl),
    bind_of_ok (hlift _), replaceTop_of_cons rfl]
  rfl

/-- The right operand is gone when a computation is refused. -/
theorem compute_of_error {op : Operation} {f : Fault} (hcells : m.data.cells = y :: x :: below)
    (h : op.apply x y = .error f) : compute op m = (.error f, m.withCells (x :: below)) := by
  have hlift : ∀ m, (liftM (op.apply x y) : Action Value) m = (.error f, m) := by
    intro m
    rw [h]
    rfl
  rw [compute, bind_of_ok (pop_of_cons hcells), bind_of_ok (top_of_cons rfl),
    bind_of_error (hlift _)]
  rfl

theorem compute_of_int {op : Operation} {n : Int64}
    (hcells : m.data.cells = .int r :: .int l :: below) (h : op.compute l r = .ok n) :
    compute op m = (.ok (), m.withCells (.int n :: below)) :=
  compute_of_ok hcells (by rw [Operation.apply, h]; rfl)

/-- What the arithmetic words do with integers `l` and `r` on top. Nothing but the two cells
changes. -/
structure Computes (m : Machine) (l r : Int64) (below : List Value) : Prop where
  sum : ∃ n, compute .sum m = (.ok (), m.withCells (.int n :: below)) ∧
    Wraps (l.toInt + r.toInt) n
  difference : ∃ n, compute .difference m = (.ok (), m.withCells (.int n :: below)) ∧
    Wraps (l.toInt - r.toInt) n
  product : ∃ n, compute .product m = (.ok (), m.withCells (.int n :: below)) ∧
    Wraps (l.toInt * r.toInt) n
  quotient : r ≠ 0 → ¬ (l = Int64.minValue ∧ r = -1) →
    ∃ n, compute .quotient m = (.ok (), m.withCells (.int n :: below)) ∧
      Truncates l.toInt r.toInt n
  quotient_overflow : l = Int64.minValue → r = -1 →
    compute .quotient m = (.ok (), m.withCells (.int Int64.minValue :: below))
  quotient_refused : ∀ f, (compute .quotient m).1 = .error f ↔ f = ⟨.divisionByZero, "/"⟩ ∧ r = 0
  quotient_by_zero : r = 0 → (compute .quotient m).2 = m.withCells (.int l :: below)

/-- Every operation does with two integers what is said of it. -/
theorem computes (hcells : m.data.cells = .int r :: .int l :: below) : Computes m l r below := by
  have hwraps : ∀ op : Operation, op ≠ .quotient →
      ∃ n, compute op m = (.ok (), m.withCells (.int n :: below)) ∧
        Wraps (op.exact l.toInt r.toInt) n := by
    intro op hop
    obtain ⟨n, hn, hexact⟩ := op.compute_wraps l r fun h => absurd h hop
    exact ⟨n, compute_of_int hcells hn, hexact⟩
  have hzero : r = 0 → compute .quotient m =
      (.error ⟨.divisionByZero, "/"⟩, m.withCells (.int l :: below)) := by
    rintro rfl
    exact compute_of_error hcells rfl
  refine ⟨hwraps .sum (by simp), hwraps .difference (by simp), hwraps .product (by simp),
    fun hr h => ?_, ?_, fun f => ?_, fun hr => congrArg Prod.snd (hzero hr)⟩
  · obtain ⟨n, hn, hquotient⟩ := Operation.compute_truncates hr h
    exact ⟨n, compute_of_int hcells hn, hquotient⟩
  · rintro rfl rfl
    exact compute_of_int hcells rfl
  · by_cases hr : r = 0
    · rw [hzero hr]
      simp [hr, eq_comm]
    · obtain ⟨n, hn, -⟩ := Operation.compute_wraps .quotient l r fun _ => hr
      rw [compute_of_int hcells hn]
      simp [hr]

/-- Arithmetic on the two topmost cells is exact up to wrapping and rounding if both are integers,
and is refused if one of them is not. -/
theorem arithmetic_exact (hcells : m.data.cells = y :: x :: below) :
    (∀ l r : Int64, x = .int l → y = .int r → Computes m l r below) ∧
    ((∀ l r : Int64, ¬ (x = .int l ∧ y = .int r)) →
      ∀ op, compute op m = (.error ⟨.integerRequired, op.sign⟩, m.withCells (x :: below))) := by
  constructor
  · rintro l r rfl rfl
    exact computes hcells
  · intro h op
    exact compute_of_error hcells (Operation.apply_of_not_int h)

/-- The quotient that no cell can hold, and a text that is divided by zero. -/
theorem arithmetic_exact_extremes :
    let m := (ofCapacity 3).withCells [.int (-1), .int Int64.minValue, .text "below"]
    let m' := (ofCapacity 3).withCells [.int 0, .text "six", .text "below"]
    m.data.cells = [.int (-1), .int Int64.minValue, .text "below"] ∧
    Computes m Int64.minValue (-1) [.text "below"] ∧
    m'.data.cells = [.int 0, .text "six", .text "below"] ∧
    (∀ l r : Int64, ¬ (Value.text "six" = .int l ∧ Value.int 0 = .int r)) ∧
    ∀ op, compute op m' = (.error ⟨.integerRequired, op.sign⟩,
      m'.withCells [.text "six", .text "below"]) := by
  intro m m'
  have htext : ∀ l r : Int64, ¬ (Value.text "six" = .int l ∧ Value.int 0 = .int r) := by simp
  exact ⟨rfl, (arithmetic_exact (m := m) rfl).1 _ _ rfl rfl, rfl, htext,
    (arithmetic_exact (m := m') rfl).2 htext⟩

end Machine

end CellForth
