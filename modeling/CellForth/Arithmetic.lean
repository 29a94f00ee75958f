import CellForth.Fault
import CellForth.Value

/-!
# Arithmetic on cells

The four operations compute on 64-bit integers: sum, difference and product modulo `2 ^ 64`,
and the quotient rounded toward zero. Only integers can be computed with, and that is asked
before the divisor is looked at.
-/

namespace CellForth

/-- The operations of arithmetic. -/
inductive Operation where
  | sum
  | difference
  | product
  | quotient
  deriving DecidableEq

namespace Operation

/-- The sign of an operation, which names it in a fault. -/
def sign : Operation → String
  | .sum => "+"
  | .difference => "-"
  | .product => "*"
  | .quotient => "/"

/-- Computes with two integers; only a quotient by zero is refused. -/
def compute : Operation → Int64 → Int64 → Except Fault Int64
  | .sum, l, r => .ok (l + r)
  | .difference, l, r => .ok (l - r)
  | .product, l, r => .ok (l * r)
  | .quotient, l, r => if r = 0 then .error ⟨.divisionByZero, "/"⟩ else .ok (l / r)

/-- Computes with two values, which have to be integers. -/
def apply (op : Operation) : Value → Value → Except Fault Value
  | .int l, .int r => (op.compute l r).map .int
  | _, _ => .error ⟨.integerRequired, op.sign⟩

/-- No computation is refused for a reason of the outside world. -/
theorem isFatal_of_apply_error {op : Operation} {l r : Value} {f : Fault}
    (h : op.apply l r = .error f) : f.isFatal = false := by
  unfold apply at h
  split at h
  · cases op with
    | quotient =>
      simp only [compute] at h
      split at h <;> cases h
      rfl
    | _ => cases h
  · cases h
    rfl

end Operation

end CellForth
