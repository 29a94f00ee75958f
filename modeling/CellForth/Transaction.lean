import CellForth.Fault

/-!
# Operations that can be refused

A `Transaction` on a state either succeeds or changes nothing. An `Activity` is made of several
steps: when one is refused, what the steps before it did stays done. `Transaction.settle`
makes the first an instance of the second, and `attempt` goes on after a refusal with the
refusal in hand.
-/

namespace CellForth

variable {ε σ α : Type}

/-- An operation on `σ` that succeeds with a new state, or is refused. -/
abbrev Transaction (σ α : Type) := StateT σ (Except Fault) α

/-- Steps on `σ`, the last of which may be refused. -/
abbrev Activity (σ α : Type) := ExceptT Fault (StateM σ) α

/-- A transaction as a step: the state stays as it was when the transaction is refused. -/
def Transaction.settle (t : Transaction σ α) : Activity σ α := fun s =>
  match t s with
  | .ok (a, s') => (.ok a, s')
  | .error f => (.error f, s)

/-- Runs steps and hands over how they ended. -/
def attempt (act : ExceptT ε (StateM σ) α) : ExceptT ε (StateM σ) (Except ε α) := fun s =>
  let r := act s
  (.ok r.1, r.2)

/-- Ends as steps that were attempted did. -/
def resume (result : Except ε α) : ExceptT ε (StateM σ) α := fun s =>
  (result, s)

/-! ## Running steps in order -/

variable {β : Type}

@[simp]
theorem pure_apply (a : α) (s : σ) : (pure a : ExceptT ε (StateM σ) α) s = (.ok a, s) :=
  rfl

@[simp]
theorem throw_apply (e : ε) (s : σ) : (throw e : ExceptT ε (StateM σ) α) s = (.error e, s) :=
  rfl

@[simp]
theorem get_apply (s : σ) : (get : ExceptT ε (StateM σ) σ) s = (.ok s, s) :=
  rfl

/-- The second step starts where the first one ended, and only if it was not refused. -/
theorem bind_apply (act : ExceptT ε (StateM σ) α) (next : α → ExceptT ε (StateM σ) β) (s : σ) :
    (act >>= next) s =
      match act s with
      | (.ok a, s') => next a s'
      | (.error e, s') => (.error e, s') := by
  change ExceptT.bind act next s = _
  simp only [ExceptT.bind, ExceptT.mk, bind, StateT.bind]
  rcases act s with ⟨_ | _, _⟩ <;> rfl

theorem bind_of_ok {act : ExceptT ε (StateM σ) α} {next : α → ExceptT ε (StateM σ) β} {s s' : σ}
    {a : α} (h : act s = (.ok a, s')) : (act >>= next) s = next a s' := by
  rw [bind_apply, h]

theorem bind_of_error {act : ExceptT ε (StateM σ) α} {next : α → ExceptT ε (StateM σ) β}
    {s s' : σ} {e : ε} (h : act s = (.error e, s')) : (act >>= next) s = (.error e, s') := by
  rw [bind_apply, h]

/-- Steps in order that were not refused: neither were the first ones nor the others. -/
theorem of_bind_ok {act : ExceptT ε (StateM σ) α} {next : α → ExceptT ε (StateM σ) β} {s s' : σ}
    {b : β} (h : (act >>= next) s = (.ok b, s')) :
    ∃ a s₁, act s = (.ok a, s₁) ∧ next a s₁ = (.ok b, s') := by
  rw [bind_apply] at h
  rcases hact : act s with ⟨e | a, s₁⟩ <;> rw [hact] at h
  · cases h
  · exact ⟨a, s₁, rfl, h⟩

theorem attempt_bind (act : ExceptT ε (StateM σ) α)
    (next : Except ε α → ExceptT ε (StateM σ) β) (s : σ) :
    (attempt act >>= next) s = next (act s).1 (act s).2 := by
  rw [bind_apply]
  rfl

/-- To put steps in order is to go on after the first ones, unless they were refused. -/
theorem bind_eq_attempt_bind (act : ExceptT ε (StateM σ) α)
    (next : α → ExceptT ε (StateM σ) β) :
    act >>= next = attempt act >>= fun
      | .ok a => next a
      | .error e => throw e := by
  funext s
  rw [bind_apply, attempt_bind]
  rcases act s with ⟨_ | _, _⟩ <;> rfl

/-! ## Transactions as steps -/

theorem Transaction.settle_of_ok {t : Transaction σ α} {s s' : σ} {a : α}
    (h : t s = .ok (a, s')) : t.settle s = (.ok a, s') := by
  simp [settle, h]

theorem Transaction.settle_of_error {t : Transaction σ α} {s : σ} {f : Fault}
    (h : t s = .error f) : t.settle s = (.error f, s) := by
  simp [settle, h]

theorem Transaction.of_settle_eq_ok {t : Transaction σ α} {s s' : σ} {a : α}
    (h : t.settle s = (.ok a, s')) : t s = .ok (a, s') := by
  rcases ht : t s with f | ⟨b, s₁⟩
  · rw [settle_of_error ht] at h
    cases h
  · rw [settle_of_ok ht] at h
    cases h
    rfl

theorem Transaction.settle_eq_error_iff {t : Transaction σ α} {s : σ} {f : Fault} :
    (t.settle s).1 = .error f ↔ t s = .error f := by
  rw [settle]
  cases t s <;> simp

theorem Transaction.of_settle_eq_error {t : Transaction σ α} {s s' : σ} {f : Fault}
    (h : t.settle s = (.error f, s')) : t s = .error f ∧ s' = s := by
  have ht : t s = .error f := settle_eq_error_iff.1 (congrArg Prod.fst h)
  rw [settle_of_error ht] at h
  exact ⟨ht, (congrArg Prod.snd h).symm⟩

theorem Transaction.map_apply (f : α → β) (t : Transaction σ α) (s : σ) :
    (f <$> t) s = (t s).map fun r => (f r.1, r.2) := by
  change (t s >>= fun r => pure (f r.1, r.2)) = _
  cases t s <;> rfl

theorem Transaction.settle_map (f : α → β) (t : Transaction σ α) (s : σ) :
    (f <$> t : Transaction σ β).settle s = ((t.settle s).1.map f, (t.settle s).2) := by
  rw [settle, settle, map_apply]
  cases t s <;> rfl

end CellForth
