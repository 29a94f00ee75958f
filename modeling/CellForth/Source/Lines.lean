import CellForth.Text.Byte

/-!
# Lines of bytes

`cut` divides bytes after every line feed. Nothing is lost: the pieces joined are the bytes
again (`flatten_cut`). A last piece without a line feed is a line too, unless it is empty.

A line of a source file loses its line feed and one carriage return before it
(`withoutEnding`); a line that a person typed loses every carriage return and line feed at its
end (`withoutTrail`).
-/

namespace CellForth.Lines

/-- Puts a byte in front of pieces: a line feed ends a piece of its own. -/
def prepend (b : UInt8) : List (List UInt8) → List (List UInt8)
  | [] => [[b]]
  | piece :: pieces => if b = Byte.lineFeed then [b] :: piece :: pieces else (b :: piece) :: pieces

/-- The pieces that end after a line feed, and what is left after the last one. -/
def cut (bytes : List UInt8) : List (List UInt8) :=
  bytes.foldr prepend []

/-- A piece without its line feed, and without a carriage return right before that. -/
def withoutEnding (piece : List UInt8) : List UInt8 :=
  if piece.getLast? = some Byte.lineFeed then
    let line := piece.dropLast
    if line.getLast? = some Byte.carriageReturn then line.dropLast else line
  else piece

/-- A piece without the carriage returns and line feeds at its end. -/
def withoutTrail (piece : List UInt8) : List UInt8 :=
  (piece.reverse.dropWhile fun b => b = Byte.lineFeed || b = Byte.carriageReturn).reverse

theorem flatten_prepend (b : UInt8) (pieces : List (List UInt8)) :
    (prepend b pieces).flatten = b :: pieces.flatten := by
  cases pieces with
  | nil => rfl
  | cons piece pieces => by_cases h : b = Byte.lineFeed <;> simp [prepend, h]

theorem flatten_cut (bytes : List UInt8) : (cut bytes).flatten = bytes := by
  induction bytes with
  | nil => rfl
  | cons b bytes ih => rw [cut, List.foldr_cons, flatten_prepend, ← cut, ih]

theorem cut_cons (b : UInt8) (bytes : List UInt8) : cut (b :: bytes) = prepend b (cut bytes) :=
  rfl

theorem prepend_lineFeed (pieces : List (List UInt8)) :
    prepend Byte.lineFeed pieces = [Byte.lineFeed] :: pieces := by
  cases pieces <;> simp [prepend]

theorem cut_ne_nil {bytes : List UInt8} (h : bytes ≠ []) : cut bytes ≠ [] := by
  intro hcut
  have hflatten := flatten_cut bytes
  rw [hcut] at hflatten
  exact h hflatten.symm

/-- Bytes can be cut after a line feed first. -/
theorem cut_append {a : List UInt8} (h : a.getLast? = some Byte.lineFeed) (b : List UInt8) :
    cut (a ++ b) = cut a ++ cut b := by
  induction a with
  | nil => cases h
  | cons c a ih =>
    rw [List.cons_append, cut_cons, cut_cons]
    cases a with
    | nil =>
      obtain rfl : c = Byte.lineFeed := by simpa using h
      rw [prepend_lineFeed, List.nil_append, prepend_lineFeed]
      rfl
    | cons c' a =>
      rw [ih (by simpa using h)]
      cases hcut : cut (c' :: a) with
      | nil => exact absurd hcut (cut_ne_nil nofun)
      | cons piece pieces =>
        simp only [List.cons_append, prepend]
        split <;> rfl

/-- The first pieces are those of the bytes in them, and if there are others, a line feed ends
them. -/
theorem cut_flatten_of_append {bytes : List UInt8} {xs ys : List (List UInt8)}
    (h : cut bytes = xs ++ ys) : cut xs.flatten = xs ∧
      (xs = [] ∨ ys = [] ∨ xs.flatten.getLast? = some Byte.lineFeed) := by
  induction bytes generalizing xs with
  | nil =>
    obtain ⟨rfl, rfl⟩ : xs = [] ∧ ys = [] := by simpa [cut] using h
    exact ⟨rfl, Or.inl rfl⟩
  | cons b bytes ih =>
    rw [cut_cons] at h
    cases xs with
    | nil => exact ⟨rfl, Or.inl rfl⟩
    | cons x xs =>
      by_cases hb : b = Byte.lineFeed
      · subst hb
        rw [prepend_lineFeed, List.cons_append] at h
        obtain ⟨rfl, hxs⟩ := List.cons.inj h
        obtain ⟨hcut, hlast⟩ := ih hxs
        rw [List.flatten_cons, List.singleton_append]
        refine ⟨by rw [cut_cons, hcut, prepend_lineFeed], Or.inr ?_⟩
        rcases hlast with rfl | hlast | hlast
        · exact Or.inr rfl
        · exact Or.inl hlast
        · exact Or.inr (by rw [List.getLast?_cons, hlast]; rfl)
      · cases hcut : cut bytes with
        | nil =>
          rw [hcut] at h
          obtain ⟨rfl, hxs⟩ := List.cons.inj h
          obtain ⟨rfl, rfl⟩ := List.append_eq_nil_iff.1 hxs.symm
          exact ⟨rfl, Or.inr (Or.inl rfl)⟩
        | cons piece pieces =>
          rw [hcut, prepend, if_neg hb] at h
          obtain ⟨rfl, rfl⟩ := List.cons.inj h
          have hxs : cut bytes = (piece :: xs) ++ ys := hcut
          obtain ⟨hpieces, hlast⟩ := ih hxs
          refine ⟨?_, Or.inr ?_⟩
          · show cut (b :: (piece :: xs).flatten) = _
            rw [cut_cons, hpieces, prepend, if_neg hb]
          · show _ ∨ (b :: (piece :: xs).flatten).getLast? = _
            rcases hlast with hlast | hlast | hlast
            · cases hlast
            · exact Or.inl hlast
            · exact Or.inr (by rw [List.getLast?_cons, hlast]; rfl)

end CellForth.Lines
