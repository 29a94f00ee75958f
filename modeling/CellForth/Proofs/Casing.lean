import CellForth.Text.Lowercase

/-!
# Laws of lower case

Two facts about the lower case of a text. Lowering it again changes nothing (`lowercase_lowercase`):
no letter that a run of upper-case letters leads to is an upper-case letter itself
(`caseRuns_apart`), and the lower case of a text has no capital sigma whose place could matter.

The case of ASCII letters does not show in the lower case of a text, whatever else the text holds
(`lowercase_congr`). A sigma looks at its neighbours, but only at whether they are cased letters
or can be passed over, and ASCII letters are cased in both cases.
-/

namespace CellForth.Text

/-! ## Runs of letters -/

namespace CaseRun

/-- Whether all letters of the run are at even distances from the first one. -/
def isSparse (r : CaseRun) : Bool :=
  r.stride == 2 || r.first == r.last

/-- Whether the letters that a run leads to are clearly no letters of another run: they lie before
it or behind it, or in its gaps. -/
def isApart (r other : CaseRun) : Bool :=
  Nat.blt (r.target + (r.last - r.first)) other.first || Nat.blt other.last r.target ||
    r.isSparse && other.isSparse && (r.target + other.first) % 2 == 1

variable {r other : CaseRun} {c : Nat}

/-- The letters of a sparse run are every second one. -/
theorem mod_two_of_isSparse (h : r.holds c = true) (hr : r.isSparse = true) :
    (c - r.first) % 2 = 0 := by
  simp only [holds, isSparse, Bool.and_eq_true, Bool.or_eq_true, decide_eq_true_eq,
    beq_iff_eq] at h hr
  obtain ⟨⟨hfirst, hlast⟩, hmod⟩ := h
  rcases hr with hr | hr
  · rwa [hr] at hmod
  · omega

/-- A letter that a run leads to is no letter of a run that it is apart from. -/
theorem not_holds_of_isApart (h : r.isApart other = true) (hc : r.holds c = true) :
    other.holds (r.target + (c - r.first)) = false := by
  rw [Bool.eq_false_iff]
  intro hother
  have hbounds : r.first ≤ c ∧ c ≤ r.last := by
    simp only [holds, Bool.and_eq_true, decide_eq_true_eq] at hc
    exact hc.1
  have hbounds' : other.first ≤ r.target + (c - r.first) ∧
      r.target + (c - r.first) ≤ other.last := by
    simp only [holds, Bool.and_eq_true, decide_eq_true_eq] at hother
    exact hother.1
  simp only [isApart, Bool.or_eq_true, Bool.and_eq_true, Nat.blt_eq, beq_iff_eq] at h
  rcases h with (h | h) | ⟨⟨hr, hr'⟩, h⟩
  · omega
  · omega
  · have heven := mod_two_of_isSparse hc hr
    have heven' := mod_two_of_isSparse hother hr'
    omega

end CaseRun

/-- The capital I with a dot above, as a run of its own. -/
def dottedRun : CaseRun := ⟨0x0130, 0x0130, 1, 0x0069⟩

/-- No run leads to an upper-case letter. -/
theorem caseRuns_apart :
    ∀ r ∈ caseRuns, ∀ other ∈ dottedRun :: caseRuns, r.isApart other = true := by
  have hall : (caseRuns.all fun r => (dottedRun :: caseRuns).all r.isApart) = true := by
    decide +kernel
  simpa only [List.all_eq_true] using hall

/-- All runs lead to characters. -/
theorem caseRuns_valid : ∀ r ∈ caseRuns, r.target + (r.last - r.first) < 0xD800 ∨
    0xDFFF < r.target ∧ r.target + (r.last - r.first) < 0x110000 := by
  decide +kernel

/-! ## Characters -/

/-- A letter is its own lower case, or some run holds it and leads on. -/
theorem simpleLower_cases (c : Nat) : simpleLower c = c ∧ caseRuns.find? (·.holds c) = none ∨
    ∃ r ∈ caseRuns, r.holds c = true ∧ simpleLower c = r.target + (c - r.first) := by
  unfold simpleLower
  cases h : caseRuns.find? (·.holds c) with
  | none => exact .inl ⟨rfl, rfl⟩
  | some r =>
    have hr : r.holds c = true := by simpa using List.find?_some h
    exact .inr ⟨r, List.mem_of_find?_eq_some h, hr, rfl⟩

/-- No run holds a letter that a run leads to. -/
theorem find?_simpleLower (c : Nat) : caseRuns.find? (·.holds (simpleLower c)) = none := by
  obtain ⟨heq, hnone⟩ | ⟨r, hr, hc, heq⟩ := simpleLower_cases c
  · rw [heq, hnone]
  · rw [heq, List.find?_eq_none]
    intro other hother
    rw [CaseRun.not_holds_of_isApart (caseRuns_apart r hr other (.tail _ hother)) hc]
    exact Bool.false_ne_true

theorem simpleLower_simpleLower (c : Nat) : simpleLower (simpleLower c) = simpleLower c := by
  rw [simpleLower, find?_simpleLower]

/-- No letter is lowered to the dotted capital I. -/
theorem simpleLower_ne_dotted {c : Nat} (h : c ≠ 0x0130) : simpleLower c ≠ 0x0130 := by
  obtain ⟨heq, -⟩ | ⟨r, hr, hc, heq⟩ := simpleLower_cases c
  · rwa [heq]
  · intro hdotted
    have hapart := CaseRun.not_holds_of_isApart (caseRuns_apart r hr dottedRun (.head _)) hc
    rw [← heq, hdotted] at hapart
    cases hapart

theorem isValidChar_simpleLower {c : Nat} (h : c.isValidChar) : (simpleLower c).isValidChar := by
  obtain ⟨heq, -⟩ | ⟨r, hr, hc, heq⟩ := simpleLower_cases c
  · rwa [heq]
  · have hvalid := caseRuns_valid r hr
    simp only [CaseRun.holds, Bool.and_eq_true, decide_eq_true_eq] at hc
    rw [heq]
    unfold Nat.isValidChar
    omega

/-- A character that is its own lower case in every place. -/
structure IsLower (c : Char) : Prop where
  ne_sigma : c ≠ capitalSigma
  lowerChar_eq : lowerChar c = [c]

instance (c : Char) : Decidable (IsLower c) :=
  decidable_of_iff (c ≠ capitalSigma ∧ lowerChar c = [c])
    ⟨fun h => ⟨h.1, h.2⟩, fun h => ⟨h.1, h.2⟩⟩

theorem toNat_ofNat {n : Nat} (h : n.isValidChar) : (Char.ofNat n).toNat = n := by
  rw [Char.ofNat, dif_pos h]
  rfl

theorem isLower_simpleLower {c : Char} (hc : c ≠ '\u0130') :
    IsLower (Char.ofNat (simpleLower c.toNat)) := by
  have hnat : (Char.ofNat (simpleLower c.toNat)).toNat = simpleLower c.toNat :=
    toNat_ofNat (isValidChar_simpleLower c.valid)
  have hdotted : Char.ofNat (simpleLower c.toNat) ≠ '\u0130' := by
    intro heq
    refine simpleLower_ne_dotted (fun hcode => hc ?_) (hnat.symm.trans (congrArg Char.toNat heq))
    exact Char.toNat_inj.1 hcode
  constructor
  · intro hsigma
    have hnone := find?_simpleLower c.toNat
    rw [← hnat, hsigma] at hnone
    exact absurd hnone (by decide +kernel)
  · rw [lowerChar, if_neg hdotted, hnat, simpleLower_simpleLower]

theorem isLower_of_mem_lowerChar {c x : Char} (h : x ∈ lowerChar c) : IsLower x := by
  unfold lowerChar at h
  split at h
  · simp only [List.mem_cons, List.not_mem_nil, or_false] at h
    rcases h with rfl | rfl <;> decide +kernel
  · next hc =>
    rw [List.mem_singleton.1 h]
    exact isLower_simpleLower hc

/-! ## Texts -/

theorem lowerFrom_of_isLower {cs : List Char} (h : ∀ c ∈ cs, IsLower c) (before : List Char) :
    lowerFrom before cs = cs := by
  induction cs generalizing before with
  | nil => rfl
  | cons c cs ih =>
    obtain ⟨hc, hcs⟩ := List.forall_mem_cons.1 h
    rw [lowerFrom, ih hcs, lowerAt, if_neg hc.ne_sigma, hc.lowerChar_eq, List.singleton_append]

theorem isLower_of_mem_lowerAt {before after : List Char} {c x : Char}
    (h : x ∈ lowerAt before c after) : IsLower x := by
  unfold lowerAt at h
  split at h
  · rw [List.mem_singleton.1 h]
    split <;> decide +kernel
  · exact isLower_of_mem_lowerChar h

theorem isLower_of_mem_lowerFrom {x : Char} {before cs : List Char}
    (h : x ∈ lowerFrom before cs) : IsLower x := by
  induction cs generalizing before with
  | nil => cases h
  | cons c cs ih =>
    rcases List.mem_append.1 h with h | h
    · exact isLower_of_mem_lowerAt h
    · exact ih h

/-- The lower case of a text is its own lower case. -/
@[simp]
theorem lowercase_lowercase (s : String) : lowercase (lowercase s) = lowercase s := by
  have hlower : lowerFrom [] (lowerFrom [] s.toList) = lowerFrom [] s.toList :=
    lowerFrom_of_isLower (fun _ => isLower_of_mem_lowerFrom) []
  simp only [lowercase, String.toList_ofList, hlower]

/-! ## The case of ASCII letters -/

theorem toLower_ofNat : ∀ n < 26, (Char.ofNat (n + 65)).toLower = Char.ofNat (n + 97) := by
  decide

/-- What does not tell the capital letters of ASCII from the small ones. -/
theorem apply_toLower {β : Type} {f : Char → β}
    (h : ∀ n < 26, f (Char.ofNat (n + 97)) = f (Char.ofNat (n + 65))) (c : Char) :
    f c.toLower = f c := by
  by_cases hc : 'A'.val ≤ c.val ∧ c.val ≤ 'Z'.val
  · have hcapital : 65 ≤ c.toNat ∧ c.toNat ≤ 90 := hc
    have hn : c.toNat - 65 < 26 := by omega
    have heq : c = Char.ofNat (c.toNat - 65 + 65) := by
      rw [Nat.sub_add_cancel hcapital.1, Char.ofNat_toNat]
    rw [heq, toLower_ofNat _ hn, h _ hn]
  · exact congrArg f (dif_neg hc)

theorem isCased_toLower (c : Char) : isCased c.toLower = isCased c :=
  apply_toLower (by decide +kernel) c

/-- No range of characters that are passed over touches the letters of ASCII. -/
theorem ignorableRanges_apart :
    ∀ r ∈ ignorableRanges, r.2 < 65 ∨ 90 < r.1 ∧ r.2 < 97 ∨ 122 < r.1 := by
  decide +kernel

/-- Letters of ASCII are not passed over. -/
theorem isCaseIgnorable_of_letter {c : Char}
    (h : 65 ≤ c.toNat ∧ c.toNat ≤ 90 ∨ 97 ≤ c.toNat ∧ c.toNat ≤ 122) :
    isCaseIgnorable c = false := by
  rw [isCaseIgnorable, List.any_eq_false]
  intro r hr
  have := ignorableRanges_apart r hr
  simp only [Bool.and_eq_true, decide_eq_true_eq]
  omega

theorem isCaseIgnorable_toLower (c : Char) : isCaseIgnorable c.toLower = isCaseIgnorable c := by
  refine apply_toLower (fun n hn => ?_) c
  have hvalid : ∀ k < 128, k.isValidChar := fun k hk => .inl (Nat.lt_trans hk (by decide))
  rw [isCaseIgnorable_of_letter, isCaseIgnorable_of_letter] <;>
    rw [toNat_ofNat (hvalid _ (by omega))] <;> omega

theorem lowerChar_toLower (c : Char) : lowerChar c.toLower = lowerChar c :=
  apply_toLower (by decide +kernel) c

theorem toLower_eq_capitalSigma_iff (c : Char) : c.toLower = capitalSigma ↔ c = capitalSigma := by
  have h := apply_toLower (f := fun c => decide (c = capitalSigma)) (by decide +kernel) c
  simpa using h

/-- Whether a cased letter is reached does not depend on the case of ASCII letters. -/
theorem reachesCased_map_toLower (cs : List Char) :
    reachesCased (cs.map Char.toLower) = reachesCased cs := by
  have hignorable : isCaseIgnorable ∘ Char.toLower = isCaseIgnorable :=
    funext isCaseIgnorable_toLower
  rw [reachesCased, List.dropWhile_map, hignorable, List.head?_map, Option.any_map, reachesCased]
  exact congrArg (Option.any · _) (funext isCased_toLower)

theorem lowerAt_map_toLower (before after : List Char) (c : Char) :
    lowerAt (before.map Char.toLower) c.toLower (after.map Char.toLower) =
      lowerAt before c after := by
  have hsigma := toLower_eq_capitalSigma_iff c
  unfold lowerAt endsWord
  rw [reachesCased_map_toLower, reachesCased_map_toLower, lowerChar_toLower]
  by_cases hc : c = capitalSigma
  · rw [if_pos hc, if_pos (hsigma.2 hc)]
  · rw [if_neg hc, if_neg (hc ∘ hsigma.1)]

theorem lowerFrom_map_toLower (before cs : List Char) :
    lowerFrom (before.map Char.toLower) (cs.map Char.toLower) = lowerFrom before cs := by
  induction cs generalizing before with
  | nil => rfl
  | cons c cs ih =>
    have hcs := ih (c :: before)
    rw [List.map_cons] at hcs
    rw [List.map_cons, lowerFrom, lowerAt_map_toLower, hcs, lowerFrom]

/-- Texts that differ at most in the case of ASCII letters. -/
def SameLetters (s t : String) : Prop :=
  s.toList.map Char.toLower = t.toList.map Char.toLower

instance (s t : String) : Decidable (SameLetters s t) :=
  inferInstanceAs (Decidable (_ = _))

/-- Texts that differ in the case of ASCII letters have the same lower case. -/
theorem lowercase_congr {s t : String} (h : SameLetters s t) : lowercase s = lowercase t := by
  have hs := lowerFrom_map_toLower [] s.toList
  have ht := lowerFrom_map_toLower [] t.toList
  rw [lowercase, ← hs, h, ht, lowercase]

end CellForth.Text
