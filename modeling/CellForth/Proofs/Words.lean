import CellForth.Proofs.Scanning

/-!
# The words of a text

The words of a text are its maximal runs of characters that are not blank. `Text.words` computes
them by cutting at every blank. `Text.Spaced` says the same by the way a text is put together:
blanks in any number, a word, and then the end or another blank. The two agree (`Text.spaced_words`,
`Text.Spaced.words_eq`).

A cursor that is asked for words again and again gives exactly these, and none of them twice
(`Text.Spaced.answers`).
-/

namespace CellForth

namespace Text

/-- The words of a text: its pieces between blanks, without the empty ones. -/
def words (text : String) : List String :=
  ((text.toList.splitOnP (· ∈ blanks)).filter (· ≠ [])).map String.ofList

/-- How a text is made of its words. Blanks may stand in front of a word, and what follows it is a
blank or the end, so the word is not part of a longer run. -/
inductive Spaced : String → List String → Prop
  | blank {gap : String} (hgap : ∀ ch ∈ gap.toList, ch ∈ blanks) : Spaced gap []
  | word {gap w after : String} {ws : List String} (hgap : ∀ ch ∈ gap.toList, ch ∈ blanks)
      (hw : IsWord w) (hafter : ∀ ch ∈ after.toList.head?, ch ∈ blanks) (h : Spaced after ws) :
      Spaced (gap ++ (w ++ after)) (w :: ws)

/-- Blanks in front of a text add only empty pieces. -/
theorem splitOnP_of_blank (gap cs : List Char) (hgap : ∀ ch ∈ gap, ch ∈ blanks) :
    ((gap ++ cs).splitOnP (· ∈ blanks)).filter (· ≠ []) =
      (cs.splitOnP (· ∈ blanks)).filter (· ≠ []) := by
  induction gap with
  | nil => rfl
  | cons ch gap ih =>
    have hch : decide (ch ∈ blanks) = true := decide_eq_true (hgap ch (List.mem_cons_self ..))
    have hcut := List.splitOnP_append_cons (p := (· ∈ blanks)) [] (gap ++ cs) hch
    rw [List.nil_append] at hcut
    rw [List.cons_append, hcut]
    exact ih fun ch hch => hgap ch (List.mem_cons_of_mem _ hch)

theorem words_append_of_blank {gap : String} (text : String)
    (hgap : ∀ ch ∈ gap.toList, ch ∈ blanks) : words (gap ++ text) = words text := by
  rw [words, String.toList_append, splitOnP_of_blank _ _ hgap]
  rfl

theorem words_of_blank {gap : String} (hgap : ∀ ch ∈ gap.toList, ch ∈ blanks) :
    words gap = [] := by
  have hwords := words_append_of_blank "" hgap
  rwa [String.append_empty] at hwords

/-- A word that a blank or the end follows is the first of the words. -/
theorem words_append_of_isWord {w after : String} (hw : IsWord w)
    (hafter : ∀ ch ∈ after.toList.head?, ch ∈ blanks) : words (w ++ after) = w :: words after := by
  have hunbroken : ∀ ch ∈ w.toList, decide (ch ∈ blanks) = false :=
    fun ch hch => decide_eq_false (hw.unbroken ch hch)
  have hne : w.toList ≠ [] := fun hnil => hw.ne_empty (String.toList_eq_nil_iff.1 hnil)
  cases hcs : after.toList with
  | nil =>
    obtain rfl := String.toList_eq_nil_iff.1 hcs
    simp [words, List.splitOnP_eq_singleton hunbroken, hne]
  | cons ch cs =>
    have hch : decide (ch ∈ blanks) = true := decide_eq_true (hafter ch (by rw [hcs]; rfl))
    have hrest := splitOnP_of_blank [ch] cs fun ch' h' => by
      rw [List.mem_singleton.1 h']
      exact of_decide_eq_true hch
    have hcut := List.splitOnP_append_cons (p := (· ∈ blanks)) w.toList cs hch
    rw [words, words, String.toList_append, hcs, hcut, List.splitOnP_eq_singleton hunbroken,
      List.filter_append, ← hrest]
    simp [hne]

/-- A text can be made of words in one way only. -/
theorem Spaced.words_eq {text : String} {ws : List String} (h : Spaced text ws) :
    words text = ws := by
  induction h with
  | blank hgap => exact words_of_blank hgap
  | word hgap hw hafter _ ih =>
    rw [words_append_of_blank _ hgap, words_append_of_isWord hw hafter, ih]

/-- A text is blank, or begins with blanks, a word, and the end or a blank behind it. -/
theorem exists_first_word (text : String) : (∀ ch ∈ text.toList, ch ∈ blanks) ∨
    ∃ gap w after : String, text = gap ++ (w ++ after) ∧ (∀ ch ∈ gap.toList, ch ∈ blanks) ∧
      IsWord w ∧ ∀ ch ∈ after.toList.head?, ch ∈ blanks := by
  let gap := text.toList.takeWhile (· ∈ blanks)
  let body := text.toList.dropWhile (· ∈ blanks)
  let w := body.takeWhile (· ∉ blanks)
  let after := body.dropWhile (· ∉ blanks)
  have hgap : ∀ ch ∈ gap, ch ∈ blanks :=
    fun ch hch => of_decide_eq_true (List.all_eq_true.1 List.all_takeWhile ch hch)
  have htext : text.toList = gap ++ body := List.takeWhile_append_dropWhile.symm
  cases hbody : body with
  | nil =>
    refine .inl fun ch hch => hgap ch ?_
    rwa [htext, hbody, List.append_nil] at hch
  | cons ch cs =>
    have hhead : ch ∉ blanks := by
      have hnot := List.head?_dropWhile_not (· ∈ blanks) text.toList
      rw [show text.toList.dropWhile (· ∈ blanks) = ch :: cs from hbody] at hnot
      exact of_decide_eq_false hnot
    refine .inr ⟨.ofList gap, .ofList w, .ofList after, ?_, by simpa using hgap, ⟨?_, ?_⟩, ?_⟩
    · rw [← String.toList_inj, htext]
      simp [w, after]
    · simp [w, hbody, hhead]
    · intro ch' hch'
      rw [String.toList_ofList] at hch'
      exact of_decide_eq_true (List.all_eq_true.1 List.all_takeWhile ch' hch')
    · intro ch' hch'
      have hnot := List.head?_dropWhile_not (· ∉ blanks) body
      rw [String.toList_ofList] at hch'
      rw [Option.mem_def.1 hch'] at hnot
      exact Decidable.of_not_not (of_decide_eq_false hnot)

/-- By recursion on what follows the first word. -/
theorem exists_spaced (text : String) : ∃ ws, Spaced text ws := by
  rcases exists_first_word text with hblank | ⟨gap, w, after, heq, hgap, hw, hafter⟩
  · exact ⟨[], .blank hblank⟩
  · have hlt : after.toList.length < text.toList.length := by
      have hne := List.length_pos_iff.2 fun hnil => hw.ne_empty (String.toList_eq_nil_iff.1 hnil)
      simp only [heq, String.toList_append, List.length_append]
      omega
    obtain ⟨ws, h⟩ := exists_spaced after
    exact ⟨w :: ws, heq ▸ .word hgap hw hafter h⟩
termination_by text.toList.length

theorem spaced_words (text : String) : Spaced text (words text) := by
  obtain ⟨ws, h⟩ := exists_spaced text
  rwa [h.words_eq]

/-! ## Reading them -/

/-- A blank is one byte. -/
theorem utf8EncodeChar_of_mem_blanks {ch : Char} (hch : ch ∈ blanks) :
    String.utf8EncodeChar ch = [UInt8.ofNat ch.toNat] ∧
    Byte.isBlank (UInt8.ofNat ch.toNat) = true := by
  simp only [blanks, List.mem_cons, List.not_mem_nil, or_false] at hch
  rcases hch with rfl | rfl | rfl | rfl | rfl | rfl <;> exact ⟨rfl, rfl⟩

theorem isBlank_of_mem_encode {gap : String} (hgap : ∀ ch ∈ gap.toList, ch ∈ blanks) {b : UInt8}
    (hb : b ∈ Utf8.encode gap) : Byte.isBlank b = true := by
  obtain ⟨ch, hch, hb⟩ := List.mem_flatMap.1 hb
  obtain ⟨hbytes, hblank⟩ := utf8EncodeChar_of_mem_blanks (hgap ch hch)
  rw [hbytes] at hb
  rwa [List.mem_singleton.1 hb]

theorem isBlank_of_mem_head? {after : String} (hafter : ∀ ch ∈ after.toList.head?, ch ∈ blanks)
    {b : UInt8} (hb : b ∈ (Utf8.encode after).head?) : Byte.isBlank b = true := by
  cases hcs : after.toList with
  | nil => simp [Utf8.encode, hcs] at hb
  | cons ch cs =>
    obtain ⟨hbytes, hblank⟩ := utf8EncodeChar_of_mem_blanks (hafter ch (by rw [hcs]; rfl))
    simp only [Utf8.encode, hcs, List.flatMap_cons, hbytes, List.singleton_append, List.head?_cons,
      Option.mem_some] at hb
    rwa [← hb]

variable {text : String} {c : Cursor}

theorem Spaced.readWord_nil (h : Spaced text []) (hc : c.rest = Utf8.encode text) :
    (c.readWord Byte.space).1 = none ∧ (c.readWord Byte.space).2.rest = [] := by
  cases h with
  | blank hgap =>
    refine Cursor.readWord_of_skipping_nil ?_
    have hblank : ∀ b ∈ Utf8.encode text, Cursor.separates Byte.space b = true :=
      fun b hb => isBlank_of_mem_encode hgap hb
    rw [Cursor.rest_skipping, hc, ← List.append_nil (Utf8.encode text),
      List.dropWhile_append_of_pos hblank]
    rfl

/-- The first word is read, and what is left is made of the others. -/
theorem Spaced.readWord_cons {w : String} {ws : List String} (h : Spaced text (w :: ws))
    (hc : c.rest = Utf8.encode text) :
    (c.readWord Byte.space).1 = some w ∧
    ∃ after, Spaced after ws ∧ (c.readWord Byte.space).2.rest = Utf8.encode after := by
  cases h with
  | @word gap _ after _ hgap hw hafter h =>
    obtain ⟨hword, hrest⟩ := Cursor.readWord_of_rest (fun b => isBlank_of_mem_encode hgap) hw
      (fun b => isBlank_of_mem_head? hafter) hc
    exact ⟨hword, after, h, hrest⟩

/-- A cursor that is asked for words again and again gives those of the text in order, and then
nothing. -/
theorem Spaced.answers {ws : List String} (h : Spaced text ws) (hc : c.rest = Utf8.encode text)
    (n : Nat) :
    ((c.after (.replicate n (.word Byte.space))).readWord Byte.space).1 = ws[n]? ∧
    (ws.length ≤ n →
      ((c.after (.replicate n (.word Byte.space))).readWord Byte.space).2.rest = []) := by
  induction n generalizing c text ws with
  | zero =>
    cases ws with
    | nil => exact ⟨(h.readWord_nil hc).1, fun _ => (h.readWord_nil hc).2⟩
    | cons w ws => exact ⟨(h.readWord_cons hc).1, fun hle => absurd hle (Nat.not_succ_le_zero _)⟩
  | succ n ih =>
    have hafter : c.after (.replicate (n + 1) (.word Byte.space)) =
        (c.readWord Byte.space).2.after (.replicate n (.word Byte.space)) := rfl
    rw [hafter]
    cases ws with
    | nil =>
      have hblank : Spaced "" [] := .blank (by simp)
      exact ih hblank (h.readWord_nil hc).2 |>.imp_right fun hrest _ => hrest (Nat.zero_le _)
    | cons w ws =>
      obtain ⟨-, after, hspaced, hrest⟩ := h.readWord_cons hc
      exact (ih hspaced hrest).imp_right fun hrest hle => hrest (Nat.le_of_succ_le_succ hle)

end Text

namespace Cursor

/-- The calls for a word, from the first on, return the maximal runs of characters of the text that
are not blank, in their order and as they are. Then no word is left, the cursor stands at the end,
and every further call finds it there. -/
theorem words_read_in_order (text : String) :
    Text.Spaced text (Text.words text) ∧
    ∀ n, let c := (ofString text).after (.replicate n (.word Byte.space))
      (c.readWord Byte.space).1 = (Text.words text)[n]? ∧
      ((Text.words text).length ≤ n →
        (c.readWord Byte.space).2.exhausted = true ∧
        (c.readWord Byte.space).2.position = (Utf8.encode text).length) := by
  refine ⟨Text.spaced_words text, fun n => ?_⟩
  obtain ⟨hword, hend⟩ := (Text.spaced_words text).answers (c := ofString text) rfl n
  refine ⟨hword, fun hle => ?_⟩
  have hstands := ((standsIn_ofString text).after (.replicate n (.word Byte.space))).read
    (.word Byte.space)
  have hnil := hend hle
  have hdrop := hstands.rest.symm.trans hnil
  refine ⟨List.isEmpty_iff.2 hnil, Nat.le_antisymm hstands.position_le ?_⟩
  exact List.drop_eq_nil_iff.1 hdrop

end Cursor

end CellForth
