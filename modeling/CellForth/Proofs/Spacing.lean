import CellForth.Proofs.Likeness
import CellForth.Proofs.Routes
import CellForth.Proofs.Words

/-!
# Blanks between words

A line matters only through its words. Two texts with the same words do the same as lines, whatever
blanks stand between the words, in front of them and behind them (`spacing_immaterial`). Words that
read on to a quote would tell the texts apart, so none of them may be held.

The two lines are read by cursors in front of the same words (`Cursor.SameWords`). All that is read
from them is words, and they come in the same order. So the runs follow each other (`spacing`).
-/

namespace CellForth

/-- Cursors in front of the same words. Lines that are read within the line at hand are the same for
both. -/
def Cursor.SameWords (c c' : Cursor) : Prop :=
  c'.rest = c.rest ∨ ∃ text text', Text.words text' = Text.words text ∧
    c.rest = Utf8.encode text ∧ c'.rest = Utf8.encode text'

/-- Both cursors give the first of their words, and stay in front of the others. -/
theorem Cursor.SameWords.readWord {c c' : Cursor} (h : c.SameWords c') :
    SameAnswer SameWords (c.readWord Byte.space) (c'.readWord Byte.space) := by
  rcases h with hrest | ⟨text, text', hwords, hc, hc'⟩
  · obtain ⟨hword, hrest⟩ := readWord_congr hrest Byte.space
    exact ⟨hword, .inl hrest⟩
  · have hspaced := Text.spaced_words text
    have hspaced' := Text.spaced_words text'
    rw [hwords] at hspaced'
    cases hws : Text.words text with
    | nil =>
      rw [hws] at hspaced hspaced'
      obtain ⟨hword, hrest⟩ := hspaced.readWord_nil hc
      obtain ⟨hword', hrest'⟩ := hspaced'.readWord_nil hc'
      exact ⟨hword'.trans hword.symm, .inl (hrest'.trans hrest.symm)⟩
    | cons w ws =>
      rw [hws] at hspaced hspaced'
      obtain ⟨hword, after, hafter, hrest⟩ := hspaced.readWord_cons hc
      obtain ⟨hword', after', hafter', hrest'⟩ := hspaced'.readWord_cons hc'
      refine ⟨hword'.trans hword.symm, .inr ⟨after, after', ?_, hrest, hrest'⟩⟩
      rw [hafter.words_eq, hafter'.words_eq]

namespace Interpreter

variable {s : Interpreter}

/-- The words that do not read on to a quote. -/
def ReadsWords (b : Builtin) : Prop :=
  b ≠ .sQuote ∧ b ≠ .dotQuote

instance (b : Builtin) : Decidable (ReadsWords b) :=
  inferInstanceAs (Decidable (_ ∧ _))

/-- Lines with the same words, and the same channel. -/
def spacing : Likeness where
  held := Token.IsAllowed ReadsWords
  cursor := Cursor.SameWords
  channel := Eq
  noHost _ := id
  refl _ := .inl rfl
  readWord := Cursor.SameWords.readWord
  parse h := h.elim (absurd rfl ·.1) (absurd rfl ·.2)
  write _ _ _ h := ⟨by rw [h], by rw [h]⟩
  report _ _ _ _ h := ⟨by rw [h], by rw [h]⟩
  read _ _ _ h := ⟨by rw [h], by rw [h]⟩

/-- Lines with the same words are alike to words that read on word by word only. -/
theorem HoldsOnly.relates_spacing (hs : s.HoldsOnly ReadsWords) {text text' : String}
    (h : Text.words text' = Text.words text) :
    spacing.Relates (s.entering text) (s.entering text') where
  hosts := hostsKeepReturns_of_eq (s := s.entering text) hs.hosts
  words := hs.words
  exposes := ⟨hs.exposes.data, hs.exposes.memory⟩
  machine := rfl
  dictionary := rfl
  hostCode := rfl
  cursor := .inr ⟨text, text', h, rfl, rfl⟩
  channel := rfl

/-- Lines with the same words do the same, if no word that is held reads on to a quote. -/
theorem spacing_immaterial (hs : s.HoldsOnly ReadsWords) {text text' : String}
    (h : Text.words text = Text.words text') : Similar (interpret text s) (interpret text' s) := by
  have hosts : s.HostsKeepReturns := hostsKeepReturns_of_eq hs.hosts
  rw [interpret_eq text hosts, interpret_eq text' hosts]
  cases hfull : s.machine.returns.isFull with
  | true =>
    rw [within_of_full hfull, within_of_full hfull]
    exact ⟨rfl, .refl s⟩
  | false =>
    rw [within_of_room hfull, within_of_room hfull]
    obtain ⟨hresult, hrelates, -⟩ :=
      Part.follows (k := spacing) (p := .rest) trivial _ _ (hs.relates_spacing h.symm)
    simp only [Part.run] at hresult hrelates
    generalize lineWith interpret (s.entering text) = r at hresult hrelates ⊢
    generalize lineWith interpret (s.entering text') = r' at hresult hrelates ⊢
    refine ⟨hresult, ⟨?_, hrelates.dictionary, hrelates.hostCode, rfl, hrelates.channel.symm⟩⟩
    simp only [leaving, hrelates.machine]

/-- A word that takes the next one off the line, a read loop, and a word that fails, with all
blanks there are. -/
theorem spacing_immaterial_blanks :
    let words := Builtin.all.filter ReadsWords
    let s : Interpreter := { new 4 (.ofLines ["7 .", "3 nope"]) with dictionary := .of words }
    let text := "5 ' . execute quit drop"
    let text' := "\n\t5 '\r\n. \x0B execute\x0Cquit   drop\n"
    s.HoldsOnly ReadsWords ∧ Text.words text = Text.words text' ∧
    Similar (interpret text s) (interpret text' s) := by
  intro words s text text'
  have hs : s.HoldsOnly ReadsWords := holdsOnly_new words (by decide) 4 _
  have hwords : Text.words text = Text.words text' := by decide +kernel
  exact ⟨hs, hwords, spacing_immaterial hs hwords⟩

end Interpreter
end CellForth
