import CellForth.Proofs.Numerals
import CellForth.Proofs.Routes
import CellForth.Proofs.Words

/-!
# Stacks that are shown

`.s` writes how many cells there are, and then the cells from the bottom, each with a blank behind
it. If all of them hold integers, what stands behind the count is a line that puts the same cells on
an empty stack (`shown_stack_rebuilt`).

The decimal text of an integer is one word, and words with a blank behind each of them are the words
of the text (`Text.words_join`). A line is run by its words, however they are spaced: it faces the
first of them in front of a text with the others (`faces_of_spaced`), and comes to its end in front
of no words (`lineWith_of_spaced_nil`). So a line of numbers pushes them in order, and does nothing
else (`interpret_numbersLine`).
-/

namespace CellForth

/-! ## Words with a blank behind each -/

theorem Numeral.isWord_text (k : Numeral) : Text.IsWord k.text := by
  have hdigit : ∀ d, character d ∉ Text.blanks := by decide
  have hchars : ∀ c ∈ k.digits.map character, c ∉ Text.blanks := by
    rw [List.forall_mem_map]
    exact fun d _ => hdigit d
  cases h : k.negative with
  | true =>
    rw [text_of_negative h]
    refine ⟨by simp, ?_⟩
    rw [String.toList_ofList, List.forall_mem_cons]
    exact ⟨by decide, hchars⟩
  | false =>
    rw [text_of_not_negative h]
    refine ⟨by simpa using k.nonempty, ?_⟩
    rwa [String.toList_ofList]

theorem Value.isWord_render (n : Int64) : Text.IsWord (Value.int n).render := by
  obtain ⟨k, hk, -⟩ := Numeral.numeral?_eq_some_iff.1 (numeral?_toString n.toInt)
  have hword := k.isWord_text
  rwa [hk] at hword

namespace Text

theorem spaced_of_isWord {w : String} (hw : IsWord w) : Spaced w [w] := by
  have hempty : Spaced "" [] := .blank (by simp)
  have hword : Spaced ("" ++ (w ++ "")) [w] := .word (by simp) hw (by simp) hempty
  rwa [String.empty_append, String.append_empty] at hword

/-- A word with a space behind it is the first word. -/
theorem words_append_space {w : String} (hw : IsWord w) (rest : String) :
    words (w ++ (" " ++ rest)) = w :: words rest := by
  have hblank : ∀ ch ∈ " ".toList, ch ∈ blanks :=
    List.forall_mem_singleton.2 (List.mem_cons_self ..)
  have hafter : ∀ ch ∈ (" " ++ rest).toList.head?, ch ∈ blanks := by
    intro ch hch
    rw [String.toList_append] at hch
    exact hblank ch (List.mem_singleton.2 (Option.some.inj hch).symm)
  rw [words_append_of_isWord hw hafter, words_append_of_blank _ hblank]

/-- Words with a space behind each are read back as these words. -/
theorem words_join {ws : List String} (h : ∀ w ∈ ws, IsWord w) :
    words (String.join (ws.map (· ++ " "))) = ws := by
  induction ws with
  | nil => exact words_of_blank (by simp)
  | cons w ws ih =>
    obtain ⟨hw, hws⟩ := List.forall_mem_cons.1 h
    rw [List.map_cons, String.join_cons, String.append_assoc, words_append_space hw, ih hws]

end Text

namespace Interpreter

variable {s : Interpreter} {text : String}

/-! ## Lines by their words -/

/-- A line faces the first of its words. -/
theorem faces_of_spaced {w : String} {ws : List String} (h : Text.Spaced text (w :: ws))
    (hrest : s.cursor.rest = Utf8.encode text) :
    ∃ after, Text.Spaced after ws ∧ s.Faces w after := by
  obtain ⟨hword, after, hafter, hnext⟩ := h.readWord_cons hrest
  exact ⟨after, hafter, hword, hnext⟩

/-- A line without words does nothing. -/
theorem lineWith_of_spaced_nil (hs : s.HostsKeepReturns) (h : Text.Spaced text [])
    (hrest : s.cursor.rest = Utf8.encode text) :
    Similar (lineWith interpret s) (.ok .proceed, s.facing "") :=
  lineWith_of_none hs (h.readWord_nil hrest).1

/-- A word that is a number goes on the data stack. -/
theorem Faces.lineWith_number {w after : String} {n : Int64} (h : s.Faces w after)
    (hs : s.HostsKeepReturns) (hw : Lexeme.classify w = .ok (.number n))
    (hroom : s.machine.data.isFull = false) :
    Similar (Interpreter.lineWith interpret s) (Interpreter.lineWith interpret
      ((s.withCells (.int n :: s.machine.data.cells)).facing after)) := by
  have hpush : onMachine (Machine.push (.int n)) (s.facing after) =
      (.ok (), (s.withCells (.int n :: s.machine.data.cells)).facing after) :=
    push_of_room (s := s.facing after) hroom
  have hline := h.lineWith hs
  simp only [wordWith, hw] at hline
  rwa [thenProceed_of_ok hpush] at hline

/-- A line of numbers pushes them in order. -/
theorem lineWith_of_numbers {ns : List Int64} (hs : s.HostsKeepReturns)
    (h : Text.Spaced text (ns.map fun n => (Value.int n).render))
    (hrest : s.cursor.rest = Utf8.encode text)
    (hroom : s.machine.data.depth + ns.length ≤ s.machine.data.capacity) :
    Similar (lineWith interpret s) (.ok .proceed,
      (s.withCells ((ns.map Value.int).reverse ++ s.machine.data.cells)).facing "") := by
  induction ns generalizing s text with
  | nil => exact lineWith_of_spaced_nil hs h hrest
  | cons n ns ih =>
    obtain ⟨after, hafter, hfaces⟩ := faces_of_spaced h hrest
    rw [List.length_cons] at hroom
    have hcell : s.machine.data.isFull = false := Stack.isFull_eq_false_iff.2 (by omega)
    have hfirst := hfaces.lineWith_number hs (Lexeme.classify_toString n) hcell
    let pushed := (s.withCells (.int n :: s.machine.data.cells)).facing after
    have hothers := ih (s := pushed) hs hafter rfl
      (show s.machine.data.depth + 1 + ns.length ≤ s.machine.data.capacity by omega)
    have hcells : (ns.map Value.int).reverse ++ (.int n :: s.machine.data.cells) =
        ((n :: ns).map Value.int).reverse ++ s.machine.data.cells := by simp
    rw [← hcells]
    exact hfirst.trans hothers

/-- The decimal texts of integers, with a blank behind each of them. -/
def numbersLine (ns : List Int64) : String :=
  String.join (ns.map fun n => toString n.toInt ++ " ")

/-- The words of a line of numbers are the numbers as they are shown. -/
theorem words_numbersLine (ns : List Int64) :
    Text.words (numbersLine ns) = ns.map fun n => (Value.int n).render := by
  have hwords : ∀ w ∈ ns.map fun n => (Value.int n).render, Text.IsWord w := by
    rw [List.forall_mem_map]
    exact fun n _ => Value.isWord_render n
  have hjoin := Text.words_join hwords
  rwa [List.map_map] at hjoin

/-- Integers that are read from their decimal texts are put on the stack, and nothing else
happens. -/
theorem interpret_numbersLine (ns : List Int64) (hs : s.HostsKeepReturns)
    (hroom : s.machine.returns.isFull = false)
    (hfits : s.machine.data.depth + ns.length ≤ s.machine.data.capacity) :
    Similar (interpret (numbersLine ns) s)
      (.ok .proceed, s.withCells ((ns.map Value.int).reverse ++ s.machine.data.cells)) := by
  have hspaced := Text.spaced_words (numbersLine ns)
  rw [words_numbersLine] at hspaced
  have hline := lineWith_of_numbers (s := s.entering (numbersLine ns)) hs hspaced rfl hfits
  exact (interpret_of_lineWith hs hroom hline rfl).trans ⟨rfl, rfl, rfl, rfl, rfl, rfl⟩

/-! ## The stack as it is shown -/

/-- `.s` as a line makes one call, which writes the data stack, and does nothing else. -/
theorem interpret_dotS (hs : s.HostsKeepReturns) (hb : s.Bound .dotS)
    (hroom : s.machine.returns.isFull = false) :
    Similar (interpret ".s" s)
      (thenProceed (onChannel (Channel.write (showStack s.machine.data))) s) := by
  obtain ⟨after, hafter, hfaces⟩ := faces_of_spaced (s := s.entering ".s")
    (Text.spaced_of_isWord (isWord_name .dotS)) rfl
  have hline := hfaces.lineWith_of_made (b := .dotS) hs hb .dotS rfl
  let last := (s.entering ".s").facing after
  have hshow : dotS last = onChannel (Channel.write (showStack s.machine.data)) last :=
    view_bind _ _ last
  rcases hwrite : Channel.write (showStack s.machine.data) s.channel with ⟨f | _, c⟩
  · rw [thenProceed_of_error (hshow.trans (onChannel_of (s := last) hwrite))] at hline
    rw [thenProceed, bind_of_error (onChannel_of hwrite)]
    exact (interpret_of_lineWith hs hroom hline rfl).trans ⟨rfl, rfl, rfl, rfl, rfl, rfl⟩
  · rw [thenProceed_of_ok (hshow.trans (onChannel_of (s := last) hwrite))] at hline
    rw [thenProceed, bind_of_ok (onChannel_of hwrite)]
    have hend := hline.trans (lineWith_of_spaced_nil (by exact hs) hafter rfl)
    exact (interpret_of_lineWith hs hroom hend rfl).trans ⟨rfl, rfl, rfl, rfl, rfl, rfl⟩

/-- A stack of integers is shown by its depth and a line of numbers. -/
theorem showStack_of_ints {d : Stack} {ns : List Int64} (h : d.elements = ns.map Value.int) :
    showStack d = "<" ++ toString ns.length ++ "> " ++ numbersLine ns := by
  have hdepth : d.depth = ns.length := by
    rw [Stack.depth, ← List.length_reverse, ← Stack.elements, h, List.length_map]
  rw [showStack, hdepth, h, List.map_map]
  rfl

/-- A stack of integers is shown in one call, by the count of its cells and a line that rebuilds the
stack from nothing, whatever the channel has become. -/
theorem shown_stack_rebuilt {ns : List Int64} (hs : s.HostsKeepReturns) (hb : s.Bound .dotS)
    (hroom : s.machine.returns.isFull = false)
    (hns : s.machine.data.elements = ns.map Value.int)
    (hfits : ns.length ≤ s.machine.data.capacity) :
    let rest := String.join (ns.map fun n => toString n.toInt ++ " ")
    Similar (interpret ".s" s) (thenProceed
      (onChannel (Channel.write ("<" ++ toString ns.length ++ "> " ++ rest))) s) ∧
    ∀ channel, Similar (interpret rest { s.withCells [] with channel })
      (.ok .proceed, { s with channel }) := by
  intro rest
  constructor
  · have hshow : showStack s.machine.data = "<" ++ toString ns.length ++ "> " ++ rest :=
      showStack_of_ints hns
    rw [← hshow]
    exact interpret_dotS hs hb hroom
  · intro channel
    have hempty := interpret_numbersLine (s := { s.withCells [] with channel }) ns hs hroom
      (show 0 + ns.length ≤ s.machine.data.capacity by omega)
    have hcells : (ns.map Value.int).reverse ++ [] = s.machine.data.cells := by
      rw [← hns, Stack.elements, List.reverse_reverse, List.append_nil]
    rw [show ({ s.withCells [] with channel } : Interpreter).machine.data.cells = [] from rfl,
      hcells] at hempty
    exact hempty

/-- The integers at both ends of the range, on a stack that they fill. -/
theorem shown_stack_rebuilt_extremes :
    let ns : List Int64 := [Int64.minValue, -1, 0, Int64.maxValue]
    let s := (new 4 (.ofLines ["1 ."])).withCells (ns.map Value.int).reverse
    let rest := "-9223372036854775808 -1 0 9223372036854775807 "
    s.HostsKeepReturns ∧ s.Bound .dotS ∧ s.machine.returns.isFull = false ∧
    s.machine.data.elements = ns.map Value.int ∧ ns.length ≤ s.machine.data.capacity ∧
    Similar (interpret ".s" s) (thenProceed (onChannel (Channel.write ("<4> " ++ rest))) s) ∧
    Similar (interpret rest { s.withCells [] with channel := .ofLines [] })
      (.ok .proceed, { s with channel := .ofLines [] }) := by
  intro ns s rest
  have hs : s.HostsKeepReturns := hostsKeepReturns_new 4 (.ofLines ["1 ."])
  have hb : s.Bound .dotS := by decide +kernel
  have hrest : String.join (ns.map fun n => toString n.toInt ++ " ") = rest := by decide +kernel
  have hns : s.machine.data.elements = ns.map Value.int := rfl
  have hback := shown_stack_rebuilt hs hb rfl hns (Nat.le_refl 4)
  have hcount : "<" ++ toString ns.length ++ "> " = "<4> " := by decide +kernel
  rw [hrest, hcount] at hback
  exact ⟨hs, hb, rfl, hns, Nat.le_refl 4, hback.1, hback.2 _⟩

end Interpreter
end CellForth
