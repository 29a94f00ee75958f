import CellForth.Proofs.Room
import CellForth.Proofs.Routes

/-!
# Texts that are evaluated

A line that quotes a text and evaluates it does what the text does as a line (`evaluate_as_typed`).
The text is read back as it was quoted, and then the two runs go on side by side, one level of lines
apart. So the one that is deeper needs a cell more on its return stack, and then both have as many
free cells at every point. A frame that is `tight` (`deeper`) says that, and so the runs fail alike
also where lines are nested too deep.
-/

namespace CellForth.Interpreter

variable {s s' t u : Interpreter} {text line : String}

/-! ## The end of a line -/

/-- The last word of a line is followed by nothing. -/
theorem faces_last {w : String} (hw : Text.IsWord w) : (s.facing (" " ++ w)).Faces w "" := by
  have hrest : (s.facing (" " ++ w)).cursor.rest = Utf8.encode (" " ++ (w ++ "")) := by
    rw [String.append_empty]
    rfl
  obtain ⟨hword, hafter⟩ :=
    Cursor.readWord_of_rest (List.all_eq_true.1 (by decide)) hw (by simp) hrest
  exact ⟨hword, hafter⟩

/-- A line of which nothing is left comes to its end. -/
theorem lineWith_of_nil (hs : s.HostsKeepReturns) (h : s.cursor.rest = []) :
    Similar (lineWith interpret s) (.ok .proceed, s) :=
  (lineWith_of_none hs (Cursor.readWord_of_nil Byte.space h).1).trans ⟨rfl, rfl, rfl, rfl, h, rfl⟩

/-- A line puts back the cursor of the line that it interrupted. -/
theorem cursor_interpret (line : String) (s : Interpreter) :
    (interpret line s).2.cursor = s.cursor := by
  rw [interpret, view_bind]
  exact cursor_interpretAt _ line s

/-- After a line within it there is nothing left to do for a line that is at its end. -/
theorem interpret_goingOn (hs : s.HostsKeepReturns) (h : s.cursor.rest = []) (line : String) :
    Similar ((interpret line >>= goingOn) s) (interpret line s) := by
  have hcursor := cursor_interpret line s
  have hleads := disciplined_interpret line s hs
  rw [bind_apply]
  rcases hx : interpret line s with ⟨e | (- | -), s'⟩ <;> rw [hx] at hcursor hleads
  · exact ⟨rfl, .refl _⟩
  · exact lineWith_of_nil (hleads.hosts hs) ((congrArg Cursor.rest hcursor).trans h)
  · exact ⟨rfl, .refl _⟩

/-- A line does not look at the one that it is put in place of. -/
theorem interpret_withCursor (hs : s.HostsKeepReturns) (line : String) (c : Cursor) :
    interpret line { s with cursor := c } =
      ((interpret line s).1, { (interpret line s).2 with cursor := c }) := by
  have hs' : HostsKeepReturns { s with cursor := c } := hs
  rw [interpret_eq line hs, interpret_eq line hs']
  cases hfull : s.machine.returns.isFull with
  | true => rw [within_of_full hfull, within_of_full (s := { s with cursor := c }) hfull]
  | false =>
    have hentering : ({ s with cursor := c } : Interpreter).entering line = s.entering line := rfl
    rw [within_of_room hfull, within_of_room (s := { s with cursor := c }) hfull, hentering]
    generalize lineWith interpret (s.entering line) = r
    rfl

/-- `evaluate` interprets the text on top as a line. -/
theorem Faces.lineWith_evaluate {after : String} {below : List Value}
    (h : s.Faces "evaluate" after) (hs : s.HostsKeepReturns) (hb : s.Bound .evaluate)
    (hcells : s.machine.data.cells = .text text :: below) :
    Similar (Interpreter.lineWith interpret s)
      ((interpret text >>= goingOn) ((s.withCells below).facing after)) :=
  h.lineWith_of_pop (b := .evaluate) hs hb rfl hcells (Indifferent.interpret text)

/-! ## Quoted lines -/

/-- A line that quotes a text and evaluates it does what the text does as a line within it. -/
theorem lineWith_quoted (hs : s.HostsKeepReturns) (hquote : s.Bound .sQuote)
    (hevaluate : s.Bound .evaluate) (hroom : s.machine.data.isFull = false)
    (htext : '"' ∉ text.toList) (hline : line = "s\" " ++ text ++ "\" evaluate") :
    Similar (lineWith interpret (s.entering line))
      (interpret text ((s.entering line).facing "")) := by
  have hparts : line = "s\"" ++ (" " ++ (text ++ ("\"" ++ " evaluate"))) := by
    rw [hline, ← String.toList_inj]
    simp
  let entered := s.entering line
  let quoted := entered.withCells (.text text :: s.machine.data.cells)
  have hfaces : entered.Faces "s\"" _ := faces_entering (isWord_name .sQuote) hparts
  have hquoted := hfaces.lineWith_sQuote hs hquote hroom htext
  have hevaluated := (faces_last (s := quoted) (isWord_name .evaluate)).lineWith_evaluate hs
    hevaluate rfl
  have hend := interpret_goingOn (s := entered.facing "") hs rfl text
  exact (hquoted.trans hevaluated).trans hend

/-- One level deeper, with room for it. -/
def deeper : Frame := ⟨(· ≠ .quit), [], True, fun _ => rfl⟩

/-- The state in which a line begins that has a cell more on the return stack. -/
def enteringDeeper (line : String) (s : Interpreter) : Interpreter :=
  (s.withRoom s.machine.data.capacity (s.machine.returns.capacity + 1)).entering line

/-- A line within a line has as many free cells as one without, if there is a cell more. So a text
does the same in both places. -/
theorem interpret_deeper (hs : s.HoldsOnly (· ≠ .quit)) (line text : String) (c : Cursor) :
    ∃ t', interpret text { s.enteringDeeper line with cursor := c } =
        ((interpret text s).1, { t' with cursor := c }) ∧
      Carried deeper s { s.enteringDeeper line with cursor := s.cursor }
        (interpret text s).2 t' := by
  let entered : Interpreter := { s.enteringDeeper line with cursor := s.cursor }
  have hfree : entered.machine.returns.free = s.machine.returns.free :=
    Nat.add_sub_add_right _ 1 _
  have hst : Roomier deeper s entered :=
    hs.roomier entered.trace (List.append_nil _).symm (Nat.le_refl _) (Nat.le_of_eq hfree.symm)
      fun _ => ⟨rfl, hfree⟩
  obtain ⟨t', hrun, hc⟩ := Part.carries (p := .line text) hst trivial
    (fun hquit => absurd rfl hquit) fun f _ => ⟨rfl, .inl trivial⟩
  have hrun : interpret text entered = ((interpret text s).1, t') := hrun
  refine ⟨t', ?_, hc⟩
  have hcursor := interpret_withCursor (s := entered) hst.hostsKeepReturns_right text c
  rwa [hrun] at hcursor

/-- The line around the text gives its cell back, and then nothing is left of it. -/
theorem Similar.sameRun {r r' : Except Stop Flow × Interpreter} {c : Cursor}
    (h : Similar r' (r.1, { t with cursor := c }))
    (hc : Carried deeper s { s.enteringDeeper line with cursor := s.cursor } r.2 t) :
    SameRun r (r'.1, r'.2.leaving s.machine.returns.depth s.cursor) := by
  have hmachine : r'.2.machine = t.machine := h.alike.machine.symm
  have hentered : r'.2.machine.returns = (s.enteringDeeper line).machine.returns :=
    (congrArg Machine.returns hmachine).trans hc.returns_right
  have hleft := returns_leaving (s := s.withRoom _ _) hentered
  refine ⟨h.result.symm, ?_, ?_, ?_, ?_, ?_⟩
  · exact (congrArg (·.data.cells) hmachine).trans (hc.roomier.data.cells_of_nil rfl)
  · exact (congrArg Stack.cells hleft).trans (congrArg Stack.cells hc.returns_left).symm
  · exact (congrArg Machine.memory hmachine).trans hc.roomier.memory
  · exact h.alike.dictionary.symm.trans hc.roomier.dictionary
  · exact h.alike.channel.symm.trans hc.roomier.channel

/-- To evaluate a text is to interpret it as a line, if there is a cell more for the line that
does so. -/
theorem evaluate_as_typed (hs : s.HoldsOnly (· ≠ .quit)) (hquote : s.Bound .sQuote)
    (hevaluate : s.Bound .evaluate) (hroom : s.machine.data.depth < s.machine.data.capacity)
    (text : String) (htext : '"' ∉ text.toList) :
    SameRun (interpret text s) (interpret ("s\" " ++ text ++ "\" evaluate")
      (s.withRoom s.machine.data.capacity (s.machine.returns.capacity + 1))) := by
  let t := s.withRoom s.machine.data.capacity (s.machine.returns.capacity + 1)
  let line := "s\" " ++ text ++ "\" evaluate"
  have hosts : s.HostsKeepReturns := hostsKeepReturns_of_eq hs.hosts
  show SameRun (interpret text s) (interpret line t)
  rw [interpret_eq line (s := t) hosts]
  cases hfull : t.machine.returns.isFull with
  | true =>
    -- if there is no cell for the line, there was none for the text either
    have hfull' : s.machine.returns.isFull = true := by
      simp only [Stack.isFull, decide_eq_true_eq] at hfull ⊢
      exact Nat.le_of_succ_le hfull
    rw [within_of_full hfull, interpret_eq text hosts, within_of_full hfull']
    exact ⟨rfl, rfl, rfl, rfl, rfl, rfl⟩
  | false =>
    have hquoted := lineWith_quoted (s := t) hosts hquote hevaluate
      (Stack.isFull_eq_false_iff.2 hroom) htext (rfl : line = _)
    obtain ⟨t', hinner, hc⟩ := interpret_deeper hs line text (Cursor.ofString "")
    have hline : Similar (lineWith interpret (t.entering line))
        ((interpret text s).1, { t' with cursor := Cursor.ofString "" }) := hinner ▸ hquoted
    rw [within_of_room hfull]
    exact hline.sameRun (s := s) hc

/-- A text that fails midway, and one for which there is no cell. -/
theorem evaluate_as_typed_fails :
    let words := Builtin.all.filter (· ≠ .quit)
    let s : Interpreter := { new 2 (.ofLines ["1 ."]) with dictionary := .of words }
    s.HoldsOnly (· ≠ .quit) ∧ s.Bound .sQuote ∧ s.Bound .evaluate ∧
    SameRun (interpret "2 dup * . nope" s)
      (interpret "s\" 2 dup * . nope\" evaluate" (s.withRoom 2 3)) ∧
    SameRun (interpret "bye" (s.withRoom 2 0))
      (interpret "s\" bye\" evaluate" (s.withRoom 2 1)) := by
  intro words s
  have hs : s.HoldsOnly (· ≠ .quit) := holdsOnly_new words (by decide) 2 _
  obtain ⟨hquote, hevaluate⟩ : s.Bound .sQuote ∧ s.Bound .evaluate := by decide +kernel
  have hfull : (s.withRoom 2 0).HoldsOnly (· ≠ .quit) := ⟨hs.hosts, hs.words, hs.data, hs.memory⟩
  exact ⟨hs, hquote, hevaluate,
    evaluate_as_typed hs hquote hevaluate (by decide) "2 dup * . nope" (by decide),
    evaluate_as_typed hfull hquote hevaluate (by decide) "bye" (by decide)⟩

end CellForth.Interpreter
