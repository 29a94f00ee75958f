import CellForth.Proofs.Casing
import CellForth.Proofs.Evaluation
import CellForth.Proofs.Loading
import CellForth.Proofs.Printing

/-!
# Characters by their codes

`emit` takes an integer and writes the character whose code it is. Negative integers, the surrogates
and the integers above the last character are no codes (`NoScalar`), and `emit` accepts exactly the
others (`scalar?_eq_some_iff`, `scalar?_eq_none_iff`). It makes no difference if only the low 32
bits are looked up, as long as the whole integer is compared with the largest number that they can
hold (`lowScalar?_eq`).

So a text can be written by a line with the codes of its characters, each with `emit` behind it, and
an integer that is no code is refused (`emit_exact`). The line is run by its words as a line of
numbers is: a code is pushed and `emit` takes it off again (`Faces.lineWith_emit`), so one free cell
is enough for texts of any length (`lineWith_of_codes`).
-/

namespace CellForth

/-- Words with a space between them are read back as these words. -/
theorem Text.words_intercalate {ws : List String} (h : ∀ w ∈ ws, IsWord w) :
    words (" ".intercalate ws) = ws := by
  induction ws with
  | nil => exact words_of_blank (by simp)
  | cons w ws ih =>
    obtain ⟨hw, hws⟩ := List.forall_mem_cons.1 h
    cases ws with
    | nil =>
      rw [String.intercalate_singleton]
      exact (spaced_of_isWord hw).words_eq
    | cons w' ws =>
      rw [String.intercalate_cons_cons, String.append_assoc, words_append_space hw, ih hws]

/-- What was written is put out in order. -/
theorem Channel.outputSince_writing (texts : List String) (c : Channel) :
    (c.writing texts).outputSince c.calls.length = String.join texts := by
  have hcalls : (c.writing texts).calls.reverse.drop c.calls.length = texts.map Call.wrote := by
    rw [writing, List.reverse_append, List.reverse_reverse, List.drop_left' c.calls.length_reverse]
  rw [outputSince, hcalls, List.map_map]
  congr 1
  exact List.map_id' texts

theorem Text.join_map_toString (text : String) :
    String.join (text.toList.map Char.toString) = text := by
  rw [← String.toList_inj, String.toList_join]
  simp [List.flatMap_map, Char.toString]

namespace Interpreter

variable {s : Interpreter} {n : Int64} {below : List Value}

/-! ## Codes of characters -/

/-- The integers that are no codes of characters: those below the first and above the last code, and
the surrogates between them. -/
def NoScalar (n : Int) : Prop :=
  n < 0 ∨ 0xD800 ≤ n ∧ n ≤ 0xDFFF ∨ 0x10FFFF < n

theorem scalar?_eq_some_iff {c : Char} : scalar? n = some c ↔ n.toInt = c.toNat := by
  unfold scalar?
  constructor
  · intro h
    split at h
    · next hn =>
      cases h
      rw [Text.toNat_ofNat hn.2]
      omega
    · cases h
  · intro h
    have hc : n.toInt.toNat = c.toNat := by omega
    rw [hc, if_pos ⟨by omega, c.valid⟩, Char.ofNat_toNat]

/-- The integers that stand for no character are those that are no codes. -/
theorem scalar?_eq_none_iff : scalar? n = none ↔ NoScalar n.toInt := by
  unfold scalar? NoScalar Nat.isValidChar
  split <;> simp <;> omega

/-- The character whose code the low 32 bits of an integer are, if the integer has no others. -/
def lowScalar? (n : Int64) : Option Char :=
  let low := n.toUInt64.toUInt32.toNat
  if low.isValidChar ∧ 0 ≤ n ∧ n ≤ 0xFFFFFFFF then some (Char.ofNat low) else none

/-- The low bits decide only for integers that have no others, and then they are the code. -/
theorem lowScalar?_eq (n : Int64) : lowScalar? n = scalar? n := by
  have hrange : 0 ≤ n ∧ n ≤ 0xFFFFFFFF ↔ 0 ≤ n.toInt ∧ n.toInt ≤ 0xFFFFFFFF := by
    rw [Int64.le_iff_toInt_le, Int64.le_iff_toInt_le]
    rfl
  unfold lowScalar? scalar?
  by_cases hn : 0 ≤ n ∧ n ≤ 0xFFFFFFFF
  · have hlow : n.toUInt64.toUInt32.toNat = n.toInt.toNat := by
      rw [UInt64.toNat_toUInt32, Int64.toNat_toUInt64_of_le hn.1]
      have hlt : n.toInt.toNat < 2 ^ 32 := by
        rw [hrange] at hn
        omega
      exact Nat.mod_eq_of_lt hlt
    simp only [hlow, hn, and_true, (hrange.1 hn).1, true_and]
  · rw [if_neg (fun h => hn h.2), if_neg]
    rintro ⟨hnonneg, hvalid⟩
    rw [hrange] at hn
    unfold Nat.isValidChar at hvalid
    omega

/-! ## Writing one character -/

theorem pop_of_cells {v : Value} (hcells : s.machine.data.cells = v :: below) :
    onMachine Machine.pop s = (.ok v, s.withCells below) :=
  onMachine_of (Machine.pop_of_cons hcells)

theorem emit_of_scalar {c : Char} (hcells : s.machine.data.cells = .int n :: below)
    (hn : scalar? n = some c) (hchannel : s.channel.breakage .writing = none) :
    emit s = (.ok (), { s.withCells below with channel := s.channel.writing [c.toString] }) := by
  rw [emit, bind_of_ok (pop_of_cells hcells)]
  simp only [hn]
  exact onChannel_of (s := s.withCells below) (Channel.write_of_none hchannel c.toString)

/-- An integer that is no code is taken off, and nothing is written. -/
theorem emit_of_noScalar (hcells : s.machine.data.cells = .int n :: below)
    (hn : scalar? n = none) :
    emit s = (.error (.fault ⟨.outOfRange, "emit: " ++ toString n.toInt⟩), s.withCells below) := by
  rw [emit, bind_of_ok (pop_of_cells hcells)]
  simp only [hn]
  rfl

/-- `emit` writes the character whose code is on top, and takes the code off. -/
theorem Faces.lineWith_emit {after : String} {c : Char} (h : s.Faces "emit" after)
    (hs : s.HostsKeepReturns) (hb : s.Bound .emit)
    (hcells : s.machine.data.cells = .int n :: below) (hn : scalar? n = some c)
    (hchannel : s.channel.breakage .writing = none) :
    Similar (Interpreter.lineWith interpret s) (Interpreter.lineWith interpret
      ({ s.withCells below with channel := s.channel.writing [c.toString] }.facing after)) := by
  have hline := h.lineWith_of_made (b := .emit) hs hb .emit rfl
  rwa [thenProceed_of_ok (emit_of_scalar (s := s.facing after) hcells hn hchannel)] at hline

theorem Faces.lineWith_emit_of_noScalar {after : String} (h : s.Faces "emit" after)
    (hs : s.HostsKeepReturns) (hb : s.Bound .emit)
    (hcells : s.machine.data.cells = .int n :: below) (hn : scalar? n = none) :
    Similar (Interpreter.lineWith interpret s)
      (.error (.fault ⟨.outOfRange, "emit: " ++ toString n.toInt⟩),
        (s.withCells below).facing after) := by
  have hline := h.lineWith_of_made (b := .emit) hs hb .emit rfl
  rwa [thenProceed_of_error (emit_of_noScalar (s := s.facing after) hcells hn)] at hline

/-- An integer that is no code is pushed, and taken off by the word that refuses it. -/
theorem interpret_noScalar (hs : s.HostsKeepReturns) (hb : s.Bound .emit)
    (hcell : s.machine.data.isFull = false) (hroom : s.machine.returns.isFull = false)
    (hn : scalar? n = none) :
    Similar (interpret (toString n.toInt ++ " emit") s)
      (.error (.fault ⟨.outOfRange, "emit: " ++ toString n.toInt⟩), s) := by
  have hparts : toString n.toInt ++ " emit" = toString n.toInt ++ (" " ++ "emit") := rfl
  let entered := s.entering (toString n.toInt ++ " emit")
  let pushed := entered.withCells (.int n :: s.machine.data.cells)
  have hfaces : entered.Faces (toString n.toInt) (" " ++ "emit") :=
    faces_entering (Value.isWord_render n) hparts
  have hpush := hfaces.lineWith_number hs (Lexeme.classify_toString n) hcell
  have hrefused := (faces_last (s := pushed) (isWord_name .emit)).lineWith_emit_of_noScalar hs hb
    rfl hn
  exact (interpret_of_lineWith hs hroom (hpush.trans hrefused) rfl).trans
    ⟨rfl, rfl, rfl, rfl, rfl, rfl⟩

/-! ## Writing a text -/

/-- The codes of the characters of a text, each with `emit` behind it. -/
def emitLine (text : String) : String :=
  " ".intercalate (text.toList.flatMap fun c => [toString c.toNat, "emit"])

/-- The code of a character fits a cell. -/
theorem toInt_code (c : Char) : (Int64.ofNat c.toNat).toInt = c.toNat := by
  have hvalid : c.toNat.isValidChar := c.valid
  unfold Nat.isValidChar at hvalid
  exact Int64.toInt_ofNat_of_lt (by omega)

theorem render_code (c : Char) : (Value.int (.ofNat c.toNat)).render = toString c.toNat := by
  rw [Value.render, toInt_code]
  rfl

theorem words_emitLine (text : String) :
    Text.words (emitLine text) = text.toList.flatMap fun c => [toString c.toNat, "emit"] := by
  refine Text.words_intercalate fun w hw => ?_
  obtain ⟨c, -, hw⟩ := List.mem_flatMap.1 hw
  simp only [List.mem_cons, List.not_mem_nil, or_false] at hw
  rcases hw with rfl | rfl
  · rw [← render_code]
    exact Value.isWord_render _
  · exact isWord_name .emit

/-- A line of codes writes their characters, with one free cell for all of them. -/
theorem lineWith_of_codes {cs : List Char} {text : String} (hs : s.HostsKeepReturns)
    (hb : s.Bound .emit) (hcell : s.machine.data.isFull = false)
    (hchannel : s.channel.breakage .writing = none)
    (h : Text.Spaced text (cs.flatMap fun c => [toString c.toNat, "emit"]))
    (hrest : s.cursor.rest = Utf8.encode text) :
    Similar (lineWith interpret s) (.ok .proceed,
      { s with channel := s.channel.writing (cs.map Char.toString) }.facing "") := by
  induction cs generalizing s text with
  | nil => exact lineWith_of_spaced_nil hs h hrest
  | cons c cs ih =>
    obtain ⟨after, hafter, hcode⟩ := faces_of_spaced h hrest
    rw [← render_code] at hcode
    have hpush := hcode.lineWith_number hs (Lexeme.classify_toString _) hcell
    let pushed := (s.withCells (.int (.ofNat c.toNat) :: s.machine.data.cells)).facing after
    obtain ⟨after', hafter', hemit⟩ := faces_of_spaced (s := pushed) hafter rfl
    have hwrite := hemit.lineWith_emit hs hb rfl (scalar?_eq_some_iff.2 (toInt_code c)) hchannel
    let written := { s with channel := s.channel.writing [c.toString] }.facing after'
    have hothers := ih (s := written) hs hb hcell hchannel hafter' rfl
    rw [List.map_cons, ← List.singleton_append, Channel.writing_append]
    exact (hpush.trans hwrite).trans hothers

/-- A text is written by the line of its codes, one call for each character, and nothing else
happens. An integer that is no code is refused: it is taken off, and no call is made. -/
theorem emit_exact (hs : s.HostsKeepReturns) (hb : s.Bound .emit)
    (hcell : s.machine.data.isFull = false) (hroom : s.machine.returns.isFull = false)
    (hchannel : s.channel.breakage .writing = none) :
    (∀ text : String,
      let channel := s.channel.writing (text.toList.map Char.toString)
      Similar (interpret (emitLine text) s) (.ok .proceed, { s with channel }) ∧
      channel.outputSince s.channel.calls.length = text) ∧
    (∀ m : Int64, NoScalar m.toInt →
      Similar (interpret (toString m.toInt ++ " emit") s)
        (.error (.fault ⟨.outOfRange, "emit: " ++ toString m.toInt⟩), s)) ∧
    ∀ m : Int64, lowScalar? m = scalar? m := by
  refine ⟨fun text => ⟨?_, ?_⟩, fun m hm => ?_, lowScalar?_eq⟩
  · have hspaced := Text.spaced_words (emitLine text)
    rw [words_emitLine] at hspaced
    have hline := lineWith_of_codes (s := s.entering (emitLine text)) hs hb hcell hchannel hspaced
      rfl
    exact (interpret_of_lineWith hs hroom hline rfl).trans ⟨rfl, rfl, rfl, rfl, rfl, rfl⟩
  · rw [Channel.outputSince_writing, Text.join_map_toString]
  · exact interpret_noScalar hs hb hcell hroom (scalar?_eq_none_iff.2 hm)

/-- A null, a quote, a character of four bytes and the two around the surrogates, and an integer
whose low 32 bits are the code of a letter. -/
theorem emit_exact_lowBits :
    let s := new 1 (.ofLines ["1 ."])
    let text := "\x00\"😀\uD7FF\uE000"
    s.HostsKeepReturns ∧ s.Bound .emit ∧ s.machine.data.isFull = false ∧
    s.machine.returns.isFull = false ∧ s.channel.breakage .writing = none ∧
    Similar (interpret "0 emit 34 emit 128512 emit 55295 emit 57344 emit" s)
      (.ok .proceed, { s with channel := s.channel.writing (text.toList.map Char.toString) }) ∧
    Similar (interpret "4294967361 emit" s)
      (.error (.fault ⟨.outOfRange, "emit: 4294967361"⟩), s) ∧
    Similar (interpret "-1 emit" s) (.error (.fault ⟨.outOfRange, "emit: -1"⟩), s) := by
  intro s text
  have hs : s.HostsKeepReturns := hostsKeepReturns_new 1 _
  have hb : s.Bound .emit := by decide +kernel
  have hline : emitLine text = "0 emit 34 emit 128512 emit 55295 emit 57344 emit" := by
    decide +kernel
  have hemit := emit_exact hs hb rfl rfl rfl
  have hhigh := hemit.2.1 4294967361 (by unfold NoScalar; decide)
  have hnegative := hemit.2.1 (-1) (by unfold NoScalar; decide)
  exact ⟨hs, hb, rfl, rfl, rfl, hline ▸ (hemit.1 text).1, hhigh, hnegative⟩

end Interpreter
end CellForth
