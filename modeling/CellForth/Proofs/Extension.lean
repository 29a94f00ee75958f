import CellForth.Proofs.Calls

/-!
# Longer lines and longer inputs

A run is compared with the same run where there is more to read: more bytes behind the line at hand
(`extended`), or more lines behind those still to be taken (`supplied`).

A word that looks for a delimiter can run into the end of its line, and then it does something else
on a longer one. But then nothing of the line is left, and no word of it can leave. So if the added
bytes begin with a blank, a run that leaves is the same on the longer line (`Runs.extended`).

Lines that are added matter only to a read loop that was told that no line is left. Every other run
is the same, and those lines stay where they are (`Runs.supplied`).
-/

namespace CellForth

namespace Cursor

variable {tail : List UInt8} {c : Cursor} {d : UInt8}

/-- The cursor with more bytes behind the line. -/
def extended (tail : List UInt8) (c : Cursor) : Cursor :=
  ⟨c.position, c.rest ++ tail⟩

/-- Going forward within the line is the same on a longer line. -/
theorem advance_extended {n : Nat} (h : n ≤ c.rest.length) :
    (c.extended tail).advance n = (c.advance n).extended tail := by
  simp [advance, extended, List.take_append_of_le_length h, List.drop_append_of_le_length h]

/-- The cursor behind the delimiters in front of it. -/
def skipping (d : UInt8) (c : Cursor) : Cursor :=
  c.advance (c.rest.takeWhile (separates d)).length

/-- Skipping drops the delimiters in front and no more. -/
theorem rest_skipping (d : UInt8) (c : Cursor) :
    (c.skipping d).rest = c.rest.dropWhile (separates d) := by
  have hdrop : (c.rest.takeWhile (separates d) ++ c.rest.dropWhile (separates d)).drop
      (c.rest.takeWhile (separates d)).length = c.rest.dropWhile (separates d) := List.drop_left
  rwa [List.takeWhile_append_dropWhile] at hdrop

theorem readWord_eq (d : UInt8) (c : Cursor) :
    c.readWord d =
      let word := (c.skipping d).rest.takeWhile (!separates d ·)
      (if word.isEmpty then none else some (Utf8.lossy word), (c.skipping d).advance word.length) :=
  rfl

/-- What ends inside the bytes does not depend on those behind them. -/
theorem takeWhile_append_of_lt {p : UInt8 → Bool} {bytes : List UInt8}
    (h : (bytes.takeWhile p).length < bytes.length) :
    (bytes ++ tail).takeWhile p = bytes.takeWhile p := by
  rw [List.takeWhile_append, if_neg (Nat.ne_of_lt h)]

/-- What is taken does not reach into bytes of which nothing would be taken. -/
theorem takeWhile_append_of_nil {p : UInt8 → Bool} (bytes : List UInt8)
    (h : tail.takeWhile p = []) : (bytes ++ tail).takeWhile p = bytes.takeWhile p := by
  rw [List.takeWhile_append]
  split
  · next hlength =>
    rw [h, List.append_nil]
    exact ((List.takeWhile_prefix p).eq_of_length hlength).symm
  · rfl

/-- If something is left behind the delimiters, and the word ends where it did, reading is the same
on a longer line. -/
theorem readWord_extended_of_ne (hskip : (c.skipping d).rest ≠ [])
    (hword : ((c.skipping d).rest ++ tail).takeWhile (!separates d ·) =
      (c.skipping d).rest.takeWhile (!separates d ·)) :
    (c.extended tail).readWord d = ((c.readWord d).1, (c.readWord d).2.extended tail) := by
  have hle : (c.rest.takeWhile (separates d)).length ≤ c.rest.length :=
    (List.takeWhile_prefix _).length_le
  have hlt : (c.rest.takeWhile (separates d)).length < c.rest.length := by
    refine Nat.lt_of_le_of_ne hle fun heq => hskip ?_
    show c.rest.drop (c.rest.takeWhile (separates d)).length = []
    rw [heq, List.drop_length]
  have hstart : (c.extended tail).skipping d = (c.skipping d).extended tail := by
    show (c.extended tail).advance ((c.rest ++ tail).takeWhile (separates d)).length = _
    rw [takeWhile_append_of_lt hlt]
    exact advance_extended hle
  have hword' : ((c.skipping d).extended tail).rest.takeWhile (!separates d ·) =
      (c.skipping d).rest.takeWhile (!separates d ·) := hword
  simp only [readWord_eq]
  rw [hstart, hword', advance_extended (List.takeWhile_prefix _).length_le]

/-- Behind the last delimiter there is no word. -/
theorem readWord_of_skipping_nil (h : (c.skipping d).rest = []) :
    (c.readWord d).1 = none ∧ (c.readWord d).2.rest = [] := by
  simp [readWord_eq, h]

/-- A word that is read in front of a blank is the same on a longer line. -/
theorem readWord_extended {word : String} {b : UInt8} (hb : tail.head? = some b)
    (hblank : Byte.isBlank b = true) (h : (c.readWord Byte.space).1 = some word) :
    (c.extended tail).readWord Byte.space =
      (some word, (c.readWord Byte.space).2.extended tail) := by
  have hskip : (c.skipping Byte.space).rest ≠ [] := by
    intro hnil
    rw [(readWord_of_skipping_nil hnil).1] at h
    cases h
  have htail : tail.takeWhile (!separates Byte.space ·) = [] := by
    cases tail with
    | nil => rfl
    | cons b' tail =>
      cases hb
      exact List.takeWhile_cons_of_neg (by simp [separates, hblank])
  rw [readWord_extended_of_ne hskip (takeWhile_append_of_nil _ htail), h]

/-- Reading a word is the same on a longer line, or it ran into the end of this one. -/
theorem readWord_extended_or (tail : List UInt8) (d : UInt8) (c : Cursor) :
    (c.extended tail).readWord d = ((c.readWord d).1, (c.readWord d).2.extended tail) ∨
    (c.readWord d).2.rest = [] := by
  have hle : ((c.skipping d).rest.takeWhile (!separates d ·)).length ≤ (c.skipping d).rest.length :=
    (List.takeWhile_prefix _).length_le
  rcases Nat.lt_or_eq_of_le hle with hlt | heq
  · refine Or.inl (readWord_extended_of_ne ?_ (takeWhile_append_of_lt hlt))
    exact List.ne_nil_of_length_pos (Nat.zero_lt_of_lt hlt)
  · refine Or.inr ?_
    simp only [readWord_eq, rest_advance]
    rw [heq, List.drop_length]

theorem readWord_of_nil (d : UInt8) (h : c.rest = []) :
    (c.readWord d).1 = none ∧ (c.readWord d).2.rest = [] :=
  readWord_of_skipping_nil (by rw [rest_skipping, h]; rfl)

/-- If no word is left, nothing is left. -/
theorem rest_of_readWord_none (h : (c.readWord d).1 = none) : (c.readWord d).2.rest = [] := by
  have hnil : (c.skipping d).rest = [] := by
    have hhead := List.head?_dropWhile_not (separates d) c.rest
    rw [← rest_skipping] at hhead
    cases hrest : (c.skipping d).rest with
    | nil => rfl
    | cons b rest =>
      rw [hrest] at hhead
      have hword : (b :: rest).takeWhile (!separates d ·) = b :: rest.takeWhile (!separates d ·) :=
        List.takeWhile_cons_of_pos (by simpa using hhead)
      simp only [readWord_eq, hrest, hword] at h
      cases h
  exact (readWord_of_skipping_nil hnil).2

/-- Reading up to a delimiter is the same on a longer line, or it ran into the end of this one. -/
theorem parse_extended_or (tail : List UInt8) (d : UInt8) (c : Cursor) :
    (c.extended tail).parse d = ((c.parse d).1, (c.parse d).2.extended tail) ∨
    (c.parse d).2.rest = [] := by
  cases hrest : c.rest with
  | nil => exact Or.inr (by simp [parse, hrest])
  | cons b rest =>
    have hone : 1 ≤ c.rest.length := by simp [hrest]
    have hhead : (c.extended tail).rest.head? = c.rest.head? := by simp [extended, hrest]
    generalize hstart : (if c.rest.head? = some Byte.space then c.advance 1 else c) = start
    have hstart' : (if (c.extended tail).rest.head? = some Byte.space then
        (c.extended tail).advance 1 else c.extended tail) = start.extended tail := by
      rw [hhead, ← hstart, advance_extended hone]
      split <;> rfl
    have hle : (start.rest.takeWhile (· ≠ d)).length ≤ start.rest.length :=
      (List.takeWhile_prefix _).length_le
    simp only [parse, hstart, hstart']
    rcases Nat.lt_or_eq_of_le hle with hlt | heq
    · have htext : (start.extended tail).rest.takeWhile (· ≠ d) = start.rest.takeWhile (· ≠ d) :=
        takeWhile_append_of_lt hlt
      exact Or.inl (by rw [htext, advance_extended hlt])
    · exact Or.inr (by rw [rest_advance, heq]; simp)

end Cursor

namespace Channel

variable {α : Type} {more : List String} {c c' : Channel}

/-- The channel with more lines behind those still to be taken. -/
def supplied (more : List String) (c : Channel) : Channel :=
  { c with unread := c.unread ++ more }

/-- A call that leaves the lines behind alone does not see them. -/
theorem answer_supplied (more : List String) (call : Call) (a : α) (rest : List String)
    (c : Channel) : answer call a (rest ++ more) (c.supplied more) =
      ((answer call a rest c).1, (answer call a rest c).2.supplied more) := by
  have hbreakage : (c.supplied more).breakage call.direction = c.breakage call.direction := by
    cases call.direction <;> rfl
  simp only [answer, hbreakage]
  cases Breakage.count (c.breakage call.direction) <;> rfl

theorem write_supplied (more : List String) (text : String) (c : Channel) :
    write text (c.supplied more) = ((write text c).1, (write text c).2.supplied more) :=
  answer_supplied more _ _ _ c

theorem report_supplied (more : List String) (text : String) (c : Channel) :
    report text (c.supplied more) = ((report text c).1, (report text c).2.supplied more) :=
  answer_supplied more _ _ _ c

/-- A line that is taken is the same with more lines behind it. -/
theorem read_supplied_of_some {line : String} (h : read c = (.ok (some line), c')) :
    read (c.supplied more) = (.ok (some line), c'.supplied more) := by
  have hu := unread_of_read_some h
  have hu' : (c.supplied more).unread = line :: (c'.unread ++ more) := by
    rw [supplied, hu, List.cons_append]
  rw [read_of_cons hu] at h
  rw [read_of_cons hu', answer_supplied, h]

/-- Whether a read is refused does not depend on the lines. -/
theorem read_eq_error_iff {f : Fault} : read c = (.error f, c') ↔
    ∃ reason, Breakage.count c.readBreakage = .error reason ∧ f = ⟨.io, reason⟩ ∧
      c' = c.recording .refusedRead c.unread := by
  have hanswer : ∀ (call : Call) (a : Option String) (rest : List String),
      call.direction = .reading → (answer call a rest c = (.error f, c') ↔
        ∃ reason, Breakage.count c.readBreakage = .error reason ∧ f = ⟨.io, reason⟩ ∧
          c' = c.recording .refusedRead c.unread) := by
    intro call a rest hcall
    simp only [answer, hcall, breakage, Direction.refusal]
    cases Breakage.count c.readBreakage with
    | ok later =>
      constructor
      · rintro ⟨⟩
      · rintro ⟨_, ⟨⟩, _⟩
    | error reason =>
      constructor
      · rintro ⟨⟩
        exact ⟨reason, rfl, rfl, rfl⟩
      · rintro ⟨_, ⟨⟩, rfl, rfl⟩
        rfl
  cases hu : c.unread with
  | nil => rw [read_of_nil hu, hanswer _ _ _ rfl, hu]
  | cons line rest => rw [read_of_cons hu, hanswer _ _ _ rfl, hu]

theorem read_supplied_of_error {f : Fault} (h : read c = (.error f, c')) :
    read (c.supplied more) = (.error f, c'.supplied more) := by
  obtain ⟨reason, hcount, rfl, rfl⟩ := read_eq_error_iff.1 h
  exact read_eq_error_iff.2 ⟨reason, hcount, rfl, rfl⟩

end Channel

namespace Interpreter

variable {α β : Type} {φ : Interpreter → Interpreter} {s s' s₁ : Interpreter} {p : Part} {i : Item}
  {es : List Event} {x : Except Fault Flow} {tail : List UInt8}

/-! ## Runs that do not see a change -/

/-- A run that does not see a change to the state. -/
def Ignores (φ : Interpreter → Interpreter) (act : Run α) (s : Interpreter) : Prop :=
  act (φ s) = ((act s).1, φ (act s).2)

namespace Ignores

variable {act : Run α} {next : α → Run β}

theorem of_eq {r : Except Stop α} (h : Ignores φ act s) (hact : act s = (r, s')) :
    act (φ s) = (r, φ s') := by
  rw [h, hact]

/-- If no part of a run sees a change, the whole does not. -/
theorem bind (h : Ignores φ act s)
    (hnext : ∀ a s', act s = (.ok a, s') → Ignores φ (next a) s') :
    Ignores φ (act >>= next) s := by
  unfold Ignores
  rw [bind_apply, bind_apply, h]
  rcases hact : act s with ⟨e | a, s'⟩
  · rfl
  · exact hnext a s' hact

/-- A run that does not see a change makes the same calls. -/
theorem callsOf (h : Ignores φ act s) (hφ : ∀ s, (φ s).channel.calls = s.channel.calls) :
    callsOf act (φ s) = callsOf act s := by
  rw [Interpreter.callsOf, Interpreter.callsOf, h, hφ, hφ]

end Ignores

/-- An item that does not see a change has the same events. -/
theorem Item.events_eq (h : Ignores φ i.lead s)
    (hφ : ∀ s, (φ s).channel.calls = s.channel.calls) : i.events (φ s) = i.events s := by
  rw [Item.events, Item.events, h.callsOf hφ]

theorem acknowledgement_eq (line : String) (h : Ignores φ (acknowledge x) s)
    (hφ : ∀ s, (φ s).channel.calls = s.channel.calls) :
    acknowledgement line x (φ s) = acknowledgement line x s := by
  rw [acknowledgement, acknowledgement, h.callsOf hφ]

/-! ## Longer lines -/

/-- The state with more bytes behind the line at hand. -/
def extended (tail : List UInt8) (s : Interpreter) : Interpreter :=
  { s with cursor := s.cursor.extended tail }

/-- A step only reads on in the line. -/
theorem Step.rest {act : Run α} (h : Step act) (s : Interpreter) :
    (act s).2.cursor.rest <:+ s.cursor.rest := by
  cases h with
  | readWord d => exact Cursor.rest_readWord d s.cursor
  | parse d => exact Cursor.rest_parse d s.cursor
  | _ => exact List.suffix_rfl

theorem Made.rest {act : Run α} (h : Made act) (s : Interpreter) :
    (act s).2.cursor.rest <:+ s.cursor.rest := by
  induction h generalizing s with
  | pure a => exact List.suffix_rfl
  | step h => exact h.rest s
  | @bind _ _ act next _ _ ih ihnext =>
    have hact := ih s
    rw [bind_apply]
    rcases hx : act s with ⟨e | a, s'⟩ <;> rw [hx] at hact
    · exact hact
    · exact (ihnext a s').trans hact

/-- A step is the same on a longer line, or it ran into the end of this one. -/
theorem Step.ignores_extended {act : Run α} (h : Step act) (tail : List UInt8) (s : Interpreter) :
    Ignores (extended tail) act s ∨ (act s).2.cursor.rest = [] := by
  cases h with
  | readWord d =>
    refine (Cursor.readWord_extended_or tail d s.cursor).imp_left fun h => ?_
    simp only [Ignores, Interpreter.readWord, extended, h]
  | parse d =>
    refine (Cursor.parse_extended_or tail d s.cursor).imp_left fun h => ?_
    simp only [Ignores, Interpreter.parse, extended, h]
  | _ => exact Or.inl rfl

/-- What is made of steps is the same on a longer line, or one of the steps ran into the end of this
one. -/
theorem Made.ignores_extended {act : Run α} (h : Made act) (tail : List UInt8) (s : Interpreter) :
    Ignores (extended tail) act s ∨ (act s).2.cursor.rest = [] := by
  induction h generalizing s with
  | pure a => exact Or.inl rfl
  | step h => exact h.ignores_extended tail s
  | @bind _ _ act next _ hnext ih ihnext =>
    rcases hx : act s with ⟨e | a, s'⟩
    · rw [bind_of_error hx]
      rcases ih s with h | h
      · exact Or.inl (h.bind fun a _ ha => by rw [hx] at ha; cases ha)
      · exact Or.inr (by rwa [hx] at h)
    · rw [bind_of_ok hx]
      rcases ih s with h | h
      · refine (ihnext a s').imp_left fun hnext' => h.bind fun _ _ ha => ?_
        rw [hx] at ha
        cases ha
        exact hnext'
      · rw [hx] at h
        exact Or.inr (List.eq_nil_of_suffix_nil (h ▸ (hnext a).rest s'))

/-- What an item does itself is the same on a longer line, unless it is a plain token. -/
theorem Item.ignores_extended (tail : List UInt8) (s : Interpreter)
    (hi : ∀ t, i = .token t → t.isPlain = false) : Ignores (extended tail) i.lead s := by
  cases i with
  | word text =>
    rcases hc : Lexeme.classify text with f | (n | name) <;> simp only [Item.lead, hc]
    · rfl
    · exact .bind rfl fun _ _ _ => rfl
    · refine .bind (.bind rfl fun entry _ _ => ?_) fun _ _ _ => rfl
      cases entry <;> rfl
  | token t =>
    have ht := hi t rfl
    by_cases he : t = .builtin .execute
    · subst he
      refine .bind rfl fun _ _ _ => .bind rfl fun v _ _ => ?_
      cases v <;> rfl
    obtain rfl | rfl | rfl := Token.eq_of_not_isPlain (by simp [ht]) he
    · refine .bind rfl fun _ _ _ => .bind rfl fun v _ _ => ?_
      cases v <;> rfl
    · exact .bind rfl fun _ _ _ => .bind rfl fun _ _ _ => rfl
    · rfl

theorem acknowledge_ignores_extended (tail : List UInt8) (x : Except Fault Flow)
    (s : Interpreter) : Ignores (extended tail) (acknowledge x) s := by
  rcases x with f | (- | -)
  · simp only [acknowledge]
    split
    · rfl
    · exact .bind (.bind rfl fun _ _ _ => rfl) fun _ _ _ => rfl
  · exact .bind rfl fun _ _ _ => rfl
  · rfl

/-- Whether a part reads on in the line at hand. -/
def Part.readsLine : Part → Bool
  | .rest => true
  | .item _ => true
  | .line _ => false
  | .loop => false

/-- Where nothing of a line is left, it comes to its end. -/
theorem Runs.rest_of_nil (h : Runs .rest s es x s') (hnil : s.cursor.rest = []) :
    s'.cursor.rest = [] ∧ x = .ok .proceed := by
  obtain ⟨hnone, hrest⟩ := Cursor.readWord_of_nil Byte.space hnil
  cases h with
  | noWord h => exact ⟨(congrArg (·.2.cursor.rest) h).symm.trans hrest, rfl⟩
  | nextWord h _ _ =>
    have hsome := congrArg (·.1.toOption) h
    simp [readWord, hnone, Except.toOption] at hsome
  | lastWord h _ _ =>
    have hsome := congrArg (·.1.toOption) h
    simp [readWord, hnone, Except.toOption] at hsome

theorem readWord_extended {b : UInt8} {text : String} (hb : tail.head? = some b)
    (hblank : Byte.isBlank b = true) (h : readWord Byte.space s = (.ok (some text), s₁)) :
    readWord Byte.space (s.extended tail) = (.ok (some text), s₁.extended tail) := by
  have htext : (s.cursor.readWord Byte.space).1 = some text := by injection congrArg Prod.fst h
  have hs₁ : { s with cursor := (s.cursor.readWord Byte.space).2 } = s₁ := congrArg Prod.snd h
  simp only [readWord, ← hs₁, Interpreter.extended, Cursor.readWord_extended hb hblank htext]

/-- A token that hands over is not plain, and so does not read in the line. -/
theorem Item.ignores_extended_of_handsOver (tail : List UInt8)
    (h : i.lead s = (.ok (.inr p), s₁)) : Ignores (extended tail) i.lead s := by
  refine Item.ignores_extended tail s fun t ht => ?_
  subst ht
  rcases Item.eq_of_token_handsOver h with ⟨_, rfl, -⟩ | ⟨_, rfl, -⟩ | ⟨rfl, -⟩ <;> rfl

/-- If the bytes behind the line begin with a blank, a run is the same on the longer line, or it ran
into the end of the line and did not leave. -/
theorem Runs.extended {b : UInt8} (hb : tail.head? = some b) (hblank : Byte.isBlank b = true)
    (h : Runs p s es x s') :
    Runs p (s.extended tail) es x (s'.extended tail) ∨
    p.readsLine = true ∧ s'.cursor.rest = [] ∧ x ≠ .ok .exit := by
  have hevents : ∀ {i : Item} {s : Interpreter}, Ignores (Interpreter.extended tail) i.lead s →
      i.events (s.extended tail) = i.events s := fun h => Item.events_eq h fun _ => rfl
  have hanswer : ∀ line x s, acknowledgement line x (s.extended tail) = acknowledgement line x s :=
    fun line x s => acknowledgement_eq line (acknowledge_ignores_extended tail x s) fun _ => rfl
  induction h with
  | full h => exact Or.inl (.full h)
  | @line s s' text _ _ h hrest _ => exact Or.inl (@Runs.line (s.extended tail) s' text _ _ h hrest)
  | @noWord s s' h =>
    -- To find no word is to have read the line to its end.
    have hnone : (s.cursor.readWord Byte.space).1 = none := by injection congrArg Prod.fst h
    refine Or.inr ⟨rfl, ?_, nofun⟩
    rw [← congrArg (·.2.cursor.rest) h]
    exact Cursor.rest_of_readWord_none hnone
  | nextWord h _ hrest ih ih' =>
    rcases ih with ih | ⟨-, hnil, -⟩
    · exact ih'.imp_left (.nextWord (readWord_extended hb hblank h) ih)
    -- The word ran into the end of the line, so it was the last one.
    · obtain ⟨hnil', rfl⟩ := hrest.rest_of_nil hnil
      exact Or.inr ⟨rfl, hnil', nofun⟩
  | lastWord h _ hx ih =>
    exact ih.imp (fun ih => .lastWord (readWord_extended hb hblank h) ih hx)
      fun ⟨_, hrest, hx⟩ => ⟨rfl, hrest, hx⟩
  | @done s s' i flow h =>
    -- Only `bye` leaves, and it does not read in the line.
    rcases Item.eq_of_done h with ⟨rfl, rfl⟩ | ⟨-, -, rfl⟩
    · have hi := Item.ignores_extended (i := .token (.builtin .bye)) tail s
        fun t ht => by cases ht; rfl
      rw [← hevents hi]
      exact Or.inl (.done (hi.of_eq h))
    · rcases i.made_lead.ignores_extended tail s with hi | hrest
      · rw [← hevents hi]
        exact Or.inl (.done (hi.of_eq h))
      · rw [h] at hrest
        exact Or.inr ⟨rfl, hrest, nofun⟩
  | @refused s s' i f h =>
    rcases i.made_lead.ignores_extended tail s with hi | hrest
    · rw [← hevents hi]
      exact Or.inl (.refused (hi.of_eq h))
    · rw [h] at hrest
      exact Or.inr ⟨rfl, hrest, nofun⟩
  | handsOver h _ ih =>
    have hi := Item.ignores_extended_of_handsOver tail h
    rw [← hevents hi]
    exact ih.imp (.handsOver (hi.of_eq h)) fun ⟨_, hrest, hx⟩ => ⟨rfl, hrest, hx⟩
  | @ended s c h => exact Or.inl (.ended (s := s.extended tail) h)
  | @unread s c f h => exact Or.inl (.unread (s := s.extended tail) h)
  | @readsOn s s₁ s₂ s₃ line c es es' x y h _ hack _ ih ih' =>
    -- Lines and read loops bring lines of their own, so neither ran into the end of this one.
    obtain hline | ⟨⟨⟩, -⟩ := ih
    obtain hloop | ⟨⟨⟩, -⟩ := ih'
    rw [← hanswer]
    exact Or.inl (.readsOn (s := s.extended tail) h hline
      ((acknowledge_ignores_extended tail x s₁).of_eq hack) hloop)
  | @leaves s s₁ s₂ line c es x flow h _ hack ih =>
    obtain hline | ⟨⟨⟩, -⟩ := ih
    rw [← hanswer]
    exact Or.inl (.leaves (s := s.extended tail) h hline
      ((acknowledge_ignores_extended tail x s₁).of_eq hack))
  | @breaksOff s s₁ s₂ line c es x f h _ hack ih =>
    obtain hline | ⟨⟨⟩, -⟩ := ih
    rw [← hanswer]
    exact Or.inl (.breaksOff (s := s.extended tail) h hline
      ((acknowledge_ignores_extended tail x s₁).of_eq hack))

/-! ## Longer inputs -/

/-- The state with more lines behind those still to be taken. -/
def supplied (more : List String) (s : Interpreter) : Interpreter :=
  { s with channel := s.channel.supplied more }

theorem Ignores.onChannel {act : Channel.Action α} {more : List String} (s : Interpreter)
    (h : act (s.channel.supplied more) =
      ((act s.channel).1, (act s.channel).2.supplied more)) :
    Ignores (supplied more) (onChannel act) s := by
  unfold Ignores
  simp only [Interpreter.onChannel, supplied, h]

/-- What is made of steps takes no lines, so it does not see whether there are more. -/
theorem Made.ignores_supplied {act : Run α} (h : Made act) (more : List String) (s : Interpreter) :
    Ignores (supplied more) act s := by
  induction h generalizing s with
  | pure a => rfl
  | step h =>
    cases h with
    | write text => exact .onChannel s (Channel.write_supplied more text s.channel)
    | _ => rfl
  | bind _ _ ih ihnext => exact (ih s).bind fun a s' _ => ihnext a s'

theorem acknowledge_ignores_supplied (more : List String) (x : Except Fault Flow)
    (s : Interpreter) : Ignores (supplied more) (acknowledge x) s := by
  rcases x with f | (- | -)
  · simp only [acknowledge]
    split
    · rfl
    · exact .bind (.bind (.onChannel s (Channel.report_supplied more _ _)) fun _ _ _ => rfl)
        fun _ _ _ => rfl
  · exact .bind (.onChannel s (Channel.write_supplied more _ _)) fun _ _ _ => rfl
  · rfl

/-- A run in which no read loop is told that no line is left is the same with more lines, and those
stay where they are. -/
theorem Runs.supplied (h : Runs p s es x s') (hes : .asked .ended ∉ es) (more : List String) :
    Runs p (s.supplied more) es x (s'.supplied more) := by
  have hevents : ∀ (i : Item) (s : Interpreter), i.events (s.supplied more) = i.events s :=
    fun i s => Item.events_eq (i.made_lead.ignores_supplied more s) fun _ => rfl
  have hlead : ∀ {i : Item} {s s' : Interpreter} {r : Except Stop (Flow ⊕ Part)},
      i.lead s = (r, s') → i.lead (s.supplied more) = (r, s'.supplied more) :=
    fun {i s _ _} h => (i.made_lead.ignores_supplied more s).of_eq h
  have hword : ∀ {s s' : Interpreter} {r : Except Stop (Option String)},
      readWord Byte.space s = (r, s') → readWord Byte.space (s.supplied more) =
        (r, s'.supplied more) :=
    fun {s _ _} h => ((Made.step (.readWord Byte.space)).ignores_supplied more s).of_eq h
  have hanswer : ∀ line x s, acknowledgement line x (s.supplied more) = acknowledgement line x s :=
    fun line x s => acknowledgement_eq line (acknowledge_ignores_supplied more x s) fun _ => rfl
  have hack : ∀ {x : Except Fault Flow} {s s' : Interpreter} {r : Except Stop (Option Flow)},
      acknowledge x s = (r, s') → acknowledge x (s.supplied more) = (r, s'.supplied more) :=
    fun {x s _ _} h => (acknowledge_ignores_supplied more x s).of_eq h
  induction h with
  | full h => exact .full h
  | @line s s' text _ _ h _ ih =>
    exact @Runs.line (s.supplied more) (s'.supplied more) text _ _ h
      (ih fun h => hes (List.mem_cons_of_mem _ h))
  | noWord h => exact .noWord (hword h)
  | nextWord h _ _ ih ih' =>
    exact .nextWord (hword h) (ih fun h => hes (List.mem_append_left _ h))
      (ih' fun h => hes (List.mem_append_right _ h))
  | lastWord h _ hx ih => exact .lastWord (hword h) (ih hes) hx
  | @done s _ i _ h =>
    rw [← hevents]
    exact .done (hlead h)
  | @refused s _ i _ h =>
    rw [← hevents]
    exact .refused (hlead h)
  | handsOver h _ ih =>
    rw [← hevents]
    exact .handsOver (hlead h) (ih fun h => hes (List.mem_append_right _ h))
  -- The only rule by which a run is told that no line is left.
  | ended h => exact absurd (List.mem_singleton_self _) hes
  | @unread s _ _ h => exact .unread (s := s.supplied more) (Channel.read_supplied_of_error h)
  | @readsOn s _ _ _ _ _ _ _ _ _ h _ hack' _ ih ih' =>
    rw [← hanswer]
    refine .readsOn (s := s.supplied more) (Channel.read_supplied_of_some h)
      (ih fun h => hes ?_) (hack hack') (ih' fun h => hes (List.mem_append_right _ h))
    exact List.mem_append_left _ (List.mem_append_left _ (List.mem_cons_of_mem _ h))
  | @leaves s _ _ _ _ _ _ _ h _ hack' ih =>
    rw [← hanswer]
    refine .leaves (s := s.supplied more) (Channel.read_supplied_of_some h)
      (ih fun h => hes ?_) (hack hack')
    exact List.mem_append_left _ (List.mem_cons_of_mem _ h)
  | @breaksOff s _ _ _ _ _ _ _ h _ hack' ih =>
    rw [← hanswer]
    refine .breaksOff (s := s.supplied more) (Channel.read_supplied_of_some h)
      (ih fun h => hes ?_) (hack hack')
    exact List.mem_append_left _ (List.mem_cons_of_mem _ h)

end Interpreter

end CellForth
