import CellForth.Proofs.Reading

/-!
# Routes to a word

A word can be run where it stands, by way of its token (`' w execute`), and by way of its name
(`s" w" find drop execute`). All of them do the same, also for words that go on reading the line
(`routes_agree`).

The lines differ in length, so the words after them stand at other places. Therefore we first show
that a run sees of the cursor only what is left of the line (`Indifferent.interpret`): states that
differ in nothing else are `Alike`, and runs from them are `Similar`. Then a line is taken apart
word by word. A line that faces a word (`Faces`) does what the word does and goes on in front of
the text that follows (`Faces.lineWith`), and for each of the words of the routes there is a lemma
that says with which cells it goes on.
-/

namespace CellForth

/-- What is read depends on the rest of the line only. -/
theorem Cursor.readWord_congr {c c' : Cursor} (h : c'.rest = c.rest) (d : UInt8) :
    (c'.readWord d).1 = (c.readWord d).1 ∧ (c'.readWord d).2.rest = (c.readWord d).2.rest := by
  simp [readWord, h]

/-- A text up to a delimiter depends on the rest of the line only. -/
theorem Cursor.parse_congr {c c' : Cursor} (h : c'.rest = c.rest) (d : UInt8) :
    (c'.parse d).1 = (c.parse d).1 ∧ (c'.parse d).2.rest = (c.parse d).2.rest := by
  unfold parse
  rw [h]
  split <;> simp [h]

namespace Interpreter

variable {α β : Type} {s t u : Interpreter}

/-! ## States that a run does not tell apart -/

/-- States that a run does not tell apart: it does not look at how much of the line was read, or at
the trace. -/
structure Alike (s t : Interpreter) : Prop where
  machine : t.machine = s.machine
  dictionary : t.dictionary = s.dictionary
  hostCode : t.hostCode = s.hostCode
  rest : t.cursor.rest = s.cursor.rest
  channel : t.channel = s.channel

namespace Alike

theorem refl (s : Interpreter) : Alike s s :=
  ⟨rfl, rfl, rfl, rfl, rfl⟩

theorem symm (h : Alike s t) : Alike t s :=
  ⟨h.machine.symm, h.dictionary.symm, h.hostCode.symm, h.rest.symm, h.channel.symm⟩

theorem trans (h : Alike s t) (h' : Alike t u) : Alike s u :=
  ⟨h'.machine.trans h.machine, h'.dictionary.trans h.dictionary, h'.hostCode.trans h.hostCode,
    h'.rest.trans h.rest, h'.channel.trans h.channel⟩

end Alike

/-- The same result, in states that are alike. -/
structure Similar (r r' : Except Stop α × Interpreter) : Prop where
  result : r'.1 = r.1
  alike : Alike r.2 r'.2

namespace Similar

variable {r r' r'' : Except Stop α × Interpreter}

theorem symm (h : Similar r r') : Similar r' r :=
  ⟨h.result.symm, h.alike.symm⟩

theorem trans (h : Similar r r') (h' : Similar r' r'') : Similar r r'' :=
  ⟨h'.result.trans h.result, h.alike.trans h'.alike⟩

end Similar

/-- Runs that do the same in states that are alike. -/
def Indifferent : Relation := fun _ act act' => ∀ s t, Alike s t → Similar (act s) (act' t)

namespace Indifferent

/-- Runs that are indifferent are so in order, since they are told the same. -/
theorem bind {act act' : Run α} {next next' : α → Run β} (h : Indifferent α act act')
    (hnext : ∀ a, Indifferent β (next a) (next' a)) :
    Indifferent β (act >>= next) (act' >>= next') := by
  intro s t hst
  obtain ⟨hresult, halike⟩ := h s t hst
  rw [bind_apply, bind_apply]
  rcases hx : act s with ⟨e | a, s'⟩ <;> rcases hy : act' t with ⟨e' | a', t'⟩ <;>
    rw [hx, hy] at hresult halike <;> cases hresult
  · exact ⟨rfl, halike⟩
  · exact hnext a s' t' halike

theorem attempt {act act' : Run α} (h : Indifferent α act act') :
    Indifferent _ (attempt act) (attempt act') := by
  intro s t hst
  obtain ⟨hresult, halike⟩ := h s t hst
  exact ⟨congrArg Except.ok hresult, halike⟩

theorem onMachine (act : Machine.Action α) :
    Indifferent α (onMachine act) (onMachine act) := by
  intro s t hst
  refine ⟨?_, ⟨?_, hst.dictionary, hst.hostCode, hst.rest, hst.channel⟩⟩ <;>
    simp only [Interpreter.onMachine, hst.machine]

theorem onChannel (act : Channel.Action α) :
    Indifferent α (onChannel act) (onChannel act) := by
  intro s t hst
  refine ⟨?_, ⟨hst.machine, hst.dictionary, hst.hostCode, hst.rest, ?_⟩⟩ <;>
    simp only [Interpreter.onChannel, hst.channel]

/-- A look at what alike states have in common is indifferent. -/
theorem view {f : Interpreter → α} (h : ∀ s t, Alike s t → f t = f s) :
    Indifferent α (view f) (view f) :=
  fun s t hst => ⟨congrArg Except.ok (h s t hst), hst⟩

theorem mark (m : Mark) : Indifferent Unit (mark m) (mark m) :=
  fun _ _ hst => ⟨rfl, ⟨hst.machine, hst.dictionary, hst.hostCode, hst.rest, hst.channel⟩⟩

theorem pure (a : α) : Indifferent α (pure a) (pure a) :=
  fun _ _ hst => ⟨rfl, hst⟩

theorem throw (e : Stop) : Indifferent α (throw e) (throw e) :=
  fun _ _ hst => ⟨rfl, hst⟩

/-- No step looks at the trace or at how much of the line was read. -/
theorem step {act : Run α} (h : Step act) : Indifferent α act act := by
  cases h with
  | stack _ => exact onMachine _
  | memory _ => exact onMachine _
  | trial _ => exact onMachine _
  | refuse f _ => exact throw _
  | host word =>
    refine bind (view fun s t hst => ?_) fun code => onMachine code
    simp only [hst.hostCode]
  | begin t => exact mark _
  | readWord d =>
    intro s t hst
    obtain ⟨hword, hrest⟩ := Cursor.readWord_congr hst.rest d
    exact ⟨congrArg Except.ok hword,
      ⟨hst.machine, hst.dictionary, hst.hostCode, hrest, hst.channel⟩⟩
  | parse d =>
    intro s t hst
    obtain ⟨htext, hrest⟩ := Cursor.parse_congr hst.rest d
    exact ⟨congrArg Except.ok htext,
      ⟨hst.machine, hst.dictionary, hst.hostCode, hrest, hst.channel⟩⟩
  | write text => exact onChannel _
  | findWord name => exact view fun s t hst => by simp only [hst.dictionary]
  | names => exact view fun s t hst => by simp only [hst.dictionary]
  | data => exact view fun s t hst => by simp only [hst.machine]

theorem count {act : Run Nat} (h : Count act) : Indifferent Nat act act := by
  cases h with
  | data => exact view fun s t hst => by simp only [hst.machine]
  | rest => exact view fun s t hst => by simp only [hst.rest]
  | unread => exact view fun s t hst => by simp only [hst.channel]

theorem recover (f : Fault) : Indifferent Unit (recover f) (recover f) :=
  bind (onChannel _) fun _ _ _ hst =>
    ⟨rfl, ⟨congrArg Machine.reset hst.machine, hst.dictionary, hst.hostCode, hst.rest, hst.channel⟩⟩

/-- Recovering is indifferent, since a fault is reported and the machine reset alike. -/
theorem recovering {act act' next next' : Run Flow} {done : Run Unit}
    (h : Indifferent Flow act act') (hdone : Indifferent Unit done done)
    (hnext : Indifferent Flow next next') :
    Indifferent Flow (recovering act done next) (recovering act' done next') := by
  refine bind h.attempt fun result => ?_
  match result with
  | .ok .proceed => exact bind hdone fun _ => hnext
  | .ok .exit => exact pure _
  | .error .tooDeep => exact throw _
  | .error (.fault f) =>
    dsimp only
    split
    · exact throw _
    · exact bind (recover f) fun _ => hnext

/-- Inside a line both runs face the same text, and what is put back is alike. -/
theorem within {body body' : Run Flow} (line : String) (h : Indifferent Flow body body') :
    Indifferent Flow (within line body) (within line body') := by
  intro s t hst
  have hreturns : t.machine.returns = s.machine.returns := by rw [hst.machine]
  cases hfull : s.machine.returns.isFull with
  | true =>
    rw [within_of_full hfull, within_of_full (hreturns ▸ hfull)]
    exact ⟨rfl, hst⟩
  | false =>
    rw [within_of_room hfull, within_of_room (hreturns ▸ hfull)]
    have hentering : Alike (s.entering line) (t.entering line) := by
      refine ⟨?_, hst.dictionary, hst.hostCode, rfl, hst.channel⟩
      simp only [entering, hst.machine]
    obtain ⟨hresult, halike⟩ := h _ _ hentering
    refine ⟨hresult, ⟨?_, halike.dictionary, halike.hostCode, hst.rest, halike.channel⟩⟩
    simp only [leaving, halike.machine, hreturns]

/-- No run tells alike states apart. -/
theorem closed : Closed Indifferent where
  pure := pure
  step := step
  bind := bind
  count := count
  tooDeep := throw _
  takeLineWith hn hnext := by
    refine bind (onChannel _) fun line => ?_
    cases line with
    | none => exact pure _
    | some line => exact recovering (hn line) (onChannel _) hnext
  within := within

theorem interpret (line : String) : Indifferent Flow (interpret line) (interpret line) :=
  bind (view fun s t hst => by simp only [levels, hst.channel, hst.machine]) fun n =>
    closed.interpretAt n line

end Indifferent

/-! ## Lines word by word -/

/-- The state in front of a text. -/
def facing (text : String) (s : Interpreter) : Interpreter :=
  { s with cursor := Cursor.ofString text }

/-- The state with other cells on the data stack. -/
def withCells (cells : List Value) (s : Interpreter) : Interpreter :=
  { s with machine := { s.machine with data := { s.machine.data with cells } } }

/-- The next word of the line at hand, and what follows it. -/
structure Faces (w after : String) (s : Interpreter) : Prop where
  word : (s.cursor.readWord Byte.space).1 = some w
  rest : (s.cursor.readWord Byte.space).2.rest = Utf8.encode after

/-- A built-in word is found under its own name. -/
def Bound (b : Builtin) (s : Interpreter) : Prop :=
  (s.dictionary.find? b.name).map (·.token) = some (.builtin b)

instance (b : Builtin) (s : Interpreter) : Decidable (s.Bound b) :=
  inferInstanceAs (Decidable (_ = _))

/-- What a line does after a word. -/
def goingOn : Flow → Run Flow
  | .exit => pure .exit
  | .proceed => lineWith interpret

theorem indifferent_wordWith (w : String) :
    Indifferent Flow (wordWith interpret w) (wordWith interpret w) :=
  Indifferent.closed.wordWith (Indifferent.closed.executeTokenWith Indifferent.interpret) w

theorem indifferent_goingOn : ∀ flow, Indifferent Flow (goingOn flow) (goingOn flow)
  | .exit => Indifferent.pure _
  | .proceed => Indifferent.closed.lineWith Indifferent.interpret

/-- Every built-in word can be written in a line. -/
theorem isWord_name (b : Builtin) : Text.IsWord b.name := by
  cases b <;> decide

/-- No built-in word reads as a number. -/
theorem numeral?_name (b : Builtin) : numeral? b.name = none := by
  cases b <;> decide

theorem tokenOf_of_find {w : String} {entry : Entry} (h : s.dictionary.find? w = some entry) :
    tokenOf w s = (.ok entry.token, s) := by
  rw [tokenOf, findWord, view_bind, h]
  rfl

theorem tokenOf_of_undefined {w : String} (h : s.dictionary.find? w = none) :
    tokenOf w s = (.error (.fault ⟨.undefinedWord, w⟩), s) := by
  rw [tokenOf, findWord, view_bind, h]
  rfl

/-- A word that is no number runs the token that is found under it. -/
theorem wordWith_of_find {w : String} {entry : Entry} (hname : numeral? w = none)
    (h : s.dictionary.find? w = some entry) :
    wordWith interpret w s = executeTokenWith interpret entry.token s := by
  simp only [wordWith, Lexeme.classify, hname]
  exact bind_of_ok (tokenOf_of_find h)

theorem wordWith_of_undefined {w : String} (hname : numeral? w = none)
    (h : s.dictionary.find? w = none) :
    wordWith interpret w s = (.error (.fault ⟨.undefinedWord, w⟩), s) := by
  simp only [wordWith, Lexeme.classify, hname]
  exact bind_of_error (tokenOf_of_undefined h)

/-- Behind blanks, a word in front of a space is the next word. -/
theorem faces_of_rest {gap w after : String} (hgap : ∀ b ∈ Utf8.encode gap, Byte.isBlank b = true)
    (hw : Text.IsWord w) (h : s.cursor.rest = Utf8.encode (gap ++ (w ++ (" " ++ after)))) :
    s.Faces w (" " ++ after) := by
  have hblank : ∀ b ∈ (Utf8.encode (" " ++ after)).head?, Byte.isBlank b = true := by
    intro b hb
    rw [Utf8.encode_append] at hb
    obtain rfl : Byte.space = b := Option.some.inj hb
    rfl
  obtain ⟨hword, hrest⟩ := Cursor.readWord_of_rest hgap hw hblank h
  exact ⟨hword, hrest⟩

/-- A line whose words stand in front of spaces faces the first of them. -/
theorem faces_entering {line w after : String} (hw : Text.IsWord w)
    (h : line = w ++ (" " ++ after)) : (s.entering line).Faces w (" " ++ after) := by
  have hrest : (s.entering line).cursor.rest = Utf8.encode ("" ++ (w ++ (" " ++ after))) := by
    rw [h, String.empty_append]
    rfl
  exact faces_of_rest (List.all_eq_true.1 (by decide)) hw hrest

/-- A text that begins with a space and a word faces that word. -/
theorem faces_facing {w : String} (hw : Text.IsWord w) (after : String) :
    (s.facing (" " ++ (w ++ (" " ++ after)))).Faces w (" " ++ after) :=
  faces_of_rest (List.all_eq_true.1 (by decide)) hw rfl

theorem Faces.readWord {w after : String} (h : s.Faces w after) :
    readWord Byte.space s =
      (.ok (some w), { s with cursor := (s.cursor.readWord Byte.space).2 }) := by
  simp only [Interpreter.readWord, h.word]

/-- A line without another word is at its end. -/
theorem lineWith_of_none (hs : s.HostsKeepReturns)
    (h : (s.cursor.readWord Byte.space).1 = none) :
    Similar (lineWith interpret s) (.ok .proceed, s.facing "") := by
  have hread : readWord Byte.space s =
      (.ok none, { s with cursor := (s.cursor.readWord Byte.space).2 }) := by
    simp only [readWord, h]
  rw [lineWith_eq disciplined_interpret hs, nextWordWith, bind_of_ok hread]
  exact ⟨rfl, rfl, rfl, rfl, (Cursor.rest_of_readWord_none h).symm, rfl⟩

/-- A line runs its next word in front of what follows it. -/
theorem Faces.lineWith {w after : String} (h : s.Faces w after) (hs : s.HostsKeepReturns) :
    Similar (lineWith interpret s) ((wordWith interpret w >>= goingOn) (s.facing after)) := by
  let s₁ : Interpreter := { s with cursor := (s.cursor.readWord Byte.space).2 }
  have hs₁ : Alike s₁ (s.facing after) := ⟨rfl, rfl, rfl, h.rest.symm, rfl⟩
  rw [lineWith_eq disciplined_interpret hs, nextWordWith, bind_of_ok h.readWord]
  refine Indifferent.bind (indifferent_wordWith w) (fun flow => ?_) s₁ _ hs₁
  cases flow with
  | exit => exact indifferent_goingOn .exit
  | proceed => exact indifferent_goingOn .proceed

/-- A line runs the token of its next word, if it is built in. -/
theorem Faces.lineWith_of_bound {b : Builtin} {after : String} (h : s.Faces b.name after)
    (hs : s.HostsKeepReturns) (hb : s.Bound b) : Similar (Interpreter.lineWith interpret s)
      ((tokenWith interpret (executeTokenWith interpret) (.builtin b) >>= goingOn)
        (s.facing after)) := by
  obtain ⟨entry, hfind, htoken⟩ := Option.map_eq_some_iff.1 hb
  have hword : wordWith interpret b.name (s.facing after) =
      tokenWith interpret (executeTokenWith interpret) (.builtin b) (s.facing after) := by
    rw [wordWith_of_find (s := s.facing after) (numeral?_name b) hfind, htoken,
      executeTokenWith_eq]
  have hline := h.lineWith hs
  rwa [bind_apply, hword, ← bind_apply] at hline

/-- A line does the work of its next word and goes on. -/
theorem Faces.lineWith_of_made {b : Builtin} {after : String} {act : Run Unit}
    (h : s.Faces b.name after) (hs : s.HostsKeepReturns) (hb : s.Bound b) (hmade : Made act)
    (heq : tokenWith interpret (executeTokenWith interpret) (.builtin b) =
      (do mark (.began (.builtin b)); thenProceed act)) :
    Similar (Interpreter.lineWith interpret s)
      ((thenProceed act >>= goingOn) (s.facing after)) := by
  -- the mark is one of the things that the rest of the line does not see
  let marked : Interpreter := { s.facing after with trace := .began (.builtin b) :: s.trace }
  have hmark : mark (.began (.builtin b)) (s.facing after) = (.ok (), marked) := rfl
  have hsame := Indifferent.bind (Indifferent.closed.made (.thenProceed hmade)) indifferent_goingOn
    marked (s.facing after) ⟨rfl, rfl, rfl, rfl, rfl⟩
  have htoken := h.lineWith_of_bound hs hb
  rw [heq, bind_assoc, bind_of_ok hmark] at htoken
  exact htoken.trans hsame

theorem thenProceed_of_ok {act : Run Unit} (h : act s = (.ok (), t)) :
    (thenProceed act >>= goingOn) s = lineWith interpret t := by
  have hdone : thenProceed act s = (.ok .proceed, t) := bind_of_ok h
  rw [bind_of_ok hdone, goingOn]

theorem thenProceed_of_error {act : Run Unit} {e : Stop} (h : act s = (.error e, t)) :
    (thenProceed act >>= goingOn) s = (.error e, t) :=
  bind_of_error (bind_of_error h)

/-! ## Words that a line can begin with -/

/-- A stack operation that is granted changes the cells and nothing else. -/
theorem onData_of_ok {op : Transaction Stack α} {a : α} {cells : List Value}
    (h : op s.machine.data = .ok (a, { s.machine.data with cells })) :
    onMachine (Machine.onData op) s = (.ok a, s.withCells cells) := by
  refine (onMachine_of (x := .ok a) ?_).trans rfl
  simp [Machine.onData, Transaction.settle_of_ok h]

theorem push_of_room {v : Value} (h : s.machine.data.isFull = false) :
    onMachine (Machine.push v) s = (.ok (), s.withCells (v :: s.machine.data.cells)) :=
  onData_of_ok (by simp [Stack.push, h])

/-- A quoted text is pushed as it stands, and the line goes on behind the quote. -/
theorem sQuote_of_facing {text after : String} (htext : '"' ∉ text.toList)
    (hroom : s.machine.data.isFull = false)
    (h : s.cursor.rest = Utf8.encode (" " ++ (text ++ ("\"" ++ after)))) :
    ∃ c, c.rest = Utf8.encode after ∧ sQuote s =
      (.ok (), { s.withCells (.text text :: s.machine.data.cells) with cursor := c }) := by
  obtain ⟨hparse, hrest⟩ := Cursor.parse_of_rest htext h
  refine ⟨_, hrest, ?_⟩
  have hread : parse Byte.quote s =
      (.ok text, { s with cursor := (s.cursor.parse Byte.quote).2 }) := by
    simp only [parse, hparse]
  rw [sQuote, bind_of_ok hread, push_of_room (by exact hroom)]
  rfl

/-- `find` leaves the token of a defined word and says whether it is immediate. -/
theorem find_of_text {w : String} {entry : Entry} {below : List Value}
    (hcells : s.machine.data.cells = .text w :: below) (hroom : s.machine.data.isFull = false)
    (hfind : s.dictionary.find? w = some entry) :
    find s = (.ok (), s.withCells (.int (if entry.immediate then 1 else -1) ::
      .token entry.token :: below)) := by
  have htop : onMachine Machine.top s = (.ok (.text w), s) :=
    onMachine_of (Machine.top_of_cons hcells)
  have hreplace : onMachine (Machine.replaceTop (.token entry.token)) s =
      (.ok (), s.withCells (.token entry.token :: below)) :=
    onData_of_ok (by simp [Stack.replaceTop, hcells])
  have hroom' : (s.withCells (.token entry.token :: below)).machine.data.isFull = false := by
    rw [Stack.isFull_eq_false_iff] at hroom ⊢
    simpa [Stack.depth, withCells, hcells] using hroom
  rw [find, bind_of_ok htop]
  dsimp only
  rw [findWord, view_bind, hfind]
  dsimp only
  rw [bind_of_ok hreplace, push_of_room hroom']
  rfl

theorem tick_of_faces {w after : String} {entry : Entry} (h : s.Faces w after)
    (hroom : s.machine.data.isFull = false) (hfind : s.dictionary.find? w = some entry) :
    ∃ c, c.rest = Utf8.encode after ∧ tick s =
      (.ok (), { s.withCells (.token entry.token :: s.machine.data.cells) with cursor := c }) := by
  refine ⟨_, h.rest, ?_⟩
  rw [tick, bind_of_ok h.readWord]
  dsimp only
  rw [bind_of_ok (tokenOf_of_find (by exact hfind)), push_of_room (by exact hroom)]
  rfl

theorem tick_of_undefined {w after : String} (h : s.Faces w after)
    (hfind : s.dictionary.find? w = none) :
    ∃ c, c.rest = Utf8.encode after ∧ tick s =
      (.error (.fault ⟨.undefinedWord, w⟩), { s with cursor := c }) := by
  refine ⟨_, h.rest, ?_⟩
  rw [tick, bind_of_ok h.readWord]
  exact bind_of_error (tokenOf_of_undefined hfind)

/-- A word that names a token runs that token. -/
theorem Faces.lineWith_of_find {w after : String} {entry : Entry} (h : s.Faces w after)
    (hs : s.HostsKeepReturns) (hname : numeral? w = none)
    (hfind : s.dictionary.find? w = some entry) :
    Similar (Interpreter.lineWith interpret s)
      ((executeTokenWith interpret entry.token >>= goingOn) (s.facing after)) := by
  have hword := wordWith_of_find (s := s.facing after) hname hfind
  have hline := h.lineWith hs
  rwa [bind_apply, hword, ← bind_apply] at hline

/-- A word that takes the top of the data stack goes on with it. -/
theorem Faces.lineWith_of_pop {b : Builtin} {after : String} {v : Value} {below : List Value}
    {act : Value → Run Flow} (h : s.Faces b.name after) (hs : s.HostsKeepReturns) (hb : s.Bound b)
    (heq : tokenWith interpret (executeTokenWith interpret) (.builtin b) =
      (do mark (.began (.builtin b)); act (← onMachine Machine.pop)))
    (hcells : s.machine.data.cells = v :: below) (hact : Indifferent Flow (act v) (act v)) :
    Similar (Interpreter.lineWith interpret s)
      ((act v >>= goingOn) ((s.withCells below).facing after)) := by
  let began : Interpreter := { s.facing after with trace := .began (.builtin b) :: s.trace }
  let popped := began.withCells below
  have hmark : mark (.began (.builtin b)) (s.facing after) = (.ok (), began) := rfl
  have hpop : onMachine Machine.pop began = (.ok v, popped) :=
    onData_of_ok (by simp [Stack.pop, began, facing, hcells])
  have hsame := Indifferent.bind hact indifferent_goingOn popped
    ((s.withCells below).facing after) ⟨rfl, rfl, rfl, rfl, rfl⟩
  have hline := h.lineWith_of_bound hs hb
  rw [heq, bind_assoc, bind_of_ok hmark, bind_assoc, bind_of_ok hpop] at hline
  exact hline.trans hsame

/-- `execute` runs the token on top as a word that names it does. -/
theorem Faces.lineWith_execute {after : String} {token : Token} {below : List Value}
    (h : s.Faces "execute" after) (hs : s.HostsKeepReturns) (hb : s.Bound .execute)
    (hcells : s.machine.data.cells = .token token :: below) :
    Similar (Interpreter.lineWith interpret s)
      ((executeTokenWith interpret token >>= goingOn) ((s.withCells below).facing after)) :=
  h.lineWith_of_pop (b := .execute) hs hb rfl hcells
    (Indifferent.closed.executeTokenWith Indifferent.interpret token)

/-- Quoted text goes on the data stack as it was written. -/
theorem Faces.lineWith_sQuote {text after : String}
    (h : s.Faces "s\"" (" " ++ (text ++ ("\"" ++ after)))) (hs : s.HostsKeepReturns)
    (hb : s.Bound .sQuote) (hroom : s.machine.data.isFull = false) (htext : '"' ∉ text.toList) :
    Similar (Interpreter.lineWith interpret s) (Interpreter.lineWith interpret
      ((s.withCells (.text text :: s.machine.data.cells)).facing after)) := by
  obtain ⟨c, hc, hact⟩ := sQuote_of_facing (s := s.facing _) htext hroom rfl
  have hline := h.lineWith_of_made (b := .sQuote) hs hb .sQuote rfl
  rw [thenProceed_of_ok hact] at hline
  exact hline.trans (indifferent_goingOn .proceed _ _ ⟨rfl, rfl, rfl, hc.symm, rfl⟩)

/-- A line that goes on with `find` on a defined word. -/
theorem Faces.lineWith_find {w after : String} {entry : Entry} {below : List Value}
    (h : s.Faces "find" after) (hs : s.HostsKeepReturns) (hb : s.Bound .find)
    (hcells : s.machine.data.cells = .text w :: below) (hroom : s.machine.data.isFull = false)
    (hfind : s.dictionary.find? w = some entry) :
    Similar (Interpreter.lineWith interpret s) (Interpreter.lineWith interpret
      ((s.withCells (.int (if entry.immediate then 1 else -1) :: .token entry.token ::
        below)).facing after)) := by
  have hact := find_of_text (s := s.facing after) hcells hroom hfind
  have hline := h.lineWith_of_made (b := .find) hs hb .find rfl
  rwa [thenProceed_of_ok hact] at hline

theorem Faces.lineWith_drop {after : String} {v : Value} {below : List Value}
    (h : s.Faces "drop" after) (hs : s.HostsKeepReturns) (hb : s.Bound .drop)
    (hcells : s.machine.data.cells = v :: below) :
    Similar (Interpreter.lineWith interpret s)
      (Interpreter.lineWith interpret ((s.withCells below).facing after)) := by
  have hact : onMachine (Machine.onData Stack.drop) (s.facing after) =
      (.ok (), (s.withCells below).facing after) :=
    onData_of_ok (s := s.facing after) (by simp [Stack.drop, facing, hcells])
  have hline := h.lineWith_of_made (b := .drop) hs hb (.stack .drop) rfl
  rwa [thenProceed_of_ok hact] at hline

theorem Faces.lineWith_tick {w after : String} {entry : Entry}
    (h : s.Faces "'" (" " ++ (w ++ (" " ++ after)))) (hs : s.HostsKeepReturns)
    (hb : s.Bound .tick) (hw : Text.IsWord w) (hroom : s.machine.data.isFull = false)
    (hfind : s.dictionary.find? w = some entry) :
    Similar (Interpreter.lineWith interpret s) (Interpreter.lineWith interpret
      ((s.withCells (.token entry.token :: s.machine.data.cells)).facing (" " ++ after))) := by
  obtain ⟨c, hc, hact⟩ := tick_of_faces (faces_facing (s := s) hw after) hroom hfind
  have hline := h.lineWith_of_made (b := .tick) hs hb .tick rfl
  rw [thenProceed_of_ok hact] at hline
  exact hline.trans (indifferent_goingOn .proceed _ _ ⟨rfl, rfl, rfl, hc.symm, rfl⟩)

/-- An undefined word is refused where it stands, and behind `'` as well. -/
theorem Faces.lineWith_of_undefined {w after : String} (h : s.Faces w after)
    (hs : s.HostsKeepReturns) (hname : numeral? w = none)
    (hfind : s.dictionary.find? w = none) :
    Similar (Interpreter.lineWith interpret s)
      (.error (.fault ⟨.undefinedWord, w⟩), s.facing after) := by
  have hline := h.lineWith hs
  rwa [bind_of_error (wordWith_of_undefined (s := s.facing after) hname hfind)] at hline

theorem Faces.lineWith_tick_of_undefined {w after : String}
    (h : s.Faces "'" (" " ++ (w ++ (" " ++ after)))) (hs : s.HostsKeepReturns)
    (hb : s.Bound .tick) (hw : Text.IsWord w) (hfind : s.dictionary.find? w = none) :
    Similar (Interpreter.lineWith interpret s)
      (.error (.fault ⟨.undefinedWord, w⟩), s.facing (" " ++ after)) := by
  obtain ⟨c, hc, hact⟩ := tick_of_undefined (faces_facing (s := s) hw after) hfind
  have hline := h.lineWith_of_made (b := .tick) hs hb .tick rfl
  rw [thenProceed_of_error hact] at hline
  exact hline.trans ⟨rfl, ⟨rfl, rfl, rfl, hc.symm, rfl⟩⟩

/-- Two lines do the same if they do so once they are entered, also where they start from states
with the same return stack and cursor. -/
theorem interpret_similar_of_room {l l' : String} (hs : s.HostsKeepReturns)
    (ht : t.HostsKeepReturns) (hreturns : t.machine.returns = s.machine.returns)
    (hcursor : t.cursor = s.cursor) (hroom : s.machine.returns.isFull = false)
    (h : Similar (lineWith interpret (s.entering l)) (lineWith interpret (t.entering l'))) :
    Similar (interpret l s) (interpret l' t) := by
  rw [interpret_eq l hs, interpret_eq l' ht, within_of_room hroom,
    within_of_room (hreturns ▸ hroom)]
  generalize lineWith interpret (s.entering l) = r at h
  generalize lineWith interpret (t.entering l') = r' at h
  refine ⟨h.result, ⟨?_, h.alike.dictionary, h.alike.hostCode, ?_, h.alike.channel⟩⟩
  · simp only [leaving, h.alike.machine, hreturns]
  · simp only [leaving, hcursor]

/-- Lines that do the same once they are entered do the same. -/
theorem interpret_similar {l l' : String} (hs : s.HostsKeepReturns)
    (h : s.machine.returns.isFull = false → Similar (lineWith interpret (s.entering l))
      (lineWith interpret (s.entering l'))) : Similar (interpret l s) (interpret l' s) := by
  cases hfull : s.machine.returns.isFull with
  | true =>
    rw [interpret_eq l hs, interpret_eq l' hs, within_of_full hfull, within_of_full hfull]
    exact ⟨rfl, .refl s⟩
  | false => exact interpret_similar_of_room hs hs rfl rfl hfull (h hfull)

/-- What a line came to once it was entered is what it comes to, if it left the return stack as it
was. -/
theorem interpret_of_lineWith {l : String} {x : Except Stop Flow} (hs : s.HostsKeepReturns)
    (hroom : s.machine.returns.isFull = false)
    (h : Similar (lineWith interpret (s.entering l)) (x, t))
    (hreturns : t.machine.returns = (s.entering l).machine.returns) :
    Similar (interpret l s) (x, { t with
      machine := { t.machine with returns := s.machine.returns }, cursor := s.cursor }) := by
  rw [interpret_eq l hs, within_of_room hroom]
  generalize lineWith interpret (s.entering l) = r at h
  have hleft : r.2.machine.unnest s.machine.returns.depth =
      { t.machine with returns := s.machine.returns } := by
    have hmachine : t.machine = r.2.machine := h.alike.machine
    rw [← hmachine]
    simp only [Machine.unnest, hreturns, entering, Stack.truncate_cons]
  exact ⟨h.result, hleft.symm, h.alike.dictionary, h.alike.hostCode, rfl, h.alike.channel⟩

/-- A line that is refused at once leaves the state as it was. -/
theorem interpret_refused {l after : String} {e : Stop} (hs : s.HostsKeepReturns)
    (hroom : s.machine.returns.isFull = false)
    (h : Similar (lineWith interpret (s.entering l)) (.error e, (s.entering l).facing after)) :
    Similar (interpret l s) (.error e, s) :=
  (interpret_of_lineWith hs hroom h rfl).trans ⟨rfl, rfl, rfl, rfl, rfl, rfl⟩

/-! ## Routes to a word -/

section Routes

variable {w : String} (r : String) {entry : Entry} (hs : s.HostsKeepReturns)
  (hw : Text.IsWord w) (hname : numeral? w = none)
include hs hw hname

/-- Both lines come to run a token in front of the same text. -/
theorem similar_of_route {line : String} (hfind : s.dictionary.find? w = some entry)
    (h : Similar (lineWith interpret (s.entering line))
      ((executeTokenWith interpret entry.token >>= goingOn)
        ((s.entering line).facing (" " ++ r)))) :
    Similar (interpret (w ++ " " ++ r) s) (interpret line s) := by
  refine interpret_similar hs fun _ => ?_
  have hfaces : (s.entering (w ++ " " ++ r)).Faces w (" " ++ r) :=
    faces_entering hw String.append_assoc
  have hsame := Indifferent.bind
    (Indifferent.closed.executeTokenWith Indifferent.interpret entry.token) indifferent_goingOn
    ((s.entering (w ++ " " ++ r)).facing (" " ++ r)) ((s.entering line).facing (" " ++ r))
    ⟨rfl, rfl, rfl, rfl, rfl⟩
  exact ((hfaces.lineWith_of_find hs hname hfind).trans hsame).trans h.symm

/-- A line whose first word is not defined is refused before it does anything. -/
theorem interpret_of_undefined (hfind : s.dictionary.find? w = none)
    (hroom : s.machine.returns.isFull = false) :
    Similar (interpret (w ++ " " ++ r) s) (.error (.fault ⟨.undefinedWord, w⟩), s) := by
  have hfaces : (s.entering (w ++ " " ++ r)).Faces w (" " ++ r) :=
    faces_entering hw String.append_assoc
  exact interpret_refused hs hroom (hfaces.lineWith_of_undefined hs hname hfind)

/-- Behind `'` a word stands for its token. -/
theorem tick_route (htick : s.Bound .tick) (hexecute : s.Bound .execute)
    (hroom : s.machine.data.isFull = false) :
    Similar (interpret (w ++ " " ++ r) s) (interpret ("' " ++ w ++ " execute " ++ r) s) := by
  have hline : "' " ++ w ++ " execute " ++ r =
      "'" ++ (" " ++ (w ++ (" " ++ ("execute" ++ (" " ++ r))))) := by
    rw [← String.toList_inj]
    simp
  have hfaces : (s.entering ("' " ++ w ++ " execute " ++ r)).Faces "'" _ :=
    faces_entering (isWord_name .tick) hline
  cases hfind : s.dictionary.find? w with
  | some entry =>
    refine similar_of_route r hs hw hname hfind ?_
    exact (hfaces.lineWith_tick hs htick hw hroom hfind).trans
      ((faces_facing (isWord_name .execute) r).lineWith_execute hs hexecute rfl)
  | none =>
    cases hfull : s.machine.returns.isFull with
    | true => exact interpret_similar hs fun hroom => by simp [hfull] at hroom
    | false =>
      exact (interpret_of_undefined r hs hw hname hfind hfull).trans
        (interpret_refused hs hfull (hfaces.lineWith_tick_of_undefined hs htick hw hfind)).symm

/-- A name can be quoted, looked up, and the token that is found be run. -/
theorem quoted_route (hbound : ∀ b ∈ [.tick, .execute, .sQuote, .find, .drop], s.Bound b)
    (hquote : '"' ∉ w.toList) (hroom : s.machine.data.depth + 2 ≤ s.machine.data.capacity)
    (hfind : s.dictionary.find? w = some entry) :
    Similar (interpret (w ++ " " ++ r) s)
      (interpret ("s\" " ++ w ++ "\" find drop execute " ++ r) s) := by
  have hline : "s\" " ++ w ++ "\" find drop execute " ++ r =
      "s\"" ++ (" " ++ (w ++ ("\"" ++
        (" " ++ ("find" ++ (" " ++ ("drop" ++ (" " ++ ("execute" ++ (" " ++ r)))))))))) := by
    rw [← String.toList_inj]
    simp
  refine similar_of_route r hs hw hname hfind ?_
  let entered := s.entering ("s\" " ++ w ++ "\" find drop execute " ++ r)
  let quoted := entered.withCells (.text w :: s.machine.data.cells)
  let named := entered.withCells (.token entry.token :: s.machine.data.cells)
  let found := entered.withCells (.int (if entry.immediate then 1 else -1) ::
    .token entry.token :: s.machine.data.cells)
  have hone : entered.machine.data.isFull = false :=
    Stack.isFull_eq_false_iff.2 (Nat.lt_of_succ_lt hroom)
  have htwo : quoted.machine.data.isFull = false := Stack.isFull_eq_false_iff.2 hroom
  have hfaces : entered.Faces "s\"" _ := faces_entering (isWord_name .sQuote) hline
  have hquoted := hfaces.lineWith_sQuote hs (hbound _ (by simp)) hone hquote
  have hfound := (faces_facing (s := quoted) (isWord_name .find)
    ("drop" ++ (" " ++ ("execute" ++ (" " ++ r))))).lineWith_find hs (hbound _ (by simp)) rfl
    htwo hfind
  have hdropped := (faces_facing (s := found) (isWord_name .drop)
    ("execute" ++ (" " ++ r))).lineWith_drop hs (hbound _ (by simp)) rfl
  have hexecuted := (faces_facing (s := named) (isWord_name .execute) r).lineWith_execute hs
    (hbound _ (by simp)) rfl
  exact ((hquoted.trans hfound).trans hdropped).trans hexecuted

end Routes

/-- A word does the same where it stands, by way of the token that `'` gives, and by way of the
one that `find` gives for its name. An undefined word is refused by all of them alike. -/
theorem routes_agree (hs : s.HostsKeepReturns)
    (hbound : ∀ b ∈ [.tick, .execute, .sQuote, .find, .drop], s.Bound b) {w : String}
    (hw : Text.IsWord w) (hname : numeral? w = none) (r : String) :
    (s.machine.data.depth + 1 ≤ s.machine.data.capacity →
      Similar (interpret (w ++ " " ++ r) s) (interpret ("' " ++ w ++ " execute " ++ r) s)) ∧
    ((s.dictionary.find? w).isSome → '"' ∉ w.toList →
      s.machine.data.depth + 2 ≤ s.machine.data.capacity →
      Similar (interpret (w ++ " " ++ r) s)
        (interpret ("s\" " ++ w ++ "\" find drop execute " ++ r) s)) ∧
    (s.dictionary.find? w = none → s.machine.returns.isFull = false →
      (interpret (w ++ " " ++ r) s).1 = .error (.fault ⟨.undefinedWord, w⟩)) := by
  refine ⟨fun hroom => ?_, fun hdefined hquote hroom => ?_, fun hfind hroom => ?_⟩
  · exact tick_route r hs hw hname (hbound _ (by simp)) (hbound _ (by simp))
      (Stack.isFull_eq_false_iff.2 hroom)
  · obtain ⟨entry, hfind⟩ := Option.isSome_iff_exists.1 hdefined
    exact quoted_route r hs hw hname hbound hquote hroom hfind
  · exact (interpret_of_undefined r hs hw hname hfind hroom).result.symm

/-- A word that takes the next one off the line, one in capitals that takes text off it, and a
word that is not defined. -/
theorem routes_agree_parsing :
    let s := (new 3 (.ofLines ["1 ."])).defineHost "noop" (pure ())
    s.HostsKeepReturns ∧
    Similar (interpret "' noop execute 7 ." s) (interpret "' ' execute noop execute 7 ." s) ∧
    Similar (interpret "' noop execute 7 ." s)
      (interpret "s\" '\" find drop execute noop execute 7 ." s) ∧
    Similar (interpret "S\" bl\" find execute" s)
      (interpret "' S\" execute bl\" find execute" s) ∧
    (interpret "nope 1" s).1 = .error (.fault ⟨.undefinedWord, "nope"⟩) := by
  intro s
  have hs : s.HostsKeepReturns := (hostsKeepReturns_new 3 _).defineHost (fun _ => rfl) "noop"
  obtain ⟨hbound, hdefined, hundefined⟩ :
      (∀ b ∈ [.tick, .execute, .sQuote, .find, .drop], s.Bound b) ∧
      (s.dictionary.find? "'").isSome ∧ s.dictionary.find? "nope" = none := by decide +kernel
  have htick := routes_agree hs hbound (w := "'") (by decide) (by decide)
    "noop execute 7 ."
  have hquote := routes_agree hs hbound (w := "S\"") (by decide) (by decide)
    "bl\" find execute"
  have hnope := routes_agree hs hbound (w := "nope") (by decide) (by decide) "1"
  exact ⟨hs, htick.1 (by decide), htick.2.1 hdefined (by decide) (by decide),
    hquote.1 (by decide), hnope.2.2 hundefined (by decide)⟩

end Interpreter
end CellForth
