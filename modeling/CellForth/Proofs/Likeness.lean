import CellForth.Proofs.Frame

/-!
# Runs that follow each other

Two runs of one part are compared that start on the same machine and know the same words, but stand
in front of lines that differ, or talk over channels that differ. A `Likeness` says in which way
cursors and channels may differ, and which tokens may be held. It has to be kept by all that words
with such tokens do to a cursor or a channel, and the words have to be told the same. What it need
not be kept by is what only other words do: if no token of `quit` is held, no line is ever taken.

Then one run follows the other (`Part.follows`). They come to the same result and end on the same
machine, with cursors and channels that are still alike. The induction is on the rules of the first
run, and a word is followed step by step (`Follows.guarded`).
-/

namespace CellForth

/-- The same answer, and what is left behind is related. -/
structure SameAnswer {α σ : Type} (R : σ → σ → Prop) (r r' : α × σ) : Prop where
  answer : r'.1 = r.1
  left : R r.2 r'.2

namespace Interpreter

theorem HoldsOnly.exposes {allowed : Builtin → Prop} {s : Interpreter}
    (hs : s.HoldsOnly allowed) : s.machine.Exposes (Token.IsAllowed allowed) where
  data := hs.data
  memory := hs.memory

/-- In which way the cursors and the channels of two runs may differ, and which tokens the runs may
hold, so that they are told the same. -/
structure Likeness where
  held : Token → Prop
  cursor : Cursor → Cursor → Prop
  channel : Channel → Channel → Prop
  noHost : ∀ word, ¬ held (.host word)
  refl : ∀ c, cursor c c
  readWord : ∀ {c c'}, cursor c c' →
    SameAnswer cursor (c.readWord Byte.space) (c'.readWord Byte.space)
  parse : held (.builtin .sQuote) ∨ held (.builtin .dotQuote) → ∀ {c c'}, cursor c c' →
    SameAnswer cursor (c.parse Byte.quote) (c'.parse Byte.quote)
  write : ∀ text {c c'}, channel c c' →
    SameAnswer channel (Channel.write text c) (Channel.write text c')
  report : held (.builtin .quit) → ∀ text {c c'}, channel c c' →
    SameAnswer channel (Channel.report text c) (Channel.report text c')
  read : held (.builtin .quit) → ∀ {c c'}, channel c c' →
    SameAnswer channel (Channel.read c) (Channel.read c')

/-- States on the same machine, with the same words and tokens that may be held, and with cursors
and channels that are alike. -/
structure Likeness.Relates (k : Likeness) (s t : Interpreter) : Prop where
  hosts : s.HostsKeepReturns
  words : ∀ name entry, s.dictionary.find? name = some entry → k.held entry.token
  exposes : s.machine.Exposes k.held
  machine : t.machine = s.machine
  dictionary : t.dictionary = s.dictionary
  hostCode : t.hostCode = s.hostCode
  cursor : k.cursor s.cursor t.cursor
  channel : k.channel s.channel t.channel

variable {α β : Type} {k : Likeness} {s s' t : Interpreter} {p : Part} {es : List Event}
  {x : Except Fault Flow} {Q : α → Prop}

/-- The host words are the same in both states. -/
theorem Likeness.Relates.hosts_right (h : k.Relates s t) : t.HostsKeepReturns := by
  intro code hcode
  exact h.hosts code (h.hostCode ▸ hcode)

/-- The same result as told, in related states. -/
structure Likeness.Alike (k : Likeness) (Q : α → Prop) (r r' : Except Stop α × Interpreter) :
    Prop where
  result : r'.1 = r.1
  relates : k.Relates r.2 r'.2
  answer : ∀ a, r.1 = .ok a → Q a

/-- Runs that come to the same from related states, with results of a kind. -/
def Follows (k : Likeness) (act : Run α) (Q : α → Prop) : Prop :=
  ∀ s t, k.Relates s t → k.Alike Q (act s) (act t)

namespace Follows

/-! ## Words -/

theorem pure {a : α} (ha : Q a) : Follows k (pure a) Q :=
  fun _ _ h => ⟨rfl, h, fun _ hb => by cases hb; exact ha⟩

theorem throw (e : Stop) : Follows k (throw e : Run α) Q :=
  fun _ _ h => ⟨rfl, h, nofun⟩

/-- Runs that follow each other do so in order, since they are told the same. -/
theorem bind {act : Run α} {next : α → Run β} {Q' : β → Prop} (h : Follows k act Q)
    (hnext : ∀ a, Q a → Follows k (next a) Q') : Follows k (act >>= next) Q' := by
  intro s t hst
  obtain ⟨hresult, hrelates, hanswer⟩ := h s t hst
  rw [bind_apply, bind_apply]
  rcases hx : act s with ⟨e | a, s'⟩ <;> rcases hy : act t with ⟨e' | a', t'⟩ <;>
    rw [hx, hy] at hresult hrelates <;> rw [hx] at hanswer <;> cases hresult
  · exact ⟨rfl, hrelates, nofun⟩
  · exact hnext a (hanswer a rfl) s' t' hrelates

/-- The machines are the same, so an action on them comes to the same. -/
theorem onMachine {act : Machine.Action α} (h : Machine.Careful k.held act Q) :
    Follows k (onMachine act) Q := by
  intro s t hst
  refine ⟨?_, { hst with exposes := h.exposes _ hst.exposes, machine := ?_ }, fun a ha => ?_⟩
  · simp only [Interpreter.onMachine, hst.machine]
  · simp only [Interpreter.onMachine, hst.machine]
  · exact h.result _ a hst.exposes (eq_ok_of_mapError ha)

/-- A call that is answered alike on channels that are alike is followed. -/
theorem onChannel {act : Channel.Action α}
    (h : ∀ {c c'}, k.channel c c' → SameAnswer k.channel (act c) (act c')) :
    Follows k (onChannel act) fun _ => True := by
  intro s t hst
  obtain ⟨hanswer, hleft⟩ := h hst.channel
  exact ⟨congrArg (Except.mapError Stop.fault) hanswer, { hst with channel := hleft },
    fun _ _ => trivial⟩

theorem mark (m : Mark) : Follows k (mark m) fun _ => True :=
  fun _ _ hst => ⟨rfl, { hst with }, fun _ _ => trivial⟩

theorem view {f : Interpreter → α} (h : ∀ s t, k.Relates s t → Q (f s) ∧ f t = f s) :
    Follows k (view f) Q := by
  intro s t hst
  obtain ⟨hq, heq⟩ := h s t hst
  exact ⟨congrArg Except.ok heq, hst, fun _ ha => by cases ha; exact hq⟩

theorem readWord : Follows k (readWord Byte.space) fun _ => True := by
  intro s t hst
  obtain ⟨hanswer, hleft⟩ := k.readWord hst.cursor
  exact ⟨congrArg Except.ok hanswer, { hst with cursor := hleft }, fun _ _ => trivial⟩

theorem parse (h : k.held (.builtin .sQuote) ∨ k.held (.builtin .dotQuote)) :
    Follows k (parse Byte.quote) fun _ => True := by
  intro s t hst
  obtain ⟨hanswer, hleft⟩ := k.parse h hst.cursor
  exact ⟨congrArg Except.ok hanswer, { hst with cursor := hleft }, fun _ _ => trivial⟩

/-- Each step of a word is followed, since the tokens that it needs are held. -/
theorem guarded {act : Run α} (h : Guarded k.held k.held act Q) : Follows k act Q := by
  cases h with
  | machine hact => exact onMachine hact.careful
  | refuse f Q => exact throw _
  | host word hheld => exact absurd hheld (k.noHost word)
  | readWord => exact readWord
  | parse hheld => exact parse hheld
  | write text => exact onChannel (k.write text)
  | findWord name => exact view fun _ _ h => ⟨h.words name, by rw [h.dictionary]⟩
  | names => exact view fun _ _ h => ⟨trivial, by rw [h.dictionary]⟩
  | dotS _ =>
    refine bind (Q := fun _ => True) (view fun _ _ h => ⟨trivial, by rw [h.machine]⟩) fun _ _ => ?_
    exact onChannel (k.write _)

/-- To follow is a closed judgement. -/
theorem closed : Judgement.Closed k.held k.held fun _ => Follows k where
  pure := pure
  begin _ := mark _
  step := guarded
  bind := bind

/-! ## Lines and read loops -/

/-- A line is acknowledged alike, where reports are answered alike. -/
theorem acknowledge (hquit : k.held (.builtin .quit)) (x : Except Fault Flow) :
    Follows k (acknowledge x) fun _ => True := by
  have hreset : Follows k resetMachine fun _ => True := fun _ _ hst =>
    ⟨rfl, { hst with
      exposes := ⟨nofun, hst.exposes.memory⟩
      machine := congrArg Machine.reset hst.machine }, fun _ _ => trivial⟩
  rcases x with f | (- | -)
  · rw [Interpreter.acknowledge]
    split
    · exact throw _
    · exact bind (Q := fun _ => True) (bind (onChannel (k.report hquit _)) fun _ _ => hreset)
        fun _ _ => pure trivial
  · exact bind (onChannel (k.write _)) fun _ _ => pure trivial
  · exact pure trivial

/-- What was done from the first state is done from the second. -/
theorem of_eq {act : Run α} {r : Except Stop α} (h : Follows k act Q) (hst : k.Relates s t)
    (hact : act s = (r, s')) :
    ∃ t', act t = (r, t') ∧ k.Relates s' t' ∧ ∀ a, r = .ok a → Q a := by
  obtain ⟨hresult, hrelates, hanswer⟩ := h s t hst
  rw [hact] at hresult hrelates hanswer
  exact ⟨(act t).2, Prod.ext hresult rfl, hrelates, hanswer⟩

end Follows

namespace Likeness.Relates

/-- Both runs begin the same line, so their cursors are the same from there on. -/
theorem entering (h : k.Relates s t) (text : String) :
    k.Relates (s.entering text) (t.entering text) :=
  { h with
    exposes := ⟨h.exposes.data, h.exposes.memory⟩
    machine := by simp only [Interpreter.entering, h.machine]
    cursor := k.refl _ }

/-- The cursors that are put back are alike, whatever the line inside was. -/
theorem leaving {t' : Interpreter} (h : k.Relates s t) (h' : k.Relates s' t') :
    k.Relates (s'.leaving s.machine.returns.depth s.cursor)
      (t'.leaving t.machine.returns.depth t.cursor) :=
  { h' with
    exposes := ⟨h'.exposes.data, h'.exposes.memory⟩
    machine := by simp only [Interpreter.leaving, h.machine, h'.machine]
    cursor := h.cursor }

/-- A call on both channels. -/
theorem read (h : k.Relates s t) (hquit : k.held (.builtin .quit))
    {r : Except Fault (Option String)} {c : Channel} (hread : Channel.read s.channel = (r, c)) :
    ∃ c', Channel.read t.channel = (r, c') ∧
      k.Relates { s with channel := c } { t with channel := c' } := by
  obtain ⟨hanswer, hleft⟩ := k.read hquit h.channel
  rw [hread] at hanswer hleft
  exact ⟨(Channel.read t.channel).2, Prod.ext hanswer rfl, { h with channel := hleft }⟩

end Likeness.Relates

/-- The simulation, by induction on the rules of the first run. -/
theorem Runs.follows (h : Runs p s es x s') : ∀ t, k.Relates s t → p.Within k.held →
    ∃ es' t', Runs p t es' x t' ∧ k.Relates s' t' := by
  induction h with
  | full h =>
    intro t hst _
    exact ⟨_, t, .full (hst.machine ▸ h), hst⟩
  | line h _ ih =>
    intro t hst _
    obtain ⟨es', t', hruns, hst'⟩ := ih _ (hst.entering _) trivial
    exact ⟨_, _, .line (hst.machine ▸ h) hruns, hst.leaving hst'⟩
  | noWord h =>
    intro t hst _
    obtain ⟨t', hread, hst', -⟩ := Follows.readWord.of_eq hst h
    exact ⟨_, t', .noWord hread, hst'⟩
  | nextWord h _ _ ih ih' =>
    intro t hst _
    obtain ⟨t₁, hread, hst₁, -⟩ := Follows.readWord.of_eq hst h
    obtain ⟨es₁, t₂, hword, hst₂⟩ := ih _ hst₁ trivial
    obtain ⟨es₂, t₃, hrest, hst₃⟩ := ih' _ hst₂ trivial
    exact ⟨_, t₃, .nextWord hread hword hrest, hst₃⟩
  | lastWord h _ hx ih =>
    intro t hst _
    obtain ⟨t₁, hread, hst₁, -⟩ := Follows.readWord.of_eq hst h
    obtain ⟨es₁, t₂, hword, hst₂⟩ := ih _ hst₁ trivial
    exact ⟨_, t₂, .lastWord hread hword hx, hst₂⟩
  | done h =>
    intro t hst hp
    obtain ⟨t', hlead, hst', -⟩ := (Follows.closed.lead hp).of_eq hst h
    exact ⟨_, t', .done hlead, hst'⟩
  | refused h =>
    intro t hst hp
    obtain ⟨t', hlead, hst', -⟩ := (Follows.closed.lead hp).of_eq hst h
    exact ⟨_, t', .refused hlead, hst'⟩
  | handsOver h _ ih =>
    intro t hst hp
    obtain ⟨t₁, hlead, hst₁, hover⟩ := (Follows.closed.lead hp).of_eq hst h
    obtain ⟨es', t', hruns, hst'⟩ := ih _ hst₁ (hover _ rfl _ rfl)
    exact ⟨_, t', .handsOver hlead hruns, hst'⟩
  | ended h =>
    intro t hst hp
    obtain ⟨c, hread, hst'⟩ := hst.read hp h
    exact ⟨_, _, .ended hread, hst'⟩
  | unread h =>
    intro t hst hp
    obtain ⟨c, hread, hst'⟩ := hst.read hp h
    exact ⟨_, _, .unread hread, hst'⟩
  | readsOn h _ hack _ ih ih' =>
    intro t hst hp
    obtain ⟨c, hread, hst₁⟩ := hst.read hp h
    obtain ⟨es₁, t₂, hline, hst₂⟩ := ih _ hst₁ trivial
    obtain ⟨t₃, hack', hst₃, -⟩ := (Follows.acknowledge hp _).of_eq hst₂ hack
    obtain ⟨es₂, t₄, hloop, hst₄⟩ := ih' _ hst₃ hp
    exact ⟨_, t₄, .readsOn hread hline hack' hloop, hst₄⟩
  | leaves h _ hack ih =>
    intro t hst hp
    obtain ⟨c, hread, hst₁⟩ := hst.read hp h
    obtain ⟨es₁, t₂, hline, hst₂⟩ := ih _ hst₁ trivial
    obtain ⟨t₃, hack', hst₃, -⟩ := (Follows.acknowledge hp _).of_eq hst₂ hack
    exact ⟨_, t₃, .leaves hread hline hack', hst₃⟩
  | breaksOff h _ hack ih =>
    intro t hst hp
    obtain ⟨c, hread, hst₁⟩ := hst.read hp h
    obtain ⟨es₁, t₂, hline, hst₂⟩ := ih _ hst₁ trivial
    obtain ⟨t₃, hack', hst₃, -⟩ := (Follows.acknowledge hp _).of_eq hst₂ hack
    exact ⟨_, t₃, .breaksOff hread hline hack', hst₃⟩

/-- A part that runs what may be held comes to the same in related states. -/
theorem Part.follows (hp : p.Within k.held) : Follows k p.run fun _ => True := by
  intro s t hst
  obtain ⟨es, x, s', hruns⟩ := Runs.exists p hst.hosts
  obtain ⟨es', t', hruns', hst'⟩ := hruns.follows t hst hp
  rw [hruns.sound hst.hosts, hruns'.sound hst.hosts_right]
  exact ⟨rfl, hst', fun _ _ => trivial⟩

end Interpreter
end CellForth
