import CellForth.Proofs.Calls
import CellForth.Proofs.Provenance

/-!
# No word makes a token

A token is a licence to run a word, and an interpreter has it if it stands in the dictionary or lies
in a cell of the machine (`Interpreter.Holds`). If the host words make no tokens, a run has no more
of them at its end than at its start, and runs no others (`tokens_unforged`). So a word that the
host has replaced is gone: without `bye` no run leaves, and without `quit` no line reads from the
channel or reports a fault.

The invariant is `Confined`: all tokens of the interpreter are of a fixed set. `Confines` says that
a run keeps it, begins only tokens of the set, and answers as told. This holds of every step that
follows values (`Confines.guarded`), so of every word, and by induction on the levels of every line
(`Confines.interpretAt`).

The host words may do with the return stack what they like. Where they take cells off it, lines can
nest deeper than the levels that `interpret` provides, so everything is said of every number of
levels: a run with so many levels is what has happened when lines have nested so deep.
-/

namespace CellForth

/-! ## Tokens in the dictionary and on the machine -/

/-- A token that stands in the dictionary. -/
def Dictionary.Holds (d : Dictionary) (t : Token) : Prop :=
  ∃ (key : String) (entry : Entry), d.entries[key]? = some entry ∧ entry.token = t

/-- Whether a token stands in the dictionary is decided by going through its entries. -/
theorem Dictionary.holds_iff {d : Dictionary} {t : Token} :
    d.Holds t ↔ ∃ e ∈ d.entries.toList, e.2.token = t := by
  simp only [Holds, Prod.exists, Std.TreeMap.mem_toList_iff_getElem?_eq_some]

instance (d : Dictionary) (t : Token) : Decidable (d.Holds t) :=
  decidable_of_iff _ Dictionary.holds_iff.symm

/-- A token in a cell of the machine. -/
def Machine.Holds (m : Machine) (t : Token) : Prop :=
  .token t ∈ m.data.cells ∨ .token t ∈ m.returns.cells ∨ .token t ∈ m.memory.cells

instance (m : Machine) (t : Token) : Decidable (m.Holds t) :=
  inferInstanceAs (Decidable (_ ∨ _ ∨ _))

/-- All tokens on the machine are some. -/
structure Machine.Within (held : Token → Prop) (m : Machine) : Prop where
  data : ∀ v ∈ m.data.cells, v.Within held
  returns : ∀ v ∈ m.returns.cells, v.Within held
  memory : ∀ v ∈ m.memory.cells, v.Within held

/-- All tokens on a machine are of a set if every token in one of its cells is. -/
theorem Machine.within_iff {held : Token → Prop} {m : Machine} :
    m.Within held ↔ ∀ t, m.Holds t → held t := by
  have hcell : ∀ {v : Value}, (∀ t, v = .token t → held t) → v.Within held := by
    intro v h
    cases v with
    | token t => exact h t rfl
    | int n => trivial
    | text w => trivial
    | addr a => trivial
  constructor
  · rintro ⟨hdata, hreturns, hmemory⟩ t (h | h | h)
    · exact hdata _ h
    · exact hreturns _ h
    · exact hmemory _ h
  · intro h
    exact ⟨fun v hv => hcell fun t ht => h t (.inl (ht ▸ hv)),
      fun v hv => hcell fun t ht => h t (.inr (.inl (ht ▸ hv))),
      fun v hv => hcell fun t ht => h t (.inr (.inr (ht ▸ hv)))⟩

/-! ## Calls that write -/

/-- Whether a call was made to write a text. -/
def Call.isWrite : Call → Bool
  | .wrote _ => true
  | .refusedWrite => true
  | _ => false

/-- A channel on which only texts were written. -/
def Channel.Written (c c' : Channel) : Prop :=
  ∃ made, Makes made c c' ∧ ∀ call ∈ made, call.isWrite = true

namespace Channel.Written

variable {c c' c'' : Channel}

theorem refl (c : Channel) : c.Written c :=
  ⟨[], .refl c, nofun⟩

theorem trans (h : c.Written c') (h' : c'.Written c'') : c.Written c'' := by
  obtain ⟨made, hmakes, hwrite⟩ := h
  obtain ⟨later, hmakes', hwrite'⟩ := h'
  refine ⟨later ++ made, hmakes.trans hmakes', fun call hcall => ?_⟩
  exact (List.mem_append.1 hcall).elim (hwrite' call) (hwrite call)

/-- A write is recorded as one, also where it is refused. -/
theorem write (text : String) (c : Channel) : c.Written (Channel.write text c).2 := by
  rcases hw : Channel.write text c with ⟨f | _, c'⟩
  · obtain ⟨-, hunread, hcalls⟩ := eq_of_answer_error hw
    exact ⟨[.refusedWrite], ⟨hcalls, hunread.symm⟩, by simp [Call.isWrite]⟩
  · obtain ⟨-, hunread, hcalls⟩ := eq_of_answer_ok hw
    exact ⟨[.wrote text], ⟨hcalls, hunread.symm⟩, by simp [Call.isWrite]⟩

/-- Writing takes no line. -/
theorem unread (h : c.Written c') : c'.unread = c.unread := by
  obtain ⟨made, hmakes, hwrite⟩ := h
  have htaken : Call.taken made = [] := by
    refine List.filterMap_eq_nil_iff.2 fun call hcall => ?_
    have hwritten := hwrite call (List.mem_reverse.1 hcall)
    cases call with
    | wrote text | refusedWrite => rfl
    | reported text | took line | ended | refusedRead => cases hwritten
  rw [hmakes.unread, htaken, List.nil_append]

end Channel.Written

namespace Interpreter

variable {α β : Type} {held : Token → Prop} {loops : Prop} {s s' : Interpreter} {Q : α → Prop}

/-! ## Interpreters with some tokens -/

/-- A token in the dictionary or in a cell of the machine. -/
def Holds (s : Interpreter) (t : Token) : Prop :=
  s.dictionary.Holds t ∨ s.machine.Holds t

instance (s : Interpreter) (t : Token) : Decidable (s.Holds t) :=
  inferInstanceAs (Decidable (_ ∨ _))

/-- The code of host words leaves on the machine no token that was neither there nor in the
dictionary. -/
def HostsForgeNone (s : Interpreter) : Prop :=
  ∀ code ∈ s.hostCode, ∀ m t, (code m).2.Holds t → m.Holds t ∨ s.dictionary.Holds t

/-- All tokens of an interpreter are some, and the code of its host words adds no others. -/
structure Confined (held : Token → Prop) (s : Interpreter) : Prop where
  words : ∀ t, s.dictionary.Holds t → held t
  machine : s.machine.Within held
  hosts : ∀ code ∈ s.hostCode, ∀ m, m.Within held → (code m).2.Within held

/-- If the host words make no tokens, the interpreter is confined to the tokens it holds. -/
theorem HostsForgeNone.confined (h : s.HostsForgeNone) : Confined s.Holds s where
  words _ := .inl
  machine := Machine.within_iff.2 fun _ => .inr
  hosts := fun code hcode m hm => Machine.within_iff.2 fun t ht =>
    (h code hcode m t ht).elim (Machine.within_iff.1 hm t) .inl

/-- What a run that keeps to some tokens comes to: no other token is there or began to run, the
channel was written on and nothing else unless there may be read loops, and the result is as
told. -/
structure Kept (held : Token → Prop) (loops : Prop) (Q : α → Prop) (s : Interpreter)
    (r : Except Stop α × Interpreter) : Prop where
  confined : Confined held r.2
  trace : ∃ marks, r.2.trace = marks ++ s.trace ∧ ∀ t, .began t ∈ marks → held t
  channel : loops ∨ s.channel.Written r.2.channel
  result : ∀ a, r.1 = .ok a → Q a

namespace Kept

variable {r : Except Stop α × Interpreter}

/-- A run that begins no token and leaves the channel alone has only its machine to answer for. -/
theorem of_eq (hs : Confined held r.2) (htrace : r.2.trace = s.trace)
    (hchannel : r.2.channel = s.channel) (hr : ∀ a, r.1 = .ok a → Q a) :
    Kept held loops Q s r :=
  ⟨hs, ⟨[], htrace, nofun⟩, .inr (hchannel ▸ .refl _), hr⟩

/-- What two stretches of a run begin and write, they do together. -/
theorem trans {γ : Type} {Q' : γ → Prop} {x : Except Stop γ} (h : Kept held loops Q' s (x, s'))
    (h' : Kept held loops Q s' r) : Kept held loops Q s r := by
  obtain ⟨marks, htrace, hmarks⟩ := h.trace
  obtain ⟨later, htrace', hlater⟩ := h'.trace
  refine ⟨h'.confined, ⟨later ++ marks, ?_, fun t ht => ?_⟩, ?_, h'.result⟩
  · rw [htrace', htrace, List.append_assoc]
  · exact (List.mem_append.1 ht).elim (hlater t) (hmarks t)
  · rcases h.channel with hloops | hwritten
    · exact .inl hloops
    · exact h'.channel.imp id hwritten.trans

theorem error {γ : Type} {Q' : γ → Prop} {e : Stop} (h : Kept held loops Q s (.error e, s')) :
    Kept held loops Q' s (.error e, s') :=
  ⟨h.confined, h.trace, h.channel, nofun⟩

end Kept

/-- Runs that keep to some tokens, with results of a kind. -/
def Confines (held : Token → Prop) (loops : Prop) (act : Run α) (Q : α → Prop) : Prop :=
  ∀ s, Confined held s → Kept held loops Q s (act s)

namespace Confines

theorem pure {a : α} (ha : Q a) : Confines held loops (pure a) Q :=
  fun _ hs => .of_eq hs rfl rfl fun _ hb => by cases hb; exact ha

theorem throw (e : Stop) : Confines held loops (throw e : Run α) Q :=
  fun _ hs => .of_eq hs rfl rfl nofun

theorem view {f : Interpreter → α} (h : ∀ s, Confined held s → Q (f s)) :
    Confines held loops (view f) Q :=
  fun s hs => .of_eq hs rfl rfl fun _ ha => by cases ha; exact h s hs

/-- The second run gets an answer of the first, and with it what is known of that answer. -/
theorem bind {act : Run α} {next : α → Run β} {Q' : β → Prop} (h : Confines held loops act Q)
    (hnext : ∀ a, Q a → Confines held loops (next a) Q') :
    Confines held loops (act >>= next) Q' := by
  intro s hs
  have hact := h s hs
  rw [bind_apply]
  rcases hx : act s with ⟨e | a, s'⟩ <;> rw [hx] at hact
  · exact hact.error
  · exact hact.trans (hnext a (hact.result a rfl) s' hact.confined)

/-- Looking at the state first tells nothing that matters here. -/
theorem look (f : Interpreter → α) {next : α → Run β} {Q' : β → Prop}
    (h : ∀ a, Confines held loops (next a) Q') :
    Confines held loops (Interpreter.view f >>= next) Q' :=
  bind (Q := fun _ => True) (view fun _ _ => trivial) fun a _ => h a

theorem weaken {act : Run α} {Q' : α → Prop} (h : Confines held loops act Q)
    (hQ : ∀ a, Q a → Q' a) : Confines held loops act Q' := fun s hs =>
  have hact := h s hs
  ⟨hact.confined, hact.trace, hact.channel, fun a ha => hQ a (hact.result a ha)⟩

/-! ## Steps -/

/-- A token may be marked as begun if it is one of the set. -/
theorem mark {m : Mark} (hm : ∀ t, m = .began t → held t) :
    Confines held loops (mark m) fun _ => True := fun _ hs =>
  ⟨⟨hs.words, hs.machine, hs.hosts⟩, ⟨[m], rfl, fun t ht => hm t (List.mem_singleton.1 ht).symm⟩,
    .inr (.refl _), fun _ _ => trivial⟩

theorem cursor (f : Cursor → α × Cursor) :
    Confines held loops (fun s => (.ok (f s.cursor).1, { s with cursor := (f s.cursor).2 }))
      fun _ => True :=
  fun _ hs => .of_eq ⟨hs.words, hs.machine, hs.hosts⟩ rfl rfl fun _ _ => trivial

theorem write (text : String) :
    Confines held loops (onChannel (Channel.write text)) fun _ => True := fun s hs =>
  ⟨⟨hs.words, hs.machine, hs.hosts⟩, ⟨[], rfl, nofun⟩, .inr (.write text s.channel),
    fun _ _ => trivial⟩

/-- Any call may be made where there are read loops. -/
theorem onChannel (hloops : loops) (act : Channel.Action α) :
    Confines held loops (onChannel act) fun _ => True := fun _ hs =>
  ⟨⟨hs.words, hs.machine, hs.hosts⟩, ⟨[], rfl, nofun⟩, .inl hloops, fun _ _ => trivial⟩

theorem machine {act : Machine.Action α}
    (h : ∀ m, m.Within held → (act m).2.Within held ∧ ∀ a, (act m).1 = .ok a → Q a) :
    Confines held loops (onMachine act) Q := by
  intro s hs
  obtain ⟨hm, hresult⟩ := h s.machine hs.machine
  exact .of_eq ⟨hs.words, hm, hs.hosts⟩ rfl rfl fun a ha => hresult a (eq_ok_of_mapError ha)

/-- The code of a host word keeps to the tokens by hypothesis, with all cells of the machine at
hand. -/
theorem callHost (word : HostWord) : Confines held loops (callHost word) fun _ => True := by
  have hcode : ∀ s, Confined held s → ∀ m, m.Within held →
      (s.hostCode.getD word.handle (Pure.pure ()) m).2.Within held := by
    intro s hs m hm
    rw [Array.getD_eq_getD_getElem?]
    rcases hget : s.hostCode[word.handle]? with _ | code
    · exact hm
    · exact hs.hosts code (Array.mem_of_getElem? hget) m hm
  exact bind (Q := fun code => ∀ m, m.Within held → (code m).2.Within held) (view hcode)
    fun _ h => machine fun m hm => ⟨h m hm, fun _ _ => trivial⟩

/-- The steps of words keep to the tokens that are there. -/
theorem guarded (runnable : Token → Prop) {act : Run α} (h : Guarded held runnable act Q) :
    Confines held loops act Q := by
  cases h with
  | machine h =>
    refine machine fun m hm => ?_
    have h := h.careful
    have hexposes : m.Exposes held := ⟨hm.data, hm.memory⟩
    have hafter := h.exposes m hexposes
    refine ⟨⟨hafter.data, ?_, hafter.memory⟩, fun a => h.result m a hexposes⟩
    rw [h.returns]
    exact hm.returns
  | refuse f Q => exact throw _
  | host word _ => exact callHost word
  | readWord => exact cursor (Cursor.readWord Byte.space)
  | parse _ => exact cursor (Cursor.parse Byte.quote)
  | write text => exact write text
  | findWord name => exact view fun s hs e he => hs.words _ ⟨_, e, he, rfl⟩
  | names => exact view fun _ _ => trivial
  | dotS _ => exact look _ fun _ => write _

/-- Keeping to the tokens is a closed judgement, whatever may run. -/
theorem closed (runnable : Token → Prop) :
    Judgement.Closed held runnable fun _ => Confines held loops where
  pure := pure
  begin ht := mark fun _ hu => by cases hu; exact ht
  step := guarded runnable
  bind := bind

end Confines

/-! ## Lines and read loops -/

/-- A run leaves only if `bye` is one of some tokens. -/
def LeavesBy (held : Token → Prop) (flow : Flow) : Prop :=
  flow = .exit → held (.builtin .bye)

/-- A line that begins puts a number on the return stack. -/
theorem Confined.entering (hs : Confined held s) (line : String) :
    Kept held loops (fun _ => True) s (.ok (), s.entering line) where
  confined := ⟨hs.words, { hs.machine with
    returns := List.forall_mem_cons.2 ⟨trivial, hs.machine.returns⟩ }, hs.hosts⟩
  trace := ⟨[.entered _], rfl, by simp⟩
  channel := .inr (.refl _)
  result _ _ := trivial

/-- A line that ends takes cells off the return stack. -/
theorem Kept.leaving {r : Except Stop α × Interpreter} (h : Kept held loops Q s r) (depth : Nat)
    (saved : Cursor) : Kept held loops Q s (r.1, r.2.leaving depth saved) where
  confined := ⟨h.confined.words, { h.confined.machine with
    returns := fun v hv => h.confined.machine.returns v (List.mem_of_mem_drop hv) },
    h.confined.hosts⟩
  trace := by
    obtain ⟨marks, htrace, hmarks⟩ := h.trace
    exact ⟨.left _ :: marks, congrArg (_ :: ·) htrace, by simpa using hmarks⟩
  channel := h.channel
  result := h.result

namespace Confines

/-- Emptying the stacks takes tokens away and adds none. -/
theorem resetMachine : Confines held loops resetMachine fun _ => True := fun _ hs =>
  ⟨⟨hs.words, { hs.machine with data := nofun, returns := nofun }, hs.hosts⟩,
    ⟨[.recovered], rfl, by simp⟩, .inr (.refl _), fun _ _ => trivial⟩

/-- A recovery reports, which is more than writing, so it happens only where there may be read
loops. -/
theorem recovering (hloops : loops) {act next : Run Flow} {done : Run Unit}
    (h : Confines held loops act (LeavesBy held)) (hdone : Confines held loops done fun _ => True)
    (hnext : Confines held loops next (LeavesBy held)) :
    Confines held loops (recovering act done next) (LeavesBy held) := by
  have hrecover : ∀ f, Confines held loops (recover f) fun _ => True := fun f =>
    bind (onChannel hloops _) fun _ _ => resetMachine
  intro s hs
  have hact := h s hs
  rw [recovering_apply]
  rcases hx : act s with ⟨(f | -) | (- | -), s'⟩ <;> rw [hx] at hact
  · dsimp only
    split
    · exact hact.error
    · exact hact.trans (bind (hrecover f) (fun _ _ => hnext) s' hact.confined)
  · exact hact.error
  · exact hact.trans (bind hdone (fun _ _ => hnext) s' hact.confined)
  · exact hact

/-- What one turn keeps, any number of turns keep. -/
theorem turns {turn : Run Flow → Run Flow} (ht : ∀ next, Confines held loops next (LeavesBy held) →
      Confines held loops (turn next) (LeavesBy held)) (n : Nat) :
    Confines held loops (turns turn n) (LeavesBy held) := by
  induction n with
  | zero => exact throw _
  | succ n ih => exact ht _ ih

/-- A line that is entered or left moves no token. -/
theorem within {body : Run Flow} (line : String) (h : Confines held loops body (LeavesBy held)) :
    Confines held loops (within line body) (LeavesBy held) := by
  intro s hs
  cases hfull : s.machine.returns.isFull with
  | true =>
    rw [within_of_full hfull]
    exact .of_eq hs rfl rfl nofun
  | false =>
    rw [within_of_room hfull]
    have henter : Kept held loops (fun _ => True) s (.ok (), s.entering line) := hs.entering line
    exact henter.trans ((h _ henter.confined).leaving _ _)

section Levels

variable {nested : String → Run Flow} {execute : Token → Run Flow}
  (hn : ∀ line, Confines held loops (nested line) (LeavesBy held))
include hn

/-- A read loop reads and reports, so it is let in only where there may be read loops. -/
theorem readLoopWith (hloops : loops) :
    Confines held loops (readLoopWith nested) (LeavesBy held) := by
  refine look _ fun n => turns (fun next hnext => ?_) _
  refine bind (onChannel hloops _) fun line _ => ?_
  cases line with
  | none => exact pure nofun
  | some line => exact recovering hloops (hn line) (write _) hnext

theorem quitWith (hloops : loops) : Confines held loops (quitWith nested) (LeavesBy held) :=
  bind (write _) fun _ _ => readLoopWith hn hloops

/-- After a token has begun, it makes no token and runs none but those that are there. -/
theorem exists_body (t : Token) (hquit : t = .builtin .quit → loops)
    (he : ∀ u, held u → Confines held loops (execute u) (LeavesBy held)) :
    ∃ body, tokenWith nested execute t = (do Interpreter.mark (.began t); body) ∧
      Confines held loops body fun flow =>
        flow = .exit → t = .builtin .bye ∨ held (.builtin .bye) := by
  by_cases hp : t.isPlain = true
  · obtain ⟨act, hact, heq⟩ := exists_sourced_of_isPlain held (fun _ => True) hp trivial
    exact ⟨_, heq _ _, bind ((closed _).sourced hact) fun _ _ => pure nofun⟩
  by_cases hexecute : t = .builtin .execute
  · subst hexecute
    refine ⟨_, rfl, bind (guarded held (.machine .pop)) fun v hv => ?_⟩
    cases v with
    | token u => exact (he u hv).weaken fun _ h hexit => .inr (h hexit)
    | int n => exact throw _
    | text w => exact throw _
    | addr a => exact throw _
  obtain rfl | rfl | rfl := Token.eq_of_not_isPlain hp hexecute
  · refine ⟨_, rfl, bind (guarded held (.machine .pop)) fun v _ => ?_⟩
    cases v with
    | text line => exact (hn line).weaken fun _ h hexit => .inr (h hexit)
    | int n => exact throw _
    | addr a => exact throw _
    | token u => exact throw _
  · exact ⟨_, rfl, (quitWith hn (hquit rfl)).weaken fun _ h hexit => .inr (h hexit)⟩
  · exact ⟨_, rfl, pure fun _ => .inl rfl⟩

variable (hquit : held (.builtin .quit) → loops)
include hquit

/-- By induction on how often `execute` may run `execute`: what it runs next was in a cell. -/
theorem executeWith (n : Nat) :
    ∀ t, held t → Confines held loops (executeWith nested n t) (LeavesBy held) := by
  induction n with
  | zero => exact fun _ _ => throw _
  | succ n ih =>
    intro t ht
    obtain ⟨body, heq, hbody⟩ := exists_body hn t (fun h => hquit (h ▸ ht)) ih
    rw [Interpreter.executeWith, heq]
    refine bind (mark fun u hu => ?_) fun _ _ => hbody.weaken fun _ h hexit => ?_
    · cases hu
      exact ht
    · exact (h hexit).elim (fun hbye => hbye ▸ ht) id

/-- A token that is there keeps to the tokens that are there. -/
theorem executeTokenWith {t : Token} (ht : held t) :
    Confines held loops (executeTokenWith nested t) (LeavesBy held) :=
  look _ fun _ => executeWith hn hquit _ t ht

/-- A word that is called by name runs a token of the dictionary. -/
theorem executeWordWith (name : String) :
    Confines held loops (executeWordWith nested name) (LeavesBy held) :=
  bind ((closed held).sourced (.tokenOf name)) fun _ ht => executeTokenWith hn hquit ht

theorem wordWith (word : String) : Confines held loops (wordWith nested word) (LeavesBy held) := by
  unfold Interpreter.wordWith
  split
  · exact bind (guarded held (.machine (.push trivial))) fun _ _ => pure nofun
  · exact executeWordWith hn hquit _
  · exact throw _

/-- By the turns of a line, each of which pushes a number or runs a token of the dictionary. -/
theorem lineWith : Confines held loops (lineWith nested) (LeavesBy held) := by
  refine look _ fun n => turns (fun next hnext => ?_) _
  refine bind (guarded held .readWord) fun word _ => ?_
  cases word with
  | none => exact pure nofun
  | some word =>
    refine bind (wordWith hn hquit word) fun flow hflow => ?_
    cases flow with
    | exit => exact pure hflow
    | proceed => exact hnext

omit hn in
/-- Every line at every level keeps to the tokens that are there. -/
theorem interpretAt (n : Nat) :
    ∀ line, Confines held loops (interpretAt n line) (LeavesBy held) := by
  induction n with
  | zero => exact fun _ => throw _
  | succ n ih => exact fun line => within line (lineWith ih hquit)

end Levels

/-! ## Calls with any number of levels -/

section Calls

variable (count : Interpreter → Nat)

theorem line (hquit : held (.builtin .quit) → loops) (text : String) :
    Confines held loops (do Interpreter.interpretAt (← Interpreter.view count) text)
      (LeavesBy held) :=
  look count fun n => interpretAt hquit n text

theorem word (hquit : held (.builtin .quit) → loops) (name : String) :
    Confines held loops
      (do Interpreter.executeWordWith (Interpreter.interpretAt (← Interpreter.view count)) name)
      (LeavesBy held) :=
  look count fun n => executeWordWith (interpretAt hquit n) hquit name

/-- The read loop keeps to the tokens, however the levels of its lines are counted. -/
theorem loop : Confines held True
    (do Interpreter.quitWith (Interpreter.interpretAt (← Interpreter.view count)))
    (LeavesBy held) :=
  look count fun n => quitWith (interpretAt (fun _ => trivial) n) trivial

end Calls

end Confines

/-- The token that is asked for need not be there, and it is not there for that. -/
theorem Confined.token (hs : Confined held s) (count : Interpreter → Nat) (t : Token) :
    Kept held True (fun flow => flow = .exit → t = .builtin .bye ∨ held (.builtin .bye))
      { s with trace := .began t :: s.trace }
      ((do executeTokenWith (interpretAt (← view count)) t : Run Flow) s) := by
  have hn : ∀ line, Confines held True (interpretAt (count s) line) (LeavesBy held) :=
    Confines.interpretAt (fun _ => trivial) _
  obtain ⟨body, heq, hbody⟩ := Confines.exists_body hn t (fun _ => trivial)
    (Confines.executeWith hn (fun _ => trivial) s.machine.data.depth)
  have hrun : executeTokenWith (interpretAt (count s)) t s =
      body { s with trace := .began t :: s.trace } := by
    rw [executeTokenWith, view_bind, executeWith, heq]
    exact bind_of_ok rfl
  rw [view_bind, hrun]
  exact hbody _ ⟨hs.words, hs.machine, hs.hosts⟩

/-- A run made no token: those on the machine were there or in the dictionary before, and so were
those that began to run after the marks that were asked for. -/
structure Unforged (s : Interpreter) (asked : List Mark) (s' : Interpreter) : Prop where
  held : ∀ t, s'.machine.Holds t → s.Holds t
  executed : ∃ marks, s'.trace = marks ++ asked ++ s.trace ∧ ∀ t, .began t ∈ marks → s.Holds t

/-- To keep to the tokens that were there is to make none. -/
theorem Kept.unforged {asked : List Mark} {r : Except Stop α × Interpreter}
    (h : Kept s.Holds loops Q { s with trace := asked ++ s.trace } r) : Unforged s asked r.2 := by
  obtain ⟨marks, htrace, hmarks⟩ := h.trace
  exact ⟨Machine.within_iff.1 h.confined.machine, marks, by rw [htrace, List.append_assoc], hmarks⟩

/-- The interpreter on a channel that refuses no write. -/
def unfailing (s : Interpreter) : Interpreter :=
  { s with channel := s.channel.breaking .writing none }

/-- A run that calls the channel only to write: some texts, or those up to the first one that is
refused. -/
structure OnlyWrites (act : Run α) (s : Interpreter) : Prop where
  unread : (act s).2.channel.unread = s.channel.unread
  calls : ∃ texts : List String, callsOf act s.unfailing = texts.map .wrote ∧
    (callsOf act s = texts.map .wrote ∨ ∃ before text after, texts = before ++ text :: after ∧
      callsOf act s = before.map .wrote ++ [.refusedWrite])

/-- Calls that were all granted and made to write. -/
theorem exists_texts {calls : List Call} (h : ∀ call ∈ calls, call.isWrite = true)
    (hgranted : .refusedWrite ∉ calls) : ∃ texts : List String, calls = texts.map .wrote := by
  induction calls with
  | nil => exact ⟨[], rfl⟩
  | cons call calls ih =>
    obtain ⟨hcall, hcalls⟩ := List.forall_mem_cons.1 h
    obtain ⟨texts, rfl⟩ := ih hcalls fun hmem => hgranted (List.mem_cons_of_mem _ hmem)
    cases call with
    | wrote text => exact ⟨text :: texts, rfl⟩
    | refusedWrite => exact absurd List.mem_cons_self hgranted
    | reported text => cases hcall
    | took line => cases hcall
    | ended => cases hcall
    | refusedRead => cases hcall

/-- What a run writes on a channel that refuses nothing shows which call is refused on another. -/
theorem Breaks.onlyWrites {act : Run α} (h : Breaks .writing α act act)
    (hs : s.channel.Written (act s).2.channel)
    (hs₀ : s.unfailing.channel.Written (act s.unfailing).2.channel) : OnlyWrites act s := by
  refine ⟨hs.unread, ?_⟩
  have hnone : s.unfailing.channel.breakage .writing = none := Channel.breakage_breaking_self _ _ _
  have hbroken := h.brokenOff hnone
  obtain ⟨made, hmakes, hwrite⟩ := hs₀
  obtain ⟨texts, htexts⟩ : ∃ texts : List String, callsOf act s.unfailing = texts.map .wrote := by
    refine exists_texts (fun call hcall => hwrite call ?_) (hbroken ⟨0, ""⟩).granted
    rw [callsOf_eq hmakes.calls] at hcall
    exact List.mem_reverse.1 hcall
  refine ⟨texts, htexts, ?_⟩
  cases hb : s.channel.breakage .writing with
  | none =>
    have heq : s.unfailing = s := by rw [unfailing, Channel.breaking_none hb]
    rw [heq] at htexts
    exact .inl htexts
  | some b =>
    have heq : s.unfailing.breaking .writing b = s := by
      simp only [breaking, unfailing, Channel.breaking_breaking_self, ← hb,
        Channel.breaking_breakage]
    rcases Nat.lt_or_ge b.after (callsIn .writing act s.unfailing).length with hlt | hle
    · -- the calls before the refusal are those of the other run, and the refused one is its next
      obtain ⟨before, call, after, hcut⟩ := (hbroken b).cut hlt
      have hfailing := hcut.failing
      rw [heq] at hfailing
      obtain ⟨early, late, rfl, hearly, hlate⟩ :=
        List.map_eq_append_iff.1 (htexts.symm.trans hcut.unfailing)
      obtain ⟨text, late, rfl, -, -⟩ := List.map_eq_cons_iff.1 hlate
      exact .inr ⟨early, text, late, rfl, hearly ▸ hfailing⟩
    · have hspared := (hbroken b).spared hle
      rw [heq] at hspared
      have hcalls : (act s).2.channel.calls = (act s.unfailing).2.channel.calls := by
        rw [hspared]
        rfl
      exact .inl (by rw [← htexts, callsOf, callsOf, hcalls]; rfl)

/-- Where there are no read loops, the channel is called only to write. -/
theorem Confines.onlyWrites {act : Run α} (h : Confines held loops act Q) (hloops : ¬ loops)
    (hact : Breaks .writing α act act) (hs : Confined held s) : OnlyWrites act s :=
  hact.onlyWrites ((h s hs).channel.resolve_left hloops)
    ((h s.unfailing ⟨hs.words, hs.machine, hs.hosts⟩).channel.resolve_left hloops)

/-- What is said of the calls of an interpreter whose words make no tokens: a line, a token that is
asked for, a word and the read loop. What is on the machine afterwards, and what ran, was in the
dictionary or on the machine before. So without `bye` no call leaves, and without `quit` no line and
no word does anything on the channel but write. -/
structure Unforging (s : Interpreter) (line : String → Run Flow) (token : Token → Run Flow)
    (word : String → Run Flow) (loop : Run Flow) : Prop where
  lines : ∀ text, Unforged s [] (line text s).2
  tokens : ∀ t, Unforged s [.began t] (token t s).2
  words : ∀ name, Unforged s [] (word name s).2
  readLoop : Unforged s [] (loop s).2
  stays : ¬ s.Holds (.builtin .bye) →
    (∀ text, (line text s).1 ≠ .ok .exit) ∧
    (∀ t, t ≠ .builtin .bye → (token t s).1 ≠ .ok .exit) ∧
    (∀ name, (word name s).1 ≠ .ok .exit) ∧ (loop s).1 ≠ .ok .exit
  onlyWrites : ¬ s.Holds (.builtin .quit) →
    (∀ text, OnlyWrites (line text) s) ∧ ∀ name, OnlyWrites (word name) s

/-- The calls make no tokens, with however many levels of lines. The levels may be counted at the
start, if the count does not depend on when the channel fails. -/
theorem HostsForgeNone.unforging (hs : s.HostsForgeNone) (count : Interpreter → Nat)
    (hcount : Breaks .writing Nat (view count) (view count)) :
    Unforging s (fun text => do interpretAt (← view count) text)
      (fun t => do executeTokenWith (interpretAt (← view count)) t)
      (fun name => do executeWordWith (interpretAt (← view count)) name)
      (do quitWith (interpretAt (← view count))) := by
  have hc := hs.confined
  -- Read loops may run here. What depends on them is asked once more below, where none can.
  have hany : s.Holds (.builtin .quit) → True := fun _ => trivial
  have hline := fun text => Confines.line count hany text s hc
  have hword := fun name => Confines.word count hany name s hc
  have hloop := Confines.loop count s hc
  constructor
  · exact fun text => (hline text).unforged
  · exact fun t => (hc.token count t).unforged
  · exact fun name => (hword name).unforged
  · exact hloop.unforged
  · intro hbye
    refine ⟨fun text hexit => ?_, fun t ht hexit => ?_, fun name hexit => ?_, fun hexit => ?_⟩
    · exact hbye ((hline text).result _ hexit rfl)
    · exact ((hc.token count t).result _ hexit rfl).elim ht hbye
    · exact hbye ((hword name).result _ hexit rfl)
    · exact hbye (hloop.result _ hexit rfl)
  · intro hquit
    refine ⟨fun text => ?_, fun name => ?_⟩
    · exact (Confines.line count id text).onlyWrites hquit
        (.bind hcount fun n => Breaks.closed.interpretAt n text) hc
    · exact (Confines.word count id name).onlyWrites hquit
        (.bind hcount fun n => Breaks.closed.executeWordWith (Breaks.closed.interpretAt n) name) hc

/-- No word makes a token: not in the calls of an interpreter, and not in calls with any other
number of levels of lines, so also not where host words take cells off the return stack and lines
nest as deep as they like. -/
theorem tokens_unforged (hs : s.HostsForgeNone) :
    Unforging s interpret execute executeWord quit ∧
    ∀ n, Unforging s (interpretAt n) (executeTokenWith (interpretAt n))
      (executeWordWith (interpretAt n)) (quitWith (interpretAt n)) :=
  ⟨hs.unforging levels (.of_channel (fun _ => rfl) fun _ _ => rfl),
    fun n => hs.unforging (fun _ => n) (.of_channel (fun _ => rfl) fun _ _ => rfl)⟩

/-- The host has put words of its own in the place of `bye` and `quit`: one that empties the return
stack, so that lines nest without bound, and one that copies the top of the data stack. -/
theorem tokens_unforged_replaced :
    let forget : Machine.Action Unit := modify fun m => { m with returns := m.returns.clear }
    let s := ((new 4 (.ofLines ["1 ."])).defineHost "bye" forget).defineHost "quit"
      (Machine.onData Stack.dup)
    s.HostsForgeNone ∧ ¬ s.Holds (.builtin .bye) ∧ ¬ s.Holds (.builtin .quit) ∧
    Unforged s [] (interpret "' bye quit bye execute s\" quit\" evaluate" s).2 ∧
    (interpret "bye ' bye execute" s).1 ≠ .ok .exit ∧
    OnlyWrites (interpret "1 quit . ' quit execute") s ∧
    ∀ n, (interpretAt n "bye s\" bye\" evaluate" s).1 ≠ .ok .exit := by
  intro forget s
  have hs : s.HostsForgeNone := by
    intro code hcode m t ht
    have hcodes : code = forget ∨ code = Machine.onData Stack.dup := by
      simpa [s, defineHost, new] using hcode
    left
    rcases hcodes with rfl | rfl
    · obtain hdata | hreturns | hmemory := ht
      · exact .inl hdata
      · cases hreturns
      · exact .inr (.inr hmemory)
    · rcases hdup : Stack.dup m.data with f | ⟨_, d⟩
      · simpa [Machine.onData, Transaction.settle_of_error hdup] using ht
      · simp only [Machine.onData, Transaction.settle_of_ok hdup] at ht
        exact ht.imp_left (Stack.Rearrangement.dup.mem_of_mem hdup)
  obtain ⟨hbye, hquit⟩ : ¬ s.Holds (.builtin .bye) ∧ ¬ s.Holds (.builtin .quit) := by
    decide +kernel
  obtain ⟨hcalls, hlevels⟩ := tokens_unforged hs
  exact ⟨hs, hbye, hquit, hcalls.lines _, (hcalls.stays hbye).1 _, (hcalls.onlyWrites hquit).1 _,
    fun n => ((hlevels n).stays hbye).1 _⟩

end Interpreter

end CellForth
