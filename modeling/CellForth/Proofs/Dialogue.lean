import CellForth.Proofs.Calls

/-!
# The read loop and its lines

On a channel that does not break, with host words that do not fail for reasons of the outside
world, the read loop is a simple one (`ReadLoop`): it takes the oldest line, interprets it, prompts
or reports, and reads on, until there is no line left or a line leaves.

A line can open a read loop of its own, which takes lines while the outer one is still open. What
happens over all levels is said by the events of the run. `Answered` are the events of a run that
came to its end: every read loop in it went on until it was told that no line is left, and every
line that was taken was interpreted once and then acknowledged once (`Exchanges`). `Left` are the
events of a run that `bye` ended: the lines that were open then are not acknowledged, and all
others are.
-/

namespace CellForth.Interpreter

/-- What acknowledges a line: a prompt or the report of a fault. -/
inductive IsAcknowledgement : Call → Prop where
  | prompt : IsAcknowledgement (.wrote prompt)
  | report (f : Fault) : IsAcknowledgement (.reported f.report)

mutual

/-- The events of a run that came to its end. A line is interpreted where a word evaluates it or
where a read loop took it. -/
inductive Answered : List Event → Prop where
  | nil : Answered []
  | began {t : Token} {es : List Event} (ht : t ≠ .builtin .bye) (h : Answered es) :
    Answered (.began t :: es)
  | word {call : Call} {es : List Event} (hcall : call.direction = .writing) (h : Answered es) :
    Answered (.word call :: es)
  | evaluated (text : String) {es : List Event} (h : Answered es) :
    Answered (.began (.builtin .evaluate) :: .line text :: es)
  | loop {xs es : List Event} (hx : Exchanges xs) (h : Answered es) :
    Answered (.began (.builtin .quit) :: .opened (.wrote prompt) :: (xs ++ .asked .ended :: es))

/-- The events of a read loop that goes on: lines that were taken, interpreted and
acknowledged. -/
inductive Exchanges : List Event → Prop where
  | nil : Exchanges []
  | cons (line : String) {inner xs : List Event} {call : Call} (hinner : Answered inner)
    (hcall : IsAcknowledgement call) (h : Exchanges xs) :
    Exchanges (.asked (.took line) :: .line line :: (inner ++ .acknowledged line call :: xs))

end

/-- The events of a run that `bye` ended, and the lines that read loops had taken and that were
still open then, innermost first. -/
inductive Left : List String → List Event → Prop where
  | bye {es : List Event} (h : Answered es) : Left [] (es ++ [.began (.builtin .bye)])
  | inside {lines : List String} {es xs inner : List Event} (h : Answered es) (hx : Exchanges xs)
    (line : String) (hinner : Left lines inner) :
    Left (lines ++ [line]) (es ++ .began (.builtin .quit) :: .opened (.wrote prompt) ::
      (xs ++ .asked (.took line) :: .line line :: inner))

/-- The events of a read loop after its first prompt, and the lines that it left open, those of the
loops inside it included. -/
inductive LoopEvents : Flow → List String → List Event → Prop where
  | ended {xs : List Event} (hx : Exchanges xs) : LoopEvents .proceed [] (xs ++ [.asked .ended])
  | left {xs inner : List Event} {lines : List String} (hx : Exchanges xs) (line : String)
    (hinner : Left lines inner) :
    LoopEvents .exit (lines ++ [line]) (xs ++ .asked (.took line) :: .line line :: inner)

/-- Runs that came to their end, one after the other, came to their end together. -/
theorem Answered.append {es es' : List Event} : Answered es → Answered es' → Answered (es ++ es')
  | .nil, h' => h'
  | .began ht h, h' => .began ht (h.append h')
  | .word hcall h, h' => .word hcall (h.append h')
  | .evaluated text h, h' => .evaluated text (h.append h')
  | .loop hx h, h' => by
    have := Answered.loop hx (h.append h')
    simpa using this

theorem Left.prepend {es : List Event} (h : Answered es) {lines : List String} {es' : List Event}
    (h' : Left lines es') : Left lines (es ++ es') := by
  cases h' with
  | bye h' =>
    rw [← List.append_assoc]
    exact .bye (h.append h')
  | inside h' hx line hinner =>
    rw [← List.append_assoc]
    exact .inside (h.append h') hx line hinner

/-- A line that is taken, interpreted and acknowledged goes in front of the rest of the loop. -/
theorem LoopEvents.cons {flow : Flow} {lines : List String} {es inner : List Event}
    (line : String) {call : Call} (hinner : Answered inner) (hcall : IsAcknowledgement call)
    (h : LoopEvents flow lines es) :
    LoopEvents flow lines
      (.asked (.took line) :: .line line :: (inner ++ .acknowledged line call :: es)) := by
  cases h with
  | ended hx =>
    have := LoopEvents.ended (.cons line hinner hcall hx)
    simpa using this
  | left hx next hleft =>
    have := LoopEvents.left (.cons line hinner hcall hx) next hleft
    simpa using this

/-! ## Every line is acknowledged but those left open -/

/-- The lines that were taken, in order. -/
def Event.taken (es : List Event) : List String :=
  (Event.calls es).filterMap Call.line?

/-- The line that an event acknowledges. -/
def Event.answer? : Event → Option String
  | .acknowledged text _ => some text
  | _ => none

/-- The lines that were acknowledged, in order. -/
def Event.answered (es : List Event) : List String :=
  es.filterMap answer?

@[simp]
theorem Event.taken_append (es es' : List Event) : taken (es ++ es') = taken es ++ taken es' := by
  simp [taken, calls_append]

@[simp]
theorem Event.answered_append (es es' : List Event) :
    answered (es ++ es') = answered es ++ answered es' :=
  List.filterMap_append

/-- A call that writes takes no line. -/
theorem Event.taken_cons_of_writing {e : Event} {call : Call} (he : e.call? = some call)
    (hcall : call.direction = .writing) (es : List Event) : taken (e :: es) = taken es := by
  have hline : call.line? = none := by
    cases call with
    | wrote text | reported text | refusedWrite => rfl
    | took line | ended | refusedRead => cases hcall
  simp [taken, calls, he, hline]

theorem IsAcknowledgement.direction {call : Call} (h : IsAcknowledgement call) :
    call.direction = .writing := by
  cases h <;> rfl

mutual

/-- By mutual induction: in a run that came to its end, the lines taken are the lines
acknowledged. -/
theorem Answered.perm {es : List Event} : Answered es → (Event.taken es).Perm (Event.answered es)
  | .nil => .refl _
  | .began _ h => h.perm
  | .word hcall h => by
    rw [Event.taken_cons_of_writing rfl hcall]
    exact h.perm
  | .evaluated _ h => h.perm
  | @Answered.loop xs es hx h => by
    show (Event.taken (xs ++ .asked .ended :: es)).Perm
      (Event.answered (xs ++ .asked .ended :: es))
    rw [Event.taken_append, Event.answered_append]
    exact hx.perm.append h.perm

theorem Exchanges.perm {xs : List Event} : Exchanges xs →
    (Event.taken xs).Perm (Event.answered xs)
  | .nil => .refl _
  | @Exchanges.cons line inner xs call hinner hcall h => by
    show (line :: Event.taken (inner ++ .acknowledged line call :: xs)).Perm
      (Event.answered (inner ++ .acknowledged line call :: xs))
    rw [Event.taken_append, Event.answered_append,
      Event.taken_cons_of_writing rfl hcall.direction]
    exact ((hinner.perm.append h.perm).cons line).trans List.perm_middle.symm

end

/-- A line that was taken and left open, after lines that were answered. -/
theorem Exchanges.perm_append {xs inner : List Event} {line : String} {lines : List String}
    (hx : Exchanges xs) (h : (Event.taken inner).Perm (Event.answered inner ++ lines)) :
    (Event.taken (xs ++ .asked (.took line) :: .line line :: inner)).Perm
      (Event.answered (xs ++ .asked (.took line) :: .line line :: inner) ++ (lines ++ [line])) := by
  have hline : (line :: Event.taken inner).Perm (Event.answered inner ++ (lines ++ [line])) := by
    rw [← List.append_assoc]
    exact (h.cons line).trans (List.perm_append_singleton line _).symm
  rw [Event.taken_append, Event.answered_append, List.append_assoc]
  exact hx.perm.append hline

/-- In a run that `bye` ended, the lines taken are those acknowledged and those left open. -/
theorem Left.perm {lines : List String} {es : List Event} (h : Left lines es) :
    (Event.taken es).Perm (Event.answered es ++ lines) := by
  induction h with
  | bye h =>
    rw [Event.taken_append, Event.answered_append, List.append_nil]
    exact h.perm.append (.refl _)
  | inside h hx line _ ih =>
    rw [Event.taken_append, Event.answered_append, List.append_assoc]
    exact h.perm.append (hx.perm_append ih)

/-- The lines that were taken are those that were acknowledged and those left open. -/
theorem LoopEvents.perm {flow : Flow} {lines : List String} {es : List Event}
    (h : LoopEvents flow lines es) : (Event.taken es).Perm (Event.answered es ++ lines) := by
  cases h with
  | ended hx =>
    rw [Event.taken_append, Event.answered_append, List.append_nil]
    exact hx.perm.append (.refl _)
  | left hx line hinner => exact hx.perm_append hinner.perm

/-! ## What the events of a run tell -/

/-- The events of a run with a result: if it left, some lines were left open. -/
inductive Ends : Except Fault Flow → List Event → Prop where
  | answered {x : Except Fault Flow} {es : List Event} (h : Answered es) (hx : x ≠ .ok .exit) :
    Ends x es
  | left {lines : List String} {es : List Event} (h : Left lines es) : Ends (.ok .exit) es

/-- A result is told by the events after those that came to their end. -/
theorem Ends.prepend {x : Except Fault Flow} {es es' : List Event} (h : Answered es)
    (h' : Ends x es') : Ends x (es ++ es') := by
  cases h' with
  | answered h' hx => exact .answered (h.append h') hx
  | left h' => exact .left (h'.prepend h)

theorem Ends.answered_of_ne {x : Except Fault Flow} {es : List Event} (h : Ends x es)
    (hx : x ≠ .ok .exit) : Answered es := by
  cases h with
  | answered h _ => exact h
  | left _ => exact absurd rfl hx

/-- The events of a part with a result. A read loop does not fail. -/
inductive Told : Part → Except Fault Flow → List Event → Prop where
  | line (text : String) {x : Except Fault Flow} {es : List Event} (h : Ends x es) :
    Told (.line text) x (.line text :: es)
  | rest {x : Except Fault Flow} {es : List Event} (h : Ends x es) : Told .rest x es
  | item (i : Item) {x : Except Fault Flow} {es : List Event} (h : Ends x es) : Told (.item i) x es
  | loop {flow : Flow} {lines : List String} {es : List Event} (h : LoopEvents flow lines es) :
    Told .loop (.ok flow) es

variable {s s' s₁ s₂ : Interpreter} {p : Part} {i : Item} {es : List Event}
  {x : Except Fault Flow} {line : String}

/-- An item that neither leaves nor opens a read loop only begins and writes. -/
theorem Item.answered_events (hbye : i ≠ .token (.builtin .bye))
    (hquit : i ≠ .token (.builtin .quit)) (s : Interpreter) : Answered (i.events s) := by
  have hevent : i.event = .word := by
    unfold Item.event
    split
    · exact absurd rfl hquit
    · rfl
  have hcalls : ∀ calls : List Call, (∀ call ∈ calls, call.direction = .writing) →
      Answered (calls.map .word) := by
    intro calls hwrites
    induction calls with
    | nil => exact .nil
    | cons call calls ih =>
      obtain ⟨hcall, hwrites⟩ := List.forall_mem_cons.1 hwrites
      exact .word hcall (ih hwrites)
  have hall := hcalls _ (i.made_lead.writes s).direction
  rw [Item.events, hevent]
  cases i with
  | word text => exact hall
  | token t => exact .began (fun h => hbye (h ▸ rfl)) hall

/-- The read loop goes on after one call that acknowledges the line. -/
theorem acknowledgement_of_none (line : String) (hack : acknowledge x s₁ = (.ok none, s₂)) :
    x ≠ .ok .exit ∧ ∃ call, IsAcknowledgement call ∧
      acknowledgement line x s₁ = [.acknowledged line call] := by
  have hcalls : ∀ call, s₂.channel.calls = call :: s₁.channel.calls →
      acknowledgement line x s₁ = [.acknowledged line call] := by
    intro call h
    rw [acknowledgement, callsOf_eq_singleton hack h]
    rfl
  cases Acknowledges.of_eq hack with
  | prompts h =>
    exact ⟨by simp, _, .prompt, hcalls _ (Channel.eq_of_answer_ok h).2.2⟩
  | recovers _ h =>
    exact ⟨by simp, _, .report _, hcalls _ (Channel.eq_of_answer_ok h).2.2⟩

/-- A line that leaves is not acknowledged. -/
theorem acknowledgement_of_some {flow : Flow} (line : String)
    (hack : acknowledge x s₁ = (.ok (some flow), s₂)) :
    x = .ok .exit ∧ flow = .exit ∧ acknowledgement line x s₁ = [] := by
  cases Acknowledges.of_eq hack
  refine ⟨rfl, rfl, ?_⟩
  rw [acknowledgement, callsOf_eq_nil hack rfl]
  rfl

theorem Told.ends_rest (h : Told .rest x es) : Ends x es := by
  cases h with
  | rest h => exact h

theorem Told.ends_item (h : Told (.item i) x es) : Ends x es := by
  cases h with
  | item _ h => exact h

/-- What an item and the part that it hands over to tell together. -/
theorem Told.handsOver (hlead : i.lead s = (.ok (.inr p), s₁)) (h : Told p x es) :
    Ends x (i.events s ++ es) := by
  cases i with
  | word text =>
    obtain ⟨t, rfl⟩ := Item.eq_of_word_handsOver hlead
    exact h.ends_item.prepend (Item.answered_events (i := .word text) nofun nofun s)
  | token t =>
    rcases Item.eq_of_token_handsOver hlead with
      ⟨u, rfl, rfl, -⟩ | ⟨text, rfl, rfl, hchannel⟩ | ⟨rfl, rfl, hcalls⟩
    · exact h.ends_item.prepend
        (Item.answered_events (i := .token (.builtin .execute)) nofun nofun s)
    · have hevents :
          (Item.token (.builtin .evaluate)).events s = [.began (.builtin .evaluate)] := by
        rw [Item.events, callsOf_eq_nil hlead (by rw [hchannel])]
        rfl
      rw [hevents]
      cases h with
      | line _ h =>
        have hall := h.prepend (.evaluated text .nil)
        exact hall
    · have hevents : (Item.token (.builtin .quit)).events s =
          [.began (.builtin .quit), .opened (.wrote prompt)] := by
        rw [Item.events, callsOf_eq_singleton hlead hcalls]
        rfl
      rw [hevents]
      cases h with
      | loop h =>
        cases h with
        | ended hx => exact .answered (.loop hx .nil) (by simp)
        | left hx line hinner => exact .left (.inside .nil hx line hinner)

/-- Nothing of its own can make `bye` or `quit` fail. -/
theorem Item.ne_of_refused {f : Fault} (h : i.lead s = (.error (.fault f), s'))
    (hf : f.isFatal = false) : i ≠ .token (.builtin .bye) ∧ i ≠ .token (.builtin .quit) := by
  refine ⟨fun hi => ?_, fun hi => ?_⟩
  · subst hi
    cases h
  · subst hi
    obtain ⟨s₁, h⟩ : ∃ s₁, (onChannel (Channel.write prompt) >>= fun _ =>
        (pure (.inr .loop) : Run (Flow ⊕ Part))) s₁ = (.error (.fault f), s') := ⟨_, h⟩
    rcases hw : Channel.write prompt s₁.channel with ⟨g | _, c⟩
    · rw [bind_of_error (onChannel_of hw)] at h
      cases h
      rw [(Channel.eq_of_answer_error hw).1] at hf
      cases hf
    · rw [bind_of_ok (onChannel_of hw)] at h
      cases h

/-- What the events of a run are, if nothing of the outside world goes wrong. -/
theorem Runs.told (h : Runs p s es x s') (hs : s.Steady) : Told p x es := by
  induction h with
  | full h => exact .line _ (.answered .nil nofun)
  | line h _ ih => exact .line _ (ih (hs.of_eq rfl rfl)).ends_rest
  | noWord h => exact .rest (.answered .nil nofun)
  | nextWord h hword _ ih ih' =>
    have hs₁ := hs.readWord h
    have hanswered := (ih hs₁).ends_item.answered_of_ne nofun
    exact .rest ((ih' (hword.steady hs₁)).ends_rest.prepend hanswered)
  | lastWord h _ _ ih => exact .rest (ih (hs.readWord h)).ends_item
  | @done s _ i _ h =>
    rcases Item.eq_of_done h with ⟨rfl, rfl⟩ | ⟨hbye, hquit, rfl⟩
    · have hevents : (Item.token (.builtin .bye)).events s = [.began (.builtin .bye)] := by
        rw [Item.events, callsOf_eq_nil h (congrArg (·.2.channel.calls) h.symm)]
        rfl
      rw [hevents]
      exact .item _ (.left (.bye .nil))
    · exact .item _ (.answered (Item.answered_events hbye hquit s) nofun)
  | @refused s _ i f h =>
    have hf := (Runs.refused h).isFatal_of_steady hs rfl
    obtain ⟨hbye, hquit⟩ := Item.ne_of_refused h hf
    exact .item _ (.answered (Item.answered_events hbye hquit s) (by simp))
  | handsOver h _ ih => exact .item _ ((ih (hs.lead h)).handsOver h)
  | ended h => exact .loop (.ended .nil)
  | unread h =>
    -- On a channel that does not break no fault is fatal, and a refused read would be.
    have hf := (Runs.unread h).isFatal_of_steady hs rfl
    rw [(Channel.eq_of_read_error h).1] at hf
    cases hf
  | @readsOn _ _ _ _ line _ _ _ _ _ h hline hack _ ih ih' =>
    have hs₁ := hline.steady (hs.read h)
    obtain ⟨hx, call, hcall, hack'⟩ := acknowledgement_of_none line hack
    rw [hack']
    obtain ⟨-, hends⟩ | - | - | - := ih (hs.read h)
    obtain - | - | - | hloop := ih' (hs₁.acknowledge (.of_eq hack))
    have := hloop.cons line (hends.answered_of_ne hx) hcall
    simpa using Told.loop this
  | @leaves _ _ _ line _ _ _ _ h hline hack ih =>
    obtain ⟨rfl, rfl, hack'⟩ := acknowledgement_of_some line hack
    rw [hack', List.append_nil]
    obtain ⟨-, hends⟩ | - | - | - := ih (hs.read h)
    cases hends with
    | answered _ hx => exact absurd rfl hx
    | left hleft => exact .loop (.left .nil line hleft)
  | breaksOff h hline hack ih =>
    have hf := (Runs.breaksOff h hline hack).isFatal_of_steady hs rfl
    cases Acknowledges.of_eq hack with
    | fatal hfatal =>
      rw [hfatal] at hf
      cases hf
    | unprompted hw =>
      rw [(Channel.eq_of_answer_error hw).1] at hf
      cases hf
    | unreported _ hw =>
      rw [(Channel.eq_of_answer_error hw).1] at hf
      cases hf

/-! ## The read loop -/

/-- The state after a call on the channel that leaves `rest` to be taken. -/
def calling (call : Call) (rest : List String) (s : Interpreter) : Interpreter :=
  { s with channel := s.channel.recording call rest }

/-- The state after a fault was reported and both stacks were emptied. -/
def recoveredFrom (f : Fault) (s : Interpreter) : Interpreter :=
  { s.calling (.reported ("error: " ++ f.message ++ "\n")) s.channel.unread with
    machine := s.machine.reset
    trace := .recovered :: s.trace }

/-- The read loop on a channel that does not break. -/
inductive ReadLoop : Interpreter → Flow → Interpreter → Prop where
  | ended {s : Interpreter} (h : s.channel.unread = []) :
    ReadLoop s .proceed (s.calling .ended [])
  | done {s s₁ s' : Interpreter} {line : String} {rest : List String} {flow : Flow}
    (h : s.channel.unread = line :: rest)
    (hline : interpret line (s.calling (.took line) rest) = (.ok .proceed, s₁))
    (hloop : ReadLoop (s₁.calling (.wrote prompt) s₁.channel.unread) flow s') : ReadLoop s flow s'
  | left {s s' : Interpreter} {line : String} {rest : List String}
    (h : s.channel.unread = line :: rest)
    (hline : interpret line (s.calling (.took line) rest) = (.ok .exit, s')) : ReadLoop s .exit s'
  | failed {s s₁ s' : Interpreter} {line : String} {rest : List String} {f : Fault} {flow : Flow}
    (h : s.channel.unread = line :: rest)
    (hline : interpret line (s.calling (.took line) rest) = (.error (.fault f), s₁))
    (hloop : ReadLoop (s₁.recoveredFrom f) flow s') : ReadLoop s flow s'

namespace Steady

variable {c : Channel} (hs : s.Steady)
include hs

/-- On a channel that does not break, a read finds the end only if no line is left. -/
theorem read_none (h : Channel.read s.channel = (.ok none, c)) :
    s.channel.unread = [] ∧ c = s.channel.recording .ended [] := by
  have hu := Channel.unread_of_read_none h
  rw [Channel.read_of_nil hu, hs.answer] at h
  cases h
  exact ⟨hu, rfl⟩

/-- On a channel that does not break, a read takes the oldest line. -/
theorem read_some (h : Channel.read s.channel = (.ok (some line), c)) :
    ∃ rest, s.channel.unread = line :: rest ∧ c = s.channel.recording (.took line) rest := by
  have hu := Channel.unread_of_read_some h
  rw [Channel.read_of_cons hu, hs.answer] at h
  exact ⟨_, hu, (congrArg Prod.snd h).symm⟩

end Steady

/-- A read loop by the rules is one. -/
theorem Runs.readLoop (h : Runs p s es x s') (hs : s.Steady) (hp : p = .loop) :
    ∃ flow, x = .ok flow ∧ ReadLoop s flow s' := by
  induction h with
  | full _ => cases hp
  | line _ _ _ => cases hp
  | noWord _ => cases hp
  | nextWord _ _ _ _ _ => cases hp
  | lastWord _ _ _ _ => cases hp
  | done _ => cases hp
  | refused _ => cases hp
  | handsOver _ _ _ => cases hp
  | ended h =>
    obtain ⟨hu, rfl⟩ := hs.read_none h
    exact ⟨_, rfl, .ended hu⟩
  | unread h =>
    cases (Runs.unread h).told hs
  | @readsOn _ _ _ _ _ _ _ _ x _ h hline hack _ _ ih' =>
    have hs₁ := hline.steady (hs.read h)
    have hrun := hline.sound hs.returns
    obtain ⟨rest, hu, rfl⟩ := hs.read_some h
    obtain ⟨flow, rfl, hloop⟩ := ih' (hs₁.acknowledge (.of_eq hack)) rfl
    refine ⟨flow, rfl, ?_⟩
    cases Acknowledges.of_eq hack with
    | prompts hw =>
      rw [Channel.write, hs₁.answer] at hw
      cases hw
      exact .done hu hrun hloop
    | recovers _ hw =>
      rw [Channel.report, hs₁.answer] at hw
      cases hw
      exact .failed hu hrun hloop
  | leaves h hline hack =>
    have hrun := hline.sound hs.returns
    obtain ⟨rest, hu, rfl⟩ := hs.read_some h
    cases Acknowledges.of_eq hack
    exact ⟨_, rfl, .left hu hrun⟩
  | breaksOff h hline hack =>
    cases (Runs.breaksOff h hline hack).told hs

/-- What the read loop did: what happened by its own turns, and what happened over all the loops
that were opened inside it. -/
structure Accounts (s : Interpreter) (flow : Flow) (s' : Interpreter) (es : List Event)
    (lines : List String) : Prop where
  result : quit s = (.ok flow, s')
  loop : ReadLoop (s.calling (.wrote prompt) s.channel.unread) flow s'
  rules : Runs .loop (s.calling (.wrote prompt) s.channel.unread) es (.ok flow) s'
  calls : callsOf quit s = .wrote prompt :: Event.calls es
  unread : s.channel.unread = Event.taken es ++ s'.channel.unread
  events : LoopEvents flow lines es
  answered : (Event.taken es).Perm (Event.answered es ++ lines)
  all_answered_iff : lines = [] ↔ flow = .proceed

/-- The read loop never fails. It prompts, and then takes, interprets and acknowledges lines one by
one. At all depths lines are taken oldest first, each is interpreted once where it was taken, and
each is acknowledged once, but for those left open by `bye`. -/
theorem quit_accounted (hs : s.Steady) : ∃ flow s' es lines, Accounts s flow s' es lines := by
  have hs₁ : (s.calling (.wrote prompt) s.channel.unread).Steady := hs.recording _ _
  obtain ⟨es, x, s', hruns⟩ := Runs.exists .loop hs₁.returns
  obtain ⟨flow, rfl, hloop⟩ := hruns.readLoop hs₁ rfl
  obtain - | - | - | @⟨_, lines, _, hevents⟩ := hruns.told hs₁
  have hwrite : Channel.write prompt s.channel =
      (.ok (), s.channel.recording (.wrote prompt) s.channel.unread) := hs.answer
  refine ⟨flow, s', es, lines, hruns.quit_eq hs.returns hwrite, hloop, hruns,
    hruns.callsOf_quit hs.returns hwrite, ?_, hevents, hevents.perm, ?_⟩
  · have hunread := hruns.makes.unread
    rwa [Call.taken, List.reverse_reverse] at hunread
  · cases hevents <;> simp

/-- A line opens a read loop, a line of which fails by a host word, and the next one leaves: two
lines stay open, and the last one is not taken. -/
theorem quit_accounted_nested :
    let s := (new 4 (.ofLines ["quit", "1 fail", "bye", "2 ."])).defineHost "fail"
      (Machine.refuse .outOfRange "fail")
    s.Steady ∧ ∃ s' es lines, Accounts s .exit s' es lines ∧
      Event.taken es = ["quit", "1 fail", "bye"] := by
  intro s
  have hs : s.Steady := (steady_new 4 _).defineHost (fun _ => rfl) (fun _ _ h => by cases h; rfl) _
  obtain ⟨hexit, htaken⟩ : (quit s).1.toOption = some .exit ∧
      (callsOf quit s).filterMap Call.line? = ["quit", "1 fail", "bye"] := by
    decide +kernel
  obtain ⟨flow, s', es, lines, h⟩ := quit_accounted hs
  rw [h.result] at hexit
  cases hexit
  rw [h.calls] at htaken
  exact ⟨hs, s', es, lines, h, htaken⟩

end CellForth.Interpreter
