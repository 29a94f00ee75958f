import CellForth.Proofs.Breakage
import CellForth.Proofs.Termination

/-!
# Rules for runs

The definitions of a run count its levels, its turns and its tokens. Here are the rules by which a
line, the rest of a line, a word, a token and the read loop run each other, with nothing counted
(`Runs`). If the host words leave the return stack alone, every run goes by the rules
(`Runs.exists`), and what the rules give is what the run does (`Runs.sound`). So a property of all
runs can be proved by induction on the rules.

A word or a token is an `Item`. It goes through a few steps (`Item.lead`), and then it is done or
hands over to another part of the run. The rules are labelled with what happens on the way
(`Event`): which tokens begin, which lines are interpreted, and which calls are made on the channel
and why.
-/

namespace CellForth.Interpreter

/-- Something that happens in a run. -/
inductive Event where
  /-- A token began to run. -/
  | began (t : Token)
  /-- A line began to be interpreted. -/
  | line (text : String)
  /-- A word made a call. -/
  | word (call : Call)
  /-- A read loop made its first prompt. -/
  | opened (call : Call)
  /-- A read loop asked for a line. -/
  | asked (call : Call)
  /-- A read loop acknowledged the line it had taken. -/
  | acknowledged (line : String) (call : Call)
  deriving DecidableEq

/-- The call on the channel that an event is. -/
def Event.call? : Event → Option Call
  | .began _ => none
  | .line _ => none
  | .word call => some call
  | .opened call => some call
  | .asked call => some call
  | .acknowledged _ call => some call

/-- A word of a line, or a token. -/
inductive Item where
  | word (text : String)
  | token (t : Token)

/-- What can be run: a line, the rest of the line at hand, an item, and the read loop. -/
inductive Part where
  | line (text : String)
  | rest
  | item (i : Item)
  | loop

/-- How a part is run. -/
def Part.run : Part → Run Flow
  | .line text => interpret text
  | .rest => lineWith interpret
  | .item (.word text) => wordWith interpret text
  | .item (.token t) => executeTokenWith interpret t
  | .loop => readLoopWith interpret

/-! ## What an item does itself -/

/-- What an item does before it hands over, if it does. -/
def Item.lead : Item → Run (Flow ⊕ Part)
  | .word text =>
    match Lexeme.classify text with
    | .ok (.number n) => do
      onMachine (Machine.push (.int n))
      pure (.inl .proceed)
    | .ok (.name name) => do
      let t ← tokenOf name
      pure (.inr (.item (.token t)))
    | .error f => throw (.fault f)
  | .token (.builtin .execute) => do
    mark (.began (.builtin .execute))
    match ← onMachine Machine.pop with
    | .token t => pure (.inr (.item (.token t)))
    | _ => refuse .tokenRequired "execute"
  | .token (.builtin .evaluate) => do
    mark (.began (.builtin .evaluate))
    match ← onMachine Machine.pop with
    | .text line => pure (.inr (.line line))
    | _ => refuse .textRequired "evaluate"
  | .token (.builtin .quit) => do
    mark (.began (.builtin .quit))
    onChannel (Channel.write prompt)
    pure (.inr .loop)
  | .token t => do
    let flow ← tokenWith (fun _ => throw .tooDeep) (fun _ => throw .tooDeep) t
    pure (.inl flow)

/-- What an item begins with. -/
def Item.beginning : Item → List Event
  | .word _ => []
  | .token t => [.began t]

/-- What a call of an item is: the read loop has its first prompt from the token that opens it. -/
def Item.event : Item → Call → Event
  | .token (.builtin .quit) => .opened
  | _ => .word

/-- What happens before an item hands over. -/
def Item.events (i : Item) (s : Interpreter) : List Event :=
  i.beginning ++ (callsOf i.lead s).map i.event

/-- A plain token does all its work itself. -/
theorem Item.lead_eq_of_isPlain {t : Token} (ht : t.isPlain = true) {act : Run Unit}
    (heq : ∀ nested execute,
      tokenWith nested execute t = (do mark (.began t); thenProceed act)) :
    (Item.token t).lead = (do mark (.began t); act; pure (.inl .proceed)) := by
  have hlead : (Item.token t).lead = (do
      let flow ← tokenWith (fun _ => throw .tooDeep) (fun _ => throw .tooDeep) t
      pure (.inl flow)) := by
    cases t with
    | host word => rfl
    | builtin word => cases word <;> first | rfl | cases ht
  rw [hlead, heq]
  simp [thenProceed]

/-- A plain token begins, goes through a few steps, and the line goes on. -/
theorem Item.lead_of_isPlain {t : Token} (ht : t.isPlain = true) : ∃ act : Run Unit, Made act ∧
    (Item.token t).lead = (do mark (.began t); act; pure (.inl .proceed)) ∧
    ∀ nested execute, tokenWith nested execute t = (do mark (.began t); thenProceed act) := by
  obtain ⟨act, hact, heq⟩ := exists_made_of_isPlain ht
  exact ⟨act, hact, Item.lead_eq_of_isPlain ht heq, heq⟩

/-- What an item does itself is made of steps. -/
theorem Item.made_lead : ∀ i : Item, Made i.lead
  | .word text => by
    simp only [Item.lead]
    split
    · exact .bind (.stack (.push _)) fun _ => .pure _
    · exact .bind (.tokenOf _) fun _ => .pure _
    · next f hf => exact .step (.refuse f (Lexeme.isFatal_of_classify_error hf))
  | .token t => by
    by_cases ht : t.isPlain = true
    · obtain ⟨act, hact, hlead, -⟩ := Item.lead_of_isPlain ht
      rw [hlead]
      exact .bind (.step (.begin t)) fun _ => .bind hact fun _ => .pure _
    by_cases he : t = .builtin .execute
    · subst he
      refine .bind (.step (.begin _)) fun _ => .bind (.stack .pop) fun v => ?_
      cases v with
      | token t => exact .pure _
      | int n => exact .refuse rfl
      | text s => exact .refuse rfl
      | addr a => exact .refuse rfl
    obtain rfl | rfl | rfl := Token.eq_of_not_isPlain ht he
    · refine .bind (.step (.begin _)) fun _ => .bind (.stack .pop) fun v => ?_
      cases v with
      | text line => exact .pure _
      | int n => exact .refuse rfl
      | addr a => exact .refuse rfl
      | token t => exact .refuse rfl
    · exact .bind (.step (.begin _)) fun _ => .bind (.step (.write _)) fun _ => .pure _
    · exact .bind (.bind (.step (.begin _)) fun _ => .pure _) fun _ => .pure _

/-- What a read loop does after it has run a line: it prompts, leaves, or reports and empties the
stacks. It reads on unless it answers with a flow. -/
def acknowledge : Except Fault Flow → Run (Option Flow)
  | .ok .proceed => do
    onChannel (Channel.write prompt)
    pure none
  | .ok .exit => pure (some .exit)
  | .error f =>
    if f.isFatal then throw (.fault f)
    else do
      recover f
      pure none

/-- The ways in which a line can be acknowledged. -/
inductive Acknowledges (s : Interpreter) :
    Except Fault Flow → Except Stop (Option Flow) × Interpreter → Prop where
  | prompts {c : Channel} (h : Channel.write prompt s.channel = (.ok (), c)) :
    Acknowledges s (.ok .proceed) (.ok none, { s with channel := c })
  | unprompted {f : Fault} {c : Channel} (h : Channel.write prompt s.channel = (.error f, c)) :
    Acknowledges s (.ok .proceed) (.error (.fault f), { s with channel := c })
  | leaves : Acknowledges s (.ok .exit) (.ok (some .exit), s)
  | fatal {f : Fault} (h : f.isFatal = true) : Acknowledges s (.error f) (.error (.fault f), s)
  | recovers {f : Fault} {c : Channel} (hf : f.isFatal = false)
    (h : Channel.report f.report s.channel = (.ok (), c)) :
    Acknowledges s (.error f) (.ok none, { s with
      machine := s.machine.reset, channel := c, trace := .recovered :: s.trace })
  | unreported {f g : Fault} {c : Channel} (hf : f.isFatal = false)
    (h : Channel.report f.report s.channel = (.error g, c)) :
    Acknowledges s (.error f) (.error (.fault g), { s with channel := c })

/-- A line is always acknowledged in one of these ways. -/
theorem acknowledges (x : Except Fault Flow) (s : Interpreter) :
    Acknowledges s x (acknowledge x s) := by
  rcases x with f | (- | -)
  · cases hf : f.isFatal with
    | true =>
      rw [acknowledge, if_pos hf]
      exact .fatal hf
    | false =>
      rw [acknowledge, if_neg (by simp [hf])]
      rcases hrep : Channel.report f.report s.channel with ⟨g | _, c⟩
      · rw [bind_of_error (recover_of_error hrep)]
        exact .unreported hf hrep
      · rw [bind_of_ok (recover_of_ok hrep)]
        exact .recovers hf hrep
  · rw [acknowledge]
    rcases hw : Channel.write prompt s.channel with ⟨g | _, c⟩
    · rw [bind_of_error (onChannel_of hw)]
      exact .unprompted hw
    · rw [bind_of_ok (onChannel_of hw)]
      exact .prompts hw
  · exact .leaves

theorem Acknowledges.of_eq {x : Except Fault Flow} {s : Interpreter}
    {r : Except Stop (Option Flow) × Interpreter} (h : acknowledge x s = r) : Acknowledges s x r :=
  h ▸ acknowledges x s

/-- How a line is acknowledged: by the calls that are made for it after it was run. -/
def acknowledgement (line : String) (x : Except Fault Flow) (s : Interpreter) : List Event :=
  (callsOf (acknowledge x) s).map (.acknowledged line)

/-! ## The rules -/

/-- The rules of a run: from a state, with events, to a result and a state. -/
inductive Runs : Part → Interpreter → List Event → Except Fault Flow → Interpreter → Prop where
  /-- There is no cell for the line on the return stack. -/
  | full {s : Interpreter} {text : String} (h : s.machine.returns.isFull = true) :
    Runs (.line text) s [.line text] (.error ⟨.stackOverflow, "evaluate"⟩) s
  | line {s s' : Interpreter} {text : String} {es : List Event} {x : Except Fault Flow}
    (h : s.machine.returns.isFull = false) (hrest : Runs .rest (s.entering text) es x s') :
    Runs (.line text) s (.line text :: es) x (s'.leaving s.machine.returns.depth s.cursor)
  | noWord {s s' : Interpreter} (h : readWord Byte.space s = (.ok none, s')) :
    Runs .rest s [] (.ok .proceed) s'
  | nextWord {s s₁ s₂ s₃ : Interpreter} {text : String} {es es' : List Event}
    {x : Except Fault Flow} (h : readWord Byte.space s = (.ok (some text), s₁))
    (hword : Runs (.item (.word text)) s₁ es (.ok .proceed) s₂)
    (hrest : Runs .rest s₂ es' x s₃) : Runs .rest s (es ++ es') x s₃
  | lastWord {s s₁ s₂ : Interpreter} {text : String} {es : List Event} {x : Except Fault Flow}
    (h : readWord Byte.space s = (.ok (some text), s₁))
    (hword : Runs (.item (.word text)) s₁ es x s₂) (hx : x ≠ .ok .proceed) : Runs .rest s es x s₂
  | done {s s' : Interpreter} {i : Item} {flow : Flow} (h : i.lead s = (.ok (.inl flow), s')) :
    Runs (.item i) s (i.events s) (.ok flow) s'
  | refused {s s' : Interpreter} {i : Item} {f : Fault} (h : i.lead s = (.error (.fault f), s')) :
    Runs (.item i) s (i.events s) (.error f) s'
  | handsOver {s s₁ s' : Interpreter} {i : Item} {p : Part} {es : List Event}
    {x : Except Fault Flow} (h : i.lead s = (.ok (.inr p), s₁)) (hpart : Runs p s₁ es x s') :
    Runs (.item i) s (i.events s ++ es) x s'
  /-- There is no line left. -/
  | ended {s : Interpreter} {c : Channel} (h : Channel.read s.channel = (.ok none, c)) :
    Runs .loop s [.asked .ended] (.ok .proceed) { s with channel := c }
  | unread {s : Interpreter} {c : Channel} {f : Fault}
    (h : Channel.read s.channel = (.error f, c)) :
    Runs .loop s [.asked .refusedRead] (.error f) { s with channel := c }
  | readsOn {s s₁ s₂ s₃ : Interpreter} {line : String} {c : Channel} {es es' : List Event}
    {x y : Except Fault Flow} (h : Channel.read s.channel = (.ok (some line), c))
    (hline : Runs (.line line) { s with channel := c } es x s₁)
    (hack : acknowledge x s₁ = (.ok none, s₂)) (hloop : Runs .loop s₂ es' y s₃) :
    Runs .loop s (.asked (.took line) :: es ++ acknowledgement line x s₁ ++ es') y s₃
  | leaves {s s₁ s₂ : Interpreter} {line : String} {c : Channel} {es : List Event}
    {x : Except Fault Flow} {flow : Flow} (h : Channel.read s.channel = (.ok (some line), c))
    (hline : Runs (.line line) { s with channel := c } es x s₁)
    (hack : acknowledge x s₁ = (.ok (some flow), s₂)) :
    Runs .loop s (.asked (.took line) :: es ++ acknowledgement line x s₁) (.ok flow) s₂
  | breaksOff {s s₁ s₂ : Interpreter} {line : String} {c : Channel} {es : List Event}
    {x : Except Fault Flow} {f : Fault} (h : Channel.read s.channel = (.ok (some line), c))
    (hline : Runs (.line line) { s with channel := c } es x s₁)
    (hack : acknowledge x s₁ = (.error (.fault f), s₂)) :
    Runs .loop s (.asked (.took line) :: es ++ acknowledgement line x s₁) (.error f) s₂

variable {s s' s₁ : Interpreter} {p : Part} {i : Item} {es : List Event} {x : Except Fault Flow}
  {line : String} {c : Channel}

/-! ## The rules give what a run does -/

/-- Every part of a run keeps to the discipline. -/
theorem Part.disciplined : ∀ p : Part, Disciplined Flow p.run p.run
  | .line text => disciplined_interpret text
  | .rest => Disciplined.closed.lineWith disciplined_interpret
  | .item (.word text) => Disciplined.closed.wordWith
      (Disciplined.closed.executeTokenWith disciplined_interpret) text
  | .item (.token t) => Disciplined.closed.executeTokenWith disciplined_interpret t
  | .loop => Disciplined.closed.readLoopWith disciplined_interpret

/-- An item runs by its own steps, and by the part that it hands over to. -/
theorem Item.run_eq (i : Item) (s : Interpreter) :
    (Part.item i).run s = (i.lead >>= Sum.elim pure Part.run) s := by
  cases i with
  | word text =>
    simp only [Part.run, wordWith, Item.lead]
    cases Lexeme.classify text with
    | error f => rfl
    | ok lexeme => cases lexeme <;> simp [thenProceed, executeWordWith, Part.run]
  | token t =>
    show executeTokenWith interpret t s = _
    rw [executeTokenWith_eq]
    by_cases ht : t.isPlain = true
    · obtain ⟨act, -, hlead, heq⟩ := Item.lead_of_isPlain ht
      rw [hlead, heq]
      simp [thenProceed]
    by_cases he : t = .builtin .execute
    · subst he
      simp only [tokenWith, Item.lead, bind_assoc]
      refine congrFun (bind_congr fun _ => bind_congr fun v => ?_) s
      cases v <;> rfl
    obtain rfl | rfl | rfl := Token.eq_of_not_isPlain ht he
    · simp only [tokenWith, evaluateWith, Item.lead, bind_assoc]
      refine congrFun (bind_congr fun _ => bind_congr fun v => ?_) s
      cases v <;> rfl
    · simp [tokenWith, quitWith, Item.lead, Part.run]
    · rfl

/-- A read loop goes on after a line as it was acknowledged. -/
theorem Part.run_loop_of_some (hs : s.HostsKeepReturns)
    (hread : Channel.read s.channel = (.ok (some line), c))
    (hline : (Part.line line).run { s with channel := c } = (x.mapError .fault, s₁)) :
    Part.loop.run s = (acknowledge x >>= fun
      | none => Part.loop.run
      | some flow => pure flow) s₁ := by
  show readLoopWith interpret s = _
  rw [readLoopWith_eq disciplined_interpret hs, takeLineWith_of_some hread, recovering_apply]
  rw [Part.run] at hline
  rw [hline]
  cases x with
  | error f =>
    have hfault : (Except.error f : Except Fault Flow).mapError Stop.fault = .error (.fault f) :=
      rfl
    simp only [hfault, acknowledge]
    split <;> simp [Part.run]
  | ok flow =>
    have hflow : (Except.ok flow : Except Fault Flow).mapError Stop.fault = .ok flow := rfl
    cases flow <;> simp [hflow, acknowledge, Part.run]

namespace Acknowledges

variable {r : Except Stop (Option Flow)}

/-- Acknowledging a line only adds calls. -/
theorem channel (h : Acknowledges s x (r, s')) : s.channel.Leads s'.channel := by
  cases h with
  | prompts h => exact Channel.leads_of_write h
  | unprompted h => exact Channel.leads_of_write h
  | leaves => exact .refl _
  | fatal _ => exact .refl _
  | recovers _ h => exact Channel.leads_of_report h
  | unreported _ h => exact Channel.leads_of_report h

theorem returns_capacity (h : Acknowledges s x (r, s')) :
    s'.machine.returns.capacity = s.machine.returns.capacity := by
  cases h <;> rfl

theorem hostCode (h : Acknowledges s x (r, s')) : s'.hostCode = s.hostCode := by
  cases h <;> rfl

end Acknowledges

theorem HostsKeepReturns.acknowledge {r : Except Stop (Option Flow)} (hs : s.HostsKeepReturns)
    (h : Acknowledges s x (r, s')) : s'.HostsKeepReturns := by
  cases h <;> exact hs

/-- What the rules give is what the run does. -/
theorem Runs.sound (h : Runs p s es x s') (hs : s.HostsKeepReturns) :
    p.run s = (x.mapError .fault, s') := by
  -- The cases are about later states, so each has to know that the host words are still the same.
  have hosts : ∀ {p s s'} {x : Except Stop Flow}, Part.run p s = (x, s') → s.HostsKeepReturns →
      s'.HostsKeepReturns := by
    intro p s s' x hrun hs
    have hleads := p.disciplined s hs
    rw [hrun] at hleads
    exact hleads.hosts hs
  induction h with
  | full h =>
    simp only [Part.run]
    rw [interpret_eq _ hs, within_of_full h]
    rfl
  | line h _ ih =>
    have hrest := ih hs
    simp only [Part.run] at hrest ⊢
    rw [interpret_eq _ hs, within_of_room h, hrest]
  | noWord h =>
    simp only [Part.run]
    rw [lineWith_eq disciplined_interpret hs]
    exact bind_of_ok h
  | nextWord h _ _ ih ih' =>
    have hs₁ := (Leads.step (.readWord Byte.space) hs).hosts hs
    rw [h] at hs₁
    have hword := ih hs₁
    have hrest := ih' (hosts hword hs₁)
    simp only [Part.run] at hword hrest ⊢
    rw [lineWith_eq disciplined_interpret hs, nextWordWith, bind_of_ok h]
    exact (bind_of_ok hword).trans hrest
  | @lastWord _ _ _ _ _ x h _ hx ih =>
    have hs₁ := (Leads.step (.readWord Byte.space) hs).hosts hs
    rw [h] at hs₁
    have hword := ih hs₁
    simp only [Part.run] at hword ⊢
    rw [lineWith_eq disciplined_interpret hs, nextWordWith, bind_of_ok h]
    rcases x with f | (- | -)
    · exact bind_of_error hword
    · exact absurd rfl hx
    · exact bind_of_ok hword
  | done h =>
    rw [Item.run_eq, bind_of_ok h]
    rfl
  | refused h =>
    rw [Item.run_eq, bind_of_error h]
    rfl
  | @handsOver _ _ _ i _ _ _ h _ ih =>
    have hs₁ := (Disciplined.closed.made i.made_lead _ hs).hosts hs
    rw [h] at hs₁
    rw [Item.run_eq, bind_of_ok h]
    exact ih hs₁
  | ended h =>
    simp only [Part.run]
    rw [readLoopWith_eq disciplined_interpret hs, takeLineWith_of_none h]
    rfl
  | unread h =>
    simp only [Part.run]
    rw [readLoopWith_eq disciplined_interpret hs, takeLineWith_of_error h]
    rfl
  | readsOn h _ hack _ ih ih' =>
    have hline := ih hs
    rw [Part.run_loop_of_some hs h hline, bind_of_ok hack]
    exact ih' ((hosts hline hs).acknowledge (.of_eq hack))
  | leaves h _ hack ih =>
    rw [Part.run_loop_of_some hs h (ih hs), bind_of_ok hack]
    rfl
  | breaksOff h _ hack ih =>
    rw [Part.run_loop_of_some hs h (ih hs), bind_of_error hack]
    rfl

/-! ## Every run goes by the rules -/

/-- A line that was taken lowers the headroom, whatever the return stack holds. -/
theorem headroom_lt_of_unread_lt
    (hcapacity : s'.machine.returns.capacity = s.machine.returns.capacity)
    (h : s'.channel.unread.length < s.channel.unread.length) : s'.headroom < s.headroom := by
  unfold headroom
  rw [hcapacity]
  have := Nat.mul_le_mul_right (s.machine.returns.capacity + 1) (Nat.succ_le_of_lt h)
  rw [Nat.succ_mul] at this
  omega

/-- A value that was popped was the top of the data stack, and nothing else changed. -/
theorem of_pop_ok {v : Value} (h : onMachine Machine.pop s = (.ok v, s')) :
    ∃ below, s.machine.data.cells = v :: below ∧ s' = { s with
      machine := { s.machine with data := { s.machine.data with cells := below } } } := by
  cases hcells : s.machine.data.cells with
  | nil =>
    rw [onMachine_of (Machine.pop_of_nil hcells)] at h
    cases h
  | cons w below =>
    rw [onMachine_of (Machine.pop_of_cons hcells)] at h
    cases h
    exact ⟨below, rfl, rfl⟩

theorem of_onChannel_ok {α : Type} {act : Channel.Action α} {a : α}
    (h : onChannel act s = (.ok a, s')) : act s.channel = (.ok a, s'.channel) := by
  rcases hact : act s.channel with ⟨g | b, d⟩ <;> rw [onChannel_of hact] at h <;> cases h
  rfl

/-- A word hands over to a token. -/
theorem Item.eq_of_word_handsOver {text : String}
    (h : (Item.word text).lead s = (.ok (.inr p), s₁)) : ∃ t, p = .item (.token t) := by
  rcases hc : Lexeme.classify text with f | (n | name) <;> simp only [Item.lead, hc] at h
  · cases h
  · obtain ⟨_, _, -, h⟩ := of_bind_ok h
    cases h
  · obtain ⟨t, _, -, h⟩ := of_bind_ok h
    cases h
    exact ⟨t, rfl⟩

/-- A token hands over to another one that it took off the data stack, to a line, or to the read
loop after a prompt. -/
theorem Item.eq_of_token_handsOver {t : Token} (h : (Item.token t).lead s = (.ok (.inr p), s₁)) :
    (∃ u, t = .builtin .execute ∧ p = .item (.token u) ∧
      s₁.machine.data.depth < s.machine.data.depth) ∨
    (∃ text, t = .builtin .evaluate ∧ p = .line text ∧ s₁.channel = s.channel) ∨
    t = .builtin .quit ∧ p = .loop ∧ s₁.channel.calls = .wrote prompt :: s.channel.calls := by
  by_cases ht : t.isPlain = true
  · obtain ⟨act, -, hlead, -⟩ := Item.lead_of_isPlain ht
    rw [hlead] at h
    obtain ⟨_, _, -, h⟩ := of_bind_ok h
    obtain ⟨_, _, -, h⟩ := of_bind_ok h
    cases h
  by_cases he : t = .builtin .execute
  · subst he
    obtain ⟨_, _, ⟨⟩, h⟩ := of_bind_ok h
    obtain ⟨v, _, hpop, h⟩ := of_bind_ok h
    cases v with
    | token u =>
      cases h
      refine Or.inl ⟨u, rfl, rfl, ?_⟩
      obtain ⟨below, hcells, rfl⟩ := of_pop_ok hpop
      have hcells : s.machine.data.cells = .token u :: below := hcells
      simp [Stack.depth, hcells]
    | int n => cases h
    | text line => cases h
    | addr a => cases h
  obtain rfl | rfl | rfl := Token.eq_of_not_isPlain ht he
  · obtain ⟨_, _, ⟨⟩, h⟩ := of_bind_ok h
    obtain ⟨v, _, hpop, h⟩ := of_bind_ok h
    cases v with
    | text line =>
      cases h
      obtain ⟨below, -, rfl⟩ := of_pop_ok hpop
      exact Or.inr (Or.inl ⟨line, rfl, rfl, rfl⟩)
    | int n => cases h
    | addr a => cases h
    | token u => cases h
  · obtain ⟨_, _, ⟨⟩, h⟩ := of_bind_ok h
    obtain ⟨_, _, hwrite, h⟩ := of_bind_ok h
    cases h
    exact Or.inr (Or.inr ⟨rfl, rfl, (Channel.eq_of_answer_ok (of_onChannel_ok hwrite)).2.2⟩)
  · cases h

/-- Only `bye` leaves by itself, and the read loop is never done before it was opened. -/
theorem Item.eq_of_done {flow : Flow} (h : i.lead s = (.ok (.inl flow), s')) :
    i = .token (.builtin .bye) ∧ flow = .exit ∨
    i ≠ .token (.builtin .bye) ∧ i ≠ .token (.builtin .quit) ∧ flow = .proceed := by
  cases i with
  | word text =>
    refine Or.inr ⟨nofun, nofun, ?_⟩
    rcases hc : Lexeme.classify text with f | (n | name) <;> simp only [Item.lead, hc] at h
    · cases h
    · obtain ⟨_, _, -, h⟩ := of_bind_ok h
      cases h
      rfl
    · obtain ⟨_, _, -, h⟩ := of_bind_ok h
      cases h
  | token t =>
    by_cases ht : t.isPlain = true
    · obtain ⟨act, -, hlead, -⟩ := Item.lead_of_isPlain ht
      rw [hlead] at h
      obtain ⟨_, _, -, h⟩ := of_bind_ok h
      obtain ⟨_, _, -, h⟩ := of_bind_ok h
      cases h
      refine Or.inr ⟨?_, ?_, rfl⟩ <;> rintro ⟨⟩ <;> cases ht
    by_cases he : t = .builtin .execute
    · subst he
      obtain ⟨_, _, -, h⟩ := of_bind_ok h
      obtain ⟨v, _, -, h⟩ := of_bind_ok h
      cases v <;> cases h
    obtain rfl | rfl | rfl := Token.eq_of_not_isPlain ht he
    · obtain ⟨_, _, -, h⟩ := of_bind_ok h
      obtain ⟨v, _, -, h⟩ := of_bind_ok h
      cases v <;> cases h
    · obtain ⟨_, _, -, h⟩ := of_bind_ok h
      obtain ⟨_, _, -, h⟩ := of_bind_ok h
      cases h
    · cases h
      exact Or.inl ⟨rfl, rfl⟩

/-- The rules lead from a part and a state to a result. -/
def Settles (p : Part) (s : Interpreter) : Prop :=
  ∃ es x s', Runs p s es x s'

/-- What goes by the rules keeps to the discipline. -/
theorem Runs.leads (h : Runs p s es x s') (hs : s.HostsKeepReturns) : Leads s s' := by
  have hleads := p.disciplined s hs
  rwa [h.sound hs] at hleads

/-- An item settles if what it hands over to does. -/
theorem Item.settles (hs : s.HostsKeepReturns)
    (hpart : ∀ p s₁, i.lead s = (.ok (.inr p), s₁) → Settles p s₁) : Settles (.item i) s := by
  have hdeep := ((Suffices.composable (s.headroom + 1)).made i.made_lead).2 s hs
    (Nat.lt_succ_self _)
  rcases hlead : i.lead s with ⟨(f | -) | (flow | p), s₁⟩
  · exact ⟨_, _, _, .refused hlead⟩
  · rw [hlead] at hdeep
    exact absurd rfl hdeep
  · exact ⟨_, _, _, .done hlead⟩
  · obtain ⟨es, x, s', hp⟩ := hpart p s₁ hlead
    exact ⟨_, _, _, .handsOver hlead hp⟩

section Levels

-- the headroom bounds how deep a part can run others, and a line or a loop lowers it
variable {N : Nat} (ih : ∀ p s, s.HostsKeepReturns → s.headroom < N → Settles p s)
include ih

/-- A line that is entered takes a cell, which lowers the headroom for the rest. -/
theorem settles_line (text : String) (hs : s.HostsKeepReturns) (hN : s.headroom < N + 1) :
    Settles (.line text) s := by
  cases hfull : s.machine.returns.isFull with
  | true => exact ⟨_, _, _, .full hfull⟩
  | false =>
    have := headroom_entering_lt text hfull
    obtain ⟨es, x, s', hrest⟩ := ih .rest (s.entering text) hs (by omega)
    exact ⟨_, _, _, .line hfull hrest⟩

/-- A read loop takes a line, which lowers the headroom for the line and for the loop after it. -/
theorem settles_loop (hs : s.HostsKeepReturns) (hN : s.headroom < N + 1) : Settles .loop s := by
  rcases hread : Channel.read s.channel with ⟨f | (- | line), c⟩
  · exact ⟨_, _, _, .unread hread⟩
  · exact ⟨_, _, _, .ended hread⟩
  have hlt : c.unread.length < s.channel.unread.length := by
    rw [Channel.unread_of_read_some hread, List.length_cons]
    omega
  have hc : Interpreter.headroom { s with channel := c } < s.headroom :=
    headroom_lt_of_unread_lt rfl hlt
  obtain ⟨es, x, s₁, hline⟩ := ih (.line line) { s with channel := c } hs (by omega)
  have hs₁ := hline.leads hs
  have hway := acknowledges x s₁
  rcases hack : acknowledge x s₁ with ⟨(f | -) | (- | flow), s₂⟩ <;> rw [hack] at hway
  · exact ⟨_, _, _, .breaksOff hread hline hack⟩
  · cases hway
  · have hle := hs₁.channel.unread.length_le
    have hle₂ := hway.channel.unread.length_le
    have hs₂ : s₂.headroom < s.headroom := headroom_lt_of_unread_lt
      (hway.returns_capacity.trans hs₁.returns_capacity) (by simp only at hle; omega)
    obtain ⟨es', y, s₃, hloop⟩ := ih .loop s₂ ((hs₁.hosts hs).acknowledge hway) (by omega)
    exact ⟨_, _, _, .readsOn hread hline hack hloop⟩
  · exact ⟨_, _, _, .leaves hread hline hack⟩

/-- By induction on the depth of the data stack, since `execute` hands over without lowering the
headroom. -/
theorem settles_token : ∀ (n : Nat) (t : Token) (s : Interpreter), s.HostsKeepReturns →
    s.headroom < N + 1 → s.machine.data.depth < n → Settles (.item (.token t)) s
  | 0, _, _, _, _, h => absurd h (Nat.not_lt_zero _)
  | n + 1, t, s, hs, hN, hlt => by
    refine Item.settles hs fun p s₁ hlead => ?_
    have hleads := Disciplined.closed.made (Item.token t).made_lead s hs
    rw [hlead] at hleads
    have hs₁ := hleads.hosts hs
    have hN₁ := Nat.lt_of_le_of_lt hleads.headroom_le hN
    rcases Item.eq_of_token_handsOver hlead with
      ⟨u, -, rfl, hdepth⟩ | ⟨text, -, rfl, -⟩ | ⟨-, rfl, -⟩
    · exact settles_token n u s₁ hs₁ hN₁ (by omega)
    · exact settles_line ih text hs₁ hN₁
    · exact settles_loop ih hs₁ hN₁

/-- A word hands over to its token only. -/
theorem settles_word (text : String) (hs : s.HostsKeepReturns) (hN : s.headroom < N + 1) :
    Settles (.item (.word text)) s := by
  refine Item.settles hs fun p s₁ hlead => ?_
  have hleads := Disciplined.closed.made (Item.word text).made_lead s hs
  rw [hlead] at hleads
  obtain ⟨t, rfl⟩ := Item.eq_of_word_handsOver hlead
  exact settles_token ih _ t s₁ (hleads.hosts hs) (Nat.lt_of_le_of_lt hleads.headroom_le hN)
    (Nat.lt_succ_self _)

/-- By induction on the bytes that are left, since a word that is done does not lower the
headroom. -/
theorem settles_rest : ∀ (n : Nat) (s : Interpreter), s.HostsKeepReturns →
    s.headroom < N + 1 → s.cursor.rest.length < n → Settles .rest s
  | 0, _, _, _, h => absurd h (Nat.not_lt_zero _)
  | n + 1, s, hs, hN, hlt => by
    let s₁ : Interpreter := { s with cursor := (s.cursor.readWord Byte.space).2 }
    have hleads : Leads s s₁ := .of_cursor (Cursor.rest_readWord _ _)
    have hread : readWord Byte.space s = (.ok (s.cursor.readWord Byte.space).1, s₁) := rfl
    cases hword : (s.cursor.readWord Byte.space).1 with
    | none =>
      rw [hword] at hread
      exact ⟨_, _, _, .noWord hread⟩
    | some text =>
      rw [hword] at hread
      have hrest : s₁.cursor.rest.length < s.cursor.rest.length :=
        Cursor.length_rest_readWord_lt hword
      have hN₁ := Nat.lt_of_le_of_lt hleads.headroom_le hN
      obtain ⟨es, x, s₂, hitem⟩ := settles_word ih (s := s₁) text hs hN₁
      have hleads₂ := hitem.leads hs
      by_cases hx : x = .ok .proceed
      · subst hx
        have hle := hleads₂.rest.length_le
        obtain ⟨es', y, s₃, hloop⟩ := settles_rest n s₂ (hleads₂.hosts hs)
          (Nat.lt_of_le_of_lt hleads₂.headroom_le hN₁) (by omega)
        exact ⟨_, _, _, .nextWord hread hitem hloop⟩
      · exact ⟨_, _, _, .lastWord hread hitem hx⟩

end Levels

/-- Every run goes by the rules. -/
theorem Runs.exists (p : Part) (hs : s.HostsKeepReturns) : ∃ es x s', Runs p s es x s' := by
  have hall : ∀ (N : Nat) (p : Part) (s : Interpreter), s.HostsKeepReturns → s.headroom < N →
      Settles p s := by
    intro N
    induction N with
    | zero => exact fun _ _ _ h => absurd h (Nat.not_lt_zero _)
    | succ N ih =>
      intro p s hs hN
      match p with
      | .line text => exact settles_line ih text hs hN
      | .rest => exact settles_rest ih _ s hs hN (Nat.lt_succ_self _)
      | .item (.word text) => exact settles_word ih text hs hN
      | .item (.token t) => exact settles_token ih _ t s hs hN (Nat.lt_succ_self _)
      | .loop => exact settles_loop ih hs hN
  exact hall _ p s hs (Nat.lt_succ_self _)

theorem eq_ok_of_mapError {α : Type} {a : α} {x : Except Fault α}
    (h : x.mapError Stop.fault = .ok a) : x = .ok a := by
  cases x with
  | ok b =>
    cases h
    rfl
  | error f => cases h

theorem eq_of_toOption {α : Type} {a : α} {r : Except Stop α × Interpreter}
    (h : r.1.toOption = some a) : r = (.ok a, r.2) := by
  rcases r with ⟨e | b, s⟩ <;> cases h
  rfl

/-- What the read loop comes to: its first prompt is refused, or it goes by the rules. -/
inductive QuitRuns (s : Interpreter) : Except Stop Flow × Interpreter → Prop where
  | refused {f : Fault} {c : Channel} (h : Channel.write prompt s.channel = (.error f, c)) :
    QuitRuns s (.error (.fault f), { s with channel := c })
  | loops {s' : Interpreter} {c : Channel} {es : List Event} {x : Except Fault Flow}
    (h : Channel.write prompt s.channel = (.ok (), c))
    (hloop : Runs .loop { s with channel := c } es x s') : QuitRuns s (x.mapError .fault, s')

/-- `quit` prompts first, and then its read loop goes by the rules. -/
theorem quitRuns (hs : s.HostsKeepReturns) : QuitRuns s (quit s) := by
  rw [quit_eq hs, quitWith]
  rcases hw : Channel.write prompt s.channel with ⟨f | _, c⟩
  · rw [bind_of_error (onChannel_of hw)]
    exact .refused hw
  · have hs₁ : HostsKeepReturns { s with channel := c } := hs
    obtain ⟨es, x, s', hloop⟩ := Runs.exists .loop hs₁
    have hrun : readLoopWith interpret { s with channel := c } = (x.mapError .fault, s') :=
      hloop.sound hs₁
    rw [bind_of_ok (onChannel_of hw), hrun]
    exact .loops hw hloop

/-- A read loop by the rules is what `quit` does after its first prompt. -/
theorem Runs.quit_eq (hs : s.HostsKeepReturns) (h : Channel.write prompt s.channel = (.ok (), c))
    (hloop : Runs .loop { s with channel := c } es x s') : quit s = (x.mapError .fault, s') := by
  rw [Interpreter.quit_eq hs, quitWith, bind_of_ok (onChannel_of h)]
  exact hloop.sound hs

end CellForth.Interpreter
