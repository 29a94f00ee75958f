import CellForth.Session

/-!
# Runs made of steps

Every word is made of a few steps (`Step`), one after the other: a stack or memory operation, a
look at the dictionary, a piece of the line, a call on the channel, the code of a host word. So
what holds of the steps and survives putting runs in order holds of all words.

The statements here are about relations between runs, so that one principle serves properties of
one run and comparisons of two. A relation is `Composable` if it relates every step to itself
and is kept by `>>=`. It is `Closed` if it is also kept by the two places that put something
back or go on after a fault, `within` and `takeLineWith`. A closed relation relates every line
to itself at every level (`Closed.interpretAt`), and so every token, word and read loop.
-/

namespace CellForth

/-! ## Steps of the machine -/

/-- The operations that words perform on the data stack. -/
inductive Stack.Operation : {α : Type} → Transaction Stack α → Prop where
  | push (v : Value) : Operation (Stack.push v)
  | top : Operation Stack.top
  | pop : Operation Stack.pop
  | drop : Operation Stack.drop
  | replaceTop (v : Value) : Operation (Stack.replaceTop v)
  | dup : Operation Stack.dup
  | swap : Operation Stack.swap
  | copyBelow : Operation Stack.copyBelow
  | pick : Operation Stack.pick
  | pushDepth : Operation Stack.pushDepth

/-- The operations that words perform on memory. -/
inductive Memory.Operation : {α : Type} → Transaction Memory α → Prop where
  | allocate (count : Nat) : Operation (Memory.allocate count)
  | fetch (a : Nat) : Operation (Memory.fetch a)
  | store (a : Nat) (v : Value) : Operation (Memory.store a v)

/-- Actions on the machine made of its operations in order; a refusal of memory may be taken up. -/
inductive Machine.Made : {α : Type} → Machine.Action α → Prop where
  | pure {α : Type} (a : α) : Made (pure a)
  | data {α : Type} {t : Transaction Stack α} (h : Stack.Operation t) : Made (onData t)
  | memory {α : Type} {t : Transaction Memory α} (h : Memory.Operation t) : Made (onMemory t)
  | trial {α : Type} {t : Transaction Memory α} (h : Memory.Operation t) :
    Made (attempt (onMemory t))
  | refuse {α : Type} (f : Fault) (h : f.isFatal = false) : Made (throw f : Action α)
  | bind {α β : Type} {act : Action α} {next : α → Action β} (h : Made act)
    (hnext : ∀ a, Made (next a)) : Made (act >>= next)

namespace Machine.Made

/-- A result that is passed on is made of steps if its fault is not fatal. -/
theorem ofExcept {α : Type} {x : Except Fault α} (h : ∀ f, x = .error f → f.isFatal = false) :
    Made (liftM x : Action α) := by
  cases x with
  | ok a => exact pure a
  | error f => exact refuse f (h f rfl)

theorem compute (op : Operation) : Made (compute op) :=
  bind (data .pop) fun _ => bind (data .top) fun _ =>
    bind (ofExcept fun _ => Operation.isFatal_of_apply_error) fun v => data (.replaceTop v)

theorem store : Made store := by
  refine bind (data .pop) fun target => bind (data .pop) fun v => ?_
  cases target with
  | addr a => exact memory (.store a v)
  | int n => exact refuse _ rfl
  | text s => exact refuse _ rfl
  | token t => exact refuse _ rfl

theorem fetch : Made fetch := by
  refine bind (data .top) fun target => ?_
  cases target with
  | addr a => exact bind (memory (.fetch a)) fun v => data (.replaceTop v)
  | int n => exact refuse _ rfl
  | text s => exact refuse _ rfl
  | token t => exact refuse _ rfl

theorem cellPlus : Made cellPlus := by
  refine bind (data .top) fun target => ?_
  cases target with
  | addr a => exact data (.replaceTop _)
  | int n => exact refuse _ rfl
  | text s => exact refuse _ rfl
  | token t => exact refuse _ rfl

/-- A refusal of memory does not refuse `reserve`: either way two values are pushed. -/
theorem reserve : Made reserve := by
  refine bind (data .pop) fun count => ?_
  cases count with
  | int n =>
    dsimp only
    split
    · exact refuse _ rfl
    · refine bind (trial (.allocate _)) fun result => ?_
      cases result with
      | ok a => exact bind (data (.push _)) fun _ => data (.push _)
      | error f => exact bind (data (.push _)) fun _ => data (.push _)
  | text s => exact refuse _ rfl
  | addr a => exact refuse _ rfl
  | token t => exact refuse _ rfl

end Machine.Made

/-! ## Tokens that run no others -/

/-- Whether a token does its work itself: it hands over to no other run, and the line goes on after
it. -/
def Token.isPlain : Token → Bool
  | .builtin .execute => false
  | .builtin .evaluate => false
  | .builtin .quit => false
  | .builtin .bye => false
  | _ => true

/-- Apart from `execute`, the tokens that are not plain are these three. -/
theorem Token.eq_of_not_isPlain {t : Token} (h : ¬ t.isPlain = true)
    (ht : t ≠ .builtin .execute) :
    t = .builtin .evaluate ∨ t = .builtin .quit ∨ t = .builtin .bye := by
  cases t with
  | host word => exact absurd rfl h
  | builtin word => cases word <;> simp_all [isPlain]

namespace Interpreter

variable {α β : Type}

/-! ## Running the parts in order -/

/-- Looking at the state changes nothing, so what follows starts where the look was taken. -/
theorem view_bind (f : Interpreter → α) (next : α → Run β) (s : Interpreter) :
    (view f >>= next) s = next (f s) s :=
  bind_of_ok rfl

/-- Two actions in order on the machine are two runs in order. -/
theorem onMachine_bind (act : Machine.Action α) (next : α → Machine.Action β) :
    onMachine (act >>= next) = onMachine act >>= fun a => onMachine (next a) := by
  funext s
  rw [bind_apply]
  simp only [onMachine, bind_apply]
  rcases act s.machine with ⟨_ | a, m⟩ <;> rfl

theorem onMachine_of {act : Machine.Action α} {s : Interpreter} {x : Except Fault α} {m : Machine}
    (h : act s.machine = (x, m)) :
    onMachine act s = (x.mapError .fault, { s with machine := m }) := by
  rw [onMachine, h]

theorem onChannel_of {act : Channel.Action α} {s : Interpreter} {x : Except Fault α} {c : Channel}
    (h : act s.channel = (x, c)) :
    onChannel act s = (x.mapError .fault, { s with channel := c }) := by
  rw [onChannel, h]

/-- Only what a call does to the channel at hand matters. -/
theorem onChannel_congr {act act' : Channel.Action α} {s : Interpreter}
    (h : act s.channel = act' s.channel) : onChannel act s = onChannel act' s := by
  rw [onChannel, h, onChannel]

/-! ## Where a run goes on after another -/

/-- The ways on from a run that may be recovered: only `proceed` and a fault that is not fatal go
on. -/
theorem recovering_apply (act : Run Flow) (done : Run Unit) (next : Run Flow) (s : Interpreter) :
    recovering act done next s =
      match act s with
      | (.ok .proceed, s') => (done >>= fun _ => next) s'
      | (.ok .exit, s') => (.ok .exit, s')
      | (.error (.fault f), s') =>
        if f.isFatal then (.error (.fault f), s') else (recover f >>= fun _ => next) s'
      | (.error .tooDeep, s') => (.error .tooDeep, s') := by
  rw [recovering, attempt_bind]
  rcases act s with ⟨(f | -) | (- | -), s'⟩
  · dsimp only
    split <;> rfl
  · rfl
  · rfl
  · rfl

/-- The ways on from a run whose place is noted: only `proceed` goes on, and a fault gets the
place. -/
theorem locating_apply (place : String) (act next : Run Flow) (s : Interpreter) :
    locating place act next s =
      match act s with
      | (.ok .proceed, s') => next s'
      | (.ok .exit, s') => (.ok .exit, s')
      | (.error (.fault f), s') => (.error (.fault (f.within place)), s')
      | (.error .tooDeep, s') => (.error .tooDeep, s') := by
  rw [locating, attempt_bind]
  rcases act s with ⟨(f | -) | (- | -), s'⟩ <;> rfl

/-- A fault that can be reported is survived, and the machine is reset. -/
theorem recover_of_ok {f : Fault} {s : Interpreter} {c : Channel}
    (h : Channel.report f.report s.channel = (.ok (), c)) :
    recover f s = (.ok (), { s with
      machine := s.machine.reset, channel := c, trace := .recovered :: s.trace }) :=
  bind_of_ok (onChannel_of h)

/-- A fault that cannot be reported is replaced by the refusal, and the machine stays as it was. -/
theorem recover_of_error {f g : Fault} {s : Interpreter} {c : Channel}
    (h : Channel.report f.report s.channel = (.error g, c)) :
    recover f s = (.error (.fault g), { s with channel := c }) :=
  bind_of_error (onChannel_of h)

/-- A recovery empties the stacks, unless the report of the fault is refused. -/
theorem recover_state (f : Fault) (s : Interpreter) : ∃ c,
    (recover f s).2 = { s with channel := c } ∨
    (recover f s).2 = { s with
      machine := s.machine.reset, channel := c, trace := .recovered :: s.trace } := by
  rcases hrep : Channel.report f.report s.channel with ⟨g | _, c⟩
  · exact ⟨c, Or.inl (by rw [recover_of_error hrep])⟩
  · exact ⟨c, Or.inr (by rw [recover_of_ok hrep])⟩

theorem takeLineWith_of_some {nested : String → Run Flow} {next : Run Flow} {s : Interpreter}
    {line : String} {c : Channel} (h : Channel.read s.channel = (.ok (some line), c)) :
    takeLineWith nested next s =
      recovering (nested line) (onChannel (Channel.write prompt)) next { s with channel := c } :=
  bind_of_ok (onChannel_of h)

theorem takeLineWith_of_none {nested : String → Run Flow} {next : Run Flow} {s : Interpreter}
    {c : Channel} (h : Channel.read s.channel = (.ok none, c)) :
    takeLineWith nested next s = (.ok .proceed, { s with channel := c }) :=
  bind_of_ok (onChannel_of h)

/-- A read that is refused ends the read loop with its fault. -/
theorem takeLineWith_of_error {nested : String → Run Flow} {next : Run Flow} {s : Interpreter}
    {f : Fault} {c : Channel} (h : Channel.read s.channel = (.error f, c)) :
    takeLineWith nested next s = (.error (.fault f), { s with channel := c }) :=
  bind_of_error (onChannel_of h)

/-- Only the line that is taken matters to the run of it. -/
theorem takeLineWith_congr {nested nested' : String → Run Flow} {s : Interpreter} (next : Run Flow)
    (h : ∀ line c, Channel.read s.channel = (.ok (some line), c) →
      nested' line { s with channel := c } = nested line { s with channel := c }) :
    takeLineWith nested' next s = takeLineWith nested next s := by
  rcases hread : Channel.read s.channel with ⟨f | (- | line), c⟩
  · rw [takeLineWith_of_error hread, takeLineWith_of_error hread]
  · rw [takeLineWith_of_none hread, takeLineWith_of_none hread]
  · rw [takeLineWith_of_some hread, takeLineWith_of_some hread, recovering_apply,
      recovering_apply, h line c hread]

/-- The state in which a line begins. -/
def entering (line : String) (s : Interpreter) : Interpreter :=
  { s with
    machine := { s.machine with
      returns := { s.machine.returns with
        cells := .int (Int64.ofNat s.machine.returns.depth) :: s.machine.returns.cells } }
    cursor := Cursor.ofString line
    trace := .entered (s.machine.returns.depth + 1) :: s.trace }

/-- The state after a line that began at a depth of the return stack and in place of a cursor. -/
def leaving (depth : Nat) (saved : Cursor) (s : Interpreter) : Interpreter :=
  { s with
    machine := s.machine.unnest depth
    cursor := saved
    trace := .left (s.machine.unnest depth).returns.depth :: s.trace }

/-- A line is refused where the return stack has no room for one more level. -/
theorem within_of_full {body : Run Flow} {line : String} {s : Interpreter}
    (h : s.machine.returns.isFull = true) :
    within line body s = (.error (.fault ⟨.stackOverflow, "evaluate"⟩), s) := by
  exact bind_of_error (bind_of_error (onMachine_of (Machine.nest_of_full h)))

/-- With room on the return stack the body runs on the new line, and the old one is put back. -/
theorem within_of_room {body : Run Flow} {line : String} {s : Interpreter}
    (h : s.machine.returns.isFull = false) :
    within line body s = ((body (s.entering line)).1,
      (body (s.entering line)).2.leaving s.machine.returns.depth s.cursor) := by
  have henter : enter line s = (.ok (s.machine.returns.depth, s.cursor), s.entering line) := by
    rw [enter, bind_of_ok (onMachine_of (Machine.nest_of_room h))]
    rfl
  rw [within, bind_of_ok henter]
  rfl

/-! ## Steps -/

/-- The steps that words are made of. -/
inductive Step : {α : Type} → Run α → Prop where
  | stack {α : Type} {t : Transaction Stack α} (h : Stack.Operation t) :
    Step (onMachine (Machine.onData t))
  | memory {α : Type} {t : Transaction Memory α} (h : Memory.Operation t) :
    Step (onMachine (Machine.onMemory t))
  | trial {α : Type} {t : Transaction Memory α} (h : Memory.Operation t) :
    Step (onMachine (attempt (Machine.onMemory t)))
  | refuse {α : Type} (f : Fault) (h : f.isFatal = false) : Step (throw (.fault f) : Run α)
  | host (word : HostWord) : Step (callHost word)
  | begin (t : Token) : Step (mark (.began t))
  | readWord (delimiter : UInt8) : Step (readWord delimiter)
  | parse (delimiter : UInt8) : Step (parse delimiter)
  | write (text : String) : Step (onChannel (Channel.write text))
  | findWord (name : String) : Step (findWord name)
  | names : Step (view (·.dictionary.names))
  | data : Step (view (·.machine.data))

/-- The looks at the state by which runs are counted. -/
inductive Count : Run Nat → Prop where
  | data : Count (view (·.machine.data.depth))
  | rest : Count (view (·.cursor.rest.length))
  | unread : Count (view (·.channel.unread.length))

/-- Runs made of steps in order. -/
inductive Made : {α : Type} → Run α → Prop where
  | pure {α : Type} (a : α) : Made (pure a)
  | step {α : Type} {act : Run α} (h : Step act) : Made act
  | bind {α β : Type} {act : Run α} {next : α → Run β} (h : Made act)
    (hnext : ∀ a, Made (next a)) : Made (act >>= next)

namespace Made

theorem refuse {kind : Fault.Kind} {detail : String}
    (h : (⟨kind, detail⟩ : Fault).isFatal = false) :
    Made (Interpreter.refuse kind detail : Run α) :=
  step (.refuse _ h)

theorem thenProceed {act : Run Unit} (h : Made act) : Made (thenProceed act) :=
  bind h fun _ => pure _

theorem stack {t : Transaction Stack α} (h : Stack.Operation t) :
    Made (onMachine (Machine.onData t)) :=
  step (.stack h)

/-- The words of the machine are made of steps. -/
theorem machine {act : Machine.Action α} (h : Machine.Made act) : Made (onMachine act) := by
  induction h with
  | pure a => exact pure a
  | data h => exact stack h
  | memory h => exact step (.memory h)
  | trial h => exact step (.trial h)
  | refuse f h => exact step (.refuse f h)
  | bind _ _ ih ihnext =>
    rw [onMachine_bind]
    exact bind ih ihnext

/-! ## Words that look beyond the machine -/

/-- The look at the dictionary is a step, and an undefined word is a refusal. -/
theorem tokenOf (name : String) : Made (tokenOf name) := by
  refine bind (step (.findWord name)) fun entry => ?_
  cases entry with
  | some entry => exact pure _
  | none => exact refuse rfl

/-- `find` puts the token in the place of the name and pushes a flag, or pushes only the flag. -/
theorem find : Made find := by
  refine bind (stack .top) fun v => ?_
  cases v with
  | text name =>
    refine bind (step (.findWord name)) fun entry => ?_
    cases entry with
    | some entry => exact bind (stack (.replaceTop _)) fun _ => stack (.push _)
    | none => exact stack (.push _)
  | int n => exact refuse rfl
  | addr a => exact refuse rfl
  | token t => exact refuse rfl

theorem tick : Made tick := by
  refine bind (step (.readWord _)) fun word => ?_
  cases word with
  | some name => exact bind (tokenOf name) fun _ => stack (.push _)
  | none => exact refuse rfl

theorem words : Made words :=
  bind (step .names) fun _ => step (.write _)

theorem sQuote : Made sQuote :=
  bind (step (.parse _)) fun _ => stack (.push _)

theorem dotQuote : Made dotQuote :=
  bind (step (.parse _)) fun _ => step (.write _)

theorem dot : Made dot :=
  bind (stack .pop) fun _ => step (.write _)

theorem dotS : Made dotS :=
  bind (step .data) fun _ => step (.write _)

theorem emit : Made emit := by
  refine bind (stack .pop) fun v => ?_
  cases v with
  | int n =>
    dsimp only
    split
    · exact step (.write _)
    · exact refuse rfl
  | text s => exact refuse rfl
  | addr a => exact refuse rfl
  | token t => exact refuse rfl

end Made

/-! ## Tokens -/

/-- A plain token begins and then goes through a few steps. -/
theorem exists_made_of_isPlain {t : Token} (ht : t.isPlain = true) : ∃ act : Run Unit, Made act ∧
    ∀ nested execute, tokenWith nested execute t = (do mark (.began t); thenProceed act) := by
  cases t with
  | host word => exact ⟨_, .step (.host word), fun _ _ => rfl⟩
  | builtin word =>
    cases word with
    | depth => exact ⟨_, .stack .pushDepth, fun _ _ => rfl⟩
    | dup => exact ⟨_, .stack .dup, fun _ _ => rfl⟩
    | drop => exact ⟨_, .stack .drop, fun _ _ => rfl⟩
    | swap => exact ⟨_, .stack .swap, fun _ _ => rfl⟩
    | copyBelow => exact ⟨_, .stack .copyBelow, fun _ _ => rfl⟩
    | pick => exact ⟨_, .stack .pick, fun _ _ => rfl⟩
    | plus => exact ⟨_, .machine (.compute .sum), fun _ _ => rfl⟩
    | minus => exact ⟨_, .machine (.compute .difference), fun _ _ => rfl⟩
    | star => exact ⟨_, .machine (.compute .product), fun _ _ => rfl⟩
    | slash => exact ⟨_, .machine (.compute .quotient), fun _ _ => rfl⟩
    | store => exact ⟨_, .machine .store, fun _ _ => rfl⟩
    | fetch => exact ⟨_, .machine .fetch, fun _ _ => rfl⟩
    | allocate => exact ⟨_, .machine .reserve, fun _ _ => rfl⟩
    | cellPlus => exact ⟨_, .machine .cellPlus, fun _ _ => rfl⟩
    | find => exact ⟨_, .find, fun _ _ => rfl⟩
    | tick => exact ⟨_, .tick, fun _ _ => rfl⟩
    | execute => cases ht
    | evaluate => cases ht
    | quit => cases ht
    | bye => cases ht
    | dot => exact ⟨_, .dot, fun _ _ => rfl⟩
    | dotS => exact ⟨_, .dotS, fun _ _ => rfl⟩
    | dotQuote => exact ⟨_, .dotQuote, fun _ _ => rfl⟩
    | emit => exact ⟨_, .emit, fun _ _ => rfl⟩
    | cr => exact ⟨_, .step (.write _), fun _ _ => rfl⟩
    | bl => exact ⟨_, .stack (.push _), fun _ _ => rfl⟩
    | words => exact ⟨_, .words, fun _ _ => rfl⟩
    | sQuote => exact ⟨_, .sQuote, fun _ _ => rfl⟩

/-! ## Relations between runs -/

/-- A relation between runs of every type of result. -/
abbrev Relation := (α : Type) → Run α → Run α → Prop

/-- A relation that relates every step to itself and is kept by putting runs in order. -/
structure Composable (R : Relation) : Prop where
  pure : ∀ {α : Type} (a : α), R α (Pure.pure a) (Pure.pure a)
  step : ∀ {α : Type} {act : Run α}, Step act → R α act act
  bind : ∀ {α β : Type} {act act' : Run α} {next next' : α → Run β}, R α act act' →
    (∀ a, R β (next a) (next' a)) → R β (act >>= next) (act' >>= next')

namespace Composable

variable {R : Relation} (h : Composable R) {nested nested' : String → Run Flow}
include h

/-- What relates the steps relates all that is made of them. -/
theorem made {act : Run α} (ha : Made act) : R α act act := by
  induction ha with
  | pure a => exact h.pure a
  | step hs => exact h.step hs
  | bind _ _ ih ihnext => exact h.bind ih ihnext

/-- What relates two ways to run a line relates `evaluate` over them. -/
theorem evaluateWith (hn : ∀ line, R Flow (nested line) (nested' line)) :
    R Flow (evaluateWith nested) (evaluateWith nested') := by
  refine h.bind (h.step (.stack .pop)) fun v => ?_
  cases v with
  | text line => exact hn line
  | int n => exact h.step (.refuse _ rfl)
  | addr a => exact h.step (.refuse _ rfl)
  | token t => exact h.step (.refuse _ rfl)

/-- What relates two ways to run tokens relates `execute` over them. -/
theorem executeTop {execute execute' : Token → Run Flow}
    (he : ∀ t, R Flow (execute t) (execute' t)) :
    R Flow (tokenWith nested execute (.builtin .execute))
      (tokenWith nested' execute' (.builtin .execute)) := by
  refine h.bind (h.step (.begin _)) fun _ => h.bind (h.step (.stack .pop)) fun v => ?_
  cases v with
  | token t => exact he t
  | int n => exact h.step (.refuse _ rfl)
  | text s => exact h.step (.refuse _ rfl)
  | addr a => exact h.step (.refuse _ rfl)

/-- All tokens but `execute` do the same over every run of the token it takes. -/
theorem tokenWith_of_ne {execute execute' : Token → Run Flow} {t : Token}
    (ht : t ≠ .builtin .execute) (hn : ∀ line, R Flow (nested line) (nested' line))
    (hq : R Flow (quitWith nested) (quitWith nested')) :
    R Flow (tokenWith nested execute t) (tokenWith nested' execute' t) := by
  by_cases hp : t.isPlain = true
  · obtain ⟨act, hact, heq⟩ := exists_made_of_isPlain hp
    rw [heq, heq]
    exact h.bind (h.step (.begin t)) fun _ => h.made (.thenProceed hact)
  · obtain rfl | rfl | rfl := Token.eq_of_not_isPlain hp ht
    · exact h.bind (h.step (.begin _)) fun _ => h.evaluateWith hn
    · exact h.bind (h.step (.begin _)) fun _ => hq
    · exact h.bind (h.step (.begin _)) fun _ => h.pure _

/-- Tokens are related if lines, read loops and the tokens that `execute` runs are. -/
theorem tokenWith {execute execute' : Token → Run Flow}
    (hn : ∀ line, R Flow (nested line) (nested' line))
    (hq : R Flow (quitWith nested) (quitWith nested'))
    (he : ∀ t, R Flow (execute t) (execute' t)) (t : Token) :
    R Flow (tokenWith nested execute t) (tokenWith nested' execute' t) := by
  by_cases ht : t = .builtin .execute
  · rw [ht]
    exact h.executeTop he
  · exact h.tokenWith_of_ne ht hn hq

/-- A word that is called by name is looked up, then its token runs. -/
theorem executeWordWith (he : ∀ t, R Flow (executeTokenWith nested t) (executeTokenWith nested' t))
    (name : String) : R Flow (executeWordWith nested name) (executeWordWith nested' name) :=
  h.bind (h.made (.tokenOf name)) he

/-- A word of the line is a number that is pushed, or its token runs. -/
theorem wordWith (he : ∀ t, R Flow (executeTokenWith nested t) (executeTokenWith nested' t))
    (word : String) : R Flow (wordWith nested word) (wordWith nested' word) := by
  unfold Interpreter.wordWith
  split
  · exact h.made (.thenProceed (.stack (.push _)))
  · exact h.executeWordWith he _
  · next f hf => exact h.step (.refuse f (Lexeme.isFatal_of_classify_error hf))

/-- One turn of a line: the next word is read and runs, and the turns after it follow. -/
theorem nextWordWith {next next' : Run Flow}
    (hw : ∀ word, R Flow (Interpreter.wordWith nested word) (Interpreter.wordWith nested' word))
    (hnext : R Flow next next') :
    R Flow (nextWordWith nested next) (nextWordWith nested' next') := by
  refine h.bind (h.step (.readWord _)) fun word => ?_
  cases word with
  | none => exact h.pure _
  | some word =>
    refine h.bind (hw word) fun flow => ?_
    cases flow with
    | exit => exact h.pure _
    | proceed => exact hnext

end Composable

/-- A composable relation that is kept where a run is counted and where a count is used up, where
a line is taken off the channel, and where a line is put in place of another. -/
structure Closed (R : Relation) : Prop extends Composable R where
  count : ∀ {act : Run Nat}, Count act → R Nat act act
  tooDeep : R Flow (throw .tooDeep) (throw .tooDeep)
  takeLineWith : ∀ {nested nested' : String → Run Flow} {next next' : Run Flow},
    (∀ line, R Flow (nested line) (nested' line)) → R Flow next next' →
    R Flow (takeLineWith nested next) (takeLineWith nested' next')
  within : ∀ {body body' : Run Flow} (line : String), R Flow body body' →
    R Flow (within line body) (within line body')

namespace Closed

variable {R : Relation} (h : Closed R) {nested nested' : String → Run Flow}
  (hn : ∀ line, R Flow (nested line) (nested' line))
include h hn

omit hn in
/-- A relation that one turn keeps is kept by any number of turns. -/
theorem turns {turn turn' : Run Flow → Run Flow}
    (ht : ∀ next next', R Flow next next' → R Flow (turn next) (turn' next')) (n : Nat) :
    R Flow (turns turn n) (turns turn' n) := by
  induction n with
  | zero => exact h.tooDeep
  | succ n ih => exact ht _ _ ih

/-- The turns of a read loop are counted first, and then each of them keeps the relation. -/
theorem readLoopWith : R Flow (readLoopWith nested) (readLoopWith nested') :=
  h.bind (h.count .unread) fun _ => h.turns (fun _ _ => h.takeLineWith hn) _

theorem quitWith : R Flow (quitWith nested) (quitWith nested') :=
  h.bind (h.step (.write _)) fun _ => h.readLoopWith hn

/-- By induction on how often `execute` may run `execute`. -/
theorem executeWith (n : Nat) : ∀ t, R Flow (executeWith nested n t) (executeWith nested' n t) := by
  induction n with
  | zero => exact fun _ => h.tooDeep
  | succ n ih => exact h.tokenWith hn (h.quitWith hn) ih

/-- How often `execute` may run `execute` is counted by the cells on the data stack. -/
theorem executeTokenWith (t : Token) :
    R Flow (executeTokenWith nested t) (executeTokenWith nested' t) :=
  h.bind (h.count .data) fun _ => h.executeWith hn _ t

theorem executeWordWith (name : String) :
    R Flow (executeWordWith nested name) (executeWordWith nested' name) :=
  h.toComposable.executeWordWith (h.executeTokenWith hn) name

/-- The turns of a line are counted by the bytes that are left of it. -/
theorem lineWith : R Flow (lineWith nested) (lineWith nested') :=
  h.bind (h.count .rest) fun _ =>
    h.turns (fun _ _ => h.nextWordWith (h.wordWith (h.executeTokenWith hn))) _

/-- A line is its words between entering it and leaving it. -/
theorem interpretWith (line : String) :
    R Flow (interpretWith nested line) (interpretWith nested' line) :=
  h.within line (h.lineWith hn)

omit hn in
/-- What is closed holds of every line at every level. -/
theorem interpretAt (n : Nat) : ∀ line, R Flow (interpretAt n line) (interpretAt n line) := by
  induction n with
  | zero => exact fun _ => h.tooDeep
  | succ n ih => exact h.interpretWith ih

end Closed

/-! ## Invariants -/

/-- Runs that keep an invariant of the state, however they end. -/
def Preserves (inv : Interpreter → Prop) : Relation := fun _ act _ => ∀ s, inv s → inv (act s).2

namespace Preserves

variable {inv : Interpreter → Prop}

/-- An invariant that two runs keep is kept by one after the other. -/
theorem bind {act act' : Run α} {next next' : α → Run β} (h : Preserves inv α act act')
    (hnext : ∀ a, Preserves inv β (next a) (next' a)) :
    Preserves inv β (act >>= next) (act' >>= next') := by
  intro s hs
  have hact := h s hs
  rw [bind_apply]
  rcases hx : act s with ⟨e | a, s'⟩ <;> rw [hx] at hact
  · exact hact
  · exact hnext a s' hact

/-- An invariant that the parts keep is also kept across a recovery, if resetting the machine keeps
it. -/
theorem recovering {act act' next next' : Run Flow} {done done' : Run Unit}
    (hrecover : ∀ f, Preserves inv Unit (recover f) (recover f)) (h : Preserves inv Flow act act')
    (hdone : Preserves inv Unit done done') (hnext : Preserves inv Flow next next') :
    Preserves inv Flow (recovering act done next) (recovering act' done' next') := by
  intro s hs
  have hact := h s hs
  rw [recovering_apply]
  rcases hx : act s with ⟨(f | -) | (- | -), s'⟩ <;> rw [hx] at hact
  · dsimp only
    split
    · exact hact
    · exact bind (hrecover f) (fun _ => hnext) s' hact
  · exact hact
  · exact bind hdone (fun _ => hnext) s' hact
  · exact hact

/-- One turn of the read loop keeps an invariant that its line, the channel and the recovery
keep. -/
theorem takeLineWith {nested nested' : String → Run Flow} {next next' : Run Flow}
    (hread : Preserves inv _ (onChannel Channel.read) (onChannel Channel.read))
    (hwrite : ∀ text, Preserves inv _ (onChannel (Channel.write text))
      (onChannel (Channel.write text)))
    (hrecover : ∀ f, Preserves inv Unit (recover f) (recover f))
    (hn : ∀ line, Preserves inv Flow (nested line) (nested' line))
    (hnext : Preserves inv Flow next next') :
    Preserves inv Flow (takeLineWith nested next) (takeLineWith nested' next') := by
  refine bind hread fun line => ?_
  cases line with
  | none => exact fun _ hs => hs
  | some line => exact recovering hrecover (hn line) (hwrite prompt) hnext

end Preserves

end Interpreter

end CellForth
