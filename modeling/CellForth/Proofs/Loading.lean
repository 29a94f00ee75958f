import CellForth.Proofs.Dialogue
import CellForth.Proofs.Likeness
import CellForth.Proofs.Reading

/-!
# Lines of a file and lines from the channel

A source file of some lines is loaded on one side, and on the other side the read loop takes the
same lines from the channel. If no token of `quit` is held, both do the same, line by line, up to
the first line that leaves or fails (`load_as_typed`). What a line does is its `Effect`: its result,
the machine that it leaves, and the texts that it writes. The lines have the same effects on both
sides. The sides differ in what happens between lines: the read loop takes and acknowledges them,
and a file says in which line a fault arose.

No line takes a line of its own, so within a line both sides only write, each on its own channel
(`apart`). This is a likeness, so one run follows the other.
-/

namespace CellForth

theorem Utf8.text?_encode (s : String) : text? (encode s) = some s := by
  have hall : s.toList.mapM (m := Option) some = some (s.toList.map id) := List.mapM_pure ..
  rw [text?, encode, decode_flatMap, List.mapM_map]
  show (s.toList.mapM (m := Option) some).map String.ofList = some s
  rw [hall, List.map_id, Option.map_some, String.ofList_toList]

namespace Lines

/-- The bytes of a line that a line feed ends. -/
def ended (line : String) : List UInt8 :=
  Utf8.encode line ++ [Byte.lineFeed]

/-- The bytes of a file of some lines. -/
def file (lines : List String) : List UInt8 :=
  lines.flatMap ended

/-- A text in which no line ends. -/
def IsSingle (line : String) : Prop :=
  '\n' ∉ line.toList ∧ '\r' ∉ line.toList

/-- Bytes with a line feed at their end only are one piece. -/
theorem cut_of_not_mem {bytes : List UInt8} (h : Byte.lineFeed ∉ bytes) :
    cut (bytes ++ [Byte.lineFeed]) = [bytes ++ [Byte.lineFeed]] := by
  induction bytes with
  | nil => rfl
  | cons b bytes ih =>
    obtain ⟨hb, hbytes⟩ := not_or.1 (mt List.mem_cons.2 h)
    rw [List.cons_append, cut_cons, ih hbytes, prepend, if_neg (Ne.symm hb)]

theorem cut_ended {line : String} (h : IsSingle line) : cut (ended line) = [ended line] :=
  cut_of_not_mem fun hmem => h.1 (Utf8.mem_of_mem_encode (by decide) hmem)

/-- A file of single lines is cut into these lines. -/
theorem cut_file {lines : List String} (h : ∀ line ∈ lines, IsSingle line) :
    cut (file lines) = lines.map ended := by
  induction lines with
  | nil => rfl
  | cons line lines ih =>
    obtain ⟨hline, hlines⟩ := List.forall_mem_cons.1 h
    have hlast : (ended line).getLast? = some Byte.lineFeed := List.getLast?_concat ..
    rw [file, List.flatMap_cons, cut_append hlast, cut_ended hline, ← file, ih hlines]
    rfl

/-- Without a carriage return in front of it, only the line feed at the end is taken off. -/
theorem withoutEnding_concat {line : List UInt8} (h : line.getLast? ≠ some Byte.carriageReturn) :
    withoutEnding (line ++ [Byte.lineFeed]) = line := by
  rw [withoutEnding, if_pos (List.getLast?_concat ..)]
  simp only [List.dropLast_concat, if_neg h]

theorem withoutEnding_ended {line : String} (h : IsSingle line) :
    withoutEnding (ended line) = Utf8.encode line :=
  withoutEnding_concat fun hlast =>
    h.2 (Utf8.mem_of_mem_encode (by decide) (List.mem_of_getLast? hlast))

end Lines

/-! ## Channels apart -/

namespace Channel

/-- The channel after texts were written. -/
def writing (texts : List String) (c : Channel) : Channel :=
  { c with calls := (texts.map Call.wrote).reverse ++ c.calls }

theorem writing_append (texts later : List String) (c : Channel) :
    c.writing (texts ++ later) = (c.writing texts).writing later := by
  simp [writing]

/-- A channel that accepts all texts only records what is written. -/
theorem write_of_none {c : Channel} (h : c.writeBreakage = none) (text : String) :
    write text c = (.ok (), c.writing [text]) := by
  have hnone : c.breakage (Call.wrote text).direction = none := h
  exact answer_of_none hnone () c.unread

/-- The same texts were written on two channels that accept all texts. -/
structure WrittenAlike (b b' c c' : Channel) : Prop where
  left : b.writeBreakage = none
  right : b'.writeBreakage = none
  texts : ∃ texts, c = b.writing texts ∧ c' = b'.writing texts

/-- Channels on which the same was written still are so after one more text. -/
theorem WrittenAlike.write {b b' c c' : Channel} (h : WrittenAlike b b' c c') (text : String) :
    SameAnswer (WrittenAlike b b') (write text c) (write text c') := by
  obtain ⟨hb, hb', texts, rfl, rfl⟩ := h
  rw [write_of_none (c := b.writing texts) hb, write_of_none (c := b'.writing texts) hb']
  exact ⟨rfl, hb, hb', texts ++ [text], (writing_append ..).symm, (writing_append ..).symm⟩

end Channel

namespace Interpreter

/-- The same line, on two channels of which nothing is read. -/
def apart (b b' : Channel) : Likeness where
  held := Token.IsAllowed (· ≠ .quit)
  cursor := Eq
  channel := Channel.WrittenAlike b b'
  noHost _ := id
  refl _ := rfl
  readWord h := ⟨by rw [h], by rw [h]⟩
  parse _ _ _ h := ⟨by rw [h], by rw [h]⟩
  write text _ _ h := h.write text
  report hquit := absurd rfl hquit
  read hquit := absurd rfl hquit

/-- States between lines that differ in their channels only. -/
def Beside (s t : Interpreter) : Prop :=
  (apart s.channel t.channel).Relates s t

/-- What a line came to. -/
structure Effect where
  line : String
  result : Except Fault Flow
  machine : Machine
  written : List String

/-- What the line does from one state to another. -/
structure Effect.Brings (effect : Effect) (s s' : Interpreter) : Prop where
  run : interpret effect.line s = (effect.result.mapError .fault, s')
  machine : s'.machine = effect.machine
  channel : s'.channel = s.channel.writing effect.written

variable {s s' s₁ t t' t₁ : Interpreter} {line name : String} {lines rest : List String}
  {number : Nat} {effect : Effect} {effects : List Effect} {x : Except Fault Flow} {flow : Flow}

namespace Beside

/-- Between lines the two channels may be taken as they are now. -/
theorem of_relates {b b' : Channel} (h : (apart b b').Relates s t)
    (hs : s.channel.writeBreakage = none) (ht : t.channel.writeBreakage = none) : Beside s t :=
  { h with channel := ⟨hs, ht, [], rfl, rfl⟩ }

/-- What the read loop does to its channel between lines. -/
theorem calling (h : Beside s t) (call : Call) (rest : List String) :
    Beside s (t.calling call rest) :=
  { h with channel := ⟨h.channel.left, h.channel.right, [], rfl, rfl⟩ }

/-- A line has the same effect on both sides. -/
theorem exists_effect (h : Beside s t) (hline : interpret line t = (x.mapError .fault, t₁)) :
    ∃ (effect : Effect) (s₁ : Interpreter), effect.line = line ∧ effect.result = x ∧
      effect.Brings s s₁ ∧ effect.Brings t t₁ ∧ Beside s₁ t₁ := by
  obtain ⟨hresult, hrelates, -⟩ := Part.follows (p := .line line) trivial s t h
  simp only [Part.run] at hresult hrelates
  rw [hline] at hresult hrelates
  obtain ⟨hs, ht, texts, hchannel, hchannel'⟩ := hrelates.channel
  refine ⟨⟨line, x, t₁.machine, texts⟩, (interpret line s).2, rfl, rfl,
    ⟨Prod.ext hresult.symm rfl, hrelates.machine.symm, hchannel⟩, ⟨hline, rfl, hchannel'⟩,
    of_relates hrelates ?_ ?_⟩
  · rw [hchannel]
    exact hs
  · rw [hchannel']
    exact ht

end Beside

/-! ## Lines that proceed -/

/-- Lines of a file that proceed, one after the other. -/
inductive LoadsOn : List Effect → Interpreter → Interpreter → Prop where
  | nil {s : Interpreter} : LoadsOn [] s s
  | cons {effect : Effect} {effects : List Effect} {s s₁ s' : Interpreter}
    (hresult : effect.result = .ok .proceed) (heffect : effect.Brings s s₁)
    (hlater : LoadsOn effects s₁ s') : LoadsOn (effect :: effects) s s'

/-- Lines from the channel that proceed, each taken before it is interpreted and acknowledged
after. -/
inductive TypesOn : List Effect → Interpreter → Interpreter → Prop where
  | nil {s : Interpreter} : TypesOn [] s s
  | cons {effect : Effect} {effects : List Effect} {s s₁ s' : Interpreter} {rest : List String}
    (hunread : s.channel.unread = effect.line :: rest) (hresult : effect.result = .ok .proceed)
    (heffect : effect.Brings (s.calling (.took effect.line) rest) s₁)
    (hlater : TypesOn effects (s₁.calling (.wrote prompt) rest) s') :
    TypesOn (effect :: effects) s s'

/-- How the read loop acknowledges a line with the effect. -/
def Effect.acknowledgement (effect : Effect) : List Call :=
  match effect.result with
  | .ok .proceed => [.wrote prompt]
  | .ok .exit => []
  | .error f => [.reported f.report]

/-- The calls of the read loop for a line with the effect. -/
def Effect.exchange (effect : Effect) : List Call :=
  .took effect.line :: (effect.written.map Call.wrote ++ effect.acknowledgement)

/-- Lines are loaded from `s`, where the first has a number, and typed from `t`. They have the same
effects up to the first line that does not proceed. Then a file is left, and the read loop may go on
and make later calls. -/
inductive LoadedAsTyped (name : String) (number : Nat) (lines : List String)
    (s t : Interpreter) : List Effect → List Call →
      Except Stop Flow × Interpreter → Except Stop Flow × Interpreter → Prop where
  | ended {effects : List Effect} {s' t₁ : Interpreter} (hlines : lines = effects.map Effect.line)
    (hload : LoadsOn effects s s') (htype : TypesOn effects t t₁) :
    LoadedAsTyped name number lines s t effects [.ended] (.ok .proceed, s')
      (.ok .proceed, t₁.calling .ended [])
  | left {effects : List Effect} {effect : Effect} {rest : List String} {s₁ s' t₁ t' : Interpreter}
    (hlines : lines = effects.map Effect.line ++ effect.line :: rest)
    (hload : LoadsOn effects s s₁) (htype : TypesOn effects t t₁)
    (hresult : effect.result = .ok .exit) (hs : effect.Brings s₁ s')
    (ht : effect.Brings (t₁.calling (.took effect.line) rest) t') :
    LoadedAsTyped name number lines s t (effects ++ [effect]) [] (.ok .exit, s') (.ok .exit, t')
  | failed {effects : List Effect} {effect : Effect} {rest : List String} {later : List Call}
    {s₁ s' t₁ t₂ t' : Interpreter} {f : Fault} {flow : Flow} {place : String}
    (hlines : lines = effects.map Effect.line ++ effect.line :: rest)
    (hload : LoadsOn effects s s₁) (htype : TypesOn effects t t₁)
    (hresult : effect.result = .error f) (hs : effect.Brings s₁ s')
    (ht : effect.Brings (t₁.calling (.took effect.line) rest) t₂)
    (hplace : place = "in line " ++ toString (number + effects.length) ++ " of " ++ name)
    (hloop : ReadLoop (t₂.recoveredFrom f) flow t')
    (hlater : t'.channel.calls = later.reverse ++ (t₂.recoveredFrom f).channel.calls) :
    LoadedAsTyped name number lines s t (effects ++ [effect]) later
      (.error (.fault ⟨f.kind, if f.detail.isEmpty then place else f.detail ++ "; " ++ place⟩), s')
      (.ok flow, t')

/-- A line in front that proceeds. -/
theorem LoadedAsTyped.cons {later : List Call} {r r' : Except Stop Flow × Interpreter}
    (hunread : t.channel.unread = effect.line :: rest) (hresult : effect.result = .ok .proceed)
    (hs : effect.Brings s s₁) (ht : effect.Brings (t.calling (.took effect.line) rest) t₁)
    (h : LoadedAsTyped name (number + 1) rest s₁ (t₁.calling (.wrote prompt) rest) effects later
      r r') :
    LoadedAsTyped name number (effect.line :: rest) s t (effect :: effects) later r r' := by
  cases h with
  | ended hlines hload htype =>
    exact .ended (congrArg (effect.line :: ·) hlines) (.cons hresult hs hload)
      (.cons hunread hresult ht htype)
  | @left effects next _ _ _ _ _ hlines hload htype hresult' hs' ht' =>
    have h : LoadedAsTyped name number (effect.line :: rest) s t ((effect :: effects) ++ [next]) []
        _ _ := .left (congrArg (effect.line :: ·) hlines) (.cons hresult hs hload)
      (.cons hunread hresult ht htype) hresult' hs' ht'
    exact h
  | @failed effects next _ _ _ _ _ _ _ _ _ _ hlines hload htype hresult' hs' ht' hplace hloop
      hlater =>
    rw [Nat.add_right_comm, Nat.add_assoc, ← List.length_cons (a := effect)] at hplace
    have h : LoadedAsTyped name number (effect.line :: rest) s t ((effect :: effects) ++ [next])
        later _ _ := .failed (congrArg (effect.line :: ·) hlines) (.cons hresult hs hload)
      (.cons hunread hresult ht htype) hresult' hs' ht' hplace hloop hlater
    exact h

/-! ## Both sides in step -/

/-- A line of a file is interpreted, and a fault in it gets the place in the file. -/
theorem loadLines_ended (h : Lines.IsSingle line) (name : String) (number : Nat)
    (pieces : List (List UInt8)) :
    loadLines name number (Lines.ended line :: pieces) =
      locating ("in line " ++ toString number ++ " of " ++ name) (interpret line)
        (loadLines name (number + 1) pieces) :=
  loadLines_of_text (by rw [Lines.withoutEnding_ended h, Utf8.text?_encode]) name number pieces

theorem leads_of_interpret {r : Except Stop Flow} (h : interpret line s = (r, s'))
    (hs : s.HostsKeepReturns) : Leads s s' := by
  have hleads := disciplined_interpret line s hs
  rwa [h] at hleads

/-- The read loop only adds to the calls. -/
theorem ReadLoop.calls_suffix (h : ReadLoop s flow s') (hs : s.HostsKeepReturns) :
    s.channel.calls <:+ s'.channel.calls := by
  induction h with
  | ended _ => exact List.suffix_cons ..
  | done _ hline _ ih =>
    have hleads := leads_of_interpret hline hs
    have hcalls := (List.suffix_cons ..).trans hleads.channel.calls
    exact hcalls.trans ((List.suffix_cons ..).trans (ih (hleads.hosts hs)))
  | left _ hline =>
    exact (List.suffix_cons ..).trans (leads_of_interpret hline hs).channel.calls
  | failed _ hline _ ih =>
    have hleads := leads_of_interpret hline hs
    have hcalls := (List.suffix_cons ..).trans hleads.channel.calls
    exact hcalls.trans ((List.suffix_cons ..).trans (ih (hleads.hosts hs)))

/-- Loading follows the read loop, line by line. -/
theorem ReadLoop.loadedAsTyped (h : ReadLoop t flow t') (hst : Beside s t)
    (hlines : ∀ line ∈ t.channel.unread, Lines.IsSingle line) (name : String) (number : Nat) :
    ∃ effects later, LoadedAsTyped name number t.channel.unread s t effects later
      (loadLines name number (t.channel.unread.map Lines.ended) s) (.ok flow, t') := by
  induction h generalizing s number with
  | ended h =>
    rw [h]
    exact ⟨[], _, .ended rfl .nil .nil⟩
  | @done t t₁ t' line rest flow h hline _ ih =>
    obtain ⟨effect, s₁, rfl, hresult, hs, ht, hst₁⟩ :=
      (hst.calling (.took line) rest).exists_effect (x := .ok .proceed) hline
    obtain rfl : t₁.channel.unread = rest := congrArg Channel.unread ht.channel
    rw [h] at hlines ⊢
    obtain ⟨hsingle, hlines⟩ := List.forall_mem_cons.1 hlines
    obtain ⟨effects, later, hlater⟩ := ih (hst₁.calling _ _) hlines (number + 1)
    rw [List.map_cons, loadLines_ended hsingle, locating_apply, hs.run, hresult]
    exact ⟨effect :: effects, later, hlater.cons h hresult hs ht⟩
  | @left t t' line rest h hline =>
    obtain ⟨effect, s₁, rfl, hresult, hs, ht, -⟩ :=
      (hst.calling (.took line) rest).exists_effect (x := .ok .exit) hline
    rw [h] at hlines ⊢
    obtain ⟨hsingle, -⟩ := List.forall_mem_cons.1 hlines
    rw [List.map_cons, loadLines_ended hsingle, locating_apply, hs.run, hresult]
    have hleft : LoadedAsTyped name number (effect.line :: rest) s t ([] ++ [effect]) []
        (.ok .exit, s₁) (.ok .exit, t') := .left rfl .nil .nil hresult hs ht
    exact ⟨[effect], [], hleft⟩
  | @failed t t₁ t' line rest f flow h hline hloop _ =>
    obtain ⟨effect, s₁, rfl, hresult, hs, ht, hst₁⟩ :=
      (hst.calling (.took line) rest).exists_effect (x := .error f) hline
    rw [h] at hlines ⊢
    obtain ⟨hsingle, -⟩ := List.forall_mem_cons.1 hlines
    -- The file ends here and the read loop goes on: the later calls are all that it does from now.
    obtain ⟨made, hmade⟩ := hloop.calls_suffix hst₁.hosts_right
    rw [List.map_cons, loadLines_ended hsingle, locating_apply, hs.run, hresult]
    have hfailed : LoadedAsTyped name number (effect.line :: rest) s t ([] ++ [effect]) made.reverse
        _ (.ok flow, t') :=
      .failed rfl .nil .nil hresult hs ht rfl hloop (by rw [List.reverse_reverse, hmade])
    exact ⟨[effect], made.reverse, hfailed⟩

/-! ## What is written -/

/-- What the lines of a file write is what they write one after the other. -/
theorem LoadsOn.channel (h : LoadsOn effects s s') :
    s'.channel = s.channel.writing (effects.flatMap Effect.written) := by
  induction h with
  | nil => rfl
  | cons _ heffect _ ih =>
    rw [ih, heffect.channel, List.flatMap_cons, Channel.writing_append]

/-- A line that was taken and acknowledged adds its exchange to the record. -/
theorem Effect.Brings.calls_exchange
    (h : effect.Brings (s.calling (.took effect.line) rest) s₁) :
    effect.acknowledgement.reverse ++ s₁.channel.calls =
      effect.exchange.reverse ++ s.channel.calls := by
  rw [h.channel]
  simp [exchange, Channel.writing, calling, Channel.recording]

theorem TypesOn.calls (h : TypesOn effects s s') :
    s'.channel.calls = (effects.flatMap Effect.exchange).reverse ++ s.channel.calls := by
  induction h with
  | nil => rfl
  | @cons effect effects s s₁ s' rest _ hresult heffect _ ih =>
    have hcalls := heffect.calls_exchange
    rw [Effect.acknowledgement, hresult] at hcalls
    rw [ih, List.flatMap_cons, List.reverse_append, List.append_assoc, ← hcalls]
    rfl

namespace LoadedAsTyped

variable {later : List Call} {r r' : Except Stop Flow × Interpreter}

/-- Loading writes what the lines write, and nothing for itself. -/
theorem written (h : LoadedAsTyped name number lines s t effects later r r') :
    r.2.channel = s.channel.writing (effects.flatMap Effect.written) := by
  cases h with
  | ended _ hload _ => exact hload.channel
  | left _ hload _ _ hs _ =>
    rw [hs.channel, hload.channel, ← Channel.writing_append]
    simp
  | failed _ hload _ _ hs _ _ _ _ =>
    rw [hs.channel, hload.channel, ← Channel.writing_append]
    simp

theorem calls (h : LoadedAsTyped name number lines s t effects later r r') :
    r'.2.channel.calls =
      (effects.flatMap Effect.exchange ++ later).reverse ++ t.channel.calls := by
  cases h with
  | ended _ _ htype =>
    have hcalls := htype.calls
    simp [calling, Channel.recording, hcalls]
  | left _ _ htype hresult _ ht =>
    have hcalls := ht.calls_exchange
    rw [Effect.acknowledgement, hresult, htype.calls] at hcalls
    simpa using hcalls
  | failed _ _ htype hresult _ ht _ _ hlater =>
    have hcalls := ht.calls_exchange
    rw [Effect.acknowledgement, hresult, htype.calls] at hcalls
    rw [hlater]
    simpa [recoveredFrom, calling, Channel.recording, Fault.report] using hcalls

end LoadedAsTyped

/-- The state in front of lines on its channel. -/
def typing (lines : List String) (s : Interpreter) : Interpreter :=
  { s with channel := { s.channel with unread := lines } }

section Typing

variable (hchannel : ∀ d, s.channel.breakage d = none)
include hchannel

/-- Without host words, lines on a channel that does not break are a steady state. -/
theorem HoldsOnly.steady_typing {allowed : Builtin → Prop} (hs : s.HoldsOnly allowed)
    (lines : List String) : (s.typing lines).Steady where
  returns := hostsKeepReturns_of_eq (s := s.typing lines) hs.hosts
  hosts code hcode := by simp [typing, hs.hosts] at hcode
  unbroken
    | .writing => hchannel .writing
    | .reading => hchannel .reading

/-- After its first prompt the read loop stands beside the state from which the file is loaded. -/
theorem HoldsOnly.beside_typing (hs : s.HoldsOnly (· ≠ .quit)) (lines : List String) :
    Beside s ((s.typing lines).calling (.wrote prompt) lines) where
  hosts := hostsKeepReturns_of_eq hs.hosts
  words := hs.words
  exposes := hs.exposes
  machine := rfl
  dictionary := rfl
  hostCode := rfl
  cursor := rfl
  channel := ⟨hchannel .writing, hchannel .writing, [], rfl, rfl⟩

end Typing

/-- A file of some lines is loaded as the lines are typed. They have the same effects, one after the
other, up to the first line that leaves or fails. -/
theorem load_as_typed (hs : s.HoldsOnly (· ≠ .quit)) (hchannel : ∀ d, s.channel.breakage d = none)
    (hlines : ∀ line ∈ lines, Lines.IsSingle line) {files : Files}
    (hfile : files name = .ok (Lines.file lines)) :
    ∃ effects later,
      LoadedAsTyped name 1 lines s ((s.typing lines).calling (.wrote prompt) lines) effects later
        (load files name s) (quit (s.typing lines)) ∧
      callsOf (load files name) s = (effects.flatMap Effect.written).map Call.wrote ∧
      callsOf quit (s.typing lines) =
        .wrote prompt :: (effects.flatMap Effect.exchange ++ later) := by
  obtain ⟨flow, t', _, _, haccounts⟩ := quit_accounted (hs.steady_typing hchannel lines)
  obtain ⟨effects, later, hloop⟩ :=
    haccounts.loop.loadedAsTyped (hs.beside_typing hchannel lines) hlines name 1
  have hboth : LoadedAsTyped name 1 lines s ((s.typing lines).calling (.wrote prompt) lines) effects
      later (load files name s) (quit (s.typing lines)) := by
    rw [load_of_ok hfile, Lines.cut_file hlines, haccounts.result]
    exact hloop
  refine ⟨effects, later, hboth, ?_, ?_⟩
  · have hmade := callsOf_eq (congrArg Channel.calls hboth.written)
    simpa using hmade
  · have hmade : (quit (s.typing lines)).2.channel.calls =
        (.wrote prompt :: (effects.flatMap Effect.exchange ++ later)).reverse ++
          (s.typing lines).channel.calls := by
      rw [hboth.calls]
      simp [typing, calling, Channel.recording]
    rw [callsOf_eq hmade, List.reverse_reverse]

/-- Lines that write, a line within a line, an empty one, and a fault in the fourth line. -/
theorem load_as_typed_fourth :
    let s : Interpreter :=
      { new 4 (.ofLines ["8 ."]) with dictionary := .of (Builtin.all.filter (· ≠ .quit)) }
    let lines := ["1 .\" né\" .", "s\" 2 3 + .\" evaluate", "", "7 drop nope 9", "5 ."]
    let files : Files := fun _ => .ok (Lines.file lines)
    s.HoldsOnly (· ≠ .quit) ∧ (∀ d, s.channel.breakage d = none) ∧
    (∀ line ∈ lines, Lines.IsSingle line) ∧
    (callsOf quit (s.typing lines)).filterMap Call.report? = ["error: undefined word: nope\n"] ∧
    ∃ effects later,
      LoadedAsTyped "f" 1 lines s ((s.typing lines).calling (.wrote prompt) lines) effects later
        (load files "f" s) (quit (s.typing lines)) ∧
      callsOf (load files "f") s = (effects.flatMap Effect.written).map Call.wrote ∧
      callsOf quit (s.typing lines) =
        .wrote prompt :: (effects.flatMap Effect.exchange ++ later) := by
  intro s lines files
  have hs : s.HoldsOnly (· ≠ .quit) := holdsOnly_new _ (by decide) 4 _
  have hchannel : ∀ d, s.channel.breakage d = none := fun d => by cases d <;> rfl
  have hlines : ∀ line ∈ lines, Lines.IsSingle line := by
    unfold Lines.IsSingle
    decide +kernel
  have hreports : (callsOf quit (s.typing lines)).filterMap Call.report? =
      ["error: undefined word: nope\n"] := by
    decide +kernel
  exact ⟨hs, hchannel, hlines, hreports, load_as_typed hs hchannel hlines rfl⟩

end Interpreter
end CellForth
