import CellForth.Proofs.Calls

/-!
# Files that do not load

A session loads files and then reads lines. A file that fails is reported, both stacks are emptied,
and the next file is loaded (`LoadsOrSkips`, `LoadsAll`); after the last one the person is greeted
and the lines are read (`Converses`).

There is one kind of file that ends the session: one that is there and cannot be read, or that holds
a line that is no text (`Unreadable`). Its fault is fatal like that of a broken channel, so it is
passed on. `session_outcome` says that there is nothing else: a session does what `Converses` says,
or a call on its channel was refused, or it reached such a file.
-/

namespace CellForth.Interpreter

variable {α : Type} {s s' s₁ : Interpreter} {files : Files} {name : String} {names : List String}
  {greet : Bool} {f : Fault} {flow : Flow}

/-! ## Why a run fails -/

/-- How a run ended: with a fatal fault only if a call was refused, or for one of the reasons
given. -/
structure FailsBy (reason : Fault → Prop) (s : Interpreter) (x : Except Stop α)
    (s' : Interpreter) : Prop where
  hostCode : s'.hostCode = s.hostCode
  channel : s.channel.Leads s'.channel
  stops : ∀ stop, x = .error stop → ∃ f, stop = .fault f ∧
    (f.isFatal = true → s.channel.Refuses s'.channel ∨ reason f)

namespace FailsBy

variable {reason : Fault → Prop}

theorem of_ok (s : Interpreter) (a : α) : FailsBy reason s (.ok a) s :=
  ⟨rfl, .refl _, nofun⟩

/-- A fault for one of the reasons given is accounted for. -/
theorem of_reason (s : Interpreter) (h : f.isFatal = true → reason f) :
    FailsBy reason s (.error (.fault f) : Except Stop α) s where
  hostCode := rfl
  channel := .refl _
  stops stop hstop := by
    cases hstop
    exact ⟨f, rfl, fun hf => Or.inr (h hf)⟩

/-- What goes by the rules ends with a fatal fault only where a call was refused. -/
theorem of_runs {p : Part} {es : List Event} {x : Except Fault Flow} (h : Runs p s es x s')
    (hs : s.HostsNotFatal) : FailsBy reason s (x.mapError .fault) s' where
  hostCode := h.hostCode
  channel := h.makes.leads
  stops stop hstop := by
    cases x with
    | ok flow => cases hstop
    | error f =>
      cases hstop
      exact ⟨f, rfl, fun hf => Or.inl (h.refuses_of_isFatal hs rfl hf)⟩

theorem interpret (line : String) (hs : s.Trusted) :
    FailsBy reason s (interpret line s).1 (interpret line s).2 := by
  obtain ⟨es, x, s', hruns⟩ := Runs.exists (.line line) hs.returns
  have hrun := hruns.sound hs.returns
  simp only [Part.run] at hrun
  rw [hrun]
  exact of_runs hruns hs.hosts

/-- A run after another one that came to its end. -/
theorem trans {x : Except Stop Flow} {y : Except Stop α} (h : FailsBy reason s x s₁)
    (h' : FailsBy reason s₁ y s') : FailsBy reason s y s' where
  hostCode := h'.hostCode.trans h.hostCode
  channel := h.channel.trans h'.channel
  stops stop hstop := by
    obtain ⟨f, rfl, hf⟩ := h'.stops stop hstop
    exact ⟨f, rfl, fun hfatal => (hf hfatal).imp_left h.channel.trans_refuses⟩

/-- A run that fails for a reason was not cut short. -/
theorem ne_tooDeep {x : Except Stop α} (h : FailsBy reason s x s') : x ≠ .error .tooDeep := by
  intro hx
  obtain ⟨f, ⟨⟩, -⟩ := h.stops _ hx

theorem weaken {reason' : Fault → Prop} {x : Except Stop α} (h : FailsBy reason s x s')
    (hreason : ∀ f, reason f → reason' f) : FailsBy reason' s x s' where
  hostCode := h.hostCode
  channel := h.channel
  stops stop hstop := by
    obtain ⟨f, rfl, hf⟩ := h.stops stop hstop
    exact ⟨f, rfl, fun hfatal => (hf hfatal).imp_right (hreason f)⟩

/-- To say where a fault arose does not make it fatal. -/
theorem locating {act next : Run Flow} (place : String)
    (hact : FailsBy (fun _ => False) s (act s).1 (act s).2)
    (hnext : ∀ s₁, act s = (.ok .proceed, s₁) → FailsBy reason s₁ (next s₁).1 (next s₁).2) :
    FailsBy reason s (locating place act next s).1 (locating place act next s).2 := by
  rw [locating_apply]
  rcases hx : act s with ⟨(f | -) | (- | -), s₁⟩ <;> rw [hx] at hact
  · refine ⟨hact.hostCode, hact.channel, fun stop hstop => ?_⟩
    cases hstop
    obtain ⟨g, ⟨⟩, hf⟩ := hact.stops _ rfl
    exact ⟨_, rfl, fun hfatal => (hf hfatal).imp_right False.elim⟩
  · exact absurd rfl hact.ne_tooDeep
  · exact (hact.weaken (fun _ => False.elim)).trans (hnext s₁ hx)
  · exact ⟨hact.hostCode, hact.channel, nofun⟩

end FailsBy

/-- A file that is there and cannot be read, or that holds a line that is no text. -/
inductive Unreadable (files : Files) (name : String) : Fault → Prop where
  | notOpened {f : Fault} (h : files name = .error f) (hf : f.isFatal = true) :
    Unreadable files name f
  | notText {bytes piece : List UInt8} (h : files name = .ok bytes)
    (hpiece : piece ∈ Lines.cut bytes) (htext : Utf8.text? (Lines.withoutEnding piece) = none) :
    Unreadable files name ⟨.io, notText⟩

/-- The lines of a file fail fatally only where a call was refused or a line is no text. -/
theorem loadLines_failsBy (hs : s.Trusted) : ∀ (number : Nat) (pieces : List (List UInt8)),
    FailsBy (fun f => f = ⟨.io, notText⟩ ∧
        ∃ piece ∈ pieces, Utf8.text? (Lines.withoutEnding piece) = none) s
      (loadLines name number pieces s).1 (loadLines name number pieces s).2 := by
  intro number pieces
  induction pieces generalizing number s with
  | nil => exact .of_ok _ _
  | cons piece pieces ih =>
    cases htext : Utf8.text? (Lines.withoutEnding piece) with
    | none =>
      rw [loadLines_of_noText htext]
      exact .of_reason s fun _ => ⟨rfl, piece, List.mem_cons_self, htext⟩
    | some line =>
      rw [loadLines_of_text htext]
      refine .locating _ (.interpret line hs) fun s₁ hline => ?_
      have hfails : FailsBy (fun _ => False) s _ _ := .interpret line hs
      rw [hline] at hfails
      refine (ih (hs.of_eq hfails.hostCode) (number + 1)).weaken ?_
      rintro f ⟨hf, p, hp, hnone⟩
      exact ⟨hf, p, List.mem_cons_of_mem _ hp, hnone⟩

theorem load_failsBy (files : Files) (name : String) (hs : s.Trusted) :
    FailsBy (Unreadable files name) s (load files name s).1 (load files name s).2 := by
  cases hfile : files name with
  | error f =>
    rw [load_of_error hfile]
    exact .of_reason s fun hf => .notOpened hfile hf
  | ok bytes =>
    rw [load_of_ok hfile]
    refine (loadLines_failsBy hs 1 _).weaken ?_
    rintro f ⟨rfl, piece, hpiece, htext⟩
    exact .notText hfile hpiece htext

/-- The read loop is broken off only by a call that was refused. -/
theorem quit_outcome (hs : s.Trusted) : (∃ flow, (quit s).1 = .ok flow) ∨
    ∃ f, (quit s).1 = .error (.fault f) ∧ s.channel.Refuses (quit s).2.channel := by
  have hquit := quitRuns hs.returns
  generalize quit s = r at hquit
  cases hquit with
  | @refused f _ h => exact Or.inr ⟨f, rfl, Channel.refuses_of_answer_error h⟩
  | @loops _ _ _ x h hloop =>
    cases x with
    | ok flow => exact Or.inl ⟨flow, rfl⟩
    | error f =>
      have hrefuses := hloop.refuses_of_isFatal hs.hosts rfl (hloop.isFatal_of_loop rfl rfl)
      exact Or.inr ⟨f, rfl, (Channel.leads_of_write h).trans_refuses hrefuses⟩

/-! ## Loading files -/

/-- A file is loaded, or it fails: then that is reported once and both stacks are emptied. -/
inductive LoadsOrSkips (files : Files) (name : String) (s : Interpreter) : Interpreter → Prop where
  | loaded {s' : Interpreter} (h : load files name s = (.ok .proceed, s')) :
    LoadsOrSkips files name s s'
  | skipped {s₁ : Interpreter} {f : Fault} {c : Channel}
    (h : load files name s = (.error (.fault f), s₁)) (hf : f.isFatal = false)
    (hreport : Channel.report ("error: " ++ f.message ++ "\n") s₁.channel = (.ok (), c)) :
    LoadsOrSkips files name s { s₁ with
      machine := s₁.machine.reset, channel := c, trace := .recovered :: s₁.trace }

/-- Files are loaded in order, and those that fail are skipped. A file that leaves is the last
one. -/
inductive LoadsAll (files : Files) : List String → Interpreter → Flow → Interpreter → Prop where
  | nil (s : Interpreter) : LoadsAll files [] s .proceed s
  | cons {name : String} {names : List String} {s s₁ s' : Interpreter} {flow : Flow}
    (h : LoadsOrSkips files name s s₁) (hnext : LoadsAll files names s₁ flow s') :
    LoadsAll files (name :: names) s flow s'
  | left {name : String} {names : List String} {s s' : Interpreter}
    (h : load files name s = (.ok .exit, s')) : LoadsAll files (name :: names) s .exit s'

/-- What becomes of files that are loaded one after the other. -/
inductive LoadOutcome (files : Files) (names : List String) (s : Interpreter) :
    Except Stop Flow × Interpreter → Prop where
  | loads {flow : Flow} {s' : Interpreter} (h : LoadsAll files names s flow s') :
    LoadOutcome files names s (.ok flow, s')
  | refused {f : Fault} {s' : Interpreter} (h : s.channel.Refuses s'.channel) :
    LoadOutcome files names s (.error (.fault f), s')
  | unreadable {earlier later : List String} {name : String} {s₁ s' : Interpreter} {f : Fault}
    (hnames : names = earlier ++ name :: later) (hearlier : LoadsAll files earlier s .proceed s₁)
    (hname : Unreadable files name f) (hload : load files name s₁ = (.error (.fault f), s')) :
    LoadOutcome files names s (.error (.fault f), s')

/-- A file that was loaded or skipped leaves the host words as they are. -/
theorem LoadsOrSkips.leads_trusted (h : LoadsOrSkips files name s s') (hs : s.Trusted) :
    s.channel.Leads s'.channel ∧ s'.Trusted := by
  have hload := load_failsBy files name hs
  cases h with
  | loaded h =>
    rw [h] at hload
    exact ⟨hload.channel, hs.of_eq hload.hostCode⟩
  | skipped h _ hreport =>
    rw [h] at hload
    exact ⟨hload.channel.trans (Channel.leads_of_report hreport), hs.of_eq hload.hostCode⟩

theorem LoadsAll.leads_trusted (h : LoadsAll files names s flow s') (hs : s.Trusted) :
    s.channel.Leads s'.channel ∧ s'.Trusted := by
  induction h with
  | nil s => exact ⟨.refl _, hs⟩
  | cons h _ ih =>
    obtain ⟨hleads, hs₁⟩ := h.leads_trusted hs
    exact (ih hs₁).imp_left hleads.trans
  | @left name _ _ _ h =>
    have hload := load_failsBy files name hs
    rw [h] at hload
    exact ⟨hload.channel, hs.of_eq hload.hostCode⟩

/-- A file that was loaded or skipped goes in front of the others. -/
theorem LoadOutcome.cons {r : Except Stop Flow × Interpreter} (h : LoadsOrSkips files name s s₁)
    (hs : s.Trusted) (ho : LoadOutcome files names s₁ r) :
    LoadOutcome files (name :: names) s r := by
  cases ho with
  | loads hall => exact .loads (.cons h hall)
  | refused hrefuses => exact .refused ((h.leads_trusted hs).1.trans_refuses hrefuses)
  | @unreadable earlier _ _ _ _ _ hnames hearlier hname hload =>
    exact .unreadable (congrArg (name :: ·) hnames) (.cons h hearlier) hname hload

/-- Files are loaded or skipped in order, up to the first fatal fault. -/
theorem loadAll_outcome (files : Files) (names : List String) (hs : s.Trusted) :
    LoadOutcome files names s (loadAll files names s) := by
  induction names generalizing s with
  | nil => exact .loads (.nil s)
  | cons name names ih =>
    have hfails := load_failsBy files name hs
    rw [loadAll_cons, recovering_apply]
    rcases hload : load files name s with ⟨(f | -) | (- | -), s₁⟩ <;> rw [hload] at hfails
    · obtain ⟨_, ⟨⟩, hfatal⟩ := hfails.stops _ rfl
      dsimp only
      split
      · next hf =>
        rcases hfatal hf with hrefuses | hname
        · exact .refused hrefuses
        · exact .unreadable rfl (.nil s) hname hload
      · next hf =>
        rcases hreport : Channel.report f.report s₁.channel with ⟨g | _, c⟩
        · rw [bind_of_error (recover_of_error hreport)]
          exact .refused (hfails.channel.trans_refuses (Channel.refuses_of_answer_error hreport))
        · rw [bind_of_ok (recover_of_ok hreport)]
          have hskips : LoadsOrSkips files name s _ := .skipped hload (by simpa using hf) hreport
          exact .cons hskips hs (ih (hskips.leads_trusted hs).2)
    · exact absurd rfl hfails.ne_tooDeep
    · have hloaded : LoadsOrSkips files name s s₁ := .loaded hload
      exact .cons hloaded hs (ih (hloaded.leads_trusted hs).2)
    · exact .loads (.left hload)

/-! ## Sessions -/

/-- Greets a person if asked to. -/
def greeting (greet : Bool) : Run Unit :=
  if greet then onChannel (Channel.write banner) else pure ()

/-- A session that came to its end: files were loaded or skipped, and unless one of them left, the
person was greeted and lines were read. -/
inductive Converses (files : Files) (names : List String) (greet : Bool) (s : Interpreter) :
    Interpreter → Prop where
  | left {s' : Interpreter} (h : LoadsAll files names s .exit s') : Converses files names greet s s'
  | reads {s₁ s₂ s' : Interpreter} {flow : Flow} (h : LoadsAll files names s .proceed s₁)
    (hgreet : greeting greet s₁ = (.ok (), s₂)) (hquit : quit s₂ = (.ok flow, s')) :
    Converses files names greet s s'

/-- What becomes of a session. -/
inductive SessionOutcome (files : Files) (names : List String) (greet : Bool) (s : Interpreter) :
    Except Stop Unit × Interpreter → Prop where
  | converses {s' : Interpreter} (h : Converses files names greet s s') :
    SessionOutcome files names greet s (.ok (), s')
  | refused {f : Fault} {s' : Interpreter} (h : s.channel.Refuses s'.channel) :
    SessionOutcome files names greet s (.error (.fault f), s')
  | unreadable {earlier later : List String} {name : String} {s₁ s' : Interpreter} {f : Fault}
    (hnames : names = earlier ++ name :: later) (hearlier : LoadsAll files earlier s .proceed s₁)
    (hname : Unreadable files name f) (hload : load files name s₁ = (.error (.fault f), s')) :
    SessionOutcome files names greet s (.error (.fault f), s')

/-- A session loads its files, and unless one of them leaves, it greets and reads lines. -/
theorem session_eq (files : Files) (names : List String) (greet : Bool) :
    session files names greet = (do
      match ← loadAll files names with
      | .exit => pure ()
      | .proceed => do
        greeting greet
        discard quit) := by
  unfold session sessionWith
  refine bind_congr fun flow => ?_
  cases flow <;> cases greet <;> rfl

/-- Once files were loaded or skipped, the others are loaded as if they came first. -/
theorem LoadsAll.loadAll_append {earlier : List String} (h : LoadsAll files earlier s flow s₁)
    (hflow : flow = .proceed) (later : List String) :
    loadAll files (earlier ++ later) s = loadAll files later s₁ := by
  induction h with
  | nil s => rfl
  | left h => cases hflow
  | cons h _ ih =>
    rw [List.cons_append, loadAll_cons, recovering_apply]
    cases h with
    | loaded h =>
      rw [h]
      exact ih hflow
    | skipped h hf hreport =>
      simp only [h, hf]
      rw [if_neg nofun, bind_of_ok (recover_of_ok hreport)]
      exact ih hflow

theorem session_of_loadAll_error {stop : Stop} (h : loadAll files names s = (.error stop, s')) :
    session files names greet s = (.error stop, s') := by
  rw [session_eq, bind_of_error h]

/-- The greeting is written or refused, and changes nothing but the channel. -/
theorem greeting_outcome (greet : Bool) (s : Interpreter) :
    (∃ c, greeting greet s = (.ok (), { s with channel := c }) ∧ s.channel.Leads c) ∨
    ∃ f c, greeting greet s = (.error (.fault f), { s with channel := c }) ∧
      s.channel.Refuses c := by
  cases greet with
  | false => exact Or.inl ⟨s.channel, rfl, .refl _⟩
  | true =>
    rcases hw : Channel.write banner s.channel with ⟨f | _, c⟩
    · exact Or.inr ⟨f, c, onChannel_of hw, Channel.refuses_of_answer_error hw⟩
    · exact Or.inl ⟨c, onChannel_of hw, Channel.leads_of_write hw⟩

/-- After its files a session reads lines, unless a call on its channel is refused. -/
theorem LoadsAll.sessionOutcome (h : LoadsAll files names s .proceed s₁) (hs : s.Trusted) :
    SessionOutcome files names greet s ((greeting greet >>= fun _ => discard quit) s₁) := by
  obtain ⟨hleads, hs₁⟩ := h.leads_trusted hs
  rcases greeting_outcome greet s₁ with ⟨c, hgreet, hc⟩ | ⟨f, c, hgreet, hc⟩
  · have hs₂ : Trusted { s₁ with channel := c } := hs₁.of_eq rfl
    have hquit := quit_outcome hs₂
    rw [bind_of_ok hgreet]
    rcases hr : quit { s₁ with channel := c } with ⟨x, s'⟩
    rw [hr] at hquit
    rcases hquit with ⟨flow, rfl⟩ | ⟨f, rfl, hrefuses⟩
    · have hdiscard : (discard quit : Run Unit) { s₁ with channel := c } = (.ok (), s') :=
        bind_of_ok hr
      rw [hdiscard]
      exact .converses (.reads h hgreet hr)
    · have hdiscard : (discard quit : Run Unit) { s₁ with channel := c } =
          (.error (.fault f), s') := bind_of_error hr
      rw [hdiscard]
      exact .refused ((hleads.trans hc).trans_refuses hrefuses)
  · rw [bind_of_error hgreet]
    exact .refused (hleads.trans_refuses hc)

/-- A session loads or skips its files and reads lines, unless a call on its channel was refused or
it reached an unreadable file, which ends it. So if no file is unreadable, a session fails only
where a call was refused. -/
theorem session_outcome (hs : s.Trusted) (files : Files) (names : List String) (greet : Bool) :
    SessionOutcome files names greet s (session files names greet s) ∧
    (∀ earlier later name s₁ s' f, names = earlier ++ name :: later →
      LoadsAll files earlier s .proceed s₁ → load files name s₁ = (.error (.fault f), s') →
      f.isFatal = true → session files names greet s = (.error (.fault f), s')) ∧
    ((∀ name ∈ names, ∀ f, ¬ Unreadable files name f) →
      (∃ s', session files names greet s = (.ok (), s') ∧ Converses files names greet s s') ∨
      s.channel.Refuses (session files names greet s).2.channel) := by
  have houtcome : SessionOutcome files names greet s (session files names greet s) := by
    have hload := loadAll_outcome files names hs
    rw [session_eq, bind_apply]
    generalize loadAll files names s = r at hload
    cases hload with
    | @loads flow s₁ h =>
      cases flow with
      | exit => exact .converses (.left h)
      | proceed => exact h.sessionOutcome hs
    | refused h => exact .refused h
    | unreadable hnames hearlier hname hload => exact .unreadable hnames hearlier hname hload
  refine ⟨houtcome, ?_, fun hnames => ?_⟩
  · rintro earlier later name s₁ s' f rfl hearlier hload hf
    refine session_of_loadAll_error ?_
    rw [hearlier.loadAll_append rfl, loadAll_cons, recovering_apply, hload]
    exact if_pos hf
  · generalize session files names greet s = r at houtcome
    cases houtcome with
    | converses h => exact Or.inl ⟨_, rfl, h⟩
    | refused h => exact Or.inr h
    | unreadable hsplit _ hname _ =>
      exact absurd hname (hnames _ (by simp [hsplit]) _)

/-- A file is missing, and a line of the next one fails: neither ends the session. -/
theorem session_outcome_skips :
    let files : Files := fun name =>
      if name = "bad" then .ok (Utf8.encode "1 foo") else .error ⟨.fileNotFound, name⟩
    let s := new 4 (.ofLines ["2 ."])
    s.Trusted ∧ (∀ name ∈ ["gone", "bad"], ∀ f, ¬ Unreadable files name f) ∧
    SessionOutcome files ["gone", "bad"] false s (session files ["gone", "bad"] false s) ∧
    ((∃ s', session files ["gone", "bad"] false s = (.ok (), s') ∧
        Converses files ["gone", "bad"] false s s') ∨
      s.channel.Refuses (session files ["gone", "bad"] false s).2.channel) := by
  intro files s
  have hs : s.Trusted := .new 4 _
  have hgone : files "gone" = .error ⟨.fileNotFound, "gone"⟩ := rfl
  have hbad : files "bad" = .ok (Utf8.encode "1 foo") := rfl
  have htext : ∀ piece ∈ Lines.cut (Utf8.encode "1 foo"),
      Utf8.text? (Lines.withoutEnding piece) ≠ none := by
    decide +kernel
  have hreadable : ∀ name ∈ ["gone", "bad"], ∀ f, ¬ Unreadable files name f := by
    intro name hname f hf
    obtain rfl | rfl : name = "gone" ∨ name = "bad" := by simpa using hname
    · cases hf with
      | notOpened h hfatal =>
        cases hgone.symm.trans h
        cases hfatal
      | notText h _ _ => cases hgone.symm.trans h
    · cases hf with
      | notOpened h _ => cases hbad.symm.trans h
      | notText h hpiece hnone =>
        cases hbad.symm.trans h
        exact htext _ hpiece hnone
  have houtcome := session_outcome hs files ["gone", "bad"] false
  exact ⟨hs, hreadable, houtcome.1, houtcome.2.2 hreadable⟩

/-- A directory among the files ends the session: nothing is written and nothing read. -/
theorem directory_ends_session :
    session (SourceTree.ofNames [("d", none)]).files ["d"] false (new 128 (.ofLines ["1 ."])) =
      (.error (.fault ⟨.io, "Is a directory (os error 21)"⟩), new 128 (.ofLines ["1 ."])) := by
  have hparts : SourceTree.parts "d" = ["d"] := by
    rw [SourceTree.parts, String.splitOn, if_neg (by decide), String.splitOnAux, if_neg (by decide),
      if_neg (by decide), String.splitOnAux, if_pos (by decide)]
    decide
  have hnul : "d".contains '\x00' = false := by
    rw [String.contains_char_eq]
    decide
  have hroot : "d".startsWith "/" = false :=
    String.startsWith_string_eq_false_iff.2 (by decide)
  have hwalk : (SourceTree.ofNames [("d", none)]).walk "d" = .ok (.directory ["d"]) := by
    simp only [SourceTree.walk, SourceTree.ofNames, List.map, hnul, hroot, hparts]
    rfl
  have hfile : (SourceTree.ofNames [("d", none)]).files "d" =
      .error ⟨.io, "Is a directory (os error 21)"⟩ := by
    rw [SourceTree.files, SourceTree.read, hwalk]
    rfl
  refine session_of_loadAll_error ?_
  rw [loadAll_cons, recovering_apply, load_of_error hfile]
  rfl

end CellForth.Interpreter
