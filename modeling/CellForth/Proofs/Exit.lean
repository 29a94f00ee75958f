import CellForth.Proofs.Extension
import CellForth.Proofs.Sessions

/-!
# Leaving is final

A word that leaves is passed on by every level that it is inside: the words behind it in its line,
the lines still to be taken, the rest of a source file and the files after it are not looked at.
`exit_final` says this by putting something else in their place. It also says where leaving comes
from: a run leaves only if the token `bye` began in it, at whatever depth.
-/

namespace CellForth.Interpreter

variable {α : Type} {s s' s₁ : Interpreter} {p : Part} {i : Item} {es : List Event}
  {x : Except Fault Flow} {files : Files} {name : String} {names : List String}

/-! ## Lines -/

/-- What follows a line that leaves, after a blank, is not looked at. -/
theorem interpret_append_of_exit {t₁ t₂ : String} {b : UInt8} (hs : s.HostsKeepReturns)
    (hb : (Utf8.encode t₂).head? = some b) (hblank : Byte.isBlank b = true)
    (h : interpret t₁ s = (.ok .exit, s')) : interpret (t₁ ++ t₂) s = (.ok .exit, s') := by
  obtain ⟨es, x, s₁, hruns⟩ := Runs.exists (.line t₁) hs
  have hrun : interpret t₁ s = (x.mapError .fault, s₁) := hruns.sound hs
  obtain ⟨hx, rfl⟩ := Prod.mk.inj (h.symm.trans hrun)
  cases hruns with
  | full _ => cases hx
  | @line _ s₂ _ es _ hfull hrest =>
    obtain rfl := eq_ok_of_mapError hx.symm
    have hcursor : (s.entering t₁).extended (Utf8.encode t₂) = s.entering (t₁ ++ t₂) := by
      simp only [entering, extended, Cursor.extended, Cursor.ofString, Utf8.encode_append]
    rcases hrest.extended hb hblank with hlong | ⟨-, -, hne⟩
    · rw [hcursor] at hlong
      exact (Runs.line hfull hlong).sound hs
    · exact absurd rfl hne

/-! ## Read loops -/

/-- A read loop that was not told that the input has ended does not see more lines behind it. -/
theorem quit_supplied (hs : s.HostsKeepReturns) (hended : .ended ∉ callsOf quit s)
    (more : List String) : quit (s.supplied more) = ((quit s).1, (quit s).2.supplied more) := by
  have hs' : (s.supplied more).HostsKeepReturns := hs
  have hquit := quitRuns hs
  generalize quit s = r at hquit
  cases hquit with
  | @refused f c h =>
    have hwrite : Channel.write prompt (s.supplied more).channel = (.error f, c.supplied more) := by
      rw [supplied, Channel.write_supplied, h]
    rw [quit_eq hs', quitWith, bind_of_error (onChannel_of hwrite)]
    rfl
  | @loops s' c es x h hloop =>
    have hwrite : Channel.write prompt (s.supplied more).channel = (.ok (), c.supplied more) := by
      rw [supplied, Channel.write_supplied, h]
    rw [hloop.callsOf_quit hs h] at hended
    have hes : .asked .ended ∉ es := fun hmem =>
      hended (List.mem_cons_of_mem _ (List.mem_filterMap.2 ⟨_, hmem, rfl⟩))
    exact (hloop.supplied hes more).quit_eq hs' hwrite

/-! ## Files -/

/-- Lines of a file that proceed are followed by the others, with their numbers. -/
theorem loadLines_append {number : Nat} {before : List (List UInt8)}
    (h : loadLines name number before s = (.ok .proceed, s₁)) (pieces : List (List UInt8)) :
    loadLines name number (before ++ pieces) s =
      loadLines name (number + before.length) pieces s₁ := by
  induction before generalizing number s with
  | nil =>
    cases h
    rfl
  | cons piece before ih =>
    rw [List.cons_append]
    cases htext : Utf8.text? (Lines.withoutEnding piece) with
    | none =>
      rw [loadLines_of_noText htext] at h
      cases h
    | some line =>
      rw [loadLines_of_text htext, locating_apply] at h ⊢
      rcases hline : interpret line s with ⟨(f | -) | (- | -), s₂⟩ <;> rw [hline] at h
      · cases h
      · cases h
      · have hnumber : number + 1 + before.length = number + (before.length + 1) := by omega
        exact hnumber ▸ ih h
      · cases h

/-- A file was left in the last line of its first bytes. -/
inductive LeftIn (name : String) (head : List UInt8) (s s' : Interpreter) : Prop where
  | mk {before : List (List UInt8)} {piece : List UInt8} {line : String} {s₁ : Interpreter}
    (hcut : Lines.cut head = before ++ [piece])
    (hbefore : loadLines name 1 before s = (.ok .proceed, s₁))
    (hpiece : Utf8.text? (Lines.withoutEnding piece) = some line)
    (hline : interpret line s₁ = (.ok .exit, s'))

/-- If a file leaves, it does so in one of its lines, and the lines before it proceed. -/
theorem exists_of_loadLines_exit {number : Nat} {pieces : List (List UInt8)}
    (h : loadLines name number pieces s = (.ok .exit, s')) :
    ∃ before piece after line s₁, pieces = before ++ piece :: after ∧
      loadLines name number before s = (.ok .proceed, s₁) ∧
      Utf8.text? (Lines.withoutEnding piece) = some line ∧
      interpret line s₁ = (.ok .exit, s') := by
  induction pieces generalizing number s with
  | nil => cases h
  | cons piece pieces ih =>
    cases htext : Utf8.text? (Lines.withoutEnding piece) with
    | none =>
      rw [loadLines_of_noText htext] at h
      cases h
    | some line =>
      rw [loadLines_of_text htext, locating_apply] at h
      rcases hline : interpret line s with ⟨(f | -) | (- | -), s₁⟩ <;> rw [hline] at h
      · cases h
      · cases h
      · obtain ⟨before, piece', after, line', s₂, rfl, hbefore, htext', hline'⟩ := ih h
        refine ⟨piece :: before, piece', after, line', s₂, rfl, ?_, htext', hline'⟩
        rw [loadLines_of_text htext, locating_apply, hline]
        exact hbefore
      · cases h
        exact ⟨[], piece, pieces, line, s, rfl, rfl, htext, hline⟩

/-- Whether bytes can follow others without becoming a part of their last line. -/
def Separate (head tail : List UInt8) : Prop :=
  tail = [] ∨ head.getLast? = some Byte.lineFeed

/-- If a file leaves, it has a part in which it does so and another that comes too late. -/
theorem exists_of_load_exit (h : load files name s = (.ok .exit, s')) :
    ∃ head tail, files name = .ok (head ++ tail) ∧ Separate head tail ∧ LeftIn name head s s' := by
  cases hfile : files name with
  | error f =>
    rw [load_of_error hfile] at h
    cases h
  | ok bytes =>
    rw [load_of_ok hfile] at h
    obtain ⟨before, piece, after, line, s₁, hcut, hbefore, hpiece, hline⟩ :=
      exists_of_loadLines_exit h
    have hcut' : Lines.cut bytes = (before ++ [piece]) ++ after := by simpa using hcut
    obtain ⟨hhead, hlast⟩ := Lines.cut_flatten_of_append hcut'
    have hbytes : bytes = (before ++ [piece]).flatten ++ after.flatten := by
      rw [← List.flatten_append, ← hcut', Lines.flatten_cut]
    refine ⟨_, _, by rw [hbytes], ?_, .mk hhead hbefore hpiece hline⟩
    rcases hlast with hlast | rfl | hlast
    · simp at hlast
    · exact Or.inl rfl
    · exact Or.inr hlast

/-- What follows the line in which a file was left is not looked at. -/
theorem LeftIn.load_eq {head tail : List UInt8} (h : LeftIn name head s s')
    (htail : Separate head tail) (hfile : files name = .ok (head ++ tail)) :
    load files name s = (.ok .exit, s') := by
  obtain @⟨before, piece, line, s₁, hcut, hbefore, hpiece, hline⟩ := h
  have hpieces : Lines.cut (head ++ tail) = before ++ piece :: Lines.cut tail := by
    rcases htail with rfl | hlast
    · rw [List.append_nil, hcut]
      rfl
    · rw [Lines.cut_append hlast, hcut, List.append_assoc]
      rfl
  rw [load_of_ok hfile, hpieces, loadLines_append hbefore, loadLines_of_text hpiece,
    locating_apply, hline]

theorem load_congr {files' : Files} (h : files' name = files name) :
    load files' name = load files name := by
  simp only [load, loadWith, h]

/-- Which files are loaded depends only on the files that are named. -/
theorem LoadsAll.congr {files' : Files} {flow : Flow} (h : LoadsAll files names s flow s')
    (hfiles : ∀ name ∈ names, files' name = files name) : LoadsAll files' names s flow s' := by
  induction h with
  | nil s => exact .nil s
  | cons h _ ih =>
    obtain ⟨hname, hnames⟩ := List.forall_mem_cons.1 hfiles
    refine .cons ?_ (ih hnames)
    cases h with
    | loaded h => exact .loaded (by rwa [load_congr hname])
    | skipped h hf hreport => exact .skipped (by rwa [load_congr hname]) hf hreport
  | left h =>
    obtain ⟨hname, -⟩ := List.forall_mem_cons.1 hfiles
    exact .left (by rwa [load_congr hname])

/-- A session ends where a file leaves. -/
theorem session_of_load_exit {earlier : List String}
    (hearlier : LoadsAll files earlier s .proceed s₁)
    (h : load files name s₁ = (.ok .exit, s')) (later : List String) (greet : Bool) :
    session files (earlier ++ name :: later) greet s = (.ok (), s') := by
  have hload : loadAll files (earlier ++ name :: later) s = (.ok .exit, s') := by
    rw [hearlier.loadAll_append rfl, loadAll_cons, recovering_apply, h]
  rw [session_eq, bind_of_ok hload]
  rfl

/-! ## Where leaving comes from -/

/-- What is made of steps only adds to the trace. -/
theorem Made.trace {act : Run α} (h : Made act) (s : Interpreter) :
    s.trace <:+ (act s).2.trace := by
  induction h generalizing s with
  | pure a => exact List.suffix_rfl
  | step h =>
    cases h with
    | begin t => exact List.suffix_cons _ _
    | _ => exact List.suffix_rfl
  | @bind _ _ act next _ _ ih ihnext =>
    have hact := ih s
    rw [bind_apply]
    rcases hx : act s with ⟨e | a, s'⟩ <;> rw [hx] at hact
    · exact hact
    · exact hact.trans (ihnext a s')

theorem Acknowledges.trace {r : Except Stop (Option Flow)} (h : Acknowledges s x (r, s')) :
    s.trace <:+ s'.trace := by
  cases h with
  | recovers _ _ => exact List.suffix_cons _ _
  | _ => exact List.suffix_rfl

/-- A run notes what it does, and if it left it noted that `bye` began. -/
def NotesBye (s : Interpreter) (x : Except Fault Flow) (s' : Interpreter) : Prop :=
  ∃ new, s'.trace = new ++ s.trace ∧ (x = .ok .exit → .began (.builtin .bye) ∈ new)

namespace NotesBye

variable {s'' : Interpreter}

theorem of_suffix (h : s.trace <:+ s'.trace) (hx : x ≠ .ok .exit) : NotesBye s x s' := by
  obtain ⟨new, hnew⟩ := h
  exact ⟨new, hnew.symm, fun h => absurd h hx⟩

theorem suffix (h : NotesBye s x s') : s.trace <:+ s'.trace := by
  obtain ⟨new, hnew, -⟩ := h
  exact ⟨new, hnew.symm⟩

/-- What was noted stays noted over more of the run. -/
theorem widen (h : NotesBye s₁ x s') (hbefore : s.trace <:+ s₁.trace)
    (hafter : s'.trace <:+ s''.trace) : NotesBye s x s'' := by
  obtain ⟨new, hnew, hbye⟩ := h
  obtain ⟨early, hearly⟩ := hbefore
  obtain ⟨late, hlate⟩ := hafter
  refine ⟨late ++ new ++ early, ?_, fun hx => ?_⟩
  · rw [← hlate, hnew, ← hearly]
    simp
  · exact List.mem_append_left _ (List.mem_append_right _ (hbye hx))

end NotesBye

theorem trace_of_readWord {d : UInt8} {word : Except Stop (Option String)}
    (h : readWord d s = (word, s')) : s.trace <:+ s'.trace :=
  (congrArg (·.2.trace) h) ▸ List.suffix_rfl

theorem Item.trace_of_lead {r : Except Stop (Flow ⊕ Part)} (h : i.lead s = (r, s')) :
    s.trace <:+ s'.trace := by
  have htrace := i.made_lead.trace s
  rwa [h] at htrace

/-- Leaving comes from `bye`. -/
theorem Runs.notesBye (h : Runs p s es x s') : NotesBye s x s' := by
  induction h with
  | full h => exact .of_suffix List.suffix_rfl nofun
  | line h _ ih => exact ih.widen (List.suffix_cons _ _) (List.suffix_cons _ _)
  | noWord h => exact .of_suffix (trace_of_readWord h) nofun
  | nextWord h _ _ ih ih' =>
    exact ih'.widen ((trace_of_readWord h).trans ih.suffix) List.suffix_rfl
  | lastWord h _ _ ih => exact ih.widen (trace_of_readWord h) List.suffix_rfl
  | done h =>
    rcases Item.eq_of_done h with ⟨rfl, rfl⟩ | ⟨-, -, rfl⟩
    · cases h
      exact ⟨[.began (.builtin .bye)], rfl, fun _ => List.mem_singleton_self _⟩
    · exact .of_suffix (Item.trace_of_lead h) nofun
  | refused h => exact .of_suffix (Item.trace_of_lead h) nofun
  | handsOver h _ ih => exact ih.widen (Item.trace_of_lead h) List.suffix_rfl
  | ended h => exact .of_suffix List.suffix_rfl nofun
  | unread h => exact .of_suffix List.suffix_rfl nofun
  | readsOn h _ hack _ ih ih' =>
    exact ih'.widen (ih.suffix.trans (Acknowledges.of_eq hack).trace) List.suffix_rfl
  | leaves h _ hack ih =>
    cases Acknowledges.of_eq hack
    exact ih
  | breaksOff h _ hack ih =>
    exact .of_suffix (ih.suffix.trans (Acknowledges.of_eq hack).trace) nofun

theorem Part.notesBye_of_run (p : Part) (hs : s.HostsKeepReturns)
    (h : p.run s = (.ok .exit, s')) :
    ∃ new, s'.trace = new ++ s.trace ∧ .began (.builtin .bye) ∈ new := by
  obtain ⟨es, x, s₁, hruns⟩ := Runs.exists p hs
  obtain ⟨hx, rfl⟩ := Prod.mk.inj (h.symm.trans (hruns.sound hs))
  obtain ⟨new, hnew, hbye⟩ := hruns.notesBye
  exact ⟨new, hnew, hbye (eq_ok_of_mapError hx.symm)⟩

/-- A read loop that left noted that `bye` began. -/
theorem quit_notesBye (hs : s.HostsKeepReturns) (h : quit s = (.ok .exit, s')) :
    ∃ new, s'.trace = new ++ s.trace ∧ .began (.builtin .bye) ∈ new := by
  have hquit := quitRuns hs
  generalize hr : quit s = r at hquit
  cases hquit with
  | refused _ => cases h.symm.trans hr
  | loops _ hloop =>
    obtain ⟨hx, rfl⟩ := Prod.mk.inj (h.symm.trans hr)
    obtain ⟨new, hnew, hbye⟩ := hloop.notesBye
    exact ⟨new, hnew, hbye (eq_ok_of_mapError hx.symm)⟩

/-- A run that left is the same whatever comes behind the place where it did: more words in the
line, more lines to be taken, another rest of the file, other files. And a run that left began
`bye`. -/
theorem exit_final (hs : s.HostsKeepReturns) :
    (∀ t₁ t₂ b s', (Utf8.encode t₂).head? = some b → Byte.isBlank b = true →
      interpret t₁ s = (.ok .exit, s') → interpret (t₁ ++ t₂) s = (.ok .exit, s')) ∧
    (∀ more s', quit s = (.ok .exit, s') → .ended ∉ callsOf quit s →
      quit (s.supplied more) = (.ok .exit, s'.supplied more)) ∧
    (∀ files earlier name s₁ s', LoadsAll files earlier s .proceed s₁ →
      load files name s₁ = (.ok .exit, s') →
      ∃ head tail, files name = .ok (head ++ tail) ∧ Separate head tail ∧
        LeftIn name head s₁ s' ∧
        ∀ files' later tail' greet, (∀ name' ∈ earlier, files' name' = files name') →
          files' name = .ok (head ++ tail') → Separate head tail' →
          load files' name s₁ = (.ok .exit, s') ∧
          session files' (earlier ++ name :: later) greet s = (.ok (), s')) ∧
    (∀ s', (∃ line, interpret line s = (.ok .exit, s')) ∨
        (∃ t, execute t s = (.ok .exit, s')) ∨ quit s = (.ok .exit, s') →
      ∃ new, s'.trace = new ++ s.trace ∧ .began (.builtin .bye) ∈ new) := by
  refine ⟨fun t₁ t₂ b s' hb hblank h => interpret_append_of_exit hs hb hblank h,
    fun more s' h hended => ?_, fun files earlier name s₁ s' hearlier h => ?_, ?_⟩
  · rw [quit_supplied hs hended, h]
  · obtain ⟨head, tail, hfile, hsep, hleft⟩ := exists_of_load_exit h
    refine ⟨head, tail, hfile, hsep, hleft, fun files' later tail' greet hfiles hfile' hsep' => ?_⟩
    have hload := hleft.load_eq hsep' hfile'
    exact ⟨hload, session_of_load_exit (hearlier.congr hfiles) hload later greet⟩
  · rintro s' (⟨line, h⟩ | ⟨t, h⟩ | h)
    · exact Part.notesBye_of_run (.line line) hs h
    · rw [execute_eq_executeTokenWith t hs] at h
      exact Part.notesBye_of_run (.item (.token t)) hs h
    · exact quit_notesBye hs h

/-- A line that leaves, a read loop that a line inside a line leaves, and a file that leaves in the
first of its two lines. -/
theorem exit_final_quit :
    let s := new 4 (.ofLines ["s\" 1 bye\" evaluate", "2 ."])
    let files : Files := fun _ => .ok (Utf8.encode "bye\n3 .\n")
    s.HostsKeepReturns ∧
    (∃ s', interpret "1 bye" s = (.ok .exit, s') ∧
      interpret ("1 bye" ++ " foo") s = (.ok .exit, s')) ∧
    (∃ s', quit s = (.ok .exit, s') ∧ .ended ∉ callsOf quit s ∧
      quit (s.supplied ["3 ."]) = (.ok .exit, s'.supplied ["3 ."])) ∧
    ∃ s', load files "f" s = (.ok .exit, s') ∧ ∃ head tail, files "f" = .ok (head ++ tail) ∧
      LeftIn "f" head s s' ∧ session files ["f", "g"] true s = (.ok (), s') := by
  intro s files
  have hs : s.HostsKeepReturns := hostsKeepReturns_new 4 _
  obtain ⟨hline, hquit, hended, hload⟩ : (interpret "1 bye" s).1.toOption = some .exit ∧
      (quit s).1.toOption = some .exit ∧ .ended ∉ callsOf quit s ∧
      (load files "f" s).1.toOption = some .exit := by
    decide +kernel
  replace hline := eq_of_toOption hline
  replace hquit := eq_of_toOption hquit
  replace hload := eq_of_toOption hload
  obtain ⟨hlong, hmore, hfiles, -⟩ := exit_final hs
  obtain ⟨head, tail, hfile, hsep, hleft, hall⟩ := hfiles files [] "f" s _ (.nil s) hload
  exact ⟨hs, ⟨_, hline, hlong _ _ Byte.space _ (by decide +kernel) rfl hline⟩,
    ⟨_, hquit, hended, hmore _ _ hquit hended⟩,
    ⟨_, hload, head, tail, hfile, hleft, (hall files ["g"] tail true nofun hfile hsep).2⟩⟩

end CellForth.Interpreter
