import CellForth.Proofs.Decoding

/-!
# Lines of a source file

`Lines.Divided` says what the lines of some bytes are, whatever ends them. There is one way to
divide bytes (`Lines.divided_cut`, `Lines.Divided.map_cut`). `Loads` says what the lines of a file
come to: they are interpreted in order, up to the first one that is no text, leaves or fails, and
nothing happens after that.

Every file loads in this way (`load_line_by_line`). As only its lines matter, a file without
carriage returns may get one in front of every line feed, and its last line may be ended or not.
-/

namespace CellForth

namespace Lines

variable {bytes line : List UInt8} {lines : List (List UInt8)}

/-! ## Lines of bytes -/

/-- Bytes and the lines in them. A line feed ends a line, and so does a carriage return right in
front of a line feed together with it. Bytes behind the last line feed are a line too, with every
carriage return in it. -/
inductive Divided : List UInt8 → List (List UInt8) → Prop where
  | none : Divided [] []
  | last {line : List UInt8} (hne : line ≠ []) (hline : Byte.lineFeed ∉ line) :
    Divided line [line]
  | ended {line bytes : List UInt8} {lines : List (List UInt8)} (hline : Byte.lineFeed ∉ line)
    (hlast : line.getLast? ≠ some Byte.carriageReturn) (hlater : Divided bytes lines) :
    Divided (line ++ Byte.lineFeed :: bytes) (line :: lines)
  | endedByBoth {line bytes : List UInt8} {lines : List (List UInt8)}
    (hline : Byte.lineFeed ∉ line) (hlater : Divided bytes lines) :
    Divided (line ++ Byte.carriageReturn :: Byte.lineFeed :: bytes) (line :: lines)

theorem cut_last (hne : line ≠ []) (h : Byte.lineFeed ∉ line) : cut line = [line] := by
  induction line with
  | nil => exact absurd rfl hne
  | cons b line ih =>
    obtain ⟨hb, hline⟩ := not_or.1 (mt List.mem_cons.2 h)
    cases line with
    | nil => rfl
    | cons b' line => rw [cut_cons, ih nofun hline, prepend, if_neg (Ne.symm hb)]

/-- The first line feed ends the first piece. -/
theorem cut_line (h : Byte.lineFeed ∉ line) (bytes : List UInt8) :
    cut (line ++ Byte.lineFeed :: bytes) = (line ++ [Byte.lineFeed]) :: cut bytes := by
  rw [List.append_cons, cut_append (List.getLast?_concat ..), cut_of_not_mem h]
  rfl

theorem withoutEnding_of_not_mem (h : Byte.lineFeed ∉ line) : withoutEnding line = line :=
  if_neg fun hlast => h (List.mem_of_getLast? hlast)

/-- A carriage return right before the line feed is taken off with it. -/
theorem withoutEnding_both (line : List UInt8) :
    withoutEnding (line ++ [Byte.carriageReturn] ++ [Byte.lineFeed]) = line := by
  rw [withoutEnding, if_pos (List.getLast?_concat ..)]
  simp only [List.dropLast_concat, if_pos (List.getLast?_concat ..)]

/-- The lines are the pieces without their endings. -/
theorem Divided.map_cut (h : Divided bytes lines) : (cut bytes).map withoutEnding = lines := by
  induction h with
  | none => rfl
  | last hne hline => rw [cut_last hne hline, List.map_singleton, withoutEnding_of_not_mem hline]
  | ended hline hlast _ ih =>
    rw [cut_line hline, List.map_cons, withoutEnding_concat hlast, ih]
  | @endedByBoth line bytes lines hline _ ih =>
    have hreturn : Byte.lineFeed ∉ line ++ [Byte.carriageReturn] := by
      simpa using ⟨hline, by decide⟩
    rw [List.append_cons, cut_line hreturn, List.map_cons, withoutEnding_both, ih]

/-- All bytes are divided into lines, by induction on how many there are. -/
theorem exists_divided (bytes : List UInt8) : ∃ lines, Divided bytes lines := by
  induction hlength : bytes.length using Nat.strongRecOn generalizing bytes with
  | ind n ih =>
    by_cases hmem : Byte.lineFeed ∈ bytes
    · obtain ⟨line, later, rfl, hline⟩ := List.eq_append_cons_of_mem hmem
      rw [List.length_append, List.length_cons] at hlength
      obtain ⟨lines, hlines⟩ := ih later.length (by omega) later rfl
      by_cases hlast : line.getLast? = some Byte.carriageReturn
      · obtain ⟨line, rfl⟩ := List.getLast?_eq_some_iff.1 hlast
        rw [← List.append_cons]
        exact ⟨_, .endedByBoth (fun h => hline (List.mem_append_left _ h)) hlines⟩
      · exact ⟨_, .ended hline hlast hlines⟩
    · by_cases hne : bytes = []
      · exact ⟨[], hne ▸ .none⟩
      · exact ⟨_, .last hne hmem⟩

/-- The pieces without their endings are the lines. -/
theorem divided_cut (bytes : List UInt8) : Divided bytes ((cut bytes).map withoutEnding) := by
  obtain ⟨lines, hlines⟩ := exists_divided bytes
  rwa [hlines.map_cut]

/-! ## Other endings of the same lines -/

/-- Bytes with a carriage return in front of every line feed. -/
def withReturns (bytes : List UInt8) : List UInt8 :=
  bytes.flatMap fun b => if b = Byte.lineFeed then [Byte.carriageReturn, b] else [b]

theorem withReturns_of_not_mem (h : Byte.lineFeed ∉ line) : withReturns line = line := by
  induction line with
  | nil => rfl
  | cons b line ih =>
    obtain ⟨hb, hline⟩ := not_or.1 (mt List.mem_cons.2 h)
    rw [withReturns, List.flatMap_cons, if_neg (Ne.symm hb), ← withReturns, ih hline]
    rfl

/-- With a carriage return in front of every line feed, the lines are the same. -/
theorem Divided.withReturns (h : Divided bytes lines) (hreturn : Byte.carriageReturn ∉ bytes) :
    Divided (Lines.withReturns bytes) lines := by
  induction h with
  | none => exact .none
  | last hne hline =>
    rw [withReturns_of_not_mem hline]
    exact .last hne hline
  | @ended line bytes lines hline _ _ ih =>
    have hlater : Byte.carriageReturn ∉ bytes := fun h =>
      hreturn (List.mem_append_right _ (List.mem_cons_of_mem _ h))
    have hbytes : Lines.withReturns (line ++ Byte.lineFeed :: bytes) =
        line ++ Byte.carriageReturn :: Byte.lineFeed :: Lines.withReturns bytes := by
      rw [Lines.withReturns, List.flatMap_append, ← Lines.withReturns,
        withReturns_of_not_mem hline, List.flatMap_cons, if_pos rfl, ← Lines.withReturns]
      rfl
    rw [hbytes]
    exact .endedByBoth hline (ih hlater)
  | endedByBoth _ _ _ => exact absurd (List.mem_append_right _ (List.mem_cons_self ..)) hreturn

/-- Bytes that do not end a line are not empty behind bytes that do. -/
theorem ne_nil_of_getLast? {front later : List UInt8}
    (hfront : front.getLast? = some Byte.lineFeed)
    (h : (front ++ later).getLast? ≠ some Byte.lineFeed) :
    later ≠ [] ∧ (front ++ later).getLast? = later.getLast? := by
  have hne : later ≠ [] := by
    rintro rfl
    rw [List.append_nil] at h
    exact h hfront
  refine ⟨hne, ?_⟩
  rw [List.getLast?_append, List.getLast?_eq_some_getLast hne]
  rfl

/-- A line feed behind the last line ends it, and makes no other line. -/
theorem Divided.concat (h : Divided bytes lines) (hne : bytes ≠ [])
    (hfeed : bytes.getLast? ≠ some Byte.lineFeed)
    (hreturn : bytes.getLast? ≠ some Byte.carriageReturn) :
    Divided (bytes ++ [Byte.lineFeed]) lines := by
  induction h with
  | none => exact absurd rfl hne
  | last _ hline => exact .ended hline hreturn .none
  | @ended line later lines hline hbare _ ih =>
    rw [List.append_cons] at hfeed hreturn
    obtain ⟨hne, hlast⟩ := ne_nil_of_getLast? (List.getLast?_concat ..) hfeed
    rw [hlast] at hfeed hreturn
    rw [List.append_assoc, List.cons_append]
    exact .ended hline hbare (ih hne hfeed hreturn)
  | @endedByBoth line later lines hline _ ih =>
    rw [List.append_cons, List.append_cons] at hfeed hreturn
    obtain ⟨hne, hlast⟩ := ne_nil_of_getLast? (List.getLast?_concat ..) hfeed
    rw [hlast] at hfeed hreturn
    rw [List.append_assoc, List.cons_append, List.cons_append]
    exact .endedByBoth hline (ih hne hfeed hreturn)

end Lines

namespace Interpreter

variable {s s' s₁ : Interpreter} {name text : String} {number : Nat} {bytes : List UInt8}
  {lines : List (List UInt8)} {files : Files}

/-! ## What a file comes to -/

/-- Lines that are texts and proceed, one after the other. -/
inductive RunsThrough : List (List UInt8) → Interpreter → Interpreter → Prop where
  | nil {s : Interpreter} : RunsThrough [] s s
  | cons {text : String} {lines : List (List UInt8)} {s s₁ s' : Interpreter}
    (hline : interpret text s = (.ok .proceed, s₁)) (hlater : RunsThrough lines s₁ s') :
    RunsThrough (Utf8.encode text :: lines) s s'

/-- What the lines of a file come to, where the first has a number. They run through, or all those
in front of a line do, and that line is no text, leaves or fails. Then this is how the file ends,
and the state is the one at that line. -/
inductive Loads (name : String) (number : Nat) (lines : List (List UInt8)) (s : Interpreter) :
    Except Stop Flow × Interpreter → Prop where
  | ended {s' : Interpreter} (hlines : RunsThrough lines s s') :
    Loads name number lines s (.ok .proceed, s')
  | noText {earlier later : List (List UInt8)} {line : List UInt8} {s' : Interpreter}
    (hlines : lines = earlier ++ line :: later) (hearlier : RunsThrough earlier s s')
    (hline : ∀ text, Utf8.encode text ≠ line) :
    Loads name number lines s (.error (.fault ⟨.io, notText⟩), s')
  | left {earlier later : List (List UInt8)} {text : String} {s₁ s' : Interpreter}
    (hlines : lines = earlier ++ Utf8.encode text :: later) (hearlier : RunsThrough earlier s s₁)
    (hline : interpret text s₁ = (.ok .exit, s')) : Loads name number lines s (.ok .exit, s')
  | failed {earlier later : List (List UInt8)} {text place : String} {s₁ s' : Interpreter}
    {f : Fault} (hlines : lines = earlier ++ Utf8.encode text :: later)
    (hearlier : RunsThrough earlier s s₁)
    (hline : interpret text s₁ = (.error (.fault f), s'))
    (hplace : place = "in line " ++ toString (number + earlier.length) ++ " of " ++ name) :
    Loads name number lines s
      (.error (.fault ⟨f.kind, if f.detail.isEmpty then place else f.detail ++ "; " ++ place⟩), s')

/-- A line in front that proceeds. -/
theorem Loads.cons {r : Except Stop Flow × Interpreter}
    (hline : interpret text s = (.ok .proceed, s₁)) (h : Loads name (number + 1) lines s₁ r) :
    Loads name number (Utf8.encode text :: lines) s r := by
  cases h with
  | ended hlines => exact .ended (.cons hline hlines)
  | noText hlines hearlier htext =>
    exact .noText (congrArg (Utf8.encode text :: ·) hlines) (.cons hline hearlier) htext
  | left hlines hearlier hleft =>
    exact .left (congrArg (Utf8.encode text :: ·) hlines) (.cons hline hearlier) hleft
  | @failed earlier _ _ _ _ _ _ hlines hearlier hfailed hplace =>
    rw [Nat.add_right_comm, Nat.add_assoc, ← List.length_cons (a := Utf8.encode text)] at hplace
    exact .failed (congrArg (Utf8.encode text :: ·) hlines) (.cons hline hearlier) hfailed hplace

/-- The lines of a file are interpreted in order, up to the first that does not proceed. -/
theorem loads_loadLines (hs : s.HostsKeepReturns) (name : String) (number : Nat)
    (pieces : List (List UInt8)) :
    Loads name number (pieces.map Lines.withoutEnding) s (loadLines name number pieces s) := by
  induction pieces generalizing s number with
  | nil => exact .ended .nil
  | cons piece pieces ih =>
    rw [List.map_cons]
    cases htext : Utf8.text? (Lines.withoutEnding piece) with
    | none =>
      have hnone : ∀ text, Utf8.encode text ≠ Lines.withoutEnding piece := fun text heq => by
        rw [Utf8.text?_eq_some_iff.2 heq] at htext
        cases htext
      rw [loadLines_of_noText htext]
      exact .noText (rfl : _ = [] ++ _) .nil hnone
    | some text =>
      rw [loadLines_of_text htext, ← Utf8.text?_eq_some_iff.1 htext, locating_apply]
      obtain ⟨es, x, s₁, hruns⟩ := Runs.exists (.line text) hs
      have hline : interpret text s = (x.mapError .fault, s₁) := hruns.sound hs
      rw [hline]
      rcases x with f | (_ | _)
      · exact .failed (rfl : _ = [] ++ _) .nil hline rfl
      · exact (ih ((leads_of_interpret hline hs).hosts hs) (number + 1)).cons hline
      · exact .left (rfl : _ = [] ++ _) .nil hline

/-- Only the lines of a file matter, whatever ends them. -/
theorem loadLines_congr {pieces pieces' : List (List UInt8)}
    (h : pieces.map Lines.withoutEnding = pieces'.map Lines.withoutEnding) (name : String)
    (number : Nat) : loadLines name number pieces = loadLines name number pieces' := by
  induction pieces generalizing pieces' number with
  | nil =>
    obtain rfl := List.map_eq_nil_iff.1 h.symm
    rfl
  | cons piece pieces ih =>
    obtain ⟨piece', pieces', rfl, hpiece, hpieces⟩ := List.map_eq_cons_iff.1 h.symm
    cases htext : Utf8.text? (Lines.withoutEnding piece) with
    | none => rw [loadLines_of_noText htext, loadLines_of_noText (hpiece ▸ htext)]
    | some line =>
      rw [loadLines_of_text htext, loadLines_of_text (hpiece ▸ htext), ih hpieces.symm]

/-- Files with the same lines are loaded alike. -/
theorem load_of_divided {bytes' : List UInt8} {files' : Files} (h : Lines.Divided bytes lines)
    (h' : Lines.Divided bytes' lines) (hfile : files name = .ok bytes)
    (hfile' : files' name = .ok bytes') : load files' name = load files name := by
  rw [load_of_ok hfile, load_of_ok hfile']
  exact loadLines_congr (h'.map_cut.trans h.map_cut.symm) name 1

/-- A file is run line by line, up to the first line that is no text, leaves or fails. How its lines
are ended does not matter. -/
theorem load_line_by_line (hs : s.HostsKeepReturns) (hfile : files name = .ok bytes) :
    (∃ lines, Lines.Divided bytes lines ∧ (∀ lines', Lines.Divided bytes lines' → lines' = lines) ∧
      Loads name 1 lines s (load files name s)) ∧
    (Byte.carriageReturn ∉ bytes → ∀ files' : Files,
      (files' name = .ok (Lines.withReturns bytes) → load files' name s = load files name s) ∧
      (bytes ≠ [] → bytes.getLast? ≠ some Byte.lineFeed →
        files' name = .ok (bytes ++ [Byte.lineFeed]) →
        load files' name s = load files name s)) := by
  have hdivided := Lines.divided_cut bytes
  refine ⟨⟨_, hdivided, fun lines' h => h.map_cut.symm, ?_⟩, fun hreturn files' => ⟨?_, ?_⟩⟩
  · rw [load_of_ok hfile]
    exact loads_loadLines hs name 1 _
  · intro hfile'
    rw [load_of_divided hdivided (hdivided.withReturns hreturn) hfile hfile']
  · intro hne hfeed hfile'
    have hlast : bytes.getLast? ≠ some Byte.carriageReturn := fun hlast =>
      hreturn (List.mem_of_getLast? hlast)
    rw [load_of_divided hdivided (hdivided.concat hne hfeed hlast) hfile hfile']

/-- A line that two bytes end, an empty one, a line that keeps its carriage returns but one, and
bytes that are no text behind them. In the other file a line leaves, and nothing ends the last. -/
theorem load_line_by_line_returns :
    let s := new 4 (.ofLines ["1 ."])
    let bytes := Utf8.encode "1 .\r\n\n2\r.\r\r\n" ++ [0xFF, Byte.lineFeed] ++ Utf8.encode "3 ."
    let lines := [Utf8.encode "1 .", [], Utf8.encode "2\r.\r", [0xFF], Utf8.encode "3 ."]
    let plain := Utf8.encode "4 .\n\nbye 5 .\nnope"
    let files : Files := fun name => .ok (if name = "f" then bytes else plain)
    s.HostsKeepReturns ∧ files "f" = .ok bytes ∧ files "g" = .ok plain ∧
    Byte.carriageReturn ∉ plain ∧ plain ≠ [] ∧ plain.getLast? ≠ some Byte.lineFeed ∧
    Lines.Divided bytes lines ∧ Loads "f" 1 lines s (load files "f" s) ∧
    callsOf (load files "f") s = [.wrote "1 ", .wrote "2 "] ∧
    load (fun _ => .ok (Lines.withReturns plain)) "g" s = load files "g" s ∧
    load (fun _ => .ok (plain ++ [Byte.lineFeed])) "g" s = load files "g" s := by
  intro s bytes lines plain files
  have hs : s.HostsKeepReturns := hostsKeepReturns_new 4 (.ofLines ["1 ."])
  have hcalls : callsOf (load files "f") s = [.wrote "1 ", .wrote "2 "] := by decide +kernel
  have hlines : (Lines.cut bytes).map Lines.withoutEnding = lines := by decide +kernel
  have hdivided : Lines.Divided bytes lines := by
    rw [← hlines]
    exact Lines.divided_cut bytes
  have hfile : files "f" = .ok bytes := rfl
  have hfile' : files "g" = .ok plain := rfl
  obtain ⟨hreturn, hne, hfeed⟩ : Byte.carriageReturn ∉ plain ∧ plain ≠ [] ∧
      plain.getLast? ≠ some Byte.lineFeed := by decide +kernel
  obtain ⟨⟨_, _, hunique, hloads⟩, -⟩ := load_line_by_line hs hfile
  rw [← hunique _ hdivided] at hloads
  have hendings := (load_line_by_line hs hfile').2 hreturn
  exact ⟨hs, hfile, hfile', hreturn, hne, hfeed, hdivided, hloads, hcalls,
    (hendings fun _ => .ok (Lines.withReturns plain)).1 rfl,
    (hendings fun _ => .ok (plain ++ [Byte.lineFeed])).2 hne hfeed rfl⟩

end Interpreter
end CellForth
