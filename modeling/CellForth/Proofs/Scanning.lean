import CellForth.Proofs.Reading

/-!
# Reading with mixed delimiters

A cursor may be asked for words and for texts in any order, each time with another delimiter. Every
such `Call` takes a block of bytes from the front of what is left, and `Call.Cuts` says which: a
word with the delimiters in front of it, or a text with at most one space in front of it and the
delimiter behind it. `exists_takes` is this for one call, whatever bytes are left.

The blocks of a sequence of calls follow one another from the beginning of the line
(`StandsIn.after`). A delimiter may lie inside a character, and then what was read is no text. But
next to an ASCII byte a character always begins or ends (`Utf8.exists_append_of_ascii`), so as long
as all delimiters are ASCII, the blocks are made of whole characters (`StandsBetween.after`), and
what is returned stands in the line as it is.
-/

namespace CellForth

namespace Utf8

/-- A count of bytes that does not end inside a character of the text. -/
def IsBoundary (text : String) (n : Nat) : Prop :=
  ∃ before after, text = before ++ after ∧ n = (encode before).length

/-- Bytes of longer characters are not ASCII, so a cut inside one has none at its sides. -/
theorem exists_append_of_flatMap_ascii {cs : List Char} {xs ys : List UInt8}
    (h : cs.flatMap String.utf8EncodeChar = xs ++ ys)
    (hascii : (∀ b ∈ xs.getLast?, b.toNat < 128) ∨ ∀ b ∈ ys.head?, b.toNat < 128) :
    ∃ ps qs, cs = ps ++ qs ∧ xs = ps.flatMap String.utf8EncodeChar ∧
      ys = qs.flatMap String.utf8EncodeChar := by
  induction cs generalizing xs with
  | nil =>
    obtain ⟨rfl, rfl⟩ := List.append_eq_nil_iff.1 h.symm
    exact ⟨[], [], rfl, rfl, rfl⟩
  | cons c cs ih =>
    rw [List.flatMap_cons] at h
    rcases List.append_eq_append_iff.1 h with ⟨later, rfl, hrest⟩ | ⟨cut, hcut, rfl⟩
    · have hlater : (∀ b ∈ later.getLast?, b.toNat < 128) ∨ ∀ b ∈ ys.head?, b.toNat < 128 := by
        refine hascii.imp_left fun hlast b hb => hlast b ?_
        rw [List.getLast?_append, Option.mem_def.1 hb]
        rfl
      obtain ⟨ps, qs, rfl, rfl, rfl⟩ := ih hrest hlater
      exact ⟨c :: ps, qs, rfl, rfl, rfl⟩
    -- the cut is within the character `c`: at one of its ends, or it has several bytes
    rcases List.eq_nil_or_concat xs with rfl | ⟨front, b, rfl⟩
    · exact ⟨[], c :: cs, rfl, rfl, by rw [List.flatMap_cons, hcut]; rfl⟩
    cases cut with
    | nil => exact ⟨[c], cs, rfl, by simp [hcut], rfl⟩
    | cons b' back =>
      have hwide : 128 ≤ c.toNat := by
        rcases Nat.lt_or_ge c.toNat 128 with hlt | hge
        · rw [utf8EncodeChar_of_ascii hlt] at hcut
          have := congrArg List.length hcut
          simp only [List.concat_eq_append, List.length_append, List.length_cons,
            List.length_nil] at this
          omega
        · exact hge
      rcases hascii with hlast | hhead
      · have hb := le_of_mem_utf8EncodeChar (b := b) hwide (by simp [hcut])
        have := hlast b (by simp)
        omega
      · have hb' := le_of_mem_utf8EncodeChar (b := b') hwide (by simp [hcut])
        have := hhead b' rfl
        omega

/-- A cut next to an ASCII byte, or at an end, does not cut a character. -/
theorem exists_append_of_ascii {s : String} {xs ys : List UInt8} (h : encode s = xs ++ ys)
    (hascii : (∀ b ∈ xs.getLast?, b < 0x80) ∨ ∀ b ∈ ys.head?, b < 0x80) :
    ∃ p q, s = p ++ q ∧ xs = encode p ∧ ys = encode q := by
  obtain ⟨ps, qs, hs, rfl, rfl⟩ := exists_append_of_flatMap_ascii h hascii
  refine ⟨String.ofList ps, String.ofList qs, ?_, by simp [encode], by simp [encode]⟩
  rw [← String.toList_inj, hs]
  simp

end Utf8

namespace Cursor

/-- A request for the next word, or for the text up to a delimiter. -/
inductive Call where
  | word (delimiter : UInt8)
  | text (delimiter : UInt8)
  deriving DecidableEq

namespace Call

/-- The delimiter asked for. -/
def delimiter : Call → UInt8
  | .word d => d
  | .text d => d

/-- What is returned for the bytes of a word or of a text. There is no empty word. -/
def answer : Call → List UInt8 → Option String
  | .word _, slice => if slice = [] then none else some (Utf8.lossy slice)
  | .text _, slice => some (Utf8.lossy slice)

/-- The block of bytes that a call takes, the slice of it that is returned, and the bytes that are
left. A word is taken with all delimiters in front of it, and without the one behind it. A text is
taken with the space in front of it, if there is one, and with its delimiter, unless the end comes
first. -/
inductive Cuts : Call → List UInt8 → List UInt8 → List UInt8 → Prop
  | word {d : UInt8} {gap slice rest : List UInt8} (hgap : ∀ b ∈ gap, separates d b = true)
      (hslice : ∀ b ∈ slice, separates d b = false) (hend : ∀ b ∈ rest.head?, separates d b = true)
      (hnone : slice = [] → rest = []) : Cuts (.word d) (gap ++ slice) slice rest
  | text {d : UInt8} {gap slice close rest : List UInt8}
      (hgap : gap = [Byte.space] ∨ gap = [] ∧ (slice ++ close ++ rest).head? ≠ some Byte.space)
      (hslice : d ∉ slice) (hclose : close = [d] ∨ close = [] ∧ rest = []) :
      Cuts (.text d) (gap ++ (slice ++ close)) slice rest

end Call

/-- Answers a call. -/
def read : Call → Cursor → Option String × Cursor
  | .word d, c => c.readWord d
  | .text d, c => (some (c.parse d).1, (c.parse d).2)

/-- The cursor after a sequence of calls. -/
def after (calls : List Call) (c : Cursor) : Cursor :=
  calls.foldl (fun c call => (c.read call).2) c

/-! ## One call -/

variable {c : Cursor}

theorem advance_of_rest {xs ys : List UInt8} (h : c.rest = xs ++ ys) :
    c.advance xs.length = ⟨c.position + xs.length, ys⟩ := by
  simp [advance, h]

theorem head?_dropWhile_eq_false {p : UInt8 → Bool} {bytes : List UInt8} {b : UInt8}
    (h : b ∈ (bytes.dropWhile p).head?) : p b = false := by
  have hhead := List.head?_dropWhile_not p bytes
  rw [Option.mem_def.1 h] at hhead
  exact hhead

/-- What one call does: it takes its block from the front of the bytes left. -/
structure Takes (call : Call) (c : Cursor) (block slice : List UInt8) : Prop where
  cuts : call.Cuts block slice (c.read call).2.rest
  rest : c.rest = block ++ (c.read call).2.rest
  position : (c.read call).2.position = c.position + block.length
  answer : (c.read call).1 = call.answer slice

/-- A word is read with the delimiters in front of it. -/
theorem takes_word (d : UInt8) (c : Cursor) :
    Takes (.word d) c
      (c.rest.takeWhile (separates d) ++ (c.skipping d).rest.takeWhile (!separates d ·))
      ((c.skipping d).rest.takeWhile (!separates d ·)) := by
  have hskip : c.skipping d = ⟨c.position + (c.rest.takeWhile (separates d)).length,
      c.rest.dropWhile (separates d)⟩ :=
    advance_of_rest List.takeWhile_append_dropWhile.symm
  have hread : (c.readWord d).2 = ⟨(c.skipping d).position +
      ((c.skipping d).rest.takeWhile (!separates d ·)).length,
      (c.skipping d).rest.dropWhile (!separates d ·)⟩ :=
    advance_of_rest List.takeWhile_append_dropWhile.symm
  constructor
  · show Call.Cuts _ _ _ (c.readWord d).2.rest
    rw [hread]
    refine .word (fun b hb => List.all_eq_true.1 List.all_takeWhile b hb)
      (fun b hb => by simpa using List.all_eq_true.1 List.all_takeWhile b hb)
      (fun b hb => by simpa using head?_dropWhile_eq_false hb) fun hnil => ?_
    -- the byte that ends the delimiters would be in the word
    cases hrest : (c.skipping d).rest with
    | nil => rfl
    | cons b bytes =>
      have hhead : b ∈ (c.rest.dropWhile (separates d)).head? := by
        rw [← rest_skipping, hrest]
        rfl
      have hb : separates d b = false := head?_dropWhile_eq_false hhead
      rw [hrest, List.takeWhile_cons_of_pos (by simp [hb])] at hnil
      cases hnil
  · show c.rest = _ ++ (c.readWord d).2.rest
    rw [hread, List.append_assoc, List.takeWhile_append_dropWhile, hskip,
      List.takeWhile_append_dropWhile]
  · show (c.readWord d).2.position = _
    rw [hread, hskip, List.length_append, Nat.add_assoc]
  · show (c.readWord d).1 = _
    simp only [readWord_eq, Call.answer, List.isEmpty_iff]

/-- The bytes of a text and the delimiter behind it, if the end does not come first. -/
theorem exists_close (d : UInt8) (bytes : List UInt8) :
    ∃ close rest, bytes = bytes.takeWhile (· ≠ d) ++ close ++ rest ∧
      (close = [d] ∨ close = [] ∧ rest = []) ∧
      bytes.drop ((bytes.takeWhile (· ≠ d)).length + 1) = rest ∧
      (bytes.take ((bytes.takeWhile (· ≠ d)).length + 1)).length =
        (bytes.takeWhile (· ≠ d) ++ close).length := by
  have hsplit : bytes.takeWhile (· ≠ d) ++ bytes.dropWhile (· ≠ d) = bytes :=
    List.takeWhile_append_dropWhile
  generalize bytes.takeWhile (· ≠ d) = slice at hsplit
  cases hdrop : bytes.dropWhile (· ≠ d) with
  | nil =>
    rw [hdrop, List.append_nil] at hsplit
    subst hsplit
    exact ⟨[], [], by simp, .inr ⟨rfl, rfl⟩, by simp, by simp⟩
  | cons b rest =>
    have hb := head?_dropWhile_eq_false (b := b) (Option.mem_def.2 (congrArg List.head? hdrop))
    rw [hdrop, Decidable.of_not_not (of_decide_eq_false hb)] at hsplit
    exact ⟨[d], rest, by simp [← hsplit], .inl rfl, by simp [← hsplit], by simp [← hsplit]⟩

/-- A text is read with the space in front of it and with its delimiter. -/
theorem exists_takes_text (d : UInt8) (c : Cursor) :
    ∃ block slice, Takes (.text d) c block slice := by
  -- The text begins behind at most one space: where there are more, they belong to it.
  have hstart : ∃ gap, (gap = [Byte.space] ∨ gap = [] ∧ c.rest.head? ≠ some Byte.space) ∧
      c.rest = gap ++ (c.rest.drop gap.length) ∧
      (if c.rest.head? = some Byte.space then c.advance 1 else c) =
        ⟨c.position + gap.length, c.rest.drop gap.length⟩ := by
    split
    · next hspace =>
      obtain ⟨bytes, hrest⟩ := List.head?_eq_some_iff.1 hspace
      exact ⟨[Byte.space], .inl rfl, by simp [hrest], by simp [advance, hrest]⟩
    · next hspace => exact ⟨[], .inr ⟨rfl, hspace⟩, rfl, rfl⟩
  obtain ⟨gap, hgap, hrest, hstart⟩ := hstart
  obtain ⟨close, rest, hsplit, hclose, hdrop, htake⟩ := exists_close d (c.rest.drop gap.length)
  have hparse : c.parse d = (Utf8.lossy ((c.rest.drop gap.length).takeWhile (· ≠ d)),
      ⟨c.position + (gap ++ ((c.rest.drop gap.length).takeWhile (· ≠ d) ++ close)).length,
        rest⟩) := by
    simp only [parse, hstart]
    rw [advance, hdrop, htake]
    simp only [List.length_append, Nat.add_assoc]
  refine ⟨gap ++ ((c.rest.drop gap.length).takeWhile (· ≠ d) ++ close),
    (c.rest.drop gap.length).takeWhile (· ≠ d), ?_, ?_, ?_, ?_⟩
  · show Call.Cuts _ _ _ (c.parse d).2.rest
    rw [hparse]
    refine .text (hgap.imp_right ?_)
      (fun hmem => by simpa using List.all_eq_true.1 List.all_takeWhile d hmem) hclose
    rintro ⟨hnil, hhead⟩
    refine ⟨hnil, ?_⟩
    rwa [← hsplit, hnil]
  · show c.rest = _ ++ (c.parse d).2.rest
    rw [hparse, List.append_assoc, ← hsplit]
    exact hrest
  · show (c.parse d).2.position = _
    rw [hparse]
  · show some (c.parse d).1 = _
    rw [hparse]
    rfl

theorem exists_takes (call : Call) (c : Cursor) : ∃ block slice, Takes call c block slice := by
  cases call with
  | word d => exact ⟨_, _, takes_word d c⟩
  | text d => exact exists_takes_text d c

/-! ## All calls -/

/-- A cursor that stands in the bytes of a line. -/
structure StandsIn (bytes : List UInt8) (c : Cursor) : Prop where
  position_le : c.position ≤ bytes.length
  rest : c.rest = bytes.drop c.position

/-- A call leaves the cursor in the line. -/
theorem StandsIn.read {bytes : List UInt8} (h : c.StandsIn bytes) (call : Call) :
    (c.read call).2.StandsIn bytes := by
  obtain ⟨block, slice, htakes⟩ := exists_takes call c
  have hrest := h.rest.symm.trans htakes.rest
  have hlength := congrArg List.length hrest
  rw [List.length_drop, List.length_append] at hlength
  have hle := h.position_le
  constructor
  · rw [htakes.position]
    omega
  · rw [htakes.position, ← List.drop_drop, hrest, List.drop_left]

/-- A cursor that stands between two characters of a line. -/
def StandsBetween (text : String) (c : Cursor) : Prop :=
  ∃ before after, text = before ++ after ∧ c.position = (Utf8.encode before).length ∧
    c.rest = Utf8.encode after

/-- With an ASCII delimiter, all that separates words is ASCII. -/
theorem separates_lt {d b : UInt8} (hd : d < 0x80) (h : separates d b = true) : b < 0x80 := by
  unfold separates at h
  split at h
  · exact Byte.isBlank_lt h
  · exact of_decide_eq_true h ▸ hd

/-- With an ASCII delimiter the block and the slice are made of whole characters. -/
theorem Call.Cuts.whole {call : Call} {block slice rest : List UInt8} {text : String}
    (hcuts : call.Cuts block slice rest) (hd : call.delimiter < 0x80)
    (h : Utf8.encode text = block ++ rest) :
    ∃ p q w, text = p ++ q ∧ block = Utf8.encode p ∧ rest = Utf8.encode q ∧
      slice = Utf8.encode w := by
  cases hcuts with
  | @word d gap slice rest hgap hslice hend hnone =>
    obtain ⟨p, q, rfl, hp, hq⟩ := Utf8.exists_append_of_ascii h
      (.inr fun b hb => separates_lt hd (hend b hb))
    obtain ⟨g, w, -, -, hw⟩ := Utf8.exists_append_of_ascii hp.symm
      (.inl fun b hb => separates_lt hd (hgap b (List.mem_of_getLast? hb)))
    exact ⟨p, q, w, rfl, hp, hq, hw⟩
  | @text d gap slice close rest hgap hslice hclose =>
    have hblock : Utf8.encode text = gap ++ (slice ++ (close ++ rest)) := by simpa using h
    have hspace : ∀ b ∈ gap.getLast?, b < 0x80 := by
      rcases hgap with rfl | ⟨rfl, -⟩
      · rintro b ⟨⟩
        decide
      · rintro b ⟨⟩
    obtain ⟨g, behind, rfl, rfl, hbehind⟩ := Utf8.exists_append_of_ascii hblock (.inl hspace)
    rcases hclose with rfl | ⟨rfl, rfl⟩
    · obtain ⟨w, r, rfl, rfl, hr⟩ := Utf8.exists_append_of_ascii hbehind.symm
        (.inr fun b hb => by cases hb; exact hd)
      obtain ⟨e, q, rfl, he, rfl⟩ := Utf8.exists_append_of_ascii hr.symm
        (.inl fun b hb => by cases hb; exact hd)
      refine ⟨g ++ (w ++ e), q, w, ?_, ?_, rfl, rfl⟩
      · simp only [String.append_assoc]
      · rw [Utf8.encode_append, Utf8.encode_append, he]
    · refine ⟨g ++ behind, "", behind, by simp, ?_, rfl, by simpa using hbehind⟩
      rw [Utf8.encode_append, ← hbehind]
      simp

/-- What is returned is the slice, decoded. -/
theorem Call.eq_lossy_of_answer {call : Call} {slice : List UInt8} {w : String}
    (h : call.answer slice = some w) : w = Utf8.lossy slice := by
  cases call with
  | word d =>
    simp only [answer, Option.ite_none_left_eq_some, Option.some.injEq] at h
    exact h.2.symm
  | text d => exact (Option.some.inj h).symm

/-- A call with an ASCII delimiter leaves the cursor between two characters. -/
theorem StandsBetween.read {text : String} {call : Call} (h : c.StandsBetween text)
    (hd : call.delimiter < 0x80) : (c.read call).2.StandsBetween text := by
  obtain ⟨before, after, rfl, hposition, hrest⟩ := h
  obtain ⟨block, slice, htakes⟩ := exists_takes call c
  obtain ⟨p, q, w, rfl, hp, hq, -⟩ := htakes.cuts.whole hd (hrest.symm.trans htakes.rest)
  refine ⟨before ++ p, q, (String.append_assoc ..).symm, ?_, hq⟩
  rw [htakes.position, hposition, hp, Utf8.encode_append, List.length_append]

/-- Calls leave the cursor in the line, by induction on the calls. -/
theorem StandsIn.after {bytes : List UInt8} (h : c.StandsIn bytes) (calls : List Call) :
    (c.after calls).StandsIn bytes := by
  induction calls generalizing c with
  | nil => exact h
  | cons call calls ih => exact ih (h.read call)

theorem StandsBetween.after {text : String} {calls : List Call} (h : c.StandsBetween text)
    (hd : ∀ call ∈ calls, call.delimiter < 0x80) : (c.after calls).StandsBetween text := by
  induction calls generalizing c with
  | nil => exact h
  | cons call calls ih =>
    exact ih (h.read (hd call (List.mem_cons_self ..)))
      fun k hk => hd k (List.mem_cons_of_mem _ hk)

theorem standsIn_ofString (text : String) : (ofString text).StandsIn (Utf8.encode text) :=
  ⟨Nat.zero_le _, rfl⟩

theorem standsBetween_ofString (text : String) : (ofString text).StandsBetween text :=
  ⟨"", text, by simp, rfl, rfl⟩

theorem StandsBetween.isBoundary {text : String} (h : c.StandsBetween text) :
    Utf8.IsBoundary text c.position :=
  let ⟨before, after, happend, hposition, _⟩ := h
  ⟨before, after, happend, hposition⟩

/-- However calls for words and for texts follow one another, and whatever their delimiters, each
takes its block of bytes where the one before it stopped, and none goes back or past the end. If all
delimiters so far are ASCII, no character is cut, and what is returned is written in the slice. -/
theorem blocks_consecutive (text : String) (calls : List Call) (call : Call) :
    let c := (ofString text).after calls
    let next := (c.read call).2
    c.position ≤ next.position ∧ next.position ≤ (Utf8.encode text).length ∧
    ∃ block slice,
      (Utf8.encode text).drop c.position = block ++ (Utf8.encode text).drop next.position ∧
      next.position = c.position + block.length ∧
      call.Cuts block slice ((Utf8.encode text).drop next.position) ∧
      (c.read call).1 = call.answer slice ∧
      ((∀ k ∈ calls ++ [call], k.delimiter < 0x80) →
        Utf8.IsBoundary text c.position ∧ Utf8.IsBoundary text next.position ∧
        ∀ w, (c.read call).1 = some w → Utf8.encode w = slice) := by
  intro c next
  have hc := (standsIn_ofString text).after calls
  have hnext := hc.read call
  obtain ⟨block, slice, htakes⟩ := exists_takes call c
  refine ⟨?_, hnext.position_le, block, slice, ?_, htakes.position, ?_, htakes.answer, ?_⟩
  · rw [htakes.position]
    exact Nat.le_add_right _ _
  · rw [← hc.rest, ← hnext.rest]
    exact htakes.rest
  · rw [← hnext.rest]
    exact htakes.cuts
  · intro hd
    have hbetween := (standsBetween_ofString text).after
      fun k hk => hd k (List.mem_append_left _ hk)
    have hlast := hd call (List.mem_append_right _ (List.mem_singleton_self _))
    refine ⟨hbetween.isBoundary, (hbetween.read hlast).isBoundary, fun w hw => ?_⟩
    obtain ⟨_, after, _, _, hrest⟩ := hbetween
    obtain ⟨_, _, w', _, _, _, rfl⟩ := htakes.cuts.whole hlast (hrest.symm.trans htakes.rest)
    rw [Call.eq_lossy_of_answer (htakes.answer.symm.trans hw), Utf8.lossy_encode]

/-- A quoted text of wide characters, read after a word and after the quote in front of it. -/
theorem blocks_consecutive_quoted :
    let calls := [.word Byte.space, .text Byte.quote]
    let c := (ofString "né \"日本\" y").after calls
    (∀ k ∈ calls ++ [.text Byte.quote], k.delimiter < 0x80) ∧
    (c.read (.text Byte.quote)).1 = some "日本" ∧
    Utf8.IsBoundary "né \"日本\" y" c.position ∧
    Utf8.IsBoundary "né \"日本\" y" (c.read (.text Byte.quote)).2.position := by
  intro calls c
  have hd : ∀ k ∈ calls ++ [.text Byte.quote], k.delimiter < 0x80 := by decide
  obtain ⟨-, -, block, slice, -, -, -, -, hwhole⟩ :=
    blocks_consecutive "né \"日本\" y" calls (.text Byte.quote)
  exact ⟨hd, by decide +kernel, (hwhole hd).1, (hwhole hd).2.1⟩

end Cursor

end CellForth
