import CellForth.Proofs.Extension

/-!
# Reading text back

Lines are kept as bytes, and words and quoted texts are read out of them as characters. Nothing is
lost on the way. The bytes of a character are read as that character, whatever follows them
(`Utf8.decodeFrom_utf8EncodeChar`), so the bytes of a text give the text back
(`Utf8.lossy_encode`).

Blanks and quotes are ASCII, and only ASCII characters have ASCII bytes (`Utf8.mem_of_mem_encode`).
So a text without blanks is read as one word (`Cursor.readWord_of_rest`), and a text without quotes
is read whole between quotes (`Cursor.parse_of_rest`).
-/

namespace CellForth

namespace Utf8

/-! ## Characters -/

/-- Decoding goes byte by byte, and a step may finish a character and begin another. -/
theorem decodeFrom_cons (begun : Option Begun) (b : UInt8) (bytes : List UInt8) :
    decodeFrom begun (b :: bytes) = (step begun b).1 ++ decodeFrom (step begun b).2 bytes := by
  cases begun <;> rfl

/-! The second byte of a character has a narrower range after some first bytes, which keeps out
overlong forms, surrogates and what lies above the last character. -/

theorem lead_two : ∀ k < 32, 2 ≤ k →
    lead (UInt8.ofNat (k + 192)) = ([], some ⟨k, 0x80, 0xBF, 0⟩) := by
  decide

theorem lead_three : ∀ k < 16, lead (UInt8.ofNat (k + 224)) =
    ([], some ⟨k, if k = 0 then 0xA0 else 0x80, if k = 13 then 0x9F else 0xBF, 1⟩) := by
  decide

theorem lead_four : ∀ k < 5, lead (UInt8.ofNat (k + 240)) =
    ([], some ⟨k, if k = 0 then 0x90 else 0x80, if k = 4 then 0x8F else 0xBF, 2⟩) := by
  decide

section Continuation

variable {bits k later : Nat} {low high : UInt8} (bytes : List UInt8) (hk : k < 64)
  (hlow : low.toNat ≤ k + 128) (hhigh : k + 128 ≤ high.toNat)
include hk hlow hhigh

/-- A later byte of a character adds six bits. -/
theorem next_of_within : Begun.next ⟨bits, low, high, later⟩ (UInt8.ofNat (k + 128)) =
    match later with
    | 0 => ([some (Char.ofNat (bits * 64 + k))], none)
    | later + 1 => ([], some ⟨bits * 64 + k, 0x80, 0xBF, later⟩) := by
  have hb : (UInt8.ofNat (k + 128)).toNat = k + 128 := by
    rw [UInt8.toNat_ofNat']
    omega
  have hwithin : low ≤ UInt8.ofNat (k + 128) ∧ UInt8.ofNat (k + 128) ≤ high := by
    rw [UInt8.le_iff_toNat_le, UInt8.le_iff_toNat_le, hb]
    exact ⟨hlow, hhigh⟩
  cases later <;> simp only [Begun.next, if_pos hwithin, hb, Nat.add_sub_cancel]

/-- The last byte of a character completes it. -/
theorem decodeFrom_last : decodeFrom (some ⟨bits, low, high, 0⟩) (UInt8.ofNat (k + 128) :: bytes) =
    some (Char.ofNat (bits * 64 + k)) :: decodeFrom none bytes := by
  rw [decodeFrom_cons, step, next_of_within hk hlow hhigh]
  rfl

/-- A byte in the middle of a character adds its bits, and the next byte has the whole range. -/
theorem decodeFrom_later :
    decodeFrom (some ⟨bits, low, high, later + 1⟩) (UInt8.ofNat (k + 128) :: bytes) =
      decodeFrom (some ⟨bits * 64 + k, 0x80, 0xBF, later⟩) bytes := by
  rw [decodeFrom_cons, step, next_of_within hk hlow hhigh]
  rfl

end Continuation

/-- The first byte of a longer character gives nothing yet. -/
theorem decodeFrom_lead {b : UInt8} {p : Begun} (bytes : List UInt8) (h : lead b = ([], some p)) :
    decodeFrom none (b :: bytes) = decodeFrom (some p) bytes := by
  rw [decodeFrom_cons, step, h]
  rfl

/-- The bytes of a character are read as that character, whatever follows. -/
theorem decodeFrom_utf8EncodeChar (c : Char) (bytes : List UInt8) :
    decodeFrom none (String.utf8EncodeChar c ++ bytes) = some c :: decodeFrom none bytes := by
  have hvalid : c.toNat.isValidChar := c.valid
  have hc : Char.ofNat c.toNat = c := Char.ofNat_toNat c
  have hv : c.val.toNat = c.toNat := rfl
  -- One case for each number of bytes, where the bits add up to the code again.
  simp only [String.utf8EncodeChar, hv]
  generalize c.toNat = v at hvalid hc
  split
  · next hle =>
    have hb : (UInt8.ofNat v).toNat = v := by
      rw [UInt8.toNat_ofNat']
      omega
    have hlt : UInt8.ofNat v < 0x80 := by
      rw [UInt8.lt_iff_toNat_lt, hb]
      exact Nat.lt_succ_of_le hle
    simp only [List.singleton_append, decodeFrom_cons, step, lead, if_pos hlt, hb, hc]
  split
  · have hbits : v / 64 % 32 * 64 + v % 64 = v := by omega
    simp only [List.cons_append, List.nil_append]
    rw [decodeFrom_lead _ (lead_two _ (by omega) (by omega)),
      decodeFrom_last _ (by omega) (by simp) (by simp; omega), hbits, hc]
  split
  · have hbits : (v / 4096 % 16 * 64 + v / 64 % 64) * 64 + v % 64 = v := by omega
    simp only [List.cons_append, List.nil_append]
    rw [decodeFrom_lead _ (lead_three _ (by omega)),
      decodeFrom_later _ (by omega) (by split <;> simp; omega) (by split <;> simp <;> omega),
      decodeFrom_last _ (by omega) (by simp) (by simp; omega), hbits, hc]
  · have hbits : ((v / 262144 % 8 * 64 + v / 4096 % 64) * 64 + v / 64 % 64) * 64 + v % 64 = v := by
      omega
    simp only [List.cons_append, List.nil_append]
    rw [decodeFrom_lead _ (lead_four _ (by omega)),
      decodeFrom_later _ (by omega) (by split <;> simp; omega) (by split <;> simp <;> omega),
      decodeFrom_later _ (by omega) (by simp) (by simp; omega),
      decodeFrom_last _ (by omega) (by simp) (by simp; omega), hbits, hc]

/-- The bytes of characters are read as these characters. -/
theorem decode_flatMap (cs : List Char) :
    decode (cs.flatMap String.utf8EncodeChar) = cs.map some := by
  induction cs with
  | nil => rfl
  | cons c cs ih =>
    rw [List.flatMap_cons, decode, decodeFrom_utf8EncodeChar, ← decode, ih, List.map_cons]

/-- Reading the bytes of a text gives the text back. -/
@[simp]
theorem lossy_encode (s : String) : lossy (encode s) = s := by
  simp [lossy, encode, decode_flatMap, Function.comp_def]

/-! ## Bytes -/

/-- An ASCII byte of a text is one of its characters. -/
theorem mem_of_mem_encode {s : String} {b : UInt8} (hb : b < 0x80) (h : b ∈ encode s) :
    Char.ofNat b.toNat ∈ s.toList := by
  obtain ⟨c, hc, hmem⟩ := List.mem_flatMap.1 h
  have hlt : b.toNat < 128 := UInt8.lt_iff_toNat_lt.1 hb
  have hascii : c.toNat ≤ 127 := by
    rcases Nat.lt_or_ge c.toNat 128 with hc | hc
    · omega
    · have := le_of_mem_utf8EncodeChar hc hmem
      omega
  have hv : c.val.toNat = c.toNat := rfl
  simp only [String.utf8EncodeChar, hv, if_pos hascii, List.mem_singleton] at hmem
  have hb : b.toNat = c.toNat := by
    rw [hmem, UInt8.toNat_ofNat']
    omega
  rwa [hb, Char.ofNat_toNat]

theorem encode_ne_nil {s : String} (h : s ≠ "") : encode s ≠ [] := by
  intro hnil
  have hs := lossy_encode s
  rw [hnil] at hs
  exact h hs.symm

end Utf8

namespace Text

/-- The characters that separate words. -/
def blanks : List Char :=
  [' ', '\t', '\n', '\x0B', '\x0C', '\r']

/-- The bytes that separate words are those of the blank characters. -/
theorem mem_blanks_of_isBlank {b : UInt8} (h : Byte.isBlank b = true) :
    Char.ofNat b.toNat ∈ blanks := by
  have hall : ∀ n < 128, Byte.isBlank (UInt8.ofNat n) = true → Char.ofNat n ∈ blanks := by decide
  have hlt : b.toNat < 128 := UInt8.lt_iff_toNat_lt.1 (Byte.isBlank_lt h)
  exact hall b.toNat hlt (by rwa [UInt8.ofNat_toNat])

/-- A text that is read as one word: it is not empty, and has no blank. -/
structure IsWord (w : String) : Prop where
  ne_empty : w ≠ ""
  unbroken : ∀ c ∈ w.toList, c ∉ blanks

instance (w : String) : Decidable (IsWord w) :=
  decidable_of_iff (w ≠ "" ∧ w.toList.all fun c => decide (c ∉ blanks))
    ⟨fun h => ⟨h.1, by simpa using h.2⟩, fun h => ⟨h.ne_empty, by simpa using h.unbroken⟩⟩

/-- No byte of a word is blank, not even inside a longer character. -/
theorem IsWord.isBlank {w : String} (h : IsWord w) {b : UInt8} (hb : b ∈ Utf8.encode w) :
    Byte.isBlank b = false := by
  cases hblank : Byte.isBlank b with
  | false => rfl
  | true =>
    exact absurd (mem_blanks_of_isBlank hblank)
      (h.unbroken _ (Utf8.mem_of_mem_encode (Byte.isBlank_lt hblank) hb))

end Text

namespace Cursor

variable {c : Cursor}

/-- The next word of a line is read whole, up to the blank or the end that follows it. -/
theorem readWord_of_rest {gap w after : String}
    (hgap : ∀ b ∈ Utf8.encode gap, Byte.isBlank b = true) (hw : Text.IsWord w)
    (hafter : ∀ b ∈ (Utf8.encode after).head?, Byte.isBlank b = true)
    (h : c.rest = Utf8.encode (gap ++ (w ++ after))) :
    (c.readWord Byte.space).1 = some w ∧ (c.readWord Byte.space).2.rest = Utf8.encode after := by
  have hblank : ∀ b, separates Byte.space b = Byte.isBlank b := fun _ => rfl
  have hskip : (c.skipping Byte.space).rest = Utf8.encode w ++ Utf8.encode after := by
    rw [rest_skipping, h, Utf8.encode_append, Utf8.encode_append,
      List.dropWhile_append_of_pos fun b hb => by simpa [hblank] using hgap b hb]
    obtain ⟨b, bytes, hbytes⟩ := List.exists_cons_of_ne_nil (Utf8.encode_ne_nil hw.ne_empty)
    rw [hbytes, List.cons_append]
    exact List.dropWhile_cons_of_neg (by simp [hblank, hw.isBlank (b := b) (by simp [hbytes])])
  have hword : (c.skipping Byte.space).rest.takeWhile (!separates Byte.space ·) =
      Utf8.encode w := by
    rw [hskip, List.takeWhile_append_of_pos fun b hb => by simp [hblank, hw.isBlank hb]]
    cases hbytes : Utf8.encode after with
    | nil => simp
    | cons b bytes =>
      have hb : Byte.isBlank b = true := hafter b (by simp [hbytes])
      simp [hblank, hb]
  simp only [readWord_eq, hword]
  refine ⟨?_, ?_⟩
  · simp [Utf8.encode_ne_nil hw.ne_empty]
  · rw [rest_advance, hskip, List.drop_left]

/-- Quoted text is read whole, up to its quote and past it. -/
theorem parse_of_rest {t after : String} (ht : '"' ∉ t.toList)
    (h : c.rest = Utf8.encode (" " ++ (t ++ ("\"" ++ after)))) :
    (c.parse Byte.quote).1 = t ∧ (c.parse Byte.quote).2.rest = Utf8.encode after := by
  have hrest : c.rest = Byte.space :: (Utf8.encode t ++ Byte.quote :: Utf8.encode after) := by
    rw [h, Utf8.encode_append, Utf8.encode_append, Utf8.encode_append]
    rfl
  have hquote : ∀ b ∈ Utf8.encode t, (b ≠ Byte.quote) := by
    rintro b hb rfl
    exact ht (Utf8.mem_of_mem_encode (by decide) hb)
  have htext : (c.advance 1).rest.takeWhile (· ≠ Byte.quote) = Utf8.encode t := by
    rw [rest_advance, hrest, List.drop_one, List.tail_cons,
      List.takeWhile_append_of_pos fun b hb => by simpa using hquote b hb]
    simp
  have hstart : (if c.rest.head? = some Byte.space then c.advance 1 else c) = c.advance 1 :=
    if_pos (by rw [hrest]; rfl)
  simp only [parse, hstart, htext]
  refine ⟨Utf8.lossy_encode t, ?_⟩
  rw [rest_advance, rest_advance, hrest, List.drop_one, List.tail_cons, List.drop_append]
  simp

end Cursor

end CellForth
