import CellForth.Proofs.Casing
import CellForth.Proofs.Loading

/-!
# Bytes that are text

Bytes are read as a text if and only if they are the bytes of that text
(`Utf8.text?_eq_some_iff`). So `Utf8.text?` refuses exactly the bytes of no text, and no text has
two byte sequences that are read as it.

Bytes that are read without a failure begin with the bytes of a character
(`Utf8.exists_of_decode_cons`). The first byte tells how many there are, and each of the others is
in the range that those before it leave (`Utf8.exists_of_begun`). The ranges are narrow enough that
the bits make a character, and that its bytes are the ones that were read.
-/

namespace CellForth.Utf8

variable {bytes : List UInt8}

/-! ## Bytes of characters -/

section Characters

variable {k k₁ k₂ k₃ : Nat}

theorem utf8EncodeChar_one (hk : k < 128) :
    String.utf8EncodeChar (Char.ofNat k) = [UInt8.ofNat k] := by
  have hv : (Char.ofNat k).val.toNat = k := Text.toNat_ofNat (.inl (by omega))
  simp only [String.utf8EncodeChar, hv, if_pos (show k ≤ 0x7F by omega)]

/-- Two bytes hold eleven bits, for characters that need more than seven. -/
theorem utf8EncodeChar_two (hlow : 2 ≤ k) (hk : k < 32) (hk₁ : k₁ < 64) :
    String.utf8EncodeChar (Char.ofNat (k * 64 + k₁)) =
      [UInt8.ofNat (k + 192), UInt8.ofNat (k₁ + 128)] := by
  have hv : (Char.ofNat (k * 64 + k₁)).val.toNat = k * 64 + k₁ :=
    Text.toNat_ofNat (.inl (by omega))
  have hbits : (k * 64 + k₁) / 64 % 32 = k ∧ (k * 64 + k₁) % 64 = k₁ := by omega
  simp only [String.utf8EncodeChar, hv, hbits]
  rw [if_neg (by omega), if_pos (by omega)]

/-- Three bytes hold sixteen bits, for characters that need more than eleven and no surrogates. -/
theorem utf8EncodeChar_three (hlow : k = 0 → 32 ≤ k₁) (hhigh : k = 13 → k₁ < 32) (hk : k < 16)
    (hk₁ : k₁ < 64) (hk₂ : k₂ < 64) :
    String.utf8EncodeChar (Char.ofNat ((k * 64 + k₁) * 64 + k₂)) =
      [UInt8.ofNat (k + 224), UInt8.ofNat (k₁ + 128), UInt8.ofNat (k₂ + 128)] := by
  have hvalid : ((k * 64 + k₁) * 64 + k₂).isValidChar := by
    unfold Nat.isValidChar
    omega
  have hv : (Char.ofNat ((k * 64 + k₁) * 64 + k₂)).val.toNat = (k * 64 + k₁) * 64 + k₂ :=
    Text.toNat_ofNat hvalid
  have hbits : ((k * 64 + k₁) * 64 + k₂) / 4096 % 16 = k ∧
      ((k * 64 + k₁) * 64 + k₂) / 64 % 64 = k₁ ∧ ((k * 64 + k₁) * 64 + k₂) % 64 = k₂ := by omega
  simp only [String.utf8EncodeChar, hv, hbits]
  rw [if_neg (by omega), if_neg (by omega), if_pos (by omega)]

/-- Four bytes are for characters that need more than sixteen bits, up to the last one. -/
theorem utf8EncodeChar_four (hlow : k = 0 → 16 ≤ k₁) (hhigh : k = 4 → k₁ < 16) (hk : k < 5)
    (hk₁ : k₁ < 64) (hk₂ : k₂ < 64) (hk₃ : k₃ < 64) :
    String.utf8EncodeChar (Char.ofNat (((k * 64 + k₁) * 64 + k₂) * 64 + k₃)) =
      [UInt8.ofNat (k + 240), UInt8.ofNat (k₁ + 128), UInt8.ofNat (k₂ + 128),
        UInt8.ofNat (k₃ + 128)] := by
  have hvalid : (((k * 64 + k₁) * 64 + k₂) * 64 + k₃).isValidChar := .inr (by omega)
  have hv : (Char.ofNat (((k * 64 + k₁) * 64 + k₂) * 64 + k₃)).val.toNat =
      ((k * 64 + k₁) * 64 + k₂) * 64 + k₃ := Text.toNat_ofNat hvalid
  have hbits : (((k * 64 + k₁) * 64 + k₂) * 64 + k₃) / 262144 % 8 = k ∧
      (((k * 64 + k₁) * 64 + k₂) * 64 + k₃) / 4096 % 64 = k₁ ∧
      (((k * 64 + k₁) * 64 + k₂) * 64 + k₃) / 64 % 64 = k₂ ∧
      (((k * 64 + k₁) * 64 + k₂) * 64 + k₃) % 64 = k₃ := by omega
  simp only [String.utf8EncodeChar, hv, hbits]
  rw [if_neg (by omega), if_neg (by omega), if_neg (by omega)]

end Characters

/-! ## Reading without failures -/

/-- No character begins with a later byte, with a byte of an overlong form, or with one that leads
above the last character. -/
theorem lead_none : ∀ n < 256, 128 ≤ n ∧ n < 194 ∨ 245 ≤ n →
    lead (UInt8.ofNat n) = ([none], none) := by
  decide +kernel

/-- A begun character goes on with a byte of its range. -/
theorem exists_of_begun {bits left : Nat} {low high : UInt8}
    (h : none ∉ decodeFrom (some ⟨bits, low, high, left⟩) bytes)
    (hlow : 128 ≤ low.toNat) (hhigh : high.toNat < 192) :
    ∃ k later, bytes = UInt8.ofNat (k + 128) :: later ∧ k < 64 ∧ low.toNat ≤ k + 128 ∧
      k + 128 ≤ high.toNat := by
  cases bytes with
  | nil => exact absurd (List.mem_singleton.2 rfl) h
  | cons b bytes =>
    rw [decodeFrom_cons, step, Begun.next] at h
    by_cases hb : low ≤ b ∧ b ≤ high
    · rw [UInt8.le_iff_toNat_le, UInt8.le_iff_toNat_le] at hb
      refine ⟨b.toNat - 128, bytes, ?_, by omega, by omega, by omega⟩
      rw [Nat.sub_add_cancel (by omega), UInt8.ofNat_toNat]
    · rw [if_neg hb] at h
      exact absurd (List.mem_append_left _ (List.mem_cons_self ..)) h

section Leads

variable {k : Nat}

/-- After a first byte of two, no failure means that a character stands there. -/
theorem exists_of_lead_two (hlow : 2 ≤ k) (hk : k < 32)
    (h : none ∉ decode (UInt8.ofNat (k + 192) :: bytes)) :
    ∃ c later, UInt8.ofNat (k + 192) :: bytes = String.utf8EncodeChar c ++ later := by
  rw [decode, decodeFrom_lead _ (lead_two k hk hlow)] at h
  obtain ⟨k₁, later, rfl, hk₁, -, -⟩ := exists_of_begun h (by decide) (by decide)
  exact ⟨_, later, by rw [utf8EncodeChar_two hlow hk hk₁]; rfl⟩

theorem exists_of_lead_three (hk : k < 16)
    (h : none ∉ decode (UInt8.ofNat (k + 224) :: bytes)) :
    ∃ c later, UInt8.ofNat (k + 224) :: bytes = String.utf8EncodeChar c ++ later := by
  rw [decode, decodeFrom_lead _ (lead_three k hk)] at h
  obtain ⟨k₁, later, rfl, hk₁, hlow, hhigh⟩ := exists_of_begun h
    (by split <;> decide) (by split <;> decide)
  rw [decodeFrom_later _ hk₁ hlow hhigh] at h
  obtain ⟨k₂, later, rfl, hk₂, -, -⟩ := exists_of_begun h (by decide) (by decide)
  have hnotOverlong : k = 0 → 32 ≤ k₁ := by
    rintro rfl
    exact Nat.le_of_add_le_add_right (b := 128) hlow
  have hnotSurrogate : k = 13 → k₁ < 32 := by
    rintro rfl
    exact Nat.lt_of_add_lt_add_right (n := 128) (Nat.lt_succ_of_le hhigh)
  exact ⟨_, later, by rw [utf8EncodeChar_three hnotOverlong hnotSurrogate hk hk₁ hk₂]; rfl⟩

theorem exists_of_lead_four (hk : k < 5)
    (h : none ∉ decode (UInt8.ofNat (k + 240) :: bytes)) :
    ∃ c later, UInt8.ofNat (k + 240) :: bytes = String.utf8EncodeChar c ++ later := by
  rw [decode, decodeFrom_lead _ (lead_four k hk)] at h
  obtain ⟨k₁, later, rfl, hk₁, hlow, hhigh⟩ := exists_of_begun h
    (by split <;> decide) (by split <;> decide)
  rw [decodeFrom_later _ hk₁ hlow hhigh] at h
  obtain ⟨k₂, later, rfl, hk₂, hlow₂, hhigh₂⟩ := exists_of_begun h (by decide) (by decide)
  rw [decodeFrom_later _ hk₂ hlow₂ hhigh₂] at h
  obtain ⟨k₃, later, rfl, hk₃, -, -⟩ := exists_of_begun h (by decide) (by decide)
  have hnotOverlong : k = 0 → 16 ≤ k₁ := by
    rintro rfl
    exact Nat.le_of_add_le_add_right (b := 128) hlow
  have hnotAbove : k = 4 → k₁ < 16 := by
    rintro rfl
    exact Nat.lt_of_add_lt_add_right (n := 128) (Nat.lt_succ_of_le hhigh)
  exact ⟨_, later, by rw [utf8EncodeChar_four hnotOverlong hnotAbove hk hk₁ hk₂ hk₃]; rfl⟩

end Leads

/-- Bytes that are read without a failure begin with those of a character. -/
theorem exists_of_decode_cons {b : UInt8} (h : none ∉ decode (b :: bytes)) :
    ∃ c later, b :: bytes = String.utf8EncodeChar c ++ later := by
  have hlt : b.toNat < 256 := b.toNat_lt
  obtain ⟨n, hn, rfl⟩ : ∃ n < 256, b = UInt8.ofNat n := ⟨b.toNat, hlt, UInt8.ofNat_toNat.symm⟩
  by_cases hone : n < 128
  · exact ⟨_, bytes, by rw [utf8EncodeChar_one hone]; rfl⟩
  by_cases hnone : 128 ≤ n ∧ n < 194 ∨ 245 ≤ n
  · rw [decode, decodeFrom_cons, step, lead_none n hn hnone] at h
    exact absurd (List.mem_cons_self ..) h
  by_cases htwo : n < 224
  · obtain ⟨k, rfl⟩ := Nat.exists_eq_add_of_le' (show 192 ≤ n by omega)
    exact exists_of_lead_two (by omega) (by omega) h
  by_cases hthree : n < 240
  · obtain ⟨k, rfl⟩ := Nat.exists_eq_add_of_le' (show 224 ≤ n by omega)
    exact exists_of_lead_three (by omega) h
  · obtain ⟨k, rfl⟩ := Nat.exists_eq_add_of_le' (show 240 ≤ n by omega)
    exact exists_of_lead_four (by omega) h

/-- Bytes that are read without a failure are those of some characters. -/
theorem exists_of_decode (h : none ∉ decode bytes) :
    ∃ cs : List Char, bytes = cs.flatMap String.utf8EncodeChar := by
  induction hlength : bytes.length using Nat.strongRecOn generalizing bytes with
  | ind n ih =>
    cases bytes with
    | nil => exact ⟨[], rfl⟩
    | cons b bytes =>
      obtain ⟨c, later, hbytes⟩ := exists_of_decode_cons h
      rw [hbytes] at h hlength ⊢
      rw [decode, decodeFrom_utf8EncodeChar, ← decode] at h
      have hshorter : later.length < n := by
        have hsize := String.length_utf8EncodeChar c
        have hpos := c.utf8Size_pos
        rw [List.length_append] at hlength
        omega
      obtain ⟨cs, rfl⟩ := ih _ hshorter (mt (List.mem_cons_of_mem _) h) rfl
      exact ⟨c :: cs, rfl⟩

theorem mapM_id_of_mem {cs : List (Option Char)} (h : none ∈ cs) : cs.mapM id = none := by
  induction cs with
  | nil => cases h
  | cons c cs ih =>
    cases c with
    | none => rfl
    | some c =>
      have hcs : none ∈ cs := (List.mem_cons.1 h).resolve_left nofun
      rw [List.mapM_cons, ih hcs]
      rfl

/-- Bytes are read as a text if and only if they are its bytes. -/
theorem text?_eq_some_iff {text : String} : text? bytes = some text ↔ encode text = bytes := by
  constructor
  · intro h
    have hnone : none ∉ decode bytes := by
      intro hmem
      rw [text?, mapM_id_of_mem hmem] at h
      cases h
    obtain ⟨cs, hcs⟩ := exists_of_decode hnone
    have hbytes : encode (String.ofList cs) = bytes := by rw [encode, String.toList_ofList, hcs]
    rw [← hbytes, text?_encode] at h
    rw [← Option.some.inj h, hbytes]
  · rintro rfl
    exact text?_encode text

end CellForth.Utf8
