import CellForth.Lexeme
import CellForth.Text.Byte
import CellForth.Text.Utf8
import Mathlib.Data.Nat.Digits.Defs
import Mathlib.Data.Set.List

/-!
# Numerals

A `Numeral` is a nonempty run of decimal digits with or without a minus sign in front. It has a
text, and a value in which the first digit counts most. Zeros may stand in front, and so may a minus
sign before nothing but zeros.

Words are told to be numbers by exactly these texts: `numeral?` accepts the texts of numerals and
gives their values (`numeral?_eq_some_iff`). So a word is a number if it is a numeral whose value
fits a cell, it is refused if it is any other numeral, and else it is a name (`classify_exact`).
The decimal text of an integer is a numeral of that value (`numeral?_toString`), so what is
classified can be shown and classified again.

Whether a word is a numeral can also be told by its bytes alone (`isNumeral`), since no byte of a
character outside ASCII is a digit or a minus sign (`isNumeral_eq`).
-/

namespace CellForth

/-- At least one decimal digit, and perhaps a minus sign in front. -/
structure Numeral where
  negative : Bool
  digits : List (Fin 10)
  nonempty : digits ≠ []

namespace Numeral

/-- How a digit is written. -/
def character (d : Fin 10) : Char :=
  Nat.digitChar d

/-- The number that digits stand for; the first of them counts most. -/
def magnitude (ds : List (Fin 10)) : Nat :=
  Nat.ofDigits 10 (ds.reverse.map Fin.val)

/-- How a numeral is written. -/
def text (k : Numeral) : String :=
  (if k.negative then "-" else "") ++ String.ofList (k.digits.map character)

/-- The integer that a numeral stands for. -/
def value (k : Numeral) : Int :=
  if k.negative then -(magnitude k.digits : Int) else magnitude k.digits

/-! ## Digits -/

theorem isDigit_iff {c : Char} : c.isDigit = true ↔ c ∈ Set.range character := by
  constructor
  · intro h
    simp only [Char.isDigit, Bool.and_eq_true, decide_eq_true_eq] at h
    have hlow : 48 ≤ c.toNat := h.1
    have hhigh : c.toNat ≤ 57 := h.2
    have hlt : c.toNat - 48 < 10 := by omega
    refine ⟨⟨c.toNat - 48, hlt⟩, Char.toNat_inj.1 ?_⟩
    rw [character, Nat.toNat_digitChar_of_lt_ten hlt]
    omega
  · rintro ⟨d, rfl⟩
    rw [character, Nat.isDigit_digitChar]
    exact decide_eq_true d.isLt

theorem character_ne_minus (d : Fin 10) : character d ≠ '-' := by
  intro h
  have hdigit := isDigit_iff.2 ⟨d, rfl⟩
  rw [h] at hdigit
  cases hdigit

/-- The first digit counts for as many tens as there are digits behind it. -/
theorem magnitude_cons (d : Fin 10) (ds : List (Fin 10)) :
    magnitude (d :: ds) = 10 ^ ds.length * d + magnitude ds := by
  simp only [magnitude, List.reverse_cons, List.map_append, List.map_singleton,
    Nat.ofDigits_append, Nat.ofDigits_singleton, List.length_map, List.length_reverse]
  exact Nat.add_comm _ _

/-- Digits are read from the left, each to stand behind ten times those before it. -/
theorem ofDigitChars_map (ds : List (Fin 10)) :
    Nat.ofDigitChars 10 (ds.map character) 0 = magnitude ds := by
  induction ds with
  | nil => rfl
  | cons d ds ih =>
    have hd : (character d).toNat - '0'.toNat = d := Nat.toNat_digitChar_sub_48_of_lt_ten d.isLt
    rw [List.map_cons, Nat.ofDigitChars_cons, hd, Nat.mul_zero, Nat.zero_add,
      Nat.ofDigitChars_eq_ofDigitChars_zero, ih, List.length_map, magnitude_cons]

theorem digits?_map {ds : List (Fin 10)} (h : ds ≠ []) :
    digits? (ds.map character) = some (magnitude ds) := by
  have hall : (ds.map character).all Char.isDigit = true := by
    rw [List.all_map, List.all_eq_true]
    exact fun d _ => isDigit_iff.2 ⟨d, rfl⟩
  rw [digits?, if_pos ⟨by simpa using h, hall⟩, ofDigitChars_map]

/-- What is read as a magnitude was written in digits. -/
theorem exists_of_digits? {cs : List Char} {n : Nat} (h : digits? cs = some n) :
    ∃ ds : List (Fin 10), ds ≠ [] ∧ ds.map character = cs := by
  rw [digits?, Option.ite_none_right_eq_some] at h
  obtain ⟨⟨hne, hall⟩, -⟩ := h
  have hrange : cs ∈ Set.range (List.map character) := by
    rw [Set.range_list_map]
    exact fun c hc => isDigit_iff.1 (List.all_eq_true.1 hall c hc)
  obtain ⟨ds, rfl⟩ := hrange
  exact ⟨ds, by simpa using hne, rfl⟩

/-! ## Numerals -/

/-- A minus in front of digits makes their magnitude negative. -/
theorem numeral?_ofList_minus (cs : List Char) :
    numeral? (.ofList ('-' :: cs)) = (digits? cs).map fun n : Nat => -(n : Int) := by
  simp only [numeral?, String.toList_ofList]
  cases digits? cs <;> rfl

/-- Without a minus in front, all characters have to be digits. -/
theorem numeral?_ofList {cs : List Char} (h : cs.head? ≠ some '-') :
    numeral? (.ofList cs) = (digits? cs).map fun n : Nat => (n : Int) := by
  unfold numeral?
  rw [String.toList_ofList]
  split
  · exact absurd rfl h
  · cases digits? cs <;> rfl

theorem text_of_negative {k : Numeral} (h : k.negative = true) :
    k.text = .ofList ('-' :: k.digits.map character) := by
  rw [text, if_pos h, ← String.toList_inj]
  simp

theorem text_of_not_negative {k : Numeral} (h : k.negative = false) :
    k.text = .ofList (k.digits.map character) := by
  rw [text, if_neg (by simp [h]), String.empty_append]

/-- The text of a numeral is read as its value. -/
theorem numeral?_text (k : Numeral) : numeral? k.text = some k.value := by
  cases h : k.negative with
  | true =>
    rw [text_of_negative h, numeral?_ofList_minus, digits?_map k.nonempty, value, if_pos h]
    rfl
  | false =>
    have hhead : (k.digits.map character).head? ≠ some '-' := by
      rw [List.head?_map]
      intro hminus
      obtain ⟨d, -, hd⟩ := Option.map_eq_some_iff.1 hminus
      exact character_ne_minus d hd
    rw [text_of_not_negative h, numeral?_ofList hhead, digits?_map k.nonempty, value,
      if_neg (by simp [h])]
    rfl

/-- What is read as a value is the text of a numeral. -/
theorem exists_of_numeral? {cs : List Char} {n : Int} (h : numeral? (.ofList cs) = some n) :
    ∃ k : Numeral, k.text = .ofList cs := by
  by_cases hhead : cs.head? = some '-'
  · obtain ⟨cs, rfl⟩ := List.head?_eq_some_iff.1 hhead
    rw [numeral?_ofList_minus] at h
    obtain ⟨m, hm, -⟩ := Option.map_eq_some_iff.1 h
    obtain ⟨ds, hne, rfl⟩ := exists_of_digits? hm
    exact ⟨⟨true, ds, hne⟩, text_of_negative rfl⟩
  · rw [numeral?_ofList hhead] at h
    obtain ⟨m, hm, -⟩ := Option.map_eq_some_iff.1 h
    obtain ⟨ds, hne, rfl⟩ := exists_of_digits? hm
    exact ⟨⟨false, ds, hne⟩, text_of_not_negative rfl⟩

/-- A word reads as an integer if it is the text of a numeral with that value. -/
theorem numeral?_eq_some_iff {w : String} {n : Int} :
    numeral? w = some n ↔ ∃ k : Numeral, k.text = w ∧ k.value = n := by
  constructor
  · intro h
    rw [← String.ofList_toList (s := w)] at h
    obtain ⟨k, hk⟩ := exists_of_numeral? h
    rw [← hk, numeral?_text] at h
    rw [String.ofList_toList] at hk
    exact ⟨k, hk, Option.some.inj h⟩
  · rintro ⟨k, rfl, rfl⟩
    exact numeral?_text k

theorem numeral?_eq_none_iff {w : String} : numeral? w = none ↔ ∀ k : Numeral, k.text ≠ w := by
  rw [Option.eq_none_iff_forall_ne_some]
  constructor
  · rintro h k rfl
    exact h k.value (numeral?_text k)
  · intro h n hn
    obtain ⟨k, hk, -⟩ := numeral?_eq_some_iff.1 hn
    exact h k hk

end Numeral

/-! ## Decimal text -/

/-- The decimal digits of a number are read as the number. -/
theorem digits?_toDigits (n : Nat) : digits? (Nat.toDigits 10 n) = some n := by
  have hall : (Nat.toDigits 10 n).all Char.isDigit = true := by
    rw [List.all_eq_true]
    exact fun c hc => Nat.isDigit_of_mem_toDigits (by decide) (by decide) hc
  rw [digits?, if_pos ⟨Nat.toDigits_ne_nil, hall⟩, Nat.ofDigitChars_ten_toDigits]

/-- The decimal text of an integer is a numeral of that value. -/
theorem numeral?_toString (n : Int) : numeral? (toString n) = some n := by
  rw [Int.toString_eq_repr]
  cases n with
  | ofNat m =>
    have hhead : (Nat.toDigits 10 m).head? ≠ some '-' := by
      intro hminus
      have hdigit := Nat.isDigit_of_mem_toDigits (by decide) (by decide) (List.mem_of_head? hminus)
      cases hdigit
    rw [Int.repr, Nat.repr_eq_ofList_toDigits, Numeral.numeral?_ofList hhead, digits?_toDigits]
    rfl
  | negSucc m =>
    have htext : "-" ++ (m.succ).repr = .ofList ('-' :: Nat.toDigits 10 (m + 1)) := by
      rw [Nat.repr_eq_ofList_toDigits, ← String.toList_inj]
      simp
    rw [Int.repr, htext, Numeral.numeral?_ofList_minus, digits?_toDigits]
    rfl

/-! ## Numerals by their bytes -/

/-- Whether bytes are digits, and at least one. -/
def areDigits (bytes : List UInt8) : Bool :=
  !bytes.isEmpty && bytes.all Byte.isDigit

/-- Whether a word is a numeral by its bytes: digits, with or without a minus sign in front. -/
def isNumeral (word : String) : Bool :=
  match Utf8.encode word with
  | [] => areDigits []
  | b :: bytes => if b = Byte.minus then areDigits bytes else areDigits (b :: bytes)

/-- The bytes of a character are digits if the character is one. -/
theorem all_isDigit_utf8EncodeChar (c : Char) :
    (String.utf8EncodeChar c).all Byte.isDigit = c.isDigit := by
  rcases Nat.lt_or_ge c.toNat 128 with hlt | hge
  · have hall : ∀ n < 128, Byte.isDigit (UInt8.ofNat n) = (Char.ofNat n).isDigit := by decide
    rw [Utf8.utf8EncodeChar_of_ascii hlt, List.all_cons, List.all_nil, Bool.and_true,
      hall _ hlt, Char.ofNat_toNat]
  · obtain ⟨b, bytes, hbytes⟩ := List.exists_cons_of_ne_nil (Utf8.utf8EncodeChar_ne_nil c)
    have hb : 128 ≤ b.toNat := Utf8.le_of_mem_utf8EncodeChar hge (by simp [hbytes])
    have hbyte : Byte.isDigit b = false := by
      simp only [Byte.isDigit, Bool.and_eq_false_iff, decide_eq_false_iff_not,
        UInt8.le_iff_toNat_le]
      right
      have : (0x39 : UInt8).toNat = 57 := rfl
      omega
    have hchar : c.isDigit = false := by
      simp only [Char.isDigit, Bool.and_eq_false_iff, decide_eq_false_iff_not]
      right
      exact fun h => absurd (show c.toNat ≤ 57 from h) (by omega)
    rw [hbytes, List.all_cons, hbyte, Bool.false_and, hchar]

/-- Bytes are digits exactly where the characters that they encode are. -/
theorem areDigits_flatMap (cs : List Char) :
    areDigits (cs.flatMap String.utf8EncodeChar) = (digits? cs).isSome := by
  have hempty : (cs.flatMap String.utf8EncodeChar).isEmpty = cs.isEmpty := by
    cases cs <;> simp
  have hsome : (digits? cs).isSome = (!cs.isEmpty && cs.all Char.isDigit) := by
    rw [digits?, Bool.eq_iff_iff]
    split
    · next h => simpa using h
    · next h => simpa using h
  rw [areDigits, hempty, List.all_flatMap, hsome]
  simp only [all_isDigit_utf8EncodeChar]

/-- Only the minus sign has its byte. -/
theorem eq_minus_of_utf8EncodeChar {c : Char} {bytes : List UInt8}
    (h : String.utf8EncodeChar c = Byte.minus :: bytes) : c = '-' := by
  have hlt : c.toNat < 128 := by
    rcases Nat.lt_or_ge c.toNat 128 with hlt | hge
    · exact hlt
    · have hbyte := Utf8.le_of_mem_utf8EncodeChar hge (b := Byte.minus) (by simp [h])
      exact absurd hbyte (by decide)
  rw [Utf8.utf8EncodeChar_of_ascii hlt] at h
  have hbyte : (UInt8.ofNat c.toNat).toNat = Byte.minus.toNat :=
    congrArg UInt8.toNat (List.cons.inj h).1
  rw [UInt8.toNat_ofNat_of_lt' (Nat.lt_trans hlt (by decide))] at hbyte
  exact Char.toNat_inj.1 hbyte

/-- The first byte tells whether there is a minus to be passed over. -/
theorem isNumeral_ofList_cons {c : Char} {b : UInt8} {bytes : List UInt8}
    (h : String.utf8EncodeChar c = b :: bytes) (cs : List Char) :
    isNumeral (.ofList (c :: cs)) =
      if b = Byte.minus then areDigits (bytes ++ cs.flatMap String.utf8EncodeChar)
      else areDigits ((c :: cs).flatMap String.utf8EncodeChar) := by
  rw [isNumeral, Utf8.encode, String.toList_ofList, List.flatMap_cons, h, List.cons_append]

/-- The bytes of a word tell whether it is a numeral. -/
theorem isNumeral_eq (word : String) : isNumeral word = (numeral? word).isSome := by
  rw [← String.ofList_toList (s := word)]
  cases word.toList with
  | nil => rfl
  | cons c cs =>
    obtain ⟨b, bytes, hbytes⟩ := List.exists_cons_of_ne_nil (Utf8.utf8EncodeChar_ne_nil c)
    rw [isNumeral_ofList_cons hbytes]
    by_cases hc : c = '-'
    · subst hc
      obtain ⟨rfl, rfl⟩ : Byte.minus = b ∧ [] = bytes := List.cons.inj hbytes
      rw [if_pos rfl, List.nil_append, areDigits_flatMap, Numeral.numeral?_ofList_minus,
        Option.isSome_map]
    · have hb : b ≠ Byte.minus := by
        rintro rfl
        exact hc (eq_minus_of_utf8EncodeChar hbytes)
      rw [if_neg hb, areDigits_flatMap, Numeral.numeral?_ofList (by simpa using hc),
        Option.isSome_map]

/-! ## Words -/

/-- The integers of a cell are those of 64 bits in two's complement. -/
theorem fitsCell_iff {n : Int} : fitsCell n = true ↔ -2 ^ 63 ≤ n ∧ n ≤ 2 ^ 63 - 1 := by
  simp only [fitsCell, Bool.and_eq_true, decide_eq_true_eq]
  rfl

theorem fitsCell_toInt (n : Int64) : fitsCell n.toInt = true := by
  rw [fitsCell_iff]
  exact ⟨n.le_toInt, Int.le_sub_one_of_lt n.toInt_lt⟩

namespace Lexeme

theorem classify_of_value {k : Numeral} {n : Int64} (h : k.value = n.toInt) :
    classify k.text = .ok (.number n) := by
  simp only [classify, k.numeral?_text, h, fitsCell_toInt, if_true, Int64.ofInt_toInt]

/-- A numeral whose value does not fit is refused and names itself. -/
theorem classify_of_not_fits {k : Numeral} (h : ¬ (-2 ^ 63 ≤ k.value ∧ k.value ≤ 2 ^ 63 - 1)) :
    classify k.text = .error ⟨.outOfRange, k.text⟩ := by
  simp only [classify, k.numeral?_text, if_neg (mt fitsCell_iff.1 h)]

theorem classify_of_name {w : String} (h : ∀ k : Numeral, k.text ≠ w) :
    classify w = .ok (.name w) := by
  simp only [classify, Numeral.numeral?_eq_none_iff.2 h]

/-- The decimal text of a number is that number. -/
theorem classify_toString (n : Int64) : classify (toString n.toInt) = .ok (.number n) := by
  simp only [classify, numeral?_toString, fitsCell_toInt, if_true, Int64.ofInt_toInt]

/-- What a word can be. -/
inductive Classified (w : String) : Except Fault Lexeme → Prop where
  | number {k : Numeral} {n : Int64} (hk : k.text = w) (hn : k.value = n.toInt) :
    Classified w (.ok (.number n))
  | refused {k : Numeral} (hk : k.text = w)
    (hrange : ¬ (-2 ^ 63 ≤ k.value ∧ k.value ≤ 2 ^ 63 - 1)) :
    Classified w (.error ⟨.outOfRange, w⟩)
  | name (h : ∀ k : Numeral, k.text ≠ w) : Classified w (.ok (.name w))

theorem classified (w : String) : Classified w (classify w) := by
  cases hw : numeral? w with
  | none =>
    have hname := Numeral.numeral?_eq_none_iff.1 hw
    rw [classify_of_name hname]
    exact .name hname
  | some n =>
    obtain ⟨k, rfl, rfl⟩ := Numeral.numeral?_eq_some_iff.1 hw
    by_cases hrange : -2 ^ 63 ≤ k.value ∧ k.value ≤ 2 ^ 63 - 1
    · have hn : k.value = (Int64.ofInt k.value).toInt :=
        (Int64.toInt_ofInt_of_le hrange.1 (Int.lt_of_le_sub_one hrange.2)).symm
      rw [classify_of_value hn]
      exact .number rfl hn
    · rw [classify_of_not_fits hrange]
      exact .refused rfl hrange

/-- A word is a number if it is a numeral whose value fits a cell, it is refused if it is any other
numeral, and else it is a name. What a word was taken for can be shown, and is then taken for the
same. -/
theorem classify_exact (w : String) :
    (∀ n : Int64, classify w = .ok (.number n) ↔
      ∃ k : Numeral, k.text = w ∧ k.value = n.toInt) ∧
    (∀ f, classify w = .error f ↔ f = ⟨.outOfRange, w⟩ ∧
      ∃ k : Numeral, k.text = w ∧ ¬ (-2 ^ 63 ≤ k.value ∧ k.value ≤ 2 ^ 63 - 1)) ∧
    (∀ name, classify w = .ok (.name name) ↔ name = w ∧ ¬ ∃ k : Numeral, k.text = w) ∧
    ((numeral? w).isSome = true ↔ ∃ k : Numeral, k.text = w) ∧
    (isNumeral w = true ↔ ∃ k : Numeral, k.text = w) ∧
    (∀ l, classify w = .ok l → classify l.render = .ok l) ∧
    ∀ n : Int64, classify (toString n.toInt) = .ok (.number n) := by
  have hw := classified w
  have hnumeral : (numeral? w).isSome = true ↔ ∃ k : Numeral, k.text = w := by
    rw [← not_iff_not, Bool.not_eq_true, Option.isSome_eq_false_iff, Option.isNone_iff_eq_none,
      Numeral.numeral?_eq_none_iff, not_exists]
  refine ⟨fun n => ⟨fun h => ?_, ?_⟩, fun f => ⟨fun h => ?_, ?_⟩, fun name => ⟨fun h => ?_, ?_⟩,
    hnumeral, by rw [isNumeral_eq, hnumeral], fun l h => ?_, classify_toString⟩
  · rw [h] at hw
    cases hw with
    | number hk hn => exact ⟨_, hk, hn⟩
  · rintro ⟨k, rfl, hn⟩
    exact classify_of_value hn
  · rw [h] at hw
    cases hw with
    | refused hk hrange => exact ⟨rfl, _, hk, hrange⟩
  · rintro ⟨rfl, k, rfl, hrange⟩
    exact classify_of_not_fits hrange
  · rw [h] at hw
    cases hw with
    | name hname => exact ⟨rfl, not_exists.2 hname⟩
  · rintro ⟨rfl, hname⟩
    exact classify_of_name (not_exists.1 hname)
  · rw [h] at hw
    cases hw with
    | number hk hn => exact classify_toString _
    | name hname => exact h

example : classify "-9223372036854775808" = .ok (.number Int64.minValue) ∧
    classify "9223372036854775808" = .error ⟨.outOfRange, "9223372036854775808"⟩ ∧
    classify "-007" = .ok (.number (-7)) ∧ classify "+7" = .ok (.name "+7") := by
  decide +kernel

end Lexeme

end CellForth
