import CellForth.Dictionary
import CellForth.Proofs.Casing
import CellForth.Text.Utf8

/-!
# The dictionary after any definitions

`Dictionary.defining` is the dictionary that definitions lead to, one after the other. What it knows
of a name is told by the definitions alone: the newest one whose name has the same lower case
(`getElem?_defining`). Main statement: the dictionary is such a map, and `names` lists its keys
(`last_definition_wins`).

The keys are kept in the order of their characters. That is the order of their bytes as well, since
the bytes of a character are in the order of the characters, whatever follows them
(`Utf8.utf8EncodeChar_append_lt`).
-/

namespace CellForth

/-! ## The order of bytes -/

namespace Utf8

/-- Bytes are compared from the first one on. -/
theorem ofNat_cons_lt_iff {a b : Nat} (ha : a < 256) (hb : b < 256) (x y : List UInt8) :
    UInt8.ofNat a :: x < UInt8.ofNat b :: y ↔ a < b ∨ a = b ∧ x < y := by
  have hlt : UInt8.ofNat a < UInt8.ofNat b ↔ a < b := by
    rw [UInt8.lt_iff_toNat_lt, UInt8.toNat_ofNat_of_lt' ha, UInt8.toNat_ofNat_of_lt' hb]
  have heq : UInt8.ofNat a = UInt8.ofNat b ↔ a = b := by
    rw [← UInt8.toNat_inj, UInt8.toNat_ofNat_of_lt' ha, UInt8.toNat_ofNat_of_lt' hb]
  rw [List.cons_lt_cons_iff, hlt, heq]

/-- The bytes of characters are in the order of the characters, whatever follows. -/
theorem utf8EncodeChar_append_lt {c d : Char} (h : c < d) (x y : List UInt8) :
    String.utf8EncodeChar c ++ x < String.utf8EncodeChar d ++ y := by
  have hlt : c.val.toNat < d.val.toNat := h
  have hd : d.val.toNat.isValidChar := d.valid
  simp only [String.utf8EncodeChar]
  generalize c.val.toNat = v, d.val.toNat = w at hlt hd
  unfold Nat.isValidChar at hd
  have hsix : ∀ n, n / 4096 = n / 64 / 64 ∧ n / 262144 = n / 64 / 64 / 64 := by
    intro n
    simp only [Nat.div_div_eq_div_mul, and_self]
  rw [(hsix v).1, (hsix v).2, (hsix w).1, (hsix w).2]
  -- a longer sequence has the larger first byte, and in one of the same length every byte after
  -- the first holds six more bits of the character
  repeat' split
  all_goals simp only [List.cons_append, List.nil_append]
  all_goals simp (disch := omega) only [ofNat_cons_lt_iff]
  all_goals omega

/-- Texts are in the order of their bytes, character by character. -/
theorem flatMap_lt_flatMap {cs ds : List Char} (h : cs < ds) :
    cs.flatMap String.utf8EncodeChar < ds.flatMap String.utf8EncodeChar := by
  induction cs generalizing ds with
  | nil =>
    cases ds with
    | nil => exact absurd h (List.lt_irrefl _)
    | cons d ds =>
      obtain ⟨b, bytes, hbytes⟩ := List.exists_cons_of_ne_nil (utf8EncodeChar_ne_nil d)
      rw [List.flatMap_nil, List.flatMap_cons, hbytes, List.cons_append]
      exact List.nil_lt_cons _ _
  | cons c cs ih =>
    cases ds with
    | nil => cases h
    | cons d ds =>
      rw [List.flatMap_cons, List.flatMap_cons]
      rcases List.cons_lt_cons_iff.1 h with hlt | ⟨rfl, hlt⟩
      · exact utf8EncodeChar_append_lt hlt _ _
      · exact List.append_left_lt (ih hlt)

/-- Texts and their bytes are in the same order. -/
theorem encode_lt_encode {s t : String} (h : s < t) : encode s < encode t :=
  flatMap_lt_flatMap (String.lt_iff.1 h)

end Utf8

/-! ## Definitions -/

namespace Dictionary

/-- The dictionary after definitions, given newest first. -/
def defining (definitions : List Entry) : Dictionary :=
  definitions.foldr (fun e d => d.define e.name e.token e.immediate) empty

variable {definitions : List Entry}

/-- Under a key there is the newest entry whose name has it as its lower case. -/
theorem getElem?_defining (definitions : List Entry) (key : String) :
    (defining definitions).entries[key]? =
      definitions.find? fun e => Text.lowercase e.name = key := by
  induction definitions with
  | nil => simp [defining, empty]
  | cons e earlier ih =>
    have hentries : (defining (e :: earlier)).entries =
        (defining earlier).entries.insert (Text.lowercase e.name) e := rfl
    rw [hentries, Std.TreeMap.getElem?_insert, ih, List.find?_cons]
    by_cases hkey : Text.lowercase e.name = key <;> simp [hkey]

theorem mem_names_iff (d : Dictionary) (key : String) :
    key ∈ d.names ↔ ∃ e, d.entries[key]? = some e := by
  rw [names, Std.TreeMap.mem_keys, Std.TreeMap.mem_iff_isSome_getElem?, Option.isSome_iff_exists]

theorem mem_names_defining (key : String) :
    key ∈ (defining definitions).names ↔ ∃ e ∈ definitions, Text.lowercase e.name = key := by
  rw [mem_names_iff, getElem?_defining, ← Option.isSome_iff_exists, List.find?_isSome]
  simp

/-- The keys are in the order of their bytes. -/
theorem names_ascending (d : Dictionary) :
    d.names.Pairwise fun k k' => Utf8.encode k < Utf8.encode k' := by
  have hkeys : d.names.Pairwise fun k k' => compare k k' = .lt := Std.TreeMap.ordered_keys
  exact hkeys.imp fun hlt => Utf8.encode_lt_encode (compareOfLessAndEq_eq_lt.1 hlt)

/-- A key is found under itself: it is its own lower case. -/
theorem find?_of_mem_names {key : String} (h : key ∈ (defining definitions).names) :
    (defining definitions).find? key = (defining definitions).entries[key]? := by
  obtain ⟨e, -, rfl⟩ := (mem_names_defining key).1 h
  rw [find?, Text.lowercase_lowercase]

/-- What a dictionary is after definitions, given newest first. -/
structure Reflects (definitions : List Entry) (d : Dictionary) : Prop where
  find : ∀ name, d.find? name =
    definitions.find? fun e => Text.lowercase e.name = Text.lowercase name
  undefined : ∀ name, d.find? name = none ↔
    ∀ e ∈ definitions, Text.lowercase e.name ≠ Text.lowercase name
  ascending : d.names.Pairwise fun k k' => Utf8.encode k < Utf8.encode k'
  listed : ∀ key, key ∈ d.names ↔ ∃ e ∈ definitions, Text.lowercase e.name = key
  length : d.names.length = d.size
  found : ∀ key ∈ d.names, ∃ e, d.entries[key]? = some e ∧ d.find? key = some e
  anyCase : ∀ name name', Text.SameLetters name name' → d.find? name = d.find? name'

/-- A dictionary made by definitions tells the last one for each name, whatever its case. -/
theorem last_definition_wins (definitions : List Entry) :
    Reflects definitions (defining definitions) where
  find name := getElem?_defining definitions (Text.lowercase name)
  undefined name := by
    rw [find?, getElem?_defining, List.find?_eq_none]
    simp
  ascending := names_ascending _
  listed := mem_names_defining
  length := Std.TreeMap.length_keys
  found key hkey := by
    obtain ⟨e, he⟩ := (mem_names_iff _ key).1 hkey
    exact ⟨e, he, (find?_of_mem_names hkey).trans he⟩
  anyCase name name' h := by
    rw [find?, find?, Text.lowercase_congr h]

end Dictionary

end CellForth
