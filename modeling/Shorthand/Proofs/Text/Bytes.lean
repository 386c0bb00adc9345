import Shorthand.Proofs.Span

/-! # Texts as bytes

A byte position between two characters leaves the characters behind it to read.  The byte there tells
whether a character that takes up one byte stands behind it: no byte of a wider character looks like
one.
-/
namespace Shorthand.Text

def encoded (text : List Char) : List UInt8 := text.flatMap String.utf8EncodeChar

theorem toByteArray_eq_encoded (text : String) :
    text.toByteArray.data.toList = encoded text.toList := by
  have whole : text.toByteArray = text.toList.utf8Encode := by
    rw [← String.toByteArray_ofList, String.ofList_toList]
  rw [whole, List.utf8Encode, List.toList_data_toByteArray]
  rfl

theorem encoded_cons (c : Char) (rest : List Char) :
    encoded (c :: rest) = String.utf8EncodeChar c ++ encoded rest := List.flatMap_cons

theorem encoded_append (front back : List Char) :
    encoded (front ++ back) = encoded front ++ encoded back := List.flatMap_append

theorem length_encoded (text : List Char) : (encoded text).length = byteSize text := by
  induction text with
  | nil => rfl
  | cons c rest ih =>
    rw [encoded_cons, List.length_append, String.length_utf8EncodeChar, ih, byteSize]

/-! ## Characters of one byte -/

theorem utf8EncodeChar_of_narrow {c : Char} (narrow : c.utf8Size = 1) :
    String.utf8EncodeChar c = [c.toUInt8] := String.utf8EncodeChar_eq_singleton narrow

theorem toNat_le_of_narrow {c : Char} (narrow : c.utf8Size = 1) : c.toNat ≤ 127 :=
  UInt32.le_iff_toNat_le.1 (Char.utf8Size_eq_one_iff.1 narrow)

theorem toNat_toUInt8 {c : Char} (narrow : c.utf8Size = 1) : c.toUInt8.toNat = c.toNat := by
  have small : c.toNat ≤ 127 := toNat_le_of_narrow narrow
  have wraps : c.toUInt8.toNat = c.toNat % 256 := UInt32.toNat_toUInt8 c.val
  omega

theorem toUInt8_inj {c d : Char} (narrow : c.utf8Size = 1) (narrow' : d.utf8Size = 1) :
    c.toUInt8 = d.toUInt8 ↔ c = d := by
  rw [← UInt8.toNat_inj, toNat_toUInt8 narrow, toNat_toUInt8 narrow', Char.toNat_inj]

theorem map_ofUInt8_encoded {text : List Char} (narrow : ∀ c ∈ text, c.utf8Size = 1) :
    (encoded text).map Char.ofUInt8 = text := by
  induction text with
  | nil => rfl
  | cons c rest ih =>
    obtain ⟨here, later⟩ := List.forall_mem_cons.1 narrow
    have back : Char.ofUInt8 c.toUInt8 = c := by
      rw [← Char.toNat_inj, ← toNat_toUInt8 here]
      exact UInt8.toNat_toUInt32 c.toUInt8
    rw [encoded_cons, utf8EncodeChar_of_narrow here, List.singleton_append, List.map_cons, back,
      ih later]

theorem le_ofNat {n : Nat} (high : 128 ≤ n) (low : n < 256) : 128 ≤ UInt8.ofNat n := by
  rw [UInt8.le_iff_toNat_le, UInt8.toNat_ofNat_of_lt' low]
  exact high

/-- The bytes of a wider character are beyond those of the characters that take up one. -/
theorem le_of_mem_utf8EncodeChar {c : Char} (wide : c.utf8Size ≠ 1) {byte : UInt8}
    (mem : byte ∈ String.utf8EncodeChar c) : 128 ≤ byte := by
  have large : ¬ c.val.toNat ≤ 127 := fun small =>
    wide (Char.utf8Size_eq_one_iff.2 (UInt32.le_iff_toNat_le.2 small))
  simp only [String.utf8EncodeChar, if_neg large] at mem
  split at mem
  next =>
    simp only [List.mem_cons, List.not_mem_nil, or_false] at mem
    rcases mem with rfl | rfl <;> exact le_ofNat (by omega) (by omega)
  next =>
    split at mem
    next =>
      simp only [List.mem_cons, List.not_mem_nil, or_false] at mem
      rcases mem with rfl | rfl | rfl <;> exact le_ofNat (by omega) (by omega)
    next =>
      simp only [List.mem_cons, List.not_mem_nil, or_false] at mem
      rcases mem with rfl | rfl | rfl | rfl <;> exact le_ofNat (by omega) (by omega)

/-- A test of bytes that finds the characters of a class. -/
structure Finds (test : UInt8 → Bool) (inClass : Char → Bool) : Prop where
  narrow : ∀ c, inClass c = true → c.utf8Size = 1
  test_toUInt8 : ∀ c, c.utf8Size = 1 → test c.toUInt8 = inClass c
  test_of_le : ∀ byte, 128 ≤ byte → test byte = false

theorem finds_char {c : Char} (narrow : c.utf8Size = 1) :
    Finds (· == c.toUInt8) (· == c) where
  narrow d same := by rwa [eq_of_beq same]
  test_toUInt8 d narrow' := by
    rw [Bool.eq_iff_iff, beq_iff_eq, beq_iff_eq, toUInt8_inj narrow' narrow]
  test_of_le byte high := by
    rw [beq_eq_false_iff_ne]
    rintro rfl
    rw [UInt8.le_iff_toNat_le, toNat_toUInt8 narrow] at high
    have small : c.toNat ≤ 127 := toNat_le_of_narrow narrow
    have limit : (128 : UInt8).toNat = 128 := rfl
    omega

theorem Finds.exists_first {test : UInt8 → Bool} {inClass : Char → Bool}
    (finds : Finds test inClass) (c : Char) :
    ∃ byte tail, String.utf8EncodeChar c = byte :: tail ∧ test byte = inClass c := by
  by_cases narrow : c.utf8Size = 1
  · exact ⟨_, _, utf8EncodeChar_of_narrow narrow, finds.test_toUInt8 c narrow⟩
  · cases bytes : String.utf8EncodeChar c with
    | nil =>
      have positive := c.utf8Size_pos
      rw [← String.length_utf8EncodeChar, bytes] at positive
      exact absurd positive (Nat.lt_irrefl 0)
    | cons byte tail =>
      have high : 128 ≤ byte := le_of_mem_utf8EncodeChar narrow (bytes ▸ List.mem_cons_self)
      refine ⟨byte, tail, rfl, ?_⟩
      rw [finds.test_of_le byte high, Bool.eq_false_iff.2 (mt (finds.narrow c) narrow)]

/-! ## Positions in a text -/

/-- The characters behind a byte position of a text. -/
def RestAt (text : List Char) (cursor : Nat) (rest : List Char) : Prop :=
  ∃ front, text = front ++ rest ∧ byteSize front = cursor

namespace RestAt

variable {text rest : List Char} {cursor : Nat}

theorem zero (text : List Char) : RestAt text 0 text := ⟨[], rfl, rfl⟩

theorem advance {front : List Char} (h : RestAt text cursor (front ++ rest)) :
    RestAt text (cursor + byteSize front) rest := by
  obtain ⟨before, rfl, rfl⟩ := h
  exact ⟨before ++ front, (List.append_assoc ..).symm, byteSize_append ..⟩

theorem tail {c : Char} (h : RestAt text cursor (c :: rest)) :
    RestAt text (cursor + c.utf8Size) rest := by
  have behind : RestAt text (cursor + byteSize [c]) rest := advance h
  rwa [byteSize, byteSize_nil] at behind

theorem size (h : RestAt text cursor rest) : cursor + byteSize rest = (encoded text).length := by
  obtain ⟨front, rfl, rfl⟩ := h
  rw [length_encoded, byteSize_append]

theorem drop_encoded (h : RestAt text cursor rest) : (encoded text).drop cursor = encoded rest := by
  obtain ⟨front, rfl, rfl⟩ := h
  rw [encoded_append, ← length_encoded, List.drop_left]

theorem getElem? (h : RestAt text cursor rest) (offset : Nat) :
    (encoded text)[cursor + offset]? = (encoded rest)[offset]? := by
  rw [← h.drop_encoded, List.getElem?_drop]

/-- The byte at a position tells the character behind it. -/
theorem getElem?_eq_some_iff (h : RestAt text cursor rest) {c : Char} (narrow : c.utf8Size = 1) :
    (encoded text)[cursor]? = some c.toUInt8 ↔ rest.head? = some c := by
  have byte : (encoded text)[cursor]? = (encoded rest)[0]? := h.getElem? 0
  rw [byte]
  cases rest with
  | nil => simp [encoded]
  | cons d rest =>
    obtain ⟨first, tail, bytes, found⟩ := (finds_char narrow).exists_first d
    rw [Bool.eq_iff_iff, beq_iff_eq, beq_iff_eq] at found
    simp [encoded_cons, bytes, found]

end RestAt

end Shorthand.Text
