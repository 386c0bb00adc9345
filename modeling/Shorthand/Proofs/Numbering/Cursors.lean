import Shorthand.Numbering.Modifier
import Shorthand.Proofs.Text.Bytes
import Shorthand.Proofs.Text.Words

/-! # Modifiers at byte positions

A modifier can be read from the bytes of a text alone: a cursor stands right behind its `@`, and the
same sign, digits and colon are found there as among the characters.  It ends between characters, since
all that a modifier consists of takes up one byte each.
-/
namespace Shorthand.Numbering

open Shorthand.Text

/-! ## Cursors over bytes -/

/-- The first position from `cursor` on whose byte fails a test, or the end of the bytes. -/
def skipWhile (test : UInt8 → Bool) (bytes : List UInt8) (cursor : Nat) : Nat :=
  if inside : cursor < bytes.length then
    if test bytes[cursor] then skipWhile test bytes (cursor + 1) else cursor
  else cursor
termination_by bytes.length - cursor

def isDigitByte (byte : UInt8) : Bool := '0'.toUInt8 ≤ byte && byte ≤ '9'.toUInt8

def signAt (bytes : List UInt8) (cursor : Nat) : Bool × Nat :=
  if bytes[cursor]? = some '-'.toUInt8 then (true, cursor + 1) else (false, cursor)

def digitsAt (bytes : List UInt8) (cursor : Nat) : Option UInt64 × Nat :=
  let stop := skipWhile isDigitByte bytes cursor
  if stop = cursor then (none, cursor)
  else (some (cappedWord ((bytes.extract cursor stop).map Char.ofUInt8)), stop)

def startAt (bytes : List UInt8) (cursor : Nat) : UInt64 × Nat :=
  let found := digitsAt bytes cursor
  (found.1.getD 1, found.2)

/-- Without digits behind it, a colon is left where it is. -/
def stepAt (bytes : List UInt8) (cursor : Nat) : UInt64 × Nat :=
  if bytes[cursor]? = some ':'.toUInt8 then
    match digitsAt bytes (cursor + 1) with
    | (some step, next) => (step, next)
    | (none, _) => (1, cursor)
  else (1, cursor)

def modifierAt (bytes : List UInt8) (cursor : Nat) : Numbering × Nat :=
  let (reversed, unsigned) := signAt bytes cursor
  let (start, behind) := startAt bytes unsigned
  let (step, next) := stepAt bytes behind
  ({ start, step, reversed }, next)

theorem le_skipWhile (test : UInt8 → Bool) (bytes : List UInt8) (cursor : Nat) :
    cursor ≤ skipWhile test bytes cursor := by
  fun_induction skipWhile test bytes cursor with
  | case1 cursor inside found ih => exact Nat.le_of_succ_le ih
  | case2 => exact Nat.le_refl _
  | case3 => exact Nat.le_refl _

theorem lt_skipWhile {test : UInt8 → Bool} {bytes : List UInt8} {cursor : Nat}
    (inside : cursor < bytes.length) (found : test bytes[cursor] = true) :
    cursor < skipWhile test bytes cursor := by
  rw [skipWhile, dif_pos inside, if_pos found]
  exact le_skipWhile test bytes (cursor + 1)

theorem digitsAt_snd (bytes : List UInt8) (cursor : Nat) :
    (digitsAt bytes cursor).2 = skipWhile isDigitByte bytes cursor := by
  unfold digitsAt
  dsimp only
  split
  next none => exact none.symm
  next => rfl

theorem le_modifierAt (bytes : List UInt8) (cursor : Nat) :
    cursor ≤ (modifierAt bytes cursor).2 := by
  have sign : cursor ≤ (signAt bytes cursor).2 := by
    unfold signAt
    split
    next => exact Nat.le_succ cursor
    next => exact Nat.le_refl cursor
  have digits (cursor : Nat) : cursor ≤ (digitsAt bytes cursor).2 := by
    rw [digitsAt_snd]
    exact le_skipWhile ..
  have step (cursor : Nat) : cursor ≤ (stepAt bytes cursor).2 := by
    have behind := digits (cursor + 1)
    unfold stepAt
    split
    · split
      next next found =>
        rw [found] at behind
        exact Nat.le_of_succ_le behind
      next => exact Nat.le_refl cursor
    · exact Nat.le_refl cursor
  exact Nat.le_trans sign (Nat.le_trans (digits _) (step _))

/-! ## Bytes and characters -/

theorem finds_digit : Finds isDigitByte Char.isDigit where
  narrow _ digit := utf8Size_of_isDigit digit
  test_toUInt8 c narrow := by
    have low : '0'.toUInt8.toNat = 48 := rfl
    have high : '9'.toUInt8.toNat = 57 := rfl
    simp only [isDigitByte, Char.isDigit, UInt8.le_iff_toNat_le, toNat_toUInt8 narrow, low, high,
      UInt32.le_iff_toNat_le, ge_iff_le]
    rfl
  test_of_le byte high := by
    have nine : '9'.toUInt8.toNat = 57 := rfl
    have limit : (128 : UInt8).toNat = 128 := rfl
    rw [UInt8.le_iff_toNat_le, limit] at high
    simp only [isDigitByte, UInt8.le_iff_toNat_le, nine, Bool.and_eq_false_iff,
      decide_eq_false_iff_not]
    omega

/-- What is found at a byte position of a text and what is read from the characters behind it agree,
also on where they end. -/
def Agree {α : Type} (text : List Char) (found : α × Nat) (read : α × List Char) : Prop :=
  found.1 = read.1 ∧ RestAt text found.2 read.2

variable {text rest : List Char} {cursor : Nat}

theorem skipWhile_eq {test : UInt8 → Bool} {inClass : Char → Bool} (finds : Finds test inClass)
    (h : RestAt text cursor rest) :
    skipWhile test (encoded text) cursor = cursor + byteSize (rest.takeWhile inClass) := by
  induction rest generalizing cursor with
  | nil =>
    have ends : ¬ cursor < (encoded text).length := by
      rw [← h.size]
      exact Nat.lt_irrefl _
    rw [skipWhile, dif_neg ends]
    rfl
  | cons c rest ih =>
    have inside : cursor < (encoded text).length := by
      rw [← h.size, byteSize]
      have := c.utf8Size_pos
      omega
    obtain ⟨byte, tail, bytes, same⟩ := finds.exists_first c
    have here : (encoded text)[cursor] = byte := by
      have first := h.getElem? 0
      rw [encoded_cons, bytes] at first
      exact (List.getElem?_eq_some_iff.1 first).2
    rw [skipWhile, dif_pos inside, here, same]
    split
    next found =>
      have later : RestAt text (cursor + 1) rest := by
        have behind : RestAt text (cursor + c.utf8Size) rest := h.tail
        rwa [finds.narrow c found] at behind
      rw [ih later, List.takeWhile_cons_of_pos found, byteSize, finds.narrow c found]
      omega
    next found =>
      rw [List.takeWhile_cons_of_neg found]
      rfl

theorem restAt_skipWhile {test : UInt8 → Bool} {inClass : Char → Bool} (finds : Finds test inClass)
    (h : RestAt text cursor rest) :
    RestAt text (skipWhile test (encoded text) cursor) (rest.dropWhile inClass) := by
  rw [skipWhile_eq finds h]
  rw [← List.takeWhile_append_dropWhile (p := inClass) (l := rest)] at h
  exact h.advance

theorem agree_signAt (h : RestAt text cursor rest) :
    Agree text (signAt (encoded text) cursor) (readSign rest) := by
  have minus := h.getElem?_eq_some_iff (c := '-') rfl
  unfold signAt readSign
  split
  next found =>
    obtain ⟨behind, rfl⟩ := List.head?_eq_some_iff.1 (minus.1 found)
    exact ⟨rfl, h.tail⟩
  next found =>
    split
    next => exact absurd (minus.2 rfl) found
    next => exact ⟨rfl, h⟩

theorem digitsAt_fst (h : RestAt text cursor rest) :
    (digitsAt (encoded text) cursor).1 =
      if rest.takeWhile Char.isDigit = [] then none
      else some (cappedWord (rest.takeWhile Char.isDigit)) := by
  have stop := skipWhile_eq finds_digit h
  have inside : ∀ c ∈ rest.takeWhile Char.isDigit, c.utf8Size = 1 := fun c mem =>
    finds_digit.narrow c (List.all_eq_true.1 List.all_takeWhile c mem)
  have whole : encoded rest =
      encoded (rest.takeWhile Char.isDigit) ++ encoded (rest.dropWhile Char.isDigit) := by
    rw [← encoded_append, List.takeWhile_append_dropWhile]
  have bytes : (encoded text).extract cursor (skipWhile isDigitByte (encoded text) cursor) =
      encoded (rest.takeWhile Char.isDigit) := by
    rw [List.extract_eq_take_drop, h.drop_encoded, stop, Nat.add_sub_cancel_left, ← length_encoded,
      whole, List.take_left]
  unfold digitsAt
  dsimp only
  rw [bytes, map_ofUInt8_encoded inside]
  by_cases none : rest.takeWhile Char.isDigit = []
  · rw [if_pos none, if_pos (by rw [stop, none]; rfl)]
  · rw [if_neg none, if_neg]
    rw [stop]
    exact Nat.ne_of_gt (lt_add_byteSize none cursor)

theorem restAt_digitsAt (h : RestAt text cursor rest) :
    RestAt text (digitsAt (encoded text) cursor).2 (rest.dropWhile Char.isDigit) := by
  rw [digitsAt_snd]
  exact restAt_skipWhile finds_digit h

theorem agree_startAt (h : RestAt text cursor rest) :
    Agree text (startAt (encoded text) cursor) (readStart rest) := by
  refine ⟨?_, restAt_digitsAt h⟩
  simp only [startAt, readStart, digitsAt_fst h, List.isEmpty_iff]
  split
  next => rfl
  next => rfl

theorem agree_stepAt (h : RestAt text cursor rest) :
    Agree text (stepAt (encoded text) cursor) (readStep rest) := by
  have colon := h.getElem?_eq_some_iff (c := ':') rfl
  unfold stepAt readStep
  split
  next found =>
    obtain ⟨behind, rfl⟩ := List.head?_eq_some_iff.1 (colon.1 found)
    have later : RestAt text (cursor + 1) behind := h.tail
    have digits := digitsAt_fst later
    have ends := restAt_digitsAt later
    simp only [List.isEmpty_iff]
    split
    next step next read =>
      rw [read] at digits ends
      split
      next none => simp [none] at digits
      next some =>
        rw [if_neg some] at digits
        exact ⟨Option.some.inj digits, ends⟩
    next read =>
      rw [read] at digits
      split
      next => exact ⟨rfl, h⟩
      next some => simp [some] at digits
  next found =>
    split
    next => exact absurd (colon.2 rfl) found
    next => exact ⟨rfl, h⟩

/-- By bytes and by characters, the same modifiers are read. -/
theorem agree_modifierAt (h : RestAt text cursor rest) :
    Agree text (modifierAt (encoded text) cursor) (readModifier rest) := by
  obtain ⟨sign, unsigned⟩ := agree_signAt h
  obtain ⟨start, behind⟩ := agree_startAt unsigned
  obtain ⟨step, ends⟩ := agree_stepAt behind
  refine ⟨?_, ends⟩
  simp only [modifierAt, readModifier, sign, start, step]

end Shorthand.Numbering
