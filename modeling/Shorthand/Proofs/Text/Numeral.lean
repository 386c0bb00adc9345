import Shorthand.Text.Numeral

/-! # Numerals and their values

The decimal numeral of a number has this number as its value, and zeros in front of it do not change
that.  Larger numbers have no shorter numerals.
-/
namespace Shorthand.Text

theorem numeralValue_toDigits (n : Nat) : numeralValue (Nat.toDigits 10 n) = n := by
  have value := Nat.ofDigitChars_ten_toDigits (n := n)
  rw [Nat.ofDigitChars_eq_foldl] at value
  simp only [numeralValue, digitValue, Nat.mul_comm _ 10]
  exact value

theorem isDigit_of_mem_toDigits {n : Nat} {c : Char} (mem : c ∈ Nat.toDigits 10 n) :
    c.isDigit = true :=
  Nat.isDigit_of_mem_toDigits (by decide) (by decide) mem

theorem numeralValue_of_zeros {digits : List Char} (zeros : ∀ c ∈ digits, c = '0') :
    numeralValue digits = 0 := by
  rw [List.eq_replicate_of_mem zeros, numeralValue]
  induction digits.length with
  | zero => rfl
  | succ count ih => simpa [List.replicate_succ, digitValue] using ih

theorem of_wordOfDigits? {digits : List Char} {n : Nat} (read : wordOfDigits? digits = some n) :
    (∀ c ∈ digits, c.isDigit = true) ∧ numeralValue digits = n ∧ n ≤ maxWord := by
  unfold wordOfDigits? at read
  split at read
  next => cases read
  next digits =>
    split at read
    next fits =>
      cases read
      simp only [Bool.or_eq_true, Bool.not_eq_true', not_or, Bool.not_eq_false,
        List.all_eq_true] at digits
      exact ⟨digits.2, rfl, fits⟩
    next => cases read

theorem eq_zero_of_digitValue {c : Char} (digit : c.isDigit = true) (zero : digitValue c = 0) :
    c = '0' := by
  simp only [Char.isDigit, ge_iff_le, Bool.and_eq_true, decide_eq_true_eq,
    UInt32.le_iff_toNat_le] at digit
  have low : 48 ≤ c.toNat := digit.1
  have high : c.toNat - 48 = 0 := zero
  exact Char.toNat_inj.1 (show c.toNat = 48 by omega)

theorem zeros_of_foldl_digitValue {digits : List Char} (inside : ∀ c ∈ digits, c.isDigit = true)
    {value : Nat} (zero : digits.foldl (fun value c => value * 10 + digitValue c) value = 0) :
    value = 0 ∧ ∀ c ∈ digits, c = '0' := by
  induction digits generalizing value with
  | nil => exact ⟨zero, by simp⟩
  | cons c rest ih =>
    rw [List.forall_mem_cons] at inside ⊢
    obtain ⟨here, later⟩ := ih inside.2 zero
    have here : value * 10 + digitValue c = 0 := here
    exact ⟨by omega, eq_zero_of_digitValue inside.1 (by omega), later⟩

theorem wordOfDigits?_eq_some {digits : List Char} (nonempty : digits ≠ [])
    (inside : ∀ c ∈ digits, c.isDigit = true) (fits : numeralValue digits ≤ maxWord) :
    wordOfDigits? digits = some (numeralValue digits) := by
  have all : digits.all Char.isDigit = true := List.all_eq_true.2 inside
  rw [wordOfDigits?, if_neg (by simp [nonempty, all]), if_pos fits]

theorem numeralValue_padded (width n : Nat) : numeralValue (padded width n) = n := by
  have zeros : numeralValue (List.replicate (width - (Nat.toDigits 10 n).length) '0') = 0 :=
    numeralValue_of_zeros fun c mem => List.eq_of_mem_replicate mem
  rw [numeralValue] at zeros
  rw [padded, numeralValue, List.foldl_append, zeros, ← numeralValue, numeralValue_toDigits]

theorem length_toDigits_le {a b : Nat} (le : a ≤ b) :
    (Nat.toDigits 10 a).length ≤ (Nat.toDigits 10 b).length := by
  rw [Nat.length_toDigits_le_iff (by decide) Nat.length_toDigits_pos]
  exact Nat.lt_of_le_of_lt le
    ((Nat.length_toDigits_le_iff (by decide) Nat.length_toDigits_pos).1 (Nat.le_refl _))

theorem length_padded (width n : Nat) :
    (padded width n).length = max width (Nat.toDigits 10 n).length := by
  rw [padded, List.length_append, List.length_replicate]
  omega

end Shorthand.Text
