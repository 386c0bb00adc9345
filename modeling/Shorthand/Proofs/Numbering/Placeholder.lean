import Shorthand.Numbering.Placeholder
import Shorthand.Proofs.Text.Numeral

/-! # Placeholders show their number

Whether the placeholders of a template can be replaced depends on their lengths alone, and what they
are replaced by does not.  A template with a placeholder shows different numbers differently.  A digit
behind a placeholder may look like a digit of the number, but a larger number makes no run of `$`
shorter, so that equal results have equal numerals at the same places.
-/
namespace Shorthand.Numbering

open Shorthand.Text

/-- A text with a number in place of its runs of `$`, however long these are. -/
def fill (number : Nat) : Nat → List Char → List Char
  | width, [] => shown number width
  | width, c :: rest =>
    if c = '$' then fill number (width + 1) rest
    else shown number width ++ c :: fill number 0 rest

def substitute (template : String) (number : UInt64) : String :=
  String.ofList (fill number.toNat 0 template.toList)

/-- No run of `$` is longer than a number can be formatted. -/
def Fits (text : List Char) : Prop := ¬List.replicate (maxWidth + 1) '$' <:+: text

instance (text : List Char) : Decidable (Fits text) := inferInstanceAs (Decidable ¬_)

variable {a b : Nat}

/-! ## Lengths of runs -/

theorem fits_replicate_iff {width : Nat} : Fits (List.replicate width '$') ↔ width ≤ maxWidth := by
  rw [Fits, List.infix_replicate_iff, List.length_replicate]
  simp only [and_true]
  omega

theorem fits_of_plain {text : List Char} (plain : '$' ∉ text) : Fits text :=
  fun long => plain (long.subset List.mem_cons_self)

/-- Two texts have no run in common unless the first ends where the second begins with `$`. -/
theorem fits_append_iff {front back : List Char}
    (apart : front.getLast? ≠ some '$' ∨ back.head? ≠ some '$') :
    Fits (front ++ back) ↔ Fits front ∧ Fits back := by
  rw [Fits, Fits, Fits, ← not_or, List.infix_append_iff, ← or_assoc]
  refine not_congr ⟨?_, .inl⟩
  rintro (long | ⟨before, behind, whole, ends, begins⟩)
  · exact long
  rcases List.eq_nil_or_concat before with rfl | ⟨first, last, rfl⟩
  · rw [whole]
    exact .inr begins.isInfix
  cases behind with
  | nil =>
    rw [whole, List.append_nil]
    exact .inl ends.isInfix
  | cons next rest =>
    have dollars : ∀ c ∈ first.concat last ++ next :: rest, c = '$' := fun c mem =>
      List.eq_of_mem_replicate (whole ▸ mem)
    obtain rfl : last = '$' := dollars last (by simp)
    obtain rfl : next = '$' := dollars next (by simp)
    obtain ⟨prior, rfl⟩ := ends
    obtain ⟨later, rfl⟩ := begins
    simp at apart

theorem fits_cons_iff {c : Char} (other : c ≠ '$') {text : List Char} :
    Fits (c :: text) ↔ Fits text := by
  have single : Fits [c] := fits_of_plain (by simpa using Ne.symm other)
  have apart : [c].getLast? ≠ some '$' := by simpa using other
  rw [← List.singleton_append, fits_append_iff (.inl apart)]
  exact and_iff_right single

theorem fill?_eq (number width : Nat) (text : List Char) :
    fill? number width text =
      if Fits (List.replicate width '$' ++ text) then some (fill number width text) else none := by
  induction text generalizing width with
  | nil => simp only [fill?, shown?, fill, List.append_nil, fits_replicate_iff]
  | cons c rest ih =>
    by_cases dollar : c = '$'
    · have joined : List.replicate width '$' ++ c :: rest =
          List.replicate (width + 1) '$' ++ rest := by
        rw [dollar, List.append_cons, ← List.replicate_succ']
      rw [fill?, fill, if_pos dollar, if_pos dollar, ih, joined]
    · have apart : (c :: rest).head? ≠ some '$' := by simpa using dollar
      rw [fill?, fill, if_neg dollar, if_neg dollar, ih, List.replicate_zero, List.nil_append]
      simp only [fits_append_iff (.inr apart), fits_replicate_iff, fits_cons_iff dollar, shown?]
      by_cases short : width ≤ maxWidth <;> by_cases fits : Fits rest <;> simp [short, fits]

/-- A template whose runs of `$` are short enough can be replaced, with any number. -/
theorem substitute?_eq (template : String) (number : UInt64) :
    substitute? template number =
      if Fits template.toList then some (substitute template number) else none := by
  rw [substitute?, fill?_eq, List.replicate_zero, List.nil_append]
  split <;> rfl

theorem substitute?_eq_none_iff {template : String} {number : UInt64} :
    substitute? template number = none ↔ ¬Fits template.toList := by
  rw [substitute?_eq]
  exact ite_eq_right_iff.trans (by simp)

/-- The shortest run of `$` that is too long. -/
def longRun : String := String.ofList (List.replicate (maxWidth + 1) '$')

theorem not_fits_longRun : ¬Fits longRun.toList := by
  rw [longRun, String.toList_ofList, fits_replicate_iff]
  exact Nat.not_succ_le_self maxWidth

/-! ## Filling in a number -/

theorem shown_of_pos {number width : Nat} (positive : 0 < width) :
    shown number width = padded width number :=
  if_neg (Nat.ne_of_gt positive)

theorem fill_replicate (number width more : Nat) (text : List Char) :
    fill number width (List.replicate more '$' ++ text) = fill number (width + more) text := by
  induction more generalizing width with
  | zero => rfl
  | succ more ih =>
    rw [List.replicate_succ, List.cons_append, fill, if_pos rfl, ih]
    congr 1
    omega

theorem fill_plain_append {front : List Char} (plain : '$' ∉ front) (number : Nat)
    (back : List Char) : fill number 0 (front ++ back) = front ++ fill number 0 back := by
  induction front with
  | nil => rfl
  | cons c rest ih =>
    rw [List.mem_cons, not_or] at plain
    rw [List.cons_append, fill, if_neg (Ne.symm plain.1), ih plain.2]
    rfl

theorem fill_of_head?_ne {text : List Char} (ends : text.head? ≠ some '$') (number width : Nat) :
    fill number width text = shown number width ++ fill number 0 text := by
  cases text with
  | nil => rw [fill, fill, show shown number 0 = [] from rfl, List.append_nil]
  | cons c rest =>
    have other : c ≠ '$' := fun dollar => ends (by rw [dollar]; rfl)
    rw [fill, fill, if_neg other, if_neg other]
    rfl

theorem fill_of_plain {text : List Char} (plain : '$' ∉ text) (number : Nat) :
    fill number 0 text = text := by
  simpa [fill, shown] using fill_plain_append plain number []

theorem substitute_of_plain {template : String} (plain : '$' ∉ template.toList) (number : UInt64) :
    substitute template number = template := by
  rw [substitute, fill_of_plain plain, String.ofList_toList]

theorem length_shown_le (le : a ≤ b) (width : Nat) :
    (shown a width).length ≤ (shown b width).length := by
  unfold shown
  split
  next => exact Nat.le_refl _
  next =>
    have := length_toDigits_le le
    rw [length_padded, length_padded]
    omega

theorem length_fill_le (le : a ≤ b) (width : Nat) (text : List Char) :
    (fill a width text).length ≤ (fill b width text).length := by
  induction text generalizing width with
  | nil => exact length_shown_le le width
  | cons c rest ih =>
    rw [fill, fill]
    split
    next => exact ih (width + 1)
    next =>
      have := length_shown_le le width
      have := ih 0
      rw [List.length_append, List.length_append, List.length_cons, List.length_cons]
      omega

theorem shown_inj {width : Nat} (positive : 0 < width) (same : shown a width = shown b width) :
    a = b := by
  rw [shown, shown, if_neg (Nat.ne_of_gt positive), if_neg (Nat.ne_of_gt positive)] at same
  rw [← numeralValue_padded width a, same, numeralValue_padded]

theorem fill_inj (le : a ≤ b) {width : Nat} {text : List Char}
    (placeholder : 0 < width ∨ '$' ∈ text) (same : fill a width text = fill b width text) :
    a = b := by
  induction text generalizing width with
  | nil => exact shown_inj (by simpa using placeholder) same
  | cons c rest ih =>
    by_cases dollar : c = '$'
    · rw [fill, fill, if_pos dollar, if_pos dollar] at same
      exact ih (.inl (Nat.succ_pos width)) same
    · rw [fill, fill, if_neg dollar, if_neg dollar] at same
      have lengths := congrArg List.length same
      have here := length_shown_le le width
      have later := length_fill_le le 0 rest
      rw [List.length_append, List.length_append, List.length_cons, List.length_cons] at lengths
      obtain ⟨shown, behind⟩ := List.append_inj same (by omega)
      by_cases positive : 0 < width
      · exact shown_inj positive shown
      · refine ih (.inr ?_) (List.cons.inj behind).2
        rcases placeholder with width | mem
        · exact absurd width positive
        · rcases List.mem_cons.1 mem with rfl | mem
          · exact absurd rfl dollar
          · exact mem

theorem substitute_inj {template : String} (placeholder : '$' ∈ template.toList) {a b : UInt64}
    (same : substitute template a = substitute template b) : a = b := by
  have filled : fill a.toNat 0 template.toList = fill b.toNat 0 template.toList :=
    String.ofList_injective same
  rcases Nat.le_total a.toNat b.toNat with le | le
  · exact UInt64.toNat_inj.1 (fill_inj le (.inr placeholder) filled)
  · exact UInt64.toNat_inj.1 (fill_inj le (.inr placeholder) filled.symm).symm

/-- If a run of `$` is too long, a template is replaced with no number, and the numbers are all alike. -/
theorem injective_substitute?_iff {template : String} (placeholder : '$' ∈ template.toList) :
    (∀ a b, substitute? template a = substitute? template b → a = b) ↔ Fits template.toList := by
  constructor
  · intro different
    refine Decidable.byContradiction fun wide => absurd (different 0 1 ?_) (by decide)
    rw [substitute?_eq_none_iff.2 wide, substitute?_eq_none_iff.2 wide]
  · intro fits a b same
    rw [substitute?_eq, substitute?_eq, if_pos fits, if_pos fits] at same
    exact substitute_inj placeholder (Option.some.inj same)

end Shorthand.Numbering
