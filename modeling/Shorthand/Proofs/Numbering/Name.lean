import Shorthand.Proofs.Numbering.Modifier
import Shorthand.Proofs.Numbering.Placeholder
import Shorthand.Proofs.Text.Numeral
import Shorthand.Proofs.Token.Display
import Shorthand.TagName

/-! # Names with numbers

In a name, every `@` belongs to a modifier and every `$` to a placeholder.  Without its modifiers and
with a number in place of its placeholders, a name is a tag name.
-/
namespace Shorthand.Numbering

open Shorthand.Text Shorthand.Lexer

/-! ## Taking out modifiers -/

theorem stripFrom_sublist (afterDollar : Bool) (text : List Char) :
    (stripFrom afterDollar text).1.Sublist text := by
  fun_induction stripFrom afterDollar text with
  | case1 => exact .refl []
  | case2 afterDollar c rest here found kept modifiers next ih =>
    rw [next] at ih
    exact (ih.trans (suffix_readModifier rest).sublist).cons c
  | case3 afterDollar c rest here kept modifiers next ih =>
    rw [next] at ih
    exact ih.cons_cons c

theorem looseModifier?_tail {afterDollar : Bool} {c : Char} {rest : List Char}
    (tight : looseModifier? afterDollar (c :: rest) = none) (noDollar : c ≠ '$') :
    looseModifier? false rest = none := by
  rw [looseModifier?] at tight
  split at tight
  next => cases tight
  next => rwa [Option.map_eq_none_iff, beq_eq_false_iff_ne.2 noDollar] at tight

theorem looseModifier?_dropDigits {text : List Char} (tight : looseModifier? false text = none) :
    looseModifier? false (text.dropWhile Char.isDigit) = none := by
  induction text with
  | nil => exact tight
  | cons c rest ih =>
    by_cases digit : c.isDigit = true
    · have noDollar : c ≠ '$' := by
        rintro rfl
        exact absurd digit (by decide)
      rw [List.dropWhile_cons_of_pos digit]
      exact ih (looseModifier?_tail tight noDollar)
    · rwa [List.dropWhile_cons_of_neg digit]

/-- Behind a modifier, no `$` stands right before the text. -/
theorem looseModifier?_readModifier {text : List Char} (tight : looseModifier? false text = none) :
    looseModifier? false (readModifier text).2 = none := by
  have unsigned : looseModifier? false (readSign text).2 = none := by
    unfold readSign
    split
    next => exact looseModifier?_tail tight (by decide)
    next => exact tight
  have behind : looseModifier? false (readStart (readSign text).2).2 = none :=
    looseModifier?_dropDigits unsigned
  have stepped {behind : List Char} (tight : looseModifier? false behind = none) :
      looseModifier? false (readStep behind).2 = none := by
    unfold readStep
    split
    next rest =>
      dsimp only
      split
      next => exact tight
      next => exact looseModifier?_dropDigits (looseModifier?_tail tight (by decide))
    next => exact tight
  exact stepped behind

/-- What is left of a text has no `@` if all of them follow a `$`. -/
theorem at_not_mem_stripFrom {afterDollar : Bool} {text : List Char}
    (tight : looseModifier? afterDollar text = none) : '@' ∉ (stripFrom afterDollar text).1 := by
  fun_induction stripFrom afterDollar text with
  | case1 => simp
  | case2 afterDollar c rest here found kept modifiers next ih =>
    rw [next] at ih
    rw [Bool.and_eq_true, beq_iff_eq] at here
    exact ih (looseModifier?_readModifier (looseModifier?_tail tight (by rw [here.2]; decide)))
  | case3 afterDollar c rest here kept modifiers next ih =>
    rw [next] at ih
    rw [looseModifier?] at tight
    split at tight
    next => cases tight
    next loose =>
      rw [List.mem_cons, not_or]
      refine ⟨?_, ih (Option.map_eq_none_iff.1 tight)⟩
      rintro rfl
      cases afterDollar <;> simp_all

theorem stripFrom_ne_nil {text : List Char} (nonempty : text ≠ []) :
    (stripFrom false text).1 ≠ [] := by
  cases text with
  | nil => exact absurd rfl nonempty
  | cons c rest =>
    rw [stripFrom, if_neg (by simp)]
    exact List.cons_ne_nil _ _

theorem word_of_mem_strip {name : String} (h : IsName name.toList) {c : Char}
    (mem : c ∈ (strip name).1.toList) : isWordChar c = true ∧ c ≠ '@' := by
  rw [strip, String.toList_ofList] at mem
  refine ⟨h.inside c ((stripFrom_sublist false name.toList).subset mem), ?_⟩
  rintro rfl
  exact at_not_mem_stripFrom h.modifiers mem

theorem toList_strip_ne_nil {name : String} (h : IsName name.toList) :
    (strip name).1.toList ≠ [] := by
  rw [strip, String.toList_ofList]
  exact stripFrom_ne_nil h.nonempty

/-! ## Filling in numbers -/

theorem isDigit_of_mem_shown {number width : Nat} {c : Char} (mem : c ∈ shown number width) :
    c.isDigit = true := by
  unfold shown at mem
  split at mem
  next => cases mem
  next =>
    rw [padded, List.mem_append, List.mem_replicate] at mem
    rcases mem with ⟨-, rfl⟩ | mem
    · decide
    · exact isDigit_of_mem_toDigits mem

theorem mem_fill {number width : Nat} {text : List Char} {c : Char}
    (mem : c ∈ fill number width text) : c.isDigit = true ∨ c ∈ text ∧ c ≠ '$' := by
  induction text generalizing width with
  | nil => exact .inl (isDigit_of_mem_shown mem)
  | cons d rest ih =>
    rw [fill] at mem
    split at mem
    next => exact (ih mem).imp_right (And.imp_left (List.mem_cons_of_mem d))
    next noDollar =>
      rcases List.mem_append.1 mem with mem | mem
      · exact .inl (isDigit_of_mem_shown mem)
      · rcases List.mem_cons.1 mem with rfl | mem
        · exact .inr ⟨List.mem_cons_self, noDollar⟩
        · exact (ih mem).imp_right (And.imp_left (List.mem_cons_of_mem d))

theorem dollar_not_mem_substitute (template : String) (number : UInt64) :
    '$' ∉ (substitute template number).toList := by
  intro mem
  rw [substitute, String.toList_ofList] at mem
  rcases mem_fill mem with digit | ⟨-, noDollar⟩
  · exact absurd digit (by decide)
  · exact noDollar rfl

theorem fill_ne_nil {number width : Nat} {text : List Char} (nonempty : 0 < width ∨ text ≠ []) :
    fill number width text ≠ [] := by
  induction text generalizing width with
  | nil =>
    have positive : 0 < width := by simpa using nonempty
    rw [fill, shown, if_neg (Nat.ne_of_gt positive), padded]
    simp [Nat.toDigits_ne_nil]
  | cons c rest ih =>
    rw [fill]
    split
    next => exact ih (.inl (Nat.succ_pos width))
    next => simp

/-! ## Both together -/

/-- What a copy shows for a template: nothing of its modifiers, and a number in place of each run of
`$`. -/
def displayed (template : String) (number : UInt64) : String :=
  substitute (strip template).1 number

/-- A name is shown as a tag name, whatever the number. -/
theorem isValid_displayed {name : String} (h : IsName name.toList) (number : UInt64) :
    TagName.isValid (displayed name number) = true := by
  simp only [TagName.isValid, displayed, substitute, String.toList_ofList, Bool.and_eq_true,
    Bool.not_eq_true', List.isEmpty_eq_false_iff, List.all_eq_true]
  refine ⟨fill_ne_nil (.inr (toList_strip_ne_nil h)), fun c mem => ?_⟩
  rcases mem_fill mem with digit | ⟨kept, noDollar⟩
  · simp [TagName.isNameChar, Char.isAlphanum, digit]
  · obtain ⟨word, noAt⟩ := word_of_mem_strip h kept
    simp only [isWordChar, Bool.or_eq_true, beq_iff_eq, noDollar, noAt, or_false] at word
    rcases word with ((alnum | rfl) | rfl) | rfl
    · simp [TagName.isNameChar, alnum]
    all_goals decide

end Shorthand.Numbering
