import Shorthand.Numbering.Modifier

/-! # Templates with and without modifiers

A template in which no `@` stands right behind a `$` has no modifiers, and nothing is taken out of
it.  A template with modifiers keeps the runs of `$` that they stand behind.
-/
namespace Shorthand.Numbering

theorem stripFrom_of_unmodified {afterDollar : Bool} {text : List Char}
    (start : afterDollar = true → text.head? ≠ some '@') (unmodified : ¬ ['$', '@'] <:+: text) :
    stripFrom afterDollar text = (text, []) := by
  induction text generalizing afterDollar with
  | nil => rw [stripFrom]
  | cons c rest ih =>
    have next : (c == '$') = true → rest.head? ≠ some '@' := by
      rintro dollar at'
      rw [beq_iff_eq] at dollar
      obtain ⟨behind, rfl⟩ : ∃ behind, rest = '@' :: behind := List.head?_eq_some_iff.1 at'
      exact unmodified ⟨[], behind, by rw [dollar]; rfl⟩
    have later : ¬ ['$', '@'] <:+: rest :=
      fun inside => unmodified (inside.trans (List.suffix_cons c rest).isInfix)
    have here : ¬ (afterDollar && c == '@') = true := by
      rw [Bool.and_eq_true, beq_iff_eq]
      rintro ⟨dollar, rfl⟩
      exact start dollar rfl
    rw [stripFrom, if_neg here, ih next later]

theorem strip_of_unmodified {template : String} (unmodified : ¬ ['$', '@'] <:+: template.toList) :
    strip template = (template, []) := by
  rw [strip, stripFrom_of_unmodified (by simp) unmodified]
  simp only [String.ofList_toList]

theorem dollar_mem_stripFrom {afterDollar : Bool} {text : List Char}
    (modified : (stripFrom afterDollar text).2 ≠ []) :
    afterDollar = true ∨ '$' ∈ (stripFrom afterDollar text).1 := by
  fun_induction stripFrom afterDollar text with
  | case1 => exact absurd rfl modified
  | case2 afterDollar c rest here => simp_all
  | case3 afterDollar c rest here kept modifiers next ih =>
    rw [next] at ih
    rcases ih modified with dollar | mem
    · rw [beq_iff_eq] at dollar
      exact .inr (by rw [dollar]; exact List.mem_cons_self)
    · exact .inr (List.mem_cons_of_mem _ mem)

theorem dollar_mem_strip {template : String} (modified : (strip template).2 ≠ []) :
    '$' ∈ (strip template).1.toList := by
  simp only [strip] at modified ⊢
  rw [String.toList_ofList]
  exact (dollar_mem_stripFrom modified).resolve_left (by simp)

end Shorthand.Numbering
