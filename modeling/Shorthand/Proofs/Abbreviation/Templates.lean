import Mathlib.Logic.Basic
import Shorthand.Abbreviation.Unroll
import Shorthand.Proofs.Numbering.Placeholder

/-! # Templates of a node

What is changed in the templates of a node is changed in each of them and nowhere else.  A copy shows
its number in every template with a placeholder, and in no other.  A node can be copied if no run of
`$` in its templates is too long.
-/
namespace Shorthand

section Guarded

variable {α β : Type} {p : α → Prop} [DecidablePred p] {f : α → β} {f? : α → Option β}

theorem bind_guarded {condition : Prop} [Decidable condition] (a : α) (next : α → Option β) :
    (if condition then some a else none) >>= next = if condition then next a else none := by
  split <;> rfl

theorem mapM_option_eq (each : ∀ a, f? a = if p a then some (f a) else none) (value : Option α) :
    value.mapM f? = if ∀ a ∈ value, p a then some (value.map f) else none := by
  cases value with
  | none => rw [if_pos (by simp)]; rfl
  | some a =>
    have mapped : (some a).mapM f? = (f? a).map some := rfl
    rw [mapped, each]
    by_cases holds : p a <;> simp [holds]

theorem mapM_list_eq (each : ∀ a, f? a = if p a then some (f a) else none) (values : List α) :
    values.mapM f? = if ∀ a ∈ values, p a then some (values.map f) else none := by
  induction values with
  | nil => simp
  | cons a rest ih =>
    simp only [List.mapM_cons, each, ih, bind_guarded, ← ite_and, List.forall_mem_cons]
    rfl

end Guarded

namespace Head

variable {head : Head}

/-- A copy with a number in place of all placeholders, however long they are. -/
def copy (head : Head) (number : UInt64) : Head :=
  { head.mapTemplates (Numbering.substitute · number) with
    multiplier := 1
    numbering := .plain }

def Fits (head : Head) : Prop := ∀ template ∈ head.templates, Numbering.Fits template.toList

instance (head : Head) : Decidable head.Fits :=
  inferInstanceAs (Decidable (∀ template ∈ head.templates, Numbering.Fits template.toList))

theorem not_fits_of_mem {template : String} (mem : template ∈ head.templates)
    (wide : ¬Numbering.Fits template.toList) : ¬head.Fits :=
  fun fits => wide (fits template mem)

theorem forall_mem_templates_iff {p : String → Prop} :
    (∀ template ∈ head.templates, p template) ↔
      (∀ name ∈ head.tag, p name) ∧ (∀ name ∈ head.classes, p name) ∧ (∀ name ∈ head.id, p name) ∧
        (∀ entry ∈ head.attributes, ∀ value ∈ entry.value, p value) ∧
          ∀ content ∈ head.text, p content := by
  have values : (∀ template ∈ head.attributes.filterMap (·.value), p template) ↔
      ∀ entry ∈ head.attributes, ∀ value ∈ entry.value, p value := by
    simp only [List.mem_filterMap]
    exact ⟨fun all entry mem value found => all value ⟨entry, mem, found⟩,
      fun all value ⟨entry, mem, found⟩ => all entry mem value found⟩
  simp only [templates, List.forall_mem_append, Option.mem_toList, values, and_assoc]
  rfl

theorem mapTemplates?_eq {p : String → Prop} [DecidablePred p] {f : String → String}
    {f? : String → Option String}
    (each : ∀ template, f? template = if p template then some (f template) else none)
    (head : Head) :
    head.mapTemplates? f? =
      if ∀ template ∈ head.templates, p template then some (head.mapTemplates f) else none := by
  have entries : head.attributes.mapM (fun entry => do
      return { entry with value := ← entry.value.mapM f? }) =
      if ∀ entry ∈ head.attributes, ∀ value ∈ entry.value, p value then
        some (head.attributes.map fun entry => { entry with value := entry.value.map f })
      else none := by
    refine mapM_list_eq (fun entry => ?_) _
    rw [mapM_option_eq each, bind_guarded]
    rfl
  rw [mapTemplates?, entries]
  simp only [mapM_option_eq each, mapM_list_eq each, bind_guarded, ← ite_and,
    forall_mem_templates_iff]
  rfl

theorem copy?_eq (head : Head) (number : UInt64) :
    head.copy? number = if head.Fits then some (head.copy number) else none := by
  rw [copy?, mapTemplates?_eq (fun template => Numbering.substitute?_eq template number)]
  exact apply_ite (Option.map _) ..

theorem templates_mapTemplates (f : String → String) (head : Head) :
    (head.mapTemplates f).templates = head.templates.map f := by
  have option (value : Option String) : (value.map f).toList = value.toList.map f := by
    cases value <;> rfl
  simp only [templates, mapTemplates, option, List.map_append, List.filterMap_map,
    List.map_filterMap, Function.comp_def]

theorem mapTemplates_congr {f g : String → String}
    (same : ∀ template ∈ head.templates, f template = g template) :
    head.mapTemplates f = head.mapTemplates g := by
  obtain ⟨tag, classes, id, values, text⟩ := forall_mem_templates_iff.1 same
  rw [mapTemplates, mapTemplates, Option.map_congr tag, List.map_congr_left classes,
    Option.map_congr id, Option.map_congr text]
  congr 1
  refine List.map_congr_left fun entry mem => ?_
  rw [Option.map_congr (values entry mem)]

theorem mapTemplates_id (head : Head) : (head.mapTemplates fun template => template) = head := by
  simp [mapTemplates]

theorem mapTemplates_eq_self {f : String → String}
    (same : ∀ template ∈ head.templates, f template = template) : head.mapTemplates f = head :=
  (mapTemplates_congr same).trans head.mapTemplates_id

theorem templates_copy (head : Head) (number : UInt64) :
    (head.copy number).templates = head.templates.map (Numbering.substitute · number) :=
  templates_mapTemplates _ head

theorem copy_of_plain (plain : ∀ template ∈ head.templates, '$' ∉ template.toList)
    (one other : UInt64) : head.copy one = head.copy other := by
  have same : ∀ template ∈ head.templates,
      Numbering.substitute template one = Numbering.substitute template other := by
    intro template mem
    rw [Numbering.substitute_of_plain (plain template mem),
      Numbering.substitute_of_plain (plain template mem)]
  rw [copy, copy, mapTemplates_congr same]

/-- A head with a placeholder shows different numbers differently. -/
theorem copy_inj {template : String} (mem : template ∈ head.templates)
    (placeholder : '$' ∈ template.toList) {a b : UInt64} (same : head.copy a = head.copy b) :
    a = b := by
  have shown := head.templates_copy a
  rw [same, templates_copy] at shown
  exact (Numbering.substitute_inj placeholder (List.map_inj_left.1 shown template mem)).symm

end Head

end Shorthand
