import Shorthand.Proofs.Except
import Shorthand.Proofs.Options
import Shorthand.Settings.Basic

/-! # Applying settings

Settings that are applied to options one field after the other either fail before the first field or
set all of them.  Usable options stay usable.
-/
namespace Shorthand.Settings

/-! ## Usable settings -/

structure Usable (settings : Settings) : Prop where
  default_valid : ∀ tag ∈ settings.defaultTag, TagName.isValid tag = true
  implicit_valid : ∀ parent child, settings.implicitTags.childOf parent = some child →
    TagName.isValid parent = true ∧ TagName.isValid child = true

variable {settings : Settings} {options : Options}

theorem checkDefaultTag_eq_ok_iff :
    settings.checkDefaultTag = .ok () ↔
      ∀ tag ∈ settings.defaultTag, TagName.isValid tag = true := by
  unfold checkDefaultTag
  split
  next tag named => split <;> simp_all
  next unnamed => simp [unnamed]

theorem checkImplicitTags_eq_ok_iff :
    settings.checkImplicitTags = .ok () ↔
      ∀ parent child, settings.implicitTags.childOf parent = some child →
        TagName.isValid parent = true ∧ TagName.isValid child = true := by
  have entries : badEntry? settings.implicitTags = none ↔
      ∀ parent child, settings.implicitTags.childOf parent = some child →
        TagName.isValid parent = true ∧ TagName.isValid child = true := by
    unfold badEntry?
    simp [List.find?_eq_none, ← ImplicitTags.mem_entries_iff]
  rw [← entries]
  unfold checkImplicitTags
  split
  next found => simp [found]
  next none => simp [none]

theorem validate_eq_ok_iff : settings.validate = .ok () ↔ settings.Usable := by
  rw [validate, Except.bind_eq_ok_iff, checkImplicitTags_eq_ok_iff]
  constructor
  · rintro ⟨⟨⟩, default, implicit⟩
    exact ⟨checkDefaultTag_eq_ok_iff.1 default, implicit⟩
  · rintro ⟨default, implicit⟩
    exact ⟨(), checkDefaultTag_eq_ok_iff.2 default, implicit⟩

/-- Settings fail with an error of their own kind. -/
theorem kind_of_validate_error {error : Error} (failed : settings.validate = .error error) :
    error.kind = .settings := by
  rcases Except.bind_eq_error_iff.1 failed with failed | ⟨-, -, failed⟩
  · unfold checkDefaultTag at failed
    split at failed
    next =>
      split at failed <;> cases failed
      rfl
    next => cases failed
  · unfold checkImplicitTags at failed
    split at failed <;> cases failed
    rfl

theorem usable_override (usable : settings.Usable) (start : options.Usable) :
    (settings.override options).Usable where
  default_valid := by
    change TagName.isValid (settings.defaultTag.getD options.defaultTag) = true
    cases named : settings.defaultTag with
    | none => exact start.default_valid
    | some tag => exact usable.default_valid tag named
  implicit_valid parent child answer := by
    rw [override, ImplicitTags.childOf_insertAll] at answer
    cases own : settings.implicitTags.childOf parent with
    | none =>
      rw [own] at answer
      exact start.implicit_valid parent child answer
    | some tag =>
      rw [own] at answer
      cases answer
      exact (usable.implicit_valid parent child own).2

/-- The run goes through and changes the options in this way. -/
def Changes (run : ExceptT Error (StateM Options) Unit) (change : Options → Options) : Prop :=
  ∀ options, run.run.run options = (.ok (), change options)

theorem Changes.bind {first second : ExceptT Error (StateM Options) Unit}
    {change next : Options → Options} (h : Changes first change) (h' : Changes second next) :
    Changes (do first; second) (next ∘ change) := by
  intro options
  have here : first.run.run options = (.ok (), change options) := h options
  change (ExceptT.bindCont (fun _ => second) (first.run.run options).1).run
    (first.run.run options).2 = _
  rw [here]
  exact h' (change options)

theorem apply_of_usable (usable : settings.Usable) (options : Options) :
    settings.apply options = .ok (settings.override options) := by
  rw [apply, validate_eq_ok_iff.2 usable]
  rfl

theorem apply_of_unusable (unusable : ¬settings.Usable) (options : Options) :
    ∃ error, settings.apply options = .error error ∧ error.kind = .settings := by
  cases checked : settings.validate with
  | ok => exact absurd (validate_eq_ok_iff.1 checked) unusable
  | error error =>
    refine ⟨error, ?_, kind_of_validate_error checked⟩
    rw [apply, checked]
    rfl

theorem apply_eq_ok_iff {changed : Options} :
    settings.apply options = .ok changed ↔
      settings.Usable ∧ changed = settings.override options := by
  by_cases usable : settings.Usable
  · simp [apply_of_usable usable, usable, eq_comm]
  · obtain ⟨error, failed, -⟩ := apply_of_unusable usable options
    simp [failed, usable]

end Shorthand.Settings
