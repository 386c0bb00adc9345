import Shorthand.Options
import Shorthand.Proofs.ImplicitTags

/-! # Usable options

Options pass their check exactly if resolving inserts nothing but tag names.
-/
namespace Shorthand.Options

/-- Every tag that resolving may insert is a tag name. -/
structure Usable (options : Options) : Prop where
  default_valid : TagName.isValid options.defaultTag = true
  implicit_valid : ∀ parent child, options.implicitTags.childOf parent = some child →
    TagName.isValid child = true

theorem validate_eq_ok_iff {options : Options} :
    options.validate = .ok () ↔ options.Usable := by
  have entries : badEntry? options.implicitTags = none ↔
      ∀ parent child, options.implicitTags.childOf parent = some child →
        TagName.isValid child = true := by
    unfold badEntry?
    simp [List.find?_eq_none, ← ImplicitTags.mem_entries_iff]
  unfold validate
  split
  next bad =>
    refine ⟨fun valid => (nomatch valid), fun usable => absurd usable.default_valid ?_⟩
    simpa using bad
  next good =>
    split
    next parent child found =>
      refine ⟨fun valid => (nomatch valid), fun usable => ?_⟩
      rw [entries.2 usable.implicit_valid] at found
      cases found
    next none => exact ⟨fun _ => ⟨by simpa using good, entries.1 none⟩, fun _ => rfl⟩

theorem usable_standard : Options.standard.Usable where
  default_valid := by decide +kernel
  implicit_valid parent child answer := by
    have all : ∀ entry ∈ ImplicitTags.standard.entries, TagName.isValid entry.2 = true := by
      decide +kernel
    exact all (parent, child) (ImplicitTags.mem_entries_iff.2 answer)

theorem Usable.isValid_inserted {options : Options} (usable : options.Usable)
    (parent : Option String) :
    TagName.isValid ((parent.bind options.implicitTags.childOf).getD options.defaultTag) = true := by
  cases implied : parent.bind options.implicitTags.childOf with
  | none => exact usable.default_valid
  | some child =>
    obtain ⟨asked, -, found⟩ := Option.bind_eq_some_iff.1 implied
    exact usable.implicit_valid asked child found

end Shorthand.Options
