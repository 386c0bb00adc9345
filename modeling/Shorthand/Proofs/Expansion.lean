import Shorthand.Expansion
import Shorthand.Proofs.Except

/-! # Steps of an expansion

An abbreviation expands if each step does its part, and otherwise fails as the first step that does
not.
-/
namespace Shorthand

variable {source : String} {options : Options}

theorem expandTree_iff_steps {markup : Markup} :
    expandTree source options = .ok markup ↔
      options.validate = .ok () ∧ ∃ forest copies,
        parseAbbreviation source options.maxDepth = .ok forest ∧
          unrollNodes source options.maxNodes forest = .ok copies ∧
            markupAll options.defaultTag
              (resolveAll options.implicitTags options.defaultTag none copies) = markup := by
  constructor
  · intro accepted
    obtain ⟨⟨⟩, valid, expanded⟩ := Except.bind_eq_ok_iff.1 accepted
    obtain ⟨forest, parsed, expanded⟩ := Except.bind_eq_ok_iff.1 expanded
    obtain ⟨copies, unrolled, resolved⟩ := Except.bind_eq_ok_iff.1 expanded
    exact ⟨Except.mapError_eq_ok_iff.1 valid, forest, copies, Except.mapError_eq_ok_iff.1 parsed,
      unrolled, Except.ok.inj resolved⟩
  · rintro ⟨valid, forest, copies, parsed, unrolled, rfl⟩
    refine Except.bind_eq_ok_iff.2 ⟨(), Except.mapError_eq_ok_iff.2 valid, ?_⟩
    refine Except.bind_eq_ok_iff.2 ⟨forest, Except.mapError_eq_ok_iff.2 parsed, ?_⟩
    exact Except.bind_eq_ok_iff.2 ⟨copies, unrolled, rfl⟩

theorem expandTree_of_unrollNodes_error {forest : Abbreviation} {failure : Failure}
    (valid : options.validate = .ok ())
    (parsed : parseAbbreviation source options.maxDepth = .ok forest)
    (failed : unrollNodes source options.maxNodes forest = .error failure) :
    expandTree source options = .error failure := by
  rw [expandTree, valid, parsed]
  refine Except.bind_eq_error_iff.2 (.inr ⟨(), rfl, ?_⟩)
  refine Except.bind_eq_error_iff.2 (.inr ⟨forest, rfl, ?_⟩)
  exact Except.bind_eq_error_iff.2 (.inl failed)

/-- The step that an expansion fails at. -/
inductive FailsAt (source : String) (options : Options) : Failure → Prop where
  | checking {error : Error} (failed : options.validate = .error error) :
      FailsAt source options (.reported error)
  | reading {error : Error} (failed : parseAbbreviation source options.maxDepth = .error error) :
      FailsAt source options (.reported error)
  | unrolling {forest : Abbreviation} {failure : Failure}
      (parsed : parseAbbreviation source options.maxDepth = .ok forest)
      (failed : unrollNodes source options.maxNodes forest = .error failure) :
      FailsAt source options failure

theorem failsAt_of_expandTree {failure : Failure}
    (failed : expandTree source options = .error failure) : FailsAt source options failure := by
  rcases Except.bind_eq_error_iff.1 failed with checking | ⟨-, -, failed⟩
  · obtain ⟨error, found, rfl⟩ := Except.mapError_eq_error_iff.1 checking
    exact .checking found
  rcases Except.bind_eq_error_iff.1 failed with reading | ⟨forest, parsed, failed⟩
  · obtain ⟨error, found, rfl⟩ := Except.mapError_eq_error_iff.1 reading
    exact .reading found
  rcases Except.bind_eq_error_iff.1 failed with unrolling | ⟨copies, -, resolved⟩
  · exact .unrolling (Except.mapError_eq_ok_iff.1 parsed) unrolling
  · cases resolved

end Shorthand
