import Mathlib.Data.List.Forall2
import Shorthand.Abbreviation.Resolve
import Shorthand.Markup.Basic
import Shorthand.Proofs.Forest

/-! # From copies to elements

Filling in tags and dissolving groups keeps the elements of a forest in their order: the markup has
just one element for each.
-/
namespace Shorthand

/-- The element that a head stands for, whatever tag its parent implies for it. -/
def Marks (table : ImplicitTags) (fallback : String) (head : Head) (element : Element) : Prop :=
  ∃ parent, element = (head.resolveTag table fallback parent).element fallback

theorem Head.resolveTag_kind (table : ImplicitTags) (fallback : String) (parent : Option String)
    (head : Head) :
    (head.resolveTag table fallback parent).kind = head.kind := by
  unfold resolveTag
  split <;> rfl

theorem Head.tagForChildren_of_group {head : Head} (kind : head.kind = .group)
    (parent : Option String) : head.tagForChildren parent = parent := by
  rw [tagForChildren, kind]

/-- Resolving decides about the tag of an element and nothing else. -/
theorem Head.element_resolveTag {head : Head} (kind : head.kind = .element) (table : ImplicitTags)
    (fallback : String) (parent : Option String) :
    (head.resolveTag table fallback parent).element fallback =
      { head.element fallback with
        tag := head.tag.getD ((parent.bind table.childOf).getD fallback) } := by
  unfold resolveTag
  split
  next untagged => simp only [element, untagged, blockId, blockClasses, Option.getD]
  next tagged =>
    cases tag : head.tag with
    | none => exact absurd tag (tagged kind)
    | some name => simp only [element, tag, Option.getD_some]

mutual

theorem marks_markup (table : ImplicitTags) (fallback : String) (parent : Option String) :
    (tree : Tree Head) → List.Forall₂ (Marks table fallback)
      (tree.labels.filter (·.kind = .element))
      (Tree.labelsAll (markup fallback (resolve table fallback parent tree)))
  | .node head children => by
    rw [resolve, markup, Head.resolveTag_kind, Tree.labels]
    cases kind : head.kind with
    | group =>
      rw [List.filter_cons_of_neg (by simp [kind])]
      exact marks_markupAll table fallback _ children
    | element =>
      rw [List.filter_cons_of_pos (by simp [kind]), Tree.labelsAll, Tree.labels, Tree.labelsAll,
        List.append_nil]
      exact .cons ⟨parent, rfl⟩ (marks_markupAll table fallback _ children)

/-- The elements of the markup are those of the forest, one by one. -/
theorem marks_markupAll (table : ImplicitTags) (fallback : String) (parent : Option String) :
    (forest : List (Tree Head)) → List.Forall₂ (Marks table fallback)
      ((Tree.labelsAll forest).filter (·.kind = .element))
      (Tree.labelsAll (markupAll fallback (resolveAll table fallback parent forest)))
  | [] => .nil
  | first :: rest => by
    rw [resolveAll, markupAll, Tree.labelsAll, Tree.labelsAll_append, List.filter_append]
    exact List.rel_append (marks_markup table fallback parent first)
      (marks_markupAll table fallback parent rest)

end

end Shorthand
