import Shorthand.Proofs.Markup.Elements

/-! # Tags from above

Tags are filled in while a forest still has its groups, but what an element without a tag gets is
decided by the element around it in the markup, where groups have dissolved.  Filling in tags changes
nothing else, and leaves nothing to fill in.
-/
namespace Shorthand

/-! ## What is filled in -/

/-- What filling in a tag makes of a node, at the same depth. -/
structure Completes (before after : Nat × Head) : Prop where
  depth : after.1 = before.1
  same : after.2 = { before.2 with tag := after.2.tag }
  kept : before.2.tag.isSome → after.2.tag = before.2.tag
  filled : before.2.kind = .element → after.2.tag.isSome
  group : before.2.kind = .group → after.2 = before.2

def Tagged (heads : List Head) : Prop := ∀ head ∈ heads, head.kind = .element → head.tag.isSome

section Resolve

variable (table : ImplicitTags) (fallback : String) (parent : Option String)

theorem Head.completes_resolveTag (depth : Nat) (head : Head) :
    Completes (depth, head) (depth, head.resolveTag table fallback parent) := by
  unfold resolveTag
  split
  next kind untagged => exact ⟨rfl, rfl, by simp [untagged], by simp, by simp [kind]⟩
  next tagged =>
    refine ⟨rfl, rfl, fun _ => rfl, fun kind => ?_, fun _ => rfl⟩
    exact Option.isSome_iff_ne_none.2 (tagged kind)

mutual

theorem completes_resolve (parent : Option String) (depth : Nat) :
    (tree : Tree Head) → List.Forall₂ Completes (tree.preorder depth)
      ((resolve table fallback parent tree).preorder depth)
  | .node head children => by
    rw [resolve, Tree.preorder, Tree.preorder]
    exact .cons (head.completes_resolveTag table fallback parent depth)
      (completes_resolveAll _ (depth + 1) children)

/-- Filling in tags completes the nodes of a forest one by one. -/
theorem completes_resolveAll (parent : Option String) (depth : Nat) :
    (forest : List (Tree Head)) → List.Forall₂ Completes (Tree.preorderAll depth forest)
      (Tree.preorderAll depth (resolveAll table fallback parent forest))
  | [] => .nil
  | first :: rest => by
    rw [resolveAll, Tree.preorderAll, Tree.preorderAll]
    exact List.rel_append (completes_resolve parent depth first)
      (completes_resolveAll parent depth rest)

end

theorem tagged_resolveAll (forest : Abbreviation) :
    Tagged (Tree.labelsAll (resolveAll table fallback parent forest)) := by
  intro head mem kind
  rw [← Tree.map_snd_preorderAll 0] at mem
  obtain ⟨after, listed, rfl⟩ := List.mem_map.1 mem
  obtain ⟨before, -, completes⟩ :=
    exists_of_mem_right (completes_resolveAll table fallback parent 0 forest) listed
  refine completes.filled ?_
  rw [completes.same] at kind
  exact kind

end Resolve

/-! ## Nothing left to fill in -/

section Tagged

theorem Head.resolveTag_of_tagged (table : ImplicitTags) (fallback : String)
    (parent : Option String) {head : Head} (tagged : head.kind = .element → head.tag.isSome) :
    head.resolveTag table fallback parent = head := by
  unfold resolveTag
  split
  next kind untagged =>
    have some := tagged kind
    rw [untagged] at some
    cases some
  next => rfl

theorem Head.element_of_tagged {head : Head} (tagged : head.tag.isSome) (one other : String) :
    head.element one = head.element other := by
  obtain ⟨name, tag⟩ := Option.isSome_iff_exists.1 tagged
  simp only [element, tag, Option.getD_some]

mutual

theorem resolve_of_tagged (table : ImplicitTags) (fallback : String) (parent : Option String) :
    (tree : Tree Head) → Tagged tree.labels → resolve table fallback parent tree = tree
  | .node head children, tagged => by
    rw [Tree.labels, Tagged, List.forall_mem_cons] at tagged
    rw [resolve, Head.resolveTag_of_tagged table fallback parent tagged.1,
      resolveAll_of_tagged table fallback _ children tagged.2]

theorem resolveAll_of_tagged (table : ImplicitTags) (fallback : String) (parent : Option String) :
    (forest : List (Tree Head)) → Tagged (Tree.labelsAll forest) →
      resolveAll table fallback parent forest = forest
  | [], _ => rfl
  | first :: rest, tagged => by
    rw [Tree.labelsAll, Tagged, List.forall_mem_append] at tagged
    rw [resolveAll, resolve_of_tagged table fallback parent first tagged.1,
      resolveAll_of_tagged table fallback parent rest tagged.2]

end

mutual

theorem markup_of_tagged (one other : String) :
    (tree : Tree Head) → Tagged tree.labels → markup one tree = markup other tree
  | .node head children, tagged => by
    rw [Tree.labels, Tagged, List.forall_mem_cons] at tagged
    rw [markup, markup, markupAll_of_tagged one other children tagged.2]
    cases kind : head.kind with
    | group => rfl
    | element => simp only [Head.element_of_tagged (tagged.1 kind) one other]

/-- Where all elements have a tag, markup needs no other one. -/
theorem markupAll_of_tagged (one other : String) :
    (forest : List (Tree Head)) → Tagged (Tree.labelsAll forest) →
      markupAll one forest = markupAll other forest
  | [], _ => rfl
  | first :: rest, tagged => by
    rw [Tree.labelsAll, Tagged, List.forall_mem_append] at tagged
    rw [markupAll, markupAll, markup_of_tagged one other first tagged.1,
      markupAll_of_tagged one other rest tagged.2]

end

end Tagged

/-! ## What is inherited -/

/-- The branches that end at an element, without the groups around it. -/
def elementBranches (branches : List (List Head)) : List (List Head) :=
  (branches.filter fun branch => branch.head?.any (·.kind = .element)).map
    (·.filter (·.kind = .element))

theorem elementBranches_append (front back : List (List Head)) :
    elementBranches (front ++ back) = elementBranches front ++ elementBranches back := by
  rw [elementBranches, List.filter_append, List.map_append]
  rfl

theorem elementBranches_cons_element {head : Head} (kind : head.kind = .element) (above : List Head)
    (rest : List (List Head)) :
    elementBranches ((head :: above) :: rest) =
      (head :: above.filter (·.kind = .element)) :: elementBranches rest := by
  rw [elementBranches, List.filter_cons_of_pos (by simp [kind]), List.map_cons,
    List.filter_cons_of_pos (by simp [kind])]
  rfl

theorem elementBranches_cons_group {head : Head} (kind : head.kind = .group) (above : List Head)
    (rest : List (List Head)) :
    elementBranches ((head :: above) :: rest) = elementBranches rest := by
  rw [elementBranches, List.filter_cons_of_neg (by simp [kind])]
  rfl

section Inherits

variable (table : ImplicitTags) (fallback : String) (outer : Option String)

/-- The tag of the innermost of some elements, or else the one outside of all of them. -/
def tagAround (around : List Element) : Option String := (around.head?.map (·.tag)).or outer

/-- Elements of the markup, one inside the other, stand for the heads of a branch: each has its own tag
or the one that the element around it implies, or else the fallback. -/
inductive Inherits : List Head → List Element → Prop where
  | root : Inherits [] []
  | inside {head : Head} {above : List Head} {element : Element} {around : List Element}
      (rest : Inherits above around)
      (same : element = { head.element fallback with
        tag := head.tag.getD (((tagAround outer around).bind table.childOf).getD fallback) }) :
      Inherits (head :: above) (element :: around)

variable {table fallback outer}

theorem Head.tagForChildren_of_element {head : Head} (kind : head.kind = .element)
    (tagged : head.tag.isSome) (other : String) (outer parent : Option String)
    (around : List Element) :
    head.tagForChildren parent = tagAround outer (head.element other :: around) := by
  obtain ⟨name, tag⟩ := Option.isSome_iff_exists.1 tagged
  simp [tagForChildren, kind, tagAround, element, tag]

mutual

theorem inherits_markup (other : String) {above : List Head} {around : List Element}
    (inherits : Inherits table fallback outer (above.filter (·.kind = .element)) around) :
    (tree : Tree Head) → List.Forall₂ (Inherits table fallback outer)
      (elementBranches (tree.branches above))
      (Tree.branchesAll around (markup other (resolve table fallback (tagAround outer around) tree)))
  | .node head children => by
    have completes := head.completes_resolveTag table fallback (tagAround outer around) 0
    have same := head.resolveTag_kind table fallback (tagAround outer around)
    rw [Tree.branches, resolve, markup, same]
    cases kind : head.kind with
    | group =>
      -- Neither the branches nor the markup show the group, and it changes no tag on the way.
      rw [elementBranches_cons_group kind, Head.tagForChildren_of_group (same.trans kind)]
      refine inherits_markupAll other ?_ children
      rwa [List.filter_cons_of_neg (by simp [kind])]
    | element =>
      have tagged := completes.filled kind
      have shows := Head.element_resolveTag kind table fallback (tagAround outer around)
      rw [Head.element_of_tagged tagged fallback other] at shows
      have inside := Inherits.inside inherits shows
      rw [elementBranches_cons_element kind, Tree.branchesAll_singleton, Tree.branches,
        Head.tagForChildren_of_element (same.trans kind) tagged other outer _ around]
      refine .cons inside (inherits_markupAll other ?_ children)
      rwa [List.filter_cons_of_pos (by simp [kind])]

theorem inherits_markupAll (other : String) {above : List Head} {around : List Element}
    (inherits : Inherits table fallback outer (above.filter (·.kind = .element)) around) :
    (forest : List (Tree Head)) → List.Forall₂ (Inherits table fallback outer)
      (elementBranches (Tree.branchesAll above forest))
      (Tree.branchesAll around
        (markupAll other (resolveAll table fallback (tagAround outer around) forest)))
  | [] => .nil
  | first :: rest => by
    rw [Tree.branchesAll, elementBranches_append, resolveAll, markupAll, Tree.branchesAll_append]
    exact List.rel_append (inherits_markup other inherits first)
      (inherits_markupAll other inherits rest)

end

end Inherits

/-- Filling in the tags of a forest changes no node but for a missing tag, and nothing when it is done
again.  The markup has the elements of the forest in the same order and inside each other in the same
way, with groups dissolved.  Each has its own tag, or the one that the element around it implies, or
else the fallback.  What stands in for missing tags in the markup does not matter any more. -/
theorem resolveAll_follows_markup (table : ImplicitTags) (fallback : String) (outer : Option String)
    (forest : Abbreviation) :
    let resolved := resolveAll table fallback outer forest
    List.Forall₂ Completes (Tree.preorderAll 0 forest) (Tree.preorderAll 0 resolved) ∧
      (∀ table' fallback' outer', resolveAll table' fallback' outer' resolved = resolved) ∧
        (∀ other, List.Forall₂ (Inherits table fallback outer)
          (elementBranches (Tree.branchesAll [] forest))
          (Tree.branchesAll [] (markupAll other resolved))) ∧
            ∀ one other, markupAll one resolved = markupAll other resolved := by
  intro resolved
  have tagged : Tagged (Tree.labelsAll resolved) := tagged_resolveAll table fallback outer forest
  refine ⟨completes_resolveAll table fallback outer 0 forest, ?_, ?_, ?_⟩
  · intro table' fallback' outer'
    exact resolveAll_of_tagged table' fallback' outer' resolved tagged
  · intro other
    have start : Inherits table fallback outer ([].filter (·.kind = .element)) [] := .root
    exact inherits_markupAll other start forest
  · intro one other
    exact markupAll_of_tagged one other resolved tagged

end Shorthand
