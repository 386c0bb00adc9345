import Shorthand.Proofs.Abbreviation.Depth
import Shorthand.Proofs.Abbreviation.Populated
import Shorthand.Proofs.Abbreviation.Weight
import Shorthand.Proofs.Expansion
import Shorthand.Proofs.Markup.Elements

/-! # Bounds on the result

The options bound the markup in two directions: the limit on nodes counts its elements, and the limit
on levels its depth.  Groups are copied without being counted, but every group has an element under
it, and above an element there are no more groups than levels.
-/
namespace Shorthand

/-! ## Copies -/

theorem Populated.traces_ne_nil {tree : Node} (h : Populated tree) (above : Path) :
    traces above tree ≠ [] := by
  have some {multiplier : UInt64} (repeated : multiplier ≠ 0) : multiplier.toNat ≠ 0 :=
    fun zero => repeated (UInt64.toNat_inj.1 zero)
  cases h with
  | element _ repeated | group repeated => simpa [traces] using some repeated

theorem tracesAll_ne_nil {forest : Abbreviation} (nonempty : forest ≠ [])
    (each : ∀ tree ∈ forest, Populated tree) (above : Path) : tracesAll above forest ≠ [] := by
  cases forest with
  | nil => exact absurd rfl nonempty
  | cons first rest =>
    rw [tracesAll]
    exact List.append_ne_nil_of_left_ne_nil ((each first List.mem_cons_self).traces_ne_nil above) _

theorem mem_copies {forest : Abbreviation} {above : Path} {copy : Node} :
    copy ∈ Tree.mapAll Path.copy (tracesAll above forest) ↔
      ∃ tree ∈ forest, copy ∈ Tree.mapAll Path.copy (traces above tree) := by
  rw [Tree.mapAll_eq_map, tracesAll_eq_flatMap, List.map_flatMap, List.mem_flatMap]
  simp only [Tree.mapAll_eq_map]

theorem mem_copies_node {above : Path} {head : Head} {children : Abbreviation} {copy : Node} :
    copy ∈ Tree.mapAll Path.copy (traces above (.node head children)) ↔
      ∃ index ∈ List.range' 1 head.multiplier.toNat,
        .node (Path.copy ((head, index.toUInt64) :: above))
          (Tree.mapAll Path.copy (tracesAll ((head, index.toUInt64) :: above) children)) = copy := by
  rw [traces, Tree.mapAll_eq_map, List.map_map, List.mem_map]
  rfl

theorem Populated.copies {tree : Node} (h : Populated tree) (above : Path) :
    ∀ copy ∈ Tree.mapAll Path.copy (traces above tree), Populated copy := by
  induction h generalizing above with
  | element kind repeated below ih =>
    intro copy mem
    obtain ⟨index, -, rfl⟩ := mem_copies_node.1 mem
    refine .element kind (by decide : (1 : UInt64) ≠ 0) fun child mem => ?_
    obtain ⟨tree, inside, mem⟩ := mem_copies.1 mem
    exact ih tree inside _ child mem
  | group repeated filled below ih =>
    intro copy mem
    obtain ⟨index, -, rfl⟩ := mem_copies_node.1 mem
    refine .group (by decide : (1 : UInt64) ≠ 0) ?_ fun child mem => ?_
    · rw [Tree.mapAll_eq_map, ne_eq, List.map_eq_nil_iff]
      exact tracesAll_ne_nil filled below _
    · obtain ⟨tree, inside, mem⟩ := mem_copies.1 mem
      exact ih tree inside _ child mem

mutual

theorem heightAll_traces (above : Path) :
    (tree : Tree Head) → Tree.heightAll (traces above tree) ≤ tree.height
  | .node head children => by
    rw [traces, Tree.heightAll_le_iff, List.forall_mem_map]
    intro index _
    rw [Tree.height, Tree.height]
    exact Nat.succ_le_succ (heightAll_tracesAll _ children)

/-- Copies lie no deeper than what they are copies of. -/
theorem heightAll_tracesAll (above : Path) :
    (forest : List (Tree Head)) → Tree.heightAll (tracesAll above forest) ≤ Tree.heightAll forest
  | [] => Nat.le_refl 0
  | first :: rest => by
    have := heightAll_traces above first
    have := heightAll_tracesAll above rest
    rw [tracesAll, Tree.heightAll_append, Tree.heightAll]
    omega

end

/-! ## Groups and elements -/

/-- Under every node there is an element, or else the node is one. -/
theorem Populated.countP_pos {tree : Node} (h : Populated tree) :
    0 < tree.labels.countP (·.kind = .element) := by
  induction h with
  | element kind => simp [Tree.labels, kind]
  | @group _ _ children _ filled _ ih =>
    obtain ⟨first, rest, rfl⟩ := List.exists_cons_of_ne_nil filled
    have := ih first List.mem_cons_self
    rw [Tree.labels, Tree.labelsAll, List.countP_cons, List.countP_append]
    omega

theorem countP_labelsAll_pos {forest : Abbreviation} (nonempty : forest ≠ [])
    (each : ∀ tree ∈ forest, Populated tree) :
    0 < (Tree.labelsAll forest).countP (·.kind = .element) := by
  obtain ⟨first, rest, rfl⟩ := List.exists_cons_of_ne_nil nonempty
  have := (each first List.mem_cons_self).countP_pos
  rw [Tree.labelsAll, List.countP_append]
  omega

theorem length_labelsAll_le_of_forall {forest : Abbreviation}
    (each : ∀ tree ∈ forest,
      tree.labels.length ≤ tree.labels.countP (·.kind = .element) * tree.height) :
    (Tree.labelsAll forest).length ≤
      (Tree.labelsAll forest).countP (·.kind = .element) * Tree.heightAll forest := by
  induction forest with
  | nil => exact Nat.le_refl 0
  | cons first rest ih =>
    rw [List.forall_mem_cons] at each
    rw [Tree.labelsAll, List.length_append, List.countP_append, Tree.heightAll, Nat.add_mul]
    exact Nat.add_le_add
      (Nat.le_trans each.1 (Nat.mul_le_mul_left _ (Nat.le_max_left ..)))
      (Nat.le_trans (ih each.2) (Nat.mul_le_mul_left _ (Nat.le_max_right ..)))

/-- There is an element at or under every node, so that all nodes lie on the ways to the elements. -/
theorem Populated.length_labels_le {tree : Node} (h : Populated tree) :
    tree.labels.length ≤ tree.labels.countP (·.kind = .element) * tree.height := by
  induction h with
  | @element head children kind _ _ ih =>
    have below := length_labelsAll_le_of_forall ih
    rw [Tree.labels, Tree.height, List.length_cons, List.countP_cons_of_pos (by simp [kind])]
    rw [Nat.add_mul, Nat.mul_succ]
    omega
  | @group _ _ children _ filled each ih =>
    have below := length_labelsAll_le_of_forall ih
    have some := countP_labelsAll_pos filled each
    rw [Tree.labels, Tree.height, List.length_cons, List.countP_cons_of_neg (by simp), Nat.mul_succ]
    omega

/-! ## Markup -/

mutual

theorem heightAll_markup (table : ImplicitTags) (fallback : String) (parent : Option String) :
    (tree : Tree Head) →
      Tree.heightAll (markup fallback (resolve table fallback parent tree)) ≤ tree.height
  | .node head children => by
    rw [resolve, markup, Head.resolveTag_kind, Tree.height]
    have below := heightAll_markupAll table fallback
      ((head.resolveTag table fallback parent).tagForChildren parent) children
    cases head.kind with
    | group => exact Nat.le_succ_of_le below
    | element =>
      dsimp only
      rw [Tree.heightAll, Tree.height, Tree.heightAll, Nat.max_zero]
      exact Nat.succ_le_succ below

/-- Dissolving groups leaves no more levels. -/
theorem heightAll_markupAll (table : ImplicitTags) (fallback : String) (parent : Option String) :
    (forest : List (Tree Head)) →
      Tree.heightAll (markupAll fallback (resolveAll table fallback parent forest)) ≤
        Tree.heightAll forest
  | [] => Nat.le_refl 0
  | first :: rest => by
    have := heightAll_markup table fallback parent first
    have := heightAll_markupAll table fallback parent rest
    rw [resolveAll, markupAll, Tree.heightAll_append, Tree.heightAll]
    omega

end

/-- There is one node in the markup for each element. -/
theorem length_labelsAll_markupAll (table : ImplicitTags) (fallback : String)
    (parent : Option String) (forest : Abbreviation) :
    (Tree.labelsAll (markupAll fallback (resolveAll table fallback parent forest))).length =
      (Tree.labelsAll forest).countP (·.kind = .element) := by
  rw [← (marks_markupAll table fallback parent forest).length_eq, List.countP_eq_length_filter]

/-- The markup of an abbreviation has at least one node and no more nodes and levels than the options
allow, and the forest of all copies has at most as many nodes on each level as the markup may have. -/
theorem expandTree_bounded {source : String} {options : Options} {markup : Markup}
    (accepted : expandTree source options = .ok markup) :
    (1 ≤ (Tree.labelsAll markup).length ∧ (Tree.labelsAll markup).length ≤ options.maxNodes) ∧
      (∀ entry ∈ Tree.preorderAll 0 markup, entry.1 ≤ options.maxDepth) ∧
        ∃ forest copies, parseAbbreviation source options.maxDepth = .ok forest ∧
          unrollNodes source options.maxNodes forest = .ok copies ∧
            (Tree.labelsAll copies).length ≤ options.maxNodes * (options.maxDepth + 1) := by
  obtain ⟨-, forest, copies, parsed, unrolled, rfl⟩ := expandTree_iff_steps.1 accepted
  have traced := eq_traces_of_unrollNodes unrolled
  obtain ⟨nonempty, each⟩ := populated_of_parseAbbreviation parsed
  have populated : copies ≠ [] ∧ ∀ copy ∈ copies, Populated copy := by
    rw [traced]
    constructor
    · rw [Tree.mapAll_eq_map, ne_eq, List.map_eq_nil_iff]
      exact tracesAll_ne_nil nonempty each []
    · intro copy mem
      obtain ⟨tree, inside, mem⟩ := mem_copies.1 mem
      exact (each tree inside).copies [] copy mem
  have height : Tree.heightAll copies ≤ options.maxDepth + 1 := by
    obtain ⟨tokens, -, read⟩ := Except.bind_eq_ok_iff.1 parsed
    have shallow := (staysWithin_iff read).1 (staysWithin_of_parseTokens (locate_eq_ok_iff.1 read))
    have levels := (Tree.depth_lt_iff_heightAll (Nat.zero_le _) forest).1
      fun entry mem => Nat.lt_succ_of_le (shallow entry mem)
    rw [traced, Tree.heightAll_mapAll]
    have := heightAll_tracesAll [] forest
    omega
  have elements : (Tree.labelsAll copies).countP (·.kind = .element) ≤ options.maxNodes := by
    rw [traced, Tree.labelsAll_mapAll, List.countP_map]
    exact Nat.le_trans (Nat.le_of_eq (countP_tracesAll [] forest))
      (weightAll_le_of_unrollNodes unrolled)
  refine ⟨?_, ?_, forest, copies, parsed, unrolled, ?_⟩
  · rw [length_labelsAll_markupAll]
    exact ⟨countP_labelsAll_pos populated.1 populated.2, elements⟩
  · have fewer := heightAll_markupAll options.implicitTags options.defaultTag none copies
    intro entry mem
    exact Nat.lt_succ_iff.1 ((Tree.depth_lt_iff_heightAll (Nat.zero_le _) _).2 (by omega) entry mem)
  · exact Nat.le_trans
      (length_labelsAll_le_of_forall fun tree mem => (populated.2 tree mem).length_labels_le)
      (Nat.mul_le_mul elements height)

/-- Twelve copies of elements and groups, six of them elements. -/
theorem expandTree_bounded_groups :
    ∃ markup, expandTree "((a)*2+b)*2" { maxNodes := 6, maxDepth := 2 } = .ok markup ∧
      (1 ≤ (Tree.labelsAll markup).length ∧ (Tree.labelsAll markup).length ≤ 6) ∧
        (∀ entry ∈ Tree.preorderAll 0 markup, entry.1 ≤ 2) ∧
          ∃ forest copies, parseAbbreviation "((a)*2+b)*2" 2 = .ok forest ∧
            unrollNodes "((a)*2+b)*2" 6 forest = .ok copies ∧
              (Tree.labelsAll copies).length ≤ 6 * (2 + 1) := by
  have labels : (expandTree "((a)*2+b)*2" { maxNodes := 6, maxDepth := 2 }).toOption.map
      (fun markup => (Tree.labelsAll markup).length) = some 6 := by decide +kernel
  obtain ⟨markup, accepted, -⟩ := Except.exists_of_toOption_map labels
  exact ⟨markup, accepted, expandTree_bounded accepted⟩

end Shorthand
