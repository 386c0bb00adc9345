import Shorthand.Proofs.Abbreviation.Populated
import Shorthand.Proofs.Abbreviation.RoundTrip
import Shorthand.Proofs.Markup.Bounds
import Shorthand.Proofs.Numbering.Placeholder

/-! # Expanding in one pass

Unrolling a forest, filling in the tags and dissolving the groups can be done at once: the markup of
a node depends on the node, on the tag that its parent passes down, and on the replica that it lies
in.  It does not depend on the places of nodes in the source.
-/
namespace Shorthand

section OnePass

variable (table : ImplicitTags) (fallback : String)

mutual

/-- The markup of all copies of a node, under an element with the tag `parent` if there is one, and
within a replica. -/
def expansion (parent : Option String) (inherited : Option Replica) : Tree Head → List (Tree Element)
  | .node head children =>
    (List.range' 1 head.multiplier.toNat).flatMap fun index =>
      let (number, replica) := head.numbered inherited index.toUInt64
      let copy := (head.copy number).resolveTag table fallback parent
      let below := expansionAll (copy.tagForChildren parent) replica children
      match head.kind with
      | .group => below
      | .element => [.node (copy.element fallback) below]

def expansionAll (parent : Option String) (inherited : Option Replica) :
    List (Tree Head) → List (Tree Element)
  | [] => []
  | first :: rest => expansion parent inherited first ++ expansionAll parent inherited rest

end

variable {table fallback}

theorem expansionAll_singleton (parent : Option String) (inherited : Option Replica) (tree : Node) :
    expansionAll table fallback parent inherited [tree] =
      expansion table fallback parent inherited tree := by
  rw [expansionAll, expansionAll, List.append_nil]

theorem resolveAll_eq_map (parent : Option String) (forest : Abbreviation) :
    resolveAll table fallback parent forest = forest.map (resolve table fallback parent) := by
  induction forest with
  | nil => rfl
  | cons first rest ih => rw [resolveAll, ih, List.map_cons]

theorem markupAll_eq_flatMap (forest : Abbreviation) :
    markupAll fallback forest = forest.flatMap (markup fallback) := by
  induction forest with
  | nil => rfl
  | cons first rest ih => rw [markupAll, ih, List.flatMap_cons]

mutual

theorem markupAll_traces (parent : Option String) (above : Path) :
    (tree : Tree Head) →
      markupAll fallback (resolveAll table fallback parent
        (Tree.mapAll Path.copy (traces above tree))) =
          expansion table fallback parent above.replica tree
  | .node head children => by
    rw [traces, expansion, Tree.mapAll_eq_map, resolveAll_eq_map, markupAll_eq_flatMap, List.map_map,
      List.map_map, List.flatMap_map]
    refine List.flatMap_congr fun index range => ?_
    have repeated : head.multiplier ≠ 0 := by
      rintro none
      rw [none] at range
      cases range
    rw [Path.numbered_eq repeated]
    simp only [Function.comp_apply, Tree.map, resolve, markup, Head.resolveTag_kind,
      markupAll_tracesAll _ _ children, Path.copy]
    rfl

/-- One pass makes the same markup as three. -/
theorem markupAll_tracesAll (parent : Option String) (above : Path) :
    (forest : List (Tree Head)) →
      markupAll fallback (resolveAll table fallback parent
        (Tree.mapAll Path.copy (tracesAll above forest))) =
          expansionAll table fallback parent above.replica forest
  | [] => rfl
  | first :: rest => by
    have here := markupAll_traces parent above first
    have later := markupAll_tracesAll parent above rest
    rw [tracesAll, expansionAll, ← here, ← later]
    simp only [Tree.mapAll_append, resolveAll_eq_map, markupAll_eq_flatMap, List.map_append,
      List.flatMap_append]

end

/-! ## What the markup does not depend on -/

theorem Head.resolveTag_unplaced (parent : Option String) (head : Head) :
    head.unplaced.resolveTag table fallback parent =
      (head.resolveTag table fallback parent).unplaced := by
  obtain ⟨kind, tag, classes, id, attributes, text, multiplier, numbering, span⟩ := head
  cases kind <;> cases tag <;> rfl

mutual

theorem expansion_map_unplaced (parent : Option String) (inherited : Option Replica) :
    (tree : Tree Head) →
      expansion table fallback parent inherited (tree.map Head.unplaced) =
        expansion table fallback parent inherited tree
  | .node head children => by
    rw [Tree.map, expansion, expansion]
    refine List.flatMap_congr fun index _ => ?_
    have copied (number : UInt64) : head.unplaced.copy number = (head.copy number).unplaced := rfl
    have numbered : head.unplaced.numbered inherited index.toUInt64 =
        head.numbered inherited index.toUInt64 := rfl
    simp only [numbered, copied, Head.resolveTag_unplaced,
      expansionAll_mapAll_unplaced _ _ children]
    rfl

/-- The places of nodes do not matter. -/
theorem expansionAll_mapAll_unplaced (parent : Option String) (inherited : Option Replica) :
    (forest : List (Tree Head)) →
      expansionAll table fallback parent inherited (Tree.mapAll Head.unplaced forest) =
        expansionAll table fallback parent inherited forest
  | [] => rfl
  | first :: rest => by
    rw [Tree.mapAll, expansionAll, expansionAll, expansion_map_unplaced _ _ first,
      expansionAll_mapAll_unplaced _ _ rest]

end

theorem Head.resolveTag_congr {parent other : Option String}
    (same : parent.bind table.childOf = other.bind table.childOf) (head : Head) :
    head.resolveTag table fallback parent = head.resolveTag table fallback other := by
  unfold resolveTag
  rw [same]

/-- An element passes down its own tag, a group that of the element around it. -/
theorem Head.tagForChildren_congr {parent other : Option String}
    (same : parent.bind table.childOf = other.bind table.childOf) (head : Head) :
    (head.tagForChildren parent).bind table.childOf =
      (head.tagForChildren other).bind table.childOf := by
  unfold tagForChildren
  cases head.kind with
  | element => rfl
  | group => exact same

mutual

theorem expansion_congr {parent other : Option String}
    (same : parent.bind table.childOf = other.bind table.childOf) (inherited : Option Replica) :
    (tree : Tree Head) →
      expansion table fallback parent inherited tree = expansion table fallback other inherited tree
  | .node head children => by
    rw [expansion, expansion]
    refine List.flatMap_congr fun index _ => ?_
    simp only [Head.resolveTag_congr same]
    rw [expansionAll_congr (Head.tagForChildren_congr same _) _ children]

/-- Only the tag that a parent implies matters. -/
theorem expansionAll_congr {parent other : Option String}
    (same : parent.bind table.childOf = other.bind table.childOf) (inherited : Option Replica) :
    (forest : List (Tree Head)) →
      expansionAll table fallback parent inherited forest =
        expansionAll table fallback other inherited forest
  | [] => rfl
  | first :: rest => by
    rw [expansionAll, expansionAll, expansion_congr same _ first, expansionAll_congr same _ rest]

end

/-! ## Nodes that are not repeated -/

variable (table fallback) in
/-- Outside of all replicas, a node that is not repeated passes none down. -/
theorem expansion_of_single {head : Head} (single : head.multiplier = 1) (parent : Option String)
    (children : Abbreviation) :
    ∃ number, expansion table fallback parent none (.node head children) =
      match head.kind with
      | .group => expansionAll table fallback
          (((head.copy number).resolveTag table fallback parent).tagForChildren parent) none children
      | .element => [.node (((head.copy number).resolveTag table fallback parent).element fallback)
          (expansionAll table fallback
            (((head.copy number).resolveTag table fallback parent).tagForChildren parent) none
            children)] := by
  have once : List.range' 1 head.multiplier.toNat = [1] := by rw [single]; rfl
  have numbered : head.numbered none (Nat.toUInt64 1) =
      (head.numbering.number (Nat.toUInt64 1) head.multiplier, none) := by
    simp [Head.numbered, Head.numbered.own, single]
  refine ⟨head.numbering.number (Nat.toUInt64 1) head.multiplier, ?_⟩
  rw [expansion, once, List.flatMap_singleton, numbered]

theorem expansion_group (parent : Option String) (span : Span) (children : Abbreviation) :
    expansion table fallback parent none (.node { kind := .group, span } children) =
      expansionAll table fallback parent none children := by
  have single : ({ kind := .group, span } : Head).multiplier = 1 := rfl
  obtain ⟨number, same⟩ := expansion_of_single table fallback single parent children
  exact same

theorem expansion_tag {name : String} (plain : '$' ∉ name.toList) (parent : Option String)
    (span : Span) (children : Abbreviation) :
    expansion table fallback parent none (.node { tag := some name, span } children) =
      [.node { tag := name } (expansionAll table fallback (some name) none children)] := by
  have copied (number : UInt64) :
      ({ tag := some name, span } : Head).copy number = { tag := some name, span } := by
    show ({ tag := some (Numbering.substitute name number), span } : Head) = _
    rw [Numbering.substitute_of_plain plain]
  have single : ({ tag := some name, span } : Head).multiplier = 1 := rfl
  obtain ⟨number, same⟩ := expansion_of_single table fallback single parent children
  rw [copied] at same
  exact same

end OnePass

theorem mem_copied_iff_of_parsed {source : String} {maxDepth : Nat} {forest : Abbreviation}
    (parsed : parseAbbreviation source maxDepth = .ok forest) {head : Head} :
    head ∈ copied forest ↔ head ∈ Tree.labelsAll forest := by
  refine mem_copied_iff fun node mem => ?_
  obtain ⟨tree, inside, mem⟩ := Tree.mem_labelsAll.1 mem
  exact (((populated_of_parseAbbreviation parsed).2 tree inside).of_mem_labels mem).1

/-- What it takes for an abbreviation to expand, and to what. -/
theorem expandTree_eq_ok_iff {source : String} {options : Options} {markup : Markup} :
    expandTree source options = .ok markup ↔
      options.validate = .ok () ∧ ∃ forest, parseAbbreviation source options.maxDepth = .ok forest ∧
        weightAll forest ≤ options.maxNodes ∧ (∀ head ∈ Tree.labelsAll forest, head.Fits) ∧
          expansionAll options.implicitTags options.defaultTag none none forest = markup := by
  have onePass (forest : Abbreviation) : expansionAll options.implicitTags options.defaultTag none
      none forest = markupAll options.defaultTag (resolveAll options.implicitTags options.defaultTag
        none (Tree.mapAll Path.copy (tracesAll [] forest))) :=
    (markupAll_tracesAll none [] forest).symm
  rw [expandTree_iff_steps]
  refine and_congr_right fun _ => exists_congr fun forest => ?_
  constructor
  · rintro ⟨copies, parsed, unrolled, rfl⟩
    obtain ⟨light, fits, rfl⟩ := unrollNodes_eq_ok_iff.1 unrolled
    exact ⟨parsed, light, fun head mem => fits head ((mem_copied_iff_of_parsed parsed).2 mem),
      onePass forest⟩
  · rintro ⟨parsed, light, fits, rfl⟩
    have unrolled := unrollNodes_of_weightAll_le source light fun head mem =>
      fits head ((mem_copied_iff_of_parsed parsed).1 mem)
    exact ⟨_, parsed, unrolled, (onePass forest).symm⟩

/-- The markup has as many elements as the forest weighs. -/
theorem length_labelsAll_expansionAll (table : ImplicitTags) (fallback : String)
    (forest : Abbreviation) :
    (Tree.labelsAll (expansionAll table fallback none none forest)).length = weightAll forest := by
  have start : Path.replica [] = none := rfl
  rw [← start, ← markupAll_tracesAll, length_labelsAll_markupAll, Tree.labelsAll_mapAll,
    List.countP_map]
  exact countP_tracesAll [] forest

theorem Populated.weight_pos {tree : Node} (h : Populated tree) : 0 < weight tree := by
  have some {multiplier : UInt64} (repeated : multiplier ≠ 0) : 0 < multiplier.toNat :=
    Nat.pos_of_ne_zero fun zero => repeated (UInt64.toNat_inj.1 zero)
  induction h with
  | element kind repeated =>
    rw [weight, if_pos kind]
    exact Nat.mul_pos (some repeated) (by omega)
  | group repeated filled below ih =>
    obtain ⟨first, rest, rfl⟩ := List.exists_cons_of_ne_nil filled
    have := ih first List.mem_cons_self
    rw [weight, weightAll]
    exact Nat.mul_pos (some repeated) (by omega)

theorem expandTree_ne_nil {source : String} {options : Options} {markup : Markup}
    (accepted : expandTree source options = .ok markup) : markup ≠ [] := by
  obtain ⟨-, forest, parsed, -, -, rfl⟩ := expandTree_eq_ok_iff.1 accepted
  obtain ⟨nonempty, each⟩ := populated_of_parseAbbreviation parsed
  obtain ⟨first, rest, rfl⟩ := List.exists_cons_of_ne_nil nonempty
  have some := (each first List.mem_cons_self).weight_pos
  have length := length_labelsAll_expansionAll options.implicitTags options.defaultTag (first :: rest)
  intro none
  rw [none, weightAll] at length
  change 0 = _ at length
  omega

end Shorthand
