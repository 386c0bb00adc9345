import Shorthand.Proofs.Abbreviation.Templates
import Shorthand.Proofs.Abbreviation.Weight
import Shorthand.Proofs.Numbering.Name

/-! # The normal form of an abbreviation

A node is settled if it stands for itself alone: it is not repeated, numbered in no way of its own, and
none of its templates has a placeholder.  Unrolling makes settled copies, and of a settled node it makes
the same node again, whatever replica is around it.  So a forest that has been unrolled stays as it is.
-/
namespace Shorthand

/-- A node that is its own and only copy. -/
structure Head.IsSettled (head : Head) : Prop where
  single : head.multiplier = 1
  numbering : head.numbering = .plain
  plain : ∀ template ∈ head.templates, '$' ∉ template.toList

namespace Head

theorem isSettled_copy (head : Head) (number : UInt64) : (head.copy number).IsSettled where
  single := rfl
  numbering := rfl
  plain := by
    rw [templates_copy, List.forall_mem_map]
    exact fun template _ => Numbering.dollar_not_mem_substitute template number

theorem names_copy (head : Head) (number : UInt64) :
    (head.copy number).attributes.map (·.name) = head.attributes.map (·.name) := by
  rw [copy, mapTemplates, List.map_map]
  rfl

theorem IsSettled.fits {head : Head} (h : head.IsSettled) : head.Fits :=
  fun template mem => Numbering.fits_of_plain (h.plain template mem)

theorem IsSettled.copy_eq {head : Head} (h : head.IsSettled) (number : UInt64) :
    head.copy number = head := by
  have same : head.mapTemplates (Numbering.substitute · number) = head :=
    mapTemplates_eq_self fun template mem =>
      Numbering.substitute_of_plain (h.plain template mem) number
  rw [copy, same, ← h.single, ← h.numbering]

end Head

/-! ## Unrolling again -/

mutual

theorem mapAll_copy_traces (above : Path) :
    (tree : Tree Head) → (∀ head ∈ tree.labels, head.IsSettled) →
      Tree.mapAll Path.copy (traces above tree) = [tree]
  | .node head children, settled => by
    obtain ⟨here, below⟩ := List.forall_mem_cons.1 settled
    have once : List.range' 1 head.multiplier.toNat = [1] := by
      rw [here.single]
      rfl
    rw [traces, once, List.map_singleton, Tree.mapAll, Tree.map, Tree.mapAll, Path.copy,
      here.copy_eq, mapAll_copy_tracesAll _ children below]

/-- Settled nodes have one copy each, and this is the node itself. -/
theorem mapAll_copy_tracesAll (above : Path) :
    (forest : List (Tree Head)) → (∀ head ∈ Tree.labelsAll forest, head.IsSettled) →
      Tree.mapAll Path.copy (tracesAll above forest) = forest
  | [], _ => rfl
  | first :: rest, settled => by
    rw [Tree.labelsAll, List.forall_mem_append] at settled
    rw [tracesAll, Tree.mapAll_append, mapAll_copy_traces above first settled.1,
      mapAll_copy_tracesAll above rest settled.2, List.singleton_append]

end

theorem weightAll_of_settled {forest : Abbreviation}
    (settled : ∀ head ∈ Tree.labelsAll forest, head.IsSettled) :
    weightAll forest = (Tree.labelsAll forest).countP (·.kind = .element) := by
  have traced := mapAll_copy_tracesAll [] forest settled
  rw [← countP_tracesAll []]
  nth_rewrite 2 [← traced]
  rw [Tree.labelsAll_mapAll, List.countP_map]
  rfl

theorem exists_copy_of_mem {forest : Abbreviation} {label : Head}
    (mem : label ∈ Tree.labelsAll (Tree.mapAll Path.copy (tracesAll [] forest))) :
    ∃ head ∈ Tree.labelsAll forest, ∃ number, label = head.copy number := by
  have outermost : ∀ entry ∈ ([] : Path), entry.2 ≠ 0 := List.forall_mem_nil _
  rw [Tree.labelsAll_mapAll] at mem
  obtain ⟨path, traced, rfl⟩ := List.mem_map.1 mem
  obtain ⟨head, index, above, rfl, inside⟩ :=
    (endsAt_of_mem_tracesAll outermost forest traced).ends
  exact ⟨head, inside, _, rfl⟩

/-- All nodes of an unrolled forest are settled copies of nodes of the forest, with the same names of
attributes, and unrolling once more changes nothing. -/
theorem unrollNodes_settles {source : String} {limit : Nat} {forest copies : Abbreviation}
    (unrolled : unrollNodes source limit forest = .ok copies) :
    (∀ label ∈ Tree.labelsAll copies, label.IsSettled ∧
      ∃ head ∈ Tree.labelsAll forest, (∃ number, label = head.copy number) ∧
        label.attributes.map (·.name) = head.attributes.map (·.name)) ∧
      unrollNodes source limit copies = .ok copies := by
  have traced := eq_traces_of_unrollNodes unrolled
  have origins : ∀ label ∈ Tree.labelsAll copies,
      ∃ head ∈ Tree.labelsAll forest, ∃ number, label = head.copy number := by
    rw [traced]
    exact fun label mem => exists_copy_of_mem mem
  have settled : ∀ label ∈ Tree.labelsAll copies, label.IsSettled := by
    intro label mem
    obtain ⟨head, -, number, rfl⟩ := origins label mem
    exact head.isSettled_copy number
  refine ⟨fun label mem => ⟨settled label mem, ?_⟩, ?_⟩
  · obtain ⟨head, inside, number, rfl⟩ := origins label mem
    exact ⟨head, inside, ⟨number, rfl⟩, head.names_copy number⟩
  · have weighs : weightAll copies = weightAll forest := by
      rw [weightAll_of_settled settled, traced, Tree.labelsAll_mapAll, List.countP_map]
      exact countP_tracesAll [] forest
    have light : weightAll copies ≤ limit := by
      rw [weighs]
      exact weightAll_le_of_unrollNodes unrolled
    have fits : ∀ head ∈ copied copies, head.Fits := fun head mem =>
      (settled head (mem_labelsAll_of_mem_copied mem)).fits
    rw [unrollNodes_of_weightAll_le source light fits, mapAll_copy_tracesAll [] copies settled]

/-- A repeated group around numbers that are counted downwards and a name of an attribute that looks like
a template. -/
theorem unrollNodes_settles_group :
    let forest : Abbreviation :=
      [.node { kind := .group, multiplier := 2 }
        [.node
          { tag := some "li$"
            attributes := [⟨"data-$", some "$$"⟩]
            multiplier := 3
            numbering := { start := 9, reversed := true } } []]]
    ∃ copies, unrollNodes "" 6 forest = .ok copies ∧
      (∀ label ∈ Tree.labelsAll copies, label.IsSettled ∧
        ∃ head ∈ Tree.labelsAll forest, (∃ number, label = head.copy number) ∧
          label.attributes.map (·.name) = head.attributes.map (·.name)) ∧
        unrollNodes "" 6 copies = .ok copies := by
  intro forest
  have unrolled : ∃ copies, unrollNodes "" 6 forest = .ok copies := ⟨_, rfl⟩
  obtain ⟨copies, unrolled⟩ := unrolled
  exact ⟨copies, unrolled, unrollNodes_settles unrolled⟩

end Shorthand
