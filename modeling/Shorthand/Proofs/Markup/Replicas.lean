import Shorthand.Proofs.Abbreviation.Depth
import Shorthand.Proofs.Abbreviation.Templates
import Shorthand.Proofs.Markup.Grouping

/-! # Replicas

A group that is repeated shows what is in it as many times.  What differs from one time to the next
are the numbers only, never the shape.  A number comes from the nearest repeated node, so that inside
of a repeated node the replicas around it have no say.
-/
namespace Shorthand

open Shorthand.Parser

/-- Every element with a placeholder is repeated itself or lies in a node that is repeated, where
`branches` are the nodes with their ancestors. -/
def Restarts (branches : List (List Head)) : Prop :=
  ∀ branch ∈ branches, ∀ head ∈ branch.head?, head.kind = .element →
    (∃ template ∈ head.templates, '$' ∈ template.toList) →
      ∃ repeated ∈ branch, 1 < repeated.multiplier

instance (branches : List (List Head)) : Decidable (Restarts branches) :=
  inferInstanceAs (Decidable (∀ branch ∈ branches, ∀ head ∈ branch.head?, head.kind = .element →
    (∃ template ∈ head.templates, '$' ∈ template.toList) →
      ∃ repeated ∈ branch, 1 < repeated.multiplier))

/-! ## Copies of a forest -/

section Copies

variable {table : ImplicitTags} {fallback : String}

mutual

theorem shapeAll_expansion (parent parent' : Option String) (inherited inherited' : Option Replica) :
    (tree : Tree Head) →
      Tree.shapeAll (expansion table fallback parent inherited tree) =
        Tree.shapeAll (expansion table fallback parent' inherited' tree)
  | .node head children => by
    rw [expansion, expansion, Tree.shapeAll_flatMap, Tree.shapeAll_flatMap]
    refine List.flatMap_congr fun index _ => ?_
    cases head.kind with
    | group => exact shapeAll_expansionAll _ _ _ _ children
    | element =>
      exact congrArg (fun shape => [Tree.node () shape]) (shapeAll_expansionAll _ _ _ _ children)

/-- The shape of the markup depends neither on the tags nor on the replicas around the forest. -/
theorem shapeAll_expansionAll (parent parent' : Option String)
    (inherited inherited' : Option Replica) :
    (forest : List (Tree Head)) →
      Tree.shapeAll (expansionAll table fallback parent inherited forest) =
        Tree.shapeAll (expansionAll table fallback parent' inherited' forest)
  | [] => rfl
  | first :: rest => by
    rw [expansionAll, expansionAll, Tree.shapeAll_append, Tree.shapeAll_append,
      shapeAll_expansion parent parent' inherited inherited' first,
      shapeAll_expansionAll parent parent' inherited inherited' rest]

end

mutual

theorem expansion_of_restarts {above : List Head} (single : ∀ head ∈ above, ¬ 1 < head.multiplier)
    (parent : Option String) (one other : Option Replica) :
    (tree : Tree Head) → Restarts (tree.branches above) →
      expansion table fallback parent one tree = expansion table fallback parent other tree
  | .node head children, restarts => by
    rw [expansion, expansion]
    refine List.flatMap_congr fun index _ => ?_
    -- A repeated node hides the replicas around it from all nodes below, whatever these are.
    by_cases many : 1 < head.multiplier
    · rw [Head.numbered_of_many many one, Head.numbered_of_many many other]
    · have single' : ∀ node ∈ head :: above, ¬ 1 < node.multiplier :=
        List.forall_mem_cons.2 ⟨many, single⟩
      obtain ⟨here, below⟩ := List.forall_mem_cons.1 restarts
      have below (parent : Option String) (one other : Option Replica) :=
        expansionAll_of_restarts single' parent one other children below
      obtain ⟨shown, replica⟩ := head.numbered one index.toUInt64
      obtain ⟨shown', replica'⟩ := head.numbered other index.toUInt64
      cases kind : head.kind with
      | group =>
        have transparent (number : UInt64) : ((head.copy number).resolveTag table fallback
            parent).tagForChildren parent = parent := by
          have same := (head.copy number).resolveTag_kind table fallback parent
          exact Head.tagForChildren_of_group (same.trans kind) parent
        simp only [transparent]
        exact below parent replica replica'
      | element =>
        -- So far no node of the branch is repeated, and an element with a placeholder would need one.
        have plain : ∀ template ∈ head.templates, '$' ∉ template.toList := by
          intro template mem placeholder
          obtain ⟨repeated, mem, many⟩ := here head rfl kind ⟨template, mem, placeholder⟩
          exact single' repeated mem many
        simp only [head.copy_of_plain plain shown shown', below _ replica replica']

/-- Where all placeholders are inside of repeated nodes, the replicas around a forest do not matter. -/
theorem expansionAll_of_restarts {above : List Head}
    (single : ∀ head ∈ above, ¬ 1 < head.multiplier) (parent : Option String)
    (one other : Option Replica) :
    (forest : List (Tree Head)) → Restarts (Tree.branchesAll above forest) →
      expansionAll table fallback parent one forest = expansionAll table fallback parent other forest
  | [], _ => rfl
  | first :: rest, restarts => by
    rw [Tree.branchesAll, Restarts, List.forall_mem_append] at restarts
    rw [expansionAll, expansionAll, expansion_of_restarts single parent one other first restarts.1,
      expansionAll_of_restarts single parent one other rest restarts.2]

end

end Copies

/-! ## Groups that are repeated -/

def replicas (table : ImplicitTags) (fallback : String) (count : UInt64) (forest : Abbreviation) :
    List Markup :=
  (List.range' 1 count.toNat).map fun index =>
    let head : Head := { kind := .group, multiplier := count }
    expansionAll table fallback none (head.numbered none index.toUInt64).2 forest

theorem flatten_replicas (table : ImplicitTags) (fallback : String) (count : UInt64)
    (forest : Abbreviation) :
    (replicas table fallback count forest).flatten =
      expansion table fallback none none (.node { kind := .group, multiplier := count } forest) := by
  rw [replicas, ← List.flatMap_def, expansion]
  refine List.flatMap_congr fun index _ => ?_
  have transparent (number : UInt64) :
      ((({ kind := .group, multiplier := count } : Head).copy number).resolveTag table fallback
        none).tagForChildren none = none := rfl
  simp only [transparent]

theorem length_replicas (table : ImplicitTags) (fallback : String) (count : UInt64)
    (forest : Abbreviation) : (replicas table fallback count forest).length = count.toNat := by
  rw [replicas, List.length_map, List.length_range']

section Repeat

variable {one : String} {options : Options} {front : Markup} {forest : Abbreviation}

/-- With a level to spare, an abbreviation can be put in parentheses and repeated. -/
theorem expandTree_repeatedGroup {count : UInt64} (counted : count ≠ 0)
    (accepted : expandTree one options = .ok front)
    (parsed : parseAbbreviation one options.maxDepth = .ok forest)
    (deeper : ∀ entry ∈ Tree.preorderAll 0 forest, entry.1 < options.maxDepth)
    (room : count.toNat * (Tree.labelsAll front).length ≤ options.maxNodes) :
    expandTree ("(" ++ one ++ ")*" ++ toString count.toNat) options =
      .ok (replicas options.implicitTags options.defaultTag count forest).flatten := by
  obtain ⟨valid, forest', parsed', -, fits, rfl⟩ := expandTree_eq_ok_iff.1 accepted
  obtain rfl : forest' = forest := Except.ok.inj (parsed'.symm.trans parsed)
  obtain ⟨tokens, tokenized, parses⟩ := Except.bind_eq_ok_iff.1 parsed
  have read := Lexer.readsAs_of_readTokens (locate_eq_ok_iff.1 tokenized)
  have written : ("(" ++ one ++ ")*" ++ toString count.toNat).toList =
      '(' :: (one.toList ++ ')' :: (Token.multiplier count).display.toList) := by
    simp [Token.display]
  -- The parentheses open the level that the abbreviation leaves free.
  have positive : 0 < options.maxDepth := by
    obtain ⟨label, mem⟩ := Tree.exists_mem_preorderAll (populated_of_parseAbbreviation parsed).1 0
    exact deeper _ mem
  have within : StaysWithin (options.maxDepth - 1) [] tokens :=
    (staysWithin_iff parses).2 fun entry mem => Nat.le_sub_one_of_lt (deeper entry mem)
  have shallow := parseTokens_of_staysWithin (locate_eq_ok_iff.1 parses) within
  have light : weightAll [.node { kind := .group, multiplier := count } forest'] ≤
      options.maxNodes := by
    rw [weightAll, weightAll, weight_repeatedGroup, Nat.add_zero]
    rwa [length_labelsAll_expansionAll] at room
  have expands := expandTree_of_alike valid (written ▸ read.repeatedGroup counted)
    (fun placed same => exists_parseTokens_repeatedGroup shallow same (by omega)) light
    (fits_of_mem_group fits)
  rwa [expansionAll_singleton, ← flatten_replicas] at expands

/-- An abbreviation that expands can be repeated as a group as often as the limit allows.  Every time
it shows markup of the same shape, with as many leaves, and the same markup if all placeholders are
inside of repeated nodes. -/
theorem expandTree_repeat {count : Nat} (counted : 1 ≤ count)
    (word : options.maxNodes ≤ Text.maxWord) (accepted : expandTree one options = .ok front)
    (parsed : parseAbbreviation one options.maxDepth = .ok forest)
    (deeper : ∀ entry ∈ Tree.preorderAll 0 forest, entry.1 < options.maxDepth)
    (room : count * (Tree.labelsAll front).length ≤ options.maxNodes) :
    ∃ copies : List Markup, copies.length = count ∧
      expandTree ("(" ++ one ++ ")*" ++ toString count) options = .ok copies.flatten ∧
        (∀ copy ∈ copies, Tree.shapeAll copy = Tree.shapeAll front) ∧
          Tree.leafCountAll copies.flatten = count * Tree.leafCountAll front ∧
            (Restarts (Tree.branchesAll [] forest) → ∀ copy ∈ copies, copy = front) := by
  have some := Tree.length_labelsAll_pos (expandTree_ne_nil accepted)
  have fits : count ≤ Text.maxWord :=
    Nat.le_trans (Nat.le_trans (Nat.le_mul_of_pos_right count some) room) word
  have same : count.toUInt64.toNat = count := UInt64.toNat_ofNat_of_lt' (Nat.lt_succ_of_le fits)
  have repeated : count.toUInt64 ≠ 0 := by
    intro none
    rw [none] at same
    exact absurd counted (by simp [← same])
  obtain ⟨-, forest', parsed', -, -, shown⟩ := expandTree_eq_ok_iff.1 accepted
  obtain rfl : forest' = forest := Except.ok.inj (parsed'.symm.trans parsed)
  have shapes : ∀ copy ∈ replicas options.implicitTags options.defaultTag count.toUInt64 forest',
      Tree.shapeAll copy = Tree.shapeAll front := by
    rw [← shown]
    exact List.forall_mem_map.2 fun index _ => shapeAll_expansionAll _ _ _ _ forest'
  have expands := expandTree_repeatedGroup repeated accepted parsed deeper (by rwa [same])
  have leaves := Tree.leafCountAll_flatten_of_shapeAll shapes
  rw [length_replicas] at leaves
  rw [same] at expands leaves
  refine ⟨_, (length_replicas ..).trans same, expands, shapes, leaves, fun restarts => ?_⟩
  have outermost : ∀ head ∈ ([] : List Head), ¬ 1 < head.multiplier := List.forall_mem_nil _
  rw [← shown]
  exact List.forall_mem_map.2 fun index _ =>
    expansionAll_of_restarts outermost none _ none forest' restarts

end Repeat

/-- Numbers that start again in each copy of the group around them, under limits that are just wide
enough. -/
theorem expandTree_repeat_restarting :
    ∃ (front : Markup) (forest : Abbreviation) (copies : List Markup),
      expandTree "ul>(li.item$>p\x7b$\x7d)*2+b" { maxDepth := 4, maxNodes := 18 } = .ok front ∧
        parseAbbreviation "ul>(li.item$>p\x7b$\x7d)*2+b" 4 = .ok forest ∧
          (∀ entry ∈ Tree.preorderAll 0 forest, entry.1 < 4) ∧
            Restarts (Tree.branchesAll [] forest) ∧ 3 * (Tree.labelsAll front).length ≤ 18 ∧
              expandTree "(ul>(li.item$>p\x7b$\x7d)*2+b)*3" { maxDepth := 4, maxNodes := 18 } =
                .ok copies.flatten ∧ copies.length = 3 ∧ ∀ copy ∈ copies, copy = front := by
  have labels : (expandTree "ul>(li.item$>p\x7b$\x7d)*2+b"
      { maxDepth := 4, maxNodes := 18 }).toOption.map
        (fun markup => (Tree.labelsAll markup).length) = some 6 := by decide +kernel
  have nodes : (parseAbbreviation "ul>(li.item$>p\x7b$\x7d)*2+b" 4).toOption.map
      (fun forest => decide ((∀ entry ∈ Tree.preorderAll 0 forest, entry.1 < 4) ∧
        Restarts (Tree.branchesAll [] forest))) = some true := by decide +kernel
  obtain ⟨front, accepted, six⟩ := Except.exists_of_toOption_map labels
  obtain ⟨forest, parsed, holds⟩ := Except.exists_of_toOption_map nodes
  obtain ⟨deeper, restarts⟩ := of_decide_eq_true holds
  have room : 3 * (Tree.labelsAll front).length ≤ 18 := by rw [six]
  obtain ⟨copies, three, expands, -, -, equal⟩ :=
    expandTree_repeat (by decide) (by decide) accepted parsed deeper room
  exact ⟨front, forest, copies, accepted, parsed, deeper, restarts, room, expands, three,
    equal restarts⟩

end Shorthand
