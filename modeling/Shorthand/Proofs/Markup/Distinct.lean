import Mathlib.Data.List.Nodup
import Shorthand.Proofs.Abbreviation.Routes
import Shorthand.Proofs.Abbreviation.Templates
import Shorthand.Proofs.Markup.Grouping
import Shorthand.Proofs.Numbering.Sequence

/-! # Replicas can be told apart

A template with a placeholder that is not too long shows different numbers differently, and the
replicas of a repeated node show different numbers unless their numbering stands still or stops at the
largest word.  So each template with a placeholder is shown differently by all of them.
-/
namespace Shorthand

open Shorthand.Parser

namespace Head

variable {head : Head} {inherited : Option Replica}

/-! ## Numbers of the copies -/

def numbers (head : Head) (inherited : Option Replica) : List UInt64 :=
  (indices head.multiplier).map fun index => (head.numbered inherited index).1

theorem length_numbers : (head.numbers inherited).length = head.multiplier.toNat := by
  rw [numbers, List.length_map, length_indices]

/-- A node that is repeated numbers its copies itself, and a single copy differs from no other. -/
theorem numbered_inj {one other : UInt64} (moves : 1 ≤ head.numbering.step)
    (fits : head.numbering.start.toNat +
      (head.multiplier.toNat - 1) * head.numbering.step.toNat ≤ Text.maxWord)
    (counted : one ∈ indices head.multiplier) (counted' : other ∈ indices head.multiplier)
    (same : (head.numbered inherited one).1 = (head.numbered inherited other).1) : one = other := by
  rw [mem_indices] at counted counted'
  by_cases many : 1 < head.multiplier
  · rw [numbered_of_many many, numbered_of_many many] at same
    exact Numbering.number_inj moves fits counted.1 counted.2 counted'.1 counted'.2 same
  · have single : head.multiplier ≤ 1 := UInt64.not_lt.1 many
    have first {index : UInt64} (counted : 1 ≤ index ∧ index ≤ head.multiplier) : index = 1 :=
      UInt64.le_antisymm (UInt64.le_trans counted.2 single) counted.1
    rw [first counted, first counted']

theorem nodup_numbers (moves : 1 ≤ head.numbering.step)
    (fits : head.numbering.start.toNat +
      (head.multiplier.toNat - 1) * head.numbering.step.toNat ≤ Text.maxWord) :
    (head.numbers inherited).Nodup := by
  have different : (indices head.multiplier).Nodup :=
    (pairwise_indices head.multiplier).imp UInt64.ne_of_lt
  exact List.Nodup.map_on (fun one counted other counted' same =>
    numbered_inj moves fits counted counted' same) different

/-! ## Copies of one node -/

theorem labels_of_copies {remaining index room left : Nat} {copies : Abbreviation}
    {unrollChildren : Option Replica → Nat → Except Halt (Abbreviation × Nat)}
    (unrolled : head.copies inherited unrollChildren remaining index room = .ok (copies, left)) :
    copies.map (·.label) = (List.range' index remaining).map fun index =>
      head.copy (head.numbered inherited index.toUInt64).1 := by
  induction remaining generalizing index room copies left with
  | zero =>
    cases unrolled
    rfl
  | succ remaining ih =>
    rw [copies_succ] at unrolled
    obtain ⟨room, -, unrolled⟩ := Except.bind_eq_ok_iff.1 unrolled
    obtain ⟨⟨children, room⟩, -, unrolled⟩ := Except.bind_eq_ok_iff.1 unrolled
    obtain ⟨⟨rest, room⟩, later, unrolled⟩ := Except.bind_eq_ok_iff.1 unrolled
    cases unrolled
    rw [List.map_cons, ih later, List.range'_succ, List.map_cons]
    rfl

theorem labels_of_unroll {children copies : Abbreviation} {room left : Nat}
    (unrolled : unroll (.node head children) inherited room = .ok (copies, left)) :
    copies.map (·.label) = (head.numbers inherited).map head.copy := by
  rw [unroll] at unrolled
  rw [labels_of_copies unrolled, numbers, indices, List.map_map, List.map_map]
  rfl

theorem length_of_unroll {children copies : Abbreviation} {room left : Nat}
    (unrolled : unroll (.node head children) inherited room = .ok (copies, left)) :
    copies.length = head.multiplier.toNat := by
  rw [← List.length_map, labels_of_unroll unrolled, List.length_map, length_numbers]

/-- A node that has copies has no placeholder that is too long. -/
theorem fits_of_unroll {children copies : Abbreviation} {room left : Nat}
    (unrolled : unroll (.node head children) inherited room = .ok (copies, left))
    (repeated : head.multiplier ≠ 0) : head.Fits := by
  have positive : head.multiplier.toNat ≠ 0 := fun zero => repeated (UInt64.toNat_inj.1 zero)
  obtain ⟨remaining, some⟩ := Nat.exists_eq_succ_of_ne_zero positive
  rw [unroll, some, copies_succ] at unrolled
  obtain ⟨room, entered, -⟩ := Except.bind_eq_ok_iff.1 unrolled
  exact (enter_eq_ok_iff.1 entered).2

/-- All copies show a template with a placeholder, each in its own way. -/
theorem exists_texts_of_unroll {children copies : Abbreviation} {room left position : Nat}
    {template : String} (unrolled : unroll (.node head children) inherited room = .ok (copies, left))
    (different : (head.numbers inherited).Nodup) (found : head.templates[position]? = some template)
    (placeholder : '$' ∈ template.toList) :
    ∃ texts : List String,
      copies.map (·.label.templates[position]?) = texts.map some ∧ texts.Nodup := by
  refine ⟨(head.numbers inherited).map (Numbering.substitute template), ?_,
    different.map fun one other same => Numbering.substitute_inj placeholder same⟩
  have shown (number : UInt64) : (head.copy number).templates[position]? =
      some (Numbering.substitute template number) := by
    rw [templates_copy, List.getElem?_map, found, Option.map_some]
  have copied := congrArg (List.map fun label : Head => label.templates[position]?)
    (labels_of_unroll unrolled)
  simpa only [List.map_map, Function.comp_def, shown] using copied

end Head

/-! ## Elements on their own -/

section Written

variable {head : Head} {options : Options} {table : ImplicitTags} {fallback : String}

theorem Head.Writable.readsAs (fits : head.Writable) :
    Lexer.ReadsAs (head.written.flatMap (·.display.toList)) head.written := by
  have nothing : Resumes [] := ⟨by simp, trivial⟩
  have apart := apart_written head nothing
  rw [List.append_nil] at apart
  exact readTokens_display fits.legible apart

theorem Head.Writable.exists_parseTokens (fits : head.Writable) (kind : head.kind = .element)
    {placed : List PlacedToken} (same : placed.map (·.token) = head.written) (stop maxDepth : Nat) :
    ∃ nodes, parseTokens stop maxDepth placed = .ok nodes ∧ Alike [.node head []] nodes := by
  have isRun : IsElementRun (placed.map (·.token)) := by
    rw [same]
    exact Head.isElementRun_written
  have reads := State.run_elementRun maxDepth (State.Awaits.missing [] []) isRun
  have spells := fits.spells kind (spanOf placed)
  rw [← same] at spells
  have ends : Item.Ends (.element (.ofRun (placed.map (·.token))) (spanOf placed))
      (.node { head with span := spanOf placed } []) :=
    .element (isRun.finish_eq_ok_iff.2 ⟨_, spells, rfl⟩)
  exact ⟨_, Except.bind_eq_ok_iff.2 ⟨_, reads, State.finish_of_ends ends⟩, rfl⟩

theorem weightAll_leaf (kind : head.kind = .element) :
    weightAll [.node head []] = head.multiplier.toNat := by
  rw [weightAll, weightAll, weight, if_pos kind, weightAll, Nat.mul_one, Nat.add_zero]

theorem forall_fits_leaf_iff :
    (∀ node ∈ Tree.labelsAll [.node head []], node.Fits) ↔ head.Fits := by
  simp [Tree.labelsAll, Tree.labels]

theorem expandTree_written {source : String} (writable : head.Writable) (kind : head.kind = .element)
    (written : source.toList = head.written.flatMap (·.display.toList))
    (valid : options.validate = .ok ()) (room : head.multiplier.toNat ≤ options.maxNodes) :
    expandTree source options =
      if head.Fits then
        .ok (expansion options.implicitTags options.defaultTag none none (.node head []))
      else .error .crash := by
  rw [← weightAll_leaf kind] at room
  have read := written ▸ writable.readsAs
  have parses (placed : List PlacedToken) (same : placed.map (·.token) = head.written) :=
    writable.exists_parseTokens kind same source.utf8ByteSize options.maxDepth
  split
  next fits =>
    rw [expandTree_of_alike valid read parses room (forall_fits_leaf_iff.2 fits),
      expansionAll_singleton]
  next wide =>
    exact expandTree_crashes_of_alike valid read parses room (mt forall_fits_leaf_iff.1 wide)

/-- A repeated element without children stands in the markup once for each of its numbers. -/
theorem labelsAll_expansion_leaf (kind : head.kind = .element) (parent : Option String)
    (inherited : Option Replica) :
    Tree.labelsAll (expansion table fallback parent inherited (.node head [])) =
      (head.numbers inherited).map fun number =>
        ((head.copy number).resolveTag table fallback parent).element fallback := by
  rw [expansion, Tree.labelsAll_eq_flatMap, Head.numbers, indices, List.map_map, List.map_map,
    List.flatMap_assoc, List.map_eq_flatMap]
  refine List.flatMap_congr fun index _ => ?_
  rw [kind]
  rfl

theorem ids_of_expansion_leaf {name : String} (kind : head.kind = .element)
    (id : head.id = some name) (parent : Option String) (inherited : Option Replica) :
    (Tree.labelsAll (expansion table fallback parent inherited (.node head []))).map (·.id) =
      (head.numbers inherited).map fun number => some (Numbering.substitute name number) := by
  rw [labelsAll_expansion_leaf kind, List.map_map]
  refine List.map_congr_left fun number _ => ?_
  have shown : (head.copy number).id = some (Numbering.substitute name number) := by
    show head.id.map _ = _
    rw [id, Option.map_some]
  have element : (head.copy number).kind = .element := kind
  rw [Function.comp_apply, Head.element_resolveTag element, Head.element, shown, Option.some_or]

end Written

/-! ## Repeated ids -/

/-- An element that is written as an id and a multiplier. -/
def Head.ofId (name : String) (count : UInt64) : Head := { id := some name, multiplier := count }

section RepeatedId

variable {name : String} {count : UInt64} {options : Options}

theorem Head.writable_ofId (word : IsWord name) (counted : 1 ≤ count) :
    (ofId name count).Writable where
  names := by simpa [ofId] using word
  entries := List.forall_mem_nil _
  distinct := List.nodup_nil
  text := nofun
  unmodified := List.forall_mem_nil _
  multiplier := by
    rintro rfl
    exact absurd counted (by decide)
  numbering := rfl

theorem Head.written_ofId (name : String) (count : UInt64) :
    ("#" ++ name ++ "*" ++ toString count.toNat).toList =
      (ofId name count).written.flatMap (·.display.toList) := by
  simp [ofId, written, writtenParts, block?, Token.display]

/-- Counting from 1 never goes beyond the number of copies. -/
theorem Head.nodup_numbers_ofId (name : String) (count : UInt64) :
    ((ofId name count).numbers none).Nodup := by
  have bound := count.toNat_lt
  have start : (ofId name count).numbering.start.toNat = 1 := rfl
  have step : (ofId name count).numbering.step.toNat = 1 := rfl
  refine nodup_numbers (UInt64.le_refl 1) ?_
  rw [start, step, Saturating.maxWord_eq]
  have times : (ofId name count).multiplier = count := rfl
  rw [times]
  omega

theorem Head.fits_ofId_iff : (ofId name count).Fits ↔ Numbering.Fits name.toList := by
  simp [Fits, templates, ofId]

theorem expandTree_ofId (word : IsWord name) (counted : 1 ≤ count)
    (valid : options.validate = .ok ()) (room : count.toNat ≤ options.maxNodes) :
    expandTree ("#" ++ name ++ "*" ++ toString count.toNat) options =
      if Numbering.Fits name.toList then
        .ok (expansion options.implicitTags options.defaultTag none none
          (.node (Head.ofId name count) []))
      else .error .crash := by
  have expands := expandTree_written (Head.writable_ofId word counted) rfl
    (Head.written_ofId name count) valid room
  simpa only [Head.fits_ofId_iff] using expands

theorem expandTree_repeatedId (word : IsWord name) (placeholder : '$' ∈ name.toList)
    (fits : Numbering.Fits name.toList) (counted : 1 ≤ count) (valid : options.validate = .ok ())
    (room : count.toNat ≤ options.maxNodes) :
    ∃ markup, expandTree ("#" ++ name ++ "*" ++ toString count.toNat) options = .ok markup ∧
      (Tree.labelsAll markup).length = count.toNat ∧
        ((Tree.labelsAll markup).map (·.id)).Nodup := by
  have ids : (Tree.labelsAll (expansion options.implicitTags options.defaultTag none none
      (.node (Head.ofId name count) []))).map (·.id) =
        ((Head.ofId name count).numbers none).map fun number =>
          some (Numbering.substitute name number) :=
    ids_of_expansion_leaf rfl rfl none none
  refine ⟨_, (expandTree_ofId word counted valid room).trans (if_pos fits), ?_, ?_⟩
  · rw [← List.length_map, ids, List.length_map, Head.length_numbers]
    rfl
  · rw [ids]
    exact (Head.nodup_numbers_ofId name count).map fun one other same =>
      Numbering.substitute_inj placeholder (Option.some.inj same)

theorem expandTree_repeatedId_crashes (word : IsWord name) (wide : ¬Numbering.Fits name.toList)
    (counted : 1 ≤ count) (valid : options.validate = .ok ())
    (room : count.toNat ≤ options.maxNodes) :
    expandTree ("#" ++ name ++ "*" ++ toString count.toNat) options = .error .crash := by
  rw [expandTree_ofId word counted valid room, if_neg wide]

end RepeatedId

/-- A template with a placeholder tells all numbers apart, unless one of its runs of `$` is too long.
So the replicas of a node differ in all such templates, as long as their numbers move and stay below
the largest word, and there are none if a run is too long.  An element that is written as a repeated id
with a placeholder has as many ids, or makes the program crash. -/
theorem replicas_distinct (options : Options) :
    (∀ template : String, '$' ∈ template.toList →
      (Function.Injective (Numbering.substitute? template) ↔ Numbering.Fits template.toList) ∧
        ∀ number, Numbering.substitute? template number = none ↔
          ¬Numbering.Fits template.toList) ∧
    (∀ (head : Head) (children : Abbreviation) (inherited : Option Replica) (room left : Nat)
        (copies : Abbreviation),
      unroll (.node head children) inherited room = .ok (copies, left) →
      1 ≤ head.numbering.step →
      head.numbering.start.toNat +
        (head.multiplier.toNat - 1) * head.numbering.step.toNat ≤ Text.maxWord →
      copies.length = head.multiplier.toNat ∧ (head.multiplier ≠ 0 → head.Fits) ∧
        ∀ (position : Nat) (template : String), head.templates[position]? = some template →
          '$' ∈ template.toList → ∃ texts : List String,
            copies.map (·.label.templates[position]?) = texts.map some ∧ texts.Nodup) ∧
    (∀ (name : String) (count : UInt64), IsWord name → '$' ∈ name.toList → 1 ≤ count →
      options.validate = .ok () → count.toNat ≤ options.maxNodes →
      ((∃ markup, expandTree ("#" ++ name ++ "*" ++ toString count.toNat) options = .ok markup ∧
          (Tree.labelsAll markup).length = count.toNat ∧
            ((Tree.labelsAll markup).map (·.id)).Nodup) ↔ Numbering.Fits name.toList) ∧
        (¬Numbering.Fits name.toList →
          expandTree ("#" ++ name ++ "*" ++ toString count.toNat) options = .error .crash)) := by
  refine ⟨fun template placeholder => ?_, ?_, ?_⟩
  · exact ⟨Numbering.injective_substitute?_iff placeholder,
      fun number => Numbering.substitute?_eq_none_iff⟩
  · intro head children inherited room left copies unrolled moves bounded
    refine ⟨Head.length_of_unroll unrolled, Head.fits_of_unroll unrolled,
      fun position template found placeholder => ?_⟩
    exact Head.exists_texts_of_unroll unrolled (Head.nodup_numbers moves bounded) found placeholder
  · intro name count word placeholder counted valid room
    have crashes (wide : ¬Numbering.Fits name.toList) :=
      expandTree_repeatedId_crashes word wide counted valid room
    refine ⟨⟨?_, fun fits => ?_⟩, crashes⟩
    · rintro ⟨markup, accepted, -⟩
      refine Decidable.byContradiction fun wide => ?_
      rw [crashes wide] at accepted
      cases accepted
    · exact expandTree_repeatedId word placeholder fits counted valid room

/-- Numbers of different lengths next to a digit, counted downwards. -/
theorem replicas_distinct_downwards :
    Numbering.substitute? "$1$" 1 ≠ Numbering.substitute? "$1$" 11 ∧
      (let head : Head :=
        { classes := ["x", "i$1$"]
          multiplier := 3
          numbering := { start := 9, reversed := true } }
      ∃ copies left, unroll (.node head []) (some ⟨2, 2, 7⟩) 4 = .ok (copies, left) ∧
        copies.length = 3 ∧ ∃ texts : List String,
          copies.map (·.label.templates[1]?) = texts.map some ∧ texts.Nodup) ∧
        ∃ markup, expandTree "#a$1$*12" .standard = .ok markup ∧
          (Tree.labelsAll markup).length = 12 ∧ ((Tree.labelsAll markup).map (·.id)).Nodup := by
  obtain ⟨tells, copied, written⟩ := replicas_distinct .standard
  refine ⟨fun same => ?_, ?_, ?_⟩
  · exact absurd ((tells "$1$" (by decide)).1.2 (by decide) same) (by decide)
  · intro head
    have unrolled : ∃ made, unroll (.node head []) (some ⟨2, 2, 7⟩) 4 = .ok made := ⟨_, rfl⟩
    obtain ⟨⟨copies, left⟩, unrolled⟩ := unrolled
    obtain ⟨length, -, differ⟩ := copied _ _ _ _ _ _ unrolled (by decide) (by decide)
    exact ⟨copies, left, unrolled, length, differ 1 "i$1$" rfl (by decide)⟩
  · exact (written "a$1$" 12 (by decide) (by decide) (by decide) (by decide +kernel)
      (by decide)).1.2 (by decide)

theorem isWord_longRun : IsWord Numbering.longRun where
  nonempty := by simp [Numbering.longRun]
  inside c mem := by
    rw [Numbering.longRun, String.toList_ofList] at mem
    rw [List.eq_of_mem_replicate mem]
    decide

/-- No number is shown by the shortest run that is too long, and no id either. -/
theorem replicas_crash :
    '$' ∈ Numbering.longRun.toList ∧
      Numbering.substitute? Numbering.longRun 1 = none ∧
        Numbering.substitute? Numbering.longRun 2 = none ∧
          expandTree ("#" ++ Numbering.longRun ++ "*" ++ toString (2 : UInt64).toNat) .standard =
            .error .crash := by
  have wide := Numbering.not_fits_longRun
  refine ⟨?_, Numbering.substitute?_eq_none_iff.2 wide, Numbering.substitute?_eq_none_iff.2 wide, ?_⟩
  · simp [Numbering.longRun]
  · exact expandTree_repeatedId_crashes isWord_longRun wide (by decide) (by decide +kernel) (by decide)

end Shorthand
