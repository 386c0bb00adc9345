import Shorthand.Proofs.Abbreviation.Unrolling

/-! # Weights of abbreviations

The weight of a forest is the number of elements that it unrolls to, counted without unrolling it.
A limit on the number of elements lets through just the forests that weigh no more, as long as
unrolling reaches no placeholder that is too long.
-/
namespace Shorthand

mutual

/-- The number of elements in all copies of a node. -/
def weight : Tree Head → Nat
  | .node head children =>
    head.multiplier.toNat * ((if head.kind = .element then 1 else 0) + weightAll children)

def weightAll : List (Tree Head) → Nat
  | [] => 0
  | first :: rest => weight first + weightAll rest

end

theorem weight_repeatedGroup (count : UInt64) (span : Span) (children : Abbreviation) :
    weight (.node { kind := .group, multiplier := count, span } children) =
      count.toNat * weightAll children := by
  rw [weight, if_neg nofun, Nat.zero_add]

theorem weight_group (span : Span) (children : Abbreviation) :
    weight (.node { kind := .group, span } children) = weightAll children := by
  rw [weight_repeatedGroup 1]
  exact Nat.one_mul _

theorem weight_tag (name : String) (span : Span) (children : Abbreviation) :
    weight (.node { tag := some name, span } children) = 1 + weightAll children := by
  have once : ({ tag := some name, span } : Head).multiplier.toNat = 1 := rfl
  rw [weight, once, if_pos rfl, Nat.one_mul]

mutual

theorem countP_traces (above : Path) :
    (tree : Tree Head) →
      (Tree.labelsAll (traces above tree)).countP (·.copy.kind = .element) = weight tree
  | .node head children => by
    have once (index : UInt64) :
        (Tree.labels (.node ((head, index) :: above) (tracesAll ((head, index) :: above)
          children))).countP (fun path : Path => path.copy.kind = .element) =
            (if head.kind = .element then 1 else 0) + weightAll children := by
      rw [Tree.labels, List.countP_cons, countP_tracesAll _ children, Nat.add_comm]
      congr 1
      simp only [decide_eq_true_eq]
      rfl
    rw [traces, weight, Tree.labelsAll_eq_flatMap, List.flatMap_map, List.countP_flatMap]
    simp only [Function.comp_def, once, List.map_const', List.length_range', List.sum_replicate_nat]

/-- Every element is unrolled to as many copies as it weighs. -/
theorem countP_tracesAll (above : Path) :
    (forest : List (Tree Head)) →
      (Tree.labelsAll (tracesAll above forest)).countP (·.copy.kind = .element) = weightAll forest
  | [] => rfl
  | first :: rest => by
    rw [tracesAll, Tree.labelsAll_append, List.countP_append, countP_traces above first,
      countP_tracesAll above rest, weightAll]

end

theorem countP_copied (forest : Abbreviation) :
    (copied forest).countP (·.kind = .element) = weightAll forest := by
  rw [copied, List.countP_map, ← countP_tracesAll []]
  simp only [Function.comp_def, Path.copy_kind]

/-! ## The limit -/

section Limit

variable {source : String} {limit : Nat} {forest copies : Abbreviation}

theorem unrollNodes_of_tooWide (wide : Head.TooWideWithin limit (copied forest)) :
    unrollNodes source limit forest = .error .crash := by
  rw [unrollNodes_eq, Head.enterAll_of_tooWide wide]

theorem unrollNodes_of_not_tooWide (short : ¬Head.TooWideWithin limit (copied forest)) :
    unrollNodes source limit forest =
      match ((copied forest).filter (·.kind = .element))[limit]? with
      | none => .ok (Tree.mapAll Path.copy (tracesAll [] forest))
      | some head =>
        .error (.reported (.located ⟨.limit limit .nodes, head.span⟩
          (offsetAt source head.span.start))) := by
  rw [unrollNodes_eq, Head.enterAll_of_not_tooWide short]
  cases ((copied forest).filter (·.kind = .element))[limit]? <;> rfl

theorem not_tooWideWithin_iff (light : weightAll forest ≤ limit) :
    ¬Head.TooWideWithin limit (copied forest) ↔ ∀ head ∈ copied forest, head.Fits :=
  Head.not_tooWideWithin_iff_of_le (by rwa [countP_copied])

theorem unrollNodes_of_weightAll_le (source : String) (light : weightAll forest ≤ limit)
    (fits : ∀ head ∈ copied forest, head.Fits) :
    unrollNodes source limit forest = .ok (Tree.mapAll Path.copy (tracesAll [] forest)) := by
  have short := (not_tooWideWithin_iff light).2 fits
  rw [← countP_copied, List.countP_eq_length_filter] at light
  rw [unrollNodes_of_not_tooWide short, List.getElem?_eq_none light]

/-- Where there is room for all copies, one placeholder that is too long is enough. -/
theorem unrollNodes_crashes_of_weightAll_le (source : String) (light : weightAll forest ≤ limit)
    (wide : ¬∀ head ∈ copied forest, head.Fits) :
    unrollNodes source limit forest = .error .crash :=
  unrollNodes_of_tooWide (Classical.not_not.1 (mt (not_tooWideWithin_iff light).1 wide))

theorem unrollNodes_of_lt_weightAll (source : String) (exceeds : limit < weightAll forest)
    (short : ¬Head.TooWideWithin limit (copied forest)) :
    ∃ head, ((copied forest).filter (·.kind = .element))[limit]? = some head ∧
      unrollNodes source limit forest =
        .error (.reported (.located ⟨.limit limit .nodes, head.span⟩
          (offsetAt source head.span.start))) := by
  rw [← countP_copied, List.countP_eq_length_filter] at exceeds
  have found := List.getElem?_eq_getElem exceeds
  refine ⟨_, found, ?_⟩
  rw [unrollNodes_of_not_tooWide short, found]

theorem exists_of_unrollNodes_error {failure : Failure}
    (failed : unrollNodes source limit forest = .error failure) :
    failure = .crash ∨ ∃ head ∈ Tree.labelsAll forest, failure =
      .reported (.located ⟨.limit limit .nodes, head.span⟩ (offsetAt source head.span.start)) := by
  by_cases wide : Head.TooWideWithin limit (copied forest)
  · rw [unrollNodes_of_tooWide wide] at failed
    cases failed
    exact .inl rfl
  · rw [unrollNodes_of_not_tooWide wide] at failed
    split at failed
    next => cases failed
    next head found =>
      cases failed
      have mem := (List.mem_filter.1 (List.mem_of_getElem? found)).1
      exact .inr ⟨head, mem_labelsAll_of_mem_copied mem, rfl⟩

theorem unrollNodes_eq_ok_iff :
    unrollNodes source limit forest = .ok copies ↔
      weightAll forest ≤ limit ∧ (∀ head ∈ copied forest, head.Fits) ∧
        copies = Tree.mapAll Path.copy (tracesAll [] forest) := by
  constructor
  · intro unrolled
    have short : ¬Head.TooWideWithin limit (copied forest) := fun wide => by
      rw [unrollNodes_of_tooWide wide] at unrolled
      cases unrolled
    have light : weightAll forest ≤ limit := by
      refine Nat.le_of_not_lt fun exceeds => ?_
      obtain ⟨_, -, failed⟩ := unrollNodes_of_lt_weightAll source exceeds short
      rw [failed] at unrolled
      cases unrolled
    exact ⟨light, (not_tooWideWithin_iff light).1 short, eq_traces_of_unrollNodes unrolled⟩
  · rintro ⟨light, fits, rfl⟩
    exact unrollNodes_of_weightAll_le source light fits

theorem weightAll_le_of_unrollNodes (unrolled : unrollNodes source limit forest = .ok copies) :
    weightAll forest ≤ limit :=
  (unrollNodes_eq_ok_iff.1 unrolled).1

end Limit

/-- Unless a placeholder is too long in a copy that there is room for, a forest can be unrolled within
a limit if and only if it weighs no more.  The copies then have as many elements as it weighs, and are
the same for every larger limit.  Otherwise the element is to blame of which a copy is the first beyond
the limit in the forest of all copies.  With such a placeholder, unrolling crashes. -/
theorem unrollNodes_decides_weight (source : String) (limit : Nat) (forest : Abbreviation) :
    ((∃ copies, unrollNodes source limit forest = .ok copies) ↔
        weightAll forest ≤ limit ∧ ¬Head.TooWideWithin limit (copied forest)) ∧
      (∀ copies, unrollNodes source limit forest = .ok copies →
        copies = Tree.mapAll Path.copy (tracesAll [] forest) ∧
          (Tree.labelsAll copies).countP (·.kind = .element) = weightAll forest ∧
            ∀ larger, limit ≤ larger → unrollNodes source larger forest = .ok copies) ∧
        (limit < weightAll forest → ¬Head.TooWideWithin limit (copied forest) →
          ∃ head, ((copied forest).filter (·.kind = .element))[limit]? = some head ∧
            unrollNodes source limit forest =
              .error (.reported (.located ⟨.limit limit .nodes, head.span⟩
                (offsetAt source head.span.start)))) ∧
          (Head.TooWideWithin limit (copied forest) →
            unrollNodes source limit forest = .error .crash) := by
  refine ⟨⟨?_, ?_⟩, ?_, unrollNodes_of_lt_weightAll source, unrollNodes_of_tooWide⟩
  · rintro ⟨copies, unrolled⟩
    refine ⟨weightAll_le_of_unrollNodes unrolled, fun wide => ?_⟩
    rw [unrollNodes_of_tooWide wide] at unrolled
    cases unrolled
  · rintro ⟨light, short⟩
    exact ⟨_, unrollNodes_of_weightAll_le source light ((not_tooWideWithin_iff light).1 short)⟩
  · intro copies unrolled
    obtain ⟨light, fits, traced⟩ := unrollNodes_eq_ok_iff.1 unrolled
    refine ⟨traced, ?_, fun larger le =>
      unrollNodes_eq_ok_iff.2 ⟨Nat.le_trans light le, fits, traced⟩⟩
    rw [traced, Tree.labelsAll_mapAll, List.countP_map]
    exact countP_tracesAll [] forest

/-- A single element weighs 1, but with a placeholder that is too long it cannot be unrolled. -/
theorem unrollNodes_crashes_within_limit :
    let forest : Abbreviation := [.node { text := some Numbering.longRun } []]
    weightAll forest ≤ 1 ∧ unrollNodes "" 1 forest = .error .crash ∧
      ¬∃ copies, unrollNodes "" 1 forest = .ok copies := by
  intro forest
  have light : weightAll forest ≤ 1 := by decide
  have wide : ¬({ text := some Numbering.longRun } : Head).Fits :=
    Head.not_fits_of_mem (by simp [Head.templates]) Numbering.not_fits_longRun
  have crashes := unrollNodes_crashes_of_weightAll_le "" light fun fits =>
    wide (fits _ List.mem_cons_self)
  refine ⟨light, crashes, ?_⟩
  rintro ⟨copies, unrolled⟩
  rw [crashes] at unrolled
  cases unrolled

end Shorthand
