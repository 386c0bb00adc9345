import Shorthand.Proofs.Abbreviation.SingleId
import Shorthand.Proofs.Abbreviation.Surroundings

/-! # Rearranging the parts of elements

Behind its tag an element may have its parts in any order, but the order of its classes shows.  Of two
lists of tokens that differ in this way only, the parser reads one run after the other to states that
are alike, and so it makes the same nodes of both, in other places.
-/
namespace Shorthand

open Shorthand.Parser

/-- A run of tokens in another order: its tags stay where they are, and its classes in their order. -/
structure Shuffles (run run' : List Token) : Prop where
  perm : run.Perm run'
  tags : run.map Token.tag? = run'.map Token.tag?
  classes : run.filterMap Token.class? = run'.filterMap Token.class?

instance (run run' : List Token) : Decidable (Shuffles run run') :=
  decidable_of_iff (run.Perm run' ∧ run.map Token.tag? = run'.map Token.tag? ∧
      run.filterMap Token.class? = run'.filterMap Token.class?)
    ⟨fun h => ⟨h.1, h.2.1, h.2.2⟩, fun h => ⟨h.perm, h.tags, h.classes⟩⟩

/-- Tokens with each run of element tokens between their operators and parentheses in another
order. -/
inductive Rearranges : List Token → List Token → Prop where
  | run {run run' : List Token} (inside : ∀ token ∈ run, token.endsElement = false)
      (shuffles : Shuffles run run') : Rearranges run run'
  | operator {run run' rest rest' : List Token} {operator : Token}
      (inside : ∀ token ∈ run, token.endsElement = false) (shuffles : Shuffles run run')
      (ends : operator.endsElement = true) (onward : Rearranges rest rest') :
      Rearranges (run ++ operator :: rest) (run' ++ operator :: rest')

section Shuffles

variable {run run' : List Token}

theorem Shuffles.symm (h : Shuffles run run') : Shuffles run' run :=
  ⟨h.perm.symm, h.tags.symm, h.classes.symm⟩

theorem Shuffles.inside (h : Shuffles run run')
    (inside : ∀ token ∈ run, token.endsElement = false) :
    ∀ token ∈ run', token.endsElement = false :=
  fun token mem => inside token (h.perm.mem_iff.2 mem)

theorem Rearranges.symm {tokens tokens' : List Token} (h : Rearranges tokens tokens') :
    Rearranges tokens' tokens := by
  induction h with
  | run inside shuffles => exact .run (shuffles.inside inside) shuffles.symm
  | operator inside shuffles ends _ ih =>
    exact .operator (shuffles.inside inside) shuffles.symm ends ih

/-! ## One element -/

theorem IsElementRun.shuffled (isRun : IsElementRun run) (h : Shuffles run run') :
    IsElementRun run' where
  nonempty := by
    rintro rfl
    exact isRun.nonempty h.perm.eq_nil
  inside := h.inside isRun.inside
  tagFirst := by
    have behind : (run.map Token.tag?).tail = (run'.map Token.tag?).tail := by rw [h.tags]
    have untagged : ∀ tag ∈ (run.map Token.tag?).tail, tag = none := by
      rw [← List.map_tail, List.forall_mem_map]
      exact isRun.tagFirst
    rwa [behind, ← List.map_tail, List.forall_mem_map] at untagged
  once part := by
    rw [← h.perm.countP_eq]
    exact isRun.once part

/-- A part that is read from one token at most is the same wherever the token stands. -/
theorem IsElementRun.findSome?_shuffled {β : Type} (isRun : IsElementRun run)
    (h : Shuffles run run') (part : Part) {read? : Token → Option β}
    (reads : ∀ token, (read? token).isSome = true → token.part? = some part) :
    run.findSome? read? = run'.findSome? read? := by
  ext value
  rw [isRun.findSome?_eq_some_iff part reads,
    (isRun.shuffled h).findSome?_eq_some_iff part reads]
  simp only [h.perm.mem_iff]

theorem IsElementRun.ofRun_shuffled (isRun : IsElementRun run) (h : Shuffles run run') :
    Parts.ofRun run = Parts.ofRun run' := by
  have tags : run.findSome? Token.tag? = run'.findSome? Token.tag? := by
    have same := congrArg (List.findSome? id) h.tags
    simpa only [List.findSome?_map, Function.id_comp] using same
  simp only [Parts.ofRun, Parts.mk.injEq]
  refine ⟨tags, h.classes, ?_, ?_, ?_, ?_⟩
  · exact isRun.findSome?_shuffled h .id
      (by intro token; cases token <;> simp [Token.id?, Token.part?])
  · exact isRun.findSome?_shuffled h .attributes
      (by intro token; cases token <;> simp [Token.attributes?, Token.part?])
  · exact isRun.findSome?_shuffled h .text
      (by intro token; cases token <;> simp [Token.text?, Token.part?])
  · exact isRun.findSome?_shuffled h .multiplier
      (by intro token; cases token <;> simp [Token.multiplier?, Token.part?])

end Shuffles

/-! ## One run -/

namespace Parser

variable {limit limit' : Nat} {base frames : List Frame} {lead before : Abbreviation}
  {state state' next : State} {placed placed' : List PlacedToken}

/-- Where an item has to start, tokens without an operator are read as one element. -/
theorem State.Awaits.isElementRun_of_run (awaits : state.Awaits frames before)
    (nonempty : placed ≠ []) (inside : ∀ token ∈ placed.map (·.token), token.endsElement = false)
    (ok : State.run limit state placed = .ok next) : IsElementRun (placed.map (·.token)) := by
  induction placed using List.reverseRecOn generalizing next with
  | nil => exact absurd rfl nonempty
  | append_singleton front last ih =>
    rw [List.map_append, List.map_singleton] at inside ⊢
    rw [List.forall_mem_append, List.forall_mem_singleton] at inside
    by_cases first : front = []
    · subst first
      exact .singleton inside.2
    · rw [State.run_append] at ok
      obtain ⟨middle, reads, ok⟩ := Except.bind_eq_ok_iff.1 ok
      obtain ⟨next, step, -⟩ := Except.bind_eq_ok_iff.1 ok
      have isRun := ih first inside.1 reads
      rw [State.run_elementRun limit awaits isRun] at reads
      cases reads
      cases step_eq_ok_iff.1 step with
      | startElement awaits => cases awaits
      | extendElement added => exact (isRun.concat_of_add added).1
      | openGroup _ outside | child _ outside | sibling _ outside | climb _ outside
        | closeGroup _ outside =>
        exact absurd outside (Token.ne_of_endsElement inside.2 rfl)

/-- Behind the multiplier of a group nothing else of an element can be read. -/
theorem State.eq_nil_of_run_complete {node : Node} (complete : state.item = .complete node)
    (inside : ∀ token ∈ placed.map (·.token), token.endsElement = false)
    (ok : State.run limit state placed = .ok next) : placed = [] := by
  cases placed with
  | nil => rfl
  | cons first rest =>
    obtain ⟨middle, step, -⟩ := Except.bind_eq_ok_iff.1 ok
    have inside : first.token.endsElement = false := inside first.token (by simp)
    cases step_eq_ok_iff.1 step with
    | startElement awaits => cases awaits <;> cases complete
    | extendElement | multiplyGroup => cases complete
    | openGroup _ outside | child _ outside | sibling _ outside | climb _ outside
      | closeGroup _ outside => exact absurd outside (Token.ne_of_endsElement inside rfl)

def State.Between (state : State) : Prop := ∀ parts span, state.item ≠ .element parts span

theorem StepsTo.between {operator : PlacedToken} (h : StepsTo limit state operator next)
    (ends : operator.token.endsElement = true) : next.Between := by
  intro parts span
  cases h with
  | startElement _ inside => rw [inside] at ends; cases ends
  | extendElement added => rw [(Parts.add_eq_added_iff.1 added).1] at ends; cases ends
  | openGroup | multiplyGroup | child | sibling | climb | closeGroup => nofun

/-- A run and the same run shuffled lead from alike states to alike states. -/
theorem State.Over.run_shuffled (h : State.Over base lead state state') (between : state.Between)
    (inside : ∀ token ∈ placed.map (·.token), token.endsElement = false)
    (shuffles : Shuffles (placed.map (·.token)) (placed'.map (·.token)))
    (room : limit + base.length ≤ limit') (ok : State.run limit state placed = .ok next) :
    ∃ next', State.run limit' state' placed' = .ok next' ∧ State.Over base lead next next' := by
  cases placed with
  | nil =>
    obtain rfl : placed' = [] := by simpa using shuffles.perm.nil_eq
    cases ok
    exact ⟨state', rfl, h⟩
  | cons first rest =>
    obtain ⟨middle, step, later⟩ := Except.bind_eq_ok_iff.1 ok
    have outside {operator : Token} (ends : operator.endsElement = true) :
        first.token ≠ operator := Token.ne_of_endsElement (inside first.token (by simp)) ends
    cases step_eq_ok_iff.1 step with
    | startElement awaits =>
      have isRun := awaits.isElementRun_of_run (List.cons_ne_nil _ _) inside ok
      rw [State.run_elementRun limit awaits isRun] at ok
      cases ok
      obtain ⟨frames', before', awaits', levels⟩ := h.exists_awaits awaits
      refine ⟨_, State.run_elementRun limit' awaits' (isRun.shuffled shuffles), levels, ?_⟩
      rw [isRun.ofRun_shuffled shuffles]
      exact .element _ _ _
    | extendElement => exact absurd rfl (between _ _)
    | multiplyGroup =>
      -- A run of one token cannot be shuffled.
      have none : rest = [] := State.eq_nil_of_run_complete rfl
        (fun token mem => inside token (List.mem_cons_of_mem _ mem)) later
      subst none
      have same : placed'.map (·.token) = [first].map (·.token) :=
        List.perm_singleton.1 shuffles.perm.symm
      exact h.run same room ok
    | openGroup _ operator | child _ operator | sibling _ operator | climb _ operator
      | closeGroup _ operator => exact absurd operator (outside rfl)

/-! ## All runs -/

/-- Rearranged tokens lead from alike states to alike states. -/
theorem State.Over.run_rearranged {tokens tokens' : List Token}
    (rearranges : Rearranges tokens tokens') (same : placed.map (·.token) = tokens)
    (same' : placed'.map (·.token) = tokens') (h : State.Over base lead state state')
    (between : state.Between) (room : limit + base.length ≤ limit')
    (ok : State.run limit state placed = .ok next) :
    ∃ next', State.run limit' state' placed' = .ok next' ∧ State.Over base lead next next' := by
  induction rearranges generalizing state state' placed placed' with
  | run inside shuffles =>
    subst same same'
    exact h.run_shuffled between inside shuffles room ok
  | operator inside shuffles ends _ ih =>
    obtain ⟨front, back, rfl, rfl, behind⟩ := List.map_eq_append_iff.1 same
    obtain ⟨front', back', rfl, rfl, behind'⟩ := List.map_eq_append_iff.1 same'
    obtain ⟨operator, rest, rfl, rfl, rfl⟩ := List.map_eq_cons_iff.1 behind
    obtain ⟨operator', rest', rfl, token, rfl⟩ := List.map_eq_cons_iff.1 behind'
    rw [State.run_append] at ok
    obtain ⟨middle, reads, ok⟩ := Except.bind_eq_ok_iff.1 ok
    obtain ⟨last, step, later⟩ := Except.bind_eq_ok_iff.1 ok
    have step := step_eq_ok_iff.1 step
    obtain ⟨middle', reads', alike⟩ := h.run_shuffled between inside shuffles room reads
    obtain ⟨last', step', alike⟩ := alike.step token room step
    obtain ⟨next', later', alike⟩ := ih rfl rfl alike (step.between ends) later
    refine ⟨next', State.run_append_of_ok reads' ?_, alike⟩
    rw [State.run_cons, step'.step_eq]
    exact later'

theorem exists_parseTokens_rearranged {stop stop' : Nat} {forest : Abbreviation}
    (rearranges : Rearranges (placed.map (·.token)) (placed'.map (·.token)))
    (parsed : parseTokens stop limit placed = .ok forest) :
    ∃ forest', parseTokens stop' limit placed' = .ok forest' ∧ Alike forest forest' := by
  obtain ⟨last, reads, finished⟩ := Except.bind_eq_ok_iff.1 parsed
  have start : State.Over [] [] {} {} := ⟨.bottom rfl, .missing⟩
  obtain ⟨last', reads', alike⟩ :=
    start.run_rearranged rearranges rfl rfl nofun (Nat.le_refl limit) reads
  obtain ⟨node, forest', ends, closed, alike⟩ := alike.exists_ends_of_finish finished
  refine ⟨forest', Except.bind_eq_ok_iff.2 ⟨last', reads', ?_⟩, alike⟩
  rw [State.finish_of_ends ends, State.close, closed]
  rfl

/-! ## Accepted tokens are told apart -/

section Apart

variable {read : PlacedToken}

/-- A tag can be read only where an item has to start. -/
theorem StepsTo.exists_awaits (h : StepsTo limit state read next)
    (tagged : read.token.tag? ≠ none) : ∃ frames before, state.Awaits frames before := by
  cases h with
  | openGroup awaits | startElement awaits => exact ⟨_, _, awaits⟩
  | extendElement added => exact absurd (Parts.add_eq_added_iff.1 added).2.1 tagged
  | multiplyGroup multiplies => simp [multiplies, Token.tag?] at tagged
  | child _ operator | sibling _ operator | climb _ operator | closeGroup _ operator =>
    simp [operator, Token.tag?] at tagged

theorem StepsTo.not_awaits (h : StepsTo limit state read next)
    (inside : read.token.endsElement = false) : ¬ next.Awaits frames before := by
  cases h with
  | startElement | extendElement | multiplyGroup => nofun
  | openGroup _ outside | child _ outside | sibling _ outside | climb _ outside
    | closeGroup _ outside => exact absurd outside (Token.ne_of_endsElement inside rfl)

/-- An id can be read only if the item under way has none. -/
theorem StepsTo.not_hasId (h : StepsTo limit state read next)
    (id : read.token.id?.isSome = true) : state.item.hasId = false := by
  cases h with
  | openGroup awaits | startElement awaits => cases awaits <;> rfl
  | extendElement added =>
    exact (Parts.add_eq_added_iff.1 added).2.2.1 .id (Token.isSome_id?_iff.1 id)
  | multiplyGroup => rfl
  | child _ operator | sibling _ operator | climb _ operator | closeGroup _ operator =>
    simp [operator, Token.id?] at id

theorem State.apart_of_run {seenId : Bool} (seen : seenId = true → state.item.hasId = true)
    (ok : State.run limit state placed = .ok next) : Apart seenId (placed.map (·.token)) := by
  induction placed generalizing state seenId with
  | nil => trivial
  | cons first rest ih =>
    obtain ⟨middle, step, later⟩ := Except.bind_eq_ok_iff.1 ok
    have step := step_eq_ok_iff.1 step
    refine ⟨fun runsOn second mem => ?_, fun id => ?_, ih (fun has => ?_) later⟩
    · have inside : first.token.endsElement = false := by
        cases token : first.token <;> simp [token, Token.runsOn, Token.endsElement] at runsOn ⊢
      by_contra tagged
      cases rest with
      | nil => cases mem
      | cons other rest =>
        cases mem
        obtain ⟨last, step', -⟩ := Except.bind_eq_ok_iff.1 later
        obtain ⟨frames, before, awaits⟩ := (step_eq_ok_iff.1 step').exists_awaits tagged
        exact step.not_awaits inside awaits
    · rw [← Bool.not_eq_true]
      intro had
      rw [step.not_hasId id] at seen
      cases seen had
    · rw [Lexer.hasId_eq, Bool.or_eq_true, Bool.and_eq_true, Bool.not_eq_true'] at has
      exact step.hasId_iff.2 (has.imp_right (And.imp_left seen))

/-- Tokens that make a forest can be told apart when they are written one behind the other. -/
theorem apart_of_parseTokens {stop : Nat} {forest : Abbreviation}
    (parsed : parseTokens stop limit placed = .ok forest) : Apart false (placed.map (·.token)) := by
  obtain ⟨last, reads, -⟩ := Except.bind_eq_ok_iff.1 parsed
  exact State.apart_of_run nofun reads

end Apart

end Parser

end Shorthand
