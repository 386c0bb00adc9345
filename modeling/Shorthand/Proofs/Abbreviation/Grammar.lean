import Shorthand.Expansion
import Shorthand.Proofs.Abbreviation.ParserSteps
import Shorthand.Proofs.Except

/-! # The grammar of abbreviations

Which lists of tokens are abbreviations is said here without the parser: items with operators
between them, elements and groups as items, and as many `^` at most as there were `>` before them in
the same sequence.  The parser accepts these lists and no others, as long as its limit on levels is
no bar.
-/
namespace Shorthand

open Shorthand.Parser

mutual

/-- An element, or a group with a multiplier behind it or without one. -/
inductive IsItem : List Token → Prop where
  | element {run : List Token} (isRun : IsElementRun run) (agree : ModifiersAgree run) : IsItem run
  | group {opened climbed : Nat} {inner : List Token} (sequence : IsSequence opened climbed inner) :
      IsItem (.openGroup :: inner ++ [.closeGroup])
  | repeated {opened climbed : Nat} {inner : List Token} (count : UInt64)
      (sequence : IsSequence opened climbed inner) :
      IsItem (.openGroup :: inner ++ [.closeGroup, .multiplier count])

/-- Items with operators between them.  In the sequence itself, outside of its groups, there are
`opened` tokens `>` and `climbed` tokens `^`; a `^` needs more `>` in front of it than `^`. -/
inductive IsSequence : Nat → Nat → List Token → Prop where
  | item {tokens : List Token} (item : IsItem tokens) : IsSequence 0 0 tokens
  | child {opened climbed : Nat} {front back : List Token}
      (sequence : IsSequence opened climbed front) (item : IsItem back) :
      IsSequence (opened + 1) climbed (front ++ [.child] ++ back)
  | sibling {opened climbed : Nat} {front back : List Token}
      (sequence : IsSequence opened climbed front) (item : IsItem back) :
      IsSequence opened climbed (front ++ [.sibling] ++ back)
  | climb {opened climbed : Nat} {front back : List Token} (more : Nat)
      (sequence : IsSequence opened climbed front) (outnumbered : climbed + more < opened)
      (item : IsItem back) :
      IsSequence opened (climbed + (more + 1))
        (front ++ List.replicate (more + 1) .climb ++ back)

end

def IsAbbreviation (tokens : List Token) : Prop :=
  ∃ opened climbed, IsSequence opened climbed tokens

theorem IsSequence.climbed_le {opened climbed : Nat} {tokens : List Token} :
    IsSequence opened climbed tokens → climbed ≤ opened
  | .item _ => Nat.le_refl 0
  | .child sequence _ => Nat.le_succ_of_le sequence.climbed_le
  | .sibling sequence _ => sequence.climbed_le
  | .climb _ _ outnumbered _ => outnumbered

theorem IsSequence.opened_le {opened climbed : Nat} {tokens : List Token} :
    IsSequence opened climbed tokens → opened ≤ tokens.length
  | .item _ => Nat.zero_le _
  | .child sequence _ => by
    have := sequence.opened_le
    simp only [List.length_append, List.length_singleton]
    omega
  | .sibling sequence _ | .climb _ sequence _ _ => by
    have := sequence.opened_le
    simp only [List.length_append]
    omega

/-! ## What the grammar derives is accepted -/

section Accepts

variable {maxDepth : Nat} {state : State} {frames : List Frame} {before : Abbreviation}

mutual

/-- An item is read to where it may end. -/
theorem IsItem.runs {tokens : List Token} {state : State} {frames : List Frame}
    {before : Abbreviation} {placed : List PlacedToken} :
    IsItem tokens → state.Awaits frames before → placed.map (·.token) = tokens →
      frames.length + tokens.length ≤ maxDepth →
        ∃ item node, State.run maxDepth state placed = .ok ⟨frames, before, item⟩ ∧ item.Ends node
  | .element isRun agree, awaits, same, _ => by
    subst same
    obtain ⟨head, spells⟩ := exists_spells_iff.2 agree
    exact ⟨_, _, State.run_elementRun _ awaits isRun,
      .element (isRun.finish_eq_ok_iff.2 ⟨head, spells, rfl⟩)⟩
  | .group sequence, awaits, same, room => by
    obtain ⟨first, inner, last, rfl, opens, inside, closes⟩ := exists_group_of_map same
    simp only [List.length_append, List.length_cons, List.length_nil] at room
    obtain ⟨next, node, level, reads, ends, unwinds⟩ := sequence.runs
      (State.Awaits.missing (.group before first.span :: frames) []) inside
      (by simp only [List.length_cons]; omega)
    exact ⟨_, _, State.run_group awaits opens closes (by omega) reads ends unwinds, .group⟩
  | .repeated count sequence, awaits, same, room => by
    rw [List.append_cons] at same
    obtain ⟨parentheses, behind, rfl, whole, last⟩ := List.map_eq_append_iff.1 same
    obtain ⟨times, rfl, multiplies⟩ := List.map_eq_singleton_iff.1 last
    obtain ⟨first, inner, last, rfl, opens, inside, closes⟩ := exists_group_of_map whole
    simp only [List.length_append, List.length_cons, List.length_nil] at room
    obtain ⟨next, node, level, reads, ends, unwinds⟩ := sequence.runs
      (State.Awaits.missing (.group before first.span :: frames) []) inside
      (by simp only [List.length_cons]; omega)
    have group := State.run_groupMultiplier
      (State.run_group awaits opens closes (by omega) reads ends unwinds) multiplies
    exact ⟨_, _, group, .complete⟩

/-- A sequence is read to where its last item may end, with the levels open that were opened by
`>` and not climbed out of. -/
theorem IsSequence.runs {opened climbed : Nat} {tokens : List Token} {state : State}
    {frames : List Frame} {before : Abbreviation} {placed : List PlacedToken} :
    IsSequence opened climbed tokens → state.Awaits frames before →
      placed.map (·.token) = tokens → frames.length + tokens.length ≤ maxDepth →
        ∃ next node level, State.run maxDepth state placed = .ok next ∧ next.item.Ends node ∧
          Unwinds (opened - climbed) next.frames (next.before ++ [node]) frames level
  | .item item, awaits, same, room => by
    obtain ⟨item, node, reads, ends⟩ := item.runs awaits same room
    exact ⟨_, node, _, reads, ends, .none⟩
  | .child sequence item, awaits, same, room => by
    obtain ⟨read, back, rfl, whole, last⟩ := List.map_eq_append_iff.1 same
    obtain ⟨front, operator, rfl, first, op⟩ := List.map_eq_append_iff.1 whole
    obtain ⟨placed, rfl, child⟩ := List.map_eq_singleton_iff.1 op
    have opened := sequence.opened_le
    have climbed := sequence.climbed_le
    simp only [List.length_append, List.length_cons, List.length_nil] at room
    obtain ⟨next, parent, level, reads, ends, unwinds⟩ := sequence.runs awaits first (by omega)
    have depth := unwinds.length_eq
    obtain ⟨item, node, reads', ends'⟩ := item.runs
      (State.Awaits.missing (.children next.before parent :: next.frames) []) last
      (by simp only [List.length_cons]; omega)
    obtain ⟨level', unwinds'⟩ := unwinds.exists_of (next.before ++ [parent.adopt [node]])
    have opens := State.run_singleton (.child ends child (by omega : _ < maxDepth))
    rw [Nat.sub_add_comm climbed]
    exact ⟨_, node, level', State.run_append_of_ok (State.run_append_of_ok reads opens) reads',
      ends', .one unwinds'⟩
  | .sibling sequence item, awaits, same, room => by
    obtain ⟨read, back, rfl, whole, last⟩ := List.map_eq_append_iff.1 same
    obtain ⟨front, operator, rfl, first, op⟩ := List.map_eq_append_iff.1 whole
    obtain ⟨placed, rfl, sibling⟩ := List.map_eq_singleton_iff.1 op
    have opened := sequence.opened_le
    simp only [List.length_append, List.length_cons, List.length_nil] at room
    obtain ⟨next, before', level, reads, ends, unwinds⟩ := sequence.runs awaits first (by omega)
    have depth := unwinds.length_eq
    obtain ⟨item, node, reads', ends'⟩ := item.runs
      (State.Awaits.missing next.frames (next.before ++ [before'])) last (by omega)
    obtain ⟨level', unwinds'⟩ := unwinds.exists_of (next.before ++ [before'] ++ [node])
    have closes := State.run_singleton (.sibling ends sibling : StepsTo maxDepth next placed _)
    exact ⟨_, node, level', State.run_append_of_ok (State.run_append_of_ok reads closes) reads',
      ends', unwinds'⟩
  | @IsSequence.climb opened' climbed' _ _ more sequence outnumbered item, awaits, same, room => by
    obtain ⟨read, back, rfl, whole, last⟩ := List.map_eq_append_iff.1 same
    obtain ⟨front, operator, rfl, first, climbs⟩ := List.map_eq_append_iff.1 whole
    have opened := sequence.opened_le
    simp only [List.length_append] at room
    obtain ⟨next, last', level, reads, ends, unwinds⟩ := sequence.runs awaits first (by omega)
    have depth := unwinds.length_eq
    have levels : opened' - climbed' = more + 1 + (opened' - (climbed' + (more + 1))) := by omega
    rw [levels] at unwinds
    obtain ⟨frames', before', unwound, unwinds⟩ := unwinds.split
    have depth' := unwound.length_eq
    obtain ⟨middle, climbs', awaits'⟩ := State.run_climbs maxDepth (.inl ends) climbs unwound
    obtain ⟨item, node, reads', ends'⟩ := item.runs awaits' last (by omega)
    obtain ⟨level', unwinds'⟩ := unwinds.exists_of (before' ++ [node])
    exact ⟨_, node, level', State.run_append_of_ok (State.run_append_of_ok reads climbs') reads',
      ends', unwinds'⟩

end

end Accepts

/-! ## What is accepted is derived

What has been read lies in front of the innermost sequence or belongs to it.  In front of it stand
the sequences that the open groups interrupt, each up to the parenthesis of the group.
-/

/-- The front of a sequence up to where an item has to start. -/
inductive LeadsToItem : Nat → Nat → List Token → Prop where
  | start : LeadsToItem 0 0 []
  | child {opened climbed : Nat} {front : List Token} (sequence : IsSequence opened climbed front) :
      LeadsToItem (opened + 1) climbed (front ++ [.child])
  | sibling {opened climbed : Nat} {front : List Token}
      (sequence : IsSequence opened climbed front) :
      LeadsToItem opened climbed (front ++ [.sibling])
  | climb {opened climbed : Nat} {front : List Token} (more : Nat)
      (sequence : IsSequence opened climbed front) (outnumbered : climbed + more < opened) :
      LeadsToItem opened (climbed + (more + 1)) (front ++ List.replicate (more + 1) .climb)

theorem LeadsToItem.append {opened climbed : Nat} {lead tokens : List Token}
    (h : LeadsToItem opened climbed lead) (item : IsItem tokens) :
    IsSequence opened climbed (lead ++ tokens) := by
  cases h with
  | start => exact .item item
  | child sequence => exact .child sequence item
  | sibling sequence => exact .sibling sequence item
  | climb more sequence outnumbered => exact .climb more sequence outnumbered item

/-- What stands in front of the innermost sequence, in which `level` levels are open. -/
inductive Surrounds : List Frame → Nat → List Token → Prop where
  | nothing : Surrounds [] 0 []
  | group {frames : List Frame} {level climbed : Nat} {outer lead : List Token}
      (around : Surrounds frames level outer) (leads : LeadsToItem (climbed + level) climbed lead)
      (before : Abbreviation) (opened : Span) :
      Surrounds (.group before opened :: frames) 0 (outer ++ lead ++ [.openGroup])
  | children {frames : List Frame} {level : Nat} {outer : List Token}
      (around : Surrounds frames level outer) (before : Abbreviation) (parent : Node) :
      Surrounds (.children before parent :: frames) (level + 1) outer

/-- Closing a group leads back to where its parenthesis stands. -/
theorem Surrounds.of_closeLevels {frames frames' : List Frame}
    {level : Nat} {outer : List Token} {nodes children before : Abbreviation} {opened : Span}
    (h : Surrounds frames level outer)
    (closes : closeLevels frames nodes = (children, some (before, opened, frames'))) :
    ∃ level' climbed outer' lead, Surrounds frames' level' outer' ∧
      LeadsToItem (climbed + level') climbed lead ∧ outer = outer' ++ lead ++ [.openGroup] := by
  induction h generalizing nodes with
  | nothing => cases closes
  | group around leads before opened =>
    cases closes
    exact ⟨_, _, _, _, around, leads, rfl⟩
  | children around before parent ih => exact ih closes

/-- Only outside of all groups are there no frames left when all levels are closed. -/
theorem Surrounds.eq_nil_of_closeLevels {frames : List Frame} {level : Nat} {outer : List Token}
    {nodes children : Abbreviation} (h : Surrounds frames level outer)
    (closes : closeLevels frames nodes = (children, none)) : outer = [] := by
  induction h generalizing nodes with
  | nothing => rfl
  | group => cases closes
  | children around before parent ih => exact ih closes

/-- A state behind the tokens that lead to it. -/
inductive HasRead : State → List Token → Prop where
  | missing {frames : List Frame} {before : Abbreviation} {level climbed : Nat}
      {outer lead : List Token} (around : Surrounds frames level outer)
      (leads : LeadsToItem (climbed + level) climbed lead) :
      HasRead ⟨frames, before, .missing⟩ (outer ++ lead)
  | climbed {frames : List Frame} {before : Abbreviation} {node : Node} {level climbed more : Nat}
      {outer front : List Token} (around : Surrounds frames level outer)
      (sequence : IsSequence (climbed + (more + 1) + level) climbed front) :
      HasRead ⟨frames, before, .climbed node⟩
        (outer ++ (front ++ List.replicate (more + 1) .climb))
  | element {frames : List Frame} {before : Abbreviation} {span : Span} {level climbed : Nat}
      {outer lead run : List Token} (around : Surrounds frames level outer)
      (leads : LeadsToItem (climbed + level) climbed lead) (isRun : IsElementRun run) :
      HasRead ⟨frames, before, .element (.ofRun run) span⟩ (outer ++ (lead ++ run))
  | group {frames : List Frame} {before children : Abbreviation} {head : Head}
      {level climbed : Nat} {outer lead group : List Token} (around : Surrounds frames level outer)
      (leads : LeadsToItem (climbed + level) climbed lead) (item : IsItem group)
      (repeated : ∀ count, IsItem (group ++ [.multiplier count])) :
      HasRead ⟨frames, before, .group head children⟩ (outer ++ (lead ++ group))
  | complete {frames : List Frame} {before : Abbreviation} {node : Node} {level climbed : Nat}
      {outer lead group : List Token} (around : Surrounds frames level outer)
      (leads : LeadsToItem (climbed + level) climbed lead) (item : IsItem group) :
      HasRead ⟨frames, before, .complete node⟩ (outer ++ (lead ++ group))

namespace HasRead

variable {state next : State} {read : List Token} {placed : PlacedToken} {maxDepth : Nat}

/-- Behind an item that may end there is a whole sequence. -/
theorem sequence_of_ends {node : Node} (h : HasRead state read) (ends : state.item.Ends node) :
    ∃ level climbed outer sequence, Surrounds state.frames level outer ∧
      IsSequence (climbed + level) climbed sequence ∧ read = outer ++ sequence := by
  cases h with
  | missing | climbed => cases ends
  | element around leads isRun =>
    cases ends with
    | element finished =>
      obtain ⟨head, spells, -⟩ := isRun.finish_eq_ok_iff.1 finished
      exact ⟨_, _, _, _, around, leads.append (.element isRun (exists_spells_iff.1 ⟨head, spells⟩)),
        rfl⟩
  | group around leads item | complete around leads item =>
    exact ⟨_, _, _, _, around, leads.append item, rfl⟩

/-- Where an item has to start, what has been read leads to it. -/
theorem leads_of_awaits {frames : List Frame} {before : Abbreviation} (h : HasRead state read)
    (awaits : state.Awaits frames before) :
    ∃ level climbed outer lead, Surrounds frames level outer ∧
      LeadsToItem (climbed + level) climbed lead ∧ read = outer ++ lead := by
  cases h with
  | missing around leads =>
    cases awaits
    exact ⟨_, _, _, _, around, leads, rfl⟩
  | climbed around sequence =>
    cases awaits
    exact ⟨_, _, _, _, around, .climb _ sequence (by omega), rfl⟩
  | element | group | complete => cases awaits

theorem step (h : HasRead state read) (step : StepsTo maxDepth state placed next) :
    HasRead next (read ++ [placed.token]) := by
  have empty : LeadsToItem (0 + 0) 0 [] := .start
  cases step with
  | openGroup awaits opens =>
    obtain ⟨level, climbed, outer, lead, around, leads, rfl⟩ := h.leads_of_awaits awaits
    rw [opens, ← List.append_nil (outer ++ lead ++ [_])]
    exact .missing (.group around leads _ placed.span) empty
  | startElement awaits inside =>
    obtain ⟨level, climbed, outer, lead, around, leads, rfl⟩ := h.leads_of_awaits awaits
    rw [List.append_assoc]
    exact .element around leads (.singleton inside)
  | extendElement added =>
    cases h with
    | element around leads isRun =>
      obtain ⟨longer, rfl⟩ := isRun.concat_of_add added
      rw [List.append_assoc, List.append_assoc]
      exact .element around leads longer
  | multiplyGroup multiplies =>
    cases h with
    | group around leads item repeated =>
      rw [multiplies, List.append_assoc, List.append_assoc]
      exact .complete around leads (repeated _)
  | child ends child =>
    obtain ⟨level, climbed, outer, sequence, around, derived, rfl⟩ := h.sequence_of_ends ends
    rw [child, List.append_assoc]
    exact .missing (.children around state.before _) (.child derived)
  | sibling ends sibling =>
    obtain ⟨level, climbed, outer, sequence, around, derived, rfl⟩ := h.sequence_of_ends ends
    rw [sibling, List.append_assoc]
    exact .missing around (.sibling derived)
  | climb last climbs found =>
    rw [climbs]
    rcases last with ends | climbed
    · obtain ⟨level, climbed, outer, sequence, around, derived, rfl⟩ := h.sequence_of_ends ends
      rw [found] at around
      cases around with
      | @children _ level _ around =>
        have derived : IsSequence (climbed + (0 + 1) + level) climbed sequence := by
          rwa [Nat.zero_add, Nat.add_right_comm]
        rw [List.append_assoc]
        exact .climbed around derived
    · cases h with
      | missing | element | group | complete => cases climbed
      | @climbed _ _ _ _ count more _ front around sequence =>
        cases found
        cases around with
        | @children _ level _ around =>
          have sequence : IsSequence (count + (more + 1 + 1) + level) count front := by
            rwa [← Nat.add_assoc, Nat.add_right_comm]
          have again : List.replicate (more + 1) Token.climb ++ [.climb] =
              List.replicate (more + 1 + 1) .climb := (List.replicate_succ' ..).symm
          rw [List.append_assoc, List.append_assoc, again]
          exact .climbed around sequence
  | closeGroup ends closes closed =>
    obtain ⟨level, climbed, outer, sequence, around, derived, rfl⟩ := h.sequence_of_ends ends
    obtain ⟨level, climbed, outer, lead, beyond, leads, rfl⟩ := around.of_closeLevels closed
    have whole : outer ++ lead ++ [.openGroup] ++ sequence ++ [.closeGroup] =
        outer ++ (lead ++ (.openGroup :: sequence ++ [.closeGroup])) := by simp
    rw [closes, whole]
    refine .group beyond leads (.group derived) fun count => ?_
    rw [List.append_assoc]
    exact .repeated count derived

theorem run {placed : List PlacedToken} (h : HasRead state read)
    (ok : State.run maxDepth state placed = .ok next) :
    HasRead next (read ++ placed.map (·.token)) := by
  induction placed generalizing state read with
  | nil =>
    cases ok
    simpa using h
  | cons first rest ih =>
    obtain ⟨middle, step, ok⟩ := Except.bind_eq_ok_iff.1 ok
    rw [List.map_cons, ← List.singleton_append, ← List.append_assoc]
    exact ih (h.step (step_eq_ok_iff.1 step)) ok

theorem finish {stop : Nat} {forest : Abbreviation} (h : HasRead state read)
    (ok : state.finish stop = .ok forest) : IsAbbreviation read := by
  obtain ⟨node, ends⟩ := State.exists_ends_of_finish ok
  obtain ⟨level, climbed, outer, sequence, around, derived, rfl⟩ := h.sequence_of_ends ends
  rw [State.finish_of_ends ends, State.close] at ok
  split at ok
  next nodes closed =>
    rw [around.eq_nil_of_closeLevels closed]
    exact ⟨_, _, derived⟩
  next => cases ok

end HasRead

/-! ## Acceptance -/

theorem isAbbreviation_of_parseTokens {stop maxDepth : Nat} {tokens : List PlacedToken}
    {forest : Abbreviation} (ok : parseTokens stop maxDepth tokens = .ok forest) :
    IsAbbreviation (tokens.map (·.token)) := by
  obtain ⟨last, reads, finished⟩ := Except.bind_eq_ok_iff.1 ok
  have empty : LeadsToItem (0 + 0) 0 [] := .start
  have start : HasRead {} [] := .missing .nothing empty
  exact (start.run reads).finish finished

theorem exists_parseTokens {stop maxDepth : Nat} {tokens : List PlacedToken}
    (room : tokens.length ≤ maxDepth) (derived : IsAbbreviation (tokens.map (·.token))) :
    ∃ forest, parseTokens stop maxDepth tokens = .ok forest := by
  obtain ⟨opened, climbed, sequence⟩ := derived
  have room : ([] : List Frame).length + (tokens.map (·.token)).length ≤ maxDepth := by
    simpa using room
  obtain ⟨last, node, level, reads, ends, unwinds⟩ :=
    sequence.runs (State.Awaits.missing [] []) rfl room
  refine ⟨level, Except.bind_eq_ok_iff.2 ⟨last, reads, ?_⟩⟩
  rw [State.finish_of_ends ends, State.close, unwinds.closeLevels_eq, closeLevels]

theorem parseTokens_error {stop maxDepth : Nat} {tokens : List PlacedToken} {fault : Fault}
    (room : tokens.length ≤ maxDepth) (failed : parseTokens stop maxDepth tokens = .error fault) :
    InOrder fault := by
  rcases Except.bind_eq_error_iff.1 failed with reads | ⟨last, -, finished⟩
  · exact State.inOrder_of_run (by simpa using room) reads
  · exact (State.finish_error finished).inOrder

/-- With a level to spare for each token, the parser accepts the abbreviations of the grammar and
reports an error in the grammar of all other tokens. -/
theorem parse_decides_grammar (source : String) (maxDepth : Nat) (tokens : List PlacedToken)
    (room : tokens.length ≤ maxDepth) :
    ((∃ forest, parse source maxDepth tokens = .ok forest) ↔
      IsAbbreviation (tokens.map (·.token))) ∧
    (¬ IsAbbreviation (tokens.map (·.token)) →
      ∃ error, parse source maxDepth tokens = .error error ∧ error.kind = .grammar) := by
  have accepts : (∃ forest, parse source maxDepth tokens = .ok forest) ↔
      IsAbbreviation (tokens.map (·.token)) := by
    constructor
    · rintro ⟨forest, ok⟩
      exact isAbbreviation_of_parseTokens (locate_eq_ok_iff.1 ok)
    · intro derived
      obtain ⟨forest, ok⟩ := exists_parseTokens room derived
      exact ⟨forest, locate_eq_ok_iff.2 ok⟩
  refine ⟨accepts, fun malformed => ?_⟩
  cases parsed : parse source maxDepth tokens with
  | ok forest => exact absurd (accepts.1 ⟨forest, parsed⟩) malformed
  | error error =>
    obtain ⟨fault, failed, rfl⟩ := locate_eq_error_iff.1 parsed
    obtain ⟨problem, found⟩ := parseTokens_error room failed
    refine ⟨_, rfl, ?_⟩
    rw [Error.kind, found, Problem.kind]

theorem parse_decides_grammar_climb :
    ∃ forest, parse "a>b^c" 5 [⟨.tagName "a", ⟨0, 1⟩⟩, ⟨.child, ⟨1, 2⟩⟩, ⟨.tagName "b", ⟨2, 3⟩⟩,
      ⟨.climb, ⟨3, 4⟩⟩, ⟨.tagName "c", ⟨4, 5⟩⟩] = .ok forest := by
  have item (name : String) (unmodified : (Numbering.strip name).2 = []) :
      IsItem [.tagName name] := by
    refine .element (.singleton rfl) ?_
    simp [ModifiersAgree, modifiersOf, Token.templates, unmodified]
  have a : IsItem [.tagName "a"] := item "a" (by simp [Numbering.strip, Numbering.stripFrom])
  have b : IsItem [.tagName "b"] := item "b" (by simp [Numbering.strip, Numbering.stripFrom])
  have c : IsItem [.tagName "c"] := item "c" (by simp [Numbering.strip, Numbering.stripFrom])
  exact (parse_decides_grammar _ _ _ (by decide)).1.2
    ⟨1, 1, .climb 0 (.child (.item a) b) (by decide) c⟩

end Shorthand
