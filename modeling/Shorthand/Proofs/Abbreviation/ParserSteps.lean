import Mathlib.Data.List.Induction
import Shorthand.Proofs.Abbreviation.ElementRun
import Shorthand.Proofs.Except

/-! # Steps of the parser

What the parser does between two places where an item has to start: it reads the run of an element
or the parentheses of a group, and then an operator.  Levels that `>` has opened are closed from the
innermost outwards, by climbs or by the end of what surrounds them.
-/
namespace Shorthand.Parser

/-- An item that may end where it is, and the node it then makes. -/
inductive Item.Ends : Item → Node → Prop where
  | element {parts : Parts} {span : Span} {node : Node} (finished : parts.finish span = .ok node) :
      Ends (.element parts span) node
  | group {head : Head} {children : Abbreviation} :
      Ends (.group head children) (.node head children)
  | complete {node : Node} : Ends (.complete node) node

/-- An item has to start behind the complete nodes of the innermost level. -/
inductive State.Awaits : State → List Frame → Abbreviation → Prop where
  | missing (frames : List Frame) (before : Abbreviation) :
      Awaits ⟨frames, before, .missing⟩ frames before
  | climbed (frames : List Frame) (before : Abbreviation) (node : Node) :
      Awaits ⟨frames, before, .climbed node⟩ frames (before ++ [node])

/-- Closing as many levels that were opened by `>`, from the innermost outwards, leads from some
open levels and the nodes of the innermost one to others. -/
inductive Unwinds : Nat → List Frame → Abbreviation → List Frame → Abbreviation → Prop where
  | none {frames : List Frame} {level : Abbreviation} : Unwinds 0 frames level frames level
  | one {count : Nat} {outer : Abbreviation} {parent : Node} {level : Abbreviation}
      {frames frames' : List Frame} {level' : Abbreviation}
      (rest : Unwinds count frames (outer ++ [parent.adopt level]) frames' level') :
      Unwinds (count + 1) (.children outer parent :: frames) level frames' level'

theorem Unwinds.closeLevels_eq {count : Nat} {frames frames' : List Frame}
    {level level' : Abbreviation} (h : Unwinds count frames level frames' level') :
    closeLevels frames level = closeLevels frames' level' := by
  induction h with
  | none => rfl
  | one rest ih => rw [closeLevels, ih]

theorem Unwinds.length_eq {count : Nat} {frames frames' : List Frame} {level level' : Abbreviation}
    (h : Unwinds count frames level frames' level') : frames.length = frames'.length + count := by
  induction h with
  | none => rfl
  | one rest ih => rw [List.length_cons, ih]; rfl

/-- Which levels are closed does not depend on the nodes of the innermost one. -/
theorem Unwinds.exists_of {count : Nat} {frames frames' : List Frame} {level level' : Abbreviation}
    (h : Unwinds count frames level frames' level') (other : Abbreviation) :
    ∃ other', Unwinds count frames other frames' other' := by
  induction h generalizing other with
  | none => exact ⟨other, .none⟩
  | @one _ outer parent _ _ _ _ rest ih =>
    obtain ⟨other', rest'⟩ := ih (outer ++ [parent.adopt other])
    exact ⟨other', .one rest'⟩

theorem Unwinds.split {count more : Nat} {frames frames' : List Frame}
    {level level' : Abbreviation} (h : Unwinds (count + more) frames level frames' level') :
    ∃ middle inner, Unwinds count frames level middle inner ∧
      Unwinds more middle inner frames' level' := by
  induction count generalizing frames level with
  | zero =>
    rw [Nat.zero_add] at h
    exact ⟨frames, level, .none, h⟩
  | succ count ih =>
    rw [Nat.add_right_comm] at h
    cases h with
    | one rest =>
      obtain ⟨middle, inner, first, second⟩ := ih rest
      exact ⟨middle, inner, .one first, second⟩

namespace State

variable {maxDepth : Nat} {state : State}

theorem run_cons (placed : PlacedToken) (rest : List PlacedToken) :
    run maxDepth state (placed :: rest) =
      (state.step maxDepth placed).bind fun next => run maxDepth next rest := rfl

theorem run_append (front back : List PlacedToken) :
    run maxDepth state (front ++ back) =
      (run maxDepth state front).bind fun next => run maxDepth next back := by
  induction front generalizing state with
  | nil => rfl
  | cons placed front ih =>
    rw [List.cons_append, run_cons, run_cons]
    cases state.step maxDepth placed with
    | error fault => rfl
    | ok next => exact ih

theorem run_append_of_ok {front back : List PlacedToken} {middle last : State}
    (first : run maxDepth state front = .ok middle) (second : run maxDepth middle back = .ok last) :
    run maxDepth state (front ++ back) = .ok last := by
  rw [run_append, first]
  exact second

/-! ## Items -/

theorem Awaits.step_eq {frames : List Frame} {before : Abbreviation} {placed : PlacedToken}
    (h : state.Awaits frames before) (noClimb : placed.token ≠ .climb) :
    state.step maxDepth placed = startItem maxDepth frames before placed := by
  cases h with
  | missing => rfl
  | climbed => exact if_neg noClimb

/-- Behind an item that may end, an operator or a parenthesis ends it. -/
theorem step_of_ends {node : Node} {placed : PlacedToken} (ends : state.item.Ends node)
    (operator : placed.token.endsElement = true) :
    state.step maxDepth placed =
      continueFrom maxDepth state.frames state.before node placed := by
  obtain ⟨frames, before, item⟩ := state
  cases ends with
  | element finished =>
    simp only [step, Parts.add_eq_foreign _ operator, finished]
    rfl
  | group =>
    simp only [step]
    split
    next count h => simp [h, Token.endsElement] at operator
    next => rfl
  | complete => rfl

theorem finish_of_ends {stop : Nat} {node : Node} (ends : state.item.Ends node) :
    state.finish stop = state.close node := by
  obtain ⟨frames, before, item⟩ := state
  cases ends with
  | element finished =>
    simp only [finish, finished]
    rfl
  | group => rfl
  | complete => rfl

theorem exists_ends_of_finish {stop : Nat} {forest : Abbreviation}
    (h : state.finish stop = .ok forest) : ∃ node, state.item.Ends node := by
  obtain ⟨frames, before, item⟩ := state
  cases item with
  | missing | climbed => cases h
  | element parts span =>
    cases finished : parts.finish span with
    | error fault => simp [finish, finished, bind, Except.bind] at h
    | ok node => exact ⟨node, .element finished⟩
  | group head children => exact ⟨_, .group⟩
  | complete node => exact ⟨node, .complete⟩

end State

/-! ## All steps -/

inductive StepsTo (maxDepth : Nat) : State → PlacedToken → State → Prop where
  | openGroup {state : State} {frames : List Frame} {before : Abbreviation} {placed : PlacedToken}
      (awaits : state.Awaits frames before) (opens : placed.token = .openGroup)
      (room : frames.length < maxDepth) :
      StepsTo maxDepth state placed { frames := .group before placed.span :: frames }
  | startElement {state : State} {frames : List Frame} {before : Abbreviation}
      {placed : PlacedToken} (awaits : state.Awaits frames before)
      (inside : placed.token.endsElement = false) :
      StepsTo maxDepth state placed ⟨frames, before, .element (.ofRun [placed.token]) placed.span⟩
  | extendElement {frames : List Frame} {before : Abbreviation} {parts longer : Parts} {span : Span}
      {placed : PlacedToken} (added : parts.add placed.token = .added longer) :
      StepsTo maxDepth ⟨frames, before, .element parts span⟩ placed
        ⟨frames, before, .element longer ⟨span.start, placed.span.stop⟩⟩
  | multiplyGroup {frames : List Frame} {before children : Abbreviation} {head : Head}
      {placed : PlacedToken} {count : UInt64} (multiplies : placed.token = .multiplier count) :
      StepsTo maxDepth ⟨frames, before, .group head children⟩ placed
        ⟨frames, before, .complete (.node
          { head with multiplier := count, span := ⟨head.span.start, placed.span.stop⟩ } children)⟩
  | child {state : State} {node : Node} {placed : PlacedToken} (ends : state.item.Ends node)
      (child : placed.token = .child) (room : state.frames.length < maxDepth) :
      StepsTo maxDepth state placed { frames := .children state.before node :: state.frames }
  | sibling {state : State} {node : Node} {placed : PlacedToken} (ends : state.item.Ends node)
      (sibling : placed.token = .sibling) :
      StepsTo maxDepth state placed { frames := state.frames, before := state.before ++ [node] }
  | climb {state : State} {frames : List Frame} {outer : Abbreviation} {node parent : Node}
      {placed : PlacedToken} (last : state.item.Ends node ∨ state.item = .climbed node)
      (climbs : placed.token = .climb) (found : state.frames = .children outer parent :: frames) :
      StepsTo maxDepth state placed
        ⟨frames, outer, .climbed (parent.adopt (state.before ++ [node]))⟩
  | closeGroup {state : State} {frames : List Frame} {before children : Abbreviation} {node : Node}
      {opened : Span} {placed : PlacedToken} (ends : state.item.Ends node)
      (closes : placed.token = .closeGroup)
      (closed : closeLevels state.frames (state.before ++ [node]) =
        (children, some (before, opened, frames))) :
      StepsTo maxDepth state placed ⟨frames, before,
        .group { kind := .group, span := ⟨opened.start, placed.span.stop⟩ } children⟩

section Steps

variable {maxDepth : Nat} {state next : State} {placed : PlacedToken}

theorem stepsTo_of_startItem {frames : List Frame} {before : Abbreviation}
    (awaits : state.Awaits frames before)
    (ok : startItem maxDepth frames before placed = .ok next) :
    StepsTo maxDepth state placed next := by
  unfold startItem at ok
  split at ok
  next opens =>
    unfold enter at ok
    split at ok
    next room =>
      cases ok
      exact .openGroup awaits opens room
    next => cases ok
  next =>
    split at ok
    next parts started =>
      cases ok
      obtain ⟨inside, rfl⟩ := Parts.start?_eq_some_iff.1 started
      exact .startElement awaits inside
    next => cases ok

theorem stepsTo_of_climb {node : Node}
    (last : state.item.Ends node ∨ state.item = .climbed node) (climbs : placed.token = .climb)
    (ok : climb state.frames state.before node placed.span = .ok next) :
    StepsTo maxDepth state placed next := by
  unfold climb at ok
  split at ok
  next outer parent frames found =>
    cases ok
    exact .climb last climbs found
  next => cases ok

theorem stepsTo_of_continueFrom {node : Node} (ends : state.item.Ends node)
    (ok : continueFrom maxDepth state.frames state.before node placed = .ok next) :
    StepsTo maxDepth state placed next := by
  unfold continueFrom at ok
  split at ok
  next child =>
    unfold enter at ok
    split at ok
    next room =>
      cases ok
      exact .child ends child room
    next => cases ok
  next sibling =>
    cases ok
    exact .sibling ends sibling
  next climbs => exact stepsTo_of_climb (.inl ends) climbs ok
  next closes =>
    unfold closeGroup at ok
    split at ok
    next closed =>
      cases ok
      exact .closeGroup ends closes closed
    next => cases ok
  next => cases ok

theorem stepsTo_of_step (ok : state.step maxDepth placed = .ok next) :
    StepsTo maxDepth state placed next := by
  obtain ⟨frames, before, item⟩ := state
  cases item with
  | missing => exact stepsTo_of_startItem (.missing _ _) ok
  | climbed node =>
    simp only [State.step] at ok
    split at ok
    next climbs => exact stepsTo_of_climb (.inr rfl) climbs ok
    next => exact stepsTo_of_startItem (.climbed _ _ _) ok
  | element parts span =>
    simp only [State.step] at ok
    split at ok
    next longer added =>
      cases ok
      exact .extendElement added
    next => cases ok
    next =>
      obtain ⟨node, finished, ok⟩ := Except.bind_eq_ok_iff.1 ok
      exact stepsTo_of_continueFrom (.element finished) ok
  | group head children =>
    simp only [State.step] at ok
    split at ok
    next count multiplies =>
      cases ok
      exact .multiplyGroup multiplies
    next => exact stepsTo_of_continueFrom .group ok
  | complete node => exact stepsTo_of_continueFrom .complete ok

theorem StepsTo.step_eq (h : StepsTo maxDepth state placed next) :
    state.step maxDepth placed = .ok next := by
  cases h with
  | openGroup awaits opens room =>
    rw [awaits.step_eq (by simp [opens]), startItem, if_pos opens, enter, if_pos room]
  | startElement awaits inside =>
    have noClimb : placed.token ≠ .climb := Token.ne_of_endsElement inside rfl
    have noGroup : placed.token ≠ .openGroup := Token.ne_of_endsElement inside rfl
    rw [awaits.step_eq noClimb, startItem, if_neg noGroup,
      Parts.start?_eq_some_iff.2 ⟨inside, rfl⟩]
  | extendElement added => simp only [State.step, added]
  | multiplyGroup multiplies => simp only [State.step, multiplies]
  | child ends child room =>
    rw [State.step_of_ends ends (by rw [child]; rfl), continueFrom, child]
    exact if_pos room
  | sibling ends sibling =>
    rw [State.step_of_ends ends (by rw [sibling]; rfl), continueFrom, sibling]
  | climb last climbs found =>
    rcases last with ends | climbed
    · rw [State.step_of_ends ends (by rw [climbs]; rfl), continueFrom, climbs]
      simp only [found, Parser.climb]
    · rw [State.step, climbed]
      simp only [climbs, if_true, found, Parser.climb]
  | closeGroup ends closes closed =>
    rw [State.step_of_ends ends (by rw [closes]; rfl), continueFrom, closes]
    simp only [Parser.closeGroup, closed]

/-- A step succeeds in these ways and in no others. -/
theorem step_eq_ok_iff :
    state.step maxDepth placed = .ok next ↔ StepsTo maxDepth state placed next :=
  ⟨stepsTo_of_step, StepsTo.step_eq⟩

end Steps

/-! ## Runs of tokens -/

theorem exists_group_of_map {placed : List PlacedToken} {inner : List Token}
    (same : placed.map (·.token) = .openGroup :: inner ++ [.closeGroup]) :
    ∃ first inside last, placed = first :: inside ++ [last] ∧ first.token = .openGroup ∧
      inside.map (·.token) = inner ∧ last.token = .closeGroup := by
  obtain ⟨front, back, rfl, whole, close⟩ := List.map_eq_append_iff.1 same
  obtain ⟨first, inside, rfl, opens, between⟩ := List.map_eq_cons_iff.1 whole
  obtain ⟨last, rfl, closes⟩ := List.map_eq_singleton_iff.1 close
  exact ⟨first, inside, last, rfl, opens, between, closes⟩

namespace State

variable {maxDepth : Nat} {state : State}

theorem run_singleton {placed : PlacedToken} {next : State}
    (step : StepsTo maxDepth state placed next) : run maxDepth state [placed] = .ok next := by
  rw [run_cons, step.step_eq]
  rfl

/-- The run of an element leads from where it has to start to all its parts. -/
theorem run_elementRun (maxDepth : Nat) {state : State} {frames : List Frame}
    {before : Abbreviation} {placed : List PlacedToken} (awaits : state.Awaits frames before)
    (isRun : IsElementRun (placed.map (·.token))) :
    run maxDepth state placed =
      .ok ⟨frames, before, .element (.ofRun (placed.map (·.token))) (spanOf placed)⟩ := by
  induction placed using List.reverseRecOn with
  | nil => exact absurd rfl isRun.nonempty
  | append_singleton front last ih =>
    have inside : last.token.endsElement = false := isRun.inside last.token (by simp)
    rw [List.map_append, List.map_singleton] at isRun ⊢
    by_cases first : front = []
    · subst first
      exact run_singleton (.startElement awaits inside)
    · have start : IsElementRun (front.map (·.token)) := isRun.of_append (by simpa using first)
      refine run_append_of_ok (ih start) (run_singleton ?_)
      rw [spanOf_concat first]
      exact .extendElement (start.concat_iff.1 isRun)

/-- A group: its parentheses around tokens that lead to an item that may end. -/
theorem run_group {frames : List Frame} {before level : Abbreviation} {first last : PlacedToken}
    {inner : List PlacedToken} {next : State} {node : Node} {count : Nat}
    (awaits : state.Awaits frames before) (opens : first.token = .openGroup)
    (closes : last.token = .closeGroup) (room : frames.length < maxDepth)
    (inside : run maxDepth { frames := .group before first.span :: frames } inner = .ok next)
    (ends : next.item.Ends node)
    (unwinds : Unwinds count next.frames (next.before ++ [node])
      (.group before first.span :: frames) level) :
    run maxDepth state (first :: inner ++ [last]) =
      .ok ⟨frames, before,
        .group { kind := .group, span := ⟨first.span.start, last.span.stop⟩ } level⟩ := by
  refine run_append_of_ok (?_ : run maxDepth state (first :: inner) = .ok next)
    (run_singleton (.closeGroup ends closes ?_))
  · rw [run_cons, (StepsTo.openGroup awaits opens room).step_eq]
    exact inside
  · rw [unwinds.closeLevels_eq, closeLevels]

theorem run_groupMultiplier {frames : List Frame} {before children : Abbreviation} {head : Head}
    {read : List PlacedToken} {placed : PlacedToken} {count : UInt64}
    (group : run maxDepth state read = .ok ⟨frames, before, .group head children⟩)
    (multiplies : placed.token = .multiplier count) :
    run maxDepth state (read ++ [placed]) =
      .ok ⟨frames, before, .complete (.node
        { head with multiplier := count, span := ⟨head.span.start, placed.span.stop⟩ }
        children)⟩ :=
  run_append_of_ok group (run_singleton (.multiplyGroup multiplies))

/-- Climbs close as many levels as there are climbs. -/
theorem run_climbs (maxDepth : Nat) {state : State} {node : Node} {placed : List PlacedToken}
    {count : Nat} {frames : List Frame} {level : Abbreviation}
    (last : state.item.Ends node ∨ state.item = .climbed node)
    (climbs : placed.map (·.token) = List.replicate (count + 1) .climb)
    (unwinds : Unwinds (count + 1) state.frames (state.before ++ [node]) frames level) :
    ∃ next, run maxDepth state placed = .ok next ∧ next.Awaits frames level := by
  obtain ⟨frames', before, item⟩ := state
  induction count generalizing frames' before item node placed with
  | zero =>
    obtain ⟨first, rfl, climb⟩ := List.map_eq_singleton_iff.1 climbs
    cases unwinds with
    | one rest =>
      cases rest with
      | none => exact ⟨_, run_singleton (.climb last climb rfl), .climbed _ _ _⟩
  | succ count ih =>
    obtain ⟨first, others, rfl, climb, climbs⟩ := List.map_eq_cons_iff.1 climbs
    cases unwinds with
    | one rest =>
      rw [run_cons, (StepsTo.climb last climb rfl).step_eq]
      exact ih climbs _ _ _ (.inr rfl) rest

end State

/-! ## Faults -/

inductive Rejects (maxDepth : Nat) : State → PlacedToken → Fault → Prop where
  | expectedElement {state : State} {frames : List Frame} {before : Abbreviation}
      {placed : PlacedToken} (awaits : state.Awaits frames before)
      (outside : placed.token.endsElement = true) :
      Rejects maxDepth state placed
        (grammarFault (.expectedElement (some placed.token)) placed.span)
  | expectedOperator {state : State} {node : Node} {placed : PlacedToken}
      (ends : state.item.Ends node) :
      Rejects maxDepth state placed (grammarFault (.expectedOperator placed.token) placed.span)
  | repeatedPart {frames : List Frame} {before : Abbreviation} {parts : Parts} {span : Span}
      {placed : PlacedToken} {part : Part} (taken : parts.add placed.token = .repeated part) :
      Rejects maxDepth ⟨frames, before, .element parts span⟩ placed
        (grammarFault (.repeatedPart part) placed.span)
  | climbAtRoot {state : State} {placed : PlacedToken} (climbs : placed.token = .climb) :
      Rejects maxDepth state placed (grammarFault .climbAtRoot placed.span)
  | unopenedGroup {state : State} {placed : PlacedToken} (closes : placed.token = .closeGroup) :
      Rejects maxDepth state placed (grammarFault .unopenedGroup placed.span)
  | depth {state : State} {placed : PlacedToken} (full : maxDepth ≤ state.frames.length) :
      Rejects maxDepth state placed ⟨.limit maxDepth .levels, placed.span⟩

/-- What a token that cannot be read is blamed for: the order of tokens, or a level too many. -/
inductive Blames (maxDepth : Nat) (frames : List Frame) (placed : PlacedToken) : Fault → Prop where
  | order (problem : GrammarProblem) :
      Blames maxDepth frames placed (grammarFault problem placed.span)
  | depth (full : maxDepth ≤ frames.length) :
      Blames maxDepth frames placed ⟨.limit maxDepth .levels, placed.span⟩

inductive Item.Conflicts : Item → Fault → Prop where
  | intro (parts : Parts) (span : Span) :
      Conflicts (.element parts span) (grammarFault .conflictingNumbering span)

section Faults

variable {maxDepth : Nat} {state : State} {frames : List Frame} {before : Abbreviation}
  {node : Node} {placed : PlacedToken} {fault : Fault}

theorem Rejects.blames (h : Rejects maxDepth state placed fault) :
    Blames maxDepth state.frames placed fault := by
  cases h with
  | expectedElement | expectedOperator | repeatedPart | climbAtRoot | unopenedGroup =>
    exact .order _
  | depth full => exact .depth full

theorem Parts.conflicts_of_finish {parts : Parts} {span : Span}
    (h : parts.finish span = .error fault) : (Item.element parts span).Conflicts fault := by
  unfold finish at h
  split at h
  next => cases h
  next =>
    cases h
    exact .intro parts span

theorem rejects_of_enter {frame : Frame} (same : frames.length = state.frames.length)
    (h : enter maxDepth frame frames placed.span = .error fault) :
    Rejects maxDepth state placed fault := by
  unfold enter at h
  split at h
  next => cases h
  next full =>
    cases h
    exact .depth (same ▸ Nat.le_of_not_lt full)

theorem rejects_of_startItem (awaits : state.Awaits frames before)
    (h : startItem maxDepth frames before placed = .error fault) :
    Rejects maxDepth state placed fault := by
  unfold startItem at h
  split at h
  next => exact rejects_of_enter (by cases awaits <;> rfl) h
  next =>
    split at h
    next => cases h
    next unstarted =>
      cases h
      refine .expectedElement awaits ?_
      rw [← Bool.not_eq_false]
      intro inside
      rw [Parts.start?_eq_some_iff.2 ⟨inside, rfl⟩] at unstarted
      cases unstarted

theorem rejects_of_climb (climbs : placed.token = .climb)
    (h : climb state.frames state.before node placed.span = .error fault) :
    Rejects maxDepth state placed fault := by
  unfold climb at h
  split at h
  next => cases h
  next =>
    cases h
    exact .climbAtRoot climbs

theorem rejects_of_continueFrom (ends : state.item.Ends node)
    (h : continueFrom maxDepth state.frames state.before node placed = .error fault) :
    Rejects maxDepth state placed fault := by
  unfold continueFrom at h
  split at h
  next => exact rejects_of_enter rfl h
  next => cases h
  next climbs => exact rejects_of_climb climbs h
  next closes =>
    unfold closeGroup at h
    split at h
    next => cases h
    next =>
      cases h
      exact .unopenedGroup closes
  next =>
    cases h
    exact .expectedOperator ends

namespace State

variable {next : State}

/-- A step fails because of its token or because of the element that the token ends. -/
theorem rejects_of_step (h : state.step maxDepth placed = .error fault) :
    Rejects maxDepth state placed fault ∨ state.item.Conflicts fault := by
  obtain ⟨frames, before, item⟩ := state
  cases item with
  | missing => exact .inl (rejects_of_startItem (.missing _ _) h)
  | element parts span =>
    simp only [step] at h
    split at h
    next => cases h
    next taken =>
      cases h
      exact .inl (.repeatedPart taken)
    next =>
      rcases Except.bind_eq_error_iff.1 h with h | ⟨node, finished, h⟩
      · exact .inr (Parts.conflicts_of_finish h)
      · exact .inl (rejects_of_continueFrom (.element finished) h)
  | group head children =>
    simp only [step] at h
    split at h
    next => cases h
    next => exact .inl (rejects_of_continueFrom .group h)
  | complete node => exact .inl (rejects_of_continueFrom .complete h)
  | climbed node =>
    simp only [step] at h
    split at h
    next climbs => exact .inl (rejects_of_climb climbs h)
    next => exact .inl (rejects_of_startItem (.climbed _ _ _) h)

theorem step_error (h : state.step maxDepth placed = .error fault) :
    Blames maxDepth state.frames placed fault ∨ state.item.Conflicts fault :=
  (rejects_of_step h).imp_left Rejects.blames

/-- What is to blame where the input ends: its end, the last element or a group that is still open. -/
inductive Unfinished (stop : Nat) (state : State) : Fault → Prop where
  | missing : Unfinished stop state (grammarFault (.expectedElement none) ⟨stop, stop⟩)
  | conflict {fault : Fault} (conflicts : state.item.Conflicts fault) : Unfinished stop state fault
  | unclosed {node : Node} {children before : Abbreviation} {opened : Span} {frames : List Frame}
      (ends : state.item.Ends node)
      (closed : closeLevels state.frames (state.before ++ [node]) =
        (children, some (before, opened, frames))) :
      Unfinished stop state (grammarFault .unclosedGroup opened)

theorem unfinished_of_close {stop : Nat} (ends : state.item.Ends node)
    (h : state.close node = .error fault) : state.Unfinished stop fault := by
  unfold close at h
  split at h
  next => cases h
  next closed =>
    cases h
    exact .unclosed ends closed

theorem finish_error {stop : Nat} (h : state.finish stop = .error fault) :
    state.Unfinished stop fault := by
  obtain ⟨frames, before, item⟩ := state
  cases item with
  | missing | climbed =>
    cases h
    exact .missing
  | element parts span =>
    rcases Except.bind_eq_error_iff.1 h with h | ⟨node, finished, h⟩
    · exact .conflict (Parts.conflicts_of_finish h)
    · exact unfinished_of_close (.element finished) h
  | group => exact unfinished_of_close .group h
  | complete => exact unfinished_of_close .complete h

theorem length_le_of_closeLevels {frames frames' : List Frame}
    {nodes children before : Abbreviation} {opened : Span}
    (closed : closeLevels frames nodes = (children, some (before, opened, frames'))) :
    frames'.length < frames.length := by
  induction frames generalizing nodes with
  | nil => cases closed
  | cons frame frames ih =>
    cases frame with
    | children outer parent => exact Nat.lt_succ_of_lt (ih closed)
    | group outer opened =>
      cases closed
      exact Nat.lt_succ_self _

theorem length_le_of_step (h : StepsTo maxDepth state placed next) :
    next.frames.length ≤ state.frames.length + 1 := by
  cases h with
  | openGroup awaits | startElement awaits => cases awaits <;> simp
  | extendElement | multiplyGroup | child | sibling => simp
  | climb last climbs found =>
    simp only [found, List.length_cons]
    omega
  | closeGroup ends closes closed =>
    have := length_le_of_closeLevels closed
    simp only
    omega

end State

/-! ## Faults in the order of tokens -/

def InOrder (fault : Fault) : Prop := ∃ problem, fault.problem = .grammar problem

theorem inOrder_grammarFault (problem : GrammarProblem) (span : Span) :
    InOrder (grammarFault problem span) := ⟨problem, rfl⟩

theorem Item.Conflicts.inOrder {item : Item} (h : item.Conflicts fault) : InOrder fault := by
  cases h
  exact inOrder_grammarFault _ _

/-- As long as another level may be opened, only the order of tokens can be at fault. -/
theorem Blames.inOrder (h : Blames maxDepth frames placed fault) (room : frames.length < maxDepth) :
    InOrder fault := by
  cases h with
  | order problem => exact inOrder_grammarFault problem placed.span
  | depth full => exact absurd room (Nat.not_lt_of_le full)

namespace State

theorem Unfinished.inOrder {stop : Nat} (h : state.Unfinished stop fault) : InOrder fault := by
  cases h with
  | missing | unclosed => exact inOrder_grammarFault _ _
  | conflict conflicts => exact conflicts.inOrder

/-- With a level to spare for each token, only the order of tokens can be at fault. -/
theorem inOrder_of_run {tokens : List PlacedToken}
    (room : state.frames.length + tokens.length ≤ maxDepth)
    (h : run maxDepth state tokens = .error fault) : InOrder fault := by
  induction tokens generalizing state with
  | nil => cases h
  | cons first rest ih =>
    rw [List.length_cons] at room
    rcases Except.bind_eq_error_iff.1 h with h | ⟨next, step, h⟩
    · rcases step_error h with blames | conflicts
      · exact blames.inOrder (by omega)
      · exact conflicts.inOrder
    · have := length_le_of_step (step_eq_ok_iff.1 step)
      exact ih (by omega) h

end State

end Faults

end Shorthand.Parser
