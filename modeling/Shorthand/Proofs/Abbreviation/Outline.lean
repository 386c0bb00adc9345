import Mathlib.Data.List.Forall2
import Shorthand.Expansion
import Shorthand.Proofs.Abbreviation.ParserSteps
import Shorthand.Proofs.Except
import Shorthand.Proofs.Forest

/-! # Outlines

The tokens of an abbreviation alone tell which nodes it has and how deep each of them lies: the
runs of element tokens and the opening parentheses are the nodes, and the operators open and close
levels.  The parser builds just these nodes, in this order and at these depths.
-/
namespace Shorthand

open Shorthand.Parser

inductive Level where
  | child
  | group
deriving DecidableEq, Repr

def levelsAfter (levels : List Level) : Token → List Level
  | .child => .child :: levels
  | .openGroup => .group :: levels
  | .climb => levels.tail
  | .closeGroup => (levels.dropWhile (· = .child)).tail
  | _ => levels

/-- What a node is written as: the run of its tokens, or the parenthesis that opens it. -/
inductive Origin where
  | element (run : List PlacedToken)
  | group (parenthesis : PlacedToken)

/-- The nodes that tokens stand for, each with the number of levels that are open in front of it.
A token of an element starts one unless an item is there already, which it belongs to then. -/
def outline (levels : List Level) (inItem : Bool) : List PlacedToken → List (Nat × Origin)
  | [] => []
  | placed :: rest =>
    let nodes :=
      if placed.token = .openGroup then [.group placed]
      else if placed.token.endsElement || inItem then []
      else [.element (placed :: rest.takeWhile fun next => !next.token.endsElement)]
    nodes.map (levels.length, ·) ++
      outline (levelsAfter levels placed.token)
        (!placed.token.endsElement || placed.token = .closeGroup) rest

/-- The label of a node agrees with what the node is written as. -/
inductive Announces : Nat × Origin → Nat × Head → Prop where
  | element {depth : Nat} {run : List PlacedToken} {head : Head}
      (isRun : IsElementRun (run.map (·.token)))
      (spells : Spells (run.map (·.token)) (spanOf run) head) :
      Announces (depth, .element run) (depth, head)
  | group {depth : Nat} {parenthesis : PlacedToken} {head : Head} (kind : head.kind = .group)
      (start : head.span.start = parenthesis.span.start) :
      Announces (depth, .group parenthesis) (depth, head)

/-! ## One token of an outline -/

section Outline

variable {levels : List Level} {inItem : Bool} {placed : PlacedToken} {rest : List PlacedToken}

theorem outline_operator (operator : placed.token.endsElement = true)
    (noGroup : placed.token ≠ .openGroup) :
    outline levels inItem (placed :: rest) =
      outline (levelsAfter levels placed.token) (placed.token = .closeGroup) rest := by
  simp [outline, operator, noGroup]

theorem outline_openGroup (opens : placed.token = .openGroup) :
    outline levels inItem (placed :: rest) =
      (levels.length, .group placed) :: outline (.group :: levels) false rest := by
  simp [outline, opens, levelsAfter, Token.endsElement]

theorem levelsAfter_of_inside (inside : placed.token.endsElement = false) :
    levelsAfter levels placed.token = levels := by
  cases token : placed.token <;> simp_all [levelsAfter, Token.endsElement]

theorem outline_start (inside : placed.token.endsElement = false) :
    outline levels false (placed :: rest) =
      (levels.length, .element (placed :: rest.takeWhile fun next => !next.token.endsElement)) ::
        outline levels true rest := by
  have noGroup : placed.token ≠ .openGroup := Token.ne_of_endsElement inside rfl
  simp [outline, inside, noGroup, levelsAfter_of_inside]

theorem outline_inside (inside : placed.token.endsElement = false) :
    outline levels true (placed :: rest) = outline levels true rest := by
  have noGroup : placed.token ≠ .openGroup := Token.ne_of_endsElement inside rfl
  simp [outline, inside, noGroup, levelsAfter_of_inside]

theorem countP_group_outline (tokens : List PlacedToken) :
    (outline levels inItem tokens).countP (fun entry => entry.2 matches .group _) =
      tokens.countP (·.token = .openGroup) := by
  induction tokens generalizing levels inItem with
  | nil => rfl
  | cons placed rest ih =>
    by_cases opens : placed.token = .openGroup
    · rw [outline_openGroup opens, List.countP_cons, List.countP_cons, ih]
      simp [opens]
    · rw [outline, List.countP_append, ih, List.countP_cons]
      split <;> simp_all

end Outline

/-! ## Open levels -/

namespace Parser

def Frame.level : Frame → Level
  | .children _ _ => .child
  | .group _ _ => .group

/-- The nodes of some open levels in preorder, with `level` innermost.  A group that is still open
has its parenthesis as span. -/
def listing : List Frame → Abbreviation → List (Nat × Head)
  | [], level => Tree.preorderAll 0 level
  | .children before parent :: frames, level =>
    listing frames (before ++ [parent]) ++ Tree.preorderAll (frames.length + 1) level
  | .group before opened :: frames, level =>
    listing frames (before ++ [.node { kind := .group, span := opened } []]) ++
      Tree.preorderAll (frames.length + 1) level

theorem listing_append (frames : List Frame) (front back : Abbreviation) :
    listing frames (front ++ back) =
      listing frames front ++ Tree.preorderAll frames.length back := by
  cases frames with
  | nil => rw [listing, listing, Tree.preorderAll_append]; rfl
  | cons frame frames =>
    cases frame with
    | children | group =>
      rw [listing, listing, Tree.preorderAll_append, List.append_assoc, List.length_cons]

theorem listing_children_nil (before : Abbreviation) (parent : Node) (frames : List Frame) :
    listing (.children before parent :: frames) [] = listing frames (before ++ [parent]) := by
  rw [listing, Tree.preorderAll, List.append_nil]

/-- An opened group counts as a node as soon as its parenthesis has been read. -/
theorem listing_group_nil (before : Abbreviation) (opened : Span) (frames : List Frame) :
    listing (.group before opened :: frames) [] =
      listing frames before ++ [(frames.length, { kind := .group, span := opened })] := by
  rw [listing, Tree.preorderAll, List.append_nil, listing_append, Tree.preorderAll_singleton,
    Tree.preorder, Tree.preorderAll]

/-- Closing a level that was opened by `>` moves no node. -/
theorem listing_adopt (frames : List Frame) (before : Abbreviation) (parent : Node)
    (level : Abbreviation) :
    listing frames (before ++ [parent.adopt level]) =
      listing (.children before parent :: frames) level := by
  rw [listing, listing_append, listing_append, Tree.preorderAll_singleton,
    Tree.preorderAll_singleton, Tree.preorder_adopt, List.append_assoc]

theorem listing_of_closeLevels_none {frames : List Frame} {level nodes : Abbreviation}
    (closed : closeLevels frames level = (nodes, none)) :
    Tree.preorderAll 0 nodes = listing frames level := by
  induction frames generalizing level with
  | nil =>
    cases closed
    rfl
  | cons frame frames ih =>
    cases frame with
    | children before parent => rw [ih closed, listing_adopt]
    | group => cases closed

/-- Closing the levels of a group moves no node either. -/
theorem listing_of_closeLevels {frames frames' : List Frame} {level children before : Abbreviation}
    {opened : Span}
    (closed : closeLevels frames level = (children, some (before, opened, frames'))) :
    listing (.group before opened :: frames') children = listing frames level := by
  induction frames generalizing level with
  | nil => cases closed
  | cons frame frames ih =>
    cases frame with
    | children outer parent => rw [ih closed, listing_adopt]
    | group =>
      cases closed
      rfl

/-- A parenthesis closes its own level and all levels above it. -/
theorem levels_of_closeLevels {frames frames' : List Frame} {level children before : Abbreviation}
    {opened : Span}
    (closed : closeLevels frames level = (children, some (before, opened, frames'))) :
    levelsAfter (frames.map Frame.level) .closeGroup = frames'.map Frame.level := by
  induction frames generalizing level with
  | nil => cases closed
  | cons frame frames ih =>
    cases frame with
    | children outer parent => exact ih closed
    | group =>
      cases closed
      rfl

end Parser

/-! ## The parser follows the outline -/

def Announced (entries : List (Nat × Origin)) (nodes : List (Nat × Head)) : Prop :=
  List.Forall₂ Announces entries nodes

theorem Announced.append {entries entries' : List (Nat × Origin)} {nodes nodes' : List (Nat × Head)}
    (first : Announced entries nodes) (second : Announced entries' nodes') :
    Announced (entries ++ entries') (nodes ++ nodes') :=
  List.rel_append first second

/-- A node can be replaced by one that has been announced just as well. -/
theorem Announced.replace {entries : List (Nat × Origin)} {front back : List (Nat × Head)}
    {node other : Nat × Head} (h : Announced entries (front ++ node :: back))
    (same : ∀ entry, Announces entry node → Announces entry other) :
    Announced entries (front ++ other :: back) := by
  induction front generalizing entries with
  | nil =>
    cases h with
    | cons first rest => exact .cons (same _ first) rest
  | cons _ front ih =>
    cases h with
    | cons first rest => exact .cons first (ih rest)

/-- A closed group stands where its parenthesis was announced. -/
theorem Announced.close {entries : List (Nat × Origin)} {frames : List Frame}
    {before children : Abbreviation} {opened : Span} {head : Head}
    (h : Announced entries (listing (.group before opened :: frames) children))
    (kind : head.kind = .group) (start : head.span.start = opened.start) :
    Announced entries (listing frames (before ++ [.node head children])) := by
  rw [listing, listing_append, Tree.preorderAll_singleton, Tree.preorder, Tree.preorderAll,
    List.append_assoc] at h
  rw [listing_append, Tree.preorderAll_singleton, Tree.preorder]
  refine h.replace fun entry announces => ?_
  cases announces with
  | element isRun spells => exact absurd spells.kind_eq (by simp)
  | group _ opens => exact .group kind (start.trans opens)

/-- In front of the tokens `rest`, the nodes of a state and those still to come are announced by the
entries `whole`. -/
inductive Unfolds : State → List PlacedToken → List (Nat × Origin) → Prop where
  | missing {frames : List Frame} {before : Abbreviation} {rest : List PlacedToken}
      {entries : List (Nat × Origin)} (announced : Announced entries (listing frames before)) :
      Unfolds ⟨frames, before, .missing⟩ rest
        (entries ++ outline (frames.map Frame.level) false rest)
  | climbed {frames : List Frame} {before : Abbreviation} {node : Node} {rest : List PlacedToken}
      {entries : List (Nat × Origin)}
      (announced : Announced entries (listing frames (before ++ [node]))) :
      Unfolds ⟨frames, before, .climbed node⟩ rest
        (entries ++ outline (frames.map Frame.level) false rest)
  | element (run : List PlacedToken) {frames : List Frame} {before : Abbreviation}
      {rest : List PlacedToken} {entries : List (Nat × Origin)}
      (announced : Announced entries (listing frames before))
      (isRun : IsElementRun (run.map (·.token))) :
      Unfolds ⟨frames, before, .element (.ofRun (run.map (·.token))) (spanOf run)⟩ rest
        (entries ++ (frames.length,
          .element (run ++ rest.takeWhile fun next => !next.token.endsElement)) ::
            outline (frames.map Frame.level) true rest)
  | group {frames : List Frame} {before children : Abbreviation} {head : Head}
      {rest : List PlacedToken} {entries : List (Nat × Origin)} (opened : Span)
      (announced : Announced entries (listing (.group before opened :: frames) children))
      (kind : head.kind = .group) (start : head.span.start = opened.start) :
      Unfolds ⟨frames, before, .group head children⟩ rest
        (entries ++ outline (frames.map Frame.level) true rest)
  | complete {frames : List Frame} {before : Abbreviation} {node : Node} {rest : List PlacedToken}
      {entries : List (Nat × Origin)}
      (announced : Announced entries (listing frames (before ++ [node]))) :
      Unfolds ⟨frames, before, .complete node⟩ rest
        (entries ++ outline (frames.map Frame.level) true rest)

namespace Unfolds

variable {state next : State} {placed : PlacedToken} {rest : List PlacedToken}
  {whole : List (Nat × Origin)} {maxDepth : Nat}

/-- Where an item has to start, all nodes so far have been announced. -/
theorem announced_of_awaits {frames : List Frame} {before : Abbreviation}
    (h : Unfolds state rest whole) (awaits : state.Awaits frames before) :
    ∃ entries, Announced entries (listing frames before) ∧
      whole = entries ++ outline (frames.map Frame.level) false rest := by
  cases h with
  | missing announced | climbed announced =>
    cases awaits
    exact ⟨_, announced, rfl⟩
  | element | group | complete => cases awaits

theorem announced_of_ends {node : Node} (h : Unfolds state rest whole) (ends : state.item.Ends node)
    (stops : rest.takeWhile (fun next => !next.token.endsElement) = []) :
    ∃ entries, Announced entries (listing state.frames (state.before ++ [node])) ∧
      whole = entries ++ outline (state.frames.map Frame.level) true rest := by
  cases h with
  | missing | climbed => cases ends
  | element run announced isRun =>
    cases ends with
    | element finished =>
      obtain ⟨head, spells, rfl⟩ := isRun.finish_eq_ok_iff.1 finished
      rw [stops, List.append_nil]
      refine ⟨_, ?_, List.append_cons _ _ _⟩
      rw [listing_append, Tree.preorderAll_singleton, Tree.preorder, Tree.preorderAll]
      exact announced.append (.cons (.element isRun spells) .nil)
  | group opened announced kind start =>
    cases ends
    exact ⟨_, announced.close kind start, rfl⟩
  | complete announced =>
    cases ends
    exact ⟨_, announced, rfl⟩

theorem step (h : Unfolds state (placed :: rest) whole)
    (step : StepsTo maxDepth state placed next) : Unfolds next rest whole := by
  have stops (operator : placed.token.endsElement = true) :
      (placed :: rest).takeWhile (fun next => !next.token.endsElement) = [] :=
    List.takeWhile_cons_of_neg (by simp [operator])
  cases step with
  | openGroup awaits opens =>
    obtain ⟨entries, announced, rfl⟩ := h.announced_of_awaits awaits
    rw [outline_openGroup opens, List.append_cons, List.length_map]
    refine .missing ?_
    rw [listing_group_nil]
    exact announced.append (.cons (.group rfl rfl) .nil)
  | startElement awaits inside =>
    obtain ⟨entries, announced, rfl⟩ := h.announced_of_awaits awaits
    rw [outline_start inside, List.length_map]
    exact .element [placed] announced (.singleton inside)
  | extendElement added =>
    cases h with
    | element run announced isRun =>
      have inside := (Parts.add_eq_added_iff.1 added).1
      obtain ⟨longer, rfl⟩ := isRun.concat_of_add added
      have nonempty : run ≠ [] := by simpa using isRun.nonempty
      have same : run.map (·.token) ++ [placed.token] = (run ++ [placed]).map (·.token) := by simp
      rw [List.takeWhile_cons_of_pos (by simp [inside]), outline_inside inside,
        List.append_cons run, ← spanOf_concat nonempty]
      rw [same] at longer ⊢
      exact .element (run ++ [placed]) announced longer
  | multiplyGroup multiplies =>
    cases h with
    | group opened announced kind start =>
      rw [outline_inside (by simp [multiplies, Token.endsElement])]
      exact .complete (announced.close kind start)
  | child ends child =>
    have operator : placed.token.endsElement = true := by rw [child]; rfl
    obtain ⟨entries, announced, rfl⟩ := h.announced_of_ends ends (stops operator)
    rw [outline_operator operator (by simp [child]), child]
    exact .missing (by rwa [listing_children_nil])
  | sibling ends sibling =>
    have operator : placed.token.endsElement = true := by rw [sibling]; rfl
    obtain ⟨entries, announced, rfl⟩ := h.announced_of_ends ends (stops operator)
    rw [outline_operator operator (by simp [sibling]), sibling]
    exact .missing announced
  | @climb _ frames outer node parent _ last climbs found =>
    have operator : placed.token.endsElement = true := by rw [climbs]; rfl
    -- Whether an item ends here or was climbed back to, the level above it is closed.
    have announced : ∃ entries inItem,
        Announced entries (listing state.frames (state.before ++ [node])) ∧
          whole = entries ++ outline (state.frames.map Frame.level) inItem (placed :: rest) := by
      rcases last with ends | climbed
      · obtain ⟨entries, announced, same⟩ := h.announced_of_ends ends (stops operator)
        exact ⟨entries, true, announced, same⟩
      · cases h with
        | missing | element | group | complete => cases climbed
        | climbed announced =>
          cases climbed
          exact ⟨_, false, announced, rfl⟩
    obtain ⟨entries, inItem, announced, rfl⟩ := announced
    rw [found] at announced ⊢
    rw [outline_operator operator (by simp [climbs]), climbs]
    exact .climbed (by rwa [listing_adopt])
  | @closeGroup _ _ _ _ _ opened _ ends closes closed =>
    have operator : placed.token.endsElement = true := by rw [closes]; rfl
    obtain ⟨entries, announced, rfl⟩ := h.announced_of_ends ends (stops operator)
    rw [outline_operator operator (by simp [closes]), closes, levels_of_closeLevels closed]
    refine .group opened ?_ rfl rfl
    rwa [listing_of_closeLevels closed]

theorem run {tokens : List PlacedToken} (h : Unfolds state tokens whole)
    (ok : State.run maxDepth state tokens = .ok next) : Unfolds next [] whole := by
  induction tokens generalizing state with
  | nil =>
    cases ok
    exact h
  | cons first rest ih =>
    obtain ⟨middle, step, ok⟩ := Except.bind_eq_ok_iff.1 ok
    exact ih (h.step (step_eq_ok_iff.1 step)) ok

theorem finish {stop : Nat} {forest : Abbreviation} (h : Unfolds state [] whole)
    (ok : state.finish stop = .ok forest) : Announced whole (Tree.preorderAll 0 forest) := by
  obtain ⟨node, ends⟩ := State.exists_ends_of_finish ok
  obtain ⟨entries, announced, rfl⟩ := h.announced_of_ends ends rfl
  rw [State.finish_of_ends ends, State.close] at ok
  split at ok
  next nodes closed =>
    cases ok
    rwa [listing_of_closeLevels_none closed, outline, List.append_nil]
  next => cases ok

end Unfolds

theorem Announced.countP_group_eq {entries : List (Nat × Origin)} {nodes : List (Nat × Head)}
    (h : Announced entries nodes) :
    entries.countP (fun entry => entry.2 matches .group _) =
      nodes.countP (fun node => node.2.kind = .group) := by
  induction h with
  | nil => rfl
  | cons first rest ih =>
    rw [List.countP_cons, List.countP_cons, ih]
    cases first with
    | element isRun spells => simp [spells.kind_eq]
    | group kind => simp [kind]

theorem announced_of_parse {source : String} {maxDepth : Nat} {tokens : List PlacedToken}
    {forest : Abbreviation} (accepted : parse source maxDepth tokens = .ok forest) :
    Announced (outline [] false tokens) (Tree.preorderAll 0 forest) := by
  obtain ⟨last, reads, finished⟩ := Except.bind_eq_ok_iff.1 (locate_eq_ok_iff.1 accepted)
  have none : Announced [] (listing [] []) := .nil
  have start : Unfolds {} tokens (outline [] false tokens) := .missing none
  exact (start.run reads).finish finished

/-- The nodes of a parsed forest in preorder are those of the outline of its tokens, one by one and
at the same depths, and as many of them are groups as there are opening parentheses. -/
theorem parse_follows_outline {source : String} {maxDepth : Nat} {tokens : List PlacedToken}
    {forest : Abbreviation} (accepted : parse source maxDepth tokens = .ok forest) :
    List.Forall₂ Announces (outline [] false tokens) (Tree.preorderAll 0 forest) ∧
      (Tree.preorderAll 0 forest).countP (fun node => node.2.kind = .group) =
        tokens.countP (·.token = .openGroup) := by
  have announced := announced_of_parse accepted
  refine ⟨announced, ?_⟩
  rw [← announced.countP_group_eq, countP_group_outline]

/-- A `>` behind a group leads to further nodes of the group. -/
theorem parse_follows_outline_joined :
    ∃ forest, parse "(a)>b" 5 [⟨.openGroup, ⟨0, 1⟩⟩, ⟨.tagName "a", ⟨1, 2⟩⟩,
        ⟨.closeGroup, ⟨2, 3⟩⟩, ⟨.child, ⟨3, 4⟩⟩, ⟨.tagName "b", ⟨4, 5⟩⟩] = .ok forest ∧
      List.Forall₂ Announces
        [(0, .group ⟨.openGroup, ⟨0, 1⟩⟩), (1, .element [⟨.tagName "a", ⟨1, 2⟩⟩]),
          (1, .element [⟨.tagName "b", ⟨4, 5⟩⟩])]
        (Tree.preorderAll 0 forest) := by
  have labels : (parse "(a)>b" 5 [⟨.openGroup, ⟨0, 1⟩⟩, ⟨.tagName "a", ⟨1, 2⟩⟩,
      ⟨.closeGroup, ⟨2, 3⟩⟩, ⟨.child, ⟨3, 4⟩⟩, ⟨.tagName "b", ⟨4, 5⟩⟩]).toOption.map
        (Tree.preorderAll 0) =
      some [(0, { kind := .group, span := ⟨0, 3⟩ }), (1, { tag := some "a", span := ⟨1, 2⟩ }),
        (1, { tag := some "b", span := ⟨4, 5⟩ })] := by decide +kernel
  obtain ⟨forest, accepted, -⟩ := Except.exists_of_toOption_map labels
  exact ⟨forest, accepted, (parse_follows_outline accepted).1⟩

end Shorthand
