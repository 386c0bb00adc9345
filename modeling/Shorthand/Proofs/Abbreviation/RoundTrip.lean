import Shorthand.Expansion
import Shorthand.Proofs.Abbreviation.ParserSteps
import Shorthand.Proofs.Abbreviation.Writing
import Shorthand.Proofs.Except
import Shorthand.Proofs.Forest

/-! # Parsing undoes writing

The parser reads what is written for a node wherever an item has to start, and leaves just the
levels open that the node leaves open.  The operators between siblings close them, so that the next
sibling is read at the same level.
-/
namespace Shorthand

open Shorthand.Parser

def Head.unplaced (head : Head) : Head := { head with span := ⟨0, 0⟩ }

namespace Parser

/-- One level more can be closed behind the others. -/
theorem Unwinds.concat {count : Nat} {frames frames' : List Frame}
    {level level' outer : Abbreviation} {parent : Node}
    (h : Unwinds count frames level (.children outer parent :: frames') level') :
    Unwinds (count + 1) frames level frames' (outer ++ [parent.adopt level']) := by
  generalize same : Frame.children outer parent :: frames' = whole at h
  induction h with
  | none =>
    subst same
    exact .one .none
  | one rest ih => exact .one (ih same)

/-- The operators between two siblings close what the first one leaves open. -/
theorem run_between (maxDepth : Nat) {count : Nat} {state : State} {node : Node}
    {frames : List Frame} {level : Abbreviation} {placed : List PlacedToken}
    (ends : state.item.Ends node)
    (unwinds : Unwinds count state.frames (state.before ++ [node]) frames level)
    (same : placed.map (·.token) = between count) :
    ∃ next, State.run maxDepth state placed = .ok next ∧ next.Awaits frames level := by
  cases count with
  | zero =>
    obtain ⟨operator, rfl, sibling⟩ := List.map_eq_singleton_iff.1 same
    refine ⟨_, State.run_singleton (.sibling ends sibling), ?_⟩
    generalize closed : state.before ++ [node] = nodes at unwinds
    generalize state.frames = inner at unwinds
    cases unwinds
    exact .missing _ _
  | succ count => exact State.run_climbs maxDepth (.inl ends) same unwinds

end Parser

/-- The children of a node lie one level deeper, so that there is room for this level. -/
theorem room_of_shallow {maxDepth depth : Nat} {children : Abbreviation} (nonempty : children ≠ [])
    (deeper : ∀ entry ∈ Tree.preorderAll (depth + 1) children, entry.1 ≤ maxDepth) :
    depth < maxDepth := by
  obtain ⟨label, mem⟩ := Tree.exists_mem_preorderAll nonempty (depth + 1)
  exact deeper _ mem

/-- Wherever an item has to start, what is written for a tree is read as this tree. -/
def ReadsBack (maxDepth : Nat) (tree : Node) : Prop :=
  ∀ {state : State} {frames : List Frame} {before : Abbreviation} {placed : List PlacedToken},
    state.Awaits frames before → placed.map (·.token) = writeNode tree →
      (∀ entry ∈ tree.preorder frames.length, entry.1 ≤ maxDepth) →
        ∃ next node read, State.run maxDepth state placed = .ok next ∧ next.item.Ends node ∧
          Unwinds (openBehind tree) next.frames (next.before ++ [node]) frames (before ++ [read]) ∧
            read.map Head.unplaced = tree.map Head.unplaced

theorem readsBack_siblings {maxDepth : Nat} {forest : Abbreviation} (nonempty : forest ≠ [])
    (each : ∀ tree ∈ forest, ReadsBack maxDepth tree) {state : State} {frames : List Frame}
    {before : Abbreviation} {placed : List PlacedToken} (awaits : state.Awaits frames before)
    (same : placed.map (·.token) = writeNodes forest)
    (shallow : ∀ entry ∈ Tree.preorderAll frames.length forest, entry.1 ≤ maxDepth) :
    ∃ next node read, State.run maxDepth state placed = .ok next ∧ next.item.Ends node ∧
      Unwinds (openBehindLast forest) next.frames (next.before ++ [node]) frames (before ++ read) ∧
        Tree.mapAll Head.unplaced read = Tree.mapAll Head.unplaced forest := by
  induction forest generalizing state before placed with
  | nil => exact absurd rfl nonempty
  | cons first others ih =>
    have shallow' : ∀ entry ∈ first.preorder frames.length, entry.1 ≤ maxDepth :=
      fun entry mem => shallow entry (List.mem_append_left _ mem)
    cases others with
    | nil =>
      obtain ⟨next, node, read, reads, ends, unwinds, shape⟩ :=
        each first List.mem_cons_self awaits same shallow'
      exact ⟨next, node, [read], reads, ends, unwinds, by rw [Tree.mapAll, shape]; rfl⟩
    | cons second others =>
      obtain ⟨front, last, rfl, start, rest⟩ := List.map_eq_append_iff.1 same
      obtain ⟨own, operators, rfl, own', operators'⟩ := List.map_eq_append_iff.1 start
      obtain ⟨next, node, read, reads, ends, unwinds, shape⟩ :=
        each first List.mem_cons_self awaits own' shallow'
      obtain ⟨middle, closes, awaits'⟩ := run_between maxDepth ends unwinds operators'
      obtain ⟨next', node', read', reads', ends', unwinds', shape'⟩ :=
        ih (by simp) (fun tree mem => each tree (List.mem_cons_of_mem _ mem)) awaits' rest
          fun entry mem => shallow entry (List.mem_append_right _ mem)
      rw [List.append_assoc, List.singleton_append] at unwinds'
      refine ⟨next', node', read :: read', ?_, ends', unwinds', ?_⟩
      · exact State.run_append_of_ok (State.run_append_of_ok reads closes) reads'
      · rw [Tree.mapAll, Tree.mapAll, shape, shape']

theorem Writable.readsBack {maxDepth : Nat} {tree : Node} (h : Writable tree) :
    ReadsBack maxDepth tree := by
  induction h with
  | @element head children kind fits inner ih =>
    intro state frames before placed awaits same shallow
    rw [writeNode, kind] at same
    obtain ⟨own, below, rfl, own', below'⟩ := List.map_eq_append_iff.1 same
    have isRun : IsElementRun (own.map (·.token)) := by
      rw [own']
      exact Head.isElementRun_written
    have reads := State.run_elementRun maxDepth awaits isRun
    have spells := fits.spells kind (spanOf own)
    rw [← own'] at spells
    have ends : Item.Ends (.element (.ofRun (own.map (·.token))) (spanOf own))
        (.node { head with span := spanOf own } []) :=
      .element (isRun.finish_eq_ok_iff.2 ⟨_, spells, rfl⟩)
    by_cases leaf : children = []
    · subst leaf
      obtain rfl : below = [] := by simpa using below'
      rw [List.append_nil]
      refine ⟨_, _, .node { head with span := spanOf own } [], reads, ends, ?_, rfl⟩
      rw [openBehind, if_neg (by simp)]
      exact .none
    · rw [if_neg (by simpa using leaf)] at below'
      obtain ⟨operator, inside, rfl, child, inside'⟩ := List.map_eq_cons_iff.1 below'
      have deeper : ∀ entry ∈ Tree.preorderAll (frames.length + 1) children, entry.1 ≤ maxDepth :=
        fun entry mem => shallow entry (List.mem_cons_of_mem _ mem)
      have opens : StepsTo maxDepth ⟨frames, before, _⟩ operator _ :=
        .child ends child (room_of_shallow leaf deeper)
      obtain ⟨next, node, read, reads', ends', unwinds, shape⟩ := readsBack_siblings leaf ih
        (State.Awaits.missing
          (.children before (.node { head with span := spanOf own } []) :: frames) [])
        inside' deeper
      refine ⟨next, node, .node { head with span := spanOf own } read, ?_, ends', ?_, ?_⟩
      · rw [List.append_cons]
        exact State.run_append_of_ok
          (State.run_append_of_ok reads (State.run_singleton opens)) reads'
      · rw [openBehind, if_pos ⟨kind, leaf⟩]
        exact unwinds.concat
      · rw [Tree.map, Tree.map, shape]
        rfl
  | @group multiplier span children positive nonempty inner ih =>
    intro state frames before placed awaits same shallow
    rw [writeNode] at same
    dsimp only at same
    rw [List.append_cons] at same
    obtain ⟨parentheses, behind, rfl, whole, last⟩ := List.map_eq_append_iff.1 same
    obtain ⟨times, rfl, multiplies⟩ := List.map_eq_singleton_iff.1 last
    obtain ⟨first, inside, last, rfl, opens, inside', closes⟩ := exists_group_of_map whole
    have deeper : ∀ entry ∈ Tree.preorderAll (frames.length + 1) children, entry.1 ≤ maxDepth :=
      fun entry mem => shallow entry (List.mem_cons_of_mem _ mem)
    have room : frames.length < maxDepth := room_of_shallow nonempty deeper
    obtain ⟨next, node, read, reads, ends, unwinds, shape⟩ := readsBack_siblings nonempty ih
      (State.Awaits.missing (.group before first.span :: frames) []) inside' deeper
    have group := State.run_groupMultiplier
      (State.run_group awaits opens closes room reads ends unwinds) multiplies
    refine ⟨_, _, .node { kind := .group, multiplier, span := ⟨first.span.start, times.span.stop⟩ }
      read, group, .complete, .none, ?_⟩
    rw [Tree.map, Tree.map, shape]
    rfl

/-- Parsing undoes writing, as far as the places of the nodes do not matter. -/
theorem parseAbbreviation_write {forest : Abbreviation} (maxDepth : Nat) (nonempty : forest ≠ [])
    (writable : ∀ tree ∈ forest, Writable tree)
    (shallow : ∀ entry ∈ Tree.preorderAll 0 forest, entry.1 ≤ maxDepth) :
    ∃ parsed, parseAbbreviation (write forest) maxDepth = .ok parsed ∧
      Tree.mapAll Head.unplaced parsed = Tree.mapAll Head.unplaced forest := by
  obtain ⟨placed, lexed, same⟩ := lex_write writable
  obtain ⟨next, node, read, reads, ends, unwinds, shape⟩ := readsBack_siblings nonempty
    (fun tree mem => (writable tree mem).readsBack) (State.Awaits.missing [] []) same shallow
  have finished : next.finish (write forest).utf8ByteSize = .ok read := by
    rw [State.finish_of_ends ends, State.close, unwinds.closeLevels_eq]
    rfl
  have parsed : parse (write forest) maxDepth placed = .ok read :=
    locate_eq_ok_iff.2 (Except.bind_eq_ok_iff.2 ⟨next, reads, finished⟩)
  exact ⟨read, Except.bind_eq_ok_iff.2 ⟨placed, locate_eq_ok_iff.2 lexed, parsed⟩, shape⟩

/-- The first sibling leaves one level open. -/
theorem parseAbbreviation_write_climb :
    ∃ parsed, parseAbbreviation "ul*1>li.item$*1^(p[lang=\"en\"]*3)*2" 256 = .ok parsed ∧
      Tree.mapAll Head.unplaced parsed =
        [.node { tag := some "ul" } [.node { tag := some "li", classes := ["item$"] } []],
          .node { kind := .group, multiplier := 2 }
            [.node { tag := some "p", attributes := [⟨"lang", some "en"⟩], multiplier := 3 }
              []]] := by
  have writable : ∀ tree ∈
      ([.node { tag := some "ul" } [.node { tag := some "li", classes := ["item$"] } []],
        .node { kind := .group, multiplier := 2 }
          [.node { tag := some "p", attributes := [⟨"lang", some "en"⟩], multiplier := 3 } []]] :
            Abbreviation), Writable tree := by
    simp only [List.forall_mem_cons]
    refine ⟨.element rfl (by decide) ?_, .group (by decide) (by simp) ?_, by simp⟩
    · simpa using Writable.element rfl (by decide) (by simp)
    · simpa using Writable.element rfl (by decide) (by simp)
  obtain ⟨parsed, ok, same⟩ := parseAbbreviation_write 256 (by simp) writable (by decide)
  refine ⟨parsed, ?_, same⟩
  rw [← ok]
  rfl

end Shorthand
