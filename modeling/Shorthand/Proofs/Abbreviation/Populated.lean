import Shorthand.Expansion
import Shorthand.Proofs.Abbreviation.ParserSteps
import Shorthand.Proofs.Forest
import Shorthand.Proofs.Token.Reading

/-! # Nothing is empty

The parser makes no group without a node in it, and a multiplier that has been read is not zero.  So
every node of a parsed forest has copies, and under every group there is an element.
-/
namespace Shorthand

open Shorthand.Parser

/-- Every node is repeated at least once.  A group has a multiplier and children and nothing else. -/
inductive Populated : Node → Prop where
  | element {head : Head} {children : Abbreviation} (kind : head.kind = .element)
      (repeated : head.multiplier ≠ 0) (below : ∀ child ∈ children, Populated child) :
      Populated (.node head children)
  | group {multiplier : UInt64} {span : Span} {children : Abbreviation}
      (repeated : multiplier ≠ 0) (filled : children ≠ [])
      (below : ∀ child ∈ children, Populated child) :
      Populated (.node { kind := .group, multiplier, span } children)

theorem Populated.adopt {parent : Node} (h : Populated parent) {more : Abbreviation}
    (each : ∀ node ∈ more, Populated node) : Populated (parent.adopt more) := by
  cases h with
  | element kind repeated below =>
    exact .element kind repeated (List.forall_mem_append.2 ⟨below, each⟩)
  | group repeated filled below =>
    exact .group repeated (List.append_ne_nil_of_left_ne_nil filled more)
      (List.forall_mem_append.2 ⟨below, each⟩)

/-- What holds of the nodes of a populated tree, each on its own. -/
theorem Populated.of_mem_labels {tree : Node} (h : Populated tree) {head : Head}
    (mem : head ∈ tree.labels) :
    head.multiplier ≠ 0 ∧
      (head.kind = .group → ∃ multiplier span, head = { kind := .group, multiplier, span }) := by
  induction h with
  | element kind repeated below ih =>
    rcases List.mem_cons.1 mem with rfl | mem
    · exact ⟨repeated, fun group => by rw [kind] at group; cases group⟩
    · obtain ⟨child, inside, mem⟩ := Tree.mem_labelsAll.1 mem
      exact ih child inside mem
  | group repeated filled below ih =>
    rcases List.mem_cons.1 mem with rfl | mem
    · exact ⟨repeated, fun _ => ⟨_, _, rfl⟩⟩
    · obtain ⟨child, inside, mem⟩ := Tree.mem_labelsAll.1 mem
      exact ih child inside mem

namespace Parser

/-- The nodes of an open level, and the parent of the level above it. -/
def Frame.Solid : Frame → Prop
  | .children before parent => (∀ node ∈ before, Populated node) ∧ Populated parent
  | .group before _ => ∀ node ∈ before, Populated node

def Item.Solid : Item → Prop
  | .missing => True
  | .element parts _ => parts.multiplier ≠ some 0
  | .group head children =>
    (∃ span, head = { kind := .group, span }) ∧ children ≠ [] ∧
      ∀ child ∈ children, Populated child
  | .complete node | .climbed node => Populated node

structure State.Solid (state : State) : Prop where
  frames : ∀ frame ∈ state.frames, frame.Solid
  before : ∀ node ∈ state.before, Populated node
  item : state.item.Solid

theorem Item.Ends.populated {item : Item} {node : Node} (ends : item.Ends node)
    (h : item.Solid) : Populated node := by
  cases ends with
  | @element parts span _ finished =>
    obtain ⟨head, settled, rfl⟩ := Parts.finish_eq_ok_iff.1 finished
    rw [(Head.settleNumbering_eq_some_iff.1 settled).2]
    refine .element rfl ?_ (by simp)
    show parts.multiplier.getD 1 ≠ 0
    cases multiplier : parts.multiplier with
    | none => decide
    | some count =>
      rintro rfl
      exact h multiplier
  | group =>
    obtain ⟨⟨span, rfl⟩, filled, below⟩ := h
    exact .group (by decide) filled below
  | complete => exact h

/-- Closing levels leaves nothing empty, neither what is closed nor what lies below it. -/
theorem populated_of_closeLevels {frames : List Frame} {level children : Abbreviation}
    {below : Option (Abbreviation × Span × List Frame)} (nonempty : level ≠ [])
    (solid : ∀ frame ∈ frames, frame.Solid) (each : ∀ node ∈ level, Populated node)
    (closed : closeLevels frames level = (children, below)) :
    (children ≠ [] ∧ ∀ child ∈ children, Populated child) ∧
      ∀ opened ∈ below, (∀ node ∈ opened.1, Populated node) ∧
        ∀ frame ∈ opened.2.2, frame.Solid := by
  induction frames generalizing level with
  | nil =>
    cases closed
    exact ⟨⟨nonempty, each⟩, by simp⟩
  | cons frame frames ih =>
    rw [List.forall_mem_cons] at solid
    cases frame with
    | children outer parent =>
      refine ih (by simp) solid.2 ?_ closed
      rw [List.forall_mem_append, List.forall_mem_singleton]
      exact ⟨solid.1.1, solid.1.2.adopt each⟩
    | group outer opened =>
      cases closed
      refine ⟨⟨nonempty, each⟩, fun below mem => ?_⟩
      cases Option.some.inj mem
      exact solid

namespace State.Solid

variable {maxDepth : Nat} {state next : State} {placed : PlacedToken}

theorem level (h : state.Solid) {node : Node} (ends : state.item.Ends node) :
    ∀ tree ∈ state.before ++ [node], Populated tree := by
  rw [List.forall_mem_append, List.forall_mem_singleton]
  exact ⟨h.before, ends.populated h.item⟩

theorem of_awaits (h : state.Solid) {frames : List Frame} {before : Abbreviation}
    (awaits : state.Awaits frames before) :
    (∀ frame ∈ frames, frame.Solid) ∧ ∀ node ∈ before, Populated node := by
  cases awaits with
  | missing => exact ⟨h.frames, h.before⟩
  | climbed =>
    rw [List.forall_mem_append, List.forall_mem_singleton]
    exact ⟨h.frames, h.before, h.item⟩

theorem step (h : state.Solid) (counted : placed.token ≠ .multiplier 0)
    (step : StepsTo maxDepth state placed next) : next.Solid := by
  cases step with
  | openGroup awaits opens =>
    obtain ⟨frames, before⟩ := h.of_awaits awaits
    exact ⟨List.forall_mem_cons.2 ⟨before, frames⟩, by simp, trivial⟩
  | startElement awaits inside =>
    obtain ⟨frames, before⟩ := h.of_awaits awaits
    refine ⟨frames, before, ?_⟩
    show [placed.token].findSome? Token.multiplier? ≠ some 0
    cases token : placed.token <;> simp_all [Token.multiplier?]
  | @extendElement _ _ parts _ _ _ added =>
    refine ⟨h.frames, h.before, ?_⟩
    obtain ⟨-, -, -, rfl⟩ := Parts.add_eq_added_iff.1 added
    have before : parts.multiplier ≠ some 0 := h.item
    show parts.multiplier.or placed.token.multiplier? ≠ some 0
    cases own : parts.multiplier with
    | none => cases token : placed.token <;> simp_all [Token.multiplier?]
    | some count => simpa [own] using before
  | multiplyGroup multiplies =>
    obtain ⟨⟨span, rfl⟩, filled, below⟩ := h.item
    refine ⟨h.frames, h.before, .group ?_ filled below⟩
    rintro rfl
    exact counted multiplies
  | child ends =>
    exact ⟨List.forall_mem_cons.2 ⟨⟨h.before, ends.populated h.item⟩, h.frames⟩, by simp, trivial⟩
  | sibling ends => exact ⟨h.frames, h.level ends, trivial⟩
  | @climb _ frames outer node parent _ last _ found =>
    have frames := h.frames
    rw [found, List.forall_mem_cons] at frames
    obtain ⟨⟨before, parent⟩, frames⟩ := frames
    refine ⟨frames, before, parent.adopt ?_⟩
    rcases last with ends | climbed
    · exact h.level ends
    · have item := h.item
      rw [climbed] at item
      rw [List.forall_mem_append, List.forall_mem_singleton]
      exact ⟨h.before, item⟩
  | closeGroup ends _ closed =>
    obtain ⟨⟨filled, each⟩, below⟩ :=
      populated_of_closeLevels (by simp) h.frames (h.level ends) closed
    obtain ⟨before, frames⟩ := below _ rfl
    exact ⟨frames, before, ⟨_, rfl⟩, filled, each⟩

theorem run {tokens : List PlacedToken} (h : state.Solid)
    (counted : ∀ placed ∈ tokens, placed.token ≠ .multiplier 0)
    (ok : State.run maxDepth state tokens = .ok next) : next.Solid := by
  induction tokens generalizing state with
  | nil =>
    cases ok
    exact h
  | cons first rest ih =>
    rw [List.forall_mem_cons] at counted
    obtain ⟨middle, step, ok⟩ := Except.bind_eq_ok_iff.1 ok
    exact ih (h.step counted.1 (step_eq_ok_iff.1 step)) counted.2 ok

theorem finish {stop : Nat} {forest : Abbreviation} (h : state.Solid)
    (ok : state.finish stop = .ok forest) :
    forest ≠ [] ∧ ∀ tree ∈ forest, Populated tree := by
  obtain ⟨node, ends⟩ := State.exists_ends_of_finish ok
  rw [State.finish_of_ends ends, State.close] at ok
  split at ok
  next nodes closed =>
    cases ok
    exact (populated_of_closeLevels (by simp) h.frames (h.level ends) closed).1
  next => cases ok

end State.Solid

end Parser

theorem populated_of_parseAbbreviation {source : String} {maxDepth : Nat} {forest : Abbreviation}
    (ok : parseAbbreviation source maxDepth = .ok forest) :
    forest ≠ [] ∧ ∀ tree ∈ forest, Populated tree := by
  obtain ⟨tokens, tokenized, parsed⟩ := Except.bind_eq_ok_iff.1 ok
  obtain ⟨last, reads, finished⟩ := Except.bind_eq_ok_iff.1 (locate_eq_ok_iff.1 parsed)
  have start : State.Solid {} := ⟨by simp, by simp, trivial⟩
  exact (start.run (counted_of_lex (locate_eq_ok_iff.1 tokenized)) reads).finish finished

end Shorthand
