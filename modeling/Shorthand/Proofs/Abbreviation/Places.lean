import Shorthand.Proofs.Abbreviation.Outline
import Shorthand.Proofs.Token.Tiling

/-! # Places of nodes

Every node has the span that it was read from.  The parser makes spans in two ways only: it takes that
of a token, or it goes from the start of a span that it has to the end of a token.  Tokens tile their
source, so no span of a node or of a fault leaves it, and that of a node covers some characters.
-/
namespace Shorthand.Parser

/-! ## Spans of a state -/

/-- The spans of the nodes of some open levels, with `level` innermost. -/
def spansOf (frames : List Frame) (level : Abbreviation) : List Span :=
  (listing frames level).map (·.2.span)

def Item.spans : Item → List Span
  | .missing => []
  | .element _ span => [span]
  | .group head children => head.span :: (Tree.labelsAll children).map (·.span)
  | .complete node => node.labels.map (·.span)
  | .climbed node => node.labels.map (·.span)

def State.spans (state : State) : List Span :=
  spansOf state.frames state.before ++ state.item.spans

theorem map_span_preorder (depth : Nat) (node : Node) :
    (node.preorder depth).map (·.2.span) = node.labels.map (·.span) := by
  rw [← Tree.map_snd_preorder depth node, List.map_map]
  rfl

theorem map_span_preorderAll (depth : Nat) (forest : Abbreviation) :
    (Tree.preorderAll depth forest).map (·.2.span) = (Tree.labelsAll forest).map (·.span) := by
  rw [← Tree.map_snd_preorderAll depth forest, List.map_map]
  rfl

theorem spansOf_concat (frames : List Frame) (before : Abbreviation) (node : Node) :
    spansOf frames (before ++ [node]) = spansOf frames before ++ node.labels.map (·.span) := by
  rw [spansOf, spansOf, listing_append, Tree.preorderAll_singleton, List.map_append,
    map_span_preorder]

theorem spansOf_group (before : Abbreviation) (opened : Span) (frames : List Frame)
    (children : Abbreviation) :
    spansOf (.group before opened :: frames) children =
      spansOf frames before ++ opened :: (Tree.labelsAll children).map (·.span) := by
  rw [spansOf, listing, List.map_append, ← spansOf, spansOf_concat, map_span_preorderAll,
    List.append_assoc]
  rfl

theorem Parts.labels_of_finish {parts : Parts} {span : Span} {node : Node}
    (finished : parts.finish span = .ok node) : node.labels.map (·.span) = [span] := by
  obtain ⟨head, settled, rfl⟩ := finish_eq_ok_iff.1 finished
  rw [(Head.settleNumbering_eq_some_iff.1 settled).2]
  rfl

theorem Item.Ends.spans_eq {item : Item} {node : Node} (ends : item.Ends node) :
    node.labels.map (·.span) = item.spans := by
  cases ends with
  | element finished => exact Parts.labels_of_finish finished
  | group | complete => rfl

section Spans

variable {state : State} {frames : List Frame} {before : Abbreviation} {node : Node}

theorem State.Awaits.spans_eq (awaits : state.Awaits frames before) :
    spansOf frames before = state.spans := by
  cases awaits with
  | missing => exact (List.append_nil _).symm
  | climbed => exact spansOf_concat _ _ _

theorem spansOf_of_ends (ends : state.item.Ends node) :
    spansOf state.frames (state.before ++ [node]) = state.spans := by
  rw [spansOf_concat, ends.spans_eq, State.spans]

/-- A parenthesis that may be closed is among the spans. -/
theorem spansOf_of_closeLevels {children : Abbreviation} {opened : Span} (ends : state.item.Ends node)
    (closed : closeLevels state.frames (state.before ++ [node]) =
      (children, some (before, opened, frames))) :
    state.spans = spansOf frames before ++ opened :: (Tree.labelsAll children).map (·.span) := by
  rw [← spansOf_of_ends ends, ← spansOf_group, spansOf, spansOf, listing_of_closeLevels closed]

end Spans

/-! ## Spans of one step -/

inductive SpansTo (token : Span) : List Span → List Span → Prop where
  | same (spans : List Span) : SpansTo token spans spans
  | taken (spans : List Span) : SpansTo token spans (spans ++ [token])
  | covering (front : List Span) (earlier : Span) (back : List Span) :
      SpansTo token (front ++ earlier :: back) (front ++ ⟨earlier.start, token.stop⟩ :: back)

section Steps

variable {maxDepth : Nat} {state next : State} {placed : PlacedToken} {fault : Fault}

theorem StepsTo.spansTo (step : StepsTo maxDepth state placed next) :
    SpansTo placed.span state.spans next.spans := by
  cases step with
  | openGroup awaits =>
    rw [← awaits.spans_eq, State.spans, spansOf_group]
    simp only [Item.spans, Tree.labelsAll, List.map_nil, List.append_nil]
    exact .taken _
  | startElement awaits =>
    rw [← awaits.spans_eq]
    exact .taken _
  | extendElement => exact .covering _ _ []
  | multiplyGroup => exact .covering _ _ _
  | child ends =>
    rw [← spansOf_of_ends ends, spansOf, ← listing_children_nil, State.spans, Item.spans,
      List.append_nil]
    exact .same _
  | sibling ends =>
    rw [← spansOf_of_ends ends, State.spans, Item.spans, List.append_nil]
    exact .same _
  | @climb _ frames outer node parent _ last climbs found =>
    -- The last item counts whether it ends here or was climbed back to.
    have spans : spansOf state.frames (state.before ++ [node]) = state.spans := by
      rcases last with ends | climbed
      · exact spansOf_of_ends ends
      · rw [spansOf_concat, State.spans, climbed]
        rfl
    rw [← spans, found, spansOf, ← listing_adopt, ← spansOf, spansOf_concat]
    exact .same _
  | closeGroup ends closes closed =>
    rw [spansOf_of_closeLevels ends closed]
    exact .covering _ _ _

end Steps

/-! ## Spans inside a text -/

/-- Spans of some characters of a text that end at the byte `pos` at the latest. -/
def Within (text : List Char) (pos : Nat) (spans : List Span) : Prop :=
  ∀ span ∈ spans, span.Inside text ∧ span.start < span.stop ∧ span.stop ≤ pos

section Within

variable {text : List Char} {pos maxDepth : Nat} {spans spans' : List Span} {token : Span}

theorem Within.mono {pos' : Nat} (h : Within text pos spans) (onward : pos ≤ pos') :
    Within text pos' spans := by
  intro span mem
  obtain ⟨inside, filled, stops⟩ := h span mem
  exact ⟨inside, filled, Nat.le_trans stops onward⟩

/-- A token behind all spans keeps them inside the text. -/
theorem Within.spansTo (h : Within text pos spans) (inside : token.Inside text)
    (filled : token.start < token.stop) (behind : pos ≤ token.start)
    (step : SpansTo token spans spans') : Within text token.stop spans' := by
  have kept := h.mono (Nat.le_trans behind inside.ordered)
  cases step with
  | same => exact kept
  | taken =>
    rw [Within, List.forall_mem_append, List.forall_mem_singleton]
    exact ⟨kept, inside, filled, Nat.le_refl _⟩
  | covering front earlier back =>
    rw [Within, List.forall_mem_append, List.forall_mem_cons] at kept ⊢
    obtain ⟨first, ⟨here, covers, ordered⟩, last⟩ := kept
    have covers : earlier.start < token.stop := Nat.lt_of_lt_of_le covers ordered
    exact ⟨first, ⟨⟨here.starts, inside.stops, Nat.le_of_lt covers⟩, covers, Nat.le_refl _⟩, last⟩

variable {state last : State} {placed : PlacedToken} {fault : Fault}

theorem Item.Conflicts.inside (h : Within text pos state.spans) (conflicts : state.item.Conflicts fault) :
    fault.span.Inside text := by
  obtain ⟨frames, before, item⟩ := state
  cases conflicts with
  | intro parts span => exact (h span (List.mem_append_right _ List.mem_cons_self)).1

theorem inside_of_step_error (h : Within text pos state.spans) (inside : placed.span.Inside text)
    (failed : state.step maxDepth placed = .error fault) : fault.span.Inside text := by
  rcases State.step_error failed with blames | conflicts
  · cases blames <;> exact inside
  · exact conflicts.inside h

/-- Reading tokens that tile the rest of a text keeps all spans inside the text. -/
theorem within_of_run {front rest : List Char} {tokens : List PlacedToken}
    (tiles : Tiles pos rest tokens) (start : byteSize front = pos)
    (h : Within (front ++ rest) pos state.spans) (ok : state.run maxDepth tokens = .ok last) :
    Within (front ++ rest) (pos + byteSize rest) last.spans := by
  induction tiles generalizing state front with
  | nil =>
    cases ok
    exact h
  | @cons pos spelling rest token others nonempty _ _ ih =>
    subst start
    obtain ⟨next, step, ok⟩ := Except.bind_eq_ok_iff.1 ok
    have onward := h.spansTo (Span.inside_append front spelling rest)
      (lt_add_byteSize nonempty _) (Nat.le_refl _) (step_eq_ok_iff.1 step).spansTo
    rw [← List.append_assoc] at onward ⊢
    rw [byteSize_append, ← Nat.add_assoc]
    exact ih (byteSize_append ..) onward ok

theorem inside_of_run_error {front rest : List Char} {tokens : List PlacedToken}
    (tiles : Tiles pos rest tokens) (start : byteSize front = pos)
    (h : Within (front ++ rest) pos state.spans)
    (failed : state.run maxDepth tokens = .error fault) : fault.span.Inside (front ++ rest) := by
  induction tiles generalizing state front with
  | nil => cases failed
  | @cons pos spelling rest token others nonempty _ _ ih =>
    subst start
    have covers := Span.inside_append front spelling rest
    rcases Except.bind_eq_error_iff.1 failed with here | ⟨next, step, later⟩
    · exact inside_of_step_error h covers here
    · have onward := h.spansTo covers (lt_add_byteSize nonempty _) (Nat.le_refl _)
        (step_eq_ok_iff.1 step).spansTo
      rw [← List.append_assoc] at onward ⊢
      exact ih (byteSize_append ..) onward later

/-- Where the input ends, its end or an earlier span is to blame. -/
theorem inside_of_finish_error (h : Within text pos state.spans)
    (failed : state.finish (byteSize text) = .error fault) : fault.span.Inside text := by
  cases State.finish_error failed with
  | missing =>
    have atEnd := Span.inside_append text [] []
    rwa [List.append_nil, List.append_nil] at atEnd
  | conflict conflicts => exact conflicts.inside h
  | unclosed ends closed =>
    rw [spansOf_of_closeLevels ends closed] at h
    exact (h _ (List.mem_append_right _ List.mem_cons_self)).1

theorem within_of_finish {stop : Nat} {forest : Abbreviation} (h : Within text pos state.spans)
    (ok : state.finish stop = .ok forest) :
    Within text pos ((Tree.labelsAll forest).map (·.span)) := by
  obtain ⟨node, ends⟩ := State.exists_ends_of_finish ok
  rw [State.finish_of_ends ends, State.close] at ok
  split at ok
  next nodes closed =>
    cases ok
    rwa [← map_span_preorderAll 0, listing_of_closeLevels_none closed, ← spansOf,
      spansOf_of_ends ends]
  next => cases ok

end Within

end Shorthand.Parser

namespace Shorthand

open Shorthand.Parser

section Source

variable {source : String} {maxDepth : Nat} {tokens : List PlacedToken}

theorem within_start (text : List Char) : Within text (byteSize []) ({} : State).spans := nofun

theorem within_of_run_start {last : State} (tokenized : tokenize source = .ok tokens)
    (reads : State.run maxDepth {} tokens = .ok last) :
    Within source.toList (0 + byteSize source.toList) last.spans :=
  within_of_run (tiles_of_tokenize tokenized) byteSize_nil (within_start source.toList) reads

/-- The span of a node covers some characters of the source that the node was parsed from. -/
theorem covers_of_parseTokens {forest : Abbreviation} (tokenized : tokenize source = .ok tokens)
    (ok : parseTokens source.utf8ByteSize maxDepth tokens = .ok forest) :
    ∀ head ∈ Tree.labelsAll forest,
      head.span.Inside source.toList ∧ head.span.start < head.span.stop := by
  intro head mem
  obtain ⟨last, reads, finished⟩ := Except.bind_eq_ok_iff.1 ok
  have within := within_of_finish (within_of_run_start tokenized reads) finished
  obtain ⟨inside, filled, -⟩ := within head.span (List.mem_map_of_mem mem)
  exact ⟨inside, filled⟩

/-- No node of a forest leaves the source it was parsed from. -/
theorem inside_of_parseTokens {forest : Abbreviation} (tokenized : tokenize source = .ok tokens)
    (ok : parseTokens source.utf8ByteSize maxDepth tokens = .ok forest) :
    ∀ head ∈ Tree.labelsAll forest, head.span.Inside source.toList :=
  fun head mem => (covers_of_parseTokens tokenized ok head mem).1

/-- Whatever is to blame for tokens that stand for no forest stands in their source. -/
theorem inside_of_parseTokens_error {fault : Fault} (tokenized : tokenize source = .ok tokens)
    (failed : parseTokens source.utf8ByteSize maxDepth tokens = .error fault) :
    fault.span.Inside source.toList := by
  rcases Except.bind_eq_error_iff.1 failed with reads | ⟨last, reads, finished⟩
  · exact inside_of_run_error (tiles_of_tokenize tokenized) byteSize_nil
      (within_start source.toList) reads
  · rw [utf8ByteSize_eq_byteSize] at finished
    exact inside_of_finish_error (within_of_run_start tokenized reads) finished

end Source

end Shorthand
