import Shorthand.Proofs.Abbreviation.RoundTrip

/-! # Runs in other surroundings

What the parser makes of some tokens depends neither on what lies around them nor on their places in
the source.  On top of levels that are open already, and behind nodes that are complete already, it
goes through the same steps and finds the same nodes, as far as their places do not matter.
-/
namespace Shorthand.Parser

/-- Two forests that differ by the places of their nodes only. -/
def Alike (one other : Abbreviation) : Prop :=
  Tree.mapAll Head.unplaced one = Tree.mapAll Head.unplaced other

def AlikeNode (one other : Node) : Prop := one.map Head.unplaced = other.map Head.unplaced

section Alike

variable {one other front back : Abbreviation} {node node' : Node}

theorem Alike.append (h : Alike one other) (h' : Alike front back) :
    Alike (one ++ front) (other ++ back) := by
  rw [Alike, Tree.mapAll_append, Tree.mapAll_append, h, h']

theorem AlikeNode.singleton (h : AlikeNode node node') : Alike [node] [node'] := by
  rw [Alike, Tree.mapAll, Tree.mapAll, h]
  rfl

theorem Alike.concat (h : Alike one other) (h' : AlikeNode node node') :
    Alike (one ++ [node]) (other ++ [node']) := h.append h'.singleton

theorem alikeNode_node {head head' : Head} (h : head.unplaced = head'.unplaced)
    (below : Alike one other) : AlikeNode (.node head one) (.node head' other) := by
  rw [AlikeNode, Tree.map, Tree.map, h, below]

theorem AlikeNode.adopt (h : AlikeNode node node') (below : Alike one other) :
    AlikeNode (node.adopt one) (node'.adopt other) := by
  obtain ⟨head, own⟩ := node
  obtain ⟨head', own'⟩ := node'
  rw [AlikeNode, Tree.map, Tree.map, Tree.node.injEq] at h
  exact alikeNode_node h.1 (Alike.append h.2 below)

end Alike

/-! ## Levels on top of others -/

/-- Open levels with the nodes of the innermost one, and the same levels on top of `base` and behind
the nodes `lead`. -/
inductive Over (base : List Frame) (lead : Abbreviation) :
    List Frame → Abbreviation → List Frame → Abbreviation → Prop where
  | bottom {level level' : Abbreviation} (level_alike : Alike level level') :
      Over base lead [] level base (lead ++ level')
  | children {frames frames' : List Frame} {outer outer' level level' : Abbreviation}
      {parent parent' : Node} (below : Over base lead frames outer frames' outer')
      (parent_alike : AlikeNode parent parent') (level_alike : Alike level level') :
      Over base lead (.children outer parent :: frames) level
        (.children outer' parent' :: frames') level'
  | group {frames frames' : List Frame} {outer outer' level level' : Abbreviation}
      {opened opened' : Span} (below : Over base lead frames outer frames' outer')
      (level_alike : Alike level level') :
      Over base lead (.group outer opened :: frames) level (.group outer' opened' :: frames') level'

section Over

variable {base : List Frame} {lead : Abbreviation} {frames frames' : List Frame}
  {level level' : Abbreviation}

theorem Over.length_eq (h : Over base lead frames level frames' level') :
    frames'.length = frames.length + base.length := by
  induction h with
  | bottom => simp
  | children _ _ _ ih | group _ _ ih => simp only [List.length_cons, ih]; omega

theorem Over.append (h : Over base lead frames level frames' level') {more more' : Abbreviation}
    (alike : Alike more more') : Over base lead frames (level ++ more) frames' (level' ++ more') := by
  cases h with
  | bottom level_alike =>
    rw [List.append_assoc]
    exact .bottom (level_alike.append alike)
  | children below parent_alike level_alike =>
    exact .children below parent_alike (level_alike.append alike)
  | group below level_alike => exact .group below (level_alike.append alike)

/-- The level below that of a `>` takes in what was found in it. -/
theorem Over.adopt {parent parent' : Node} {outer outer' : Abbreviation}
    (below : Over base lead frames outer frames' outer') (parent_alike : AlikeNode parent parent')
    (level_alike : Alike level level') :
    Over base lead frames (outer ++ [parent.adopt level]) frames'
      (outer' ++ [parent'.adopt level']) :=
  below.append (parent_alike.adopt level_alike).singleton

/-- Levels that are closed up to a parenthesis are closed in the same way on top of others. -/
theorem Over.exists_closed (h : Over base lead frames level frames' level')
    {children before : Abbreviation} {opened : Span} {outer : List Frame}
    (closed : closeLevels frames level = (children, some (before, opened, outer))) :
    ∃ children' before' opened' outer',
      closeLevels frames' level' = (children', some (before', opened', outer')) ∧
        Alike children children' ∧ Over base lead outer before outer' before' := by
  induction frames generalizing level frames' level' with
  | nil => cases closed
  | cons frame frames ih =>
    cases h with
    | children below parent_alike level_alike =>
      rw [closeLevels]
      exact ih (below.adopt parent_alike level_alike) closed
    | group below level_alike =>
      cases closed
      exact ⟨_, _, _, _, rfl, level_alike, below⟩

/-- If all levels can be closed, only those they are on top of are left to close. -/
theorem Over.closeLevels_eq (h : Over base lead frames level frames' level') {nodes : Abbreviation}
    (closed : closeLevels frames level = (nodes, none)) :
    ∃ nodes', Alike nodes nodes' ∧ closeLevels frames' level' = closeLevels base (lead ++ nodes') := by
  induction frames generalizing level frames' level' with
  | nil =>
    cases closed
    cases h with
    | bottom level_alike => exact ⟨_, level_alike, rfl⟩
  | cons frame frames ih =>
    cases h with
    | children below parent_alike level_alike =>
      rw [closeLevels]
      exact ih (below.adopt parent_alike level_alike) closed
    | group => cases closed

end Over

/-! ## States on top of others -/

inductive Item.Alike : Item → Item → Prop where
  | missing : Item.Alike .missing .missing
  | element (parts : Parts) (span span' : Span) :
      Item.Alike (.element parts span) (.element parts span')
  | group {head head' : Head} {children children' : Abbreviation}
      (head_alike : head.unplaced = head'.unplaced)
      (children_alike : Parser.Alike children children') :
      Item.Alike (.group head children) (.group head' children')
  | complete {node node' : Node} (alike : AlikeNode node node') :
      Item.Alike (.complete node) (.complete node')
  | climbed {node node' : Node} (alike : AlikeNode node node') :
      Item.Alike (.climbed node) (.climbed node')

theorem Parts.finish_alike {parts : Parts} {span : Span} {node : Node}
    (finished : parts.finish span = .ok node) (span' : Span) :
    ∃ node', parts.finish span' = .ok node' ∧ AlikeNode node node' := by
  obtain ⟨head, settled, rfl⟩ := finish_eq_ok_iff.1 finished
  obtain ⟨agreed, settles⟩ := Head.settleNumbering_eq_some_iff.1 settled
  have settled' : (parts.head span').settleNumbering = some { head with span := span' } := by
    rw [Head.settleNumbering_eq_some_iff]
    exact ⟨agreed, by rw [settles]; rfl⟩
  exact ⟨.node { head with span := span' } [], finish_eq_ok_iff.2 ⟨_, settled', rfl⟩, rfl⟩

theorem Parts.finish_tagName {name : String} (unmodified : Numbering.strip name = (name, []))
    (span : Span) :
    (ofRun [.tagName name]).finish span = .ok (.node { tag := some name, span } []) := by
  have templates : ((ofRun [.tagName name]).head span).templates = [name] := rfl
  have settled : ((ofRun [.tagName name]).head span).settleNumbering =
      some { tag := some name, span } := by
    rw [Head.settleNumbering_eq_some_iff, Head.modifiers, templates, List.flatMap_singleton,
      unmodified]
    refine ⟨rfl, ?_⟩
    show _ = ({ tag := some (Numbering.strip name).1, span } : Head)
    rw [unmodified]
  exact finish_eq_ok_iff.2 ⟨_, settled, rfl⟩

theorem Item.Alike.exists_ends {item item' : Item} {node : Node} (h : item.Alike item')
    (ends : item.Ends node) : ∃ node', item'.Ends node' ∧ AlikeNode node node' := by
  cases ends with
  | element finished =>
    cases h with
    | element _ _ span' =>
      obtain ⟨node', finished', alike⟩ := Parts.finish_alike finished span'
      exact ⟨node', .element finished', alike⟩
  | group =>
    cases h with
    | group head_alike children_alike =>
      exact ⟨_, .group, alikeNode_node head_alike children_alike⟩
  | complete =>
    cases h with
    | complete alike => exact ⟨_, .complete, alike⟩

/-- The last node of the innermost level, which a climb closes. -/
theorem Item.Alike.exists_last {item item' : Item} {node : Node} (h : item.Alike item')
    (last : item.Ends node ∨ item = .climbed node) :
    ∃ node', (item'.Ends node' ∨ item' = .climbed node') ∧ AlikeNode node node' := by
  rcases last with ends | rfl
  · obtain ⟨node', ends', alike⟩ := h.exists_ends ends
    exact ⟨node', .inl ends', alike⟩
  · cases h with
    | climbed alike => exact ⟨_, .inr rfl, alike⟩

theorem unplaced_multiply {head head' : Head} (h : head.unplaced = head'.unplaced)
    {count : UInt64} {span span' : Span} :
    ({ head with multiplier := count, span } : Head).unplaced =
      ({ head' with multiplier := count, span := span' } : Head).unplaced := by
  obtain ⟨kind, tag, classes, id, attributes, text, multiplier, numbering, own⟩ := head
  obtain ⟨kind', tag', classes', id', attributes', text', multiplier', numbering', own'⟩ := head'
  simp only [Head.unplaced, Head.mk.injEq] at h ⊢
  simp only [h, and_self]

structure State.Over (base : List Frame) (lead : Abbreviation) (state state' : State) : Prop where
  levels : Parser.Over base lead state.frames state.before state'.frames state'.before
  item : state.item.Alike state'.item

namespace State.Over

variable {limit limit' : Nat} {base : List Frame} {lead : Abbreviation} {state state' next : State}
  {placed placed' : PlacedToken}

theorem exists_awaits (h : State.Over base lead state state') {frames : List Frame}
    {before : Abbreviation} (awaits : state.Awaits frames before) :
    ∃ frames' before', state'.Awaits frames' before' ∧
      Parser.Over base lead frames before frames' before' := by
  obtain ⟨frames', before', item'⟩ := state'
  obtain ⟨levels, item⟩ := h
  cases awaits with
  | missing =>
    cases item with
    | missing => exact ⟨_, _, .missing _ _, levels⟩
  | climbed =>
    cases item with
    | climbed alike => exact ⟨_, _, .climbed _ _ _, levels.append alike.singleton⟩

theorem exists_level (h : State.Over base lead state state') {node : Node}
    (ends : state.item.Ends node) :
    ∃ node', state'.item.Ends node' ∧ AlikeNode node node' ∧
      Parser.Over base lead state.frames (state.before ++ [node]) state'.frames
        (state'.before ++ [node']) := by
  obtain ⟨node', ends', alike⟩ := h.item.exists_ends ends
  exact ⟨node', ends', alike, h.levels.append alike.singleton⟩

/-- The same token leads to the same state, if there is room for the levels underneath. -/
theorem step (h : State.Over base lead state state') (same : placed'.token = placed.token)
    (room : limit + base.length ≤ limit') (step : StepsTo limit state placed next) :
    ∃ next', StepsTo limit' state' placed' next' ∧ State.Over base lead next next' := by
  cases step with
  | openGroup awaits opens deep =>
    obtain ⟨frames', before', awaits', levels⟩ := h.exists_awaits awaits
    have := levels.length_eq
    exact ⟨_, .openGroup awaits' (same.trans opens) (by omega), .group levels rfl, .missing⟩
  | startElement awaits inside =>
    obtain ⟨frames', before', awaits', levels⟩ := h.exists_awaits awaits
    refine ⟨_, .startElement awaits' (same ▸ inside), levels, ?_⟩
    rw [same]
    exact .element _ _ _
  | extendElement added =>
    obtain ⟨frames', before', item'⟩ := state'
    obtain ⟨levels, item⟩ := h
    cases item with
    | element => exact ⟨_, .extendElement (same ▸ added), levels, .element _ _ _⟩
  | multiplyGroup multiplies =>
    obtain ⟨frames', before', item'⟩ := state'
    obtain ⟨levels, item⟩ := h
    cases item with
    | group head_alike children_alike =>
      refine ⟨_, .multiplyGroup (same.trans multiplies), levels, .complete ?_⟩
      exact alikeNode_node (unplaced_multiply head_alike) children_alike
  | child ends child deep =>
    obtain ⟨node', ends', alike, -⟩ := h.exists_level ends
    have := h.levels.length_eq
    exact ⟨_, .child ends' (same.trans child) (by omega), .children h.levels alike rfl, .missing⟩
  | sibling ends sibling =>
    obtain ⟨node', ends', -, levels⟩ := h.exists_level ends
    exact ⟨_, .sibling ends' (same.trans sibling), levels, .missing⟩
  | @climb _ frames outer node parent _ last climbs found =>
    obtain ⟨node', last', alike⟩ := h.item.exists_last last
    obtain ⟨frames', before', item'⟩ := state'
    have levels := h.levels
    rw [found] at levels
    cases levels with
    | children below parent_alike level_alike =>
      refine ⟨_, .climb last' (same.trans climbs) rfl, below, .climbed ?_⟩
      exact parent_alike.adopt (level_alike.concat alike)
  | closeGroup ends closes closed =>
    obtain ⟨node', ends', -, levels⟩ := h.exists_level ends
    obtain ⟨children', before', opened', outer', closed', alike, below⟩ :=
      levels.exists_closed closed
    exact ⟨_, .closeGroup ends' (same.trans closes) closed', below, .group rfl alike⟩

theorem run {tokens tokens' : List PlacedToken} (h : State.Over base lead state state')
    (same : tokens'.map (·.token) = tokens.map (·.token)) (room : limit + base.length ≤ limit')
    (ok : State.run limit state tokens = .ok next) :
    ∃ next', State.run limit' state' tokens' = .ok next' ∧ State.Over base lead next next' := by
  induction tokens generalizing state state' tokens' with
  | nil =>
    obtain rfl : tokens' = [] := by simpa using same
    cases ok
    exact ⟨state', rfl, h⟩
  | cons placed rest ih =>
    obtain ⟨placed', rest', rfl, same, same'⟩ := List.map_eq_cons_iff.1 same
    obtain ⟨middle, step, ok⟩ := Except.bind_eq_ok_iff.1 ok
    obtain ⟨middle', step', onTop⟩ := h.step same room (step_eq_ok_iff.1 step)
    obtain ⟨next', reads, onTop'⟩ := ih onTop same' ok
    exact ⟨next', by rw [run_cons, step'.step_eq]; exact reads, onTop'⟩

/-- Where the one state can be finished, the other can be closed down to the levels underneath. -/
theorem exists_ends_of_finish {stop : Nat} {forest : Abbreviation}
    (h : State.Over base lead state state') (finished : state.finish stop = .ok forest) :
    ∃ node forest', state'.item.Ends node ∧
      closeLevels state'.frames (state'.before ++ [node]) = closeLevels base (lead ++ forest') ∧
        Alike forest forest' := by
  obtain ⟨node, ends⟩ := State.exists_ends_of_finish finished
  obtain ⟨node', ends', -, levels⟩ := h.exists_level ends
  rw [State.finish_of_ends ends, State.close] at finished
  split at finished
  next nodes closed =>
    cases finished
    obtain ⟨forest', alike, closed'⟩ := levels.closeLevels_eq closed
    exact ⟨node', forest', ends', closed', alike⟩
  next => cases finished

end State.Over

/-! ## Groups of what has been parsed alone -/

section Group

variable {stop stop' other limit limit' : Nat} {tokens placed inner : List PlacedToken}
  {forest : Abbreviation}

/-- Tokens that make a forest make it behind other nodes and on top of open levels as well. -/
theorem exists_run_of_parseTokens (parsed : parseTokens stop limit tokens = .ok forest)
    (same : placed.map (·.token) = tokens.map (·.token)) (base : List Frame) (lead : Abbreviation)
    (room : limit + base.length ≤ limit') :
    ∃ next node forest', State.run limit' ⟨base, lead, .missing⟩ placed = .ok next ∧
      next.item.Ends node ∧
        closeLevels next.frames (next.before ++ [node]) = closeLevels base (lead ++ forest') ∧
          Alike forest forest' := by
  obtain ⟨last, reads, finished⟩ := Except.bind_eq_ok_iff.1 parsed
  have start : State.Over base lead {} ⟨base, lead, .missing⟩ := by
    refine ⟨?_, .missing⟩
    have bottom : Over base lead [] [] base (lead ++ []) := .bottom rfl
    rwa [List.append_nil] at bottom
  obtain ⟨next, reads', onTop⟩ := start.run same room reads
  obtain ⟨node, forest', ends, closed, alike⟩ := onTop.exists_ends_of_finish finished
  exact ⟨next, node, forest', reads', ends, closed, alike⟩

/-- A group of tokens that make a forest has the nodes of the forest. -/
theorem exists_run_group (parsed : parseTokens stop limit tokens = .ok forest)
    (same : placed.map (·.token) = .openGroup :: tokens.map (·.token) ++ [.closeGroup])
    (frames : List Frame) (before : Abbreviation) (room : limit + frames.length < limit') :
    ∃ span forest', State.run limit' ⟨frames, before, .missing⟩ placed =
      .ok ⟨frames, before, .group { kind := .group, span } forest'⟩ ∧ Alike forest forest' := by
  obtain ⟨first, inside, last, rfl, opens, same, closes⟩ := exists_group_of_map same
  have deeper : limit + (Frame.group before first.span :: frames).length ≤ limit' := by
    rw [List.length_cons]
    omega
  obtain ⟨next, node, forest', reads, ends, closed, alike⟩ :=
    exists_run_of_parseTokens parsed same (.group before first.span :: frames) [] deeper
  have opened : StepsTo limit' ⟨frames, before, .missing⟩ first _ :=
    .openGroup (.missing frames before) opens (by omega)
  refine ⟨⟨first.span.start, last.span.stop⟩, forest', ?_, alike⟩
  refine State.run_append_of_ok (?_ : State.run limit' _ (first :: inside) = .ok next)
    (State.run_singleton (.closeGroup ends closes closed))
  rw [State.run_cons, opened.step_eq]
  exact reads

theorem exists_parseTokens_group (parsed : parseTokens stop limit tokens = .ok forest)
    (same : placed.map (·.token) = .openGroup :: tokens.map (·.token) ++ [.closeGroup])
    (room : limit < limit') :
    ∃ group, parseTokens stop' limit' placed = .ok group ∧
      Alike [.node { kind := .group } forest] group := by
  obtain ⟨span, forest', reads, alike⟩ := exists_run_group parsed same [] [] room
  refine ⟨[.node { kind := .group, span } forest'], ?_, (alikeNode_node rfl alike).singleton⟩
  rw [parseTokens, reads]
  rfl

theorem exists_parseTokens_repeatedGroup {count : UInt64}
    (parsed : parseTokens stop limit tokens = .ok forest)
    (same : placed.map (·.token) =
      .openGroup :: tokens.map (·.token) ++ [.closeGroup, .multiplier count])
    (room : limit < limit') :
    ∃ group, parseTokens stop' limit' placed = .ok group ∧
      Alike [.node { kind := .group, multiplier := count } forest] group := by
  rw [List.append_cons] at same
  obtain ⟨front, back, rfl, grouped, behind⟩ := List.map_eq_append_iff.1 same
  obtain ⟨last, rfl, multiplies⟩ := List.map_eq_singleton_iff.1 behind
  obtain ⟨span, forest', reads, alike⟩ := exists_run_group parsed grouped [] [] room
  refine ⟨[.node { kind := .group, multiplier := count, span := ⟨span.start, last.span.stop⟩ }
    forest'], ?_, (alikeNode_node rfl alike).singleton⟩
  rw [parseTokens, State.run_groupMultiplier reads multiplies]
  rfl

/-- Behind a group and `+`, an abbreviation makes the nodes that it makes alone. -/
theorem exists_parseTokens_group_sibling {tokens' : List PlacedToken} {forest' : Abbreviation}
    (parsed : parseTokens stop limit tokens = .ok forest)
    (parsed' : parseTokens other limit tokens' = .ok forest')
    (same : placed.map (·.token) = .openGroup :: tokens.map (·.token) ++ [.closeGroup] ++
      .sibling :: tokens'.map (·.token)) (room : limit < limit') :
    ∃ nodes, parseTokens stop' limit' placed = .ok nodes ∧
      Alike (.node { kind := .group } forest :: forest') nodes := by
  obtain ⟨front, back, rfl, grouped, behind⟩ := List.map_eq_append_iff.1 same
  obtain ⟨plus, back, rfl, sibling, same'⟩ := List.map_eq_cons_iff.1 behind
  obtain ⟨span, inside, reads, alike⟩ := exists_run_group parsed grouped [] [] room
  obtain ⟨next, node, later, reads', ends, closed, alike'⟩ := exists_run_of_parseTokens parsed' same'
    [] [.node { kind := .group, span } inside] (Nat.le_of_lt room)
  have onward : State.run limit' ⟨[], [], .group { kind := .group, span } inside⟩ (plus :: back) =
      .ok next := by
    rw [State.run_cons, (StepsTo.sibling .group sibling).step_eq]
    exact reads'
  have joined := State.run_append_of_ok reads onward
  refine ⟨.node { kind := .group, span } inside :: later, ?_,
    (alikeNode_node rfl alike).singleton.append alike'⟩
  rw [parseTokens, joined]
  show next.finish stop' = _
  rw [State.finish_of_ends ends, State.close, closed]
  rfl

/-- Below a tag, an abbreviation in parentheses is a group of children. -/
theorem exists_parseTokens_child_group {name : String}
    (unmodified : Numbering.strip name = (name, []))
    (parsed : parseTokens stop limit tokens = .ok forest)
    (same : placed.map (·.token) = .tagName name :: .child ::
      (.openGroup :: tokens.map (·.token) ++ [.closeGroup])) (room : limit + 1 < limit') :
    ∃ nodes, parseTokens stop' limit' placed = .ok nodes ∧
      Alike [.node { tag := some name } [.node { kind := .group } forest]] nodes := by
  obtain ⟨first, rest, rfl, tag, same⟩ := List.map_eq_cons_iff.1 same
  obtain ⟨arrow, rest, rfl, child, same⟩ := List.map_eq_cons_iff.1 same
  have finished : (Parts.ofRun [first.token]).finish first.span =
      .ok (.node { tag := some name, span := first.span } []) := by
    rw [tag]
    exact Parts.finish_tagName unmodified first.span
  have start : StepsTo limit' {} first ⟨[], [], .element (.ofRun [first.token]) first.span⟩ :=
    .startElement (.missing [] []) (by rw [tag]; rfl)
  have below : StepsTo limit' ⟨[], [], .element (.ofRun [first.token]) first.span⟩ arrow
      { frames := [.children [] (.node { tag := some name, span := first.span } [])] } :=
    .child (.element finished) child (by simp only [List.length_nil]; omega)
  obtain ⟨span, inside, reads, alike⟩ := exists_run_group parsed same
    [.children [] (.node { tag := some name, span := first.span } [])] [] room
  refine ⟨[.node { tag := some name, span := first.span } [.node { kind := .group, span } inside]],
    ?_, (alikeNode_node rfl (alikeNode_node rfl alike).singleton).singleton⟩
  have joined := State.run_append_of_ok
    (State.run_append_of_ok (State.run_singleton start) (State.run_singleton below)) reads
  rw [List.append_assoc, List.singleton_append, List.singleton_append] at joined
  rw [parseTokens, joined]
  rfl

end Group

end Shorthand.Parser
