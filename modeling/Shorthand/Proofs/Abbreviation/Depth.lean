import Shorthand.Proofs.Abbreviation.Outline

/-! # The limit on levels

The tokens alone tell how many levels are open behind each of them.  As long as this number stays
within a limit the parser does the same as without one, and the first token that exceeds it is
reported.  Since an item stands behind each token that opens a level, the limit is kept just if no
node lies deeper.
-/
namespace Shorthand

open Shorthand.Parser

def Token.opensLevel : Token → Bool
  | child | openGroup => true
  | _ => false

def levelsBehind (levels : List Level) (tokens : List PlacedToken) : List Level :=
  tokens.foldl (fun levels placed => levelsAfter levels placed.token) levels

/-- The token opens one level more than the limit, and no token in front of it does. -/
def FirstBeyond (limit : Nat) (tokens : List PlacedToken) (placed : PlacedToken) : Prop :=
  ∃ front back, tokens = front ++ placed :: back ∧ placed.token.opensLevel = true ∧
    (levelsBehind [] front).length = limit ∧
      ∀ before other between, front = before ++ other :: between →
        other.token.opensLevel = true → (levelsBehind [] before).length ≠ limit

/-- No more levels than the limit are open, neither in front of the tokens nor behind any of them. -/
def StaysWithin (limit : Nat) (levels : List Level) : List PlacedToken → Prop
  | [] => levels.length ≤ limit
  | placed :: rest =>
    levels.length ≤ limit ∧ StaysWithin limit (levelsAfter levels placed.token) rest

/-! ## Levels of tokens -/

section Levels

variable {limit : Nat} {levels : List Level} {placed : PlacedToken} {tokens : List PlacedToken}

theorem not_opensLevel_of_inside (inside : placed.token.endsElement = false) :
    placed.token.opensLevel = false := by
  cases token : placed.token with
  | child | openGroup => rw [token] at inside; cases inside
  | _ => rfl

theorem length_levelsAfter_of_opensLevel (opens : placed.token.opensLevel = true) :
    (levelsAfter levels placed.token).length = levels.length + 1 := by
  cases token : placed.token with
  | child | openGroup => rfl
  | _ => rw [token] at opens; cases opens

variable (levels) in
theorem length_levelsAfter_le (closes : placed.token.opensLevel = false) :
    (levelsAfter levels placed.token).length ≤ levels.length := by
  cases token : placed.token with
  | child | openGroup => rw [token] at closes; cases closes
  | closeGroup =>
    have dropped := (List.dropWhile_suffix (l := levels) (· = .child)).length_le
    simp only [levelsAfter, List.length_tail]
    omega
  | climb => simp [levelsAfter]
  | tagName | className | idName | attributes | text | multiplier | sibling => exact Nat.le_refl _

theorem length_levelsBehind_concat (opens : placed.token.opensLevel = true) :
    (levelsBehind levels (tokens ++ [placed])).length = (levelsBehind levels tokens).length + 1 := by
  rw [levelsBehind, List.foldl_append, List.foldl_cons, List.foldl_nil,
    length_levelsAfter_of_opensLevel opens, ← levelsBehind]

theorem StaysWithin.length_le (h : StaysWithin limit levels tokens) : levels.length ≤ limit := by
  cases tokens with
  | nil => exact h
  | cons placed rest => exact h.1

theorem staysWithin_of_length_add_le (room : levels.length + tokens.length ≤ limit) :
    StaysWithin limit levels tokens := by
  induction tokens generalizing levels with
  | nil => exact room
  | cons placed rest ih =>
    rw [List.length_cons] at room
    refine ⟨by omega, ih ?_⟩
    cases opens : placed.token.opensLevel with
    | true => rw [length_levelsAfter_of_opensLevel opens]; omega
    | false =>
      have := length_levelsAfter_le levels opens
      omega

theorem StaysWithin.length_levelsBehind_le {front back : List PlacedToken}
    (h : StaysWithin limit levels (front ++ back)) :
    (levelsBehind levels front).length ≤ limit := by
  induction front generalizing levels with
  | nil => exact h.length_le
  | cons placed front ih => exact ih h.2

/-- If the limit is not kept, some token is the first to exceed it. -/
theorem exists_first_of_not_staysWithin (start : levels.length ≤ limit)
    (exceeds : ¬ StaysWithin limit levels tokens) :
    ∃ front placed back, tokens = front ++ placed :: back ∧ placed.token.opensLevel = true ∧
      (levelsBehind levels front).length = limit ∧ StaysWithin limit levels front := by
  induction tokens generalizing levels with
  | nil => exact absurd start exceeds
  | cons placed rest ih =>
    by_cases next : (levelsAfter levels placed.token).length ≤ limit
    · have later : ¬ StaysWithin limit (levelsAfter levels placed.token) rest :=
        fun within => exceeds ⟨start, within⟩
      obtain ⟨front, first, back, rfl, opens, full, within⟩ := ih next later
      exact ⟨placed :: front, first, back, rfl, opens, full, start, within⟩
    · cases opens : placed.token.opensLevel with
      | true =>
        rw [length_levelsAfter_of_opensLevel opens] at next
        have full : levels.length = limit := by omega
        exact ⟨[], placed, rest, rfl, opens, full, start⟩
      | false =>
        have := length_levelsAfter_le levels opens
        exact absurd (Nat.le_trans this start) next

/-- In front of the first token that exceeds the limit no other token does. -/
theorem StaysWithin.not_beyond (h : StaysWithin limit levels tokens)
    {before between : List PlacedToken} {other : PlacedToken}
    (split : tokens = before ++ other :: between) (opens : other.token.opensLevel = true) :
    (levelsBehind levels before).length ≠ limit := by
  rw [split, List.append_cons] at h
  have behind := h.length_levelsBehind_le
  rw [length_levelsBehind_concat opens] at behind
  omega

theorem StaysWithin.depth_le (h : StaysWithin limit levels tokens) {inItem : Bool}
    {entry : Nat × Origin} (mem : entry ∈ outline levels inItem tokens) : entry.1 ≤ limit := by
  induction tokens generalizing levels inItem with
  | nil => cases mem
  | cons placed rest ih =>
    rcases List.mem_append.1 mem with here | later
    · obtain ⟨origin, -, rfl⟩ := List.mem_map.1 here
      exact h.1
    · exact ih h.2 later

/-- Behind a token that opens a level the outline goes on one level deeper. -/
theorem mem_outline_of_opensLevel {front back : List PlacedToken} {inItem : Bool}
    (opens : placed.token.opensLevel = true) {entry : Nat × Origin}
    (mem : entry ∈ outline (levelsBehind levels (front ++ [placed])) false back) :
    entry ∈ outline levels inItem (front ++ placed :: back) := by
  induction front generalizing levels inItem with
  | nil =>
    have behind : (!placed.token.endsElement || decide (placed.token = .closeGroup)) = false := by
      cases token : placed.token with
      | child | openGroup => rfl
      | _ => rw [token] at opens; cases opens
    rw [List.nil_append, outline, behind]
    exact List.mem_append_right _ mem
  | cons first front ih => exact List.mem_append_right _ (ih mem)

end Levels

/-! ## Levels of the parser -/

namespace Parser

section Levels

variable {limit other : Nat} {state next : State} {placed : PlacedToken}
  {tokens : List PlacedToken}

theorem StepsTo.levels_eq (h : StepsTo limit state placed next) :
    next.frames.map Frame.level = levelsAfter (state.frames.map Frame.level) placed.token := by
  cases h with
  | openGroup awaits opens => cases awaits <;> rw [opens] <;> rfl
  | startElement awaits inside => cases awaits <;> rw [levelsAfter_of_inside inside]
  | extendElement added => rw [levelsAfter_of_inside (Parts.add_eq_added_iff.1 added).1]
  | multiplyGroup multiplies => rw [multiplies]; rfl
  | child ends child => rw [child]; rfl
  | sibling ends sibling => rw [sibling]; rfl
  | climb last climbs found => rw [climbs, found]; rfl
  | closeGroup ends closes closed => rw [closes, levels_of_closeLevels closed]

/-- Where the limit is kept, the parser does the same for every other limit that is kept. -/
theorem StepsTo.of_length_le (h : StepsTo other state placed next)
    (room : next.frames.length ≤ limit) : StepsTo limit state placed next := by
  cases h with
  | openGroup awaits opens => exact .openGroup awaits opens room
  | startElement awaits inside => exact .startElement awaits inside
  | extendElement added => exact .extendElement added
  | multiplyGroup multiplies => exact .multiplyGroup multiplies
  | child ends child => exact .child ends child room
  | sibling ends sibling => exact .sibling ends sibling
  | climb last climbs found => exact .climb last climbs found
  | closeGroup ends closes closed => exact .closeGroup ends closes closed

/-- A token that opens a level does nothing else. -/
theorem StepsTo.exists_enter (h : StepsTo other state placed next)
    (opens : placed.token.opensLevel = true) :
    ∃ frame frames, frames.length = state.frames.length ∧ next = { frames := frame :: frames } ∧
      ∀ limit, state.step limit placed = enter limit frame frames placed.span := by
  cases h with
  | @openGroup _ frames _ _ awaits opens =>
    refine ⟨_, frames, by cases awaits <;> rfl, rfl, fun limit => ?_⟩
    rw [awaits.step_eq (by simp [opens]), startItem, if_pos opens]
  | child ends child =>
    refine ⟨_, state.frames, rfl, rfl, fun limit => ?_⟩
    rw [State.step_of_ends ends (by rw [child]; rfl), continueFrom, child]
  | startElement awaits inside => exact absurd opens (by simp [not_opensLevel_of_inside inside])
  | extendElement added =>
    have inside := (Parts.add_eq_added_iff.1 added).1
    exact absurd opens (by simp [not_opensLevel_of_inside inside])
  | multiplyGroup same | sibling _ same | climb _ same | closeGroup _ same =>
    rw [same] at opens
    cases opens

theorem StepsTo.step_eq_error (h : StepsTo other state placed next)
    (opens : placed.token.opensLevel = true) (full : limit ≤ state.frames.length) :
    state.step limit placed = .error ⟨.limit limit .levels, placed.span⟩ := by
  obtain ⟨frame, frames, same, -, enters⟩ := h.exists_enter opens
  rw [enters, enter, if_neg (by omega)]

theorem StepsTo.length_le (h : StepsTo limit state placed next)
    (start : state.frames.length ≤ limit) : next.frames.length ≤ limit := by
  by_cases full : limit ≤ state.frames.length
  · have closes : placed.token.opensLevel = false := by
      rw [Bool.eq_false_iff]
      intro opens
      have failed := h.step_eq_error opens full
      rw [h.step_eq] at failed
      cases failed
    have levels := congrArg List.length h.levels_eq
    have fewer := length_levelsAfter_le (state.frames.map Frame.level) closes
    simp only [List.length_map] at levels fewer
    omega
  · have := State.length_le_of_step h
    omega

namespace State

theorem levels_of_run {last : State} (ok : run limit state tokens = .ok last) :
    last.frames.map Frame.level = levelsBehind (state.frames.map Frame.level) tokens := by
  induction tokens generalizing state with
  | nil =>
    cases ok
    rfl
  | cons placed rest ih =>
    obtain ⟨middle, step, ok⟩ := Except.bind_eq_ok_iff.1 ok
    rw [ih ok, (step_eq_ok_iff.1 step).levels_eq]
    rfl

theorem staysWithin_of_run {last : State} (start : state.frames.length ≤ limit)
    (ok : run limit state tokens = .ok last) :
    StaysWithin limit (state.frames.map Frame.level) tokens := by
  induction tokens generalizing state with
  | nil => simpa [StaysWithin] using start
  | cons placed rest ih =>
    obtain ⟨middle, step, ok⟩ := Except.bind_eq_ok_iff.1 ok
    have step := step_eq_ok_iff.1 step
    refine ⟨by simpa using start, ?_⟩
    rw [← step.levels_eq]
    exact ih (step.length_le start) ok

theorem run_of_staysWithin {last : State} (ok : run other state tokens = .ok last)
    (within : StaysWithin limit (state.frames.map Frame.level) tokens) :
    run limit state tokens = .ok last := by
  induction tokens generalizing state with
  | nil => exact ok
  | cons placed rest ih =>
    obtain ⟨middle, step, ok⟩ := Except.bind_eq_ok_iff.1 ok
    have step := step_eq_ok_iff.1 step
    have later := within.2
    rw [← step.levels_eq] at later
    have room : middle.frames.length ≤ limit := by simpa using later.length_le
    rw [run_cons, (step.of_length_le room).step_eq]
    exact ih ok later

end State

end Levels

end Parser

/-! ## The limit decides by depth -/

section Limit

variable {stop limit other : Nat} {tokens : List PlacedToken} {forest : Abbreviation}

theorem staysWithin_of_parseTokens (ok : parseTokens stop limit tokens = .ok forest) :
    StaysWithin limit [] tokens := by
  obtain ⟨last, reads, -⟩ := Except.bind_eq_ok_iff.1 ok
  exact State.staysWithin_of_run (Nat.zero_le _) reads

theorem parseTokens_of_staysWithin (ok : parseTokens stop other tokens = .ok forest)
    (within : StaysWithin limit [] tokens) : parseTokens stop limit tokens = .ok forest := by
  obtain ⟨last, reads, finished⟩ := Except.bind_eq_ok_iff.1 ok
  exact Except.bind_eq_ok_iff.2 ⟨last, State.run_of_staysWithin reads within, finished⟩

/-- An item stands behind every token that opens a level, one level deeper. -/
theorem exists_node_of_opensLevel {source : String} {front back : List PlacedToken}
    {placed : PlacedToken} (opens : placed.token.opensLevel = true)
    (accepted : parse source other (front ++ placed :: back) = .ok forest) :
    ∃ head, ((levelsBehind [] front).length + 1, head) ∈ Tree.preorderAll 0 forest := by
  obtain ⟨last, reads, finished⟩ := Except.bind_eq_ok_iff.1 (locate_eq_ok_iff.1 accepted)
  rw [State.run_append] at reads
  obtain ⟨middle, -, reads⟩ := Except.bind_eq_ok_iff.1 reads
  obtain ⟨next, step, reads⟩ := Except.bind_eq_ok_iff.1 reads
  obtain ⟨frame, frames, -, rfl, -⟩ := (step_eq_ok_iff.1 step).exists_enter opens
  -- The level is empty so far, so an item has to start here.
  have starts : ∃ origin, ((levelsBehind [] (front ++ [placed])).length, origin) ∈
      outline (levelsBehind [] (front ++ [placed])) false back := by
    cases back with
    | nil =>
      cases reads
      cases finished
    | cons first back =>
      obtain ⟨_, step, -⟩ := Except.bind_eq_ok_iff.1 reads
      cases step_eq_ok_iff.1 step with
      | openGroup awaits opens => exact ⟨_, by rw [outline_openGroup opens]; exact List.mem_cons_self⟩
      | startElement awaits inside => exact ⟨_, by rw [outline_start inside]; exact List.mem_cons_self⟩
      | child ends | sibling ends | closeGroup ends => cases ends
      | climb last => rcases last with ends | climbed <;> contradiction
  obtain ⟨origin, mem⟩ := starts
  obtain ⟨⟨depth, head⟩, listed, announces⟩ :=
    exists_of_mem_right (announced_of_parse accepted).flip (mem_outline_of_opensLevel opens mem)
  have depth_eq : depth = (levelsBehind [] (front ++ [placed])).length := by
    cases announces <;> rfl
  rw [depth_eq, length_levelsBehind_concat opens] at listed
  exact ⟨head, listed⟩

theorem depth_le_of_staysWithin {source : String}
    (accepted : parse source other tokens = .ok forest) (within : StaysWithin limit [] tokens) :
    ∀ entry ∈ Tree.preorderAll 0 forest, entry.1 ≤ limit := by
  intro entry mem
  obtain ⟨announced, outlined, announces⟩ := exists_of_mem_right (announced_of_parse accepted) mem
  have shallow := within.depth_le outlined
  cases announces <;> exact shallow

/-- The limit is kept if and only if no node lies deeper. -/
theorem staysWithin_iff {source : String} (accepted : parse source other tokens = .ok forest) :
    StaysWithin limit [] tokens ↔ ∀ entry ∈ Tree.preorderAll 0 forest, entry.1 ≤ limit := by
  refine ⟨depth_le_of_staysWithin accepted, fun shallow => ?_⟩
  by_contra exceeds
  obtain ⟨front, placed, back, rfl, opens, full, -⟩ :=
    exists_first_of_not_staysWithin (Nat.zero_le _) exceeds
  obtain ⟨head, listed⟩ := exists_node_of_opensLevel opens accepted
  have := shallow _ listed
  omega

/-- The first token that exceeds the limit is reported. -/
theorem exists_parse_error {source : String} (accepted : parse source other tokens = .ok forest)
    (exceeds : ¬ StaysWithin limit [] tokens) :
    ∃ placed, FirstBeyond limit tokens placed ∧
      parse source limit tokens =
        .error (.located ⟨.limit limit .levels, placed.span⟩
          (offsetAt source placed.span.start)) := by
  obtain ⟨front, placed, back, rfl, opens, full, within⟩ :=
    exists_first_of_not_staysWithin (Nat.zero_le _) exceeds
  refine ⟨placed, ⟨front, back, rfl, opens, full, fun before other between split opens =>
    within.not_beyond split opens⟩, ?_⟩
  obtain ⟨last, reads, -⟩ := Except.bind_eq_ok_iff.1 (locate_eq_ok_iff.1 accepted)
  rw [State.run_append] at reads
  obtain ⟨middle, readsFront, reads⟩ := Except.bind_eq_ok_iff.1 reads
  obtain ⟨next, step, -⟩ := Except.bind_eq_ok_iff.1 reads
  have levels := congrArg List.length (State.levels_of_run readsFront)
  rw [List.length_map, List.map_nil, full] at levels
  have failed := (step_eq_ok_iff.1 step).step_eq_error opens (Nat.le_of_eq levels.symm)
  have fault : parseTokens source.utf8ByteSize limit (front ++ placed :: back) =
      .error ⟨.limit limit .levels, placed.span⟩ := by
    rw [parseTokens, State.run_append, State.run_of_staysWithin readsFront within]
    simp only [Except.bind, State.run_cons, failed]
    rfl
  rw [parse, fault, locate_error]

end Limit

/-- With a limit, the parser accepts what it accepts with a level to spare for each token, unless a
node has more ancestors than the limit.  Then it reports the first token that opens one level more. -/
theorem parse_decides_depth (source : String) (limit : Nat) (tokens : List PlacedToken)
    (forest : Abbreviation) :
    (parse source limit tokens = .ok forest ↔
      parse source tokens.length tokens = .ok forest ∧
        ∀ entry ∈ Tree.preorderAll 0 forest, entry.1 ≤ limit) ∧
    (parse source tokens.length tokens = .ok forest →
      (∃ entry ∈ Tree.preorderAll 0 forest, limit < entry.1) →
        ∃ placed, FirstBeyond limit tokens placed ∧
          parse source limit tokens =
            .error (.located ⟨.limit limit .levels, placed.span⟩
              (offsetAt source placed.span.start))) := by
  refine ⟨⟨fun accepted => ?_, fun ⟨accepted, shallow⟩ => ?_⟩, fun accepted deep => ?_⟩
  · have parsed := locate_eq_ok_iff.1 accepted
    have spare : StaysWithin tokens.length [] tokens := staysWithin_of_length_add_le (by simp)
    refine ⟨locate_eq_ok_iff.2 (parseTokens_of_staysWithin parsed spare), ?_⟩
    exact (staysWithin_iff accepted).1 (staysWithin_of_parseTokens parsed)
  · have within := (staysWithin_iff accepted).2 shallow
    exact locate_eq_ok_iff.2 (parseTokens_of_staysWithin (locate_eq_ok_iff.1 accepted) within)
  · refine exists_parse_error accepted fun within => ?_
    obtain ⟨entry, mem, deeper⟩ := deep
    exact Nat.not_le.2 deeper ((staysWithin_iff accepted).1 within entry mem)

/-- The climb frees a level, so that the first `>` and the parenthesis open the same one. -/
theorem parse_decides_depth_climb :
    ∃ tokens forest, tokenize "a>b^(c>d)" = .ok tokens ∧
      parse "a>b^(c>d)" tokens.length tokens = .ok forest ∧
      (∃ entry ∈ Tree.preorderAll 0 forest, 1 < entry.1) ∧
        ∃ placed, FirstBeyond 1 tokens placed ∧
          parse "a>b^(c>d)" 1 tokens =
            .error (.located ⟨.limit 1 .levels, placed.span⟩
              (offsetAt "a>b^(c>d)" placed.span.start)) := by
  have tokenized : tokenize "a>b^(c>d)" = .ok [⟨.tagName "a", ⟨0, 1⟩⟩, ⟨.child, ⟨1, 2⟩⟩,
      ⟨.tagName "b", ⟨2, 3⟩⟩, ⟨.climb, ⟨3, 4⟩⟩, ⟨.openGroup, ⟨4, 5⟩⟩, ⟨.tagName "c", ⟨5, 6⟩⟩,
      ⟨.child, ⟨6, 7⟩⟩, ⟨.tagName "d", ⟨7, 8⟩⟩, ⟨.closeGroup, ⟨8, 9⟩⟩] := by decide +kernel
  have depths : (parse "a>b^(c>d)" 9 [⟨.tagName "a", ⟨0, 1⟩⟩, ⟨.child, ⟨1, 2⟩⟩,
      ⟨.tagName "b", ⟨2, 3⟩⟩, ⟨.climb, ⟨3, 4⟩⟩, ⟨.openGroup, ⟨4, 5⟩⟩, ⟨.tagName "c", ⟨5, 6⟩⟩,
      ⟨.child, ⟨6, 7⟩⟩, ⟨.tagName "d", ⟨7, 8⟩⟩, ⟨.closeGroup, ⟨8, 9⟩⟩]).toOption.map
        (fun forest => decide (∃ entry ∈ Tree.preorderAll 0 forest, 1 < entry.1)) = some true := by
    decide +kernel
  obtain ⟨forest, accepted, deep⟩ := Except.exists_of_toOption_map depths
  have deep := of_decide_eq_true deep
  exact ⟨_, forest, tokenized, accepted, deep, (parse_decides_depth _ 1 _ forest).2 accepted deep⟩

end Shorthand
