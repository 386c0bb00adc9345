import Mathlib.Data.List.Forall2
import Shorthand.Abbreviation.Parser
import Shorthand.Proofs.Token.Parts

/-! # Runs of element tokens

An element is written as a run of tokens: its tag, if it names one, and then its other parts in any
order.  What the parser collects from a run is read off the run as a whole here, part by part, and
the runs it takes for an element are told apart from all others.
-/
namespace Shorthand

/-- A run of tokens that spells an element: only its first token may name the tag, and no part that
an element has at most once occurs twice. -/
structure IsElementRun (run : List Token) : Prop where
  nonempty : run ≠ []
  inside : ∀ token ∈ run, token.endsElement = false
  tagFirst : ∀ token ∈ run.tail, token.tag? = none
  once : ∀ part, run.countP (·.part? = some part) ≤ 1

def modifiersOf (run : List Token) : List Numbering :=
  run.flatMap fun token => token.templates.flatMap fun template => (Numbering.strip template).2

def ModifiersAgree (run : List Token) : Prop :=
  ∀ one ∈ modifiersOf run, ∀ other ∈ modifiersOf run, one = other

/-- The bytes from the start of the first token to the end of the last one. -/
def spanOf (placed : List PlacedToken) : Span :=
  ⟨(placed.head?.map (·.span.start)).getD 0, (placed.getLast?.map (·.span.stop)).getD 0⟩

theorem spanOf_concat {placed : List PlacedToken} (nonempty : placed ≠ []) (last : PlacedToken) :
    spanOf (placed ++ [last]) = ⟨(spanOf placed).start, last.span.stop⟩ := by
  cases placed with
  | nil => exact absurd rfl nonempty
  | cons first rest => rw [spanOf, List.getLast?_concat]; rfl

namespace Parser

def Parts.ofRun (run : List Token) : Parts where
  tag := run.findSome? Token.tag?
  classes := run.filterMap Token.class?
  id := run.findSome? Token.id?
  attributes := run.findSome? Token.attributes?
  text := run.findSome? Token.text?
  multiplier := run.findSome? Token.multiplier?

namespace Parts

/-! ## One token more -/

theorem start?_eq_some_iff {token : Token} {parts : Parts} :
    start? token = some parts ↔ token.endsElement = false ∧ ofRun [token] = parts := by
  cases token with
  | child | sibling | climb | openGroup | closeGroup => simp [start?, Token.endsElement]
  | tagName | className | idName | attributes | text | multiplier =>
    simp only [start?, Token.endsElement, Option.some.injEq, true_and]
    rfl

theorem add_eq_foreign {token : Token} (parts : Parts) (outside : token.endsElement = true) :
    parts.add token = .foreign := by
  cases token with
  | child | sibling | climb | openGroup | closeGroup => rfl
  | tagName | className | idName | attributes | text | multiplier =>
    simp [Token.endsElement] at outside

def has (parts : Parts) : Part → Bool
  | .id => parts.id.isSome
  | .attributes => parts.attributes.isSome
  | .text => parts.text.isSome
  | .multiplier => parts.multiplier.isSome

/-- The parts together with what one token more stands for. -/
def extend (parts : Parts) (token : Token) : Parts where
  tag := parts.tag.or token.tag?
  classes := parts.classes ++ token.class?.toList
  id := parts.id.or token.id?
  attributes := parts.attributes.or token.attributes?
  text := parts.text.or token.text?
  multiplier := parts.multiplier.or token.multiplier?

/-- Just the tokens of an element that name no tag and repeat no part are added. -/
theorem add_eq_added_iff {parts next : Parts} {token : Token} :
    parts.add token = .added next ↔
      token.endsElement = false ∧ token.tag? = none ∧
        (∀ part, token.part? = some part → parts.has part = false) ∧
          parts.extend token = next := by
  cases token with
  | tagName | child | sibling | climb | openGroup | closeGroup =>
    simp [add, Token.endsElement, Token.tag?]
  | className name =>
    simp [add, extend, Token.endsElement, Token.tag?, Token.class?, Token.id?, Token.attributes?,
      Token.text?, Token.multiplier?, Token.part?]
  | idName | attributes | text | multiplier =>
    simp only [add]
    split
    next taken => simp [Token.part?, has, taken]
    next free =>
      rw [Option.not_isSome_iff_eq_none] at free
      simp [extend, has, free, Token.endsElement, Token.tag?, Token.class?, Token.id?,
        Token.attributes?, Token.text?, Token.multiplier?, Token.part?]

theorem add_eq_repeated_iff {parts : Parts} {token : Token} {part : Part} :
    parts.add token = .repeated part ↔ token.part? = some part ∧ parts.has part = true := by
  cases token with
  | tagName | className | child | sibling | climb | openGroup | closeGroup =>
    simp [add, Token.part?]
  | idName | attributes | text | multiplier =>
    simp only [add, Token.part?, Option.some.injEq]
    split
    next taken =>
      rw [Addition.repeated.injEq]
      refine ⟨?_, And.left⟩
      rintro rfl
      exact ⟨rfl, taken⟩
    next free =>
      constructor
      · intro same
        cases same
      · rintro ⟨rfl, taken⟩
        exact absurd taken free

theorem ofRun_concat (run : List Token) (token : Token) :
    ofRun (run ++ [token]) = (ofRun run).extend token := by
  simp only [ofRun, extend, List.findSome?_append, List.filterMap_append, List.findSome?_singleton]
  cases token <;> rfl

theorem has_ofRun {run : List Token} {part : Part} :
    (ofRun run).has part = true ↔ ∃ token ∈ run, token.part? = some part := by
  cases part <;> simp only [has, ofRun, List.findSome?_isSome_iff] <;>
    refine exists_congr fun token => and_congr_right fun _ => ?_ <;>
    cases token <;> simp [Token.id?, Token.attributes?, Token.text?, Token.multiplier?, Token.part?]

end Parts

end Parser

open Shorthand.Parser

namespace IsElementRun

theorem singleton {token : Token} (inside : token.endsElement = false) : IsElementRun [token] where
  nonempty := by simp
  inside := by simpa using inside
  tagFirst := by simp
  once _ := List.countP_le_length

theorem concat {run : List Token} {token : Token} (h : IsElementRun run)
    (inside : token.endsElement = false) (untagged : token.tag? = none)
    (free : ∀ part, token.part? = some part → ∀ other ∈ run, other.part? ≠ some part) :
    IsElementRun (run ++ [token]) where
  nonempty := by simp
  inside other mem := by
    rcases List.mem_append.1 mem with mem | mem
    · exact h.inside other mem
    · rwa [List.mem_singleton.1 mem]
  tagFirst other mem := by
    rw [List.tail_append_of_ne_nil h.nonempty] at mem
    rcases List.mem_append.1 mem with mem | mem
    · exact h.tagFirst other mem
    · rwa [List.mem_singleton.1 mem]
  once part := by
    have before := h.once part
    rw [List.countP_append, List.countP_singleton]
    by_cases named : token.part? = some part
    · have unread : run.countP (·.part? = some part) = 0 :=
        List.countP_eq_zero.2 fun other mem => by simpa using free part named other mem
      simp [unread, named]
    · simpa [named] using before

theorem of_append {front back : List Token} (nonempty : front ≠ [])
    (h : IsElementRun (front ++ back)) : IsElementRun front where
  nonempty := nonempty
  inside token mem := h.inside token (List.mem_append_left _ mem)
  tagFirst token mem := by
    apply h.tagFirst
    rw [List.tail_append_of_ne_nil nonempty]
    exact List.mem_append_left _ mem
  once part := by
    have whole := h.once part
    rw [List.countP_append] at whole
    omega

/-- The last token of a run repeats no part. -/
theorem last_free {run : List Token} {token : Token} (h : IsElementRun (run ++ [token]))
    {part : Part} (named : token.part? = some part) :
    ∀ other ∈ run, other.part? ≠ some part := by
  intro other mem again
  have counted : 0 < run.countP (·.part? = some part) :=
    List.countP_pos_iff.2 ⟨other, mem, by simpa using again⟩
  have whole := h.once part
  rw [List.countP_append, List.countP_singleton, named] at whole
  simp only [decide_true, if_true] at whole
  omega

/-- The tokens that continue a run are those that are added to its parts. -/
theorem concat_iff {run : List Token} {token : Token} (h : IsElementRun run) :
    IsElementRun (run ++ [token]) ↔
      (Parts.ofRun run).add token = .added (Parts.ofRun (run ++ [token])) := by
  rw [Parts.add_eq_added_iff, Parts.ofRun_concat]
  have free_iff : (∀ part, token.part? = some part → (Parts.ofRun run).has part = false) ↔
      ∀ part, token.part? = some part → ∀ other ∈ run, other.part? ≠ some part := by
    simp only [← Bool.not_eq_true, Parts.has_ofRun, not_exists, not_and, ne_eq]
  constructor
  · intro longer
    refine ⟨longer.inside token (by simp), longer.tagFirst token ?_, ?_, rfl⟩
    · simp [List.tail_append_of_ne_nil h.nonempty]
    · exact free_iff.2 fun part named => longer.last_free named
  · rintro ⟨inside, untagged, free, -⟩
    exact h.concat inside untagged (free_iff.1 free)

theorem concat_of_add {run : List Token} {token : Token} {parts : Parts} (h : IsElementRun run)
    (added : (Parts.ofRun run).add token = .added parts) :
    IsElementRun (run ++ [token]) ∧ Parts.ofRun (run ++ [token]) = parts := by
  have same : Parts.ofRun (run ++ [token]) = parts := by
    rw [Parts.ofRun_concat]
    exact (Parts.add_eq_added_iff.1 added).2.2.2
  exact ⟨h.concat_iff.2 (by rw [same]; exact added), same⟩

/-- At most one token of a run is read in a way that only one part is. -/
theorem findSome?_eq_some_iff {β : Type} {run : List Token} (h : IsElementRun run) (part : Part)
    {read? : Token → Option β} {value : β}
    (reads : ∀ token, (read? token).isSome = true → token.part? = some part) :
    run.findSome? read? = some value ↔ ∃ token ∈ run, read? token = some value := by
  constructor
  · exact List.exists_of_findSome?_eq_some
  · rintro ⟨token, mem, found⟩
    obtain ⟨front, back, rfl⟩ := List.append_of_mem mem
    have named : token.part? = some part := reads token (by rw [found]; rfl)
    have free : front.findSome? read? = none := by
      rw [List.findSome?_eq_none_iff]
      intro other before
      have start : IsElementRun (front ++ [token]) :=
        of_append (by simp) (show IsElementRun (front ++ [token] ++ back) by simpa using h)
      cases again : read? other with
      | none => rfl
      | some _ =>
        exact absurd (reads other (by rw [again]; rfl)) (start.last_free named other before)
    rw [List.findSome?_append, free, List.findSome?_cons, found]
    rfl

theorem tag_eq_some_iff {run : List Token} (h : IsElementRun run) {name : String} :
    run.findSome? Token.tag? = some name ↔ ∃ token ∈ run, token.tag? = some name := by
  constructor
  · exact List.exists_of_findSome?_eq_some
  · rintro ⟨token, mem, found⟩
    cases run with
    | nil => cases mem
    | cons first rest =>
      rcases List.mem_cons.1 mem with rfl | later
      · rw [List.findSome?_cons, found]
      · rw [h.tagFirst token later] at found
        cases found

/-- The strings of an element are those of the tokens it is made of. -/
theorem mem_templates {run : List Token} (h : IsElementRun run) {span : Span} {template : String} :
    template ∈ ((Parts.ofRun run).head span).templates ↔
      ∃ token ∈ run, template ∈ token.templates := by
  have ids : run.findSome? Token.id? = some template ↔ _ :=
    h.findSome?_eq_some_iff .id
      (by intro token; cases token <;> simp [Token.id?, Token.part?])
  have texts : run.findSome? Token.text? = some template ↔ _ :=
    h.findSome?_eq_some_iff .text
      (by intro token; cases token <;> simp [Token.text?, Token.part?])
  have entries : template ∈ ((run.findSome? Token.attributes?).getD []).filterMap (·.value) ↔
      ∃ token ∈ run, ∃ entries, token.attributes? = some entries ∧
        template ∈ entries.filterMap (·.value) := by
    have blocks (entries : List Attribute) : run.findSome? Token.attributes? = some entries ↔ _ :=
      h.findSome?_eq_some_iff .attributes
        (by intro token; cases token <;> simp [Token.attributes?, Token.part?])
    have opened : template ∈ ((run.findSome? Token.attributes?).getD []).filterMap (·.value) ↔
        ∃ entries, run.findSome? Token.attributes? = some entries ∧
          template ∈ entries.filterMap (·.value) := by
      cases run.findSome? Token.attributes? <;> simp
    rw [opened]
    simp only [blocks]
    constructor
    · rintro ⟨entries, ⟨token, mem, found⟩, inside⟩
      exact ⟨token, mem, entries, found, inside⟩
    · rintro ⟨token, mem, entries, found, inside⟩
      exact ⟨entries, ⟨token, mem, found⟩, inside⟩
  have whole (token : Token) : template ∈ token.templates ↔
      token.tag? = some template ∨ token.class? = some template ∨ token.id? = some template ∨
        (∃ entries, token.attributes? = some entries ∧ template ∈ entries.filterMap (·.value)) ∨
          token.text? = some template := by
    cases token <;>
      simp [Token.templates, Token.tag?, Token.class?, Token.id?, Token.attributes?, Token.text?,
        eq_comm]
  simp only [whole, and_or_left, exists_or, ← entries, ← ids, ← texts, ← h.tag_eq_some_iff]
  simp only [Head.templates, Parts.head, Parts.ofRun, List.mem_append, Option.mem_toList,
    List.mem_filterMap, or_assoc]

end IsElementRun

/-! ## Modifiers -/

namespace Head

def modifiers (head : Head) : List Numbering :=
  head.templates.flatMap fun template => (Numbering.strip template).2

theorem agreed_eq_some_iff {modifiers : List Numbering} {numbering : Numbering} :
    agreed modifiers = some numbering ↔
      (∀ modifier ∈ modifiers, modifier = numbering) ∧ (modifiers = [] → numbering = .plain) := by
  cases modifiers with
  | nil => simp [agreed, eq_comm]
  | cons first rest =>
    simp only [agreed, List.all_eq_true, decide_eq_true_eq, Option.ite_none_right_eq_some,
      Option.some.injEq, List.forall_mem_cons, reduceCtorEq, false_implies, and_true]
    constructor
    · rintro ⟨same, rfl⟩
      exact ⟨rfl, same⟩
    · rintro ⟨rfl, same⟩
      exact ⟨same, rfl⟩

theorem settleNumbering_eq_some_iff {head settled : Head} :
    head.settleNumbering = some settled ↔
      agreed head.modifiers = some settled.numbering ∧
        settled = { head.mapTemplates fun template => (Numbering.strip template).1 with
          numbering := settled.numbering } := by
  simp only [settleNumbering, Option.map_eq_some_iff, modifiers]
  constructor
  · rintro ⟨numbering, agree, rfl⟩
    exact ⟨agree, rfl⟩
  · rintro ⟨agree, settle⟩
    exact ⟨settled.numbering, agree, settle.symm⟩

end Head

theorem Parser.Parts.finish_eq_ok_iff {parts : Parts} {span : Span} {node : Node} :
    parts.finish span = .ok node ↔
      ∃ head, (parts.head span).settleNumbering = some head ∧ node = .node head [] := by
  rw [finish]
  split
  next head settled => simp [settled, eq_comm]
  next conflict => simp [conflict]

namespace IsElementRun

theorem mem_modifiers {run : List Token} (h : IsElementRun run) (span : Span)
    {modifier : Numbering} :
    modifier ∈ ((Parts.ofRun run).head span).modifiers ↔ modifier ∈ modifiersOf run := by
  simp only [Head.modifiers, modifiersOf, List.mem_flatMap, h.mem_templates]
  constructor
  · rintro ⟨template, ⟨token, mem, inside⟩, found⟩
    exact ⟨token, mem, template, inside, found⟩
  · rintro ⟨token, mem, template, inside, found⟩
    exact ⟨template, ⟨token, mem, inside⟩, found⟩

end IsElementRun

/-- A head holds just what a run of tokens over a span spells: its parts, with the modifiers taken
out of the strings and put into the numbering. -/
structure Spells (run : List Token) (span : Span) (head : Head) : Prop where
  parts : head =
    { ((Parts.ofRun run).head span).mapTemplates (fun template => (Numbering.strip template).1) with
      numbering := head.numbering }
  modified : ∀ modifier ∈ modifiersOf run, modifier = head.numbering
  unmodified : modifiersOf run = [] → head.numbering = .plain

theorem Spells.kind_eq {run : List Token} {span : Span} {head : Head} (h : Spells run span head) :
    head.kind = .element := by
  rw [h.parts]
  rfl

namespace IsElementRun

variable {run : List Token} {span : Span}

theorem spells_iff (h : IsElementRun run) {head : Head} :
    Spells run span head ↔ ((Parts.ofRun run).head span).settleNumbering = some head := by
  have none_iff : ((Parts.ofRun run).head span).modifiers = [] ↔ modifiersOf run = [] := by
    simp only [List.eq_nil_iff_forall_not_mem, h.mem_modifiers]
  rw [Head.settleNumbering_eq_some_iff, Head.agreed_eq_some_iff, none_iff]
  simp only [h.mem_modifiers]
  constructor
  · intro spells
    exact ⟨⟨spells.modified, spells.unmodified⟩, spells.parts⟩
  · rintro ⟨⟨modified, unmodified⟩, parts⟩
    exact ⟨parts, modified, unmodified⟩

theorem finish_eq_ok_iff (h : IsElementRun run) {node : Node} :
    (Parts.ofRun run).finish span = .ok node ↔
      ∃ head, Spells run span head ∧ node = .node head [] := by
  simp only [h.spells_iff, Parts.finish_eq_ok_iff]

end IsElementRun

theorem exists_spells_iff {run : List Token} {span : Span} :
    (∃ head, Spells run span head) ↔ ModifiersAgree run := by
  constructor
  · rintro ⟨head, spells⟩ one mem other mem'
    rw [spells.modified one mem, spells.modified other mem']
  · intro agree
    -- The numbering is that of the first modifier, which all others are equal to.
    refine ⟨{ ((Parts.ofRun run).head span).mapTemplates
      (fun template => (Numbering.strip template).1) with
        numbering := (modifiersOf run).head?.getD .plain }, rfl, ?_, ?_⟩
    · intro modifier mem
      cases found : modifiersOf run with
      | nil => rw [found] at mem; cases mem
      | cons first rest => exact agree modifier mem first (by rw [found]; exact List.mem_cons_self)
    · intro none
      simp [none]

end Shorthand
