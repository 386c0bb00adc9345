import Mathlib.Data.List.Infix
import Shorthand.Proofs.Abbreviation.ElementRun
import Shorthand.Proofs.Abbreviation.Templates
import Shorthand.Proofs.Numbering.Modifier
import Shorthand.Proofs.Token.Display

/-! # Writing abbreviations

A forest is written as text: the parts of an element one after the other, the children of an element
behind `>`, groups in parentheses, and between two siblings as many `^` as the first one leaves
levels open, or `+` if it leaves none.
-/
namespace Shorthand

def Head.block? (head : Head) : Option (List Attribute) :=
  if head.attributes = [] then none else some head.attributes

/-- What is written for an element behind its tag. -/
def Head.writtenParts (head : Head) : List Token :=
  head.classes.map .className ++ head.id.toList.map .idName ++
    head.block?.toList.map .attributes ++ head.text.toList.map .text ++
      [.multiplier head.multiplier]

def Head.written (head : Head) : List Token :=
  head.tag.toList.map .tagName ++ head.writtenParts

mutual

/-- The levels that stay open behind a node: the length of the chain of elements with children that
starts with it and goes on with the last child each time. -/
def openBehind : Node → Nat
  | .node head children =>
    if head.kind = .element ∧ children ≠ [] then openBehindLast children + 1 else 0

def openBehindLast : List Node → Nat
  | [] => 0
  | [last] => openBehind last
  | _ :: second :: rest => openBehindLast (second :: rest)

end

/-- What stands between two siblings of which the first leaves a number of levels open. -/
def between : Nat → List Token
  | 0 => [.sibling]
  | count + 1 => List.replicate (count + 1) .climb

mutual

def writeNode : Node → List Token
  | .node head children =>
    match head.kind with
    | .element => head.written ++ if children.isEmpty then [] else .child :: writeNodes children
    | .group => .openGroup :: writeNodes children ++ [.closeGroup, .multiplier head.multiplier]

def writeNodes : List Node → List Token
  | [] => []
  | [last] => writeNode last
  | first :: second :: rest =>
    writeNode first ++ between (openBehind first) ++ writeNodes (second :: rest)

end

def write (forest : Abbreviation) : String :=
  String.join ((writeNodes forest).map Token.display)

/-! ## What can be written -/

/-- A word of ASCII letters, digits, `_`, `:`, `$` and `-`. -/
structure IsWord (name : String) : Prop where
  nonempty : name.toList ≠ []
  inside : ∀ c ∈ name.toList, Lexer.isWordChar c = true ∧ c ≠ '@'

instance (name : String) : Decidable (IsWord name) :=
  decidable_of_iff
    (name.toList ≠ [] ∧ name.toList.all (fun c => Lexer.isWordChar c && c != '@') = true)
    ⟨fun h => ⟨h.1, by simpa using h.2⟩, fun h => ⟨h.nonempty, by simpa using h.inside⟩⟩

/-- An element can be written if each of its parts can be told from what stands around it and none
of its strings has a modifier. -/
structure Head.Writable (head : Head) : Prop where
  names : ∀ name ∈ head.tag.toList ++ head.classes ++ head.id.toList, IsWord name
  entries : ∀ entry ∈ head.attributes, entry.Legible
  distinct : (head.attributes.map (·.name)).Nodup
  text : ∀ content ∈ head.text, '}' ∉ content.toList
  unmodified : ∀ template ∈ head.attributes.filterMap (·.value) ++ head.text.toList,
    ¬ ['$', '@'] <:+: template.toList
  multiplier : head.multiplier ≠ 0
  numbering : head.numbering = .plain

instance (head : Head) : Decidable head.Writable :=
  decidable_of_iff
    ((∀ name ∈ head.tag.toList ++ head.classes ++ head.id.toList, IsWord name) ∧
      (∀ entry ∈ head.attributes, entry.Legible) ∧ (head.attributes.map (·.name)).Nodup ∧
        (∀ content ∈ head.text, '}' ∉ content.toList) ∧
          (∀ template ∈ head.attributes.filterMap (·.value) ++ head.text.toList,
            ¬ ['$', '@'] <:+: template.toList) ∧ head.multiplier ≠ 0 ∧ head.numbering = .plain)
    ⟨fun ⟨names, entries, distinct, text, unmodified, multiplier, numbering⟩ =>
        ⟨names, entries, distinct, text, unmodified, multiplier, numbering⟩,
      fun h => ⟨h.names, h.entries, h.distinct, h.text, h.unmodified, h.multiplier, h.numbering⟩⟩

/-- A node can be written if its elements can and its groups have children, a multiplier and nothing
else. -/
inductive Writable : Node → Prop where
  | element {head : Head} {children : Abbreviation} (kind : head.kind = .element)
      (fits : head.Writable) (inner : ∀ child ∈ children, Writable child) :
      Writable (.node head children)
  | group {multiplier : UInt64} {span : Span} {children : Abbreviation} (positive : multiplier ≠ 0)
      (nonempty : children ≠ []) (inner : ∀ child ∈ children, Writable child) :
      Writable (.node { kind := .group, multiplier, span } children)

theorem IsWord.isName {name : String} (h : IsWord name) : Lexer.IsName name.toList where
  nonempty := h.nonempty
  inside c mem := (h.inside c mem).1
  modifiers := by
    have none (afterDollar : Bool) {text : List Char} (noAt : ∀ c ∈ text, c ≠ '@') :
        Lexer.looseModifier? afterDollar text = none := by
      induction text generalizing afterDollar with
      | nil => rfl
      | cons c rest ih =>
        have first : c ≠ '@' := noAt c List.mem_cons_self
        rw [Lexer.looseModifier?, if_neg (by simp [first]),
          ih _ fun d mem => noAt d (List.mem_cons_of_mem _ mem)]
        rfl
    exact none false fun c mem => (h.inside c mem).2

theorem IsWord.unmodified {name : String} (h : IsWord name) : ¬ ['$', '@'] <:+: name.toList :=
  fun inside => (h.inside '@' (inside.subset (by simp))).2 rfl

namespace Head

variable {head : Head}

theorem mem_writtenParts {token : Token} :
    token ∈ head.writtenParts ↔
      (∃ name ∈ head.classes, .className name = token) ∨
        (∃ name, head.id = some name ∧ .idName name = token) ∨
          (∃ entries, head.block? = some entries ∧ .attributes entries = token) ∨
            (∃ content, head.text = some content ∧ .text content = token) ∨
              token = .multiplier head.multiplier := by
  simp only [writtenParts, List.mem_append, List.mem_map, Option.mem_toList, List.mem_singleton,
    or_assoc]

theorem part_of_mem_writtenParts {token : Token} (mem : token ∈ head.writtenParts) :
    token.endsElement = false ∧ token.tag? = none := by
  rcases mem_writtenParts.1 mem with
    ⟨_, _, rfl⟩ | ⟨_, _, rfl⟩ | ⟨_, _, rfl⟩ | ⟨_, _, rfl⟩ | rfl <;> exact ⟨rfl, rfl⟩

theorem isElementRun_written : IsElementRun head.written where
  nonempty := by simp [written, writtenParts]
  inside token mem := by
    rcases List.mem_append.1 mem with tag | part
    · obtain ⟨name, _, rfl⟩ := List.mem_map.1 tag
      rfl
    · exact (part_of_mem_writtenParts part).1
  tagFirst token mem := by
    refine (part_of_mem_writtenParts (?_ : token ∈ head.writtenParts)).2
    rw [written] at mem
    cases tag : head.tag with
    | none =>
      rw [tag] at mem
      exact List.mem_of_mem_tail mem
    | some name =>
      rw [tag] at mem
      exact mem
  once part := by
    have atMost {α : Type} (one : Option α) (make : α → Token) :
        (one.toList.map make).countP (·.part? = some part) ≤ 1 := by
      cases one with
      | none => simp
      | some a => exact List.countP_le_length
    have ids := atMost head.id .idName
    have blocks := atMost head.block? .attributes
    have texts := atMost head.text .text
    simp only [written, writtenParts, List.countP_append, List.countP_map] at ids blocks texts ⊢
    cases part <;> simp_all [Function.comp_def, Token.part?]

theorem ofRun_written :
    Parser.Parts.ofRun head.written =
      { tag := head.tag, classes := head.classes, id := head.id, attributes := head.block?,
        text := head.text, multiplier := some head.multiplier } := by
  have first {α : Type} (one : Option α) : one.toList.findSome? some = one := by
    cases one <;> rfl
  have never {α β : Type} (list : List α) : list.findSome? (fun _ => (none : Option β)) = none := by
    simp
  simp [Parser.Parts.ofRun, written, writtenParts, List.findSome?_append, List.findSome?_map,
    Function.comp_def, Token.tag?, Token.class?, Token.id?, Token.attributes?, Token.text?,
    Token.multiplier?, first, never]

/-- What is written for an element gives its own parts. -/
theorem head_ofRun_written (kind : head.kind = .element) (span : Span) :
    (Parser.Parts.ofRun head.written).head span =
      { head with numbering := .plain, span := span } := by
  have block : head.block?.getD [] = head.attributes := by
    unfold block?
    split
    next none => rw [none]; rfl
    next => rfl
  rw [ofRun_written, Parser.Parts.head, block, ← kind]
  rfl

theorem Writable.strip_eq (h : head.Writable) :
    ∀ template ∈ head.templates, Numbering.strip template = (template, []) := by
  intro template mem
  apply Numbering.strip_of_unmodified
  rw [templates, List.append_assoc, List.mem_append] at mem
  rcases mem with name | other
  · exact (h.names template name).unmodified
  · exact h.unmodified template other

theorem Writable.spells (h : head.Writable) (kind : head.kind = .element) (span : Span) :
    Spells head.written span { head with span := span } := by
  have none : modifiersOf head.written = [] := by
    rw [List.eq_nil_iff_forall_not_mem]
    intro modifier mem
    rw [← isElementRun_written.mem_modifiers span, head_ofRun_written kind,
      modifiers, List.mem_flatMap] at mem
    obtain ⟨template, inside, found⟩ := mem
    rw [h.strip_eq template inside] at found
    cases found
  refine ⟨?_, by simp [none], fun _ => h.numbering⟩
  rw [head_ofRun_written kind, mapTemplates_eq_self]
  intro template mem
  rw [h.strip_eq template mem]

theorem Writable.legible (h : head.Writable) : ∀ token ∈ head.written, token.Legible := by
  intro token mem
  have named {name : String} (mem : name ∈ head.tag.toList ++ head.classes ++ head.id.toList) :
      Lexer.IsName name.toList := (h.names name mem).isName
  rcases List.mem_append.1 mem with tag | part
  · obtain ⟨name, inside, rfl⟩ := List.mem_map.1 tag
    exact named (by simp [inside])
  · rcases mem_writtenParts.1 part with
      ⟨name, inside, rfl⟩ | ⟨name, found, rfl⟩ | ⟨entries, found, rfl⟩ | ⟨content, found, rfl⟩ | rfl
    · exact named (by simp [inside])
    · exact named (by simp [found])
    · unfold block? at found
      split at found
      next => cases found
      next =>
        cases found
        exact ⟨h.entries, h.distinct⟩
    · exact h.text content found
    · exact h.multiplier

end Head

/-! ## Reading the tokens back -/

/-- Tokens that may follow an item: the first of them ends it. -/
def Resumes (rest : List Token) : Prop :=
  (∀ next ∈ rest.head?, next.endsElement = true) ∧ Apart false rest

theorem apart_of_endsElement {token : Token} {rest : List Token} {seenId : Bool}
    (ends : token.endsElement = true) (apart : Apart false rest) :
    Apart seenId (token :: rest) := by
  cases token with
  | child | sibling | climb | openGroup | closeGroup =>
    exact ⟨by simp [Token.runsOn], by simp [Token.id?], by simpa [Lexer.hasId, ends] using apart⟩
  | tagName | className | idName | attributes | text | multiplier => cases ends

theorem Resumes.apart {rest : List Token} (h : Resumes rest) (seenId : Bool) :
    Apart seenId rest := by
  cases rest with
  | nil => trivial
  | cons next rest =>
    have ends := h.1 next rfl
    obtain ⟨_, _, apart⟩ := h.2
    rw [Lexer.hasId] at apart
    · exact apart_of_endsElement ends (by simpa [ends] using apart)
    · rintro name rfl
      cases ends

theorem resumes_cons {token : Token} {rest : List Token} (ends : token.endsElement = true)
    (apart : Apart false rest) : Resumes (token :: rest) :=
  ⟨by simpa using ends, apart_of_endsElement ends apart⟩

theorem apart_run (run : List Token) {rest : List Token} {seenId : Bool}
    (inside : ∀ token ∈ run, token.endsElement = false)
    (untagged : ∀ token ∈ run.tail, token.tag? = none)
    (once : run.countP (·.part? = some .id) + seenId.toNat ≤ 1) (resumes : Resumes rest) :
    Apart seenId (run ++ rest) := by
  induction run generalizing seenId with
  | nil => exact resumes.apart seenId
  | cons token run ih =>
    rw [List.countP_cons] at once
    refine ⟨fun _ next mem => ?_, fun id => ?_, ih ?_ ?_ ?_⟩
    · cases run with
      | nil =>
        have ends := resumes.1 next mem
        cases next <;> first | rfl | cases ends
      | cons second run =>
        cases mem
        exact untagged next List.mem_cons_self
    · rw [Token.isSome_id?_iff] at id
      cases seenId with
      | false => rfl
      | true => simp [id] at once
    · exact fun token mem => inside token (List.mem_cons_of_mem _ mem)
    · exact fun token mem => untagged token (List.mem_of_mem_tail mem)
    · have part := inside token List.mem_cons_self
      cases token with
      | child | sibling | climb | openGroup | closeGroup => cases part
      | idName =>
        rw [if_pos (by rfl)] at once
        simp only [Lexer.hasId, Bool.toNat_true]
        omega
      | tagName | className | attributes | text | multiplier =>
        simpa [Lexer.hasId, Token.part?, Token.endsElement] using once

theorem apart_written (head : Head) {rest : List Token} (resumes : Resumes rest) :
    Apart false (head.written ++ rest) := by
  have isRun : IsElementRun head.written := Head.isElementRun_written
  exact apart_run _ isRun.inside isRun.tagFirst (isRun.once .id) resumes

theorem resumes_between (count : Nat) {rest : List Token} (apart : Apart false rest) :
    Resumes (between count ++ rest) := by
  cases count with
  | zero => exact resumes_cons rfl apart
  | succ count =>
    induction count with
    | zero => exact resumes_cons rfl apart
    | succ count ih => exact resumes_cons rfl ih.2

theorem apart_writeNodes {forest : Abbreviation}
    (each : ∀ tree ∈ forest, ∀ rest, Resumes rest → Apart false (writeNode tree ++ rest))
    {rest : List Token} (resumes : Resumes rest) : Apart false (writeNodes forest ++ rest) := by
  induction forest with
  | nil => exact resumes.apart false
  | cons first others ih =>
    cases others with
    | nil => exact each first List.mem_cons_self rest resumes
    | cons second others =>
      rw [writeNodes, List.append_assoc, List.append_assoc]
      refine each first List.mem_cons_self _ (resumes_between _ (ih fun tree mem => ?_))
      exact each tree (List.mem_cons_of_mem _ mem)

theorem Writable.apart {tree : Node} (h : Writable tree) :
    ∀ rest, Resumes rest → Apart false (writeNode tree ++ rest) := by
  induction h with
  | @element head children kind fits inner ih =>
    intro rest resumes
    rw [writeNode, kind]
    dsimp only
    split
    next => rw [List.append_nil]; exact apart_written head resumes
    next =>
      rw [List.append_assoc]
      exact apart_written head (resumes_cons rfl (apart_writeNodes ih resumes))
  | @group multiplier span children positive nonempty inner ih =>
    intro rest resumes
    have behind : Apart false (.multiplier multiplier :: rest) :=
      apart_run [.multiplier multiplier] (by simp [Token.endsElement]) (by simp)
        (by simp [Token.part?]) resumes
    rw [writeNode]
    dsimp only
    rw [List.append_assoc]
    exact apart_of_endsElement rfl (apart_writeNodes ih (resumes_cons rfl behind))

theorem legible_writeNodes {forest : Abbreviation}
    (each : ∀ tree ∈ forest, ∀ token ∈ writeNode tree, token.Legible) :
    ∀ token ∈ writeNodes forest, token.Legible := by
  have operators (count : Nat) : ∀ token ∈ between count, token.Legible := by
    intro token mem
    cases count with
    | zero =>
      rw [List.mem_singleton.1 mem]
      trivial
    | succ count =>
      rw [List.eq_of_mem_replicate mem]
      trivial
  induction forest with
  | nil => intro token mem; cases mem
  | cons first others ih =>
    cases others with
    | nil => exact each first List.mem_cons_self
    | cons second others =>
      intro token mem
      rw [writeNodes, List.mem_append, List.mem_append] at mem
      rcases mem with (here | operator) | later
      · exact each first List.mem_cons_self token here
      · exact operators _ token operator
      · exact ih (fun tree mem => each tree (List.mem_cons_of_mem _ mem)) token later

theorem Writable.legible {tree : Node} (h : Writable tree) :
    ∀ token ∈ writeNode tree, token.Legible := by
  induction h with
  | @element head children kind fits inner ih =>
    intro token mem
    rw [writeNode, kind, List.mem_append] at mem
    rcases mem with own | below
    · exact fits.legible token own
    · split at below
      next => cases below
      next =>
        rcases List.mem_cons.1 below with rfl | below
        · trivial
        · exact legible_writeNodes ih token below
  | @group multiplier span children positive nonempty inner ih =>
    intro token mem
    simp only [writeNode, List.cons_append, List.mem_cons, List.mem_append, List.not_mem_nil,
      or_false] at mem
    rcases mem with rfl | inside | rfl | rfl
    · trivial
    · exact legible_writeNodes ih token inside
    · trivial
    · exact positive

theorem lex_write {forest : Abbreviation} (writable : ∀ tree ∈ forest, Writable tree) :
    ∃ placed, lex (write forest) = .ok placed ∧ placed.map (·.token) = writeNodes forest := by
  have apart : Apart false (writeNodes forest) := by
    rw [← List.append_nil (writeNodes forest)]
    exact apart_writeNodes (fun tree mem => (writable tree mem).apart) ⟨by simp, trivial⟩
  have legible := legible_writeNodes fun tree mem => (writable tree mem).legible
  have text : (write forest).toList = (writeNodes forest).flatMap (·.display.toList) := by
    rw [write, String.toList_join, List.flatMap_map]
  rw [lex, text]
  exact readTokens_display legible apart 0

end Shorthand
