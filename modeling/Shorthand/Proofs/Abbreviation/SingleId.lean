import Shorthand.Proofs.Abbreviation.FirstFault
import Shorthand.Proofs.Markup.Faults
import Shorthand.Proofs.Token.Ids

/-! # One id for each element

The lexer and the parser both see to it that an element has one id.  The lexer goes by the operators
and parentheses between two ids, the parser by the element it has under way, which ends at the first
token that is none of its parts.  The element of the parser never reaches back further than what the
lexer looks at, so that the lexer finds a second id before the parser does.
-/
namespace Shorthand

open Shorthand.Parser Shorthand.Lexer

namespace Parser

variable {maxDepth : Nat} {state next last : State} {placed : PlacedToken}
  {tokens : List PlacedToken} {fault : Fault}

def Item.hasId : Item → Bool
  | .element parts _ => parts.has .id
  | _ => false

/-- The element under way has its id from the token just read, or it had it before and the token
does not end it. -/
theorem StepsTo.hasId_iff (h : StepsTo maxDepth state placed next) :
    next.item.hasId = true ↔ placed.token.id?.isSome = true ∨
      state.item.hasId = true ∧ placed.token.endsElement = false := by
  cases h with
  | startElement awaits inside =>
    have unread : state.item.hasId = false := by cases awaits <;> rfl
    have started : (Parts.ofRun [placed.token]).has .id = true ↔ _ := Parts.has_ofRun
    rw [unread, Token.isSome_id?_iff, Item.hasId, started]
    simp
  | @extendElement _ _ parts _ _ _ added =>
    obtain ⟨inside, -, -, rfl⟩ := Parts.add_eq_added_iff.1 added
    rw [inside, Item.hasId, Item.hasId, Parts.has, Parts.has, Parts.extend, Option.isSome_or,
      Bool.or_eq_true]
    simp [or_comm]
  | multiplyGroup multiplies => simp [Item.hasId, multiplies, Token.id?]
  | openGroup _ operator | child _ operator | sibling _ operator | climb _ operator
    | closeGroup _ operator => simp [Item.hasId, operator, Token.id?, Token.endsElement]

/-- Where the parser has read the id of the element under way, the lexer has seen one. -/
theorem State.idBehind_of_run {seenId : Bool} (reads : run maxDepth state tokens = .ok last)
    (seen : state.item.hasId = true → seenId = true) (id : last.item.hasId = true) :
    idBehind seenId tokens = true := by
  induction tokens generalizing state seenId with
  | nil =>
    cases reads
    exact seen id
  | cons placed rest ih =>
    obtain ⟨next, step, later⟩ := Except.bind_eq_ok_iff.1 reads
    rw [idBehind_cons]
    refine ih later fun id' => ?_
    rw [Lexer.hasId_eq, Bool.or_eq_true, Bool.and_eq_true, Bool.not_eq_true']
    exact ((step_eq_ok_iff.1 step).hasId_iff.1 id').imp_right (And.imp_left seen)

/-- Only an id is rejected as a second id, and only behind another. -/
theorem Rejects.id_of_repeatedPart (h : Rejects maxDepth state placed fault)
    (second : fault.problem = .grammar (.repeatedPart .id)) :
    state.item.hasId = true ∧ placed.token.id?.isSome = true := by
  cases h with
  | repeatedPart taken =>
    cases second
    obtain ⟨same, has⟩ := Parts.add_eq_repeated_iff.1 taken
    exact ⟨has, Token.isSome_id?_iff.2 same⟩
  | expectedElement | expectedOperator | climbAtRoot | unopenedGroup | depth => cases second

/-- Where operators separate the ids, no element has two. -/
theorem not_repeatedPart_of_idsApart {stop : Nat} (apart : IdsApart tokens)
    (failed : parseTokens stop maxDepth tokens = .error fault) :
    fault.problem ≠ .grammar (.repeatedPart .id) := by
  intro second
  have ofToken : fault.problem.OfToken := by
    rw [second]
    exact .repeatedPart .id
  obtain ⟨front, placed, back, state, rfl, reads, -, rejects⟩ := exists_rejects failed ofToken
  obtain ⟨id, id'⟩ := rejects.id_of_repeatedPart second
  have opened : idBehind false front = true := State.idBehind_of_run reads nofun id
  exact apart.not_idOpen id' (idBehind_eq_true_iff.1 opened)

end Parser

variable {source : String} {maxDepth offset : Nat} {span : Span}

theorem parseAbbreviation_ne_repeatedId :
    parseAbbreviation source maxDepth ≠
      .error (.located ⟨.grammar (.repeatedPart .id), span⟩ offset) := by
  intro failed
  rcases Except.bind_eq_error_iff.1 failed with lexing | ⟨tokens, tokenized, parsing⟩
  · obtain ⟨fault, found, same⟩ := locate_eq_error_iff.1 lexing
    cases same
    rcases ownProblem_or_secondId_of_readTokens found with own | ⟨second, -⟩
    · cases own
    · cases second
  · obtain ⟨fault, found, same⟩ := locate_eq_error_iff.1 parsing
    cases same
    exact not_repeatedPart_of_idsApart (idsApart_of_lex (locate_eq_ok_iff.1 tokenized)) found rfl

theorem expandTree_ne_repeatedId {options : Options} :
    expandTree source options ≠
      .error (.reported (.located ⟨.grammar (.repeatedPart .id), span⟩ offset)) := by
  intro failed
  cases failsAt_of_expandTree failed with
  | checking failed => cases kind_of_validate failed
  | reading failed => exact parseAbbreviation_ne_repeatedId failed
  | unrolling parsed failed =>
    rcases exists_of_unrollNodes_error failed with crash | ⟨head, -, same⟩
    · cases crash
    · cases same

/-- The tokens of a source have an operator or a parenthesis between any two ids.  Where the lexer
finds a second id, none of them stands between this id and one in front of it.  A second id is always
found by the lexer: neither parsing nor expanding a source ever fails for one later on. -/
theorem tokenize_separates_ids (source : String) :
    (∀ tokens, tokenize source = .ok tokens → IdsApart tokens) ∧
    (∀ span offset, tokenize source = .error (.located ⟨.spelling .secondId, span⟩ offset) →
      ∃ front one between other rest,
        Scans 0 source.toList (front ++ one :: (between ++ [other])) rest ∧
          one.token.id?.isSome = true ∧ other.token.id?.isSome = true ∧ other.span = span ∧
            ∀ placed ∈ between, placed.token.endsElement = false) ∧
    (∀ maxDepth span offset, parseAbbreviation source maxDepth ≠
      .error (.located ⟨.grammar (.repeatedPart .id), span⟩ offset)) ∧
    ∀ options span offset, expandTree source options ≠
      .error (.reported (.located ⟨.grammar (.repeatedPart .id), span⟩ offset)) := by
  refine ⟨fun tokens tokenized => idsApart_of_lex (locate_eq_ok_iff.1 tokenized),
    fun span offset failed => ?_, fun _ _ _ => parseAbbreviation_ne_repeatedId,
    fun _ _ _ => expandTree_ne_repeatedId⟩
  obtain ⟨fault, found, same⟩ := locate_eq_error_iff.1 failed
  cases same
  rcases ownProblem_or_secondId_of_readTokens found with own | ⟨-, front, other, rest, scans, second⟩
  · cases own with
    | spelling other => exact absurd rfl other
  · obtain ⟨seen, id', placed⟩ := second
    obtain ⟨before, one, between, rfl, id, inside⟩ := idBehind_eq_true_iff.1 seen
    rw [List.append_assoc, List.cons_append] at scans
    exact ⟨before, one, between, other, rest, scans, id, id', placed, inside⟩

/-- Two ids with an operator and a text block between them, and with a class only. -/
theorem tokenize_separates_ids_class :
    (∃ tokens, tokenize "a#x>b\x7b+\x7d#y" = .ok tokens ∧ IdsApart tokens ∧
      (tokens.filter (·.token.id?.isSome)).length = 2) ∧
    tokenize "a#x.b#y" = .error (.located ⟨.spelling .secondId, ⟨5, 7⟩⟩ 5) ∧
    ∃ front one between other rest,
      Scans 0 "a#x.b#y".toList (front ++ one :: (between ++ [other])) rest ∧
        one.token.id?.isSome = true ∧ other.token.id?.isSome = true ∧ other.span = ⟨5, 7⟩ ∧
          ∀ placed ∈ between, placed.token.endsElement = false := by
  have seen : (tokenize "a#x>b\x7b+\x7d#y").toOption.map (fun tokens =>
      (tokens.filter (·.token.id?.isSome)).length) = some 2 := by decide +kernel
  have failed : tokenize "a#x.b#y" = .error (.located ⟨.spelling .secondId, ⟨5, 7⟩⟩ 5) := by
    decide +kernel
  obtain ⟨tokens, tokenized, two⟩ := Except.exists_of_toOption_map seen
  exact ⟨⟨tokens, tokenized, (tokenize_separates_ids "a#x>b\x7b+\x7d#y").1 tokens tokenized, two⟩,
    failed, (tokenize_separates_ids "a#x.b#y").2.1 _ _ failed⟩

end Shorthand
