import Mathlib.Data.List.Induction
import Shorthand.Proofs.Token.Faults
import Shorthand.Proofs.Token.Seams

/-! # Ids of elements

An element has one id at most.  Of what stands in front of a token the lexer keeps in mind whether
there is an id with no operator behind it, which is all that this rule looks at.
-/
namespace Shorthand

open Shorthand.Text

theorem Lexer.hasId_eq (before : Bool) (token : Token) :
    hasId before token = (token.id?.isSome || (before && !token.endsElement)) := by
  cases token <;> simp [hasId, Token.id?, Token.endsElement]

/-- The element that some tokens end with has an id: no operator stands behind it. -/
def IdOpen (tokens : List PlacedToken) : Prop :=
  ∃ front one behind, tokens = front ++ one :: behind ∧ one.token.id?.isSome = true ∧
    ∀ placed ∈ behind, placed.token.endsElement = false

/-- Between any two ids there is an operator or a parenthesis. -/
def IdsApart (tokens : List PlacedToken) : Prop :=
  ∀ front one between other back, tokens = front ++ one :: (between ++ other :: back) →
    one.token.id?.isSome = true → other.token.id?.isSome = true →
      ∃ placed ∈ between, placed.token.endsElement = true

theorem IdsApart.not_idOpen {front back : List PlacedToken} {placed : PlacedToken}
    (h : IdsApart (front ++ placed :: back)) (id : placed.token.id?.isSome = true) :
    ¬ IdOpen front := by
  rintro ⟨before, one, behind, rfl, id', inside⟩
  obtain ⟨operator, mem, ends⟩ := h before one behind placed back (by simp) id' id
  rw [inside operator mem] at ends
  cases ends

namespace Lexer

def idBehind (seenId : Bool) (tokens : List PlacedToken) : Bool :=
  tokens.foldl (fun seen placed => hasId seen placed.token) seenId

theorem idBehind_cons (seenId : Bool) (placed : PlacedToken) (rest : List PlacedToken) :
    idBehind seenId (placed :: rest) = idBehind (hasId seenId placed.token) rest := rfl

theorem idBehind_concat (seenId : Bool) (front : List PlacedToken) (last : PlacedToken) :
    idBehind seenId (front ++ [last]) = hasId (idBehind seenId front) last.token := by
  rw [idBehind, List.foldl_append]
  rfl

theorem idBehind_eq_true_iff {tokens : List PlacedToken} :
    idBehind false tokens = true ↔ IdOpen tokens := by
  induction tokens using List.reverseRecOn with
  | nil => simp [idBehind, IdOpen]
  | append_singleton front last ih =>
    rw [idBehind_concat, hasId_eq, Bool.or_eq_true, Bool.and_eq_true, Bool.not_eq_true', ih]
    constructor
    · rintro (id | ⟨⟨before, one, behind, rfl, id, inside⟩, goesOn⟩)
      · exact ⟨front, last, [], rfl, id, by simp⟩
      · refine ⟨before, one, behind ++ [last], by simp, id, ?_⟩
        rw [List.forall_mem_append, List.forall_mem_singleton]
        exact ⟨inside, goesOn⟩
    · rintro ⟨before, one, behind, same, id, inside⟩
      induction behind using List.reverseRecOn with
      | nil =>
        obtain ⟨-, last_eq⟩ := List.append_inj' same rfl
        obtain rfl : last = one := List.singleton_inj.1 last_eq
        exact .inl id
      | append_singleton inner final =>
        rw [← List.cons_append, ← List.append_assoc] at same
        obtain ⟨rfl, last_eq⟩ := List.append_inj' same rfl
        obtain rfl : last = final := List.singleton_inj.1 last_eq
        rw [List.forall_mem_append, List.forall_mem_singleton] at inside
        exact .inr ⟨⟨before, one, inner, rfl, id, inside.1⟩, inside.2⟩

/-! ## Texts with one id for each element -/

variable {pos : Nat} {seenId : Bool} {text : List Char} {tokens : List PlacedToken}

theorem Reads.fresh (h : Reads pos seenId text tokens) {front back : List PlacedToken}
    {placed : PlacedToken} (split : tokens = front ++ placed :: back)
    (id : placed.token.id?.isSome = true) : idBehind seenId front = false := by
  induction h generalizing front with
  | nil => simp at split
  | cons _ fresh _ _ ih =>
    cases front with
    | nil =>
      cases split
      exact fresh id
    | cons before front =>
      cases split
      exact ih rfl

theorem Reads.idsApart (h : Reads pos false text tokens) : IdsApart tokens := by
  intro front one between other back split id id'
  have unread : idBehind false (front ++ one :: between) = false :=
    h.fresh (by rw [split, List.append_assoc, List.cons_append]) id'
  by_contra none
  have opened : IdOpen (front ++ one :: between) := by
    refine ⟨front, one, between, rfl, id, fun placed mem => ?_⟩
    rw [← Bool.not_eq_true]
    exact fun ends => none ⟨placed, mem, ends⟩
  rw [idBehind_eq_true_iff.2 opened] at unread
  cases unread

/-! ## Texts with a second id -/

inductive OwnProblem : Problem → Prop where
  | spelling {problem : SpellingProblem} (other : problem ≠ .secondId) :
      OwnProblem (.spelling problem)
  | multiplier (spelled : String) : OwnProblem (.multiplier spelled)

section Token

variable {c : Char} {text : List Char} {fault : Fault}

theorem ownProblem_of_readName {skipped : Nat} (failed : readName skipped text = .error fault) :
    OwnProblem fault.problem := by
  unfold readName at failed
  dsimp only at failed
  split at failed
  next =>
    cases failed
    exact .spelling (by decide)
  next => cases failed

theorem ownProblem_of_readMarked {make : String → Token} {missing : SpellingProblem}
    (other : missing ≠ .secondId) (failed : readMarked make missing text = .error fault) :
    OwnProblem fault.problem := by
  unfold readMarked at failed
  split at failed
  next =>
    cases failed
    exact .spelling other
  next =>
    split at failed
    next => exact ownProblem_of_readName (Except.map_eq_error_iff.1 failed)
    next =>
      cases failed
      exact .spelling other

theorem ne_secondId_of_readEntries {found : List Attribute} {problem : SpellingProblem}
    {rest : List Char}
    (failed : AttributeBlock.readEntries found text = .error (.entry problem rest)) :
    problem ≠ .secondId := by
  fun_induction AttributeBlock.readEntries found text with
  | case1 => cases failed
  | case2 => cases failed
  | case3 _ _ _ _ _ _ _ _ _ _ _ ih => exact ih failed
  | case4 =>
    cases failed
    decide
  | case5 => cases failed
  | case6 =>
    cases failed
    decide

theorem ownProblem_of_readAttributes (failed : readAttributes text = .error fault) :
    OwnProblem fault.problem := by
  unfold readAttributes at failed
  split at failed
  next => cases failed
  next =>
    cases failed
    exact .spelling (by decide)
  next found =>
    cases failed
    exact .spelling (ne_secondId_of_readEntries found)

theorem ownProblem_of_readText (failed : readText text = .error fault) :
    OwnProblem fault.problem := by
  unfold readText at failed
  split at failed
  next =>
    cases failed
    exact .spelling (by decide)
  next => cases failed

theorem ownProblem_of_readMultiplier (failed : readMultiplier text = .error fault) :
    OwnProblem fault.problem := by
  unfold readMultiplier at failed
  dsimp only at failed
  split at failed
  next =>
    cases failed
    exact .spelling (by decide)
  split at failed
  next =>
    cases failed
    exact .spelling (by decide)
  split at failed
  next => cases failed
  next =>
    cases failed
    exact .multiplier _

/-- A token alone is never the second id of an element. -/
theorem ownProblem_of_readToken (failed : readToken c text = .error fault) :
    OwnProblem fault.problem := by
  unfold readToken at failed
  split at failed
  next => exact ownProblem_of_readMarked (by decide) failed
  next => exact ownProblem_of_readMarked (by decide) failed
  next => exact ownProblem_of_readAttributes failed
  next => exact ownProblem_of_readText failed
  next => exact ownProblem_of_readMultiplier failed
  iterate 5
    next => cases failed
  next =>
    split at failed
    next => exact ownProblem_of_readName (Except.map_eq_error_iff.1 failed)
    next =>
      cases failed
      exact .spelling (by simp)

end Token

/-- Tokens that stand one behind the other at the front of a text, whichever ids they are, and the
text behind them. -/
inductive Scans : Nat → List Char → List PlacedToken → List Char → Prop where
  | nil (pos : Nat) (text : List Char) : Scans pos text [] text
  | cons {pos stop : Nat} {c : Char} {text rest behind : List Char} {token : Token}
      {others : List PlacedToken} (first : readToken c text = .ok (token, rest))
      (stops : stop = pos + (byteSize (c :: text) - byteSize rest))
      (onward : Scans stop rest others behind) :
      Scans pos (c :: text) (⟨token, ⟨pos, stop⟩⟩ :: others) behind

/-- A second id: the element under way has one behind some tokens of a text, and the next token, at
`span`, is an id again. -/
def SecondId (pos : Nat) (seenId : Bool) (text : List Char) (span : Span) : Prop :=
  ∃ front other rest, Scans pos text (front ++ [other]) rest ∧ idBehind seenId front = true ∧
    other.token.id?.isSome = true ∧ other.span = span

theorem SecondId.cons {stop : Nat} {c : Char} {behind rest : List Char} {token : Token}
    {span : Span} (first : readToken c behind = .ok (token, rest))
    (stops : stop = pos + (byteSize (c :: behind) - byteSize rest))
    (h : SecondId stop (hasId seenId token) rest span) : SecondId pos seenId (c :: behind) span := by
  obtain ⟨front, other, after, scans, id, id', same⟩ := h
  exact ⟨_ :: front, other, after, .cons first stops scans, id, id', same⟩

/-- A text is no sequence of tokens because of one token, or because of a second id. -/
theorem ownProblem_or_secondId_of_readTokens {fault : Fault}
    (failed : readTokens pos seenId text = .error fault) :
    OwnProblem fault.problem ∨
      fault.problem = .spelling .secondId ∧ SecondId pos seenId text fault.span := by
  fun_induction readTokens pos seenId text with
  | case1 => cases failed
  | case2 _ _ _ _ _ first =>
    have own := ownProblem_of_readToken first
    cases failed
    exact .inl own
  | case3 pos seenId c behind token rest first _ stop placed _ checked =>
    cases failed
    obtain ⟨seen, id, rfl⟩ := checkId_error checked
    exact .inr ⟨rfl, [], placed, rest, .cons first rfl (.nil _ _), seen, id, rfl⟩
  | case4 _ _ _ _ _ _ first _ _ _ _ _ later ih =>
    cases failed
    exact (ih later).imp_right (And.imp_right (SecondId.cons first rfl))
  | case5 => cases failed

end Lexer

theorem idsApart_of_lex {source : String} {tokens : List PlacedToken}
    (lexed : lex source = .ok tokens) : IdsApart tokens :=
  (Lexer.reads_of_readTokens lexed).idsApart

end Shorthand
