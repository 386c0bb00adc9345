import Mathlib.Control.Monad.Basic
import Shorthand.Expansion
import Shorthand.Proofs.Abbreviation.ParserSteps

/-! # The first token at fault

Tokens are read from left to right, and the first one that cannot be read decides what is reported.
No token behind it matters, and the tokens in front of it are not at fault themselves: if the input
ended among them, only what is still missing or an element as a whole could be to blame.
-/
namespace Shorthand

open Shorthand.Parser

/-- Problems with one token: it cannot stand where it does, repeats a part of its element, climbs or
closes what is not open, or opens a level too many. -/
inductive Problem.OfToken : Problem → Prop where
  | expectedElement (found : Token) : OfToken (.grammar (.expectedElement (some found)))
  | expectedOperator (found : Token) : OfToken (.grammar (.expectedOperator found))
  | repeatedPart (part : Part) : OfToken (.grammar (.repeatedPart part))
  | climbAtRoot : OfToken (.grammar .climbAtRoot)
  | unopenedGroup : OfToken (.grammar .unopenedGroup)
  | levels (most : Nat) : OfToken (.limit most .levels)

/-- Problems that can show where the input ends: an element or a parenthesis is missing, or the
modifiers of the last element differ. -/
inductive Problem.OfEnd : Problem → Prop where
  | endOfInput : OfEnd (.grammar (.expectedElement none))
  | unclosedGroup : OfEnd (.grammar .unclosedGroup)
  | conflictingNumbering : OfEnd (.grammar .conflictingNumbering)

theorem Problem.OfToken.not_ofEnd {problem : Problem} (h : problem.OfToken) : ¬ problem.OfEnd := by
  cases h <;> nofun

namespace Parser

variable {maxDepth : Nat} {tokens : List PlacedToken} {fault : Fault}

theorem Item.Conflicts.ofEnd {item : Item} (h : item.Conflicts fault) : fault.problem.OfEnd := by
  cases h
  exact .conflictingNumbering

theorem State.Unfinished.ofEnd {state : State} {stop : Nat} (h : state.Unfinished stop fault) :
    fault.problem.OfEnd := by
  cases h with
  | missing => exact .endOfInput
  | conflict conflicts => exact conflicts.ofEnd
  | unclosed => exact .unclosedGroup

/-- The tokens in front of an index are read, and the token there is the one that cannot be read. -/
def FailsAt (maxDepth : Nat) (tokens : List PlacedToken) (k : Nat) (fault : Fault) : Prop :=
  ∃ state placed, State.run maxDepth {} (tokens.take k) = .ok state ∧ tokens[k]? = some placed ∧
    state.step maxDepth placed = .error fault ∧ fault.span = placed.span

theorem State.exists_of_run_error {state : State} (h : run maxDepth state tokens = .error fault) :
    ∃ front placed back middle, tokens = front ++ placed :: back ∧
      run maxDepth state front = .ok middle ∧ middle.step maxDepth placed = .error fault := by
  induction tokens generalizing state with
  | nil => cases h
  | cons placed rest ih =>
    rcases Except.bind_eq_error_iff.1 h with here | ⟨next, step, later⟩
    · exact ⟨[], placed, rest, state, rfl, rfl, here⟩
    · obtain ⟨front, first, back, middle, rfl, reads, failed⟩ := ih later
      refine ⟨placed :: front, first, back, middle, rfl, ?_, failed⟩
      rw [run_cons, step]
      exact reads

/-- A fault of a token is found while the tokens are read: those in front of one are read, and this
one is rejected. -/
theorem exists_rejects {stop : Nat} (failed : parseTokens stop maxDepth tokens = .error fault)
    (ofToken : fault.problem.OfToken) :
    ∃ front placed back state, tokens = front ++ placed :: back ∧
      State.run maxDepth {} front = .ok state ∧ state.step maxDepth placed = .error fault ∧
        Rejects maxDepth state placed fault := by
  rcases Except.bind_eq_error_iff.1 failed with reading | ⟨last, -, ending⟩
  · obtain ⟨front, placed, back, state, rfl, reads, step⟩ := State.exists_of_run_error reading
    rcases State.rejects_of_step step with rejects | conflicts
    · exact ⟨front, placed, back, state, rfl, reads, step, rejects⟩
    · exact absurd conflicts.ofEnd ofToken.not_ofEnd
  · exact absurd (State.finish_error ending).ofEnd ofToken.not_ofEnd

theorem exists_failsAt {stop : Nat} (failed : parseTokens stop maxDepth tokens = .error fault)
    (ofToken : fault.problem.OfToken) : ∃ k, FailsAt maxDepth tokens k fault := by
  obtain ⟨front, placed, back, state, rfl, reads, step, rejects⟩ := exists_rejects failed ofToken
  refine ⟨front.length, state, placed, ?_, ?_, step, ?_⟩
  · rw [List.take_left, reads]
  · simp
  · cases rejects <;> rfl

/-- What stands behind the token that fails does not matter. -/
theorem FailsAt.parseTokens_eq {k stop : Nat} {other : List PlacedToken}
    (h : FailsAt maxDepth tokens k fault) (agree : ∀ i ≤ k, other[i]? = tokens[i]?) :
    parseTokens stop maxDepth other = .error fault := by
  obtain ⟨state, placed, reads, found, step, -⟩ := h
  have front : other.take k = tokens.take k := by
    refine List.ext_getElem? fun i => ?_
    rw [List.getElem?_take, List.getElem?_take]
    split
    next before => exact agree i (Nat.le_of_lt before)
    next => rfl
  have split : other = tokens.take k ++ placed :: other.drop (k + 1) := by
    rw [← agree k (Nat.le_refl k)] at found
    obtain ⟨inside, rfl⟩ := List.getElem?_eq_some_iff.1 found
    rw [← front, ← List.drop_eq_getElem_cons inside, List.take_append_drop]
  rw [parseTokens, split, State.run_append, reads]
  show (State.run maxDepth state (placed :: _)).bind _ = _
  rw [State.run_cons, step]
  rfl

/-- In front of the token that fails only the end of the input can be at fault. -/
theorem FailsAt.ofEnd_of_take {j k stop : Nat} {fault' : Fault}
    (h : FailsAt maxDepth tokens k fault) (front : j ≤ k)
    (failed : parseTokens stop maxDepth (tokens.take j) = .error fault') :
    fault'.problem.OfEnd := by
  obtain ⟨state, placed, reads, -⟩ := h
  obtain ⟨more, rfl⟩ := Nat.exists_eq_add_of_le front
  rw [List.take_add, State.run_append] at reads
  obtain ⟨middle, first, -⟩ := Except.bind_eq_ok_iff.1 reads
  rw [parseTokens, first] at failed
  exact (State.finish_error failed).ofEnd

end Parser

/-- An error of a single token depends on the tokens up to this one only: all tokens that start in
the same way have the same error, and those in front of it, as far as they are taken, are parsed or
have an error of another sort. -/
theorem parse_error_of_front {source : String} {maxDepth : Nat} {tokens : List PlacedToken}
    {fault : Fault} {offset : Nat}
    (failed : parse source maxDepth tokens = .error (.located fault offset))
    (ofToken : fault.problem.OfToken) :
    ∃ k, FailsAt maxDepth tokens k fault ∧
      (∀ other : List PlacedToken, (∀ i ≤ k, other[i]? = tokens[i]?) →
        parse source maxDepth other = .error (.located fault offset)) ∧
      ∀ j ≤ k, (∃ forest, parse source maxDepth (tokens.take j) = .ok forest) ∨
        ∃ fault' offset', parse source maxDepth (tokens.take j) = .error (.located fault' offset') ∧
          fault'.problem.OfEnd := by
  obtain ⟨fault, found, same⟩ := locate_eq_error_iff.1 failed
  cases same
  obtain ⟨k, fails⟩ := exists_failsAt found ofToken
  refine ⟨k, fails, fun other agree => ?_, fun j front => ?_⟩
  · exact locate_eq_error_iff.2 ⟨fault, fails.parseTokens_eq agree, rfl⟩
  · cases parsed : parse source maxDepth (tokens.take j) with
    | ok forest => exact .inl ⟨forest, rfl⟩
    | error error =>
      obtain ⟨fault', failed', rfl⟩ := locate_eq_error_iff.1 parsed
      exact .inr ⟨fault', _, rfl, fails.ofEnd_of_take front failed'⟩

/-- Whatever stands behind a parenthesis that closes nothing, and what is missing in front of it. -/
theorem parse_error_of_front_closing :
    let tokens : List PlacedToken := [⟨.tagName "a", ⟨0, 1⟩⟩, ⟨.child, ⟨1, 2⟩⟩,
      ⟨.tagName "b", ⟨2, 3⟩⟩, ⟨.closeGroup, ⟨3, 4⟩⟩]
    (∀ behind, parse "a>b)c" 5 (tokens ++ behind) =
      .error (.located ⟨.grammar .unopenedGroup, ⟨3, 4⟩⟩ 3)) ∧
        ∃ fault offset, parse "a>b)c" 5 (tokens.take 2) = .error (.located fault offset) ∧
          fault.problem.OfEnd := by
  intro tokens
  have failed : (parse "a>b)c" 5 tokens).map (fun _ => ()) =
      .error (.located ⟨.grammar .unopenedGroup, ⟨3, 4⟩⟩ 3) := by decide +kernel
  obtain ⟨k, ⟨state, placed, -, found, -, span⟩, same, front⟩ :=
    parse_error_of_front (Except.map_eq_error_iff.1 failed) .unopenedGroup
  have index : k = 3 := by
    have only : ∀ i < 4, tokens[i]?.map (·.span) = some ⟨3, 4⟩ → i = 3 := by decide
    obtain ⟨inside, -⟩ := List.getElem?_eq_some_iff.1 found
    exact only k inside (by rw [found, Option.map_some, ← span])
  subst index
  refine ⟨fun behind => same _ fun i before => ?_, ?_⟩
  · exact List.getElem?_append_left (Nat.lt_succ_of_le before)
  · have unread : (parse "a>b)c" 5 (tokens.take 2)).toOption.map (fun _ => ()) = none := by
      decide +kernel
    rcases front 2 (by omega) with ⟨forest, ok⟩ | ended
    · rw [ok] at unread
      cases unread
    · exact ended

end Shorthand
