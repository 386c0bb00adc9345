import Shorthand.Proofs.Abbreviation.Places
import Shorthand.Proofs.Abbreviation.Weight
import Shorthand.Proofs.Expansion
import Shorthand.Proofs.Token.Faults

/-! # Places of faults

Whichever step of an expansion fails, the error is placed inside the abbreviation: some of its
characters are to blame, or none of them where the input ends too early, and the offset counts the
characters in front of that place.
-/
namespace Shorthand

/-- An error placed at some characters of a source, with the number of those in front. -/
inductive Error.PlacedIn (source : String) : Error → Prop where
  | intro (problem : Problem) {front blamed back : List Char}
      (split : source.toList = front ++ (blamed ++ back)) :
      PlacedIn source
        (.located ⟨problem, ⟨byteSize front, byteSize (front ++ blamed)⟩⟩ front.length)

section Faults

variable {source : String} {error : Error} {options : Options}

/-- The byte position of a fault inside the source is never taken for its offset. -/
theorem placedIn_of_inside (problem : Problem) {span : Span} (inside : span.Inside source.toList) :
    Error.PlacedIn source (.located ⟨problem, span⟩ (offsetAt source span.start)) := by
  obtain ⟨front, blamed, back, split, start, stop⟩ := inside.exists_eq
  obtain rfl : span = ⟨byteSize front, byteSize (front ++ blamed)⟩ := by rw [start, stop]
  have offset : offsetAt source (byteSize front) = front.length := by
    rw [offsetAt, split, charsBefore_byteSize, Option.getD_some]
  rw [offset]
  exact .intro problem split

theorem placedIn_of_locate {α : Type} {result : Except Fault α}
    (inside : ∀ fault, result = .error fault → fault.span.Inside source.toList)
    (failed : locate source result = .error error) : error.PlacedIn source := by
  obtain ⟨fault, found, rfl⟩ := locate_eq_error_iff.1 failed
  exact placedIn_of_inside fault.problem (inside fault found)

theorem placedIn_of_parseAbbreviation {maxDepth : Nat}
    (failed : parseAbbreviation source maxDepth = .error error) : error.PlacedIn source := by
  rcases Except.bind_eq_error_iff.1 failed with lexing | ⟨tokens, tokenized, parsing⟩
  · exact placedIn_of_locate (fun _ => inside_of_lex_error) lexing
  · exact placedIn_of_locate (fun _ => inside_of_parseTokens_error tokenized) parsing

/-- A limit is exceeded by a node, which has a place of its own. -/
theorem placedIn_of_unrollNodes {limit : Nat} {forest : Abbreviation}
    (inside : ∀ head ∈ Tree.labelsAll forest, head.span.Inside source.toList)
    (failed : unrollNodes source limit forest = .error (.reported error)) :
    error.PlacedIn source := by
  rcases exists_of_unrollNodes_error failed with crash | ⟨head, mem, same⟩
  · cases crash
  · cases same
    exact placedIn_of_inside _ (inside head mem)

theorem placedIn_of_expandTree (failed : expandTree source options = .error (.reported error)) :
    options.validate = .error error ∨ error.PlacedIn source := by
  cases failsAt_of_expandTree failed with
  | checking failed => exact .inl failed
  | reading failed => exact .inr (placedIn_of_parseAbbreviation failed)
  | unrolling parsed failed =>
    obtain ⟨tokens, tokenized, parsed⟩ := Except.bind_eq_ok_iff.1 parsed
    have inside := inside_of_parseTokens tokenized (locate_eq_ok_iff.1 parsed)
    exact .inr (placedIn_of_unrollNodes inside failed)

theorem kind_of_validate (failed : options.validate = .error error) : error.kind = .option := by
  unfold Options.validate at failed
  split at failed
  next =>
    cases failed
    rfl
  next =>
    split at failed <;> cases failed
    rfl

/-- An error in the spelling, the grammar, a limit or a multiplier of an abbreviation has a span that
starts and ends between two characters of it, and its offset is the number of characters in front of
that span. -/
theorem expandTree_error_inside (failed : expandTree source options = .error (.reported error))
    (positioned : error.kind = .spelling ∨ error.kind = .grammar ∨ error.kind = .limit ∨
      error.kind = .multiplier) :
    ∃ span front blamed back, error.span? = some span ∧ error.offset? = some front.length ∧
      source.toList = front ++ (blamed ++ back) ∧
        span.start = byteSize front ∧ span.stop = byteSize (front ++ blamed) ∧
          span.start ≤ span.stop ∧ span.stop ≤ source.utf8ByteSize ∧
            charsBefore source.toList span.start = some front.length := by
  rcases placedIn_of_expandTree failed with checked | placed
  · rw [kind_of_validate checked] at positioned
    simp at positioned
  cases placed with
  | @intro problem front blamed back split =>
    refine ⟨_, front, blamed, back, rfl, rfl, split, rfl, rfl, ?_, ?_, ?_⟩
    · rw [byteSize_append]
      exact Nat.le_add_right _ _
    · rw [utf8ByteSize_eq_byteSize, split, ← List.append_assoc, byteSize_append _ back]
      exact Nat.le_add_right _ _
    · rw [split, charsBefore_byteSize]

end Faults

/-- A quote behind two characters of two bytes each, inside a block. -/
theorem expandTree_error_inside_quote :
    expandTree "p\x7bé\x7d>[ü\"x]" {} =
        .error (.reported (.located ⟨.spelling .quoteInName, ⟨9, 10⟩⟩ 7)) ∧
      ∃ front blamed back, front.length = 7 ∧
        "p\x7bé\x7d>[ü\"x]".toList = front ++ (blamed ++ back) ∧
          9 = byteSize front ∧ 10 = byteSize (front ++ blamed) ∧ 9 ≤ 10 ∧ 10 ≤ 12 ∧
            charsBefore "p\x7bé\x7d>[ü\"x]".toList 9 = some front.length := by
  have shown : (expandTree "p\x7bé\x7d>[ü\"x]" {}).map (fun _ => ()) =
      .error (.reported (.located ⟨.spelling .quoteInName, ⟨9, 10⟩⟩ 7)) := by decide +kernel
  have failed := Except.map_eq_error_iff.1 shown
  obtain ⟨span, front, blamed, back, same, offset, inside⟩ :=
    expandTree_error_inside failed (.inl rfl)
  cases same
  exact ⟨failed, front, blamed, back, (Option.some.inj offset).symm, inside⟩

end Shorthand
