import Shorthand.Proofs.Span
import Shorthand.Proofs.Text.Words
import Shorthand.Proofs.Token.Spelling

/-! # Faults of tokens

When a text cannot be split into tokens, characters of the text are to blame.  Some faults are placed
by counting the characters of a name or of the digits of a multiplier; this counts bytes, since these
characters take up one byte each.
-/
namespace Shorthand

open Shorthand.Text

/-! ## Characters of one byte -/

theorem Lexer.utf8Size_of_isWordChar {c : Char} (h : isWordChar c = true) : c.utf8Size = 1 := by
  simp only [isWordChar, Bool.or_eq_true, beq_iff_eq] at h
  rcases h with ((((letter | rfl) | rfl) | rfl) | rfl) | rfl
  · exact utf8Size_of_isAlphanum letter
  all_goals decide

/-! ## Faults inside a block -/

namespace AttributeBlock

variable {text rest : List Char}

/-- The character right before `rest` takes up one byte, so that the bytes in front of `rest` tell its
span. -/
def SingleByteBefore (text rest : List Char) : Prop :=
  ∃ front c, text = front ++ c :: rest ∧ c.utf8Size = 1

theorem SingleByteBefore.append (h : SingleByteBefore text rest) (more : List Char) :
    SingleByteBefore (more ++ text) rest := by
  obtain ⟨front, c, rfl, size⟩ := h
  exact ⟨more ++ front, c, (List.append_assoc ..).symm, size⟩

theorem utf8Size_of_isQuote {c : Char} (h : isQuote c = true) : c.utf8Size = 1 := by
  rw [isQuote, Bool.or_eq_true, beq_iff_eq, beq_iff_eq] at h
  rcases h with rfl | rfl <;> decide

/-- Only an equals sign or a quote can stand where a name has to start. -/
theorem utf8Size_of_not_isNameChar {c : Char} (unblank : isBlank c = false) (inside : c ≠ ']')
    (nameless : isNameChar c = false) : c.utf8Size = 1 := by
  simp only [isNameChar, unblank, Bool.not_false, Bool.true_and, Bool.and_eq_false_iff,
    bne_eq_false_iff_eq, inside, or_false, Bool.not_eq_false'] at nameless
  rcases nameless with rfl | quote
  · decide
  · exact utf8Size_of_isQuote quote

/-- Where a quote ends a name, the quote is to blame. -/
theorem singleByteBefore_of_readEntry (quoted : readEntry text = .quoted rest) :
    SingleByteBefore text rest := by
  unfold readEntry at quoted
  dsimp only at quoted
  split at quoted
  next => split at quoted <;> cases quoted
  next => cases quoted
  next c behind _ start =>
    split at quoted
    next quote =>
      cases quoted
      refine ⟨text.takeWhile isNameChar, c, ?_, utf8Size_of_isQuote quote⟩
      rw [← start, List.takeWhile_append_dropWhile]
    next => cases quoted

theorem singleByteBefore_of_readEntries {found : List Attribute} {problem : SpellingProblem}
    (failed : readEntries found text = .error (.entry problem rest)) :
    SingleByteBefore text rest := by
  fun_induction readEntries found text with
  | case1 => cases failed
  | case2 => cases failed
  | case3 found text c behind start _ named new after entry _ ih =>
    obtain ⟨front, rfl⟩ := suffix_readEntry named entry
    have inner := (ih failed).append (text.takeWhile isBlank ++ c :: front)
    rwa [List.append_assoc, List.cons_append, ← start, List.takeWhile_append_dropWhile] at inner
  | case4 found text c behind start _ named after entry =>
    cases failed
    have inner := (singleByteBefore_of_readEntry entry).append (text.takeWhile isBlank)
    rwa [← start, List.takeWhile_append_dropWhile] at inner
  | case5 => cases failed
  | case6 found text c behind start opened nameless =>
    cases failed
    have unblank : isBlank c = false := by
      have stops := List.head?_dropWhile_not isBlank text
      simpa [start] using stops
    refine ⟨text.takeWhile isBlank, c, ?_, ?_⟩
    · rw [← start, List.takeWhile_append_dropWhile]
    · exact utf8Size_of_not_isNameChar unblank (by simpa using opened) (by simpa using nameless)

end AttributeBlock

/-! ## Faults of a token -/

namespace Lexer

variable {c : Char} {text : List Char} {fault : Fault}

theorem inside_singleton (c : Char) (text : List Char) :
    Span.Inside (c :: text) ⟨0, c.utf8Size⟩ := by
  have covers := Span.inside_append [] [c] text
  rwa [byteSize, byteSize, byteSize, Nat.zero_add, Nat.add_zero] at covers

theorem exists_of_looseModifier? {afterDollar : Bool} {name : List Char} {index : Nat}
    (loose : looseModifier? afterDollar name = some index) :
    ∃ front back, name = front ++ '@' :: back ∧ front.length = index := by
  induction name generalizing afterDollar index with
  | nil => cases loose
  | cons c rest ih =>
    rw [looseModifier?] at loose
    split at loose
    next here =>
      cases loose
      simp only [Bool.and_eq_true, beq_iff_eq] at here
      exact ⟨[], rest, by rw [here.1]; rfl, rfl⟩
    next =>
      obtain ⟨inner, later, rfl⟩ := Option.map_eq_some_iff.1 loose
      obtain ⟨front, back, rfl, rfl⟩ := ih later
      exact ⟨c :: front, back, rfl, rfl⟩

/-- In a name, a modifier that follows no placeholder is to blame. -/
theorem exists_of_readName_error {skipped : Nat} (failed : readName skipped text = .error fault) :
    ∃ front back, text = front ++ '@' :: back ∧
      fault.span = ⟨skipped + byteSize front, skipped + byteSize front + 1⟩ := by
  unfold readName at failed
  dsimp only at failed
  split at failed
  next index loose =>
    cases failed
    obtain ⟨front, back, split, rfl⟩ := exists_of_looseModifier? loose
    have single : byteSize front = front.length := byteSize_eq_length fun c mem =>
      utf8Size_of_isWordChar (List.all_eq_true.1 List.all_takeWhile c
        (by rw [split]; exact List.mem_append_left _ mem))
    refine ⟨front, back ++ text.dropWhile isWordChar, ?_, by rw [single]⟩
    rw [← List.cons_append, ← List.append_assoc, ← split, List.takeWhile_append_dropWhile]
  next => cases failed

theorem inside_of_readMarked {make : String → Token} {missing : SpellingProblem}
    (single : c.utf8Size = 1) (failed : readMarked make missing text = .error fault) :
    fault.span.Inside (c :: text) := by
  have mark := inside_singleton c text
  rw [single] at mark
  unfold readMarked at failed
  split at failed
  next =>
    cases failed
    exact mark
  next =>
    split at failed
    next =>
      obtain ⟨front, back, split, span⟩ :=
        exists_of_readName_error (Except.map_eq_error_iff.1 failed)
      have covers := Span.inside_append (c :: front) ['@'] back
      rw [span, split]
      rwa [byteSize, single] at covers
    next =>
      cases failed
      exact mark

theorem inside_of_readAttributes (failed : readAttributes text = .error fault) :
    fault.span.Inside ('[' :: text) := by
  unfold readAttributes at failed
  split at failed
  next => cases failed
  next =>
    cases failed
    exact inside_singleton '[' text
  next problem rest found =>
    cases failed
    obtain ⟨front, c, rfl, single⟩ := AttributeBlock.singleByteBefore_of_readEntries found
    have covers := (inside_singleton c rest).shift ('[' :: front)
    have start : byteSize ('[' :: front) = 1 + byteSize front := rfl
    have stop : byteSize (front ++ c :: rest) - byteSize rest = byteSize front + 1 := by
      rw [byteSize_append, byteSize, single]
      omega
    rw [start, single] at covers
    rwa [stop, ← Nat.add_assoc, Nat.add_sub_cancel]

theorem inside_of_readText (failed : readText text = .error fault) :
    fault.span.Inside ('{' :: text) := by
  unfold readText at failed
  split at failed
  next =>
    cases failed
    exact inside_singleton '{' text
  next => cases failed

/-- The star of a multiplier and the digits behind it are to blame together. -/
theorem inside_of_readMultiplier (failed : readMultiplier text = .error fault) :
    fault.span.Inside ('*' :: text) := by
  have digits : Span.Inside ('*' :: text) ⟨0, 1 + (text.takeWhile Char.isDigit).length⟩ := by
    have covers := Span.inside_append [] ('*' :: text.takeWhile Char.isDigit)
      (text.dropWhile Char.isDigit)
    have single : byteSize (text.takeWhile Char.isDigit) = (text.takeWhile Char.isDigit).length :=
      byteSize_eq_length fun c mem =>
        utf8Size_of_isDigit (List.all_eq_true.1 List.all_takeWhile c mem)
    rw [List.nil_append, List.cons_append, List.takeWhile_append_dropWhile] at covers
    rwa [byteSize, byteSize, single, Nat.zero_add] at covers
  unfold readMultiplier at failed
  dsimp only at failed
  split at failed
  next =>
    cases failed
    exact digits
  next =>
    split at failed
    next =>
      cases failed
      exact digits
    next =>
      split at failed
      next => cases failed
      next =>
        cases failed
        exact digits

theorem inside_of_readToken (failed : readToken c text = .error fault) :
    fault.span.Inside (c :: text) := by
  unfold readToken at failed
  split at failed
  next => exact inside_of_readMarked (by decide) failed
  next => exact inside_of_readMarked (by decide) failed
  next => exact inside_of_readAttributes failed
  next => exact inside_of_readText failed
  next => exact inside_of_readMultiplier failed
  iterate 5
    next => cases failed
  next =>
    split at failed
    next word =>
      obtain ⟨front, back, split, span⟩ :=
        exists_of_readName_error (Except.map_eq_error_iff.1 failed)
      have covers := Span.inside_append front ['@'] back
      rw [span, split, Nat.zero_add]
      exact covers
    next =>
      cases failed
      exact inside_singleton c text

/-! ## Faults of a text -/

theorem checkId_error {seenId : Bool} {placed : PlacedToken}
    (failed : checkId seenId placed = .error fault) :
    seenId = true ∧ placed.token.id?.isSome = true ∧ fault = ⟨.spelling .secondId, placed.span⟩ := by
  unfold checkId at failed
  split at failed
  next id =>
    split at failed
    next seen =>
      cases failed
      exact ⟨seen, by rw [id]; rfl, rfl⟩
    next => cases failed
  next => cases failed

/-- What is to blame for a text that cannot be split into tokens stands in the text. -/
theorem exists_of_readTokens_error {pos : Nat} {seenId : Bool}
    (failed : readTokens pos seenId text = .error fault) :
    ∃ span : Span, span.Inside text ∧ fault.span = span.shift pos := by
  fun_induction readTokens pos seenId text with
  | case1 => cases failed
  | case2 pos seenId c behind fault' first =>
    cases failed
    exact ⟨fault'.span, inside_of_readToken first, rfl⟩
  | case3 pos seenId c behind token rest first _ stop placed fault' checked =>
    cases failed
    obtain ⟨-, -, rfl⟩ := checkId_error checked
    obtain ⟨spelling, split, -, -, size⟩ := exists_spelling_of_readToken first
    have covers := Span.inside_append [] spelling rest
    rw [List.nil_append, ← split, ← size] at covers
    refine ⟨_, covers, ?_⟩
    rw [byteSize, Nat.zero_add]
    rfl
  | case4 pos seenId c behind token rest first _ stop placed checked fault' later ih =>
    cases failed
    obtain ⟨span, inside, shifted⟩ := ih later
    obtain ⟨spelling, split, -, -, size⟩ := exists_spelling_of_readToken first
    have moved := inside.shift spelling
    rw [← split, ← size] at moved
    refine ⟨_, moved, ?_⟩
    rw [shifted]
    simp only [Span.shift, stop, Nat.add_assoc]
  | case5 => cases failed

end Lexer

theorem inside_of_lex_error {source : String} {fault : Fault} (failed : lex source = .error fault) :
    fault.span.Inside source.toList := by
  obtain ⟨span, inside, shifted⟩ := Lexer.exists_of_readTokens_error failed
  rw [shifted, Span.shift, Nat.zero_add, Nat.zero_add]
  exact inside

end Shorthand
