import Mathlib.Control.Monad.Basic
import Shorthand.Expansion
import Shorthand.Proofs.Token.Faults
import Shorthand.Proofs.Token.Seams

/-! # Splitting a source at an operator

A source that can be split into tokens may be followed by an operator and any other text.  Its tokens
stay as they are, and those of the text, or its error, are what they are for the text alone, placed
behind the operator.
-/
namespace Shorthand

open Shorthand.Lexer

variable {source tail : String} {tokens : List PlacedToken} {c : Char} {operator : Token}

/-- What a source is read as in front of an operator and a text. -/
theorem lex_append_operator (lexed : lex source = .ok tokens)
    (ends : operator? c = some operator) (tail : String) :
    lex (source ++ String.singleton c ++ tail) =
      (shifted (source.utf8ByteSize + 1) (lex tail)).map fun later =>
        tokens ++ ⟨operator, ⟨source.utf8ByteSize, source.utf8ByteSize + 1⟩⟩ :: later := by
  have whole : (source ++ String.singleton c ++ tail).toList =
      source.toList ++ c :: tail.toList := by simp
  have moved := readTokens_shift (source.utf8ByteSize + 1) 0 false tail.toList
  rw [lex, whole, (reads_of_readTokens lexed).readTokens_append ends, Nat.zero_add,
    ← utf8ByteSize_eq_byteSize]
  rw [Nat.add_zero] at moved
  rw [moved, lex]

/-- The offset of a fault behind an operator counts the operator and all characters in front of it. -/
theorem offsetAt_append_operator (ends : operator? c = some operator) {fault : Fault}
    (failed : lex tail = .error fault) (source : String) :
    offsetAt (source ++ String.singleton c ++ tail)
        (source.utf8ByteSize + 1 + fault.span.start) =
      source.length + 1 + offsetAt tail fault.span.start := by
  have bytes : (source ++ String.singleton c).utf8ByteSize = source.utf8ByteSize + 1 := by
    rw [String.utf8ByteSize_append, String.utf8ByteSize_singleton, utf8Size_of_operator? ends]
  have chars : (source ++ String.singleton c).length = source.length + 1 := by simp
  rw [← bytes, ← chars, offsetAt_append (inside_of_lex_error failed).starts]

/-- Behind a source with tokens of its own and an operator, a text has the tokens or the error that it
has alone: the spans move by the bytes of the source and the operator, the offset by their
characters. -/
theorem tokenize_append_operator (tokenized : tokenize source = .ok tokens)
    (ends : operator? c = some operator) (tail : String) :
    (∀ later, tokenize tail = .ok later →
      tokenize (source ++ String.singleton c ++ tail) =
        .ok (tokens ++ ⟨operator, ⟨source.utf8ByteSize, source.utf8ByteSize + 1⟩⟩ ::
          later.map (PlacedToken.shift (source.utf8ByteSize + 1)))) ∧
    ∀ error, tokenize tail = .error error →
      ∃ problem span offset, error = .located ⟨problem, span⟩ offset ∧
        tokenize (source ++ String.singleton c ++ tail) =
          .error (.located ⟨problem, span.shift (source.utf8ByteSize + 1)⟩
            (source.length + 1 + offset)) := by
  have split := lex_append_operator (locate_eq_ok_iff.1 tokenized) ends tail
  refine ⟨fun later read => ?_, fun error failed => ?_⟩
  · rw [tokenize, split, locate_eq_ok_iff.1 read]
    rfl
  · obtain ⟨⟨problem, span⟩, found, rfl⟩ := locate_eq_error_iff.1 failed
    refine ⟨problem, span, _, rfl, ?_⟩
    rw [tokenize, split, found, ← offsetAt_append_operator ends found]
    rfl

/-- The operator stands inside a text block too, and behind a character of two bytes. -/
theorem tokenize_append_operator_braces :
    tokenize "p\x7bé>\x7d" = .ok [⟨.tagName "p", ⟨0, 1⟩⟩, ⟨.text "é>", ⟨1, 6⟩⟩] ∧
      operator? '>' = some .child ∧
        tokenize ("p\x7bé>\x7d" ++ String.singleton '>' ++ "q") =
          .ok [⟨.tagName "p", ⟨0, 1⟩⟩, ⟨.text "é>", ⟨1, 6⟩⟩, ⟨.child, ⟨6, 7⟩⟩,
            ⟨.tagName "q", ⟨7, 8⟩⟩] ∧
        tokenize ("p\x7bé>\x7d" ++ String.singleton '>' ++ "q.") =
          .error (.located ⟨.spelling .missingClassName, ⟨8, 9⟩⟩ 7) := by
  have tokenized : tokenize "p\x7bé>\x7d" = .ok [⟨.tagName "p", ⟨0, 1⟩⟩, ⟨.text "é>", ⟨1, 6⟩⟩] := by
    decide +kernel
  have read : tokenize "q" = .ok [⟨.tagName "q", ⟨0, 1⟩⟩] := by decide +kernel
  have failed : tokenize "q." = .error (.located ⟨.spelling .missingClassName, ⟨1, 2⟩⟩ 1) := by
    decide +kernel
  have ends : operator? '>' = some .child := rfl
  obtain ⟨problem, span, offset, same, moved⟩ :=
    (tokenize_append_operator tokenized ends "q.").2 _ failed
  cases same
  exact ⟨tokenized, ends, (tokenize_append_operator tokenized ends "q").1 _ read, moved⟩

end Shorthand
