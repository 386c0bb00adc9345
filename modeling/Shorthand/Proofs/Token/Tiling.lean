import Mathlib.Data.List.Chain
import Shorthand.Expansion
import Shorthand.Proofs.Span
import Shorthand.Proofs.Token.Seams
import Shorthand.Proofs.Token.Spelling

/-! # Tokens tile the source

Nothing of a source is lost when it is split into tokens.  Their spans follow each other without a
gap from the first byte to the last, and the characters of each span spell the token.
-/
namespace Shorthand

/-- Tokens that make up a text from the byte `pos` on, one behind the other. -/
inductive Tiles : Nat → List Char → List PlacedToken → Prop where
  | nil (pos : Nat) : Tiles pos [] []
  | cons {pos : Nat} {spelling rest : List Char} {token : Token} {others : List PlacedToken}
      (nonempty : spelling ≠ []) (spelled : token.SpelledAs spelling rest)
      (onward : Tiles (pos + byteSize spelling) rest others) :
      Tiles pos (spelling ++ rest) (⟨token, ⟨pos, pos + byteSize spelling⟩⟩ :: others)

theorem Lexer.Reads.tiles {pos : Nat} {seenId : Bool} {text : List Char}
    {tokens : List PlacedToken} (h : Reads pos seenId text tokens) : Tiles pos text tokens := by
  induction h with
  | nil => exact .nil _
  | @cons pos stop seenId c text rest token others first _ stops _ ih =>
    obtain ⟨spelling, split, nonempty, spelled, size⟩ := exists_spelling_of_readToken first
    rw [size] at stops
    subst stops
    rw [split]
    exact .cons nonempty spelled ih

theorem tiles_of_tokenize {source : String} {tokens : List PlacedToken}
    (tokenized : tokenize source = .ok tokens) : Tiles 0 source.toList tokens :=
  (Lexer.reads_of_readTokens (locate_eq_ok_iff.1 tokenized)).tiles

namespace Tiles

variable {pos : Nat} {text : List Char} {tokens : List PlacedToken}

theorem start_eq (h : Tiles pos text tokens) : ∀ first ∈ tokens.head?, first.span.start = pos := by
  cases h <;> simp

theorem isChain (h : Tiles pos text tokens) :
    tokens.IsChain fun one next => next.span.start = one.span.stop := by
  induction h with
  | nil => exact .nil
  | cons _ _ onward ih => exact List.isChain_cons.2 ⟨onward.start_eq, ih⟩

theorem stop_eq (h : Tiles pos text tokens) :
    (tokens.getLast?.map (·.span.stop)).getD pos = pos + byteSize text := by
  induction h with
  | nil => rfl
  | @cons pos spelling rest token others _ _ onward ih =>
    rw [byteSize_append, ← Nat.add_assoc, ← ih, List.getLast?_cons]
    cases others.getLast? <;> rfl

/-- Every token is spelled in some place, which its span covers. -/
theorem exists_spelling (h : Tiles pos text tokens) :
    ∀ placed ∈ tokens, ∃ front spelling back, text = front ++ (spelling ++ back) ∧
      placed.span = ⟨pos + byteSize front, pos + byteSize front + byteSize spelling⟩ ∧
        spelling ≠ [] ∧ placed.token.SpelledAs spelling back := by
  induction h with
  | nil => simp
  | @cons pos spelling rest token others nonempty spelled _ ih =>
    rw [List.forall_mem_cons]
    refine ⟨⟨[], spelling, rest, rfl, rfl, nonempty, spelled⟩, fun placed mem => ?_⟩
    obtain ⟨front, own, back, rfl, span, some, spelled'⟩ := ih placed mem
    refine ⟨spelling ++ front, own, back, (List.append_assoc ..).symm, ?_, some, spelled'⟩
    rw [span, byteSize_append, Nat.add_assoc]

end Tiles

/-- The tokens of a source go from its first byte to its last without gaps, every span starts and ends
between two characters, and what stands between them spells the token. -/
theorem tokenize_lossless {source : String} {tokens : List PlacedToken}
    (tokenized : tokenize source = .ok tokens) :
    (∀ first ∈ tokens.head?, first.span.start = 0) ∧
      (tokens.IsChain fun one next => next.span.start = one.span.stop) ∧
        (tokens.getLast?.map (·.span.stop)).getD 0 = source.utf8ByteSize ∧
          ∀ placed ∈ tokens, ∃ front spelling back, source.toList = front ++ (spelling ++ back) ∧
            placed.span = ⟨byteSize front, byteSize (front ++ spelling)⟩ ∧ spelling ≠ [] ∧
              placed.token.SpelledAs spelling back := by
  have tiles := tiles_of_tokenize tokenized
  refine ⟨tiles.start_eq, tiles.isChain, ?_, fun placed mem => ?_⟩
  · rw [tiles.stop_eq, Nat.zero_add, utf8ByteSize_eq_byteSize]
  · obtain ⟨front, spelling, back, split, span, nonempty, spelled⟩ :=
      tiles.exists_spelling placed mem
    refine ⟨front, spelling, back, split, ?_, nonempty, spelled⟩
    rw [span, Nat.zero_add, byteSize_append]

/-- A closing bracket between quotes, characters of two bytes and a count with a zero in front. -/
theorem tokenize_lossless_quoted :
    ∃ tokens, tokenize "p[t='é] ' u]\x7bü\x7d*03>.a" = .ok tokens ∧
      tokens.map (·.span) = [⟨0, 1⟩, ⟨1, 13⟩, ⟨13, 17⟩, ⟨17, 20⟩, ⟨20, 21⟩, ⟨21, 23⟩] ∧
        (∀ first ∈ tokens.head?, first.span.start = 0) ∧
          (tokens.IsChain fun one next => next.span.start = one.span.stop) ∧
            (tokens.getLast?.map (·.span.stop)).getD 0 = 23 ∧
              ∀ placed ∈ tokens, ∃ front spelling back,
                "p[t='é] ' u]\x7bü\x7d*03>.a".toList = front ++ (spelling ++ back) ∧
                  placed.span = ⟨byteSize front, byteSize (front ++ spelling)⟩ ∧ spelling ≠ [] ∧
                    placed.token.SpelledAs spelling back := by
  have spans : (tokenize "p[t='é] ' u]\x7bü\x7d*03>.a").toOption.map
      (fun tokens => tokens.map (·.span)) =
        some [⟨0, 1⟩, ⟨1, 13⟩, ⟨13, 17⟩, ⟨17, 20⟩, ⟨20, 21⟩, ⟨21, 23⟩] := by decide +kernel
  obtain ⟨tokens, tokenized, spans⟩ := Except.exists_of_toOption_map spans
  obtain ⟨start, chain, stop, spelled⟩ := tokenize_lossless tokenized
  exact ⟨tokens, tokenized, spans, start, chain, stop, spelled⟩

end Shorthand
