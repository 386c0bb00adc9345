import Shorthand.Expansion
import Shorthand.Proofs.Token.Reading
import Shorthand.Proofs.Token.Seams

/-! # Displaying tokens that were read

The tokens of a source are displayed in one normal spelling: values between double quotes, one blank
between attributes, no zeros in front of a count.  Nothing stands between two displayed tokens, and
still they are told apart, since each of them starts with the character that it started with in the
source.
-/
namespace Shorthand

open Shorthand.Text

/-- No value in the token holds the quote that values are displayed with. -/
def Token.Unquoted (token : Token) : Prop :=
  ∀ entries ∈ token.attributes?, ∀ entry ∈ entries, ∀ value ∈ entry.value, '"' ∉ value.toList

instance (token : Token) : Decidable token.Unquoted :=
  inferInstanceAs (Decidable (∀ entries ∈ token.attributes?, ∀ entry ∈ entries,
    ∀ value ∈ entry.value, '"' ∉ value.toList))

/-- However a token is spelled, it is displayed with the same character first. -/
theorem Token.SpelledAs.head?_display {token : Token} {spelling behind : List Char}
    (h : token.SpelledAs spelling behind) : token.display.toList.head? = spelling.head? := by
  cases token with
  | tagName | className | idName | child | sibling | climb | openGroup | closeGroup =>
    cases h
    simp [Token.display]
  | attributes =>
    obtain ⟨inside, rfl, -⟩ := h
    simp [Token.display]
  | text =>
    obtain ⟨rfl, -⟩ := h
    simp [Token.display]
  | multiplier =>
    obtain ⟨digits, rfl, -⟩ := h
    simp [Token.display]

namespace Lexer

variable {c : Char} {text rest : List Char} {token : Token}

/-! ## One token -/

theorem head?_display_of_readToken (read : readToken c text = .ok (token, rest)) :
    token.display.toList.head? = some c := by
  obtain ⟨spelling, split, nonempty, spelled, -⟩ := exists_spelling_of_readToken read
  obtain ⟨first, more, rfl⟩ := List.exists_cons_of_ne_nil nonempty
  cases split
  exact spelled.head?_display

theorem stop_of_readMarked {make : String → Token} {missing : SpellingProblem}
    (makes : ∀ name, (make name).goesOn = isWordChar)
    (read : readMarked make missing text = .ok (token, rest)) :
    ∀ d ∈ rest.head?, token.goesOn d = false := by
  unfold readMarked at read
  split at read
  next => cases read
  next =>
    split at read
    next =>
      obtain ⟨⟨name, after⟩, named, same⟩ := Except.map_eq_ok_iff.1 read
      cases same
      rw [rest_readName named, makes]
      exact stop_dropWhile isWordChar _
    next => cases read

theorem stop_of_readMultiplier (read : readMultiplier text = .ok (token, rest)) :
    ∀ d ∈ rest.head?, token.goesOn d = false := by
  unfold readMultiplier at read
  dsimp only at read
  split at read
  next => cases read
  split at read
  next => cases read
  split at read
  next =>
    cases read
    exact stop_dropWhile Char.isDigit text
  next => cases read

theorem stop_of_readToken (read : readToken c text = .ok (token, rest)) :
    ∀ d ∈ rest.head?, token.goesOn d = false := by
  unfold readToken at read
  split at read
  next => exact stop_of_readMarked (fun _ => rfl) read
  next => exact stop_of_readMarked (fun _ => rfl) read
  next =>
    obtain ⟨entries, inside, rfl, -⟩ := exists_of_readAttributes read
    exact fun _ _ => rfl
  next =>
    obtain ⟨content, rfl, -⟩ := exists_of_readText read
    exact fun _ _ => rfl
  next => exact stop_of_readMultiplier read
  iterate 5
    next =>
      cases read
      exact fun _ _ => rfl
  next =>
    split at read
    next =>
      obtain ⟨⟨name, after⟩, named, same⟩ := Except.map_eq_ok_iff.1 read
      cases same
      rw [rest_readName named]
      exact stop_dropWhile isWordChar _
    next => cases read

theorem legible_of_readToken (read : readToken c text = .ok (token, rest))
    (unquoted : token.Unquoted) : token.Legible := by
  have sound := sound_of_readToken read
  cases token with
  | tagName | className | idName => exact sound
  | attributes entries =>
    refine ⟨fun entry mem => ?_, sound.distinct⟩
    exact ⟨(sound.named entry mem).nonempty, (sound.named entry mem).inside,
      unquoted entries rfl entry mem⟩
  | text content =>
    obtain ⟨spelling, -, spelled⟩ := spelled_of_readToken read
    exact spelled.2
  | multiplier count => exact fun zero => counted_of_readToken read (by rw [zero])
  | child | sibling | climb | openGroup | closeGroup => trivial

/-! ## All tokens -/

variable {pos : Nat} {seenId : Bool} {tokens : List PlacedToken}

/-- What is displayed starts as the source does. -/
theorem Reads.head?_display (h : Reads pos seenId text tokens) :
    (tokens.flatMap (·.token.display.toList)).head? = text.head? := by
  cases h with
  | nil => rfl
  | cons first =>
    have shown := head?_display_of_readToken first
    rw [List.flatMap_cons, List.head?_append, shown]
    rfl

/-- Displayed tokens are read back wherever they stand. -/
theorem Reads.readTokens_display (h : Reads pos seenId text tokens)
    (unquoted : ∀ placed ∈ tokens, placed.token.Unquoted) (start : Nat) :
    ∃ again, readTokens start seenId (tokens.flatMap (·.token.display.toList)) = .ok again ∧
      again.map (·.token) = tokens.map (·.token) := by
  induction h generalizing start with
  | nil => exact ⟨[], by rw [List.flatMap_nil, readTokens], rfl⟩
  | cons first fresh _ onward ih =>
    rw [List.forall_mem_cons] at unquoted
    have stop := stop_of_readToken first
    rw [← onward.head?_display] at stop
    rw [List.flatMap_cons, List.map_cons]
    exact readTokens_append_of_writtenAs
      (Token.writtenAs_display (legible_of_readToken first unquoted.1)) fresh stop
      (ih unquoted.2) start

end Lexer

/-- Tokens without double quotes in their values are read back from what is displayed of them, one
behind the other. -/
theorem tokenize_display {source : String} {tokens : List PlacedToken}
    (tokenized : tokenize source = .ok tokens)
    (unquoted : ∀ placed ∈ tokens, placed.token.Unquoted) :
    ∃ again, tokenize (String.join (tokens.map (·.token.display))) = .ok again ∧
      again.map (·.token) = tokens.map (·.token) := by
  have reads := Lexer.reads_of_readTokens (locate_eq_ok_iff.1 tokenized)
  obtain ⟨again, read, same⟩ := reads.readTokens_display unquoted 0
  have joined : (String.join (tokens.map (·.token.display))).toList =
      tokens.flatMap (·.token.display.toList) := by
    rw [String.toList_join, List.flatMap_map]
  refine ⟨again, locate_eq_ok_iff.2 ?_, same⟩
  rw [lex, joined, read]

/-- A repeated attribute, a value between single quotes, a zero in front of a count, and a tag right
behind the count. -/
theorem tokenize_display_respelled :
    ∃ tokens again, tokenize "p[b='x y'  c b=z d='>']*03a" = .ok tokens ∧
      (∀ placed ∈ tokens, placed.token.Unquoted) ∧
        String.join (tokens.map (·.token.display)) = "p[b=\"z\" c d=\">\"]*3a" ∧
          tokenize "p[b=\"z\" c d=\">\"]*3a" = .ok again ∧
            again.map (·.token) = tokens.map (·.token) := by
  have seen : (tokenize "p[b='x y'  c b=z d='>']*03a").toOption.map (fun tokens =>
      (decide (∀ placed ∈ tokens, placed.token.Unquoted),
        String.join (tokens.map (·.token.display)))) =
          some (true, "p[b=\"z\" c d=\">\"]*3a") := by decide +kernel
  obtain ⟨tokens, tokenized, seen⟩ := Except.exists_of_toOption_map seen
  obtain ⟨unquoted, shown⟩ := Prod.mk.inj seen
  have unquoted := of_decide_eq_true unquoted
  obtain ⟨again, read, same⟩ := tokenize_display tokenized unquoted
  rw [shown] at read
  exact ⟨tokens, again, tokenized, unquoted, shown, read, same⟩

end Shorthand
