import Shorthand.Proofs.Token.Reading
import Shorthand.Proofs.Token.Tiling

/-! # Putting pieces of a source together

Each token of a source was read from the piece of it that its span covers.  This piece is read as the
token wherever it stands, so that pieces put together in another order are read as the same tokens in
this order, as long as they can be told apart.
-/
namespace Shorthand

open Shorthand.Text

namespace Span

/-- What a span covers of a text that starts at byte `pos`. -/
def coveredFrom (span : Span) (pos : Nat) : List Char → List Char
  | [] => []
  | c :: rest =>
    if span.start ≤ pos ∧ pos < span.stop then c :: coveredFrom span (pos + c.utf8Size) rest
    else coveredFrom span (pos + c.utf8Size) rest

def covered (span : Span) (text : List Char) : List Char := span.coveredFrom 0 text

variable {span : Span} {pos : Nat} {text : List Char}

theorem coveredFrom_append (span : Span) (pos : Nat) (front back : List Char) :
    span.coveredFrom pos (front ++ back) =
      span.coveredFrom pos front ++ span.coveredFrom (pos + byteSize front) back := by
  induction front generalizing pos with
  | nil => rfl
  | cons c front ih =>
    rw [List.cons_append, coveredFrom, coveredFrom, ih, byteSize, Nat.add_assoc]
    split <;> rfl

theorem coveredFrom_of_before (before : pos + byteSize text ≤ span.start) :
    span.coveredFrom pos text = [] := by
  induction text generalizing pos with
  | nil => rfl
  | cons c rest ih =>
    have positive := c.utf8Size_pos
    rw [byteSize] at before
    rw [coveredFrom, if_neg (by omega), ih (by omega)]

theorem coveredFrom_of_behind (behind : span.stop ≤ pos) : span.coveredFrom pos text = [] := by
  induction text generalizing pos with
  | nil => rfl
  | cons c rest ih => rw [coveredFrom, if_neg (by omega), ih (by omega)]

theorem coveredFrom_of_inside (starts : span.start ≤ pos) (stops : pos + byteSize text ≤ span.stop) :
    span.coveredFrom pos text = text := by
  induction text generalizing pos with
  | nil => rfl
  | cons c rest ih =>
    have positive := c.utf8Size_pos
    rw [byteSize] at stops
    rw [coveredFrom, if_pos (by omega), ih (by omega) (by omega)]

theorem covered_middle (front middle back : List Char) :
    covered ⟨byteSize front, byteSize front + byteSize middle⟩ (front ++ (middle ++ back)) =
      middle := by
  rw [covered, coveredFrom_append, coveredFrom_append, Nat.zero_add]
  rw [coveredFrom_of_before (Nat.zero_add _).le, coveredFrom_of_inside (Nat.le_refl _) (Nat.le_refl _),
    coveredFrom_of_behind (Nat.le_refl _), List.nil_append, List.append_nil]

end Span

/-- The pieces of a source that tokens were read from, one behind the other. -/
def rejoin (source : String) (tokens : List PlacedToken) : String :=
  String.ofList (tokens.flatMap fun placed => placed.span.covered source.toList)

/-- What spells a token in one place is a spelling of the token everywhere. -/
theorem Token.SpelledAs.writtenAs {token : Token} {spelling behind : List Char}
    (h : token.SpelledAs spelling behind) (sound : token.Sound) : token.WrittenAs spelling := by
  cases token with
  | tagName name =>
    cases h
    exact writtenAs_display sound
  | className name =>
    have shown : (className name).display.toList = spelling := by rw [h]; simp [display]
    exact shown ▸ writtenAs_display sound
  | idName name =>
    have shown : (idName name).display.toList = spelling := by rw [h]; simp [display]
    exact shown ▸ writtenAs_display sound
  | attributes entries =>
    obtain ⟨text, rfl, read⟩ := h
    obtain ⟨inside, wellFormed, same, rfl⟩ := AttributeBlock.exists_inside_of_readEntries read
    obtain rfl : text = inside.text := List.append_cancel_right same
    refine ⟨'[', inside.text ++ [']'], rfl, fun rest _ => ?_⟩
    rw [Lexer.readToken, Lexer.readAttributes, List.append_assoc, List.singleton_append,
      AttributeBlock.read, AttributeBlock.readEntries_inside [] wellFormed]
  | text content =>
    have shown : (text content).display.toList = spelling := by rw [h.1]; simp [display]
    exact shown ▸ writtenAs_display (show (text content).Legible from h.2)
  | multiplier count =>
    obtain ⟨digits, rfl, nonempty, inside, valued, counted, -⟩ := h
    have positive : count ≠ 0 := by
      rintro rfl
      cases counted
    refine ⟨'*', digits, rfl, fun rest stop => ?_⟩
    rw [Lexer.readToken, Lexer.readMultiplier_append nonempty inside valued positive stop]
  | child | sibling | climb | openGroup | closeGroup =>
    cases h
    exact writtenAs_display trivial

/-- Every token of a source is read from the piece that its span covers. -/
theorem writtenAs_covered {source : String} {tokens : List PlacedToken}
    (tokenized : tokenize source = .ok tokens) :
    ∀ placed ∈ tokens, placed.token.WrittenAs (placed.span.covered source.toList) := by
  intro placed mem
  obtain ⟨front, spelling, back, split, span, -, spelled⟩ :=
    (tiles_of_tokenize tokenized).exists_spelling placed mem
  rw [span, split, Nat.zero_add, Span.covered_middle]
  exact spelled.writtenAs (sound_of_lex (locate_eq_ok_iff.1 tokenized) placed mem)

/-- Pieces of a source that can be told apart are read as the tokens that they were. -/
theorem exists_tokenize_rejoin {source : String} {tokens pieces : List PlacedToken}
    (tokenized : tokenize source = .ok tokens) (part : pieces ⊆ tokens)
    (apart : Apart false (pieces.map (·.token))) :
    ∃ again, tokenize (rejoin source pieces) = .ok again ∧
      again.map (·.token) = pieces.map (·.token) := by
  have written : ∀ placed ∈ pieces, placed.token.WrittenAs (placed.span.covered source.toList) :=
    fun placed mem => writtenAs_covered tokenized placed (part mem)
  obtain ⟨again, read, same⟩ := readTokens_flatMap written apart 0
  refine ⟨again, locate_eq_ok_iff.2 ?_, same⟩
  rw [lex, rejoin, String.toList_ofList, read]

end Shorthand
