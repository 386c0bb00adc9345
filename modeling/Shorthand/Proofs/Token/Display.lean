import Shorthand.Proofs.Except
import Shorthand.Proofs.Text.Numeral
import Shorthand.Proofs.Token.AttributeBlock
import Shorthand.Proofs.Token.Parts
import Shorthand.Token.Lexer

/-! # Reading back what is displayed

Every token is displayed in a way that the lexer reads as this token, whatever follows it, as long
as what follows cannot be taken for the end of the token.  Tokens that are displayed one after the
other are read back together.
-/
namespace Shorthand

open Shorthand.Text

namespace Lexer

/-! ## Single tokens -/

/-- A name as the lexer reads it: characters of names, with every `@` right behind a `$`. -/
structure IsName (name : List Char) : Prop where
  nonempty : name ≠ []
  inside : ∀ c ∈ name, isWordChar c = true
  modifiers : looseModifier? false name = none

theorem readName_append {name rest : List Char} (h : IsName name) (skipped : Nat)
    (stop : ∀ c ∈ rest.head?, isWordChar c = false) :
    readName skipped (name ++ rest) = .ok (String.ofList name, rest) := by
  simp only [readName, takeWhile_append_of_stop h.inside stop,
    dropWhile_append_of_stop h.inside stop, h.modifiers]

theorem readMarked_append {make : String → Token} {missing : SpellingProblem}
    {name rest : List Char} (h : IsName name) (stop : ∀ c ∈ rest.head?, isWordChar c = false) :
    readMarked make missing (name ++ rest) = .ok (make (String.ofList name), rest) := by
  have read := readName_append h 1 stop
  cases name with
  | nil => exact absurd rfl h.nonempty
  | cons c name =>
    rw [List.cons_append] at read ⊢
    rw [readMarked, if_pos (h.inside c List.mem_cons_self), read]
    rfl

theorem readText_append {content : List Char} (closed : '}' ∉ content) (rest : List Char) :
    readText (content ++ '}' :: rest) = .ok (.text (String.ofList content), rest) := by
  have inside : ∀ c ∈ content, (c != '}') = true := by
    intro c mem
    rw [bne_iff_ne]
    rintro rfl
    exact closed mem
  have stop : ∀ c ∈ ('}' :: rest).head?, (c != '}') = false := by simp
  rw [readText, dropWhile_append_of_stop inside stop, takeWhile_append_of_stop inside stop]

/-- Digits are read as the count that they stand for, whatever zeros are in front of them. -/
theorem readMultiplier_append {digits : List Char} {count : UInt64} (nonempty : digits ≠ [])
    (inside : ∀ c ∈ digits, c.isDigit = true) (valued : numeralValue digits = count.toNat)
    (positive : count ≠ 0) {rest : List Char} (stop : ∀ c ∈ rest.head?, c.isDigit = false) :
    readMultiplier (digits ++ rest) = .ok (.multiplier count, rest) := by
  have fits : numeralValue digits ≤ maxWord := by
    rw [valued]
    exact Nat.le_of_lt_succ count.toNat_lt
  have noZeros : ¬ digits.all (· == '0') = true := by
    intro zeros
    have zero := numeralValue_of_zeros (by simpa using zeros)
    rw [valued] at zero
    exact positive (UInt64.toNat_inj.1 zero)
  simp only [readMultiplier, takeWhile_append_of_stop inside stop,
    dropWhile_append_of_stop inside stop]
  rw [if_neg (by simp [nonempty]), if_neg noZeros, wordOfDigits?_eq_some nonempty inside fits]
  simp [valued]

theorem readToken_word {c : Char} {text : List Char} (word : isWordChar c = true) :
    readToken c text =
      (readName 0 (c :: text)).map fun (name, rest) => (.tagName name, rest) := by
  unfold readToken
  split
  iterate 10
    next => exact absurd word (by decide)
  next => rw [if_pos word]

end Lexer

namespace Token

open Shorthand.Lexer

def Legible : Token → Prop
  | tagName name | className name | idName name => IsName name.toList
  | attributes entries => (∀ entry ∈ entries, entry.Legible) ∧ (entries.map (·.name)).Nodup
  | text content => '}' ∉ content.toList
  | multiplier count => count ≠ 0
  | _ => True

/-- Tokens whose end shows only by what follows. -/
def runsOn : Token → Bool
  | tagName _ | className _ | idName _ | multiplier _ => true
  | _ => false

/-- The characters that are taken for more of a token if they stand right behind it. -/
def goesOn : Token → Char → Bool
  | tagName _ | className _ | idName _ => isWordChar
  | multiplier _ => Char.isDigit
  | _ => fun _ => false

theorem not_goesOn_of_runsOn {token : Token} {c : Char}
    (apart : token.runsOn = true → isWordChar c = false) : token.goesOn c = false := by
  cases token with
  | tagName | className | idName => exact apart rfl
  | multiplier =>
    have noWord := apart rfl
    simp only [isWordChar, Char.isAlphanum, Bool.or_eq_false_iff] at noWord
    exact noWord.1.1.1.1.1.2
  | attributes | text | child | sibling | climb | openGroup | closeGroup => rfl

/-- A spelling of a token: in front of whatever does not go on with the token, it is read as the
token. -/
def WrittenAs (token : Token) (spelling : List Char) : Prop :=
  ∃ c behind, spelling = c :: behind ∧ ∀ rest, (∀ d ∈ rest.head?, token.goesOn d = false) →
    readToken c (behind ++ rest) = .ok (token, rest)

theorem writtenAs_display {token : Token} (legible : token.Legible) :
    token.WrittenAs token.display.toList := by
  cases token with
  | tagName name =>
    have isName : IsName name.toList := legible
    obtain ⟨c, behind, shown⟩ := List.exists_cons_of_ne_nil isName.nonempty
    refine ⟨c, behind, shown, fun rest stop => ?_⟩
    have word : isWordChar c = true := isName.inside c (by rw [shown]; exact List.mem_cons_self)
    rw [readToken_word word, ← List.cons_append, ← shown,
      readName_append isName 0 stop, String.ofList_toList]
    rfl
  | className name =>
    refine ⟨'.', name.toList, by simp [display], fun rest stop => ?_⟩
    rw [readToken, readMarked_append legible stop, String.ofList_toList]
  | idName name =>
    refine ⟨'#', name.toList, by simp [display], fun rest stop => ?_⟩
    rw [readToken, readMarked_append legible stop, String.ofList_toList]
  | attributes entries =>
    refine ⟨'[', (" ".intercalate (entries.map showAttribute)).toList ++ [']'], ?_,
      fun rest _ => ?_⟩
    · rw [display, String.toList_append, String.toList_append, List.append_assoc]
      rfl
    · rw [readToken, readAttributes, List.append_assoc, List.singleton_append,
        AttributeBlock.read_display rest legible.1 legible.2]
  | text content =>
    refine ⟨'{', content.toList ++ ['}'], by simp [display], fun rest _ => ?_⟩
    rw [readToken, List.append_assoc, List.singleton_append, readText_append legible,
      String.ofList_toList]
  | multiplier count =>
    refine ⟨'*', Nat.toDigits 10 count.toNat, by simp [display], fun rest stop => ?_⟩
    rw [readToken, readMultiplier_append Nat.toDigits_ne_nil
      (fun _ mem => isDigit_of_mem_toDigits mem) (numeralValue_toDigits _) legible stop]
  | child => exact ⟨'>', [], rfl, fun _ _ => rfl⟩
  | sibling => exact ⟨'+', [], rfl, fun _ _ => rfl⟩
  | climb => exact ⟨'^', [], rfl, fun _ _ => rfl⟩
  | openGroup => exact ⟨'(', [], rfl, fun _ _ => rfl⟩
  | closeGroup => exact ⟨')', [], rfl, fun _ _ => rfl⟩

/-- Only a tag starts with a character of names. -/
theorem WrittenAs.head?_append {token : Token} {spelling : List Char}
    (h : token.WrittenAs spelling) (untagged : token.tag? = none) (rest : List Char) :
    ∀ c ∈ (spelling ++ rest).head?, isWordChar c = false := by
  obtain ⟨c, behind, rfl, reads⟩ := h
  intro d mem
  obtain rfl : c = d := by simpa using mem
  rw [← Bool.not_eq_true]
  intro word
  have read := reads [] (by simp)
  rw [readToken_word word] at read
  obtain ⟨⟨name, after⟩, -, same⟩ := Except.map_eq_ok_iff.1 read
  cases same
  cases untagged

end Token

namespace Lexer

/-! ## All tokens -/

theorem readTokens_of_error {pos : Nat} {seenId : Bool} {c : Char} {behind : List Char}
    {fault : Fault} (first : readToken c behind = .error fault) :
    readTokens pos seenId (c :: behind) = .error { fault with span := fault.span.shift pos } := by
  rw [readTokens]
  split
  next same =>
    rw [first] at same
    cases same
    rfl
  next same =>
    rw [first] at same
    cases same

theorem readTokens_step {pos stop : Nat} {seenId : Bool} {c : Char} {behind rest : List Char}
    {token : Token} (first : readToken c behind = .ok (token, rest))
    (stops : stop = pos + (byteSize (c :: behind) - byteSize rest)) :
    readTokens pos seenId (c :: behind) =
      (checkId seenId ⟨token, ⟨pos, stop⟩⟩).bind fun _ =>
        (readTokens stop (hasId seenId token) rest).map (⟨token, ⟨pos, stop⟩⟩ :: ·) := by
  subst stops
  rw [readTokens]
  split
  next same =>
    rw [first] at same
    cases same
  next same =>
    rw [first] at same
    cases same
    dsimp only
    split
    next checked => rw [checked]; rfl
    next checked =>
      rw [checked]
      split
      next failed => rw [Except.bind, failed]; rfl
      next ok => rw [Except.bind, ok]; rfl

theorem readTokens_cons {pos stop : Nat} {seenId : Bool} {c : Char} {behind rest : List Char}
    {token : Token} (read : readToken c behind = .ok (token, rest))
    (fresh : token.id?.isSome = true → seenId = false)
    (stops : stop = pos + (byteSize (c :: behind) - byteSize rest)) :
    readTokens pos seenId (c :: behind) =
      (readTokens stop (hasId seenId token) rest).map (⟨token, ⟨pos, stop⟩⟩ :: ·) := by
  have checked : checkId seenId ⟨token, ⟨pos, stop⟩⟩ = .ok () := by
    cases token <;> simp_all [checkId, Token.id?]
  rw [readTokens_step read stops, checked]
  rfl

end Lexer

/-- Tokens that are told apart when they are displayed one after the other: what runs on is not
followed by a tag, and there is one id at most between two operators. -/
def Apart (seenId : Bool) : List Token → Prop
  | [] => True
  | token :: rest =>
    (token.runsOn = true → ∀ next ∈ rest.head?, next.tag? = none) ∧
      (token.id?.isSome = true → seenId = false) ∧ Apart (Lexer.hasId seenId token) rest

/-- A token in front of a text that is read as some tokens and does not go on with it. -/
theorem readTokens_append_of_writtenAs {token : Token} {spelling : List Char}
    (written : token.WrittenAs spelling) {seenId : Bool}
    (fresh : token.id?.isSome = true → seenId = false) {text : List Char}
    (stop : ∀ c ∈ text.head?, token.goesOn c = false) {tokens : List Token}
    (onward : ∀ pos, ∃ placed,
      Lexer.readTokens pos (Lexer.hasId seenId token) text = .ok placed ∧
        placed.map (·.token) = tokens) (pos : Nat) :
    ∃ placed, Lexer.readTokens pos seenId (spelling ++ text) = .ok placed ∧
      placed.map (·.token) = token :: tokens := by
  obtain ⟨c, behind, rfl, reads⟩ := written
  obtain ⟨placed, onward, same⟩ := onward _
  rw [List.cons_append, Lexer.readTokens_cons (reads text stop) fresh rfl, onward]
  exact ⟨_, rfl, by rw [List.map_cons, same]⟩

/-- Tokens that are told apart are read from their spellings, written one behind the other. -/
theorem readTokens_flatMap {ι : Type} {pieces : List ι} {token : ι → Token} {spell : ι → List Char}
    (written : ∀ piece ∈ pieces, (token piece).WrittenAs (spell piece)) {seenId : Bool}
    (apart : Apart seenId (pieces.map token)) (pos : Nat) :
    ∃ placed, Lexer.readTokens pos seenId (pieces.flatMap spell) = .ok placed ∧
      placed.map (·.token) = pieces.map token := by
  induction pieces generalizing seenId pos with
  | nil => exact ⟨[], by rw [List.flatMap_nil, Lexer.readTokens], rfl⟩
  | cons piece rest ih =>
    rw [List.forall_mem_cons] at written
    obtain ⟨ends, fresh, apart⟩ := apart
    have stop : ∀ c ∈ (rest.flatMap spell).head?, (token piece).goesOn c = false := by
      intro c mem
      refine Token.not_goesOn_of_runsOn fun runsOn => ?_
      cases rest with
      | nil => cases mem
      | cons next others =>
        exact (written.2 next List.mem_cons_self).head?_append (ends runsOn _ rfl) _ c mem
    rw [List.flatMap_cons]
    exact readTokens_append_of_writtenAs written.1 fresh stop (ih written.2 apart) pos

/-- The lexer undoes displaying. -/
theorem readTokens_display {tokens : List Token} (legible : ∀ token ∈ tokens, token.Legible)
    {seenId : Bool} (apart : Apart seenId tokens) (pos : Nat) :
    ∃ placed, Lexer.readTokens pos seenId (tokens.flatMap (·.display.toList)) = .ok placed ∧
      placed.map (·.token) = tokens := by
  have written : ∀ token ∈ tokens, (id token).WrittenAs token.display.toList :=
    fun token mem => Token.writtenAs_display (legible token mem)
  have apart : Apart seenId (tokens.map id) := by rwa [List.map_id]
  have read := readTokens_flatMap written apart pos
  rwa [List.map_id] at read

end Shorthand
