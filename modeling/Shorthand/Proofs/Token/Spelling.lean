import Shorthand.Proofs.Except
import Shorthand.Proofs.Token.Display

/-! # How tokens are spelled

Reading a token takes some characters from the front of a text and leaves the others.  The characters
that are taken spell the token: they are what is displayed, but for the digits of a multiplier, which
may have zeros in front, and the entries of a block, which may be written in other ways.
-/
namespace Shorthand

open Shorthand.Text

/-- The characters that spell a token in front of the text `behind`.  What a block says is decided by
reading it, and it ends at the bracket where reading stops. -/
def Token.SpelledAs (spelling behind : List Char) : Token → Prop
  | tagName name => spelling = name.toList
  | className name => spelling = '.' :: name.toList
  | idName name => spelling = '#' :: name.toList
  | attributes entries =>
    ∃ inside, spelling = '[' :: (inside ++ [']']) ∧
      AttributeBlock.read (inside ++ ']' :: behind) = .ok (entries, behind)
  | text content => spelling = '{' :: (content.toList ++ ['}']) ∧ '}' ∉ content.toList
  | multiplier count =>
    ∃ digits, spelling = '*' :: digits ∧ digits ≠ [] ∧ (∀ c ∈ digits, c.isDigit = true) ∧
      numeralValue digits = count.toNat ∧ 1 ≤ count.toNat ∧ count.toNat ≤ maxWord
  | operator => spelling = operator.display.toList

namespace Lexer

variable {c : Char} {text rest : List Char} {token : Token}

theorem eq_append_of_readName {skipped : Nat} {name : String}
    (read : readName skipped text = .ok (name, rest)) : text = name.toList ++ rest := by
  unfold readName at read
  dsimp only at read
  split at read
  next => cases read
  next =>
    cases read
    rw [String.toList_ofList, List.takeWhile_append_dropWhile]

theorem exists_of_readMarked {make : String → Token} {missing : SpellingProblem}
    (read : readMarked make missing text = .ok (token, rest)) :
    ∃ name, token = make name ∧ text = name.toList ++ rest := by
  unfold readMarked at read
  split at read
  next => cases read
  next =>
    split at read
    next =>
      obtain ⟨⟨name, after⟩, named, same⟩ := Except.map_eq_ok_iff.1 read
      cases same
      exact ⟨name, rfl, eq_append_of_readName named⟩
    next => cases read

theorem exists_of_readAttributes (read : readAttributes text = .ok (token, rest)) :
    ∃ entries inside, token = .attributes entries ∧ text = inside ++ ']' :: rest ∧
      AttributeBlock.read text = .ok (entries, rest) := by
  unfold readAttributes at read
  split at read
  next entries behind found =>
    cases read
    obtain ⟨inside, -, closed, -⟩ := AttributeBlock.exists_inside_of_readEntries found
    exact ⟨entries, inside.text, rfl, closed, found⟩
  next => cases read
  next => cases read

theorem exists_of_readText (read : readText text = .ok (token, rest)) :
    ∃ content, token = .text content ∧ text = content.toList ++ '}' :: rest ∧
      '}' ∉ content.toList := by
  unfold readText at read
  split at read
  next => cases read
  next c behind closing =>
    cases read
    obtain rfl : c = '}' := by
      have stops := List.head?_dropWhile_not (· != '}') text
      simpa [closing] using stops
    refine ⟨_, rfl, ?_, fun mem => ?_⟩
    · rw [String.toList_ofList, ← closing, List.takeWhile_append_dropWhile]
    · rw [String.toList_ofList] at mem
      simpa using List.all_eq_true.1 List.all_takeWhile _ mem

/-- A multiplier is a run of digits, but not of zeros only. -/
theorem exists_of_readMultiplier (read : readMultiplier text = .ok (token, rest)) :
    ∃ (count : UInt64) (digits : List Char), token = .multiplier count ∧ text = digits ++ rest ∧
      digits ≠ [] ∧ (∀ c ∈ digits, c.isDigit = true) ∧ numeralValue digits = count.toNat ∧
        1 ≤ count.toNat := by
  unfold readMultiplier at read
  dsimp only at read
  split at read
  next => cases read
  next nonempty =>
    split at read
    next => cases read
    next nonzero =>
      split at read
      next value found =>
        cases read
        obtain ⟨inside, valued, fits⟩ := of_wordOfDigits? found
        have word : value.toUInt64.toNat = value :=
          UInt64.toNat_ofNat_of_lt' (Nat.lt_succ_of_le fits)
        have positive : value ≠ 0 := by
          rintro rfl
          exact nonzero (by simpa using (zeros_of_foldl_digitValue inside valued).2)
        refine ⟨_, text.takeWhile Char.isDigit, rfl, List.takeWhile_append_dropWhile.symm, ?_,
          inside, ?_, ?_⟩
        · simpa using nonempty
        · rw [valued, word]
        · rw [word]
          exact Nat.one_le_iff_ne_zero.2 positive
      next => cases read

theorem spelled_of_readToken (read : readToken c text = .ok (token, rest)) :
    ∃ spelling, c :: text = spelling ++ rest ∧ token.SpelledAs spelling rest := by
  unfold readToken at read
  split at read
  next =>
    obtain ⟨name, rfl, rfl⟩ := exists_of_readMarked read
    exact ⟨'.' :: name.toList, rfl, rfl⟩
  next =>
    obtain ⟨name, rfl, rfl⟩ := exists_of_readMarked read
    exact ⟨'#' :: name.toList, rfl, rfl⟩
  next =>
    obtain ⟨entries, inside, rfl, rfl, found⟩ := exists_of_readAttributes read
    exact ⟨'[' :: (inside ++ [']']), by simp, inside, rfl, found⟩
  next =>
    obtain ⟨content, rfl, rfl, closed⟩ := exists_of_readText read
    exact ⟨'{' :: (content.toList ++ ['}']), by simp, rfl, closed⟩
  next =>
    obtain ⟨count, digits, rfl, rfl, nonempty, inside, valued, positive⟩ :=
      exists_of_readMultiplier read
    exact ⟨'*' :: digits, rfl, digits, rfl, nonempty, inside, valued, positive,
      Nat.le_of_lt_succ count.toNat_lt⟩
  iterate 5
    next =>
      cases read
      exact ⟨[_], rfl, rfl⟩
  next =>
    split at read
    next =>
      obtain ⟨⟨name, after⟩, named, same⟩ := Except.map_eq_ok_iff.1 read
      cases same
      exact ⟨name.toList, eq_append_of_readName named, rfl⟩
    next => cases read

/-- The bytes of a token are those of the characters that spell it, and there are some. -/
theorem exists_spelling_of_readToken (read : readToken c text = .ok (token, rest)) :
    ∃ spelling, c :: text = spelling ++ rest ∧ spelling ≠ [] ∧ token.SpelledAs spelling rest ∧
      byteSize (c :: text) - byteSize rest = byteSize spelling := by
  obtain ⟨spelling, split, spelled⟩ := spelled_of_readToken read
  refine ⟨spelling, split, ?_, spelled, by rw [split, byteSize_append, Nat.add_sub_cancel]⟩
  rintro rfl
  have shorter := (suffix_readToken read).length_le
  rw [← List.nil_append rest, ← split, List.length_cons] at shorter
  omega

end Lexer

end Shorthand
