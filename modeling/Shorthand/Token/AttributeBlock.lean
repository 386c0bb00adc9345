import Shorthand.Fault
import Shorthand.Text.Blank

/-! # Attribute blocks

The inside of a block is a list of entries between blanks: a bare name, or a name with a value
behind `=`, either bare or between two equal quotes.  Everything here works on the text behind the
opening bracket and returns the text behind what it read.
-/
namespace Shorthand.AttributeBlock

open Shorthand.Text

def isQuote (c : Char) : Bool := c == '"' || c == '\''

def isNameChar (c : Char) : Bool := !isBlank c && c != '=' && c != ']' && !isQuote c

def isBareChar (c : Char) : Bool := !isBlank c && c != ']'

/-- A value up to its closing quote, and the text behind the quote. -/
def readQuoted (quote : Char) (text : List Char) : Option (List Char × List Char) :=
  match text.dropWhile (· != quote) with
  | [] => none
  | _ :: rest => some (text.takeWhile (· != quote), rest)

def readValue (text : List Char) : Option (List Char × List Char) :=
  match text with
  | [] => some ([], [])
  | c :: rest =>
    if isQuote c then readQuoted c rest
    else some (text.takeWhile isBareChar, text.dropWhile isBareChar)

inductive Entry where
  | read (entry : Attribute) (rest : List Char)
  /-- A quote stands where a name ends, right before `behind`. -/
  | quoted (behind : List Char)
  /-- The closing quote is missing. -/
  | endless

/-- The entry at the front of a text that starts with a character of a name. -/
def readEntry (text : List Char) : Entry :=
  let name := String.ofList (text.takeWhile isNameChar)
  match text.dropWhile isNameChar with
  | '=' :: behind =>
    match readValue behind with
    | some (value, rest) => .read ⟨name, some (String.ofList value)⟩ rest
    | none => .endless
  | [] => .read ⟨name, none⟩ []
  | c :: rest => if isQuote c then .quoted rest else .read ⟨name, none⟩ (c :: rest)

inductive Failure where
  /-- No `]` ends the block. -/
  | unterminated
  /-- A problem with the character right before `behind`, which is one byte long. -/
  | entry (problem : SpellingProblem) (behind : List Char)

theorem suffix_readQuoted {quote : Char} {text value rest : List Char}
    (h : readQuoted quote text = some (value, rest)) : rest <:+ text := by
  unfold readQuoted at h
  split at h
  next => exact absurd h (by simp)
  next c behind closing =>
    have whole : (c :: behind) <:+ text := closing ▸ List.dropWhile_suffix _
    simp only [Option.some.injEq, Prod.mk.injEq] at h
    exact h.2 ▸ (List.suffix_cons c behind).trans whole

theorem suffix_readValue {text value rest : List Char}
    (h : readValue text = some (value, rest)) : rest <:+ text := by
  unfold readValue at h
  split at h
  next =>
    simp only [Option.some.injEq, Prod.mk.injEq] at h
    exact h.2 ▸ List.suffix_rfl
  next c behind =>
    split at h
    next => exact (suffix_readQuoted h).trans (List.suffix_cons c behind)
    next =>
      simp only [Option.some.injEq, Prod.mk.injEq] at h
      exact h.2 ▸ List.dropWhile_suffix _

/-- An entry takes at least the first character of its name. -/
theorem suffix_readEntry {text rest : List Char} {entry : Attribute} {c : Char}
    (named : isNameChar c = true) (h : readEntry (c :: text) = .read entry rest) :
    rest <:+ text := by
  have whole : (c :: text).dropWhile isNameChar <:+ text := by
    simpa [named] using List.dropWhile_suffix (l := text) isNameChar
  unfold readEntry at h
  dsimp only at h
  split at h
  next behind start =>
    split at h
    next value after found =>
      simp only [Entry.read.injEq] at h
      have inside : behind <:+ text := (List.suffix_cons '=' behind).trans (start ▸ whole)
      exact h.2 ▸ (suffix_readValue found).trans inside
    next => exact absurd h (by simp)
  next start =>
    simp only [Entry.read.injEq] at h
    exact h.2 ▸ List.nil_suffix
  next d behind _ start =>
    split at h
    next => exact absurd h (by simp)
    next =>
      simp only [Entry.read.injEq] at h
      exact h.2 ▸ start ▸ whole

/-- Reads entries up to the closing bracket, adding to those found before.  Gives the attributes and
the text behind the bracket. -/
def readEntries (found : List Attribute) (text : List Char) :
    Except Failure (List Attribute × List Char) :=
  match start : text.dropWhile isBlank with
  | [] => .error .unterminated
  | c :: behind =>
    if c == ']' then .ok (found, behind)
    else if named : isNameChar c then
      match entry : readEntry (c :: behind) with
      | .read new rest =>
        have : rest.length < text.length := by
          have whole : (c :: behind) <:+ text := start ▸ List.dropWhile_suffix _
          have inside := (suffix_readEntry named entry).length_le
          exact Nat.lt_of_lt_of_le (Nat.lt_succ_of_le inside) whole.length_le
        readEntries (new.put found) rest
      | .quoted rest => .error (.entry .quoteInName rest)
      | .endless => .error .unterminated
    else .error (.entry .namelessAttribute behind)
termination_by text.length
decreasing_by assumption

theorem suffix_readEntries {found entries : List Attribute} {text rest : List Char}
    (h : readEntries found text = .ok (entries, rest)) : rest <:+ text := by
  fun_induction readEntries found text with
  | case1 => simp at h
  | case2 found text c behind start =>
    have whole : (c :: behind) <:+ text := start ▸ List.dropWhile_suffix _
    simp only [Except.ok.injEq, Prod.mk.injEq] at h
    exact h.2 ▸ (List.suffix_cons c behind).trans whole
  | case3 found text c behind start _ named new after entry _ ih =>
    have whole : (c :: behind) <:+ text := start ▸ List.dropWhile_suffix _
    have inside : behind <:+ text := (List.suffix_cons c behind).trans whole
    exact (ih h).trans ((suffix_readEntry named entry).trans inside)
  | case4 => simp at h
  | case5 => simp at h
  | case6 => simp at h

/-- Reads the inside of a block and its closing bracket. -/
def read (text : List Char) : Except Failure (List Attribute × List Char) := readEntries [] text

end Shorthand.AttributeBlock
