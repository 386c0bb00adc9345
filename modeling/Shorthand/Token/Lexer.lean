import Shorthand.Text.Numeral
import Shorthand.Token.AttributeBlock

/-! # Reading tokens

A lexer reads one token after the other and places each at the bytes it was read from.  One token is
read from the front of a text without regard to what stands before it; faults are placed relative
to the start of that token.  Only the rule that an element has one id looks back.
-/
namespace Shorthand.Lexer

open Shorthand.Text

def isWordChar (c : Char) : Bool :=
  c.isAlphanum || c == '_' || c == ':' || c == '$' || c == '@' || c == '-'

/-- The place of the first `@` that does not follow a `$`; `afterDollar` tells whether a `$` stands
right before the text. -/
def looseModifier? (afterDollar : Bool) : List Char → Option Nat
  | [] => none
  | c :: rest =>
    if c == '@' && !afterDollar then some 0
    else (looseModifier? (c == '$') rest).map (· + 1)

/-- The name at the front of a text and the text behind it.  `skipped` is the number of bytes of the
token in front of the name. -/
def readName (skipped : Nat) (text : List Char) : Except Fault (String × List Char) :=
  let name := text.takeWhile isWordChar
  match looseModifier? false name with
  | some index =>
    .error ⟨.spelling .looseModifier, ⟨skipped + index, skipped + index + 1⟩⟩
  | none => .ok (String.ofList name, text.dropWhile isWordChar)

/-- A class or an id: a name behind its mark, which is one byte long. -/
def readMarked (make : String → Token) (missing : SpellingProblem) (text : List Char) :
    Except Fault (Token × List Char) :=
  match text with
  | [] => .error ⟨.spelling missing, ⟨0, 1⟩⟩
  | c :: _ =>
    if isWordChar c then (readName 1 text).map fun (name, rest) => (make name, rest)
    else .error ⟨.spelling missing, ⟨0, 1⟩⟩

def readText (text : List Char) : Except Fault (Token × List Char) :=
  match text.dropWhile (· != '}') with
  | [] => .error ⟨.spelling .unterminatedText, ⟨0, 1⟩⟩
  | _ :: rest => .ok (.text (String.ofList (text.takeWhile (· != '}'))), rest)

def readAttributes (text : List Char) : Except Fault (Token × List Char) :=
  match AttributeBlock.read text with
  | .ok (entries, rest) => .ok (.attributes entries, rest)
  | .error .unterminated => .error ⟨.spelling .unterminatedAttributes, ⟨0, 1⟩⟩
  | .error (.entry problem behind) =>
    let stop := 1 + (byteSize text - byteSize behind)
    .error ⟨.spelling problem, ⟨stop - 1, stop⟩⟩

def readMultiplier (text : List Char) : Except Fault (Token × List Char) :=
  let digits := text.takeWhile Char.isDigit
  let span : Span := ⟨0, 1 + digits.length⟩
  if digits.isEmpty then .error ⟨.spelling .missingCount, span⟩
  else if digits.all (· == '0') then .error ⟨.spelling .zeroCount, span⟩
  else
    match wordOfDigits? digits with
    | some count => .ok (.multiplier count.toUInt64, text.dropWhile Char.isDigit)
    | none => .error ⟨.multiplier (String.ofList ('*' :: digits)), span⟩

/-- The token that starts with `c`, and the text behind it.  Faults are placed relative to `c`. -/
def readToken (c : Char) (text : List Char) : Except Fault (Token × List Char) :=
  match c with
  | '.' => readMarked .className .missingClassName text
  | '#' => readMarked .idName .missingIdName text
  | '[' => readAttributes text
  | '{' => readText text
  | '*' => readMultiplier text
  | '>' => .ok (.child, text)
  | '+' => .ok (.sibling, text)
  | '^' => .ok (.climb, text)
  | '(' => .ok (.openGroup, text)
  | ')' => .ok (.closeGroup, text)
  | c =>
    if isWordChar c then (readName 0 (c :: text)).map fun (name, rest) => (.tagName name, rest)
    else .error ⟨.spelling (.invalidCharacter c), ⟨0, c.utf8Size⟩⟩

/-! ## What is left is a suffix -/

theorem rest_readName {skipped : Nat} {text rest : List Char} {name : String}
    (h : readName skipped text = .ok (name, rest)) : rest = text.dropWhile isWordChar := by
  unfold readName at h
  dsimp only at h
  split at h
  next => exact absurd h (by simp)
  next =>
    simp only [Except.ok.injEq, Prod.mk.injEq] at h
    exact h.2.symm

theorem suffix_readMarked {make : String → Token} {missing : SpellingProblem}
    {text rest : List Char} {token : Token}
    (h : readMarked make missing text = .ok (token, rest)) : rest <:+ text := by
  unfold readMarked at h
  split at h
  next => exact absurd h (by simp)
  next c behind =>
    split at h
    next =>
      cases named : readName 1 (c :: behind) with
      | error fault => simp [named, Except.map] at h
      | ok pair =>
        simp only [named, Except.map, Except.ok.injEq, Prod.mk.injEq] at h
        exact h.2 ▸ rest_readName named ▸ List.dropWhile_suffix _
    next => exact absurd h (by simp)

theorem suffix_readText {text rest : List Char} {token : Token}
    (h : readText text = .ok (token, rest)) : rest <:+ text := by
  unfold readText at h
  split at h
  next => exact absurd h (by simp)
  next c behind closing =>
    have whole : (c :: behind) <:+ text := closing ▸ List.dropWhile_suffix _
    simp only [Except.ok.injEq, Prod.mk.injEq] at h
    exact h.2 ▸ (List.suffix_cons c behind).trans whole

theorem suffix_readAttributes {text rest : List Char} {token : Token}
    (h : readAttributes text = .ok (token, rest)) : rest <:+ text := by
  unfold readAttributes at h
  split at h
  next entries behind found =>
    simp only [Except.ok.injEq, Prod.mk.injEq] at h
    exact h.2 ▸ AttributeBlock.suffix_readEntries found
  next => exact absurd h (by simp)
  next => exact absurd h (by simp)

theorem suffix_readMultiplier {text rest : List Char} {token : Token}
    (h : readMultiplier text = .ok (token, rest)) : rest <:+ text := by
  unfold readMultiplier at h
  dsimp only at h
  split at h
  next => exact absurd h (by simp)
  split at h
  next => exact absurd h (by simp)
  split at h
  next =>
    simp only [Except.ok.injEq, Prod.mk.injEq] at h
    exact h.2 ▸ List.dropWhile_suffix _
  next => exact absurd h (by simp)

theorem suffix_readToken {c : Char} {text rest : List Char} {token : Token}
    (h : readToken c text = .ok (token, rest)) : rest <:+ text := by
  unfold readToken at h
  split at h
  next => exact suffix_readMarked h
  next => exact suffix_readMarked h
  next => exact suffix_readAttributes h
  next => exact suffix_readText h
  next => exact suffix_readMultiplier h
  iterate 5
    next =>
      simp only [Except.ok.injEq, Prod.mk.injEq] at h
      exact h.2 ▸ List.suffix_rfl
  next =>
    split at h
    next word =>
      cases named : readName 0 (c :: text) with
      | error fault => simp [named, Except.map] at h
      | ok pair =>
        simp only [named, Except.map, Except.ok.injEq, Prod.mk.injEq] at h
        have rest_eq := rest_readName named
        simp only [List.dropWhile_cons, word, if_true] at rest_eq
        exact h.2 ▸ rest_eq ▸ List.dropWhile_suffix _
    next => exact absurd h (by simp)

/-! ## All tokens -/

def hasId (before : Bool) : Token → Bool
  | .idName _ => true
  | token => before && !token.endsElement

def checkId (seenId : Bool) (placed : PlacedToken) : Except Fault Unit :=
  match placed.token with
  | .idName _ => if seenId then .error ⟨.spelling .secondId, placed.span⟩ else .ok ()
  | _ => .ok ()

/-- The tokens of a text that starts at byte `pos`; `seenId` tells whether the element under way has
an id already. -/
def readTokens (pos : Nat) (seenId : Bool) (text : List Char) : Except Fault (List PlacedToken) :=
  match text with
  | [] => .ok []
  | c :: behind =>
    match step : readToken c behind with
    | .error fault => .error { fault with span := fault.span.shift pos }
    | .ok (token, rest) =>
      have : rest.length < (c :: behind).length :=
        Nat.lt_succ_of_le (suffix_readToken step).length_le
      let stop := pos + (byteSize (c :: behind) - byteSize rest)
      let placed : PlacedToken := ⟨token, ⟨pos, stop⟩⟩
      match checkId seenId placed with
      | .error fault => .error fault
      | .ok () =>
        match readTokens stop (hasId seenId token) rest with
        | .error fault => .error fault
        | .ok tokens => .ok (placed :: tokens)
termination_by text.length
decreasing_by assumption

end Shorthand.Lexer

namespace Shorthand

def lex (source : String) : Except Fault (List PlacedToken) :=
  Lexer.readTokens 0 false source.toList

end Shorthand
