import Shorthand.Numbering.Basic
import Shorthand.Text.Numeral

/-! # Numbering modifiers

A run of `$` may be followed by a modifier: `@`, then `-` to count down, then digits to start from,
then `:` and digits to step by.  Modifiers are taken out of the template they are written in.
-/
namespace Shorthand.Numbering

open Shorthand.Text

/-- The digits at the front of a text, as a word, and what follows them; no digits give 1. -/
def readStart (text : List Char) : UInt64 × List Char :=
  let digits := text.takeWhile Char.isDigit
  (if digits.isEmpty then 1 else cappedWord digits, text.dropWhile Char.isDigit)

/-- A colon with at least one digit behind it, as a word; anything else is left where it is. -/
def readStep (text : List Char) : UInt64 × List Char :=
  match text with
  | ':' :: rest =>
    let digits := rest.takeWhile Char.isDigit
    if digits.isEmpty then (1, text) else (cappedWord digits, rest.dropWhile Char.isDigit)
  | _ => (1, text)

def readSign (text : List Char) : Bool × List Char :=
  match text with
  | '-' :: rest => (true, rest)
  | _ => (false, text)

/-- The modifier whose `@` stands right before this text, and what follows it. -/
def readModifier (text : List Char) : Numbering × List Char :=
  let (reversed, unsigned) := readSign text
  let (start, behind) := readStart unsigned
  let (step, rest) := readStep behind
  ({ start, step, reversed }, rest)

theorem suffix_readSign (text : List Char) : (readSign text).2 <:+ text := by
  unfold readSign
  split
  next rest => exact List.suffix_cons '-' rest
  next => exact List.suffix_rfl

theorem suffix_readStart (text : List Char) : (readStart text).2 <:+ text :=
  List.dropWhile_suffix _

theorem suffix_readStep (text : List Char) : (readStep text).2 <:+ text := by
  unfold readStep
  split
  next rest =>
    dsimp only
    split
    next => exact List.suffix_rfl
    next => exact (List.dropWhile_suffix _).trans (List.suffix_cons ':' rest)
  next => exact List.suffix_rfl

theorem suffix_readModifier (text : List Char) : (readModifier text).2 <:+ text :=
  (suffix_readStep _).trans ((suffix_readStart _).trans (suffix_readSign text))

/-- Takes the modifiers out of a text; `afterDollar` tells whether a `$` stands right before it.
The result is what remains and the modifiers from left to right. -/
def stripFrom (afterDollar : Bool) (text : List Char) : List Char × List Numbering :=
  match text with
  | [] => ([], [])
  | c :: rest =>
    if afterDollar && c == '@' then
      let found := readModifier rest
      let (kept, modifiers) := stripFrom false found.2
      (kept, found.1 :: modifiers)
    else
      let (kept, modifiers) := stripFrom (c == '$') rest
      (c :: kept, modifiers)
termination_by text.length
decreasing_by
  · exact Nat.lt_succ_of_le (suffix_readModifier rest).length_le
  · exact Nat.lt_succ_self _

def strip (template : String) : String × List Numbering :=
  let (kept, modifiers) := stripFrom false template.toList
  (String.ofList kept, modifiers)

end Shorthand.Numbering
