import Shorthand.Text.Numeral

/-! # Numbering placeholders

A run of `$` in a template stands for a number with at least as many digits as the run is long.
Numbers are formatted to widths of 16 bits.  A longer run has no replacement: it makes the program
crash.
-/
namespace Shorthand.Numbering

open Shorthand.Text

/-- The largest width that a number can be formatted to. -/
def maxWidth : Nat := 65535

/-- The number a run of `$` stands for; no run stands for nothing. -/
def shown (number width : Nat) : List Char :=
  if width = 0 then [] else padded width number

def shown? (number width : Nat) : Option (List Char) :=
  if width ≤ maxWidth then some (shown number width) else none

/-- Replaces the runs of `$` in a text, unless one of them is too long; `width` counts those that
stand right before the text. -/
def fill? (number : Nat) : Nat → List Char → Option (List Char)
  | width, [] => shown? number width
  | width, c :: rest =>
    if c = '$' then fill? number (width + 1) rest
    else do
      let front ← shown? number width
      let back ← fill? number 0 rest
      return front ++ c :: back

/-- Replaces every run of `$` in a template by a number.  There is no result where the program
crashes. -/
def substitute? (template : String) (number : UInt64) : Option String :=
  (fill? number.toNat 0 template.toList).map String.ofList

end Shorthand.Numbering
