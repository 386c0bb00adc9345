/-! # Numerals

Decimal numerals for 64-bit words: the value of a run of digits, capped or bounded by the largest
word, and numerals padded with zeros.
-/
namespace Shorthand.Text

def maxWord : Nat := 18446744073709551615

def digitValue (c : Char) : Nat := c.toNat - '0'.toNat

def numeralValue (digits : List Char) : Nat :=
  digits.foldl (fun value c => value * 10 + digitValue c) 0

/-- The word a run of digits stands for; larger values stop at the largest word. -/
def cappedWord (digits : List Char) : UInt64 :=
  (min (numeralValue digits) maxWord).toUInt64

/-- The value of a run of digits that fits a word. -/
def wordOfDigits? (digits : List Char) : Option Nat :=
  if digits.isEmpty || !digits.all Char.isDigit then none
  else if numeralValue digits ≤ maxWord then some (numeralValue digits) else none

/-- Reads a whole text as a word; a plus sign may stand in front. -/
def word? (text : String) : Option Nat :=
  match text.toList with
  | '+' :: digits => wordOfDigits? digits
  | digits => wordOfDigits? digits

/-- The numeral of a number, padded with zeros to at least `width` digits. -/
def padded (width n : Nat) : List Char :=
  let digits := Nat.toDigits 10 n
  List.replicate (width - digits.length) '0' ++ digits

def padRight (width : Nat) (text : String) : String :=
  text ++ String.ofList (List.replicate (width - text.length) ' ')

def repeated (text : String) : Nat → String
  | 0 => ""
  | count + 1 => repeated text count ++ text

end Shorthand.Text
