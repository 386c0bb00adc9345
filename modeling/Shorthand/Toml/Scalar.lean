import Shorthand.Text.Numeral
import Shorthand.Toml.Value

/-! # Numbers, truth values and dates

A plain scalar is a run of letters, digits and a few signs.  It is read as a whole: it is a truth
value, an integer, a float or a date-time, or it is nothing.
-/
namespace Shorthand.Toml

open Shorthand.Text

def isScalarChar (c : Char) : Bool :=
  c.isAlphanum || c == '_' || c == '+' || c == '-' || c == '.' || c == ':'

namespace Scalar

/-! ## Digits -/

/-- The digits of a run in which an underscore may stand between two of them. -/
def digits? (isDigit : Char → Bool) : List Char → Option (List Char)
  | [] => none
  | [c] => if isDigit c then some [c] else none
  | c :: '_' :: rest => if isDigit c then (digits? isDigit rest).map (c :: ·) else none
  | c :: rest => if isDigit c then (digits? isDigit rest).map (c :: ·) else none

/-- The whole digits of a decimal number.  They do not start with a needless zero.  An underscore may
stand between a sign and the digits, and zeros may follow it. -/
def wholeDigits? (signed : Bool) : List Char → Option (List Char)
  | '_' :: rest => if signed then digits? Char.isDigit rest else none
  | text =>
    match digits? Char.isDigit text with
    | some ('0' :: _ :: _) => none
    | found => found

def isHexDigit (c : Char) : Bool :=
  c.isDigit || ('a' ≤ c && c ≤ 'f') || ('A' ≤ c && c ≤ 'F')

def hexValue (c : Char) : Nat :=
  if c.isDigit then c.toNat - '0'.toNat else c.toLower.toNat - 'a'.toNat + 10

def valueIn (base : Nat) (digits : List Char) : Nat :=
  digits.foldl (fun value c => value * base + hexValue c) 0

/-! ## Integers -/

inductive Sign where
  | plus
  | minus
deriving DecidableEq, Repr

def readSign : List Char → Option Sign × List Char
  | '+' :: rest => (some .plus, rest)
  | '-' :: rest => (some .minus, rest)
  | text => (none, text)

def signedValue (sign : Option Sign) (digits : List Char) : Int :=
  if sign = some .minus then -(numeralValue digits : Int) else numeralValue digits

/-- Integers fit 128 bits. -/
def inRange (n : Int) : Bool :=
  if n < 0 then n.natAbs ≤ Nat.pow 2 127 else n.natAbs < Nat.pow 2 128

def integer? (text : List Char) : Option Int :=
  let unsigned (base : Nat) (isDigit : Char → Bool) (rest : List Char) : Option Int :=
    (digits? isDigit rest).map fun digits => (valueIn base digits : Int)
  let value :=
    match text with
    | '0' :: 'x' :: rest => unsigned 16 isHexDigit rest
    | '0' :: 'o' :: rest => unsigned 8 (fun c => '0' ≤ c && c ≤ '7') rest
    | '0' :: 'b' :: rest => unsigned 2 (fun c => c == '0' || c == '1') rest
    | _ =>
      let (sign, rest) := readSign text
      (wholeDigits? sign.isSome rest).map (signedValue sign)
  value.filter inRange

/-! ## Floats -/

/-- Whether `mantissa` times a power of ten is too large for a double: at least halfway from the
largest double to the next power of two. -/
def overflows (mantissa : Nat) (exponent : Int) : Bool :=
  let size : Int := (Nat.toDigits 10 mantissa).length + exponent
  if mantissa = 0 || size ≤ 308 then false
  else if size > 309 then true
  else
    let bound := Nat.pow 2 1024 - Nat.pow 2 970
    if exponent ≥ 0 then bound ≤ mantissa * Nat.pow 10 exponent.toNat
    else bound * Nat.pow 10 (-exponent).toNat ≤ mantissa

def exponent? (text : List Char) : Option Int :=
  let (sign, rest) := readSign text
  (digits? Char.isDigit rest).map (signedValue sign)

def isFloat (text : List Char) : Bool :=
  let (sign, unsigned) := readSign text
  if unsigned = ['i', 'n', 'f'] || unsigned = ['n', 'a', 'n'] then true
  else
    let isMark (c : Char) : Bool := c == 'e' || c == 'E'
    let base := unsigned.takeWhile (!isMark ·)
    let whole := base.takeWhile (· != '.')
    let fraction :=
      match base.dropWhile (· != '.') with
      | [] => some []
      | _ :: digits => digits? Char.isDigit digits
    let exponent :=
      match unsigned.dropWhile (!isMark ·) with
      | [] => some 0
      | _ :: rest => exponent? rest
    match wholeDigits? sign.isSome whole, fraction, exponent with
    | some whole, some fraction, some exponent =>
      (unsigned.contains '.' || unsigned.any isMark) &&
        !overflows (numeralValue (whole ++ fraction)) (exponent - fraction.length)
    | _, _, _ => false

/-! ## Dates and times -/

def isLeapYear (year : Nat) : Bool := year % 4 = 0 && (year % 100 ≠ 0 || year % 400 = 0)

def daysIn (year month : Nat) : Nat :=
  if month = 2 then (if isLeapYear year then 29 else 28)
  else if month = 4 || month = 6 || month = 9 || month = 11 then 30
  else 31

def readDigits (count : Nat) (text : List Char) : Option (Nat × List Char) :=
  let digits := text.take count
  if digits.length = count && digits.all Char.isDigit then
    some (numeralValue digits, text.drop count)
  else none

def readDate (text : List Char) : Option (List Char × List Char) :=
  match readDigits 4 text with
  | some (year, '-' :: rest) =>
    match readDigits 2 rest with
    | some (month, '-' :: rest) =>
      match readDigits 2 rest with
      | some (day, rest) =>
        if 1 ≤ month && month ≤ 12 && 1 ≤ day && day ≤ daysIn year month then
          some (text.take 10, rest)
        else none
      | none => none
    | _ => none
  | _ => none

/-- A fraction of a second to nine places, without zeros at its end. -/
def fractionText (digits : List Char) : List Char :=
  let significant := ((digits.take 9).reverse.dropWhile (· == '0')).reverse
  '.' :: (if significant.isEmpty then ['0'] else significant)

def readClock (text : List Char) : Option (List Char × List Char) :=
  match readDigits 2 text with
  | some (hour, ':' :: rest) =>
    match readDigits 2 rest with
    | some (minute, rest) =>
      if hour ≤ 23 && minute ≤ 59 then some (text.take 5, rest) else none
    | none => none
  | _ => none

def readTime (text : List Char) : Option (List Char × List Char) :=
  match readClock text with
  | some (clock, ':' :: rest) =>
    match readDigits 2 rest with
    | some (second, behind) =>
      if second ≤ 60 then
        let seconds := clock ++ ':' :: rest.take 2
        match behind with
        | '.' :: behind =>
          let digits := behind.takeWhile Char.isDigit
          if digits.isEmpty then none
          else some (seconds ++ fractionText digits, behind.dropWhile Char.isDigit)
        | _ => some (seconds, behind)
      else none
    | none => none
  | other => other

/-- The whole text as a distance from universal time, which may be missing. -/
def offset? (text : List Char) : Option (List Char) :=
  match text with
  | [] => some []
  | ['Z'] | ['z'] => some ['Z']
  | sign :: rest =>
    if sign == '+' || sign == '-' then
      match readClock rest with
      | some (clock, []) =>
        some ((if clock = "00:00".toList then '+' else sign) :: clock)
      | _ => none
    else none

def dateTime? (text : List Char) : Option String :=
  match readDate text with
  | some (date, []) => some (String.ofList date)
  | some (date, mark :: rest) =>
    if mark == 'T' || mark == 't' || mark == ' ' then
      match readTime rest with
      | some (time, rest) =>
        (offset? rest).map fun offset => String.ofList (date ++ 'T' :: time ++ offset)
      | none => none
    else none
  | none =>
    match readTime text with
    | some (time, []) => some (String.ofList time)
    | _ => none

def value? (text : List Char) : Option Value :=
  if text = "true".toList then some (.boolean true)
  else if text = "false".toList then some (.boolean false)
  else
    match integer? text with
    | some n => some (.integer n)
    | none => if isFloat text then some .float else (dateTime? text).map .dateTime

/-- The text of the scalar at the front, and what follows it.  A date may be followed by a space and
a time. -/
def split (text : List Char) : List Char × List Char :=
  let first := text.takeWhile isScalarChar
  let rest := text.dropWhile isScalarChar
  match readDate first, rest with
  | some (_, []), ' ' :: d :: behind =>
    if d.isDigit then
      (first ++ ' ' :: (d :: behind).takeWhile isScalarChar, (d :: behind).dropWhile isScalarChar)
    else (first, rest)
  | _, _ => (first, rest)

end Scalar

end Shorthand.Toml
