import Shorthand.Toml.Scalar

/-! # Quoted texts

Basic texts stand between double quotes and know escapes, literal ones stand between apostrophes and
do not.  Three quotes on each side let a text run over several lines.  Every reader starts behind
the opening quotes and returns the text and what follows the closing quotes.
-/
namespace Shorthand.Toml.Quoted

/-- Characters that may stand for themselves: all but the controls, and the tab. -/
def isPlain (c : Char) : Bool := c == '\t' || (0x20 ≤ c.toNat && c.toNat != 0x7f)

/-- What a single character behind a backslash stands for. -/
def simpleEscape? : Char → Option Char
  | 'b' => some '\x08'
  | 't' => some '\t'
  | 'n' => some '\n'
  | 'f' => some '\x0c'
  | 'r' => some '\r'
  | 'e' => some '\x1b'
  | '"' => some '"'
  | '\\' => some '\\'
  | _ => none

/-- The number of digits of a code point behind this character. -/
def codeWidth? : Char → Option Nat
  | 'x' => some 2
  | 'u' => some 4
  | 'U' => some 8
  | _ => none

def charOfCode? (code : Nat) : Option Char :=
  if h : code.isValidChar then some (Char.ofNatAux code h) else none

inductive Mode where
  | plain
  /-- Right behind a backslash. -/
  | escape
  /-- A code point of which `left` digits are missing. -/
  | code (left value : Nat)
  /-- Blanks and line ends that a backslash takes away; `ended` once there was a line end. -/
  | fold (ended : Bool)

abbrev Result := Option (List Char × List Char)

def push (c : Char) (result : Result) : Result :=
  result.map fun (text, rest) => (c :: text, rest)

def escaped (c : Char) (next : Mode → Result) : Result :=
  match simpleEscape? c with
  | some d => push d (next .plain)
  | none => (codeWidth? c).bind fun width => next (.code width 0)

def coded (c : Char) (left value : Nat) (next : Mode → Result) : Result :=
  if Scalar.isHexDigit c then
    let value := value * 16 + Scalar.hexValue c
    if left ≤ 1 then (charOfCode? value).bind fun d => push d (next .plain)
    else next (.code (left - 1) value)
  else none

def readBasic : Mode → List Char → Result
  | _, [] => none
  | mode, c :: rest =>
    let next (mode : Mode) : Result := readBasic mode rest
    match mode with
    | .escape => escaped c next
    | .code left value => coded c left value next
    | _ =>
      if c = '"' then some ([], rest)
      else if c = '\\' then next .escape
      else if isPlain c then push c (next .plain)
      else none

def readLiteral (text : List Char) : Result :=
  let content := text.takeWhile (· != '\'')
  match text.dropWhile (· != '\'') with
  | _ :: rest => if content.all isPlain then some (content, rest) else none
  | [] => none

/-- The end of a text over several lines, behind three quotes: up to two more belong to it. -/
def finish (quote : Char) (rest : List Char) : List Char × List Char :=
  let extra := (rest.take 2).takeWhile (· == quote)
  (extra, rest.drop extra.length)

def behindThree? (quote c : Char) (rest : List Char) : Option (List Char) :=
  match rest with
  | d :: e :: behind => if c = quote && d = quote && e = quote then some behind else none
  | _ => none

/-- Whether a line may end with `c`: a carriage return needs a line feed behind it. -/
def isLineEnd (c : Char) (rest : List Char) : Bool :=
  c == '\n' || (c == '\r' && rest.head? == some '\n')

/-- A character of a basic text over several lines that stands for itself or ends the text. -/
def plainOrEnd (c : Char) (rest : List Char) (next : Mode → Result) : Result :=
  match behindThree? '"' c rest with
  | some behind => some (finish '"' behind)
  | none =>
    if c = '\\' then next .escape
    else if isPlain c || isLineEnd c rest then push c (next .plain)
    else none

def readBasicLines : Mode → List Char → Result
  | _, [] => none
  | mode, c :: rest =>
    let next (mode : Mode) : Result := readBasicLines mode rest
    match mode with
    | .plain => plainOrEnd c rest next
    | .code left value => coded c left value next
    | .escape =>
      if c = ' ' || c = '\t' then next (.fold false)
      else if isLineEnd c rest then next (.fold true)
      else escaped c next
    | .fold ended =>
      if c = ' ' || c = '\t' then next (.fold ended)
      else if isLineEnd c rest then next (.fold true)
      else if ended then plainOrEnd c rest next
      else none

def readLiteralLines : List Char → Result
  | [] => none
  | c :: rest =>
    match behindThree? '\'' c rest with
    | some behind => some (finish '\'' behind)
    | none =>
      if isPlain c || isLineEnd c rest then push c (readLiteralLines rest) else none

/-- A line end right behind the opening quotes does not count. -/
def skipLineEnd : List Char → List Char
  | '\n' :: rest => rest
  | '\r' :: '\n' :: rest => rest
  | text => text

def readKey? : List Char → Result
  | '"' :: rest => readBasic .plain rest
  | '\'' :: rest => readLiteral rest
  | _ => none

def read? : List Char → Result
  | '"' :: '"' :: '"' :: rest => readBasicLines .plain (skipLineEnd rest)
  | '\'' :: '\'' :: '\'' :: rest => readLiteralLines (skipLineEnd rest)
  | text => readKey? text

end Shorthand.Toml.Quoted
