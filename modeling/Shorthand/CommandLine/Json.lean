/-! # JSON text

Values as they are written for other programs to read: every element and field on a line of its own,
two spaces deeper than what holds it, and fields in the order they are given in.
-/
namespace Shorthand.CommandLine

inductive Json where
  | null
  | number (n : Nat)
  | text (content : String)
  | array (elements : List Json)
  | object (fields : List (String × Json))
deriving Inhabited

namespace Json

/-- A control character by its code in four hexadecimal digits. -/
def codeEscape (c : Char) : List Char :=
  let digits := Nat.toDigits 16 c.toNat
  ['\\', 'u'] ++ List.replicate (4 - digits.length) '0' ++ digits

def escape (c : Char) : List Char :=
  match c with
  | '"' => ['\\', '"']
  | '\\' => ['\\', '\\']
  | '\x08' => ['\\', 'b']
  | '\x0c' => ['\\', 'f']
  | '\n' => ['\\', 'n']
  | '\r' => ['\\', 'r']
  | '\t' => ['\\', 't']
  | c => if c.toNat < 0x20 then codeEscape c else [c]

def quote (content : String) : String :=
  "\"" ++ String.ofList (content.toList.flatMap escape) ++ "\""

def newLine (depth : Nat) : String := String.ofList ('\n' :: List.replicate (2 * depth) ' ')

mutual

/-- A value that stands `depth` levels deep. -/
def write (depth : Nat) : Json → String
  | .null => "null"
  | .number n => toString n
  | .text content => quote content
  | .array [] => "[]"
  | .array (first :: rest) =>
    "[" ++ newLine (depth + 1) ++ write (depth + 1) first ++ writeElements (depth + 1) rest ++
      newLine depth ++ "]"
  | .object [] => "\x7b\x7d"
  | .object ((key, value) :: rest) =>
    "\x7b" ++ newLine (depth + 1) ++ quote key ++ ": " ++ write (depth + 1) value ++
      writeFields (depth + 1) rest ++ newLine depth ++ "\x7d"

def writeElements (depth : Nat) : List Json → String
  | [] => ""
  | value :: rest => "," ++ newLine depth ++ write depth value ++ writeElements depth rest

def writeFields (depth : Nat) : List (String × Json) → String
  | [] => ""
  | (key, value) :: rest =>
    "," ++ newLine depth ++ quote key ++ ": " ++ write depth value ++ writeFields depth rest

end

def pretty (value : Json) : String := write 0 value

end Json

end Shorthand.CommandLine
