import Shorthand.Text.Visible

/-! # Escaped characters

Characters in messages are written so that each is seen: the usual controls, quotes and the
backslash behind a backslash, hidden characters by their code point.
-/
namespace Shorthand.Text

/-- A hidden character by its code point in hexadecimal, a visible one as it is. -/
def spell (c : Char) : List Char :=
  if isVisible c then [c]
  else ['\\', 'u', '{'] ++ Nat.toDigits 16 c.toNat ++ ['}']

def escape (c : Char) : List Char :=
  match c with
  | '\x00' => ['\\', '0']
  | '\t' => ['\\', 't']
  | '\r' => ['\\', 'r']
  | '\n' => ['\\', 'n']
  | '\'' => ['\\', '\'']
  | '"' => ['\\', '"']
  | '\\' => ['\\', '\\']
  | _ => spell c

/-- A text between double quotes, in which an apostrophe needs no escape. -/
def quote (text : String) : String :=
  "\"" ++ String.ofList (text.toList.flatMap fun c => if c == '\'' then [c] else escape c) ++ "\""

end Shorthand.Text
