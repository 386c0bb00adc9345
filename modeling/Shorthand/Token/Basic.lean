import Shorthand.Attribute
import Shorthand.Span

/-! # Tokens of an abbreviation

The parts of an element, its multiplier, the operators between elements and the parentheses of a
group.  A placed token knows the bytes it was read from.
-/
namespace Shorthand

inductive Token where
  | tagName (name : String)
  | className (name : String)
  | idName (name : String)
  | attributes (entries : List Attribute)
  | text (content : String)
  | multiplier (count : UInt64)
  | child
  | sibling
  | climb
  | openGroup
  | closeGroup
deriving DecidableEq, Repr, Inhabited

namespace Token

/-- Operators and parentheses end the element in front of them. -/
def endsElement : Token → Bool
  | child | sibling | climb | openGroup | closeGroup => true
  | _ => false

def showAttribute (entry : Attribute) : String :=
  match entry.value with
  | some value => entry.name ++ "=\"" ++ value ++ "\""
  | none => entry.name

def display : Token → String
  | tagName name => name
  | className name => "." ++ name
  | idName name => "#" ++ name
  | attributes entries => "[" ++ " ".intercalate (entries.map showAttribute) ++ "]"
  | text content => "\x7b" ++ content ++ "\x7d"
  | multiplier count => "*" ++ toString count.toNat
  | child => ">"
  | sibling => "+"
  | climb => "^"
  | openGroup => "("
  | closeGroup => ")"

def describe : Token → String
  | tagName name => "tag name `" ++ name ++ "`"
  | className name => "class `." ++ name ++ "`"
  | idName name => "id `#" ++ name ++ "`"
  | attributes _ => "attribute block"
  | text _ => "text block"
  | multiplier count => "multiplier `*" ++ toString count.toNat ++ "`"
  | operator => "`" ++ operator.display ++ "`"

end Token

structure PlacedToken where
  token : Token
  span : Span
deriving DecidableEq, Repr, Inhabited

end Shorthand
