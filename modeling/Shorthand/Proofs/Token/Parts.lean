import Shorthand.Fault
import Shorthand.Token.Basic

/-! # What a token stands for

Each token of an element gives one of its parts: the tag, a class, the id, the attributes, the text
or the multiplier.
-/
namespace Shorthand

namespace Token

def tag? : Token → Option String
  | tagName name => some name
  | _ => none

def class? : Token → Option String
  | className name => some name
  | _ => none

def id? : Token → Option String
  | idName name => some name
  | _ => none

def attributes? : Token → Option (List Attribute)
  | attributes entries => some entries
  | _ => none

def text? : Token → Option String
  | text content => some content
  | _ => none

def multiplier? : Token → Option UInt64
  | multiplier count => some count
  | _ => none

/-- The part a token stands for, among those that an element has at most once. -/
def part? : Token → Option Part
  | idName _ => some .id
  | attributes _ => some .attributes
  | text _ => some .text
  | multiplier _ => some .multiplier
  | _ => none

theorem isSome_id?_iff {token : Token} : token.id?.isSome = true ↔ token.part? = some .id := by
  cases token <;> simp [id?, part?]

def templates : Token → List String
  | tagName name | className name | idName name => [name]
  | attributes entries => entries.filterMap (·.value)
  | text content => [content]
  | _ => []

theorem ne_of_endsElement {token operator : Token} (inside : token.endsElement = false)
    (ends : operator.endsElement = true) : token ≠ operator := by
  rintro rfl
  rw [inside] at ends
  cases ends

end Token

end Shorthand
