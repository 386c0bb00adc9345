/-! # Tag names

Which texts are tag names, and which tags are void: those that never have content.
-/
namespace Shorthand.TagName

def isNameChar (c : Char) : Bool := c.isAlphanum || c == '-' || c == '_' || c == ':'

/-- A tag name is a run of ASCII letters, digits, `-`, `_` and `:`. -/
def isValid (tag : String) : Bool :=
  !tag.toList.isEmpty && tag.toList.all isNameChar

def voidTags : List String :=
  ["area", "base", "br", "col", "embed", "hr", "img", "input", "link", "meta", "param", "source",
    "track", "wbr"]

/-- Letter case does not matter. -/
def isVoid (tag : String) : Bool :=
  voidTags.contains (String.ofList (tag.toList.map Char.toLower))

end Shorthand.TagName
