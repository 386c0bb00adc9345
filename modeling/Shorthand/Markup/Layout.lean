import Shorthand.Markup.Basic
import Shorthand.TagName
import Shorthand.Text.Numeral

/-! # Laying out markup

A markup tree is written line by line: an element with children on its opening line, the lines of
its text and of its children one level deeper, and its closing line; any other element on one line,
unless its text has line breaks.  Empty lines are not indented.
-/
namespace Shorthand

inductive ClosingStyle where
  /-- With `>`. -/
  | html
  /-- With ` />`. -/
  | xhtml
deriving DecidableEq, Repr, Inhabited

def ClosingStyle.name : ClosingStyle → String
  | html => "html"
  | xhtml => "xhtml"

def ClosingStyle.ending : ClosingStyle → String
  | html => ">"
  | xhtml => " />"

structure Style where
  /-- What stands in front of a line for every level above it. -/
  indentUnit : String := "  "
  closing : ClosingStyle := .html
deriving DecidableEq, Repr, Inhabited

namespace Layout

def quoteValue (value : String) : String :=
  "\"" ++ String.ofList (value.toList.flatMap fun c => if c = '"' then "&quot;".toList else [c]) ++
    "\""

/-- An attribute with the space in front of it. -/
def attributeText (entry : Attribute) : String :=
  match entry.value with
  | some value => " " ++ entry.name ++ "=" ++ quoteValue value
  | none => " " ++ entry.name

/-- The attributes as they are written: the id, the classes, then all others. -/
def written (element : Element) : List Attribute :=
  (element.id.map fun id => ⟨"id", some id⟩).toList ++
    (if element.classes.isEmpty then []
      else [⟨"class", some (" ".intercalate element.classes)⟩]) ++
    element.attributes

def opening (element : Element) : String :=
  "<" ++ element.tag ++ String.join ((written element).map attributeText)

def closing (element : Element) : String := "</" ++ element.tag ++ ">"

/-- A line some levels deep. -/
def line (style : Style) (depth : Nat) (content : String) : String :=
  if content.isEmpty then "" else Text.repeated style.indentUnit depth ++ content

def textLines (style : Style) (depth : Nat) (text : String) : List String :=
  (Text.lines text).map (line style depth)

def leafLines (style : Style) (depth : Nat) (element : Element) : List String :=
  let text := element.text.getD ""
  if text.toList.contains '\n' then
    line style depth (opening element ++ ">") ::
      textLines style (depth + 1) text ++ [line style depth (closing element)]
  else [line style depth (opening element ++ ">" ++ text ++ closing element)]

mutual

def treeLines (style : Style) (depth : Nat) : Tree Element → List String
  | .node element children =>
    if TagName.isVoid element.tag then
      [line style depth (opening element ++ style.closing.ending)]
    else
      match children with
      | [] => leafLines style depth element
      | first :: rest =>
        line style depth (opening element ++ ">") ::
          (textLines style (depth + 1) (element.text.getD "") ++
            (treeLines style (depth + 1) first ++ forestLines style (depth + 1) rest)) ++
          [line style depth (closing element)]

def forestLines (style : Style) (depth : Nat) : List (Tree Element) → List String
  | [] => []
  | first :: rest => treeLines style depth first ++ forestLines style depth rest

end

end Layout

/-- A forest as text; the last line has no end. -/
def render (style : Style) (forest : Markup) : String :=
  "\n".intercalate (Layout.forestLines style 0 forest)

end Shorthand
