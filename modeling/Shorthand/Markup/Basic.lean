import Shorthand.Abbreviation.Basic
import Shorthand.Text.Blank

/-! # Markup trees

A markup tree holds elements only.  Groups dissolve into the children of the element around them,
and what an attribute block says about `class` and `id` joins the classes and the id.
-/
namespace Shorthand

structure Element where
  tag : String
  id : Option String := none
  classes : List String := []
  /-- All attributes but the class and a valued id. -/
  attributes : List Attribute := []
  text : Option String := none
deriving DecidableEq, Repr, Inhabited

abbrev Markup := Forest Element

namespace Head

def blockClasses (head : Head) : List String :=
  head.attributes.flatMap fun entry =>
    if entry.name = "class" then (entry.value.map Text.words).getD [] else []

/-- The first id that an attribute block gives a value. -/
def blockId (head : Head) : Option String :=
  head.attributes.findSome? fun entry => if entry.name = "id" then entry.value else none

/-- The element of a node.  Its own id wins over one in the attribute block, and a bare `id` stays
an attribute only if there is no other. -/
def element (fallback : String) (head : Head) : Element :=
  let id := head.id.or head.blockId
  { tag := head.tag.getD fallback
    id
    classes := head.classes ++ head.blockClasses
    attributes := head.attributes.filter fun entry =>
      entry.name != "class" && !(entry.name == "id" && (entry.value.isSome || id.isSome))
    text := head.text }

end Head

mutual

/-- The elements of a node: its own, or those of its children if it is a group. -/
def markup (fallback : String) : Tree Head → List (Tree Element)
  | .node head children =>
    match head.kind with
    | .group => markupAll fallback children
    | .element => [.node (head.element fallback) (markupAll fallback children)]

def markupAll (fallback : String) : List (Tree Head) → List (Tree Element)
  | [] => []
  | first :: rest => markup fallback first ++ markupAll fallback rest

end

end Shorthand
