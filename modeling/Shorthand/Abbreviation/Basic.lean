import Shorthand.Attribute
import Shorthand.Forest
import Shorthand.Numbering.Modifier
import Shorthand.Span

/-! # Abbreviations

An abbreviation is a forest of elements and groups.  Every node has a head, which holds all that is
written about the node itself.
-/
namespace Shorthand

inductive NodeKind where
  | element
  /-- A group in parentheses; it shows nothing of its own. -/
  | group
deriving DecidableEq, Repr, Inhabited

/-- What is written about one node. -/
structure Head where
  kind : NodeKind := .element
  /-- Absent when the tag is left to the parent. -/
  tag : Option String := none
  classes : List String := []
  id : Option String := none
  attributes : List Attribute := []
  text : Option String := none
  multiplier : UInt64 := 1
  numbering : Numbering := {}
  span : Span := ⟨0, 0⟩
deriving DecidableEq, Repr, Inhabited

abbrev Node := Tree Head

abbrev Abbreviation := Forest Head

namespace Head

/-- The strings of a node that may hold placeholders and modifiers. -/
def templates (head : Head) : List String :=
  head.tag.toList ++ head.classes ++ head.id.toList ++ head.attributes.filterMap (·.value) ++
    head.text.toList

def mapTemplates (f : String → String) (head : Head) : Head :=
  { head with
    tag := head.tag.map f
    classes := head.classes.map f
    id := head.id.map f
    attributes := head.attributes.map fun entry => { entry with value := entry.value.map f }
    text := head.text.map f }

/-- Changes each of these strings, unless there is one that cannot be changed. -/
def mapTemplates? (f : String → Option String) (head : Head) : Option Head := do
  let tag ← head.tag.mapM f
  let classes ← head.classes.mapM f
  let id ← head.id.mapM f
  let attributes ← head.attributes.mapM fun entry => do
    return { entry with value := ← entry.value.mapM f }
  let text ← head.text.mapM f
  return { head with tag, classes, id, attributes, text }

/-- The numbering that a list of modifiers agrees on; none stands for a conflict. -/
def agreed : List Numbering → Option Numbering
  | [] => some .plain
  | first :: rest => if rest.all (· = first) then some first else none

/-- Moves the modifiers out of the templates and into the numbering, unless they differ. -/
def settleNumbering (head : Head) : Option Head :=
  let modifiers := head.templates.flatMap fun template => (Numbering.strip template).2
  (agreed modifiers).map fun numbering =>
    { head.mapTemplates fun template => (Numbering.strip template).1 with numbering }

end Head

end Shorthand
