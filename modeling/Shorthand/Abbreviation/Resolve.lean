import Shorthand.Abbreviation.Basic
import Shorthand.ImplicitTags

/-! # Resolving tags

An element without a tag gets the one its parent implies, or else a fixed one.  Groups have no say:
what is inside them belongs to the element around them.
-/
namespace Shorthand

namespace Head

/-- The head with its tag filled in, under an element with the tag `parent` if there is one. -/
def resolveTag (table : ImplicitTags) (fallback : String) (parent : Option String)
    (head : Head) : Head :=
  match head.kind, head.tag with
  | .element, none => { head with tag := some ((parent.bind table.childOf).getD fallback) }
  | _, _ => head

/-- The tag that the children of a resolved node look to. -/
def tagForChildren (parent : Option String) (head : Head) : Option String :=
  match head.kind with
  | .element => head.tag
  | .group => parent

end Head

mutual

def resolve (table : ImplicitTags) (fallback : String) (parent : Option String) :
    Tree Head → Tree Head
  | .node head children =>
    let resolved := head.resolveTag table fallback parent
    .node resolved (resolveAll table fallback (resolved.tagForChildren parent) children)

def resolveAll (table : ImplicitTags) (fallback : String) (parent : Option String) :
    List (Tree Head) → List (Tree Head)
  | [] => []
  | first :: rest =>
    resolve table fallback parent first :: resolveAll table fallback parent rest

end

end Shorthand
