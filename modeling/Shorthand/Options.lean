import Shorthand.Error
import Shorthand.ImplicitTags
import Shorthand.Markup.Layout

/-! # Options of an expansion

Options are usable when every tag that resolving may insert is a tag name.
-/
namespace Shorthand

structure Options extends Style where
  /-- The tag of elements that name none and whose parent implies none. -/
  defaultTag : String := "div"
  implicitTags : ImplicitTags := .standard
  /-- The most elements that one abbreviation may expand to. -/
  maxNodes : Nat := 10000
  /-- The most levels that an abbreviation may open. -/
  maxDepth : Nat := 256
deriving Inhabited

namespace Options

def standard : Options := {}

def badEntry? (table : ImplicitTags) : Option (String × String) :=
  table.entries.find? fun entry => !TagName.isValid entry.2

/-- Checks every tag that resolving may insert. -/
def validate (options : Options) : Except Error Unit :=
  if !TagName.isValid options.defaultTag then
    .error (.option (.defaultTag options.defaultTag))
  else
    match badEntry? options.implicitTags with
    | some (parent, child) => .error (.option (.implicitTag parent child))
    | none => .ok ()

end Options

end Shorthand
