import Shorthand.Options

/-! # Settings

Settings come from a file and change some of the options.  They are used as a whole or not at all:
if one of their tags is no tag name, the options stay as they are.
-/
namespace Shorthand

/-- What to indent a level with. -/
inductive Indent where
  | spaces (count : Nat)
  | literal (text : String)
deriving DecidableEq, Repr, Inhabited

namespace Indent

/-- The text itself, however long it is: running out of memory is left out. -/
def unit : Indent → String
  | spaces count => String.ofList (List.replicate count ' ')
  | literal text => text

end Indent

structure Settings where
  defaultTag : Option String := none
  indent : Option Indent := none
  maxNodes : Option Nat := none
  maxDepth : Option Nat := none
  closing : Option ClosingStyle := none
  /-- Entries that are added to the table of implicit tags. -/
  implicitTags : ImplicitTags := .empty
deriving Inhabited

namespace Settings

def badEntry? (table : ImplicitTags) : Option (String × String) :=
  table.entries.find? fun entry => !(TagName.isValid entry.1 && TagName.isValid entry.2)

def checkDefaultTag (settings : Settings) : Except Error Unit :=
  match settings.defaultTag with
  | some tag => if TagName.isValid tag then .ok () else .error (.settings (.defaultTag tag))
  | none => .ok ()

def checkImplicitTags (settings : Settings) : Except Error Unit :=
  match badEntry? settings.implicitTags with
  | some (parent, child) => .error (.settings (.implicitTag parent child))
  | none => .ok ()

def validate (settings : Settings) : Except Error Unit := do
  settings.checkDefaultTag
  settings.checkImplicitTags

def override (settings : Settings) (options : Options) : Options where
  defaultTag := settings.defaultTag.getD options.defaultTag
  indentUnit := (settings.indent.map Indent.unit).getD options.indentUnit
  maxNodes := settings.maxNodes.getD options.maxNodes
  maxDepth := settings.maxDepth.getD options.maxDepth
  closing := settings.closing.getD options.closing
  implicitTags := options.implicitTags.insertAll settings.implicitTags.entries

def apply (settings : Settings) (options : Options) : Except Error Options := do
  settings.validate
  return settings.override options

def toOptions (settings : Settings) : Except Error Options := settings.apply .standard

end Settings

end Shorthand
