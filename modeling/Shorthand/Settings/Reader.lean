import Shorthand.Settings.Basic
import Shorthand.Toml.Document

/-! # Reading settings

Settings are the entries of a document.  A key that is not known is skipped, and a known key needs a
value of its type.
-/
namespace Shorthand.Settings

open Shorthand.Text (maxWord)
open Shorthand.Toml (Value Entries)

/-- The value of a key, if there is one; none stands for a value of the wrong type. -/
def field? {α : Type} (entries : Entries) (key : String) (read : Value → Option α) :
    Option (Option α) :=
  match entries.lookup key with
  | none => some none
  | some value => (read value).map some

def string? : Value → Option String
  | .string text => some text
  | _ => none

def count? : Value → Option Nat
  | .integer n => if 0 ≤ n && n.toNat ≤ maxWord then some n.toNat else none
  | _ => none

def indent? : Value → Option Indent
  | .string text => some (.literal text)
  | value => (count? value).map .spaces

def closingOfName? : String → Option ClosingStyle
  | "html" => some .html
  | "xhtml" => some .xhtml
  | _ => none

/-- A style is named by a string, or by the only key of a table that holds nothing. -/
def closing? : Value → Option ClosingStyle
  | .string name => closingOfName? name
  | .table _ [(name, .table _ [])] => closingOfName? name
  | .table _ [(name, .array [])] => closingOfName? name
  | _ => none

def textEntry? : String × Value → Option (String × String)
  | (key, .string text) => some (key, text)
  | _ => none

/-- A table of strings.  A date-time reads as a table with one entry, under a key of its own. -/
def table? : Value → Option ImplicitTags
  | .table _ entries => (entries.mapM textEntry?).map .ofList
  | .dateTime text => some (.ofList [("$__toml_private_datetime", text)])
  | _ => none

def ofEntries? (entries : Entries) : Option Settings := do
  let defaultTag ← field? entries "default_tag" string?
  let indent ← field? entries "indent" indent?
  let maxNodes ← field? entries "max_expanded_nodes" count?
  let maxDepth ← field? entries "max_depth" count?
  let closing ← field? entries "self_closing_style" closing?
  let implicitTags ← field? entries "implicit_tags" table?
  return { defaultTag, indent, maxNodes, maxDepth, closing, implicitTags := implicitTags.getD .empty }

def ofText (text : String) : Except Error Settings :=
  match (Toml.read text).bind ofEntries? with
  | some settings => .ok settings
  | none => .error (.settings .malformed)

def ofBytes (bytes : ByteArray) : Except Error Settings :=
  match String.fromUTF8? bytes with
  | some text => ofText text
  | none => .error .undecodable

/-- Where a settings file may stand under a directory; the first that is there counts. -/
def fileNames : List String := ["emmet.toml", ".emmet.toml", ".config/emmet.toml"]

end Shorthand.Settings
