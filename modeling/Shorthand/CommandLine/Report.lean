import Shorthand.CommandLine.Json
import Shorthand.Expansion

/-! # Reports

What a run leaves behind: an exit code, a text for the standard output, and notices for the user.
The texts of the commands are put together here from what the library computes.
-/
namespace Shorthand.CommandLine

inductive Notice where
  | failure (error : Error)
  | noCommand
  /-- The arguments make no sense. -/
  | usage
  /-- A file could not be written. -/
  | unwritable (path : String)
  /-- The program ended in the middle of what it did. -/
  | crash
  | log (entry : String)
deriving Repr

namespace Notice

/-- The line that tells other programs what went wrong. -/
def diagnostic? : Notice → Option String
  | failure error => some error.kind.code
  | noCommand => some "No subcommand specified. Run `emmet --help` for usage."
  | _ => none

def text : Notice → String
  | failure error => error.kind.code ++ ": " ++ error.message
  | noCommand => "No subcommand specified. Run `emmet --help` for usage."
  | usage => "error: the arguments were not understood"
  | unwritable path => "error: cannot write " ++ path
  | crash => "the program crashed: a placeholder is too long"
  | log entry => entry

end Notice

structure Report where
  exitCode : Nat := 0
  output : String := ""
  notices : List Notice := []

/-! ## Colours -/

inductive Paint where
  | dim
  | bold
  | green

def Paint.apply (paint : Paint) (colored : Bool) (text : String) : String :=
  if colored then
    match paint with
    | dim => "\x1b[2m" ++ text ++ "\x1b[0m"
    | bold => "\x1b[1m" ++ text ++ "\x1b[0m"
    | green => "\x1b[32m" ++ text ++ "\x1b[39m"
  else text

/-! ## Expansions -/

structure Expanded where
  abbreviation : String
  result : Except Error Markup

/-- The result for an abbreviation, unless the program crashes there. -/
def expandOne? (options : Options) (abbreviation : String) : Option Expanded :=
  match expandTree abbreviation options with
  | .ok tree => some ⟨abbreviation, .ok tree⟩
  | .error (.reported error) => some ⟨abbreviation, .error error⟩
  | .error .crash => none

/-- The results in order, and whether the program crashes behind the last of them. -/
def expandEach (options : Options) : List String → List Expanded × Bool
  | [] => ([], false)
  | abbreviation :: rest =>
    match expandOne? options abbreviation with
    | none => ([], true)
    | some expanded =>
      let (results, crashed) := expandEach options rest
      (expanded :: results, crashed)

namespace Expanded

/-- The markup of one result, with an empty line in front unless it is the first of the run. -/
def block (style : Style) (isFirst : Bool) (expanded : Expanded) : String :=
  match expanded.result with
  | .ok tree => (if isFirst then "" else "\n") ++ render style tree ++ "\n"
  | .error _ => ""

def blocks (style : Style) : List Expanded → String
  | [] => ""
  | first :: rest => first.block style true ++ String.join (rest.map (block style false))

def error? (expanded : Expanded) : Option Error :=
  match expanded.result with
  | .ok _ => none
  | .error error => some error

end Expanded

def jsonOfText? : Option String → Json
  | some content => .text content
  | none => .null

def jsonOfAttribute (entry : Attribute) : Json :=
  .object [("name", .text entry.name), ("value", jsonOfText? entry.value)]

def elementFields (element : Element) : List (String × Json) :=
  [("tag", .text element.tag)] ++
    (element.id.map fun id => ("id", .text id)).toList ++
    (if element.classes.isEmpty then [] else [("classes", .array (element.classes.map .text))]) ++
    (if element.attributes.isEmpty then []
      else [("attributes", .array (element.attributes.map jsonOfAttribute))]) ++
    (element.text.map fun content => ("text", .text content)).toList

mutual

def jsonOfTree : Tree Element → Json
  | .node element [] => .object (elementFields element)
  | .node element (first :: rest) =>
    .object (elementFields element ++
      [("children", .array (jsonOfTree first :: jsonOfForest rest))])

def jsonOfForest : List (Tree Element) → List Json
  | [] => []
  | first :: rest => jsonOfTree first :: jsonOfForest rest

end

def jsonOfError (error : Error) : Json :=
  .object [
    ("kind", .text error.kind.name),
    ("offset", (error.offset?.map Json.number).getD .null),
    ("message", .text error.message)]

def jsonOfExpanded (style : Style) (expanded : Expanded) : Json :=
  match expanded.result with
  | .ok tree =>
    .object [
      ("abbreviation", .text expanded.abbreviation),
      ("output", .text (render style tree)),
      ("tree", .array (jsonOfForest tree))]
  | .error error =>
    .object [("abbreviation", .text expanded.abbreviation), ("error", jsonOfError error)]

/-! ## Tokens -/

def tokenLine (colored : Bool) (placed : PlacedToken) : String :=
  let range := toString placed.span.start ++ ".." ++ toString placed.span.stop
  Paint.dim.apply colored (Text.padRight 8 range) ++ " " ++ placed.token.describe ++ "\n"

/-! ## Options -/

def fieldLine (label value : String) : String := Text.padRight 20 label ++ " " ++ value ++ "\n"

def heading (colored : Bool) (title : String) : String := Paint.bold.apply colored title ++ "\n"

def optionsText (colored : Bool) (file : Option String) (options : Options) : String :=
  heading colored "Config" ++
    fieldLine "file" (file.getD "(none, using defaults)") ++
    "\n" ++ heading colored "Options" ++
    fieldLine "default_tag" options.defaultTag ++
    fieldLine "indent" (Text.quote options.indentUnit) ++
    fieldLine "max_expanded_nodes" (toString options.maxNodes) ++
    fieldLine "max_depth" (toString options.maxDepth) ++
    fieldLine "self_closing_style" options.closing.name ++
    "\n" ++ heading colored "Implicit tags" ++
    String.join (options.implicitTags.entries.map fun entry => fieldLine entry.1 entry.2)

/-- All options for other programs; the keys are in order. -/
def jsonOfOptions (file : Option String) (options : Options) : Json :=
  .object [
    ("config_path", jsonOfText? file),
    ("options", .object [
      ("default_tag", .text options.defaultTag),
      ("implicit_tags",
        .object (options.implicitTags.entries.map fun entry => (entry.1, .text entry.2))),
      ("indent_unit", .text options.indentUnit),
      ("max_depth", .number options.maxDepth),
      ("max_expanded_nodes", .number options.maxNodes),
      ("self_closing_style", .text options.closing.name)])]

end Shorthand.CommandLine
