import Shorthand.CommandLine.Arguments
import Shorthand.CommandLine.Report
import Shorthand.FileTree
import Shorthand.Settings.Reader

/-! # Running commands

A run looks at its surroundings and comes to an outcome: a report, or a file to be written with a
report for either case.  Nothing else is ever written.
-/
namespace Shorthand.CommandLine

structure Surroundings where
  /-- The absolute path of the working directory. -/
  directory : String
  /-- The content of the file at a path. -/
  fileAt : String → Option ByteArray
  input : String := ""
  /-- Whether the user wants colours. -/
  colored : Bool := false

inductive Outcome where
  | done (report : Report)
  /-- A file is to be written; the reports are for a write that works and for one that does not. -/
  | write (path content : String) (written refused : Report)

namespace Invocation

def root (invocation : Invocation) (directory : String) : String :=
  invocation.path.getD directory

/-- Where the settings file is looked for, in this order. -/
def settingsPaths (invocation : Invocation) (directory : String) : List String :=
  Settings.fileNames.map (FileTree.join (invocation.root directory))

def settingsFile? (invocation : Invocation) (around : Surroundings) :
    Option (String × ByteArray) :=
  (invocation.settingsPaths around.directory).findSome? fun path =>
    (around.fileAt path).map fun content => (path, content)

def override (invocation : Invocation) (options : Options) : Options :=
  { options with
    indentUnit := (invocation.indent.map Indent.unit).getD options.indentUnit
    defaultTag := invocation.defaultTag.getD options.defaultTag
    maxNodes := invocation.maxNodes.getD options.maxNodes
    maxDepth := invocation.maxDepth.getD options.maxDepth
    closing := if invocation.xhtml then .xhtml else options.closing }

/-- The standard options, changed by the settings file, changed by the flags. -/
def options (invocation : Invocation) (around : Surroundings) : Except Error Options := do
  match invocation.settingsFile? around with
  | some (_, content) => do
    let settings ← Settings.ofBytes content
    let options ← settings.toOptions
    return invocation.override options
  | none => return invocation.override .standard

def isColored (invocation : Invocation) (around : Surroundings) : Bool :=
  around.colored && !invocation.noColor

/-- A notice that is only of interest when the user asked for more. -/
def logged (invocation : Invocation) (entry : String) : List Notice :=
  if invocation.verbose then [.log entry] else []

def loadingNotices (invocation : Invocation) (around : Surroundings) : List Notice :=
  match invocation.settingsFile? around with
  | some (path, _) => invocation.logged ("loading " ++ path)
  | none => []

def badOptions (notices : List Notice) (error : Error) : Report :=
  { exitCode := 2, notices := notices ++ [.failure error] }

/-- The abbreviations to expand: those given, or else the lines of the input that are not blank. -/
def abbreviations (given : List String) (input : String) : List String :=
  if given.isEmpty then ((Text.lines input).map Text.trim).filter (!·.isEmpty) else given

/-- The notices about one abbreviation.  Failures are part of the output in JSON. -/
def expandedNotices (invocation : Invocation) (format : Format) (expanded : Expanded) :
    List Notice :=
  invocation.logged ("expanding " ++ expanded.abbreviation) ++
    match expanded.error?, format with
    | some error, .text => [.failure error]
    | _, _ => []

def readsInput (invocation : Invocation) : Bool :=
  match invocation.command with
  | some (.expand given _) => given.isEmpty
  | _ => false

/-- Expands the abbreviations in order.  In JSON the output is made of all results at once, so that
none is left if the program crashes. -/
def runExpand (invocation : Invocation) (around : Surroundings) (given : List String)
    (format : Format) : Report :=
  let loading := invocation.loadingNotices around
  match invocation.options around with
  | .error error => badOptions loading error
  | .ok options =>
    let (results, crashed) := expandEach options (abbreviations given around.input)
    { exitCode := if crashed then 101 else if results.any (·.error?.isSome) then 1 else 0
      output :=
        match format with
        | .text => Expanded.blocks options.toStyle results
        | .json =>
          if crashed then ""
          else (Json.array (results.map (jsonOfExpanded options.toStyle))).pretty ++ "\n"
      notices :=
        loading ++ results.flatMap (invocation.expandedNotices format) ++
          if crashed then [.crash] else [] }

def runTokens (invocation : Invocation) (around : Surroundings) (abbreviation : String) : Report :=
  match tokenize abbreviation with
  | .ok tokens => { output := String.join (tokens.map (tokenLine (invocation.isColored around))) }
  | .error error => { exitCode := 1, notices := [.failure error] }

def runConfig (invocation : Invocation) (around : Surroundings) (format : Format) : Report :=
  let loading := invocation.loadingNotices around
  match invocation.options around with
  | .error error => badOptions loading error
  | .ok options =>
    let file := (invocation.settingsFile? around).map (·.1)
    { output :=
        match format with
        | .text => optionsText (invocation.isColored around) file options
        | .json => (jsonOfOptions file options).pretty ++ "\n"
      notices := loading }

def sampleSettings : String :=
  "# emmet configuration\n" ++
  "# Every setting is optional. Command line flags take precedence.\n" ++
  "\n" ++
  "# Tag used for implicit elements, e.g. `.wrapper`.\n" ++
  "# default_tag = \"div\"\n" ++
  "\n" ++
  "# Indentation per nesting level: a number of spaces or a literal string.\n" ++
  "# indent = 2\n" ++
  "# indent = \"\\t\"\n" ++
  "\n" ++
  "# Maximum number of elements one abbreviation may expand to.\n" ++
  "# max_expanded_nodes = 10000\n" ++
  "\n" ++
  "# Maximum nesting depth of an abbreviation.\n" ++
  "# max_depth = 256\n" ++
  "\n" ++
  "# How void tags are closed: \"html\" (<br>) or \"xhtml\" (<br />).\n" ++
  "# self_closing_style = \"html\"\n" ++
  "\n" ++
  "# Default child tags merged over the built-in table.\n" ++
  "[implicit_tags]\n" ++
  "# nav = \"a\"\n"

def runInit (invocation : Invocation) (around : Surroundings) : Outcome :=
  match invocation.settingsFile? around with
  | some (path, _) => .done { output := "Config file already exists: " ++ path ++ "\n" }
  | none =>
    let path := FileTree.join (invocation.root around.directory) "emmet.toml"
    let created := Paint.green.apply (invocation.isColored around) "Created"
    .write path sampleSettings
      { output := created ++ " " ++ path ++ "\n" }
      { exitCode := 2, notices := [.unwritable path] }

def run (invocation : Invocation) (around : Surroundings) : Outcome :=
  match invocation.command with
  | some (.expand given format) => .done (invocation.runExpand around given format)
  | some (.tokens abbreviation) => .done (invocation.runTokens around abbreviation)
  | some .init => invocation.runInit around
  | some (.config format) => .done (invocation.runConfig around format)
  | none => .done { exitCode := 1, notices := [.noCommand] }

end Invocation

/-- Runs what a list of arguments asks for.  The text of the help is left out. -/
def run (arguments : List String) (around : Surroundings) : Outcome :=
  match readArguments arguments with
  | .invoke invocation => invocation.run around
  | .version => .done { output := "emmet_cli 0.1.0\n" }
  | .help => .done {}
  | .mistake => .done { exitCode := 2, notices := [.usage] }

/-- Runs in a file tree, as a process whose working directory is the origin. -/
def runIn (tree : FileTree) (arguments : List String) (input : String) (colored : Bool) :
    Report × FileTree :=
  match run arguments { directory := tree.origin, fileAt := tree.read, input, colored } with
  | .done report => (report, tree)
  | .write path content written refused =>
    match tree.write path content.toUTF8 with
    | some changed => (written, changed)
    | none => (refused, tree)

end Shorthand.CommandLine
