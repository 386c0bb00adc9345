import Shorthand.CommandLine.Flags

/-! # Arguments

Arguments are read from left to right.  Flags may stand on two levels, in front of the command and
behind it; on each level a flag stands at most once, and the one behind the command wins.  Behind
`--` every argument is a plain one.
-/
namespace Shorthand.CommandLine

/-- The flags of one level, and its plain arguments. -/
structure Level where
  path : Option String := none
  indent : Option Indent := none
  defaultTag : Option String := none
  maxNodes : Option Nat := none
  maxDepth : Option Nat := none
  format : Option Format := none
  xhtml : Bool := false
  verbose : Bool := false
  noColor : Bool := false
  plain : List String := []
deriving Inhabited

inductive ValueFlag where
  | path
  | indent
  | defaultTag
  | maxNodes
  | maxDepth
  | format
deriving DecidableEq, Repr

inductive Switch where
  | xhtml
  | verbose
  | noColor
deriving DecidableEq, Repr

inductive Flag where
  | value (flag : ValueFlag)
  | switch (flag : Switch)
  | version
  | help
deriving DecidableEq, Repr

/-- Where an argument stands: in front of the command, or behind one. -/
inductive Scope where
  | top
  | expand
  | tokens
  | init
  | config
deriving DecidableEq, Repr

def Scope.ofName? : String → Option Scope
  | "expand" => some .expand
  | "tokens" => some .tokens
  | "init" => some .init
  | "config" => some .config
  | _ => none

namespace Flag

def ofName? (scope : Scope) : String → Option Flag
  | "path" => some (.value .path)
  | "indent" => some (.value .indent)
  | "default-tag" => some (.value .defaultTag)
  | "max-nodes" => some (.value .maxNodes)
  | "max-depth" => some (.value .maxDepth)
  | "format" => if scope = .expand || scope = .config then some (.value .format) else none
  | "xhtml" => some (.switch .xhtml)
  | "verbose" => some (.switch .verbose)
  | "no-color" => some (.switch .noColor)
  | "version" => if scope = .top then some .version else none
  | "help" => some .help
  | _ => none

def ofLetter? (scope : Scope) : Char → Option Flag
  | 'p' => some (.value .path)
  | 'v' => some (.switch .verbose)
  | 'V' => if scope = .top then some .version else none
  | 'h' => some .help
  | _ => none

end Flag

namespace Level

def fill {α : Type} (place : Option α) (value : Option α) : Option (Option α) :=
  if place.isSome then none else value.map some

/-- Gives a flag its value, unless it has one already or the value is no good. -/
def setValue (level : Level) (value : String) : ValueFlag → Option Level
  | .path =>
    (fill level.path (if value.isEmpty then none else some value)).map ({ level with path := · })
  | .indent =>
    (fill level.indent (readIndent value).toOption).map ({ level with indent := · })
  | .defaultTag =>
    (fill level.defaultTag (readTagName value).toOption).map ({ level with defaultTag := · })
  | .maxNodes => (fill level.maxNodes (Text.word? value)).map ({ level with maxNodes := · })
  | .maxDepth => (fill level.maxDepth (Text.word? value)).map ({ level with maxDepth := · })
  | .format => (fill level.format (Format.ofName? value)).map ({ level with format := · })

def setSwitch (level : Level) : Switch → Option Level
  | .xhtml => if level.xhtml then none else some { level with xhtml := true }
  | .verbose => if level.verbose then none else some { level with verbose := true }
  | .noColor => if level.noColor then none else some { level with noColor := true }

def addPlain (level : Level) (arguments : List String) : Level :=
  { level with plain := level.plain ++ arguments }

end Level

inductive Effect where
  | changed (level : Level)
  /-- The next argument is the value of this flag. -/
  | awaiting (level : Level) (flag : ValueFlag)
  | version
  | help
  | mistake

def Effect.ofLevel? : Option Level → Effect
  | some level => .changed level
  | none => .mistake

/-- A long flag behind its two dashes, with a value if an equals sign follows its name. -/
def readLong (scope : Scope) (level : Level) (text : List Char) : Effect :=
  let name := String.ofList (text.takeWhile (· != '='))
  let value :=
    match text.dropWhile (· != '=') with
    | _ :: value => some (String.ofList value)
    | [] => none
  match Flag.ofName? scope name, value with
  | some (.value flag), some value => .ofLevel? (level.setValue value flag)
  | some (.value flag), none => .awaiting level flag
  | some (.switch flag), none => .ofLevel? (level.setSwitch flag)
  | some .version, none => .version
  | some .help, none => .help
  | _, _ => .mistake

/-- One-letter flags behind one dash.  What follows the letter of a flag with a value is its value,
without an equals sign in front. -/
def readLetters (scope : Scope) (level : Level) : List Char → Effect
  | [] => .changed level
  | c :: rest =>
    match Flag.ofLetter? scope c with
    | some (.value flag) =>
      match rest with
      | [] => .awaiting level flag
      | '=' :: value => .ofLevel? (level.setValue (String.ofList value) flag)
      | value => .ofLevel? (level.setValue (String.ofList value) flag)
    | some (.switch flag) =>
      match level.setSwitch flag with
      | some level => readLetters scope level rest
      | none => .mistake
    | some .version => .version
    | some .help => .help
    | none => .mistake

inductive Stop where
  | finished (level : Level)
  /-- A plain argument in front of any command; the rest belongs to that command. -/
  | command (level : Level) (name : String) (rest : List String)
  | version
  | help
  | mistake

/-- Reads the arguments of a level; `awaited` is the flag that the next one is the value of. -/
def readLevel (scope : Scope) (level : Level) (awaited : Option ValueFlag) :
    List String → Stop
  | [] => if awaited.isSome then .mistake else .finished level
  | argument :: rest =>
    match awaited, argument.toList with
    | some _, '-' :: _ :: _ => .mistake
    | some flag, _ =>
      match level.setValue argument flag with
      | some level => readLevel scope level none rest
      | none => .mistake
    | none, '-' :: '-' :: [] =>
      if scope = .top then (if rest.isEmpty then .finished level else .mistake)
      else .finished (level.addPlain rest)
    | none, '-' :: c :: text =>
      match if c = '-' then readLong scope level text else readLetters scope level (c :: text) with
      | .changed level => readLevel scope level none rest
      | .awaiting level flag => readLevel scope level (some flag) rest
      | .version => .version
      | .help => .help
      | .mistake => .mistake
    | none, _ =>
      if scope = .top then .command level argument rest
      else readLevel scope (level.addPlain [argument]) none rest

inductive Command where
  | expand (abbreviations : List String) (format : Format)
  | tokens (abbreviation : String)
  | init
  | config (format : Format)
deriving DecidableEq, Repr

def Level.command? (level : Level) : Scope → Option Command
  | .top => none
  | .expand => some (.expand level.plain (level.format.getD .text))
  | .tokens =>
    match level.plain with
    | [abbreviation] => some (.tokens abbreviation)
    | _ => none
  | .init => if level.plain.isEmpty then some .init else none
  | .config => if level.plain.isEmpty then some (.config (level.format.getD .text)) else none

/-- A command with the flags that hold for it. -/
structure Invocation where
  command : Option Command := none
  path : Option String := none
  indent : Option Indent := none
  defaultTag : Option String := none
  maxNodes : Option Nat := none
  maxDepth : Option Nat := none
  xhtml : Bool := false
  verbose : Bool := false
  noColor : Bool := false
deriving Inhabited

/-- Joins the flags in front of a command with those behind it. -/
def Invocation.ofLevels (command : Option Command) (outer inner : Level) : Invocation where
  command := command
  path := inner.path.or outer.path
  indent := inner.indent.or outer.indent
  defaultTag := inner.defaultTag.or outer.defaultTag
  maxNodes := inner.maxNodes.or outer.maxNodes
  maxDepth := inner.maxDepth.or outer.maxDepth
  xhtml := inner.xhtml || outer.xhtml
  verbose := inner.verbose || outer.verbose
  noColor := inner.noColor || outer.noColor

inductive Request where
  | invoke (invocation : Invocation)
  | version
  | help
  /-- The arguments make no sense. -/
  | mistake

def readCommand (outer : Level) (scope : Scope) (rest : List String) : Request :=
  match readLevel scope {} none rest with
  | .finished inner =>
    match inner.command? scope with
    | some command => .invoke (.ofLevels (some command) outer inner)
    | none => .mistake
  | .help => .help
  | _ => .mistake

def readHelp : List String → Request
  | [] => .help
  | [name] => if name = "help" || (Scope.ofName? name).isSome then .help else .mistake
  | _ => .mistake

def readArguments (arguments : List String) : Request :=
  match readLevel .top {} none arguments with
  | .finished outer => .invoke (.ofLevels none outer {})
  | .command outer name rest =>
    match Scope.ofName? name with
    | some scope => readCommand outer scope rest
    | none => if name = "help" then readHelp rest else .mistake
  | .version => .version
  | .help => .help
  | .mistake => .mistake

end Shorthand.CommandLine
