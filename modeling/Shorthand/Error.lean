import Shorthand.Fault

/-! # Errors

All that can go wrong for a user: a fault of an abbreviation, options or settings that make no
sense, and settings that cannot be read.  An error has a kind, a code, a message and, if it was found
in an abbreviation, a place.
-/
namespace Shorthand

inductive OptionProblem where
  | defaultTag (tag : String)
  | implicitTag (parent child : String)
deriving DecidableEq, Repr

/-- Settings that cannot be used. -/
inductive SettingsProblem where
  /-- The text is no document, or a value has the wrong type.  Where and how is left out. -/
  | malformed
  | defaultTag (tag : String)
  | implicitTag (parent child : String)
deriving DecidableEq, Repr

inductive Error where
  /-- A fault that starts behind `offset` characters. -/
  | located (fault : Fault) (offset : Nat)
  | option (problem : OptionProblem)
  | settings (problem : SettingsProblem)
  /-- The bytes of a settings file are no text. -/
  | undecodable
deriving DecidableEq, Repr

inductive Failure where
  /-- With an error that the user is told. -/
  | reported (error : Error)
  /-- In the middle of the program, which ends without a word about the abbreviation. -/
  | crash
deriving DecidableEq, Repr

/-- Places the fault of a result in a source. -/
def locate {α : Type} (source : String) (result : Except Fault α) : Except Error α :=
  result.mapError fun fault => .located fault (offsetAt source fault.span.start)

inductive ErrorKind where
  | spelling
  | grammar
  | limit
  | multiplier
  | option
  | settings
  | undecodable
deriving DecidableEq, Repr

namespace ErrorKind

def name : ErrorKind → String
  | spelling => "lex"
  | grammar => "syntax"
  | limit => "limit_exceeded"
  | multiplier => "invalid_multiplier"
  | option => "invalid_option"
  | settings => "config_parse"
  | undecodable => "io"

def code : ErrorKind → String
  | spelling => "emmet::lex_error"
  | grammar => "emmet::syntax_error"
  | limit => "emmet::limit_exceeded"
  | multiplier => "emmet::invalid_multiplier"
  | option => "emmet::invalid_option"
  | settings => "emmet::config_parse"
  | undecodable => "emmet::io_error"

def help : ErrorKind → Option String
  | limit =>
    some "lower the multipliers and nesting, or raise `max_expanded_nodes` and `max_depth`"
  | multiplier => some "multipliers must be a positive whole number, e.g. `li*3`"
  | settings =>
    some "check that emmet.toml is valid TOML with an optional [implicit_tags] table"
  | _ => none

def label : ErrorKind → Option String
  | spelling => some "here"
  | grammar => some "unexpected token"
  | limit => some "expanded here"
  | multiplier => some "multiplier"
  | _ => none

end ErrorKind

def Problem.kind : Problem → ErrorKind
  | spelling _ => .spelling
  | multiplier _ => .multiplier
  | grammar _ => .grammar
  | limit _ _ => .limit

def OptionProblem.message : OptionProblem → String
  | defaultTag tag => "default tag `" ++ tag ++ "` is not a valid tag name"
  | implicitTag parent child =>
    "implicit tag `" ++ child ++ "` for `" ++ parent ++ "` is not a valid tag name"

def SettingsProblem.message : SettingsProblem → String
  | malformed => "the document or the type of a value is wrong"
  | defaultTag tag => "`default_tag = \"" ++ tag ++ "\"` is not a valid tag name"
  | implicitTag parent child =>
    "`implicit_tags." ++ parent ++ " = \"" ++ child ++ "\"` must map a tag name to a tag name"

namespace Error

def kind : Error → ErrorKind
  | located fault _ => fault.problem.kind
  | option _ => .option
  | settings _ => .settings
  | undecodable => .undecodable

def message : Error → String
  | located fault offset => fault.problem.message offset
  | option problem => "invalid option: " ++ problem.message
  | settings problem => "failed to parse config file: " ++ problem.message
  | undecodable => "stream did not contain valid UTF-8"

/-- The characters in front of the place of the error, if it has one. -/
def offset? : Error → Option Nat
  | located _ offset => some offset
  | _ => none

/-- The bytes that the error is blamed on, if it was found in an abbreviation. -/
def span? : Error → Option Span
  | located fault _ => some fault.span
  | _ => none

end Error

end Shorthand
