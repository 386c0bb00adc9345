import Shorthand.Settings.Basic

/-! # Values of flags

What a flag accepts: an indentation, a tag name, a count, a format.
-/
namespace Shorthand.CommandLine

inductive FlagProblem where
  | emptyIndent
  | noTagName (value : String)
deriving DecidableEq, Repr

def FlagProblem.message : FlagProblem → String
  | emptyIndent => "indentation can't be empty"
  | noTagName value => "`" ++ value ++ "` is not a valid tag name"

/-- A number is a count of spaces, `tab` in any letter case is a tab, and anything else indents as it
is written. -/
def readIndent (value : String) : Except FlagProblem Indent :=
  if value.isEmpty then .error .emptyIndent
  else
    match Text.word? value with
    | some count => .ok (.spaces count)
    | none =>
      if value.toList.map Char.toLower = ['t', 'a', 'b'] then .ok (.literal "\t")
      else .ok (.literal value)

def readTagName (value : String) : Except FlagProblem String :=
  if TagName.isValid value then .ok value else .error (.noTagName value)

inductive Format where
  | text
  | json
deriving DecidableEq, Repr, Inhabited

def Format.ofName? : String → Option Format
  | "text" => some .text
  | "json" => some .json
  | _ => none

end Shorthand.CommandLine
