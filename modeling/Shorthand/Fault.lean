import Shorthand.Text.Escape
import Shorthand.Token.Basic

/-! # Faults of an abbreviation

A fault is a problem together with the span it is blamed on.  Problems are causes; the words of a
message are chosen here and nowhere else.
-/
namespace Shorthand

inductive SpellingProblem where
  | invalidCharacter (c : Char)
  | unterminatedAttributes
  | unterminatedText
  | namelessAttribute
  | quoteInName
  | missingCount
  | zeroCount
  | looseModifier
  | secondId
  | missingClassName
  | missingIdName
deriving DecidableEq, Repr

/-- The parts that an element has at most once, apart from its tag. -/
inductive Part where
  | id
  | attributes
  | text
  | multiplier
deriving DecidableEq, Repr

inductive GrammarProblem where
  /-- An element should start here; no token stands for the end of the input. -/
  | expectedElement (found : Option Token)
  | expectedOperator (found : Token)
  | repeatedPart (part : Part)
  | climbAtRoot
  | unclosedGroup
  | unopenedGroup
  | conflictingNumbering
deriving DecidableEq, Repr

inductive Resource where
  | nodes
  | levels
deriving DecidableEq, Repr

inductive Problem where
  | spelling (problem : SpellingProblem)
  /-- A multiplier, as it is spelled, that does not fit a word. -/
  | multiplier (spelled : String)
  | grammar (problem : GrammarProblem)
  | limit (most : Nat) (resource : Resource)
deriving DecidableEq, Repr

structure Fault where
  problem : Problem
  span : Span
deriving DecidableEq, Repr

namespace SpellingProblem

def message : SpellingProblem → String
  | invalidCharacter c => "invalid character `" ++ String.ofList (Text.escape c) ++ "`"
  | unterminatedAttributes => "unterminated attribute block, expected `]`"
  | unterminatedText => "unterminated text block, expected `\x7d`"
  | namelessAttribute => "attribute is missing a name"
  | quoteInName => "unexpected quote in attribute name"
  | missingCount => "expected a number after `*`"
  | zeroCount => "multiplier must be at least 1"
  | looseModifier => "numbering modifier `@` must follow a `$` placeholder"
  | secondId => "an element can only have one id"
  | missingClassName => "expected a class name after `.`"
  | missingIdName => "expected an id after `#`"

end SpellingProblem

def Part.title : Part → String
  | id => "id"
  | attributes => "attribute block"
  | text => "text block"
  | multiplier => "multiplier"

namespace GrammarProblem

/-- What should have stood at the place of the fault. -/
def expected : GrammarProblem → String
  | expectedElement _ => "an element"
  | expectedOperator _ => "an operator (`>`, `+`, `^`)"
  | repeatedPart part => "at most one " ++ part.title ++ " per element"
  | climbAtRoot => "a nested element to climb out of"
  | unclosedGroup => "a closing `)`"
  | unopenedGroup => "end of input"
  | conflictingNumbering => "a single numbering modifier per element"

def found : GrammarProblem → String
  | expectedElement none => "end of input"
  | expectedElement (some token) => token.describe
  | expectedOperator token => token.describe
  | repeatedPart part => "a second " ++ part.title
  | climbAtRoot => "`^` at the root level"
  | unclosedGroup => "unmatched `(`"
  | unopenedGroup => "unmatched `)`"
  | conflictingNumbering => "conflicting numbering modifiers"

end GrammarProblem

def Resource.title : Resource → String
  | nodes => "nodes"
  | levels => "nesting levels"

/-- The message about a problem found behind `offset` characters. -/
def Problem.message (offset : Nat) : Problem → String
  | spelling problem => problem.message ++ " at offset " ++ toString offset
  | multiplier spelled => "invalid multiplier `" ++ spelled ++ "` at offset " ++ toString offset
  | grammar problem =>
    "expected " ++ problem.expected ++ ", found " ++ problem.found ++ " at offset " ++
      toString offset
  | limit most resource =>
    "expansion exceeds the limit of " ++ toString most ++ " " ++ resource.title

end Shorthand
