import Shorthand.Abbreviation.Parser
import Shorthand.Abbreviation.Resolve
import Shorthand.Abbreviation.Unroll
import Shorthand.Options
import Shorthand.Token.Lexer

/-! # Expanding abbreviations

The text of an abbreviation is split into tokens, parsed into a forest, unrolled, given its tags and
turned into a markup tree, which can be written as text.  Every step is a function of its input, and
may fail with an error.  Only unrolling may also make the program crash.
-/
namespace Shorthand

def tokenize (source : String) : Except Error (List PlacedToken) :=
  locate source (lex source)

/-- The forest that the tokens of a source stand for. -/
def parse (source : String) (maxDepth : Nat) (tokens : List PlacedToken) :
    Except Error Abbreviation :=
  locate source (parseTokens source.utf8ByteSize maxDepth tokens)

def parseAbbreviation (source : String) (maxDepth : Nat) : Except Error Abbreviation := do
  let tokens ← tokenize source
  parse source maxDepth tokens

/-- The forest of a source unrolled into at most `limit` elements. -/
def unrollNodes (source : String) (limit : Nat) (nodes : Abbreviation) :
    Except Failure Abbreviation :=
  match unrollAll nodes none limit with
  | .ok (copies, _) => .ok copies
  | .error (.full span) =>
    .error (.reported (.located ⟨.limit limit .nodes, span⟩ (offsetAt source span.start)))
  | .error .tooWide => .error .crash

def expandTree (source : String) (options : Options) : Except Failure Markup := do
  options.validate.mapError .reported
  let nodes ← (parseAbbreviation source options.maxDepth).mapError .reported
  let copies ← unrollNodes source options.maxNodes nodes
  let resolved := resolveAll options.implicitTags options.defaultTag none copies
  return markupAll options.defaultTag resolved

def expand (source : String) (options : Options) : Except Failure String :=
  (expandTree source options).map (render options.toStyle)

end Shorthand
