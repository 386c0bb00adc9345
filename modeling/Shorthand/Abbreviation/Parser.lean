import Shorthand.Abbreviation.Basic
import Shorthand.Fault

/-! # Parsing

A parser reads tokens from left to right.  Its state is the stack of open levels, the nodes of the
innermost level that are complete, and the item under way.  A `>` opens a level under the item in
front of it, and so does a parenthesis; the number of open levels is the depth.
-/
namespace Shorthand.Parser

/-- An open level below the innermost one: what was complete in it, and what waits for the level
above to close. -/
inductive Frame where
  /-- Opened by `>`: the level above holds the children of `parent`. -/
  | children (before : Abbreviation) (parent : Node)
  /-- Opened by the parenthesis at `opened`. -/
  | group (before : Abbreviation) (opened : Span)
deriving Inhabited

/-- The parts of the element under way.  A part that an element has at most once is absent until it
has been read. -/
structure Parts where
  tag : Option String := none
  classes : List String := []
  id : Option String := none
  attributes : Option (List Attribute) := none
  text : Option String := none
  multiplier : Option UInt64 := none

inductive Item where
  /-- No item: one has to start here. -/
  | missing
  /-- An element whose parts read so far cover `span`. -/
  | element (parts : Parts) (span : Span)
  /-- A group whose multiplier may follow. -/
  | group (head : Head) (children : Abbreviation)
  /-- A complete item. -/
  | complete (node : Node)
  /-- A complete item that was climbed back to; one more `^` may follow, or the next item. -/
  | climbed (node : Node)

structure State where
  /-- The open levels, innermost first. -/
  frames : List Frame := []
  /-- The complete nodes of the innermost level in front of the item under way. -/
  before : Abbreviation := []
  item : Item := .missing

def grammarFault (problem : GrammarProblem) (span : Span) : Fault := ⟨.grammar problem, span⟩

namespace Parts

/-- The parts of an element that a token starts. -/
def start? : Token → Option Parts
  | .tagName name => some { tag := some name }
  | .className name => some { classes := [name] }
  | .idName name => some { id := some name }
  | .attributes entries => some { attributes := some entries }
  | .text content => some { text := some content }
  | .multiplier count => some { multiplier := some count }
  | _ => none

inductive Addition where
  | added (parts : Parts)
  | repeated (part : Part)
  /-- The token is no part of the element. -/
  | foreign

def add (parts : Parts) : Token → Addition
  | .className name => .added { parts with classes := parts.classes ++ [name] }
  | .idName name =>
    if parts.id.isSome then .repeated .id else .added { parts with id := some name }
  | .attributes entries =>
    if parts.attributes.isSome then .repeated .attributes
    else .added { parts with attributes := some entries }
  | .text content =>
    if parts.text.isSome then .repeated .text else .added { parts with text := some content }
  | .multiplier count =>
    if parts.multiplier.isSome then .repeated .multiplier
    else .added { parts with multiplier := some count }
  | _ => .foreign

def head (parts : Parts) (span : Span) : Head where
  kind := .element
  tag := parts.tag
  classes := parts.classes
  id := parts.id
  attributes := parts.attributes.getD []
  text := parts.text
  multiplier := parts.multiplier.getD 1
  span := span

def finish (parts : Parts) (span : Span) : Except Fault Node :=
  match (parts.head span).settleNumbering with
  | some head => .ok (.node head [])
  | none => .error (grammarFault .conflictingNumbering span)

end Parts

/-- The levels of a group above its own, closed into the nodes of the group.  Gives the frame of the
group's parenthesis, if there is one, and what lies below it. -/
def closeLevels : List Frame → Abbreviation → Abbreviation × Option (Abbreviation × Span × List Frame)
  | [], level => (level, none)
  | .children before parent :: frames, level =>
    closeLevels frames (before ++ [parent.adopt level])
  | .group before opened :: frames, level => (level, some (before, opened, frames))

/-- Opens one more level, if the limit allows it. -/
def enter (maxDepth : Nat) (frame : Frame) (frames : List Frame) (span : Span) :
    Except Fault State :=
  if frames.length < maxDepth then .ok { frames := frame :: frames }
  else .error ⟨.limit maxDepth .levels, span⟩

def startItem (maxDepth : Nat) (frames : List Frame) (before : Abbreviation) (placed : PlacedToken) :
    Except Fault State :=
  if placed.token = .openGroup then
    enter maxDepth (.group before placed.span) frames placed.span
  else
    match Parts.start? placed.token with
    | some parts => .ok { frames, before, item := .element parts placed.span }
    | none => .error (grammarFault (.expectedElement (some placed.token)) placed.span)

def climb (frames : List Frame) (before : Abbreviation) (node : Node) (span : Span) :
    Except Fault State :=
  match frames with
  | .children outer parent :: frames =>
    .ok { frames, before := outer, item := .climbed (parent.adopt (before ++ [node])) }
  | _ => .error (grammarFault .climbAtRoot span)

/-- Closes the innermost group, whose last level is `level`. -/
def closeGroup (frames : List Frame) (level : Abbreviation) (span : Span) : Except Fault State :=
  match closeLevels frames level with
  | (children, some (before, opened, frames)) =>
    let head : Head := { kind := .group, span := ⟨opened.start, span.stop⟩ }
    .ok { frames, before, item := .group head children }
  | (_, none) => .error (grammarFault .unopenedGroup span)

def continueFrom (maxDepth : Nat) (frames : List Frame) (before : Abbreviation) (node : Node)
    (placed : PlacedToken) : Except Fault State :=
  match placed.token with
  | .child => enter maxDepth (.children before node) frames placed.span
  | .sibling => .ok { frames, before := before ++ [node] }
  | .climb => climb frames before node placed.span
  | .closeGroup => closeGroup frames (before ++ [node]) placed.span
  | token => .error (grammarFault (.expectedOperator token) placed.span)

namespace State

def step (maxDepth : Nat) (state : State) (placed : PlacedToken) : Except Fault State :=
  match state.item with
  | .missing => startItem maxDepth state.frames state.before placed
  | .element parts span =>
    match parts.add placed.token with
    | .added parts =>
      .ok { state with item := .element parts ⟨span.start, placed.span.stop⟩ }
    | .repeated part => .error (grammarFault (.repeatedPart part) placed.span)
    | .foreign => do
      let node ← parts.finish span
      continueFrom maxDepth state.frames state.before node placed
  | .group head children =>
    match placed.token with
    | .multiplier count =>
      let head := { head with multiplier := count, span := ⟨head.span.start, placed.span.stop⟩ }
      .ok { state with item := .complete (.node head children) }
    | _ => continueFrom maxDepth state.frames state.before (.node head children) placed
  | .complete node => continueFrom maxDepth state.frames state.before node placed
  | .climbed node =>
    if placed.token = .climb then climb state.frames state.before node placed.span
    else startItem maxDepth state.frames (state.before ++ [node]) placed

/-- The nodes of the outermost level, once the last of the innermost is complete. -/
def close (state : State) (node : Node) : Except Fault Abbreviation :=
  match closeLevels state.frames (state.before ++ [node]) with
  | (nodes, none) => .ok nodes
  | (_, some (_, opened, _)) => .error (grammarFault .unclosedGroup opened)

/-- What has been read when the input ends at byte `stop`. -/
def finish (stop : Nat) (state : State) : Except Fault Abbreviation :=
  match state.item with
  | .missing | .climbed _ => .error (grammarFault (.expectedElement none) ⟨stop, stop⟩)
  | .element parts span => do
    let node ← parts.finish span
    state.close node
  | .group head children => state.close (.node head children)
  | .complete node => state.close node

def run (maxDepth : Nat) : State → List PlacedToken → Except Fault State
  | state, [] => .ok state
  | state, placed :: rest => do
    let next ← state.step maxDepth placed
    run maxDepth next rest

end State

end Shorthand.Parser

namespace Shorthand

def parseTokens (stop : Nat) (maxDepth : Nat) (tokens : List PlacedToken) :
    Except Fault Abbreviation := do
  let state ← Parser.State.run maxDepth {} tokens
  state.finish stop

end Shorthand
