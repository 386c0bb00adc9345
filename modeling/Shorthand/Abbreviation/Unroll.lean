import Shorthand.Abbreviation.Basic
import Shorthand.Numbering.Placeholder

/-! # Unrolling

Every node is replaced by as many copies as its multiplier says, each with its number in place of
the placeholders.  A node that is not repeated itself takes its number from the nearest repeated
ancestor.  Unrolling starts with room for a number of elements and halts when the room is used up, or
at a placeholder that is too long for its number.
-/
namespace Shorthand

/-- A copy of the nearest repeated ancestor: which of how many, and the number it shows. -/
structure Replica where
  index : UInt64
  count : UInt64
  number : UInt64
deriving DecidableEq, Repr, Inhabited

inductive Halt where
  /-- There is no room for the element with this span. -/
  | full (span : Span)
  /-- A run of `$` is too long, and the program crashes. -/
  | tooWide
deriving DecidableEq, Repr

namespace Head

/-- The number shown by copy `index` of a node, and the replica that its children inherit. -/
def numbered (head : Head) (inherited : Option Replica) (index : UInt64) :
    UInt64 × Option Replica :=
  match inherited with
  | some replica =>
    if head.multiplier = 1 then
      let number :=
        if head.numbering.isPlain then replica.number
        else head.numbering.number replica.index replica.count
      (number, some { replica with number })
    else own
  | none => own
where
  /-- The number by the node's own multiplier. -/
  own : UInt64 × Option Replica :=
    let number := head.numbering.number index head.multiplier
    (number, if 1 < head.multiplier then some ⟨index, head.multiplier, number⟩ else inherited)

/-- A single copy: the number replaces the placeholders, and nothing is left to repeat. -/
def copy? (head : Head) (number : UInt64) : Option Head :=
  (head.mapTemplates? (Numbering.substitute? · number)).map fun filled =>
    { filled with
      multiplier := 1
      numbering := .plain }

/-- The room left behind one more copy, of which there is none if the copy does not fit. -/
def occupy (head : Head) (room : Nat) : Except Halt Nat :=
  match head.kind, room with
  | .group, room => .ok room
  | .element, room + 1 => .ok room
  | .element, 0 => .error (.full head.span)

/-- The copies of a node from `index` on, with the children that `unrollChildren` makes for each. -/
def copies (head : Head) (inherited : Option Replica)
    (unrollChildren : Option Replica → Nat → Except Halt (Abbreviation × Nat)) :
    (remaining index room : Nat) → Except Halt (Abbreviation × Nat)
  | 0, _, room => .ok ([], room)
  | remaining + 1, index, room => do
    let (number, replica) := head.numbered inherited index.toUInt64
    let room ← head.occupy room
    let some copy := head.copy? number | .error .tooWide
    let (children, room) ← unrollChildren replica room
    let (rest, room) ← head.copies inherited unrollChildren remaining (index + 1) room
    return (.node copy children :: rest, room)

end Head

mutual

/-- The copies of one node and the room left behind them. -/
def unroll : Tree Head → Option Replica → Nat → Except Halt (Abbreviation × Nat)
  | .node head children, inherited, room =>
    head.copies inherited (unrollAll children) head.multiplier.toNat 1 room

def unrollAll : List (Tree Head) → Option Replica → Nat → Except Halt (Abbreviation × Nat)
  | [], _, room => .ok ([], room)
  | first :: rest, inherited, room => do
    let (front, room) ← unroll first inherited room
    let (back, room) ← unrollAll rest inherited room
    return (front ++ back, room)

end

end Shorthand
