/-! # Forests

Rose trees whose nodes carry a label.  A forest is a list of trees.
-/
namespace Shorthand

inductive Tree (α : Type) where
  | node (label : α) (children : List (Tree α))
deriving Inhabited

abbrev Forest (α : Type) := List (Tree α)

namespace Tree

variable {α : Type}

def label : Tree α → α
  | .node label _ => label

def children : Tree α → Forest α
  | .node _ children => children

@[simp] theorem label_node (a : α) (ts : Forest α) : (Tree.node a ts).label = a := rfl

@[simp] theorem children_node (a : α) (ts : Forest α) : (Tree.node a ts).children = ts := rfl

/-- What holds of a node whenever it holds of its children holds of all trees. -/
@[elab_as_elim]
theorem induct {motive : Tree α → Prop}
    (node : ∀ label children, (∀ child ∈ children, motive child) → motive (.node label children)) :
    (tree : Tree α) → motive tree
  | .node label children => node label children fun child _ => induct node child

/-- The tree with more children behind its own. -/
def adopt : Tree α → Forest α → Tree α
  | .node label own, more => .node label (own ++ more)

mutual

/-- The number of nodes without children. -/
def leafCount : Tree α → Nat
  | .node _ [] => 1
  | .node _ (first :: rest) => leafCount first + leafCountAll rest

def leafCountAll : List (Tree α) → Nat
  | [] => 0
  | first :: rest => leafCount first + leafCountAll rest

end

end Tree

end Shorthand
