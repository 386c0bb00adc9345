import Mathlib.Data.List.Forall2
import Shorthand.Forest

/-! # Walks over forests

The nodes of a forest are listed in preorder, with every node in front of its children and every
tree in front of the next one.  Together with the number of ancestors of each node, this list
determines the forest.  Labels can be changed without changing the shape.  Two lists of nodes are
compared node by node.
-/
namespace Shorthand

theorem exists_of_mem_right {α β : Type} {related : α → β → Prop} {left : List α} {right : List β}
    (h : List.Forall₂ related left right) {entry : β} (mem : entry ∈ right) :
    ∃ other ∈ left, related other entry := by
  induction h with
  | nil => cases mem
  | @cons first entry' _ _ here _ ih =>
    rcases List.mem_cons.1 mem with rfl | later
    · exact ⟨first, List.mem_cons_self, here⟩
    · obtain ⟨other, inside, related⟩ := ih later
      exact ⟨other, List.mem_cons_of_mem _ inside, related⟩

namespace Tree

variable {α β : Type}

mutual

/-- The labels of a tree in preorder, each with the number of its ancestors; the root has `depth`
of them. -/
def preorder (depth : Nat) : Tree α → List (Nat × α)
  | .node label children => (depth, label) :: preorderAll (depth + 1) children

def preorderAll (depth : Nat) : List (Tree α) → List (Nat × α)
  | [] => []
  | first :: rest => preorder depth first ++ preorderAll depth rest

end

@[simp] theorem preorderAll_singleton (depth : Nat) (tree : Tree α) :
    preorderAll depth [tree] = tree.preorder depth := by
  rw [preorderAll, preorderAll, List.append_nil]

theorem preorderAll_eq_flatMap (depth : Nat) (forest : Forest α) :
    preorderAll depth forest = forest.flatMap (preorder depth) := by
  induction forest with
  | nil => rfl
  | cons first rest ih => rw [preorderAll, ih, List.flatMap_cons]

theorem preorderAll_append (depth : Nat) (front back : Forest α) :
    preorderAll depth (front ++ back) = preorderAll depth front ++ preorderAll depth back := by
  induction front with
  | nil => rfl
  | cons first front ih => rw [List.cons_append, preorderAll, preorderAll, ih, List.append_assoc]

/-- Further children come behind all nodes that a tree has already. -/
theorem preorder_adopt (depth : Nat) (tree : Tree α) (more : Forest α) :
    (tree.adopt more).preorder depth = tree.preorder depth ++ preorderAll (depth + 1) more := by
  cases tree with
  | node label own => rw [adopt, preorder, preorder, preorderAll_append, List.cons_append]

theorem exists_mem_preorderAll {forest : Forest α} (nonempty : forest ≠ []) (depth : Nat) :
    ∃ label, (depth, label) ∈ preorderAll depth forest := by
  cases forest with
  | nil => exact absurd rfl nonempty
  | cons first rest =>
    cases first with
    | node label children => exact ⟨label, by simp [preorderAll, preorder]⟩

mutual

def height : Tree α → Nat
  | .node _ children => heightAll children + 1

def heightAll : List (Tree α) → Nat
  | [] => 0
  | first :: rest => max (height first) (heightAll rest)

end

theorem heightAll_append (front back : Forest α) :
    heightAll (front ++ back) = max (heightAll front) (heightAll back) := by
  induction front with
  | nil => exact (Nat.zero_max _).symm
  | cons first front ih => rw [List.cons_append, heightAll, heightAll, ih, Nat.max_assoc]

theorem heightAll_le_iff {forest : Forest α} {bound : Nat} :
    heightAll forest ≤ bound ↔ ∀ tree ∈ forest, height tree ≤ bound := by
  induction forest with
  | nil => simp [heightAll]
  | cons first rest ih => rw [heightAll, Nat.max_le, ih, List.forall_mem_cons]

mutual

theorem depth_lt_iff_height {depth bound : Nat} :
    (tree : Tree α) → ((∀ entry ∈ tree.preorder depth, entry.1 < bound) ↔
      depth + tree.height ≤ bound)
  | .node label children => by
    rw [preorder, height, List.forall_mem_cons]
    constructor
    · rintro ⟨here, below⟩
      have := (depth_lt_iff_heightAll here children).1 below
      omega
    · intro fits
      have here : depth < bound := by omega
      exact ⟨here, (depth_lt_iff_heightAll here children).2 (by omega)⟩

/-- The depths of the nodes of a forest stay below a bound if and only if its levels fit. -/
theorem depth_lt_iff_heightAll {depth bound : Nat} (start : depth ≤ bound) :
    (forest : List (Tree α)) → ((∀ entry ∈ preorderAll depth forest, entry.1 < bound) ↔
      depth + heightAll forest ≤ bound)
  | [] => by simpa [preorderAll, heightAll] using start
  | first :: rest => by
    rw [preorderAll, heightAll, List.forall_mem_append, depth_lt_iff_height first,
      depth_lt_iff_heightAll start rest]
    omega

end

/-- The labels on the way from a root down to a node, which is given by its place among its siblings
at each level. -/
def lineage : Forest α → List Nat → Option (List α)
  | _, [] => some []
  | forest, place :: rest =>
    forest[place]?.bind fun tree => (lineage tree.children rest).map (tree.label :: ·)

theorem lineage_cons_eq_some_iff {forest : Forest α} {place : Nat} {rest : List Nat}
    {labels : List α} :
    lineage forest (place :: rest) = some labels ↔
      ∃ label children below, forest[place]? = some (.node label children) ∧
        lineage children rest = some below ∧ label :: below = labels := by
  rw [lineage, Option.bind_eq_some_iff]
  constructor
  · rintro ⟨⟨label, children⟩, found, onward⟩
    obtain ⟨below, inside, same⟩ := Option.map_eq_some_iff.1 onward
    exact ⟨label, children, below, found, inside, same⟩
  · rintro ⟨label, children, below, found, inside, same⟩
    exact ⟨_, found, Option.map_eq_some_iff.2 ⟨below, inside, same⟩⟩

mutual

def map (f : α → β) : Tree α → Tree β
  | .node label children => .node (f label) (mapAll f children)

def mapAll (f : α → β) : List (Tree α) → List (Tree β)
  | [] => []
  | first :: rest => map f first :: mapAll f rest

end

theorem mapAll_eq_map (f : α → β) (forest : Forest α) : mapAll f forest = forest.map (map f) := by
  induction forest with
  | nil => rfl
  | cons first rest ih => rw [mapAll, ih, List.map_cons]

theorem mapAll_append (f : α → β) (front back : Forest α) :
    mapAll f (front ++ back) = mapAll f front ++ mapAll f back := by
  induction front with
  | nil => rfl
  | cons first front ih => rw [List.cons_append, mapAll, mapAll, ih, List.cons_append]

mutual

def labels : Tree α → List α
  | .node label children => label :: labelsAll children

def labelsAll : List (Tree α) → List α
  | [] => []
  | first :: rest => labels first ++ labelsAll rest

end

theorem mem_labelsAll {label : α} {forest : Forest α} :
    label ∈ labelsAll forest ↔ ∃ tree ∈ forest, label ∈ tree.labels := by
  induction forest with
  | nil => simp [labelsAll]
  | cons first rest ih => simp [labelsAll, ih]

theorem labelsAll_eq_flatMap (forest : Forest α) : labelsAll forest = forest.flatMap labels := by
  induction forest with
  | nil => rfl
  | cons first rest ih => rw [labelsAll, ih, List.flatMap_cons]

theorem labelsAll_append (front back : Forest α) :
    labelsAll (front ++ back) = labelsAll front ++ labelsAll back := by
  induction front with
  | nil => rfl
  | cons first front ih => rw [List.cons_append, labelsAll, labelsAll, ih, List.append_assoc]

theorem length_labelsAll_pos {forest : Forest α} (nonempty : forest ≠ []) :
    0 < (labelsAll forest).length := by
  obtain ⟨⟨label, children⟩, rest, rfl⟩ := List.exists_cons_of_ne_nil nonempty
  exact Nat.succ_pos _

mutual

theorem labels_map (f : α → β) : (tree : Tree α) → (tree.map f).labels = tree.labels.map f
  | .node label children => by rw [map, labels, labels, labelsAll_mapAll f children, List.map_cons]

theorem labelsAll_mapAll (f : α → β) :
    (forest : List (Tree α)) → labelsAll (mapAll f forest) = (labelsAll forest).map f
  | [] => rfl
  | first :: rest => by
    rw [mapAll, labelsAll, labelsAll, labels_map f first, labelsAll_mapAll f rest, List.map_append]

end

mutual

theorem height_map (f : α → β) : (tree : Tree α) → (tree.map f).height = tree.height
  | .node label children => by rw [map, height, height, heightAll_mapAll f children]

theorem heightAll_mapAll (f : α → β) :
    (forest : List (Tree α)) → heightAll (mapAll f forest) = heightAll forest
  | [] => rfl
  | first :: rest => by
    rw [mapAll, heightAll, heightAll, height_map f first, heightAll_mapAll f rest]

end

mutual

theorem map_snd_preorder (depth : Nat) :
    (tree : Tree α) → (tree.preorder depth).map (·.2) = tree.labels
  | .node label children => by
    rw [preorder, labels, List.map_cons, map_snd_preorderAll (depth + 1) children]

theorem map_snd_preorderAll (depth : Nat) :
    (forest : List (Tree α)) → (preorderAll depth forest).map (·.2) = labelsAll forest
  | [] => rfl
  | first :: rest => by
    rw [preorderAll, labelsAll, List.map_append, map_snd_preorder depth first,
      map_snd_preorderAll depth rest]

end

/-- The forest without its labels. -/
def shapeAll (forest : Forest α) : Forest Unit := mapAll (fun _ => ()) forest

theorem shapeAll_append (front back : Forest α) :
    shapeAll (front ++ back) = shapeAll front ++ shapeAll back := mapAll_append _ front back

theorem shapeAll_flatMap (entries : List β) (f : β → Forest α) :
    shapeAll (entries.flatMap f) = entries.flatMap fun entry => shapeAll (f entry) := by
  simp only [shapeAll, mapAll_eq_map, List.map_flatMap]

mutual

theorem leafCount_map (f : α → β) : (tree : Tree α) → (tree.map f).leafCount = tree.leafCount
  | .node _ [] => rfl
  | .node label (first :: rest) => by
    rw [map, mapAll, leafCount, leafCount, leafCount_map f first, leafCountAll_mapAll f rest]

theorem leafCountAll_mapAll (f : α → β) :
    (forest : List (Tree α)) → leafCountAll (mapAll f forest) = leafCountAll forest
  | [] => rfl
  | first :: rest => by
    rw [mapAll, leafCountAll, leafCountAll, leafCount_map f first, leafCountAll_mapAll f rest]

end

theorem leafCountAll_eq_of_shapeAll {one : Forest α} {other : Forest β}
    (same : shapeAll one = shapeAll other) : leafCountAll one = leafCountAll other := by
  rw [← leafCountAll_mapAll (fun _ => ()) one, ← leafCountAll_mapAll (fun _ => ()) other]
  exact congrArg leafCountAll same

theorem leafCountAll_append (front back : Forest α) :
    leafCountAll (front ++ back) = leafCountAll front + leafCountAll back := by
  induction front with
  | nil => exact (Nat.zero_add _).symm
  | cons first front ih => rw [List.cons_append, leafCountAll, leafCountAll, ih, Nat.add_assoc]

theorem leafCountAll_flatten_of_shapeAll {forests : List (Forest α)} {one : Forest β}
    (same : ∀ forest ∈ forests, shapeAll forest = shapeAll one) :
    leafCountAll forests.flatten = forests.length * leafCountAll one := by
  induction forests with
  | nil => exact (Nat.zero_mul _).symm
  | cons first rest ih =>
    obtain ⟨here, there⟩ := List.forall_mem_cons.1 same
    rw [List.flatten_cons, leafCountAll_append, leafCountAll_eq_of_shapeAll here, ih there,
      List.length_cons, Nat.succ_mul, Nat.add_comm]

mutual

/-- The nodes of a tree in preorder, each followed by its ancestors from the inside out; `above` are
those of the root. -/
def branches (above : List α) : Tree α → List (List α)
  | .node label children => (label :: above) :: branchesAll (label :: above) children

def branchesAll (above : List α) : List (Tree α) → List (List α)
  | [] => []
  | first :: rest => branches above first ++ branchesAll above rest

end

theorem branchesAll_singleton (above : List α) (tree : Tree α) :
    branchesAll above [tree] = branches above tree := by
  rw [branchesAll, branchesAll, List.append_nil]

theorem branchesAll_append (above : List α) (front back : Forest α) :
    branchesAll above (front ++ back) = branchesAll above front ++ branchesAll above back := by
  induction front with
  | nil => rfl
  | cons first front ih => rw [List.cons_append, branchesAll, branchesAll, ih, List.append_assoc]

end Tree

end Shorthand
