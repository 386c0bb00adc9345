import Shorthand.FileTree

/-! # Paths and files

The place of a path below a directory depends on the place of the directory alone.  A file that is
written where nothing was closes no way and changes no other entry.
-/
namespace Shorthand.FileTree

variable {tree other : FileTree} {location : Location} {content : ByteArray}

/-! ## Paths -/

theorem steps_ne_nil (path : String) : steps path ≠ [] := by
  rw [steps, Ne, List.map_eq_nil_iff]
  exact List.splitOnP_ne_nil _ _

theorem steps_append_slash (front name : String) :
    steps (front ++ "/" ++ name) = steps front ++ steps name := by
  have slash : ('/' == '/') = true := rfl
  have split := List.splitOnP_append_cons (p := (· == '/')) front.toList name.toList slash
  simp [steps, split]

theorem walk_append (tree : FileTree) (place front rest : List String) :
    tree.walk place (front ++ rest) = (tree.walk place front).bind (tree.walk · rest) := by
  induction front generalizing place with
  | nil => rfl
  | cons step front ih =>
    simp only [List.cons_append, walk, ih]
    split
    next => rfl
    next =>
      split
      next => rfl
      next => split <;> rfl

theorem walk_blank (tree : FileTree) (place : List String) {rest : List String}
    (more : rest ≠ []) : tree.walk place ("" :: rest) = tree.walk place rest := by
  obtain ⟨step, rest, rfl⟩ := List.exists_cons_of_ne_nil more
  cases standing : tree.isOpen place <;> simp [walk, standing]

theorem isOpen_way (tree : FileTree) : tree.isOpen tree.way = true := by
  simp [isOpen]

theorem base_append (tree : FileTree) {front : String} (nonempty : front ≠ "") (back : String) :
    tree.base (front ++ back) = tree.base front := by
  obtain ⟨c, chars, first⟩ := List.exists_cons_of_ne_nil (show front.toList ≠ [] by simpa)
  simp [base, first]

theorem join_of_slash {root : String} (slash : root.toList.getLast? = some '/') (name : String) :
    join root name = root ++ name := by
  simp [join, slash]

theorem join_of_ne {root : String} (nonempty : root ≠ "")
    (plain : root.toList.getLast? ≠ some '/') (name : String) :
    join root name = root ++ "/" ++ name := by
  rw [join, if_neg]
  simpa [nonempty] using plain

/-- A path with a name under it leads on from the place of the path. -/
theorem place?_join (tree : FileTree) (root : String) {name : String}
    (relative : name.toList.head? ≠ some '/') :
    tree.place? (join root name) =
      (tree.place? root).bind fun place => tree.walk place (steps name) := by
  by_cases empty : root = ""
  · subst empty
    have stays : tree.place? "" = some tree.way := by
      change tree.walk tree.way [""] = _
      simp [walk, isOpen_way]
    have here : join "" name = name := String.empty_append
    rw [stays, here, place?, base, if_neg relative]
    rfl
  by_cases slash : root.toList.getLast? = some '/'
  · obtain ⟨chars, back⟩ := List.getLast?_eq_some_iff.1 slash
    obtain ⟨front, rfl⟩ : ∃ front, root = front ++ "/" :=
      ⟨String.ofList chars, String.toList_inj.1 (by simp [back])⟩
    have steps_root : steps (front ++ "/") = steps front ++ [""] := by
      rw [← String.append_empty (s := front ++ "/"), steps_append_slash]
      rfl
    rw [place?, place?, join_of_slash slash, base_append tree empty, steps_append_slash, steps_root,
      walk_append, walk_append, Option.bind_assoc]
    refine congrArg _ (funext fun place => ?_)
    rw [← walk_append]
    exact (walk_blank tree place (steps_ne_nil name)).symm
  · rw [place?, place?, join_of_ne empty slash, steps_append_slash, walk_append, String.append_assoc,
      base_append tree empty]

/-- A name leads into the place that it stands in. -/
theorem walk_name (tree : FileTree) (place rest : List String) {step : String}
    (plain : step ≠ "" ∧ step ≠ "." ∧ step ≠ "..") :
    tree.walk place (step :: rest) =
      if tree.isOpen place then tree.walk (place ++ [step]) rest else none := by
  obtain ⟨filled, stays, climbs⟩ := plain
  cases standing : tree.isOpen place <;> simp [walk, standing, filled, stays, climbs]

theorem below?_eq_some_iff {place : List String} :
    tree.below? place = some location ↔ place = tree.way ++ location := by
  unfold below?
  split
  next inside =>
    obtain ⟨back, rfl⟩ := List.isPrefixOf_iff_prefix.1 inside
    simp [eq_comm]
  next outside =>
    constructor
    · intro found
      cases found
    · rintro rfl
      exact absurd (List.isPrefixOf_iff_prefix.2 (List.prefix_append _ _)) outside

theorem locate_eq_some_iff {path : String} :
    tree.locate path = some location ↔ tree.place? path = some (tree.way ++ location) := by
  rw [locate, Option.bind_eq_some_iff]
  constructor
  · rintro ⟨place, found, below⟩
    rw [found, below?_eq_some_iff.1 below]
  · exact fun found => ⟨_, found, below?_eq_some_iff.2 rfl⟩

/-! ## Entries -/

theorem isDirectory_eq_true_iff :
    tree.isDirectory location = true ↔ tree.entryAt location = some .directory := by
  unfold isDirectory
  split <;> simp_all

theorem read_eq_some_iff {path : String} :
    tree.read path = some content ↔
      ∃ location, tree.locate path = some location ∧
        tree.entryAt location = some (.file content) := by
  rw [← Option.bind_eq_some_iff, read]
  generalize (tree.locate path).bind tree.entryAt = entry
  obtain _ | (content | _) := entry <;> simp

/-- Trees with the same origin and the same directories have the same ways. -/
structure SameWays (tree other : FileTree) : Prop where
  origin : tree.origin = other.origin
  isDirectory : ∀ location, tree.isDirectory location = other.isDirectory location

theorem SameWays.way_eq (h : tree.SameWays other) : tree.way = other.way := by
  rw [way, way, h.origin]

theorem SameWays.below?_eq (h : tree.SameWays other) : tree.below? = other.below? := by
  funext place
  rw [below?, below?, h.way_eq]

theorem SameWays.walk_eq (h : tree.SameWays other) (place steps : List String) :
    tree.walk place steps = other.walk place steps := by
  have standing (place : List String) : tree.isOpen place = other.isOpen place := by
    rw [isOpen, isOpen, h.way_eq, h.below?_eq, funext h.isDirectory]
  induction steps generalizing place with
  | nil => rfl
  | cons step rest ih => simp only [walk, standing, ih]

theorem SameWays.place?_eq (h : tree.SameWays other) (path : String) :
    tree.place? path = other.place? path := by
  rw [place?, place?, h.walk_eq, base, base, h.way_eq]

theorem SameWays.locate_eq (h : tree.SameWays other) (path : String) :
    tree.locate path = other.locate path := by
  rw [locate, locate, h.place?_eq, h.below?_eq]

/-! ## Writing -/

theorem lookup_cons (asked location : Location) (entry : FileEntry)
    (entries : List (Location × FileEntry)) :
    ((location, entry) :: entries).lookup asked =
      if asked = location then some entry else entries.lookup asked := by
  by_cases same : asked = location
  · simp [same]
  · simp [List.lookup_cons, beq_eq_false_iff_ne.2 same, same]

theorem lookup_put (location asked : Location) (entry : FileEntry)
    (entries : List (Location × FileEntry)) :
    (put location entry entries).lookup asked =
      if asked = location then some entry else entries.lookup asked := by
  induction entries with
  | nil => rw [put, lookup_cons]
  | cons first rest ih =>
    obtain ⟨place, old⟩ := first
    rw [put]
    split
    next replaced =>
      rw [lookup_cons, lookup_cons, replaced]
      split <;> rfl
    next kept =>
      rw [lookup_cons, lookup_cons, ih]
      split
      next same => rw [if_neg (same ▸ kept)]
      next => rfl

def withFile (tree : FileTree) (location : Location) (content : ByteArray) : FileTree :=
  { tree with entries := put location (.file content) tree.entries }

theorem write_eq_some_iff {path : String} :
    tree.write path content = some other ↔
      ∃ location, tree.locate path = some location ∧ tree.isDirectory location = false ∧
        other = tree.withFile location content := by
  rw [write, Option.bind_eq_bind, Option.bind_eq_some_iff]
  refine exists_congr fun location => and_congr_right fun _ => ?_
  cases tree.isDirectory location <;> simp [withFile, eq_comm]

theorem entryAt_withFile (unopened : tree.isDirectory location = false) (content : ByteArray)
    (asked : Location) :
    (tree.withFile location content).entryAt asked =
      if asked = location then some (.file content) else tree.entryAt asked := by
  cases asked with
  | nil =>
    have deeper : [] ≠ location := by
      rintro rfl
      cases unopened
    rw [if_neg deeper]
    rfl
  | cons => exact lookup_put location _ (.file content) tree.entries

theorem sameWays_withFile (unopened : tree.isDirectory location = false) (content : ByteArray) :
    (tree.withFile location content).SameWays tree where
  origin := rfl
  isDirectory asked := by
    by_cases same : asked = location
    · subst same
      rw [unopened, isDirectory, entryAt_withFile unopened, if_pos rfl]
    · rw [isDirectory, entryAt_withFile unopened, if_neg same]
      rfl

end Shorthand.FileTree
