import Mathlib.Algebra.Group.Nat.Defs
import Shorthand.Proofs.Abbreviation.Weight
import Shorthand.Proofs.Numbering.Sequence

/-! # Routes to copies

A route leads from a root down to a copy: at each level it tells which of its siblings a node is and
which copy of the node is meant.  Unrolling makes one copy at the end of each route, in the order of
the routes, unless a placeholder there is too long.  The number that a copy shows can be read off its
route, from the nearest repeated node and the nearest numbering below that is not plain.
-/
namespace Shorthand

structure Step where
  /-- The place of the node among its siblings, from 0. -/
  place : Nat
  head : Head
  /-- The copy of the node, from 1. -/
  index : UInt64

/-- Earlier siblings come first, and of one node the earlier copies. -/
def Step.Before (one other : Step) : Prop :=
  one.place < other.place ∨ one.place = other.place ∧ one.index < other.index

abbrev Route := List Step

namespace Route

def address (route : Route) : List Nat := route.map (·.place)

def path (route : Route) : Path := (route.map fun step => (step.head, step.index)).reverse

def Fits (route : Route) : Prop := ∀ step ∈ route.getLast?, step.head.Fits

/-- The nodes of a route follow each other in a forest, and each has the copy that is meant. -/
structure LeadsInto (forest : Abbreviation) (route : Route) : Prop where
  nonempty : route ≠ []
  descends : Tree.lineage forest route.address = some (route.map (·.head))
  counted : ∀ step ∈ route, 1 ≤ step.index ∧ step.index ≤ step.head.multiplier

theorem path_cons (step : Step) (route : Route) (above : Path) :
    path (step :: route) ++ above = route.path ++ (step.head, step.index) :: above := by
  rw [path, path, List.map_cons, List.reverse_cons, List.append_assoc, List.singleton_append]

theorem fits_iff {route : Route} (nonempty : route ≠ []) : route.Fits ↔ route.path.node.Fits := by
  obtain ⟨front, last, rfl⟩ := (List.eq_nil_or_concat route).resolve_left nonempty
  rw [Fits, List.concat_eq_append, List.getLast?_concat, path, List.map_append, List.reverse_append]
  simp only [Option.mem_some_iff, forall_eq']
  rfl

theorem leadsInto_cons_iff {forest : Abbreviation} {step : Step} {route : Route} :
    LeadsInto forest (step :: route) ↔
      ∃ children, forest[step.place]? = some (.node step.head children) ∧
        (1 ≤ step.index ∧ step.index ≤ step.head.multiplier) ∧
          (route = [] ∨ LeadsInto children route) := by
  constructor
  · rintro ⟨-, descends, counted⟩
    obtain ⟨_, children, _, found, inside, same⟩ := Tree.lineage_cons_eq_some_iff.1 descends
    cases same
    rw [List.forall_mem_cons] at counted
    refine ⟨children, found, counted.1, ?_⟩
    by_cases last : route = []
    · exact .inl last
    · exact .inr ⟨last, inside, counted.2⟩
  · rintro ⟨children, found, counted, onward⟩
    refine ⟨List.cons_ne_nil _ _,
      Tree.lineage_cons_eq_some_iff.2 ⟨_, children, _, found, ?_, rfl⟩, ?_⟩
    · rcases onward with rfl | onward
      · rfl
      · exact onward.descends
    · rw [List.forall_mem_cons]
      rcases onward with rfl | onward
      · exact ⟨counted, by simp⟩
      · exact ⟨counted, onward.counted⟩

end Route

/-! ## Numbers -/

namespace Path

/-- The nearest numbering that is not plain, among the nodes below the nearest repeated one. -/
def renumbering? (path : Path) : Option Numbering :=
  ((path.takeWhile fun entry => !decide (1 < entry.1.multiplier)).map (·.1.numbering)).find?
    fun numbering => !numbering.isPlain

/-- The number of the copy at the end of a path: that of the copy of the nearest repeated node, counted
in the way of this node unless a node below it counts otherwise. -/
def number (path : Path) : UInt64 :=
  match path.repeated? with
  | some (repeated, index) =>
    (path.renumbering?.getD repeated.numbering).number index repeated.multiplier
  | none => (path.head?.map fun entry => entry.1.numbering.number 1 1).getD 0

theorem number_of_repeated {head : Head} (many : 1 < head.multiplier) (index : UInt64)
    (above : Path) :
    number ((head, index) :: above) = head.numbering.number index head.multiplier := by
  rw [number, repeated?_cons, if_pos many, renumbering?,
    List.takeWhile_cons_of_neg (by simpa using many)]
  rfl

/-- Below a repeated node, a node that is not repeated takes over the number above it or counts
otherwise. -/
theorem number_of_single {head repeated : Head} {i : UInt64} {above : Path}
    (once : ¬ 1 < head.multiplier) (found : repeated? above = some (repeated, i))
    (index : UInt64) :
    number ((head, index) :: above) =
      if head.numbering.isPlain then number above
      else head.numbering.number i repeated.multiplier := by
  rw [number, number, repeated?_cons, if_neg once, found, renumbering?,
    List.takeWhile_cons_of_pos (by simpa using once), List.map_cons]
  by_cases plain : head.numbering.isPlain = true
  · rw [List.find?_cons_of_neg (by simpa using plain), if_pos plain]
    rfl
  · rw [List.find?_cons_of_pos (by simpa using plain), if_neg plain]
    rfl

theorem shown_eq_number {path : Path}
    (counted : ∀ entry ∈ path, 1 ≤ entry.2 ∧ entry.2 ≤ entry.1.multiplier) :
    path.shown = path.number := by
  induction path with
  | nil => rfl
  | cons entry above ih =>
    obtain ⟨head, index⟩ := entry
    obtain ⟨⟨low, high⟩, counted⟩ := List.forall_mem_cons.1 counted
    rw [shown]
    by_cases many : 1 < head.multiplier
    · have repeats : head.multiplier ≠ 1 := by
        rintro single
        rw [single] at many
        exact absurd many (by decide)
      rw [number_of_repeated many]
      cases repeated? above with
      | none => rfl
      | some entry => exact if_neg repeats
    · have single : head.multiplier = 1 :=
        UInt64.le_antisymm (UInt64.not_lt.1 many) (UInt64.le_trans low high)
      cases found : repeated? above with
      | some entry =>
        obtain ⟨repeated, i⟩ := entry
        rw [number_of_single many found, ← ih counted]
        exact if_pos single
      | none =>
        have first : index = 1 := UInt64.le_antisymm (single ▸ high) low
        rw [number, repeated?_cons, if_neg many, found, single, first]
        rfl

end Path

/-- The copy that a route leads to: the last node with the number of the route in its templates and
nothing left to repeat.  Its kind, its span and the names of its attributes stay. -/
def Route.copy (route : Route) : Head :=
  match route.getLast? with
  | some ⟨_, head, _⟩ =>
    let fill := (Numbering.substitute · route.path.number)
    { head with
      tag := head.tag.map fill
      classes := head.classes.map fill
      id := head.id.map fill
      attributes := head.attributes.map fun entry => { entry with value := entry.value.map fill }
      text := head.text.map fill
      multiplier := 1
      numbering := .plain }
  | none => {}

theorem Route.LeadsInto.copy_path {forest : Abbreviation} {route : Route}
    (h : route.LeadsInto forest) : Path.copy route.path = route.copy := by
  have counted : ∀ entry ∈ route.path, 1 ≤ entry.2 ∧ entry.2 ≤ entry.1.multiplier := by
    intro entry mem
    obtain ⟨step, inside, rfl⟩ := List.mem_map.1 (List.mem_reverse.1 mem)
    exact h.counted step inside
  rw [Route.copy, ← Path.shown_eq_number counted]
  rcases List.eq_nil_or_concat route with rfl | ⟨front, last, rfl⟩
  · exact absurd rfl h.nonempty
  · rw [List.concat_eq_append, List.getLast?_concat, Route.path, List.map_append, List.reverse_append]
    rfl

/-! ## All routes -/

mutual

/-- The routes to all copies of a node at a place, and to all copies below it. -/
def routes (place : Nat) : Tree Head → List Route
  | .node head children =>
    (indices head.multiplier).flatMap fun index =>
      [⟨place, head, index⟩] :: (routesAll 0 children).map (⟨place, head, index⟩ :: ·)

/-- The routes to all copies in a forest whose first tree is at a place. -/
def routesAll (place : Nat) : List (Tree Head) → List Route
  | [] => []
  | first :: rest => routes place first ++ routesAll (place + 1) rest

end

theorem mem_routes {place : Nat} {head : Head} {children : Abbreviation} {route : Route} :
    route ∈ routes place (.node head children) ↔
      ∃ index rest, (1 ≤ index ∧ index ≤ head.multiplier) ∧
        (rest = [] ∨ rest ∈ routesAll 0 children) ∧ route = ⟨place, head, index⟩ :: rest := by
  rw [routes, List.mem_flatMap]
  simp only [mem_indices, List.mem_cons, List.mem_map]
  constructor
  · rintro ⟨index, counted, rfl | ⟨rest, mem, rfl⟩⟩
    · exact ⟨index, [], counted, .inl rfl, rfl⟩
    · exact ⟨index, rest, counted, .inr mem, rfl⟩
  · rintro ⟨index, rest, counted, rfl | mem, rfl⟩
    · exact ⟨index, counted, .inl rfl⟩
    · exact ⟨index, counted, .inr ⟨rest, mem, rfl⟩⟩

theorem mem_routesAll {start : Nat} {forest : Abbreviation} {route : Route} :
    route ∈ routesAll start forest ↔
      ∃ place tree, forest[place]? = some tree ∧ route ∈ routes (start + place) tree := by
  induction forest generalizing start with
  | nil => simp [routesAll]
  | cons first rest ih =>
    rw [routesAll, List.mem_append, ih]
    constructor
    · rintro (here | ⟨place, tree, found, mem⟩)
      · exact ⟨0, first, rfl, here⟩
      · exact ⟨place + 1, tree, found, by rwa [Nat.add_right_comm] at mem⟩
    · rintro ⟨_ | place, tree, found, mem⟩
      · cases found
        exact .inl mem
      · exact .inr ⟨place, tree, found, by rwa [Nat.add_right_comm]⟩

theorem mem_routesAll_iff_leadsInto {forest : Abbreviation} {route : Route} :
    route ∈ routesAll 0 forest ↔ route.LeadsInto forest := by
  induction route generalizing forest with
  | nil =>
    refine ⟨fun mem => ?_, fun h => absurd rfl h.nonempty⟩
    obtain ⟨place, ⟨head, children⟩, -, mem⟩ := mem_routesAll.1 mem
    obtain ⟨_, _, -, -, same⟩ := mem_routes.1 mem
    cases same
  | cons step route ih =>
    rw [mem_routesAll, Route.leadsInto_cons_iff]
    constructor
    · rintro ⟨place, ⟨head, children⟩, found, mem⟩
      obtain ⟨index, rest, counted, onward, same⟩ := mem_routes.1 mem
      rw [Nat.zero_add] at same
      cases same
      exact ⟨children, found, counted, onward.imp_right ih.1⟩
    · rintro ⟨children, found, counted, onward⟩
      refine ⟨step.place, .node step.head children, found, mem_routes.2 ?_⟩
      exact ⟨step.index, route, counted, onward.imp_right ih.2, by rw [Nat.zero_add]⟩

theorem exists_of_mem_routesAll {start : Nat} {forest : Abbreviation} {route : Route}
    (mem : route ∈ routesAll start forest) : ∃ step rest, route = step :: rest ∧ start ≤ step.place := by
  obtain ⟨place, ⟨head, children⟩, -, mem⟩ := mem_routesAll.1 mem
  obtain ⟨index, rest, -, -, rfl⟩ := mem_routes.1 mem
  exact ⟨_, rest, rfl, Nat.le_add_right start place⟩

mutual

theorem pairwise_routes (place : Nat) :
    (tree : Tree Head) → (routes place tree).Pairwise (List.Lex Step.Before)
  | .node head children => by
    rw [routes, List.pairwise_flatMap]
    constructor
    · intro index _
      rw [List.pairwise_cons, List.pairwise_map]
      refine ⟨fun route mem => ?_, (pairwise_routesAll 0 children).imp .cons⟩
      obtain ⟨below, inside, rfl⟩ := List.mem_map.1 mem
      obtain ⟨_, _, rfl, -⟩ := exists_of_mem_routesAll inside
      exact .cons .nil
    · refine (pairwise_indices head.multiplier).imp fun {index later} lt one mem other mem' => ?_
      have starts {index : UInt64} {route : Route}
          (mem : route ∈ [⟨place, head, index⟩] ::
            (routesAll 0 children).map (⟨place, head, index⟩ :: ·)) :
          ∃ rest, route = ⟨place, head, index⟩ :: rest := by
        rcases List.mem_cons.1 mem with rfl | mem
        · exact ⟨[], rfl⟩
        · obtain ⟨rest, -, rfl⟩ := List.mem_map.1 mem
          exact ⟨rest, rfl⟩
      obtain ⟨_, rfl⟩ := starts mem
      obtain ⟨_, rfl⟩ := starts mem'
      exact .rel (.inr ⟨rfl, lt⟩)

theorem pairwise_routesAll (place : Nat) :
    (forest : List (Tree Head)) → (routesAll place forest).Pairwise (List.Lex Step.Before)
  | [] => .nil
  | .node head children :: rest => by
    rw [routesAll, List.pairwise_append]
    refine ⟨pairwise_routes place _, pairwise_routesAll (place + 1) rest, ?_⟩
    intro one mem other mem'
    obtain ⟨index, _, -, -, rfl⟩ := mem_routes.1 mem
    obtain ⟨_, _, rfl, later⟩ := exists_of_mem_routesAll mem'
    exact .rel (.inl later)

end

/-! ## The copies at all routes -/

mutual

theorem preorder_traces {α : Type} (f : Path → α) (above : Path) (depth place : Nat) :
    (tree : Tree Head) →
      Tree.preorderAll depth (Tree.mapAll f (traces above tree)) =
        (routes place tree).map fun route => (depth + (route.length - 1), f (route.path ++ above))
  | .node head children => by
    have one (index : UInt64) :
        Tree.preorder depth (Tree.map f (.node ((head, index) :: above)
          (tracesAll ((head, index) :: above) children))) =
            ([⟨place, head, index⟩] :: (routesAll 0 children).map (⟨place, head, index⟩ :: ·)).map
              fun route : Route => (depth + (route.length - 1), f (route.path ++ above)) := by
      rw [Tree.map, Tree.preorder, preorder_tracesAll f _ (depth + 1) 0 children, List.map_cons,
        List.map_map]
      congr 1
      refine List.map_congr_left fun route mem => ?_
      have positive : 0 < route.length := by
        obtain ⟨_, _, rfl, -⟩ := exists_of_mem_routesAll mem
        exact Nat.succ_pos _
      rw [Function.comp_apply, Route.path_cons, List.length_cons]
      congr 1
      omega
    rw [traces, routes, indices, Tree.mapAll_eq_map, Tree.preorderAll_eq_flatMap, List.map_map,
      List.flatMap_map, List.flatMap_map, List.map_flatMap]
    exact congrArg (List.flatMap · _) (funext fun index : Nat => one index.toUInt64)

/-- There is a path at the end of each route, and as deep as the route is long. -/
theorem preorder_tracesAll {α : Type} (f : Path → α) (above : Path) (depth place : Nat) :
    (forest : List (Tree Head)) →
      Tree.preorderAll depth (Tree.mapAll f (tracesAll above forest)) =
        (routesAll place forest).map fun route =>
          (depth + (route.length - 1), f (route.path ++ above))
  | [] => rfl
  | first :: rest => by
    rw [tracesAll, routesAll, Tree.mapAll_append, Tree.preorderAll_append, List.map_append,
      preorder_traces f above depth place first, preorder_tracesAll f above depth (place + 1) rest]

end

theorem copied_eq_map (forest : Abbreviation) :
    copied forest = (routesAll 0 forest).map fun route => route.path.node := by
  rw [copied, ← Tree.labelsAll_mapAll, ← Tree.map_snd_preorderAll 0,
    preorder_tracesAll Path.node [] 0 0 forest, List.map_map]
  simp only [Function.comp_def, List.append_nil]

theorem forall_copied_iff {forest : Abbreviation} :
    (∀ head ∈ copied forest, head.Fits) ↔ ∀ route ∈ routesAll 0 forest, route.Fits := by
  rw [copied_eq_map, List.forall_mem_map]
  refine forall₂_congr fun route mem => (Route.fits_iff ?_).symm
  exact (mem_routesAll_iff_leadsInto.1 mem).nonempty

/-! ## The number of routes -/

theorem countP_routes_address (place : Nat) (head : Head) (children : Abbreviation)
    (rest : List Nat) :
    (routes place (.node head children)).countP (fun route => route.address = place :: rest) =
      head.multiplier.toNat * ((if rest = [] then 1 else 0) +
        (routesAll 0 children).countP fun route => route.address = rest) := by
  have one (index : UInt64) :
      ([⟨place, head, index⟩] :: (routesAll 0 children).map (⟨place, head, index⟩ :: ·)).countP
        (fun route : Route => route.address = place :: rest) =
          (if rest = [] then 1 else 0) +
            (routesAll 0 children).countP fun route => route.address = rest := by
    simp [List.countP_cons, List.countP_map, Function.comp_def, Route.address, Nat.add_comm, eq_comm]
  rw [routes, List.countP_flatMap]
  simp only [Function.comp_def, one, List.map_const', List.sum_replicate_nat, length_indices]

theorem countP_routesAll_address (start : Nat) {place : Nat} {forest : Abbreviation} {tree : Node}
    (found : forest[place]? = some tree) (rest : List Nat) :
    (routesAll start forest).countP (fun route => route.address = (start + place) :: rest) =
      (routes (start + place) tree).countP fun route => route.address = (start + place) :: rest := by
  induction forest generalizing start place with
  | nil => cases found
  | cons first others ih =>
    rw [routesAll, List.countP_append]
    cases place with
    | zero =>
      cases found
      have later : (routesAll (start + 1) others).countP
          (fun route => route.address = (start + 0) :: rest) = 0 := by
        rw [List.countP_eq_zero]
        intro route mem
        obtain ⟨step, below, rfl, le⟩ := exists_of_mem_routesAll mem
        have other : step.place ≠ start := by omega
        simp [Route.address, other]
      rw [later]
      rfl
    | succ place =>
      have earlier : (routes start first).countP
          (fun route => route.address = (start + (place + 1)) :: rest) = 0 := by
        rw [List.countP_eq_zero]
        intro route mem
        obtain ⟨head, children⟩ := first
        obtain ⟨index, below, -, -, rfl⟩ := mem_routes.1 mem
        simp [Route.address]
      rw [earlier, Nat.zero_add, ← Nat.add_assoc, Nat.add_right_comm]
      exact ih (start + 1) found

theorem countP_address {forest : Abbreviation} {address : List Nat} {heads : List Head}
    (nonempty : address ≠ []) (descends : Tree.lineage forest address = some heads) :
    (routesAll 0 forest).countP (fun route => route.address = address) =
      (heads.map (·.multiplier.toNat)).prod := by
  induction address generalizing forest heads with
  | nil => exact absurd rfl nonempty
  | cons place rest ih =>
    obtain ⟨head, children, below, found, inside, rfl⟩ := Tree.lineage_cons_eq_some_iff.1 descends
    have first := countP_routesAll_address 0 found rest
    rw [Nat.zero_add, countP_routes_address] at first
    rw [first, List.map_cons, List.prod_cons]
    by_cases last : rest = []
    · subst last
      cases inside
      have deeper : (routesAll 0 children).countP (fun route => route.address = []) = 0 := by
        rw [List.countP_eq_zero]
        intro route mem
        obtain ⟨step, _, rfl, -⟩ := exists_of_mem_routesAll mem
        simp [Route.address]
      rw [deeper, if_pos rfl]
      rfl
    · rw [ih last inside, if_neg last, Nat.zero_add]

/-- If no placeholder of a copied node is too long, a forest that weighs no more than a limit is
unrolled to one copy for each route, in lexicographic order, and otherwise unrolling crashes.  There are
as many routes to a node as its multiplier and those of the nodes above it say together. -/
theorem unrollNodes_follows_routes (source : String) {limit : Nat} {forest : Abbreviation}
    (light : weightAll forest ≤ limit) :
    ∃ routes : List Route,
      (∀ route, route ∈ routes ↔ Route.LeadsInto forest route) ∧
      routes.Pairwise (List.Lex Step.Before) ∧
      (∀ address heads, address ≠ [] → Tree.lineage forest address = some heads →
        routes.countP (fun route => route.address = address) =
          (heads.map (·.multiplier.toNat)).prod) ∧
      ((∃ copies, unrollNodes source limit forest = .ok copies ∧
          Tree.preorderAll 0 copies = routes.map (fun route => (route.length - 1, route.copy))) ↔
        ∀ route ∈ routes, route.Fits) ∧
      ((∃ route ∈ routes, ¬route.Fits) → unrollNodes source limit forest = .error .crash) := by
  refine ⟨routesAll 0 forest, fun route => mem_routesAll_iff_leadsInto, pairwise_routesAll 0 forest,
    fun address heads => countP_address, ⟨?_, fun fits => ?_⟩, ?_⟩
  · rintro ⟨copies, unrolled, -⟩
    exact forall_copied_iff.1 (unrollNodes_eq_ok_iff.1 unrolled).2.1
  · refine ⟨_, unrollNodes_of_weightAll_le source light (forall_copied_iff.2 fits), ?_⟩
    rw [preorder_tracesAll Path.copy [] 0 0 forest]
    refine List.map_congr_left fun route mem => ?_
    rw [Nat.zero_add, List.append_nil, (mem_routesAll_iff_leadsInto.1 mem).copy_path]
  · rintro ⟨route, mem, long⟩
    exact unrollNodes_crashes_of_weightAll_le source light fun fits =>
      long (forall_copied_iff.1 fits route mem)

/-- A node that is repeated no times has no copies, and groups are repeated like elements. -/
theorem unrollNodes_follows_routes_nested :
    ∃ forest : Abbreviation, forest =
        [.node { multiplier := 0 } [], .node { kind := .group, multiplier := 2 }
          [.node { tag := some "p$", multiplier := 3, numbering := { reversed := true } }
            [.node { classes := ["c$"], numbering := { start := 5 } } []]]] ∧
      weightAll forest ≤ 12 ∧
      ∃ (copies : Abbreviation) (routes : List Route), unrollNodes "" 12 forest = .ok copies ∧
        (∀ route, route ∈ routes ↔ Route.LeadsInto forest route) ∧
        routes.Pairwise (List.Lex Step.Before) ∧
        Tree.preorderAll 0 copies = routes.map (fun route => (route.length - 1, route.copy)) ∧
        routes.countP (fun route => route.address = [0]) = 0 ∧
        routes.countP (fun route => route.address = [1, 0, 0]) = 6 := by
  have light : weightAll
      [.node { multiplier := 0 } [], .node { kind := .group, multiplier := 2 }
        [.node { tag := some "p$", multiplier := 3, numbering := { reversed := true } }
          [.node { classes := ["c$"], numbering := { start := 5 } } []]]] ≤ 12 := by decide
  obtain ⟨routes, inside, ordered, counts, unrolls, crashes⟩ := unrollNodes_follows_routes "" light
  have fits : ∀ route ∈ routes, route.Fits := by
    refine fun route mem => Classical.byContradiction fun long => ?_
    exact nomatch crashes ⟨route, mem, long⟩
  obtain ⟨copies, unrolled, shown⟩ := unrolls.2 fits
  exact ⟨_, rfl, light, copies, routes, unrolled, inside, ordered, shown,
    counts [0] _ (by decide) rfl, counts [1, 0, 0] _ (by decide) rfl⟩

/-- Two elements are within the limit, but neither is made. -/
theorem unrollNodes_crashes_on_routes :
    let forest : Abbreviation := [.node { kind := .group, multiplier := 2 }
      [.node { tag := some "p", id := some Numbering.longRun } []]]
    weightAll forest ≤ 2 ∧ unrollNodes "" 2 forest = .error .crash ∧
      ¬∃ copies, unrollNodes "" 2 forest = .ok copies := by
  intro forest
  have light : weightAll forest ≤ 2 := by decide
  have wide : ¬({ tag := some "p", id := some Numbering.longRun } : Head).Fits :=
    Head.not_fits_of_mem (by simp [Head.templates]) Numbering.not_fits_longRun
  have crashes := unrollNodes_crashes_of_weightAll_le "" light fun fits =>
    wide (fits _ (List.mem_cons_of_mem _ List.mem_cons_self))
  refine ⟨light, crashes, ?_⟩
  rintro ⟨copies, unrolled⟩
  rw [crashes] at unrolled
  cases unrolled

end Shorthand
