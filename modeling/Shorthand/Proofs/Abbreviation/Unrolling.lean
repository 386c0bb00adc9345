import Shorthand.Expansion
import Shorthand.Proofs.Abbreviation.Templates
import Shorthand.Proofs.Except
import Shorthand.Proofs.Forest

/-! # Copies and the numbers they show

Unrolling without a limit is a function of the forest alone: each node is followed by its index in
its parent copy, and so on up to the root.  This path determines the number that the copy shows.
With a limit, the copies are these or there are none.  Then the first copy is to blame that there is
no room for or that has a placeholder which is too long.
-/
namespace Shorthand

/-- The nodes from a copy up to the root, innermost first, with the index of the copy of each. -/
abbrev Path := List (Head × UInt64)

theorem Head.numbered_of_many {head : Head} (many : 1 < head.multiplier)
    (inherited : Option Replica) (index : UInt64) :
    head.numbered inherited index =
      (head.numbering.number index head.multiplier,
        some ⟨index, head.multiplier, head.numbering.number index head.multiplier⟩) := by
  have notOne : head.multiplier ≠ 1 := by
    intro same
    rw [same] at many
    exact absurd many (by decide)
  cases inherited <;> simp [numbered, numbered.own, notOne, many]

namespace Path

/-- The nearest node that is repeated, and which copy of it the path goes through. -/
def repeated? (path : Path) : Option (Head × UInt64) :=
  path.find? fun entry => 1 < entry.1.multiplier

/-- The number that the copy at the end of a path shows.  A node that is not repeated itself shows
what its parent shows, unless it is numbered in its own way. -/
def shown : Path → UInt64
  | [] => 0
  | (head, index) :: above =>
    let own := head.numbering.number index head.multiplier
    match repeated? above with
    | some (repeated, i) =>
      if head.multiplier = 1 then
        if head.numbering.isPlain then shown above
        else head.numbering.number i repeated.multiplier
      else own
    | none => own

def node : Path → Head
  | [] => {}
  | (head, _) :: _ => head

def copy : Path → Head
  | [] => {}
  | (head, index) :: above => head.copy (shown ((head, index) :: above))

theorem copy_kind (path : Path) : path.copy.kind = path.node.kind := by
  cases path <;> rfl

def replica (path : Path) : Option Replica :=
  path.repeated?.map fun (head, index) => ⟨index, head.multiplier, path.shown⟩

theorem repeated?_cons (head : Head) (index : UInt64) (above : Path) :
    repeated? ((head, index) :: above) =
      if 1 < head.multiplier then some (head, index) else repeated? above := by
  by_cases many : 1 < head.multiplier
  · rw [if_pos many, repeated?, List.find?_cons_of_pos (by simpa using many)]
  · rw [if_neg many, repeated?, List.find?_cons_of_neg (by simpa using many)]
    rfl

/-- A copy shows the number of its path and passes on the replica of its path. -/
theorem numbered_eq {head : Head} (positive : head.multiplier ≠ 0) (index : UInt64) (above : Path) :
    head.numbered (replica above) index =
      (shown ((head, index) :: above), replica ((head, index) :: above)) := by
  rw [replica, replica, repeated?_cons, Head.numbered.eq_def, shown]
  cases found : repeated? above with
  | none =>
    by_cases many : 1 < head.multiplier
    · simp [Head.numbered.own, many]
    · simp [Head.numbered.own, many]
  | some entry =>
    obtain ⟨repeated, i⟩ := entry
    by_cases one : head.multiplier = 1
    · simp [one]
    · have many : 1 < head.multiplier := by
        rw [UInt64.lt_iff_toNat_lt]
        have := mt UInt64.toNat_inj.1 positive
        have := mt UInt64.toNat_inj.1 one
        simp only [UInt64.toNat_zero, UInt64.toNat_one] at *
        omega
      simp [Head.numbered.own, one, many]

end Path

mutual

/-- The paths of all copies of a node below a path. -/
def traces (above : Path) : Tree Head → List (Tree Path)
  | .node head children =>
    (List.range' 1 head.multiplier.toNat).map fun index =>
      .node ((head, index.toUInt64) :: above) (tracesAll ((head, index.toUInt64) :: above) children)

def tracesAll (above : Path) : List (Tree Head) → List (Tree Path)
  | [] => []
  | first :: rest => traces above first ++ tracesAll above rest

end

theorem tracesAll_eq_flatMap (above : Path) (forest : Abbreviation) :
    tracesAll above forest = forest.flatMap (traces above) := by
  induction forest with
  | nil => rfl
  | cons first rest ih => rw [tracesAll, ih, List.flatMap_cons]

/-- The nodes of all copies, in the order in which these are made. -/
def copied (forest : Abbreviation) : List Head :=
  (Tree.labelsAll (tracesAll [] forest)).map Path.node

/-! ## Room for the copies -/

namespace Head

/-- The room left behind one more copy, if none of its placeholders is too long. -/
def enter (head : Head) (room : Nat) : Except Halt Nat := do
  let left ← head.occupy room
  if head.Fits then return left else .error .tooWide

def enterAll (heads : List Head) (room : Nat) : Except Halt Nat :=
  heads.foldlM (fun room head => head.enter room) room

/-- One of some heads in order, which there is room for, has a placeholder that is too long. -/
def TooWideWithin (room : Nat) (heads : List Head) : Prop :=
  ∃ front head back, heads = front ++ head :: back ∧
    (front ++ [head]).countP (·.kind = .element) ≤ room ∧ ¬head.Fits

section Room

variable {head : Head} {heads rest : List Head} {room left : Nat}

theorem enterAll_cons (head : Head) (rest : List Head) (room : Nat) :
    enterAll (head :: rest) room = head.enter room >>= enterAll rest :=
  List.foldlM_cons

theorem enterAll_append (front back : List Head) (room : Nat) :
    enterAll (front ++ back) room = enterAll front room >>= enterAll back :=
  List.foldlM_append

theorem enter_eq_ok_iff :
    head.enter room = .ok left ↔ head.occupy room = .ok left ∧ head.Fits := by
  rw [enter, Except.bind_eq_ok_iff]
  constructor
  · rintro ⟨middle, occupied, fits⟩
    split at fits <;> cases fits
    exact ⟨occupied, ‹_›⟩
  · rintro ⟨occupied, fits⟩
    exact ⟨left, occupied, if_pos fits⟩

/-- Only elements take up room. -/
theorem countP_cons_le_iff :
    (head :: rest).countP (·.kind = .element) ≤ room ↔
      ∃ left, head.occupy room = .ok left ∧ rest.countP (·.kind = .element) ≤ left := by
  rw [List.countP_cons, occupy.eq_def]
  cases head.kind with
  | group => simp
  | element => cases room <;> simp

theorem tooWideWithin_cons_iff :
    TooWideWithin room (head :: rest) ↔
      ∃ left, head.occupy room = .ok left ∧ (¬head.Fits ∨ TooWideWithin left rest) := by
  constructor
  · rintro ⟨front, wide, back, split, within, long⟩
    cases front with
    | nil =>
      cases split
      obtain ⟨left, occupied, -⟩ := countP_cons_le_iff.1 within
      exact ⟨left, occupied, .inl long⟩
    | cons first front =>
      cases split
      obtain ⟨left, occupied, within⟩ := countP_cons_le_iff.1 within
      exact ⟨left, occupied, .inr ⟨front, wide, back, rfl, within, long⟩⟩
  · rintro ⟨left, occupied, long | ⟨front, wide, back, rfl, within, long⟩⟩
    · exact ⟨[], head, rest, rfl, countP_cons_le_iff.2 ⟨left, occupied, Nat.zero_le left⟩, long⟩
    · exact ⟨head :: front, wide, back, rfl,
        countP_cons_le_iff.2 ⟨left, occupied, within⟩, long⟩

/-- With room for all copies, no placeholder is left out. -/
theorem not_tooWideWithin_iff_of_le (enough : heads.countP (·.kind = .element) ≤ room) :
    ¬TooWideWithin room heads ↔ ∀ head ∈ heads, head.Fits := by
  constructor
  · intro short head mem
    obtain ⟨front, back, rfl⟩ := List.append_of_mem mem
    refine Decidable.byContradiction fun long => short ?_
    refine ⟨front, head, back, rfl, Nat.le_trans ?_ enough, long⟩
    rw [List.append_cons front head back]
    exact (List.sublist_append_left _ back).countP_le
  · rintro fits ⟨front, head, back, rfl, -, long⟩
    exact long (fits head (by simp))

theorem enterAll_of_tooWide (h : TooWideWithin room heads) :
    enterAll heads room = .error .tooWide := by
  induction heads generalizing room with
  | nil =>
    obtain ⟨front, _, _, none, -⟩ := h
    cases front <;> cases none
  | cons head rest ih =>
    obtain ⟨left, occupied, long⟩ := tooWideWithin_cons_iff.1 h
    rw [enterAll_cons]
    by_cases fits : head.Fits
    · rw [enter_eq_ok_iff.2 ⟨occupied, fits⟩]
      exact ih (long.resolve_left (absurd fits))
    · rw [enter, occupied]
      simp only [bind, Except.bind, if_neg fits]

/-- Where all placeholders fit, the element is blamed with as many in front of it as there was room
for. -/
theorem enterAll_of_not_tooWide (h : ¬TooWideWithin room heads) :
    enterAll heads room =
      match (heads.filter (·.kind = .element))[room]? with
      | none => .ok (room - (heads.filter (·.kind = .element)).length)
      | some head => .error (.full head.span) := by
  induction heads generalizing room with
  | nil => rfl
  | cons head rest ih =>
    have onward {left : Nat} (occupied : head.occupy room = .ok left) :
        head.enter room = .ok left ∧ ¬TooWideWithin left rest := by
      have later := not_or.1 fun long => h (tooWideWithin_cons_iff.2 ⟨left, occupied, long⟩)
      exact ⟨enter_eq_ok_iff.2 ⟨occupied, Decidable.not_not.1 later.1⟩, later.2⟩
    rw [enterAll_cons]
    cases kind : head.kind with
    | group =>
      have occupied : head.occupy room = .ok room := by rw [occupy.eq_def, kind]
      rw [List.filter_cons_of_neg (by simp [kind]), (onward occupied).1]
      exact ih (onward occupied).2
    | element =>
      rw [List.filter_cons_of_pos (by simp [kind])]
      cases room with
      | zero =>
        rw [enter, occupy.eq_def, kind]
        rfl
      | succ room =>
        have occupied : head.occupy (room + 1) = .ok room := by rw [occupy.eq_def, kind]
        rw [(onward occupied).1, List.getElem?_cons_succ, List.length_cons, Nat.add_sub_add_right]
        exact ih (onward occupied).2

end Room

theorem copies_succ (head : Head) (inherited : Option Replica)
    (unrollChildren : Option Replica → Nat → Except Halt (Abbreviation × Nat))
    (remaining index room : Nat) :
    head.copies inherited unrollChildren (remaining + 1) index room = (do
      let (number, replica) := head.numbered inherited index.toUInt64
      let room ← head.enter room
      let (children, room) ← unrollChildren replica room
      let (rest, room) ← head.copies inherited unrollChildren remaining (index + 1) room
      return (.node (head.copy number) children :: rest, room)) := by
  rw [copies, enter]
  simp only [copy?_eq, bind_assoc]
  by_cases fits : head.Fits
  · simp only [if_pos fits, pure_bind]
  · simp only [if_neg fits]
    rfl

end Head

def fit (paths : List (Tree Path)) (room : Nat) : Except Halt (Abbreviation × Nat) :=
  (Head.enterAll ((Tree.labelsAll paths).map Path.node) room).map (Tree.mapAll Path.copy paths, ·)

theorem fit_append (front back : List (Tree Path)) (room : Nat) :
    fit (front ++ back) room = (do
      let (front, room) ← fit front room
      let (back, room) ← fit back room
      return (front ++ back, room)) := by
  rw [fit, fit, Tree.labelsAll_append, List.map_append, Head.enterAll_append, Tree.mapAll_append]
  cases Head.enterAll ((Tree.labelsAll front).map Path.node) room with
  | error span => rfl
  | ok room =>
    simp only [fit, bind, Except.bind, Except.map]
    cases Head.enterAll ((Tree.labelsAll back).map Path.node) room <;> rfl

theorem fit_cons (path : Path) (children rest : List (Tree Path)) (room : Nat) :
    fit (.node path children :: rest) room = (do
      let room ← path.node.enter room
      let (children, room) ← fit children room
      let (rest, room) ← fit rest room
      return (.node path.copy children :: rest, room)) := by
  rw [fit, Tree.labelsAll, Tree.labels, List.cons_append, List.map_cons, List.map_append,
    Head.enterAll_cons, Tree.mapAll, Tree.map]
  cases path.node.enter room with
  | error span => rfl
  | ok room =>
    simp only [fit, bind, Except.bind, Head.enterAll_append]
    cases Head.enterAll ((Tree.labelsAll children).map Path.node) room with
    | error span => rfl
    | ok room =>
      simp only [Except.map]
      cases Head.enterAll ((Tree.labelsAll rest).map Path.node) room <;> rfl

theorem copies_eq_fit {head : Head} {above : Path} {children : Abbreviation}
    {unrollChildren : Option Replica → Nat → Except Halt (Abbreviation × Nat)}
    (below : ∀ (index : UInt64) (room : Nat),
      unrollChildren (Path.replica ((head, index) :: above)) room =
        fit (tracesAll ((head, index) :: above) children) room)
    {remaining : Nat} (positive : remaining ≠ 0 → head.multiplier ≠ 0) (index room : Nat) :
    head.copies (Path.replica above) unrollChildren remaining index room =
      fit ((List.range' index remaining).map fun index =>
        .node ((head, index.toUInt64) :: above)
          (tracesAll ((head, index.toUInt64) :: above) children)) room := by
  induction remaining generalizing index room with
  | zero => rfl
  | succ remaining ih =>
    have copies : head.multiplier ≠ 0 := positive (Nat.succ_ne_zero remaining)
    rw [Head.copies_succ, Path.numbered_eq copies, List.range'_succ, List.map_cons, fit_cons]
    simp only [below, ih (fun _ => copies)]
    rfl

mutual

theorem unroll_eq_fit (above : Path) :
    (tree : Tree Head) → (room : Nat) →
      unroll tree above.replica room = fit (traces above tree) room
  | .node head children, room => by
    rw [unroll, traces]
    refine copies_eq_fit (fun index => unrollAll_eq_fit _ children) (fun some none => ?_) 1 room
    exact some (by rw [none]; rfl)

/-- Unrolling makes the copies at all paths, if they fit. -/
theorem unrollAll_eq_fit (above : Path) :
    (forest : List (Tree Head)) → (room : Nat) →
      unrollAll forest above.replica room = fit (tracesAll above forest) room
  | [], _ => rfl
  | first :: rest, room => by
    rw [unrollAll, tracesAll, fit_append]
    simp only [unroll_eq_fit above first, unrollAll_eq_fit above rest]

end

theorem unrollNodes_eq (source : String) (limit : Nat) (forest : Abbreviation) :
    unrollNodes source limit forest =
      match Head.enterAll (copied forest) limit with
      | .ok _ => .ok (Tree.mapAll Path.copy (tracesAll [] forest))
      | .error (.full span) =>
        .error (.reported (.located ⟨.limit limit .nodes, span⟩ (offsetAt source span.start)))
      | .error .tooWide => .error .crash := by
  have start : Path.replica [] = none := rfl
  rw [unrollNodes, ← start, unrollAll_eq_fit, fit, ← copied]
  cases Head.enterAll (copied forest) limit with
  | ok => rfl
  | error halt => cases halt <;> rfl

theorem eq_traces_of_unrollNodes {source : String} {limit : Nat} {forest copies : Abbreviation}
    (ok : unrollNodes source limit forest = .ok copies) :
    copies = Tree.mapAll Path.copy (tracesAll [] forest) := by
  rw [unrollNodes_eq] at ok
  split at ok <;> cases ok
  rfl

/-! ## Paths of a forest -/

/-- A path that ends at a copy of one of some nodes and counts copies from 1. -/
structure Path.EndsAt (nodes : List Head) (path : Path) : Prop where
  ends : ∃ head index above, path = (head, index) :: above ∧ head ∈ nodes
  counted : ∀ entry ∈ path, entry.2 ≠ 0

theorem Path.EndsAt.mono {nodes more : List Head} {path : Path} (h : path.EndsAt nodes)
    (subset : ∀ head ∈ nodes, head ∈ more) : path.EndsAt more where
  ends := by
    obtain ⟨head, index, above, same, mem⟩ := h.ends
    exact ⟨head, index, above, same, subset head mem⟩
  counted := h.counted

theorem toUInt64_ne_zero {multiplier : UInt64} {index : Nat}
    (mem : index ∈ List.range' 1 multiplier.toNat) : index.toUInt64 ≠ 0 := by
  have bound := multiplier.toNat_lt
  rw [List.mem_range'_1] at mem
  intro zero
  have value := congrArg UInt64.toNat zero
  simp only [Nat.toUInt64, UInt64.toNat_ofNat', UInt64.toNat_zero] at value
  omega

mutual

theorem endsAt_of_mem_traces {above path : Path} (counted : ∀ entry ∈ above, entry.2 ≠ 0) :
    (tree : Tree Head) → path ∈ Tree.labelsAll (traces above tree) → path.EndsAt tree.labels
  | .node head children, mem => by
    rw [traces, Tree.mem_labelsAll] at mem
    obtain ⟨copy, mem, inside⟩ := mem
    obtain ⟨index, range, rfl⟩ := List.mem_map.1 mem
    have counted' : ∀ entry ∈ (head, index.toUInt64) :: above, entry.2 ≠ 0 := by
      rw [List.forall_mem_cons]
      exact ⟨toUInt64_ne_zero range, counted⟩
    rw [Tree.labels] at inside ⊢
    rcases List.mem_cons.1 inside with rfl | below
    · exact ⟨⟨head, _, above, rfl, List.mem_cons_self⟩, counted'⟩
    · exact (endsAt_of_mem_tracesAll counted' children below).mono fun _ mem =>
        List.mem_cons_of_mem head mem

theorem endsAt_of_mem_tracesAll {above path : Path} (counted : ∀ entry ∈ above, entry.2 ≠ 0) :
    (forest : List (Tree Head)) → path ∈ Tree.labelsAll (tracesAll above forest) →
      path.EndsAt (Tree.labelsAll forest)
  | [], mem => by cases mem
  | first :: rest, mem => by
    rw [tracesAll, Tree.labelsAll_append, List.mem_append] at mem
    rw [Tree.labelsAll]
    rcases mem with here | later
    · exact (endsAt_of_mem_traces counted first here).mono fun _ mem => List.mem_append_left _ mem
    · exact (endsAt_of_mem_tracesAll counted rest later).mono fun _ mem =>
        List.mem_append_right _ mem

end

theorem mem_labelsAll_of_mem_copied {forest : Abbreviation} {head : Head}
    (mem : head ∈ copied forest) : head ∈ Tree.labelsAll forest := by
  obtain ⟨path, traced, rfl⟩ := List.mem_map.1 mem
  obtain ⟨head, index, above, rfl, inside⟩ := (endsAt_of_mem_tracesAll (by simp) forest traced).ends
  exact inside

mutual

theorem exists_mem_traces {head : Head} (above : Path) :
    (tree : Tree Head) → (∀ node ∈ tree.labels, node.multiplier ≠ 0) → head ∈ tree.labels →
      ∃ path ∈ Tree.labelsAll (traces above tree), path.node = head
  | .node node children, repeated, mem => by
    rw [Tree.labels, List.forall_mem_cons] at repeated
    have first : 1 ∈ List.range' 1 node.multiplier.toNat := by
      have positive := mt UInt64.toNat_inj.1 repeated.1
      rw [UInt64.toNat_zero] at positive
      rw [List.mem_range'_1]
      omega
    have copies {path : Path} (inside : path ∈ Tree.labels (.node ((node, Nat.toUInt64 1) :: above)
        (tracesAll ((node, Nat.toUInt64 1) :: above) children))) :
        path ∈ Tree.labelsAll (traces above (.node node children)) := by
      rw [traces]
      exact Tree.mem_labelsAll.2 ⟨_, List.mem_map_of_mem first, inside⟩
    rcases List.mem_cons.1 mem with rfl | below
    · exact ⟨_, copies List.mem_cons_self, rfl⟩
    · obtain ⟨path, inside, same⟩ := exists_mem_tracesAll _ children repeated.2 below
      exact ⟨path, copies (List.mem_cons_of_mem _ inside), same⟩

/-- Without a node that is repeated no times, every node has a copy. -/
theorem exists_mem_tracesAll {head : Head} (above : Path) :
    (forest : List (Tree Head)) → (∀ node ∈ Tree.labelsAll forest, node.multiplier ≠ 0) →
      head ∈ Tree.labelsAll forest →
        ∃ path ∈ Tree.labelsAll (tracesAll above forest), path.node = head
  | [], _, mem => by cases mem
  | first :: rest, repeated, mem => by
    rw [Tree.labelsAll, List.forall_mem_append] at repeated
    rw [tracesAll, Tree.labelsAll_append]
    rcases List.mem_append.1 mem with here | later
    · obtain ⟨path, inside, same⟩ := exists_mem_traces above first repeated.1 here
      exact ⟨path, List.mem_append_left _ inside, same⟩
    · obtain ⟨path, inside, same⟩ := exists_mem_tracesAll above rest repeated.2 later
      exact ⟨path, List.mem_append_right _ inside, same⟩

end

theorem mem_copied_iff {forest : Abbreviation}
    (repeated : ∀ node ∈ Tree.labelsAll forest, node.multiplier ≠ 0) {head : Head} :
    head ∈ copied forest ↔ head ∈ Tree.labelsAll forest :=
  ⟨mem_labelsAll_of_mem_copied,
    fun mem => List.mem_map.2 (exists_mem_tracesAll [] forest repeated mem)⟩

end Shorthand
