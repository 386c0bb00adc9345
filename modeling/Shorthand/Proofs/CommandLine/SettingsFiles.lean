import Shorthand.Proofs.CommandLine.Options
import Shorthand.Proofs.FileTree

/-! # Settings files

A directory has the first settings file that is there.  A sample that is written for a directory
without any becomes its first one, or the last one of a directory around it, and no other file is
hidden by it.
-/
namespace Shorthand.FileTree

variable {tree start written : FileTree} {location : Location} {content : ByteArray}
  {path root other name : String}

def settings? (tree : FileTree) (root : String) : Option ByteArray :=
  Settings.fileNames.findSome? fun name => tree.read (join root name)

theorem settings?_eq (tree : FileTree) (root : String) :
    tree.settings? root =
      (tree.read (join root "emmet.toml")).or
        ((tree.read (join root ".emmet.toml")).or (tree.read (join root ".config/emmet.toml"))) := by
  simp only [settings?, Settings.fileNames, List.findSome?_cons, List.findSome?_nil]
  cases tree.read (join root "emmet.toml") <;> cases tree.read (join root ".emmet.toml") <;>
    cases tree.read (join root ".config/emmet.toml") <;> rfl

theorem read_of_settings?_eq_none (bare : tree.settings? root = none)
    (mem : name ∈ Settings.fileNames) : tree.read (join root name) = none :=
  List.findSome?_eq_none_iff.1 bare name mem

/-! ## Places of settings files -/

theorem plain_of_mem_fileNames (mem : name ∈ Settings.fileNames) :
    name.toList.head? ≠ some '/' ∧
      ∀ step ∈ steps name, step ≠ "" ∧ step ≠ "." ∧ step ≠ ".." := by
  revert name
  decide +kernel

theorem walk_names {place target names : List String}
    (plain : ∀ step ∈ names, step ≠ "" ∧ step ≠ "." ∧ step ≠ "..")
    (walked : tree.walk place names = some target) : target = place ++ names := by
  induction names generalizing place with
  | nil =>
    cases walked
    simp
  | cons step rest ih =>
    obtain ⟨first, others⟩ := List.forall_mem_cons.1 plain
    rw [walk_name tree place rest first] at walked
    split at walked
    next => simpa using ih others walked
    next => cases walked

/-- Directories at one place have the same settings files. -/
theorem locate_join_congr (same : tree.place? root = tree.place? other)
    (mem : name ∈ Settings.fileNames) :
    tree.locate (join root name) = tree.locate (join other name) := by
  have relative := (plain_of_mem_fileNames mem).1
  rw [locate, locate, place?_join tree root relative, place?_join tree other relative, same]

theorem settings?_congr (same : tree.place? root = tree.place? other) :
    tree.settings? root = tree.settings? other := by
  have reads {name : String} (mem : name ∈ Settings.fileNames) :
      tree.read (join root name) = tree.read (join other name) := by
    rw [read, read, locate_join_congr same mem]
  rw [settings?_eq, settings?_eq, reads (by decide +kernel), reads (by decide +kernel),
    reads (by decide +kernel)]

theorem place_of_locate_join (mem : name ∈ Settings.fileNames)
    (found : tree.locate (join root name) = some location) :
    ∃ place, tree.place? root = some place ∧ tree.way ++ location = place ++ steps name := by
  obtain ⟨relative, plain⟩ := plain_of_mem_fileNames mem
  rw [locate_eq_some_iff, place?_join tree root relative] at found
  obtain ⟨place, here, walked⟩ := Option.bind_eq_some_iff.1 found
  exact ⟨place, here, walk_names plain walked⟩

/-- Where one directory has its first candidate, another has its last one, or is at the same place
and has its first one there. -/
theorem candidate_of_locate_eq (mem : name ∈ Settings.fileNames)
    (found : tree.locate (join root "emmet.toml") = some location)
    (shared : tree.locate (join other name) = some location) :
    name = "emmet.toml" ∧ tree.place? other = tree.place? root ∨ name = ".config/emmet.toml" := by
  obtain ⟨place, here, ends⟩ := place_of_locate_join (by decide +kernel) found
  obtain ⟨there, away, ends'⟩ := place_of_locate_join mem shared
  have same : place ++ ["emmet.toml"] = there ++ steps name := ends.symm.trans ends'
  simp only [Settings.fileNames, List.mem_cons, List.not_mem_nil, or_false] at mem
  obtain rfl | rfl | rfl := mem
  · obtain ⟨rfl, -⟩ := List.append_inj' same rfl
    exact .inl ⟨rfl, away.trans here.symm⟩
  · obtain ⟨-, last⟩ := List.append_inj' same rfl
    exact absurd last (by decide +kernel)
  · exact .inr rfl

/-! ## Samples -/

def sample : ByteArray := CommandLine.Invocation.sampleSettings.toUTF8

/-- A new settings file says nothing about any option. -/
theorem ofBytes_sample : Settings.ofBytes sample = .ok {} := by
  have silent : ((Toml.read CommandLine.Invocation.sampleSettings).bind
      Settings.ofEntries?).map Settings.isSilent = some true := by
    -- the characters line by line: the kernel is slow at those of the whole text
    unfold Toml.read CommandLine.Invocation.sampleSettings
    simp only [String.toList_append]
    decide +kernel
  rw [sample, Settings.ofBytes_toUTF8, Settings.ofText_of_isSilent silent]

/-- A tree has grown by samples.  Nothing that was there has changed, and every other entry is the
sample for a directory that had no settings file. -/
structure Grown (start tree : FileTree) : Prop where
  ways : tree.SameWays start
  entryAt : ∀ location, tree.entryAt location = start.entryAt location ∨
    start.entryAt location = none ∧ tree.entryAt location = some (.file sample) ∧
      ∃ root, start.settings? root = none ∧ start.locate (join root "emmet.toml") = some location

theorem Grown.refl (tree : FileTree) : tree.Grown tree where
  ways := ⟨rfl, fun _ => rfl⟩
  entryAt _ := .inl rfl

theorem Grown.entryAt_kept (h : start.Grown tree) {entry : FileEntry}
    (there : start.entryAt location = some entry) : tree.entryAt location = some entry := by
  obtain same | ⟨nothing, -⟩ := h.entryAt location
  · rw [same, there]
  · rw [nothing] at there
    cases there

theorem Grown.read_kept (h : start.Grown tree) (there : start.read path = some content) :
    tree.read path = some content := by
  obtain ⟨location, located, entry⟩ := read_eq_some_iff.1 there
  exact read_eq_some_iff.2 ⟨location, (h.ways.locate_eq path).trans located, h.entryAt_kept entry⟩

theorem Grown.settings?_eq_none (h : start.Grown tree) (bare : tree.settings? root = none) :
    start.settings? root = none := by
  refine List.findSome?_eq_none_iff.2 fun name mem => ?_
  cases there : start.read (join root name) with
  | none => rfl
  | some content =>
    have kept := h.read_kept there
    rw [read_of_settings?_eq_none bare mem] at kept
    cases kept

/-- Where a directory without settings file gets one, there was nothing. -/
theorem entryAt_eq_none (bare : tree.settings? root = none)
    (located : tree.locate (join root "emmet.toml") = some location)
    (unopened : tree.isDirectory location = false) : tree.entryAt location = none := by
  have unread : tree.read (join root "emmet.toml") = none :=
    read_of_settings?_eq_none bare (by decide +kernel)
  cases there : tree.entryAt location with
  | none => rfl
  | some entry =>
    cases entry with
    | file content =>
      rw [read_eq_some_iff.2 ⟨location, located, there⟩] at unread
      cases unread
    | directory =>
      rw [isDirectory_eq_true_iff.2 there] at unopened
      cases unopened

/-- Writing the sample for a directory without settings file lets the tree grow. -/
theorem Grown.write (h : start.Grown tree) (bare : tree.settings? root = none)
    (wrote : tree.write (join root "emmet.toml") sample = some written) :
    start.Grown written := by
  obtain ⟨location, located, unopened, rfl⟩ := write_eq_some_iff.1 wrote
  have ways := sameWays_withFile unopened sample
  refine ⟨⟨ways.origin.trans h.ways.origin, fun asked => ?_⟩, fun asked => ?_⟩
  · rw [ways.isDirectory, h.ways.isDirectory]
  · rw [entryAt_withFile unopened]
    split
    next same =>
      subst same
      have nothing := entryAt_eq_none bare located unopened
      have absent : start.entryAt asked = none := by
        obtain same | ⟨absent, -⟩ := h.entryAt asked
        · rw [← same, nothing]
        · exact absent
      exact .inr ⟨absent, rfl, root, h.settings?_eq_none bare,
        (h.ways.locate_eq _).symm.trans located⟩
    next => exact h.entryAt asked

/-- What can be read at a path is what was there or the sample of a directory without settings. -/
theorem Grown.read_eq_or (h : start.Grown tree) (path : String) :
    tree.read path = start.read path ∨
      start.read path = none ∧ tree.read path = some sample ∧
        ∃ root location, start.settings? root = none ∧
          start.locate (join root "emmet.toml") = some location ∧
            start.locate path = some location := by
  have located := h.ways.locate_eq path
  cases found : start.locate path with
  | none =>
    rw [found] at located
    rw [read, read, located, found]
    exact .inl rfl
  | some location =>
    rw [found] at located
    rw [read, read, located, found, Option.bind_some, Option.bind_some]
    obtain same | ⟨nothing, there, root, bare, at_root⟩ := h.entryAt location
    · rw [same]
      exact .inl rfl
    · rw [nothing, there]
      exact .inr ⟨rfl, rfl, root, location, bare, at_root, rfl⟩

/-- A new sample is the first candidate of a directory that had none, or the last one. -/
theorem Grown.candidate_eq_or (h : start.Grown tree) (root : String)
    (mem : name ∈ Settings.fileNames) :
    tree.read (join root name) = start.read (join root name) ∨
      start.read (join root name) = none ∧ tree.read (join root name) = some sample ∧
        (name = "emmet.toml" ∧ start.settings? root = none ∨ name = ".config/emmet.toml") := by
  obtain same | ⟨nothing, there, other, location, bare, located, shared⟩ := h.read_eq_or _
  · exact .inl same
  · refine .inr ⟨nothing, there, ?_⟩
    obtain ⟨first, place⟩ | last := candidate_of_locate_eq mem located shared
    · exact .inl ⟨first, (settings?_congr place).trans bare⟩
    · exact .inr last

/-- No settings file that was there is hidden. -/
theorem Grown.settings?_eq_or (h : start.Grown tree) (root : String) :
    tree.settings? root = start.settings? root ∨
      start.settings? root = none ∧ tree.settings? root = some sample := by
  have first := h.candidate_eq_or root (show "emmet.toml" ∈ Settings.fileNames by decide +kernel)
  have second := h.candidate_eq_or root (show ".emmet.toml" ∈ Settings.fileNames by decide +kernel)
  have third :=
    h.candidate_eq_or root (show ".config/emmet.toml" ∈ Settings.fileNames by decide +kernel)
  rw [settings?_eq, settings?_eq]
  obtain first | ⟨-, there, ⟨-, bare⟩ | wrong⟩ := first
  · obtain second | ⟨-, -, ⟨wrong, -⟩ | wrong⟩ := second
    · rw [first, second]
      obtain third | ⟨nothing, there, -⟩ := third
      · rw [third]
        exact .inl rfl
      · -- the sample counts only if neither of the first two candidates is there
        rw [nothing, there]
        cases start.read (join root "emmet.toml") with
        | some => exact .inl rfl
        | none =>
          cases start.read (join root ".emmet.toml") with
          | some => exact .inl rfl
          | none => exact .inr ⟨rfl, rfl⟩
    · exact absurd wrong (by decide +kernel)
    · exact absurd wrong (by decide +kernel)
  · rw [← settings?_eq start, there]
    exact .inr ⟨bare, rfl⟩
  · exact absurd wrong (by decide +kernel)

end Shorthand.FileTree
