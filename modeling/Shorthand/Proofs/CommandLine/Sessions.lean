import Shorthand.Proofs.CommandLine.SettingsFiles

/-! # Sequences of calls

A sequence of calls changes no file that is there.  It adds nothing but samples, each for a directory
that has no settings file, and no sample changes what an expansion comes to.
-/
namespace Shorthand.CommandLine

/-- The exit code and the standard output are the same.  Notices may differ. -/
structure Report.Agrees (report other : Report) : Prop where
  exitCode : report.exitCode = other.exitCode
  output : report.output = other.output

theorem Report.Agrees.refl (report : Report) : report.Agrees report := ⟨rfl, rfl⟩

structure Call where
  arguments : List String
  input : String := ""
  colored : Bool := false

namespace Call

def around (call : Call) (tree : FileTree) : Surroundings where
  directory := tree.origin
  fileAt := tree.read
  input := call.input
  colored := call.colored

def run (call : Call) (tree : FileTree) : Report × FileTree :=
  runIn tree call.arguments call.input call.colored

def Asks (call : Call) (invocation : Invocation) (command : Command) : Prop :=
  readArguments call.arguments = .invoke invocation ∧ invocation.command = some command

/-- The call is about the settings file itself. -/
def Inspects (call : Call) : Prop :=
  ∃ invocation, call.Asks invocation .init ∨ ∃ format, call.Asks invocation (.config format)

section Run

variable {call : Call} {tree start : FileTree} {invocation : Invocation}

theorem settingsFile?_around (call : Call) (tree : FileTree) (invocation : Invocation) :
    (invocation.settingsFile? (call.around tree)).map (·.2) =
      tree.settings? (invocation.root tree.origin) := by
  unfold Invocation.settingsFile? Invocation.settingsPaths FileTree.settings?
  rw [List.findSome?_map, List.map_findSome?]
  refine congrArg (List.findSome? · Settings.fileNames) (funext fun name => ?_)
  simp only [Function.comp_apply, around]
  cases tree.read (FileTree.join (invocation.root tree.origin) name) <;> rfl

theorem settings_around (call : Call) (tree : FileTree) (invocation : Invocation) :
    invocation.settings (call.around tree) =
      match tree.settings? (invocation.root tree.origin) with
      | some content => Settings.ofBytes content
      | none => .ok {} := by
  rw [← settingsFile?_around call, Invocation.settings]
  cases invocation.settingsFile? (call.around tree) <;> rfl

theorem run_of_invoke (asked : readArguments call.arguments = .invoke invocation)
    (around : Surroundings) : CommandLine.run call.arguments around = invocation.run around := by
  rw [CommandLine.run, asked]

theorem run_eq (call : Call) (tree : FileTree) :
    call.run tree =
      match CommandLine.run call.arguments (call.around tree) with
      | .done report => (report, tree)
      | .write path content written refused =>
        match tree.write path content.toUTF8 with
        | some changed => (written, changed)
        | none => (refused, tree) := rfl

theorem run_of_done {report : Report}
    (done : CommandLine.run call.arguments (call.around tree) = .done report) :
    call.run tree = (report, tree) := by
  rw [run_eq, done]

theorem tree_of_write {path content : String} {written refused : Report}
    (write : CommandLine.run call.arguments (call.around tree) =
      .write path content written refused) :
    (call.run tree).2 = (tree.write path content.toUTF8).getD tree := by
  rw [run_eq, write]
  dsimp only
  cases tree.write path content.toUTF8 <;> rfl

theorem tree_of_not_init (other : ∀ invocation, ¬call.Asks invocation .init) (tree : FileTree) :
    (call.run tree).2 = tree := by
  obtain ⟨report, done⟩ :
      ∃ report, CommandLine.run call.arguments (call.around tree) = .done report := by
    unfold CommandLine.run
    split
    next invocation asked =>
      unfold Invocation.run
      split
      next => exact ⟨_, rfl⟩
      next => exact ⟨_, rfl⟩
      next init => exact absurd ⟨asked, init⟩ (other invocation)
      next => exact ⟨_, rfl⟩
      next => exact ⟨_, rfl⟩
    all_goals exact ⟨_, rfl⟩
  rw [run_of_done done]

theorem tree_of_init (asks : call.Asks invocation .init) (tree : FileTree) :
    (call.run tree).2 =
      if (tree.settings? (invocation.root tree.origin)).isSome then tree
      else (tree.write (FileTree.join (invocation.root tree.origin) "emmet.toml")
        FileTree.sample).getD tree := by
  obtain ⟨asked, init⟩ := asks
  have runs : CommandLine.run call.arguments (call.around tree) =
      invocation.runInit (call.around tree) := by
    rw [run_of_invoke asked, Invocation.run, init]
  rw [← settingsFile?_around call]
  unfold Invocation.runInit at runs
  split at runs
  next file found =>
    rw [run_of_done runs, found]
    rfl
  next missing =>
    rw [tree_of_write runs, missing]
    rfl

/-- A call writes nothing, or the sample for a directory that has no settings file. -/
theorem tree_eq_or (call : Call) (tree : FileTree) :
    (call.run tree).2 = tree ∨
      ∃ invocation, call.Asks invocation .init ∧
        tree.settings? (invocation.root tree.origin) = none ∧
          tree.write (FileTree.join (invocation.root tree.origin) "emmet.toml") FileTree.sample =
            some (call.run tree).2 := by
  by_cases asks : ∃ invocation, call.Asks invocation .init
  · obtain ⟨invocation, asks⟩ := asks
    rw [tree_of_init asks]
    cases bare : tree.settings? (invocation.root tree.origin) with
    | some content => exact .inl rfl
    | none =>
      cases wrote : tree.write (FileTree.join (invocation.root tree.origin) "emmet.toml")
        FileTree.sample with
      | none => exact .inl rfl
      | some written => exact .inr ⟨invocation, asks, bare, wrote⟩
  · exact .inl (tree_of_not_init (fun invocation asked => asks ⟨invocation, asked⟩) tree)

theorem grown_run (h : start.Grown tree) (call : Call) : start.Grown (call.run tree).2 := by
  obtain same | ⟨invocation, -, bare, wrote⟩ := call.tree_eq_or tree
  · rwa [same]
  · exact h.write bare wrote

/-! ## Expansions -/

/-- The sample says what no settings file says. -/
theorem settings_of_grown (h : start.Grown tree) (call : Call) (invocation : Invocation) :
    invocation.settings (call.around tree) = invocation.settings (call.around start) := by
  rw [settings_around, settings_around, h.ways.origin]
  obtain same | ⟨bare, sampled⟩ := h.settings?_eq_or (invocation.root start.origin)
  · rw [same]
  · rw [bare, sampled]
    exact FileTree.ofBytes_sample

/-- Options and input decide what an expansion comes to, up to its notices. -/
theorem runExpand_agrees (h : start.Grown tree) (given : List String) (format : Format) :
    (invocation.runExpand (call.around tree) given format).Agrees
      (invocation.runExpand (call.around start) given format) := by
  have options : invocation.options (call.around tree) =
      invocation.options (call.around start) := by
    rw [Invocation.options_eq, Invocation.options_eq, settings_of_grown h]
  have input : (call.around tree).input = (call.around start).input := rfl
  unfold Invocation.runExpand
  rw [options, input]
  generalize invocation.loadingNotices (call.around tree) = loading
  generalize invocation.loadingNotices (call.around start) = loading'
  cases invocation.options (call.around start) <;> exact ⟨rfl, rfl⟩

/-- What a call comes to that is not about the settings file itself. -/
theorem agrees_of_grown (h : start.Grown tree) (apart : ¬call.Inspects) :
    (call.run tree).1.Agrees (call.run start).1 := by
  obtain ⟨report, report', done, done', agrees⟩ : ∃ report report',
      CommandLine.run call.arguments (call.around tree) = .done report ∧
        CommandLine.run call.arguments (call.around start) = .done report' ∧
          report.Agrees report' := by
    cases asked : readArguments call.arguments with
    | invoke invocation =>
      have runs := run_of_invoke asked
      cases command : invocation.command with
      | none =>
        simp only [runs, Invocation.run, command]
        exact ⟨_, _, rfl, rfl, .refl _⟩
      | some command' =>
        cases command' with
        | expand given format =>
          simp only [runs, Invocation.run, command]
          exact ⟨_, _, rfl, rfl, runExpand_agrees h given format⟩
        | tokens abbreviation =>
          simp only [runs, Invocation.run, command]
          exact ⟨_, _, rfl, rfl, .refl _⟩
        | init => exact absurd ⟨invocation, .inl ⟨asked, command⟩⟩ apart
        | config format => exact absurd ⟨invocation, .inr ⟨format, asked, command⟩⟩ apart
    | version | help | mistake =>
      unfold CommandLine.run
      rw [asked]
      exact ⟨_, _, rfl, rfl, .refl _⟩
  rw [run_of_done done, run_of_done done']
  exact agrees

/-! ## What a call adds -/

/-- The call asks for a settings file of a directory that has none of the candidates, and the first of
them belongs to the location. -/
def Adds (call : Call) (tree : FileTree) (location : Location) : Prop :=
  ∃ invocation, call.Asks invocation .init ∧
    (∀ name ∈ Settings.fileNames,
      tree.read (FileTree.join (invocation.root tree.origin) name) = none) ∧
    tree.locate (FileTree.join (invocation.root tree.origin) "emmet.toml") = some location

theorem adds_of_entryAt_ne {location : Location}
    (changed : (call.run tree).2.entryAt location ≠ tree.entryAt location) :
    call.Adds tree location := by
  obtain same | ⟨invocation, asks, bare, wrote⟩ := call.tree_eq_or tree
  · rw [same] at changed
    exact absurd rfl changed
  · obtain ⟨place, located, unopened, written⟩ := FileTree.write_eq_some_iff.1 wrote
    rw [written, FileTree.entryAt_withFile unopened] at changed
    split at changed
    next here =>
      rw [← here] at located
      exact ⟨invocation, asks, fun _ => FileTree.read_of_settings?_eq_none bare, located⟩
    next => exact absurd rfl changed

theorem Adds.entryAt {location : Location} (adds : call.Adds tree location)
    (unopened : tree.isDirectory location = false) :
    (call.run tree).2.entryAt location = some (.file FileTree.sample) := by
  obtain ⟨invocation, asks, bare, located⟩ := adds
  have missing : tree.settings? (invocation.root tree.origin) = none :=
    List.findSome?_eq_none_iff.2 bare
  have wrote : tree.write (FileTree.join (invocation.root tree.origin) "emmet.toml")
      FileTree.sample = some (tree.withFile location FileTree.sample) :=
    FileTree.write_eq_some_iff.2 ⟨location, located, unopened, rfl⟩
  rw [tree_of_init asks, missing, wrote]
  change (tree.withFile location FileTree.sample).entryAt location = _
  rw [FileTree.entryAt_withFile unopened, if_pos rfl]

/-! ## Repeated calls -/

/-- Asking for a settings file of the directory writes nothing. -/
def Settled (tree : FileTree) (root : String) : Prop :=
  (tree.settings? root).isSome ∨
    tree.write (FileTree.join root "emmet.toml") FileTree.sample = none

theorem tree_of_settled (asks : call.Asks invocation .init)
    (settled : Settled tree (invocation.root tree.origin)) : (call.run tree).2 = tree := by
  rw [tree_of_init asks]
  obtain there | refused := settled
  · rw [if_pos there]
  · rw [refused]
    split <;> rfl

/-- A directory needs no settings file once one has been asked for. -/
theorem settled_run (asks : call.Asks invocation .init) :
    Settled (call.run tree).2 (invocation.root tree.origin) := by
  rw [tree_of_init asks]
  cases bare : tree.settings? (invocation.root tree.origin) with
  | some content =>
    refine .inl ?_
    change (tree.settings? _).isSome = true
    rw [bare]
    rfl
  | none =>
    cases wrote : tree.write (FileTree.join (invocation.root tree.origin) "emmet.toml")
      FileTree.sample with
    | none => exact .inr wrote
    | some written =>
      obtain ⟨location, located, unopened, rfl⟩ := FileTree.write_eq_some_iff.1 wrote
      have ways := FileTree.sameWays_withFile unopened FileTree.sample
      have there := FileTree.read_eq_some_iff.2 ⟨location, (ways.locate_eq _).trans located, by
        rw [FileTree.entryAt_withFile unopened, if_pos rfl]⟩
      refine .inl ?_
      change ((tree.withFile location FileTree.sample).settings? _).isSome = true
      rw [FileTree.settings?_eq, there]
      rfl

theorem Settled.of_grown {root other : String} (h : start.Grown tree)
    (settled : Settled start root) (same : start.place? root = start.place? other) :
    Settled tree other := by
  obtain there | refused := settled
  · left
    cases bare : tree.settings? other with
    | some content => rfl
    | none =>
      rw [FileTree.settings?_congr same, h.settings?_eq_none bare] at there
      cases there
  · right
    cases wrote : tree.write (FileTree.join other "emmet.toml") FileTree.sample with
    | none => rfl
    | some written =>
      obtain ⟨location, located, unopened, -⟩ := FileTree.write_eq_some_iff.1 wrote
      have first := FileTree.locate_join_congr same
        (show "emmet.toml" ∈ Settings.fileNames by decide +kernel)
      rw [h.ways.locate_eq, ← first] at located
      rw [h.ways.isDirectory] at unopened
      rw [FileTree.write_eq_some_iff.2 ⟨location, located, unopened, rfl⟩] at refused
      cases refused

end Run

end Call

/-! ## Sequences -/

def after (tree : FileTree) (calls : List Call) : FileTree :=
  calls.foldl (fun tree call => (call.run tree).2) tree

section Sequences

variable {start tree : FileTree} {calls : List Call}

theorem after_cons (tree : FileTree) (call : Call) (calls : List Call) :
    after tree (call :: calls) = after (call.run tree).2 calls := rfl

theorem after_append (tree : FileTree) (calls others : List Call) :
    after tree (calls ++ others) = after (after tree calls) others :=
  List.foldl_append

theorem grown_after (h : start.Grown tree) (calls : List Call) :
    start.Grown (after tree calls) := by
  induction calls generalizing tree with
  | nil => exact h
  | cons call rest ih => exact ih (Call.grown_run h call)

def Added (tree : FileTree) (calls : List Call) (location : Location) : Prop :=
  ∃ before call rest, calls = before ++ call :: rest ∧ call.Adds (after tree before) location

theorem added_of_entryAt_ne {location : Location}
    (changed : (after tree calls).entryAt location ≠ tree.entryAt location) :
    Added tree calls location := by
  induction calls generalizing tree with
  | nil => exact absurd rfl changed
  | cons call rest ih =>
    by_cases here : (call.run tree).2.entryAt location = tree.entryAt location
    · rw [← here] at changed
      obtain ⟨before, other, behind, rfl, adds⟩ := ih changed
      exact ⟨call :: before, other, behind, rfl, adds⟩
    · exact ⟨[], call, rest, rfl, Call.adds_of_entryAt_ne here⟩

theorem entryAt_of_added {location : Location} (nothing : tree.entryAt location = none)
    (added : Added tree calls location) :
    (after tree calls).entryAt location = some (.file FileTree.sample) := by
  obtain ⟨before, call, rest, rfl, adds⟩ := added
  have earlier : tree.Grown (after tree before) := grown_after (.refl tree) before
  have unopened : (after tree before).isDirectory location = false := by
    rw [earlier.ways.isDirectory, FileTree.isDirectory, nothing]
  have written := adds.entryAt unopened
  have later := grown_after (.refl (call.run (after tree before)).2) rest
  rw [after_append, after_cons]
  exact later.entryAt_kept written

/-- Whichever call of the sequence asked for a settings file, to ask for one of the same directory
once more adds nothing. -/
theorem tree_of_again {call again : Call} {invocation other : Invocation} (mem : call ∈ calls)
    (asks : call.Asks invocation .init) (asks' : again.Asks other .init)
    (same : tree.place? (invocation.root tree.origin) = tree.place? (other.root tree.origin)) :
    (again.run (after tree calls)).2 = after tree calls := by
  obtain ⟨before, rest, rfl⟩ := List.mem_iff_append.1 mem
  have earlier : tree.Grown (after tree before) := grown_after (.refl tree) before
  have there : tree.Grown (call.run (after tree before)).2 := Call.grown_run earlier call
  rw [after_append, after_cons]
  have later := grown_after (.refl (call.run (after tree before)).2) rest
  have settled : Call.Settled (call.run (after tree before)).2
      (invocation.root (after tree before).origin) := Call.settled_run asks
  refine Call.tree_of_settled asks' ?_
  rw [earlier.ways.origin] at settled
  rw [later.ways.origin, there.ways.origin]
  refine settled.of_grown later ?_
  rw [there.ways.place?_eq, there.ways.place?_eq, same]

/-- Calls change nothing that is there.  Where nothing was, there is the sample if one of them asked
for a settings file of a directory without any, whose first candidate belongs there, and still
nothing if none did.  To ask once more for the same directory writes nothing.  A call that is not
about the settings file itself comes to the same as it would have before. -/
theorem after_harmless (tree : FileTree) (calls : List Call) :
    (∀ location entry, tree.entryAt location = some entry →
        (after tree calls).entryAt location = some entry) ∧
      (∀ location, tree.entryAt location = none →
        Added tree calls location ∧ (after tree calls).entryAt location =
            some (.file Invocation.sampleSettings.toUTF8) ∨
          ¬Added tree calls location ∧ (after tree calls).entryAt location = none) ∧
      (∀ (call again : Call) (invocation other : Invocation), call ∈ calls →
        call.Asks invocation .init → again.Asks other .init →
          tree.place? (invocation.root tree.origin) = tree.place? (other.root tree.origin) →
            (again.run (after tree calls)).2 = after tree calls) ∧
        ∀ call : Call, ¬call.Inspects →
          (call.run (after tree calls)).1.Agrees (call.run tree).1 := by
  have grown : tree.Grown (after tree calls) := grown_after (.refl tree) calls
  refine ⟨fun _ _ => grown.entryAt_kept, fun location nothing => ?_,
    fun _ _ _ _ => tree_of_again, fun _ => Call.agrees_of_grown grown⟩
  by_cases added : Added tree calls location
  · exact .inl ⟨added, entryAt_of_added nothing added⟩
  · refine .inr ⟨added, ?_⟩
    by_contra there
    exact added (added_of_entryAt_ne (nothing ▸ there))

/-- The sample of a directory serves the directory around it as well. -/
example :
    (after { origin := "/work", entries := [([".config"], .directory)] }
      [{ arguments := ["init", "--path", ".config"] }, { arguments := ["init"] }]).entries.map
        (·.1) = [[".config"], [".config", "emmet.toml"]] := by
  decide +kernel

end Sequences

end Shorthand.CommandLine
