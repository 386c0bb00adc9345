import Shorthand.CommandLine.Run
import Shorthand.Proofs.Except

/-! # What an expansion prints

An expansion prints the markup of the abbreviations that expand, and an empty line in front of the
markup of every abbreviation but the first.  This parts the markup by empty lines, except that one
more is printed in front of all markup if the first abbreviation fails.  Behind an abbreviation that
makes the program crash nothing is printed.
-/
namespace Shorthand.CommandLine

def markups (options : Options) (sources : List String) : List String :=
  sources.filterMap fun source => (expand source options).toOption

/-- Texts that end their lines, with an empty line between two of them. -/
def separated (texts : List String) : String := "\n".intercalate (texts.map (· ++ "\n"))

/-- The abbreviations in front of the first that makes the program crash. -/
def reached (options : Options) (sources : List String) : List String :=
  sources.takeWhile fun source => (expandOne? options source).isSome

/-- The first abbreviation fails, and one behind it expands. -/
def StartsLate (options : Options) (sources : List String) : Prop :=
  (∃ first ∈ sources.head?, (expand first options).toOption = none) ∧ markups options sources ≠ []

instance (options : Options) (sources : List String) : Decidable (StartsLate options sources) :=
  inferInstanceAs (Decidable (_ ∧ _))

/-! ## Empty lines -/

/-- Texts that end their lines, with an empty line in front of each. -/
def spaced (texts : List String) : String :=
  String.join (texts.map fun text => "\n" ++ text ++ "\n")

theorem spaced_cons (text : String) (rest : List String) :
    spaced (text :: rest) = "\n" ++ text ++ "\n" ++ spaced rest :=
  String.join_cons

theorem spaced_append (front back : List String) :
    spaced (front ++ back) = spaced front ++ spaced back := by
  rw [spaced, List.map_append, String.join_append]
  rfl

theorem separated_cons (text : String) (rest : List String) :
    separated (text :: rest) = text ++ "\n" ++ spaced rest := by
  induction rest generalizing text with
  | nil => simp [separated, spaced]
  | cons next rest ih =>
    have apart : separated (text :: next :: rest) = text ++ "\n" ++ "\n" ++ separated (next :: rest) :=
      String.intercalate_cons_cons
    rw [apart, ih, spaced_cons]
    simp only [String.append_assoc]

theorem spaced_eq_separated {texts : List String} (some : texts ≠ []) :
    spaced texts = "\n" ++ separated texts := by
  cases texts with
  | nil => exact absurd rfl some
  | cons text rest =>
    rw [separated_cons, spaced_cons]
    simp only [String.append_assoc]

theorem length_separated (texts : List String) :
    (separated texts).length = (spaced texts).length - 1 := by
  by_cases none : texts = []
  · rw [none]
    rfl
  · have newline : "\n".length = 1 := rfl
    rw [spaced_eq_separated none, String.length_append, newline, Nat.add_sub_cancel_left]

theorem two_le_length_spaced {texts : List String} (some : texts ≠ []) :
    2 ≤ (spaced texts).length := by
  cases texts with
  | nil => exact absurd rfl some
  | cons text rest =>
    have newline : "\n".length = 1 := rfl
    simp only [spaced_cons, String.length_append, newline]
    omega

theorem separated_append_inj {front back : List String}
    (same : separated front = separated (front ++ back)) : back = [] := by
  refine Decidable.byContradiction fun some => ?_
  have length := congrArg String.length same
  have long := two_le_length_spaced some
  rw [length_separated, length_separated, spaced_append, String.length_append] at length
  omega

theorem newline_separated_ne {front back : List String} (some : front ≠ []) :
    "\n" ++ separated front ≠ separated (front ++ back) := by
  rw [← spaced_eq_separated some]
  intro same
  have length := congrArg String.length same
  rw [length_separated, spaced_append, String.length_append] at length
  have long := two_le_length_spaced some
  by_cases none : back = []
  · have empty : (spaced back).length = 0 := by rw [none]; rfl
    omega
  · have long' := two_le_length_spaced none
    omega

/-! ## The markup of a run -/

section Markups

variable {options : Options} {source : String} {expanded : Expanded}

theorem markups_cons (options : Options) (source : String) (rest : List String) :
    markups options (source :: rest) =
      (expand source options).toOption.toList ++ markups options rest := by
  rw [markups, List.filterMap_cons]
  cases (expand source options).toOption <;> rfl

theorem markups_eq_append (options : Options) (sources : List String) :
    ∃ later, markups options sources = markups options (reached options sources) ++ later := by
  refine ⟨markups options (sources.dropWhile fun source => (expandOne? options source).isSome), ?_⟩
  rw [markups, markups, markups, reached, ← List.filterMap_append, List.takeWhile_append_dropWhile]

/-- One abbreviation adds its markup to the output, if it expands. -/
theorem block_of_expandOne? (one : expandOne? options source = some expanded) (isFirst : Bool) :
    expanded.block options.toStyle isFirst =
      (expand source options).toOption.elim ""
        fun text => (if isFirst then "" else "\n") ++ text ++ "\n" := by
  rw [expand]
  unfold expandOne? at one
  split at one
  next tree accepted =>
    cases one
    rw [accepted]
    rfl
  next error failed =>
    cases one
    rw [failed]
    rfl
  next => cases one

theorem expandEach_of_some (one : expandOne? options source = some expanded) (rest : List String) :
    (expandEach options (source :: rest)).1 = expanded :: (expandEach options rest).1 ∧
      reached options (source :: rest) = source :: reached options rest := by
  constructor
  · rw [expandEach, one]
  · rw [reached, List.takeWhile_cons_of_pos (by rw [one]; rfl)]
    rfl

theorem expandEach_of_none (crashes : expandOne? options source = none) (rest : List String) :
    (expandEach options (source :: rest)).1 = [] ∧ reached options (source :: rest) = [] := by
  constructor
  · rw [expandEach, crashes]
  · rw [reached, List.takeWhile_cons_of_neg (by simp [crashes])]

/-- Behind the first abbreviation, an empty line is printed in front of all markup. -/
theorem join_blocks (options : Options) (sources : List String) :
    String.join ((expandEach options sources).1.map (Expanded.block options.toStyle false)) =
      spaced (markups options (reached options sources)) := by
  induction sources with
  | nil => rfl
  | cons source rest ih =>
    cases one : expandOne? options source with
    | none =>
      obtain ⟨nothing, unreached⟩ := expandEach_of_none one rest
      rw [nothing, unreached]
      rfl
    | some expanded =>
      obtain ⟨results, reaches⟩ := expandEach_of_some one rest
      rw [results, reaches, List.map_cons, String.join_cons, ih, block_of_expandOne? one,
        markups_cons]
      cases (expand source options).toOption with
      | none => exact String.empty_append
      | some text => exact (spaced_cons text _).symm

/-- The first abbreviation adds its markup without an empty line, and then all others add theirs. -/
theorem blocks_of_reached {sources rest : List String}
    (begins : reached options sources = source :: rest) :
    Expanded.blocks options.toStyle (expandEach options sources).1 =
      (expand source options).toOption.elim "" (· ++ "\n") ++ spaced (markups options rest) := by
  cases sources with
  | nil => cases begins
  | cons first others =>
    cases one : expandOne? options first with
    | none =>
      rw [(expandEach_of_none one others).2] at begins
      cases begins
    | some expanded =>
      obtain ⟨results, reaches⟩ := expandEach_of_some one others
      rw [reaches] at begins
      cases begins
      rw [results, Expanded.blocks, join_blocks, block_of_expandOne? one]
      cases (expand source options).toOption with
      | none => rfl
      | some text => rw [Option.elim_some, Option.elim_some, if_pos rfl, String.empty_append]

theorem blocks_of_unreached {sources : List String} (nothing : reached options sources = []) :
    Expanded.blocks options.toStyle (expandEach options sources).1 = "" := by
  cases sources with
  | nil => rfl
  | cons first others =>
    cases one : expandOne? options first with
    | none => rw [(expandEach_of_none one others).1, Expanded.blocks]
    | some expanded =>
      rw [(expandEach_of_some one others).2] at nothing
      cases nothing

theorem blocks_of_not_startsLate {sources : List String}
    (early : ¬StartsLate options (reached options sources)) :
    Expanded.blocks options.toStyle (expandEach options sources).1 =
      separated (markups options (reached options sources)) := by
  cases begins : reached options sources with
  | nil =>
    rw [blocks_of_unreached begins]
    rfl
  | cons first rest =>
    rw [begins] at early
    rw [blocks_of_reached begins]
    cases shown : (expand first options).toOption with
    | some text =>
      rw [markups_cons, shown, Option.toList_some, List.singleton_append, separated_cons]
      rfl
    | none =>
      have nothing : markups options (first :: rest) = [] :=
        Decidable.byContradiction fun some => early ⟨⟨first, rfl, shown⟩, some⟩
      rw [nothing]
      rw [markups_cons, shown, Option.toList_none, List.nil_append] at nothing
      rw [nothing]
      rfl

theorem blocks_of_startsLate {sources : List String}
    (late : StartsLate options (reached options sources)) :
    Expanded.blocks options.toStyle (expandEach options sources).1 =
      "\n" ++ separated (markups options (reached options sources)) := by
  obtain ⟨⟨first, head, fails⟩, some⟩ := late
  obtain ⟨rest, begins⟩ := List.head?_eq_some_iff.1 head
  rw [begins, markups_cons, fails, Option.toList_none, List.nil_append] at some ⊢
  rw [blocks_of_reached begins, fails, ← spaced_eq_separated some]
  exact String.empty_append

end Markups

/-! ## Runs -/

section Runs

variable {arguments : List String} {invocation : Invocation} {given : List String}
  {around : Surroundings} {options : Options}

theorem run_of_expand (asked : readArguments arguments = .invoke invocation)
    (command : invocation.command = some (.expand given .text)) :
    run arguments around = .done (invocation.runExpand around given .text) := by
  rw [run, asked]
  simp only [Invocation.run, command]

theorem output_of_runExpand (resolved : invocation.options around = .ok options) :
    (invocation.runExpand around given .text).output =
      Expanded.blocks options.toStyle
        (expandEach options (Invocation.abbreviations given around.input)).1 := by
  simp only [Invocation.runExpand, resolved]

/-- An expansion prints the markup of the abbreviations that expand, in order, with a line end behind
each and an empty line between two of them, up to the first abbreviation that makes the program
crash.  Only if the first abbreviation fails and one behind it expands, an empty line stands in front
of all markup.  So nothing else is printed, and nothing is missing, unless this happens or there is
markup behind a crash. -/
theorem output_separated_iff (asked : readArguments arguments = .invoke invocation)
    (command : invocation.command = some (.expand given .text))
    (resolved : invocation.options around = .ok options) :
    let sources := Invocation.abbreviations given around.input
    let seen := reached options sources
    ∃ report, run arguments around = .done report ∧
      (report.output = separated (markups options sources) ↔
        ¬StartsLate options seen ∧ markups options seen = markups options sources) ∧
      (¬StartsLate options seen → report.output = separated (markups options seen)) ∧
      (StartsLate options seen → report.output = "\n" ++ separated (markups options seen)) := by
  intro sources seen
  refine ⟨_, run_of_expand asked command, ?_⟩
  rw [output_of_runExpand resolved]
  refine ⟨⟨fun same => ?_, ?_⟩, blocks_of_not_startsLate, blocks_of_startsLate⟩
  · obtain ⟨later, whole⟩ := markups_eq_append options sources
    rw [whole] at same ⊢
    by_cases late : StartsLate options seen
    · rw [blocks_of_startsLate late] at same
      exact absurd same (newline_separated_ne late.2)
    · rw [blocks_of_not_startsLate late] at same
      rw [separated_append_inj same, List.append_nil]
      exact ⟨late, rfl⟩
  · rintro ⟨early, whole⟩
    rw [← whole]
    exact blocks_of_not_startsLate early

end Runs

def bareSurroundings : Surroundings where
  directory := "/work"
  fileAt _ := none

/-- A failure between two expansions leaves no trace. -/
theorem output_separated_iff_between :
    readArguments ["expand", "ul>li*2", ")", "br"] =
        .invoke { command := some (.expand ["ul>li*2", ")", "br"] .text) } ∧
      Invocation.options { command := some (.expand ["ul>li*2", ")", "br"] .text) }
          bareSurroundings = .ok .standard ∧
        reached .standard ["ul>li*2", ")", "br"] = ["ul>li*2", ")", "br"] ∧
        ¬StartsLate .standard ["ul>li*2", ")", "br"] ∧
          ∃ report, run ["expand", "ul>li*2", ")", "br"] bareSurroundings = .done report ∧
            report.output = "<ul>\n  <li></li>\n  <li></li>\n</ul>\n\n<br>\n" := by
  have asked : readArguments ["expand", "ul>li*2", ")", "br"] =
      .invoke { command := some (.expand ["ul>li*2", ")", "br"] .text) } := rfl
  have resolved : Invocation.options { command := some (.expand ["ul>li*2", ")", "br"] .text) }
      bareSurroundings = .ok .standard := rfl
  have all : reached .standard ["ul>li*2", ")", "br"] = ["ul>li*2", ")", "br"] := by
    decide +kernel
  have early : ¬StartsLate .standard ["ul>li*2", ")", "br"] := by decide +kernel
  have shown : separated (markups .standard ["ul>li*2", ")", "br"]) =
      "<ul>\n  <li></li>\n  <li></li>\n</ul>\n\n<br>\n" := by decide +kernel
  obtain ⟨report, runs, output, -⟩ := output_separated_iff asked rfl resolved
  have seen : reached .standard (Invocation.abbreviations ["ul>li*2", ")", "br"]
      bareSurroundings.input) = ["ul>li*2", ")", "br"] := all
  rw [seen] at output
  exact ⟨asked, resolved, all, early, report, runs, (output.2 ⟨early, rfl⟩).trans shown⟩

/-- A failure in front of the only markup leaves an empty line. -/
theorem output_starts_late :
    ∃ report, run ["expand", "div^^", "span"] bareSurroundings = .done report ∧
      report.output = "\n<span></span>\n" ∧
        markups .standard ["div^^", "span"] = ["<span></span>"] ∧
          separated ["<span></span>"] = "<span></span>\n" ∧
            report.output ≠ separated (markups .standard ["div^^", "span"]) := by
  have output : (Invocation.runExpand { command := some (.expand ["div^^", "span"] .text) }
      bareSurroundings ["div^^", "span"] .text).output = "\n<span></span>\n" := by decide +kernel
  have shown : markups .standard ["div^^", "span"] = ["<span></span>"] := by decide +kernel
  refine ⟨_, rfl, output, shown, by decide, ?_⟩
  rw [shown]
  exact fun same => absurd (output.symm.trans same) (by decide)

end Shorthand.CommandLine
