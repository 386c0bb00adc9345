import Shorthand.CommandLine.Run
import Shorthand.Proofs.CommandLine.Arguments
import Shorthand.Proofs.Markup.Faults
import Shorthand.Proofs.Settings.Application
import Shorthand.Proofs.Settings.Reading

/-! # Options of an invocation

The flags win over the settings file and the settings file over the standard options.  A tag enters
by a flag, by the file or by the standard table, and on each way it is checked, so that no expansion
blames an option.
-/
namespace Shorthand.CommandLine

theorem kind_ne_option_of_expandTree {options : Options} (usable : options.Usable)
    {source : String} {error : Error}
    (failed : expandTree source options = .error (.reported error)) : error.kind ≠ .option := by
  rcases placedIn_of_expandTree failed with checked | placed
  · rw [Options.validate_eq_ok_iff.2 usable] at checked
    cases checked
  · cases placed with
    | intro problem => cases problem <;> exact fun same => nomatch same

theorem exists_of_mem_expandEach {options : Options} {sources : List String} {expanded : Expanded}
    (mem : expanded ∈ (expandEach options sources).1) :
    ∃ source, expandOne? options source = some expanded := by
  induction sources with
  | nil => cases mem
  | cons source rest ih =>
    rw [expandEach] at mem
    cases one : expandOne? options source with
    | none =>
      rw [one] at mem
      cases mem
    | some first =>
      rw [one] at mem
      rcases List.mem_cons.1 mem with rfl | later
      · exact ⟨source, one⟩
      · exact ih later

theorem expandTree_of_expandOne?_error {options : Options} {source : String} {expanded : Expanded}
    {error : Error} (one : expandOne? options source = some expanded)
    (failed : expanded.result = .error error) :
    expandTree source options = .error (.reported error) := by
  unfold expandOne? at one
  split at one
  next => cases one; cases failed
  next reported => cases one; cases failed; exact reported
  next => cases one

def Surroundings.withFile (path text : String) : Surroundings where
  directory := "/work"
  fileAt asked := if asked = path then some text.toUTF8 else none

namespace Invocation

/-- The settings of the settings file.  Having none is as good as one that says nothing. -/
def settings (invocation : Invocation) (around : Surroundings) : Except Error Settings :=
  match invocation.settingsFile? around with
  | some (_, content) => Settings.ofBytes content
  | none => .ok {}

/-- Each option is what the flags say, or else what the settings say, or else the standard one. -/
structure Decides (invocation : Invocation) (settings : Settings) (options : Options) : Prop where
  defaultTag : options.defaultTag =
    (invocation.defaultTag.or settings.defaultTag).getD Options.standard.defaultTag
  indentUnit : options.indentUnit =
    ((invocation.indent.or settings.indent).map Indent.unit).getD Options.standard.indentUnit
  maxNodes : options.maxNodes =
    (invocation.maxNodes.or settings.maxNodes).getD Options.standard.maxNodes
  maxDepth : options.maxDepth =
    (invocation.maxDepth.or settings.maxDepth).getD Options.standard.maxDepth
  closing : options.closing =
    if invocation.xhtml then .xhtml else settings.closing.getD Options.standard.closing
  childOf : ∀ parent, options.implicitTags.childOf parent =
    (settings.implicitTags.childOf parent).or (ImplicitTags.standard.childOf parent)

section Options

variable {arguments : List String} {invocation : Invocation} {around : Surroundings}
  {options : Options} {error : Error}

theorem options_eq (invocation : Invocation) (around : Surroundings) :
    invocation.options around = do
      let settings ← invocation.settings around
      let options ← settings.toOptions
      return invocation.override options := by
  unfold Invocation.options Invocation.settings
  cases invocation.settingsFile? around <;> rfl

theorem options_eq_ok_iff :
    invocation.options around = .ok options ↔
      ∃ settings, invocation.settings around = .ok settings ∧ settings.Usable ∧
        options = invocation.override (settings.override .standard) := by
  rw [options_eq, Except.bind_eq_ok_iff]
  refine exists_congr fun settings => and_congr_right fun _ => ?_
  rw [Except.bind_eq_ok_iff]
  constructor
  · rintro ⟨changed, applied, overridden⟩
    obtain ⟨usable, rfl⟩ := Settings.apply_eq_ok_iff.1 applied
    cases overridden
    exact ⟨usable, rfl⟩
  · rintro ⟨usable, rfl⟩
    exact ⟨_, Settings.apply_of_usable usable _, rfl⟩

theorem kind_of_settings_error (failed : invocation.settings around = .error error) :
    error.kind ≠ .option := by
  unfold Invocation.settings at failed
  split at failed
  next =>
    unfold Settings.ofBytes Settings.ofText at failed
    split at failed
    next =>
      split at failed <;> cases failed
      exact fun same => nomatch same
    next =>
      cases failed
      exact fun same => nomatch same
  next => cases failed

theorem kind_of_options_error (failed : invocation.options around = .error error) :
    error.kind ≠ .option := by
  rw [options_eq] at failed
  rcases Except.bind_eq_error_iff.1 failed with reading | ⟨settings, -, failed⟩
  · exact kind_of_settings_error reading
  rcases Except.bind_eq_error_iff.1 failed with applying | ⟨_, -, overridden⟩
  · by_cases usable : settings.Usable
    · rw [Settings.toOptions, Settings.apply_of_usable usable] at applying
      cases applying
    · obtain ⟨_, blamed, kind⟩ := Settings.apply_of_unusable usable .standard
      rw [Settings.toOptions, blamed] at applying
      cases applying
      rw [kind]
      exact fun same => nomatch same
  · cases overridden

theorem decides_override (invocation : Invocation) (settings : Settings) :
    invocation.Decides settings (invocation.override (settings.override .standard)) where
  defaultTag := by cases h : invocation.defaultTag <;> simp [override, Settings.override, h]
  indentUnit := by cases h : invocation.indent <;> simp [override, Settings.override, h]
  maxNodes := by cases h : invocation.maxNodes <;> simp [override, Settings.override, h]
  maxDepth := by cases h : invocation.maxDepth <;> simp [override, Settings.override, h]
  closing := rfl
  childOf parent := ImplicitTags.childOf_insertAll _ _ parent

theorem Decides.eq {settings : Settings} {other : Options}
    (h : invocation.Decides settings options) (h' : invocation.Decides settings other) :
    options = other := by
  have tags : options.implicitTags = other.implicitTags :=
    ImplicitTags.ext_childOf fun parent => (h.childOf parent).trans (h'.childOf parent).symm
  have tag := h.defaultTag.trans h'.defaultTag.symm
  have unit := h.indentUnit.trans h'.indentUnit.symm
  have nodes := h.maxNodes.trans h'.maxNodes.symm
  have depth := h.maxDepth.trans h'.maxDepth.symm
  have closing := h.closing.trans h'.closing.symm
  obtain ⟨⟨_, _⟩, _, _, _, _⟩ := options
  obtain ⟨⟨_, _⟩, _, _, _, _⟩ := other
  cases tags
  cases tag
  cases unit
  cases nodes
  cases depth
  cases closing
  rfl

theorem options_eq_ok_iff_decides :
    invocation.options around = .ok options ↔
      ∃ settings, invocation.settings around = .ok settings ∧ settings.Usable ∧
        invocation.Decides settings options := by
  rw [options_eq_ok_iff]
  refine exists_congr fun settings => and_congr_right fun _ => and_congr_right fun _ => ?_
  have decided := decides_override invocation settings
  exact ⟨fun same => same ▸ decided, fun decides => decides.eq decided⟩

/-- The tag of a flag is a tag name, and the table stays as it is. -/
theorem Accepted.usable_override (accepted : invocation.Accepted arguments)
    (usable : options.Usable) : (invocation.override options).Usable where
  default_valid := by
    change TagName.isValid (invocation.defaultTag.getD options.defaultTag) = true
    cases flag : invocation.defaultTag with
    | none => exact usable.default_valid
    | some tag =>
      obtain ⟨text, -, read⟩ := accepted.defaultTag tag flag
      exact isValid_of_readTagName read
  implicit_valid := usable.implicit_valid

theorem usable_of_options (accepted : invocation.Accepted arguments)
    (resolved : invocation.options around = .ok options) : options.Usable := by
  obtain ⟨settings, -, usable, rfl⟩ := options_eq_ok_iff.1 resolved
  exact accepted.usable_override (Settings.usable_override usable Options.usable_standard)

theorem not_failure_mem_logged (entry : String) : .failure error ∉ invocation.logged entry := by
  unfold logged
  split <;> simp

theorem result_of_failure_mem {format : Format} {expanded : Expanded}
    (mem : .failure error ∈ invocation.expandedNotices format expanded) :
    expanded.result = .error error := by
  rcases List.mem_append.1 mem with mem | mem
  · exact absurd mem (not_failure_mem_logged _)
  split at mem
  next blamed failed _ =>
    cases List.mem_singleton.1 mem
    unfold Expanded.error? at failed
    split at failed <;> cases failed
    assumption
  next => cases mem

theorem exists_of_failure_mem {given : List String} {format : Format}
    (mem : .failure error ∈ (invocation.runExpand around given format).notices) :
    invocation.options around = .error error ∨
      ∃ options source, invocation.options around = .ok options ∧
        expandTree source options = .error (.reported error) := by
  have unloaded : .failure error ∉ invocation.loadingNotices around := by
    unfold loadingNotices
    split
    next => exact not_failure_mem_logged _
    next => exact List.not_mem_nil
  unfold runExpand at mem
  split at mem
  next blamed found =>
    rcases List.mem_append.1 mem with mem | mem
    · exact absurd mem unloaded
    · cases List.mem_singleton.1 mem
      exact .inl found
  next options found =>
    rcases List.mem_append.1 mem with mem | mem
    · rcases List.mem_append.1 mem with mem | mem
      · exact absurd mem unloaded
      obtain ⟨expanded, result, mem⟩ := List.mem_flatMap.1 mem
      obtain ⟨source, one⟩ := exists_of_mem_expandEach result
      have failed := expandTree_of_expandOne?_error one (result_of_failure_mem mem)
      exact .inr ⟨options, source, found, failed⟩
    · split at mem <;> simp at mem

/-- The command never blames an option, whether its options can be used or not. -/
theorem kind_of_failure_mem (accepted : invocation.Accepted arguments) {given : List String}
    {format : Format}
    (mem : .failure error ∈ (invocation.runExpand around given format).notices) :
    error.kind ≠ .option := by
  rcases exists_of_failure_mem mem with failed | ⟨options, source, resolved, failed⟩
  · exact kind_of_options_error failed
  · exact kind_ne_option_of_expandTree (usable_of_options accepted resolved) failed

/-- If the settings file can be used, the options of an invocation are what its flags say, or else
what the settings file says, or else the standard ones, and otherwise there are none.  The options
pass their check, so that no abbreviation fails because of one of them. -/
theorem options_decided (read : readArguments arguments = .invoke invocation)
    (around : Surroundings) (options : Options) :
    invocation.Accepted arguments ∧
      (invocation.options around = .ok options ↔
        ∃ settings, invocation.settings around = .ok settings ∧ settings.Usable ∧
          invocation.Decides settings options) ∧
      (invocation.options around = .ok options → options.validate = .ok () ∧
        ∀ source error, expandTree source options = .error (.reported error) →
          error.kind ≠ .option) ∧
      ∀ given format error,
        .failure error ∈ (invocation.runExpand around given format).notices →
          error.kind ≠ .option := by
  have accepted := accepted_of_readArguments read
  refine ⟨accepted, options_eq_ok_iff_decides, fun resolved => ?_,
    fun _ _ _ => kind_of_failure_mem accepted⟩
  have usable := usable_of_options accepted resolved
  exact ⟨Options.validate_eq_ok_iff.2 usable, fun _ _ => kind_ne_option_of_expandTree usable⟩

end Options

theorem settings_withFile {invocation : Invocation} {path text : String}
    (mem : path ∈ invocation.settingsPaths "/work") :
    invocation.settings (.withFile path text) = Settings.ofText text := by
  have file : invocation.settingsFile? (.withFile path text) = some (path, text.toUTF8) := by
    unfold settingsFile?
    change (invocation.settingsPaths "/work").findSome? _ = _
    generalize invocation.settingsPaths "/work" = paths at mem ⊢
    induction paths with
    | nil => cases mem
    | cons first rest ih =>
      by_cases same : first = path
      · simp [Surroundings.withFile, same]
      · have behind := ih ((List.mem_cons.1 mem).resolve_left (Ne.symm same))
        simpa [Surroundings.withFile, same] using behind
  unfold Invocation.settings
  rw [file]
  exact Settings.ofBytes_toUTF8 text

def siteExpansion : Invocation where
  command := some (.expand [] .text)
  path := some "site"
  indent := some (.literal "\t")
  defaultTag := some "section"

/-- Flags on both sides of the command, and a file that speaks about the same tag. -/
theorem options_decided_override :
    readArguments ["--indent", "tab", "expand", "--default-tag=section", "--path", "site"] =
      .invoke siteExpansion ∧
      ∃ options,
        siteExpansion.options
          (.withFile "site/.emmet.toml" "default_tag = \"p\"\nmax_depth = 9") = .ok options ∧
        options.defaultTag = "section" ∧ options.indentUnit = "\t" ∧ options.maxDepth = 9 ∧
          options.maxNodes = 10000 ∧ options.closing = .html ∧ options.validate = .ok () ∧
            ∀ source error, expandTree source options = .error (.reported error) →
              error.kind ≠ .option := by
  have read : readArguments
      ["--indent", "tab", "expand", "--default-tag=section", "--path", "site"] =
        .invoke siteExpansion := rfl
  obtain ⟨settings, parsed, shown⟩ := Except.exists_of_toOption_map
    (show (Settings.ofText "default_tag = \"p\"\nmax_depth = 9").toOption.map
        (fun settings => (settings.validate.toOption, settings.maxDepth, settings.maxNodes,
          settings.closing)) = some (some (), some 9, none, none) by decide +kernel)
  simp only [Prod.mk.injEq] at shown
  obtain ⟨checked, depth, nodes, closing⟩ := shown
  have usable : settings.Usable := by
    rw [← Settings.validate_eq_ok_iff]
    cases result : settings.validate with
    | error error =>
      rw [result] at checked
      cases checked
    | ok => rfl
  have mem : "site/.emmet.toml" ∈ siteExpansion.settingsPaths "/work" := by decide +kernel
  have found := (settings_withFile mem).trans parsed
  have resolved := options_eq_ok_iff.2 ⟨settings, found, usable, rfl⟩
  obtain ⟨-, decides, sound, -⟩ := options_decided read _ _
  obtain ⟨chosen, same, -, decided⟩ := decides.1 resolved
  cases found.symm.trans same
  refine ⟨read, _, resolved, decided.defaultTag, decided.indentUnit, ?_, ?_, ?_, sound resolved⟩
  · rw [decided.maxDepth, depth]
    rfl
  · rw [decided.maxNodes, nodes]
    rfl
  · rw [decided.closing, closing]
    rfl

end Invocation

end Shorthand.CommandLine
