import Shorthand.Proofs.Abbreviation.Outline
import Shorthand.Proofs.Abbreviation.Unrolling
import Shorthand.Proofs.Expansion
import Shorthand.Proofs.Markup.Elements
import Shorthand.Proofs.Numbering.Name
import Shorthand.Proofs.Token.Reading

/-! # Where elements come from

Every element of the markup goes back to a run of tokens.  It is a copy of the element that the run
spells: the templates lose their modifiers when the run is parsed and get the number of the copy when
the forest is unrolled, and a missing tag is filled in when the copy is resolved.
-/
namespace Shorthand

open Shorthand.Parser

/-- A copy of an element shows what the run of the element spells, with its number. -/
theorem Spells.copy_eq {run : List Token} {span : Span} {head : Head} (h : Spells run span head)
    (number : UInt64) :
    head.copy number =
      { ((Parts.ofRun run).head span).mapTemplates (Numbering.displayed · number) with
        multiplier := 1
        numbering := .plain } := by
  rw [Head.copy, h.parts]
  simp only [Head.mapTemplates, Option.map_map, List.map_map, Function.comp_def]
  rfl

theorem mem_of_mem_outline {levels : List Level} {inItem : Bool} {tokens run : List PlacedToken}
    {depth : Nat} (outlined : (depth, .element run) ∈ outline levels inItem tokens) :
    ∀ placed ∈ run, placed ∈ tokens := by
  induction tokens generalizing levels inItem with
  | nil => cases outlined
  | cons first rest ih =>
    rw [outline, List.mem_append] at outlined
    rcases outlined with here | later
    · split at here
      next => simp at here
      next =>
        split at here
        next => simp at here
        next =>
          obtain ⟨-, rfl⟩ : depth = levels.length ∧ run = _ := by simpa using here
          exact List.cons_subset_cons first (List.takeWhile_subset _)
    · exact fun placed mem => List.mem_cons_of_mem first (ih later placed mem)

theorem sound_of_tokenize {source : String} {tokens : List PlacedToken}
    (tokenized : tokenize source = .ok tokens) : ∀ placed ∈ tokens, placed.token.Sound :=
  sound_of_lex (locate_eq_ok_iff.1 tokenized)

/-- Only a sound block gives an element attributes. -/
theorem sound_attributes_ofRun {run : List Token} (sound : ∀ token ∈ run, token.Sound) :
    Attribute.Sound ((Parts.ofRun run).attributes.getD []) := by
  show Attribute.Sound ((run.findSome? Token.attributes?).getD [])
  cases found : run.findSome? Token.attributes? with
  | none => exact .nil
  | some entries =>
    obtain ⟨token, mem, block⟩ := List.exists_of_findSome?_eq_some found
    have entriesSound := sound token mem
    cases token with
    | attributes => cases block; exact entriesSound
    | _ => cases block

theorem exists_run_of_mem {source : String} {maxDepth : Nat} {tokens : List PlacedToken}
    {forest : Abbreviation} (parsed : parse source maxDepth tokens = .ok forest) {head : Head}
    (mem : head ∈ Tree.labelsAll forest) (kind : head.kind = .element) :
    ∃ depth run, (depth, .element run) ∈ outline [] false tokens ∧
      IsElementRun (run.map (·.token)) ∧ Spells (run.map (·.token)) (spanOf run) head := by
  rw [← Tree.map_snd_preorderAll 0] at mem
  obtain ⟨⟨depth, head⟩, listed, rfl⟩ := List.mem_map.1 mem
  obtain ⟨entry, announces, outlined⟩ := exists_of_mem_right (announced_of_parse parsed) listed
  cases outlined with
  | group group =>
    dsimp only at kind
    rw [group] at kind
    cases kind
  | element isRun spells => exact ⟨depth, _, announces, isRun, spells⟩

/-- A path ends at an element that a run of tokens spells. -/
inductive Path.Spelled (run : List PlacedToken) : Path → Prop where
  | intro {head : Head} {index : UInt64} {above : Path} (isRun : IsElementRun (run.map (·.token)))
      (spells : Spells (run.map (·.token)) (spanOf run) head) : Spelled run ((head, index) :: above)

theorem Path.Spelled.isRun {run : List PlacedToken} {path : Path} (h : path.Spelled run) :
    IsElementRun (run.map (·.token)) := by
  cases h with
  | intro isRun spells => exact isRun

theorem Path.Spelled.copy_eq {run : List PlacedToken} {path : Path} (h : path.Spelled run) :
    path.copy =
      { ((Parts.ofRun (run.map (·.token))).head (spanOf run)).mapTemplates
          (Numbering.displayed · path.shown) with
        multiplier := 1
        numbering := .plain } := by
  cases h with
  | intro isRun spells => exact spells.copy_eq _

/-- Every path to an element of a forest ends at what some run of the tokens spells. -/
theorem Path.EndsAt.spelled {source : String} {maxDepth : Nat} {tokens : List PlacedToken}
    {forest : Abbreviation} (parsed : parse source maxDepth tokens = .ok forest) {path : Path}
    (h : path.EndsAt (Tree.labelsAll forest)) (kind : path.copy.kind = .element) :
    ∃ depth run, (depth, .element run) ∈ outline [] false tokens ∧ path.Spelled run := by
  obtain ⟨head, index, above, rfl, mem⟩ := h.ends
  obtain ⟨depth, run, outlined, isRun, spells⟩ := exists_run_of_mem parsed mem kind
  exact ⟨depth, run, outlined, isRun, spells⟩

/-- An element is made of the copy at the end of a path, which goes to an element that a run of the
tokens spells. -/
structure Path.Yields (tokens : List PlacedToken) (options : Options) (path : Path)
    (element : Element) : Prop where
  spelled : ∃ depth run, (depth, .element run) ∈ outline [] false tokens ∧ path.Spelled run
  marks : Marks options.implicitTags options.defaultTag path.copy element

/-- The elements of the markup in preorder are made at the paths that end at elements. -/
theorem yields_of_expandTree {source : String} {options : Options} {markup : Markup}
    (accepted : expandTree source options = .ok markup) :
    options.validate = .ok () ∧ ∃ tokens forest, tokenize source = .ok tokens ∧
      parse source options.maxDepth tokens = .ok forest ∧
      List.Forall₂ (Path.Yields tokens options)
        ((Tree.labelsAll (tracesAll [] forest)).filter fun path : Path => path.copy.kind = .element)
        (Tree.labelsAll markup) := by
  obtain ⟨valid, forest, copies, parsed, unrolled, rfl⟩ := expandTree_iff_steps.1 accepted
  obtain ⟨tokens, tokenized, parsed⟩ := Except.bind_eq_ok_iff.1 parsed
  refine ⟨valid, tokens, forest, tokenized, parsed, ?_⟩
  have marks := marks_markupAll options.implicitTags options.defaultTag none copies
  rw [eq_traces_of_unrollNodes unrolled] at marks ⊢
  rw [Tree.labelsAll_mapAll, List.filter_map, List.forall₂_map_left_iff] at marks
  refine ((List.forall₂_and_left _ _).2 ⟨fun path mem => ?_, marks⟩).imp
    fun path element both => ⟨both.1, both.2⟩
  obtain ⟨inside, element⟩ := List.mem_filter.1 mem
  have ends := endsAt_of_mem_tracesAll (by simp) forest inside
  exact ends.spelled parsed (of_decide_eq_true element)

/-- Resolving makes an element of a copy, and decides about its tag only. -/
theorem Path.Spelled.element_eq {run : List PlacedToken} {path : Path} (h : path.Spelled run)
    {table : ImplicitTags} {fallback : String} {element : Element}
    (marks : Marks table fallback path.copy element) :
    ∃ parent : Option String, element = { path.copy.element fallback with
      tag := path.copy.tag.getD ((parent.bind table.childOf).getD fallback) } := by
  obtain ⟨parent, rfl⟩ := marks
  have kind : path.copy.kind = .element := by rw [h.copy_eq]; rfl
  exact ⟨parent, Head.element_resolveTag kind table fallback parent⟩

end Shorthand
