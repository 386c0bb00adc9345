import Shorthand.Proofs.Abbreviation.Templates
import Shorthand.Proofs.Markup.Origins
import Shorthand.Proofs.Numbering.Sequence

/-! # Elements with a modifier of their own

An element that is not repeated itself and stands inside a repeated node should be numbered by its
own modifier.  A modifier that says what holds anyway, counting from 1 in steps of 1, cannot be told
from none: the element then shows the number of its parent copy.
-/
namespace Shorthand

open Shorthand.Parser

/-- A modifier stands behind a placeholder, which stays. -/
theorem Spells.exists_placeholder {run : List Token} {span : Span} {head : Head}
    (h : Spells run span head) (isRun : IsElementRun run) {modifier : Numbering}
    (mem : modifier ∈ modifiersOf run) : ∃ template ∈ head.templates, '$' ∈ template.toList := by
  rw [← isRun.mem_modifiers span, Head.modifiers, List.mem_flatMap] at mem
  obtain ⟨template, inside, found⟩ := mem
  have kept : '$' ∈ (Numbering.strip template).1.toList :=
    Numbering.dollar_mem_strip (List.ne_nil_of_mem found)
  refine ⟨_, ?_, kept⟩
  have stripped : head.templates =
      (((Parts.ofRun run).head span).mapTemplates (fun template =>
        (Numbering.strip template).1)).templates := by
    rw [h.parts]
    rfl
  rw [stripped, Head.templates_mapTemplates]
  exact List.mem_map_of_mem inside

/-- A copy of an element with a modifier shows what the modifier says about the nearest repeated
ancestor unless the modifier is plain and the parent copy shows another number. -/
theorem Path.copy_eq_iff {run : List Token} {span : Span} {head repeated : Head} {index i : UInt64}
    {above : Path} {modifier : Numbering} (isRun : IsElementRun run) (spells : Spells run span head)
    (mem : modifier ∈ modifiersOf run) (single : head.multiplier = 1)
    (found : above.repeated? = some (repeated, i)) (counted : i ≠ 0) :
    Path.copy ((head, index) :: above) = head.copy (modifier.number i repeated.multiplier) ↔
      modifier ≠ .plain ∨ above.shown = i := by
  rw [Path.copy, Path.shown, found, spells.modified modifier mem]
  simp only [single, if_true, Numbering.isPlain, decide_eq_true_eq]
  by_cases plain : head.numbering = .plain
  · rw [if_pos plain, plain, Numbering.number_plain counted]
    obtain ⟨template, inside, placeholder⟩ := spells.exists_placeholder isRun mem
    simp only [ne_eq, not_true, false_or]
    exact ⟨fun same => Head.copy_inj inside placeholder same, fun same => by rw [same]⟩
  · rw [if_neg plain]
    simp [plain]

/-- A path ends at an element that a run of the tokens spells.  If the element is not repeated
itself but stands below a repeated node, its copy shows what a modifier of the run says about the
nearest such node just if the modifier is not plain or the parent copy shows the index of the
replica. -/
inductive Path.ShowsModifier (tokens : List PlacedToken) : Path → Prop where
  | intro {head : Head} {index : UInt64} {above : Path} {depth : Nat} {run : List PlacedToken}
      (outlined : (depth, .element run) ∈ outline [] false tokens)
      (spells : Spells (run.map (·.token)) (spanOf run) head)
      (shows : head.multiplier = 1 → ∀ repeated i, above.repeated? = some (repeated, i) →
        ∀ modifier ∈ modifiersOf (run.map (·.token)),
          (Path.copy ((head, index) :: above) =
              head.copy (modifier.number i repeated.multiplier) ↔
            modifier ≠ .plain ∨ above.shown = i)) :
      ShowsModifier tokens ((head, index) :: above)

theorem Path.EndsAt.showsModifier {source : String} {maxDepth : Nat} {tokens : List PlacedToken}
    {forest : Abbreviation} (parsed : parse source maxDepth tokens = .ok forest) {path : Path}
    (h : path.EndsAt (Tree.labelsAll forest)) (kind : path.copy.kind = .element) :
    path.ShowsModifier tokens := by
  obtain ⟨depth, run, outlined, isRun, spells⟩ := h.spelled parsed kind
  refine .intro outlined spells ?_
  intro single repeated i found modifier inside
  have counted : i ≠ 0 :=
    h.counted (repeated, i) (List.mem_cons_of_mem _ (List.mem_of_find?_eq_some found))
  exact Path.copy_eq_iff isRun spells inside single found counted

/-- The elements of the markup are the copies of the elements of the source, and these show their
modifiers. -/
theorem expandTree_shows_modifier {source : String} {options : Options} {markup : Markup}
    (accepted : expandTree source options = .ok markup) :
    ∃ tokens forest, tokenize source = .ok tokens ∧
      parse source options.maxDepth tokens = .ok forest ∧
      List.Forall₂
        (fun (path : Path) element => path.ShowsModifier tokens ∧
          Marks options.implicitTags options.defaultTag path.copy element)
        ((Tree.labelsAll (tracesAll [] forest)).filter fun path : Path => path.copy.kind = .element)
        (Tree.labelsAll markup) := by
  obtain ⟨-, forest, copies, parsed, unrolled, rfl⟩ := expandTree_iff_steps.1 accepted
  obtain ⟨tokens, tokenized, parsed⟩ := Except.bind_eq_ok_iff.1 parsed
  refine ⟨tokens, forest, tokenized, parsed, (List.forall₂_and_left _ _).2 ⟨?_, ?_⟩⟩
  · intro path mem
    rw [List.mem_filter, decide_eq_true_eq] at mem
    exact (endsAt_of_mem_tracesAll (by simp) forest mem.1).showsModifier parsed mem.2
  · have marks := marks_markupAll options.implicitTags options.defaultTag none copies
    have traced : copies = Tree.mapAll Path.copy (tracesAll [] forest) :=
      eq_traces_of_unrollNodes unrolled
    rw [traced, Tree.labelsAll_mapAll, List.filter_map, List.forall₂_map_left_iff] at marks
    rw [traced]
    exact marks

/-- A reversed modifier is no plain one, whatever the parent shows. -/
theorem expandTree_shows_modifier_reversed :
    ∃ tokens forest, tokenize "ul.y$@5*2>li.x$@-" = .ok tokens ∧
      parse "ul.y$@5*2>li.x$@-" 256 tokens = .ok forest ∧
      List.Forall₂
        (fun (path : Path) element => path.ShowsModifier tokens ∧
          Marks .standard "div" path.copy element)
        ((Tree.labelsAll (tracesAll [] forest)).filter fun path : Path => path.copy.kind = .element)
        [{ tag := "ul", classes := ["y5"] }, { tag := "li", classes := ["x2"] },
          { tag := "ul", classes := ["y6"] }, { tag := "li", classes := ["x1"] }] := by
  have labels : (expandTree "ul.y$@5*2>li.x$@-" .standard).toOption.map Tree.labelsAll =
      some [{ tag := "ul", classes := ["y5"] }, { tag := "li", classes := ["x2"] },
        { tag := "ul", classes := ["y6"] }, { tag := "li", classes := ["x1"] }] := by
    decide +kernel
  obtain ⟨markup, accepted, shown⟩ := Except.exists_of_toOption_map labels
  rw [← shown]
  exact expandTree_shows_modifier accepted

/-- A plain modifier is overruled by the numbering of the repeated node. -/
theorem expandTree_ignores_plain_modifier :
    (∃ markup, expandTree "ul.y$@5*2>li.x$@1" .standard = .ok markup ∧
      Tree.labelsAll markup =
        [{ tag := "ul", classes := ["y5"] }, { tag := "li", classes := ["x5"] },
          { tag := "ul", classes := ["y6"] }, { tag := "li", classes := ["x6"] }]) ∧
      Numbering.strip "x$@1" = ("x$", [{ start := 1, step := 1, reversed := false }]) ∧
      Numbering.substitute? "x$"
        (Numbering.number { start := 1, step := 1, reversed := false } 1 2) = some "x1" := by
  refine ⟨Except.exists_of_toOption_map ?_, ?_, ?_⟩
  · decide +kernel
  · decide +kernel
  · decide +kernel

end Shorthand
