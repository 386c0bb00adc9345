import Shorthand.Proofs.Markup.Origins
import Shorthand.Proofs.Options

/-! # Names in the markup

Every tag of the markup is a tag name, whether the abbreviation names it or not, and so are the id
and the classes that the abbreviation names with marks of their own.
-/
namespace Shorthand

open Shorthand.Parser

/-- The name that a token gives to its element: as tag, as class or as id. -/
def Token.name? : Token → Option String
  | tagName name | className name | idName name => some name
  | _ => none

/-- An element has the names that a run of tokens gives it, as they are shown with a number.  Its
other classes come behind those of the run. -/
structure Element.NamedBy (run : List Token) (number : UInt64) (element : Element) : Prop where
  tag : ∀ name, .tagName name ∈ run → element.tag = Numbering.displayed name number
  id : ∀ name, .idName name ∈ run → element.id = some (Numbering.displayed name number)
  classes : (run.filterMap Token.class?).map (Numbering.displayed · number) <+: element.classes

/-- The element at the end of a path is named by the run of tokens that spells it, and all names of
the run are shown there as tag names. -/
def Path.Names (tokens : List PlacedToken) (path : Path) (element : Element) : Prop :=
  ∃ depth run, (depth, .element run) ∈ outline [] false tokens ∧ path.Spelled run ∧
    element.NamedBy (run.map (·.token)) path.shown ∧
      ∀ placed ∈ run, ∀ name, placed.token.name? = some name →
        TagName.isValid (Numbering.displayed name path.shown) = true

theorem Token.name?_eq_some_iff {token : Token} {name : String} :
    token.name? = some name ↔
      token.tag? = some name ∨ token.class? = some name ∨ token.id? = some name := by
  cases token <;> simp [name?, tag?, class?, id?]

theorem Token.Sound.isName {token : Token} (h : token.Sound) {name : String}
    (named : token.name? = some name) : Lexer.IsName name.toList := by
  cases token with
  | tagName | className | idName =>
    cases named
    exact h
  | _ => cases named

theorem Token.Sound.isValid_displayed {token : Token} (h : token.Sound) {name : String}
    (named : token.name? = some name) (number : UInt64) :
    TagName.isValid (Numbering.displayed name number) = true :=
  Numbering.isValid_displayed (h.isName named) number

/-- The names of a run are those of the parts it spells. -/
theorem Path.Spelled.namedBy {run : List PlacedToken} {path : Path} (h : path.Spelled run)
    {table : ImplicitTags} {fallback : String} {element : Element}
    (marks : Marks table fallback path.copy element) :
    element.NamedBy (run.map (·.token)) path.shown := by
  obtain ⟨parent, rfl⟩ := h.element_eq marks
  rw [h.copy_eq]
  constructor
  · intro name mem
    have tag : (run.map (·.token)).findSome? Token.tag? = some name :=
      h.isRun.tag_eq_some_iff.2 ⟨_, mem, rfl⟩
    simp only [Head.mapTemplates, Parts.head, Parts.ofRun, tag, Option.map_some, Option.getD_some]
  · intro name mem
    have id : (run.map (·.token)).findSome? Token.id? = some name :=
      (h.isRun.findSome?_eq_some_iff .id
        (by intro token; cases token <;> simp [Token.id?, Token.part?])).2 ⟨_, mem, rfl⟩
    simp only [Head.element, Head.mapTemplates, Parts.head, Parts.ofRun, id, Option.map_some,
      Option.some_or]
  · exact List.prefix_append _ _

theorem Path.Spelled.isValid_tag {run : List PlacedToken} {path : Path} (h : path.Spelled run)
    (sound : ∀ placed ∈ run, placed.token.Sound) {options : Options}
    (valid : options.validate = .ok ()) {element : Element}
    (marks : Marks options.implicitTags options.defaultTag path.copy element) :
    TagName.isValid element.tag = true := by
  obtain ⟨parent, rfl⟩ := h.element_eq marks
  have tag : path.copy.tag =
      ((run.map (·.token)).findSome? Token.tag?).map (Numbering.displayed · path.shown) := by
    rw [h.copy_eq]
    rfl
  dsimp only
  rw [tag]
  cases found : (run.map (·.token)).findSome? Token.tag? with
  | none => exact (Options.validate_eq_ok_iff.1 valid).isValid_inserted parent
  | some name =>
    obtain ⟨token, mem, named⟩ := h.isRun.tag_eq_some_iff.1 found
    obtain ⟨placed, inside, rfl⟩ := List.mem_map.1 mem
    exact (sound placed inside).isValid_displayed (Token.name?_eq_some_iff.2 (.inl named)) path.shown

/-- Every tag of the markup is a tag name.  Each element of the markup has the names of the run of
tokens that it goes back to, and all of them are shown as tag names. -/
theorem expandTree_names_valid {source : String} {options : Options} {markup : Markup}
    (accepted : expandTree source options = .ok markup) :
    (∀ element ∈ Tree.labelsAll markup, TagName.isValid element.tag = true) ∧
      ∃ tokens forest, tokenize source = .ok tokens ∧
        parse source options.maxDepth tokens = .ok forest ∧
        List.Forall₂ (Path.Names tokens)
          ((Tree.labelsAll (tracesAll [] forest)).filter fun path : Path =>
            path.copy.kind = .element)
          (Tree.labelsAll markup) := by
  obtain ⟨valid, tokens, forest, tokenized, parsed, yields⟩ := yields_of_expandTree accepted
  have sound := sound_of_tokenize tokenized
  refine ⟨?_, tokens, forest, tokenized, parsed, yields.imp ?_⟩
  · intro element mem
    obtain ⟨path, -, ⟨depth, run, outlined, spelled⟩, marks⟩ := exists_of_mem_right yields mem
    have sound := fun placed mem => sound placed (mem_of_mem_outline outlined placed mem)
    exact spelled.isValid_tag sound valid marks
  · rintro path element ⟨⟨depth, run, outlined, spelled⟩, marks⟩
    refine ⟨depth, run, outlined, spelled, spelled.namedBy marks, fun placed mem name named => ?_⟩
    exact (sound placed (mem_of_mem_outline outlined placed mem)).isValid_displayed named path.shown

/-- Named and inserted tags, with a class from a block that is no tag name. -/
theorem expandTree_names_valid_list :
    (∀ element ∈ ([{ tag := "ul", id := some "m" }, { tag := "li", classes := ["c3", "é"] },
        { tag := "h3" }, { tag := "li", classes := ["c4", "é"] }, { tag := "h4" }] : List Element),
      TagName.isValid element.tag = true) ∧
      ∃ tokens forest, tokenize "ul#m>.c$@3[class=é]*2>h$" = .ok tokens ∧
        parse "ul#m>.c$@3[class=é]*2>h$" 256 tokens = .ok forest ∧
        List.Forall₂ (Path.Names tokens)
          ((Tree.labelsAll (tracesAll [] forest)).filter fun path : Path =>
            path.copy.kind = .element)
          [{ tag := "ul", id := some "m" }, { tag := "li", classes := ["c3", "é"] },
            { tag := "h3" }, { tag := "li", classes := ["c4", "é"] }, { tag := "h4" }] := by
  have labels : (expandTree "ul#m>.c$@3[class=é]*2>h$" .standard).toOption.map Tree.labelsAll =
      some [{ tag := "ul", id := some "m" }, { tag := "li", classes := ["c3", "é"] },
        { tag := "h3" }, { tag := "li", classes := ["c4", "é"] }, { tag := "h4" }] := by
    decide +kernel
  obtain ⟨markup, accepted, shown⟩ := Except.exists_of_toOption_map labels
  rw [← shown]
  exact expandTree_names_valid accepted

end Shorthand
