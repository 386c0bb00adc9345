import Shorthand.Proofs.Abbreviation.OwnModifier
import Shorthand.Proofs.Abbreviation.Places
import Shorthand.Proofs.Abbreviation.Populated
import Shorthand.Proofs.Abbreviation.Writing
import Shorthand.Proofs.Markup.Names

/-! # Parsed forests are well formed

Later steps rely on what the lexer and the parser have seen to: that names are words, that attributes
have names of their own, that a numbering has something to number, and that every node is repeated at
least once and has a place in the source.
-/
namespace Shorthand

open Shorthand.Parser

/-- What holds of each node of a forest that was parsed from a source. -/
structure Head.WellFormed (source : String) (head : Head) : Prop where
  repeated : 1 ≤ head.multiplier
  names : ∀ name ∈ head.tag.toList ++ head.classes ++ head.id.toList, IsWord name
  attributes : Attribute.Sound head.attributes
  numbered : head.numbering ≠ .plain → ∃ template ∈ head.templates, '$' ∈ template.toList
  inside : head.span.Inside source.toList
  covers : head.span.start < head.span.stop

/-! ## What a run spells -/

theorem isWord_strip {name : String} (h : Lexer.IsName name.toList) :
    IsWord (Numbering.strip name).1 where
  nonempty := Numbering.toList_strip_ne_nil h
  inside _ mem := Numbering.word_of_mem_strip h mem

namespace Spells

variable {run : List Token} {span : Span} {head : Head}

/-- An element has the names of its run without their modifiers. -/
theorem exists_name (h : Spells run span head) {name : String}
    (mem : name ∈ head.tag.toList ++ head.classes ++ head.id.toList) :
    ∃ token ∈ run, ∃ written, token.name? = some written ∧ (Numbering.strip written).1 = name := by
  simp only [Token.name?_eq_some_iff]
  rw [h.parts] at mem
  simp only [Head.mapTemplates, Parts.head, Parts.ofRun, List.mem_append, Option.mem_toList,
    Option.map_eq_some_iff, List.mem_map, List.mem_filterMap] at mem
  rcases mem with (⟨written, tag, same⟩ | ⟨written, ⟨token, inside, named⟩, same⟩) |
    ⟨written, id, same⟩
  · obtain ⟨token, inside, named⟩ := List.exists_of_findSome?_eq_some tag
    exact ⟨token, inside, written, .inl named, same⟩
  · exact ⟨token, inside, written, .inr (.inl named), same⟩
  · obtain ⟨token, inside, named⟩ := List.exists_of_findSome?_eq_some id
    exact ⟨token, inside, written, .inr (.inr named), same⟩

theorem isWord_of_mem (h : Spells run span head) (sound : ∀ token ∈ run, token.Sound)
    {name : String} (mem : name ∈ head.tag.toList ++ head.classes ++ head.id.toList) :
    IsWord name := by
  obtain ⟨token, inside, written, named, rfl⟩ := h.exists_name mem
  exact isWord_strip ((sound token inside).isName named)

theorem sound_attributes (h : Spells run span head) (sound : ∀ token ∈ run, token.Sound) :
    Attribute.Sound head.attributes := by
  rw [h.parts]
  exact (sound_attributes_ofRun sound).map_value _

/-- A numbering that is not plain comes from a modifier, in front of which stands a placeholder. -/
theorem exists_placeholder_of_numbered (h : Spells run span head) (isRun : IsElementRun run)
    (numbered : head.numbering ≠ .plain) : ∃ template ∈ head.templates, '$' ∈ template.toList := by
  obtain ⟨modifier, mem⟩ := List.exists_mem_of_ne_nil _ (mt h.unmodified numbered)
  exact h.exists_placeholder isRun mem

end Spells

/-! ## Whole forests -/

/-- A forest that is parsed has nodes, and all of them are well formed.  A group has children, a
multiplier and a place, and nothing else. -/
theorem parseAbbreviation_wellFormed {source : String} {maxDepth : Nat} {forest : Abbreviation}
    (ok : parseAbbreviation source maxDepth = .ok forest) :
    forest ≠ [] ∧ (∀ tree ∈ forest, Populated tree) ∧
      ∀ head ∈ Tree.labelsAll forest, head.WellFormed source := by
  obtain ⟨nonempty, populated⟩ := populated_of_parseAbbreviation ok
  obtain ⟨tokens, tokenized, parsed⟩ := Except.bind_eq_ok_iff.1 ok
  refine ⟨nonempty, populated, fun head mem => ?_⟩
  obtain ⟨tree, inside, label⟩ := Tree.mem_labelsAll.1 mem
  obtain ⟨some, bare⟩ := (populated tree inside).of_mem_labels label
  have repeated : 1 ≤ head.multiplier := one_le_of_ne_zero some
  obtain ⟨place, covers⟩ := covers_of_parseTokens tokenized (locate_eq_ok_iff.1 parsed) head mem
  cases kind : head.kind with
  | group =>
    obtain ⟨multiplier, span, rfl⟩ := bare kind
    exact ⟨repeated, nofun, .nil, fun numbered => absurd rfl numbered, place, covers⟩
  | element =>
    obtain ⟨depth, run, outlined, isRun, spells⟩ := exists_run_of_mem parsed mem kind
    have sound : ∀ token ∈ run.map (·.token), token.Sound :=
      List.forall_mem_map.2 fun placed mem =>
        sound_of_tokenize tokenized placed (mem_of_mem_outline outlined placed mem)
    exact ⟨repeated, fun name mem => spells.isWord_of_mem sound mem, spells.sound_attributes sound,
      spells.exists_placeholder_of_numbered isRun, place, covers⟩

/-- Modifiers inside of names and an attribute that is given twice. -/
theorem parseAbbreviation_wellFormed_modified :
    ∃ forest, parseAbbreviation "(ul>li#m-$@-3_.a:b.$$@-3[x='1' y x=$]*2)*4" 256 = .ok forest ∧
      forest ≠ [] ∧ (∀ tree ∈ forest, Populated tree) ∧
        ∀ head ∈ ([{ kind := .group, multiplier := 4, span := ⟨0, 42⟩ },
            { tag := some "ul", span := ⟨1, 3⟩ },
            { tag := some "li", classes := ["a:b", "$$"], id := some "m-$_",
              attributes := [⟨"x", some "$"⟩, ⟨"y", none⟩], multiplier := 2,
              numbering := { start := 3, reversed := true }, span := ⟨4, 39⟩ }] : List Head),
          head.WellFormed "(ul>li#m-$@-3_.a:b.$$@-3[x='1' y x=$]*2)*4" := by
  have labels : (parseAbbreviation "(ul>li#m-$@-3_.a:b.$$@-3[x='1' y x=$]*2)*4" 256).toOption.map
      Tree.labelsAll =
        some [{ kind := .group, multiplier := 4, span := ⟨0, 42⟩ },
          { tag := some "ul", span := ⟨1, 3⟩ },
          { tag := some "li", classes := ["a:b", "$$"], id := some "m-$_",
            attributes := [⟨"x", some "$"⟩, ⟨"y", none⟩], multiplier := 2,
            numbering := { start := 3, reversed := true }, span := ⟨4, 39⟩ }] := by
    decide +kernel
  obtain ⟨forest, parsed, shown⟩ := Except.exists_of_toOption_map labels
  rw [← shown]
  exact ⟨forest, parsed, parseAbbreviation_wellFormed parsed⟩

end Shorthand
