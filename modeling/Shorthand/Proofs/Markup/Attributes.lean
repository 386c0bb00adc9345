import Shorthand.Markup.Layout
import Shorthand.Proofs.Markup.Names
import Shorthand.Proofs.Text.Words

/-! # Attributes and classes of elements

No element of the markup has two attributes of one name, and what an attribute block says about
`class` and `id` is not kept beside the classes and the id.  An opening tag therefore names no
attribute twice.  The classes of an element are words, which the opening tag writes next to each
other with spaces in between.
-/
namespace Shorthand

open Shorthand.Parser

/-- A head whose attributes have names of their own and whose classes are words. -/
structure Head.Sound (head : Head) : Prop where
  attributes : Attribute.Sound head.attributes
  classes : ∀ name ∈ head.classes, Text.Unbroken name

theorem Path.Spelled.sound {run : List PlacedToken} {path : Path} (h : path.Spelled run)
    (sound : ∀ placed ∈ run, placed.token.Sound) : path.copy.Sound := by
  have sound : ∀ token ∈ run.map (·.token), token.Sound := List.forall_mem_map.2 sound
  rw [h.copy_eq]
  constructor
  · exact (sound_attributes_ofRun sound).map_value _
  · intro name mem
    obtain ⟨template, inside, rfl⟩ := List.mem_map.1 mem
    obtain ⟨token, mem, named⟩ := List.mem_filterMap.1 inside
    have named := Token.name?_eq_some_iff.2 (.inr (.inl named))
    exact Text.unbroken_of_isValid ((sound token mem).isValid_displayed named _)

/-- The attributes of an element have names of their own, none of which is written in another way
already, and its classes are words. -/
structure Element.Sound (element : Element) : Prop where
  distinct : (element.attributes.map (·.name)).Nodup
  named : ∀ entry ∈ element.attributes, entry.name ≠ "" ∧ ∀ c ∈ entry.name.toList,
    Text.isBlank c = false ∧ c ≠ '=' ∧ c ≠ ']' ∧ c ≠ '"' ∧ c ≠ '\''
  unclassed : ∀ entry ∈ element.attributes, entry.name ≠ "class"
  bareId : ∀ entry ∈ element.attributes, entry.name = "id" →
    element.id = none ∧ entry.value = none
  words : ∀ name ∈ element.classes, Text.Unbroken name

theorem Head.unbroken_of_mem_blockClasses {head : Head} {name : String}
    (mem : name ∈ head.blockClasses) : Text.Unbroken name := by
  obtain ⟨entry, -, inside⟩ := List.mem_flatMap.1 mem
  split at inside
  next =>
    cases value : entry.value with
    | none => rw [value] at inside; cases inside
    | some text =>
      rw [value] at inside
      exact Text.unbroken_of_mem_words inside
  next => cases inside

/-- Classes and ids from a block are taken out of the attributes. -/
theorem Head.Sound.element {head : Head} (h : head.Sound) (fallback : String) :
    (head.element fallback).Sound where
  distinct := h.attributes.distinct.sublist (List.filter_sublist.map _)
  named := by
    intro entry mem
    have own := h.attributes.named entry (List.mem_of_mem_filter mem)
    refine ⟨fun empty => own.nonempty (by rw [empty]; rfl), fun c inside => ?_⟩
    have allowed := own.inside c inside
    simp only [AttributeBlock.isNameChar, AttributeBlock.isQuote, Bool.and_eq_true, bne_iff_ne,
      Bool.not_eq_true', Bool.or_eq_false_iff, beq_eq_false_iff_ne, and_assoc] at allowed
    exact allowed
  unclassed := by
    intro entry mem
    have kept := (List.mem_filter.1 mem).2
    rw [Bool.and_eq_true, bne_iff_ne] at kept
    exact kept.1
  bareId := by
    intro entry mem name
    have kept := (List.mem_filter.1 mem).2
    simp only [name, beq_self_eq_true, Bool.true_and, Bool.and_eq_true, Bool.not_eq_true',
      Bool.or_eq_false_iff, Option.isSome_eq_false_iff, Option.isNone_iff_eq_none] at kept
    exact ⟨kept.2.2, kept.2.1⟩
  words := by
    intro name mem
    rcases List.mem_append.1 mem with own | block
    · exact h.classes name own
    · exact Head.unbroken_of_mem_blockClasses block

namespace Layout

def escaped (value : String) : String :=
  String.ofList (value.toList.flatMap fun c => if c = '"' then "&quot;".toList else [c])

theorem attributeText_class (value : String) :
    attributeText ⟨"class", some value⟩ = " class=\"" ++ escaped value ++ "\"" := rfl

theorem escaped_append (front back : String) :
    escaped (front ++ back) = escaped front ++ escaped back := by
  rw [escaped, String.toList_append, List.flatMap_append, String.ofList_append, ← escaped, ← escaped]

theorem escaped_intercalate (pieces : List String) :
    escaped (" ".intercalate pieces) = " ".intercalate (pieces.map escaped) := by
  induction pieces with
  | nil => rfl
  | cons first rest ih =>
    cases rest with
    | nil => simp
    | cons next others =>
      have space : escaped " " = " " := rfl
      rw [String.intercalate_cons_cons, escaped_append, escaped_append, space, ih]
      simp only [List.map_cons, String.intercalate_cons_cons]

theorem quote_not_mem_escaped (value : String) : '"' ∉ (escaped value).toList := by
  rw [escaped, String.toList_ofList]
  intro mem
  obtain ⟨old, -, written⟩ := List.mem_flatMap.1 mem
  split at written
  next => exact absurd written (by decide)
  next other => exact other (List.mem_singleton.1 written).symm

theorem unbroken_escaped {word : String} (h : Text.Unbroken word) :
    Text.Unbroken (escaped word) := by
  constructor
  · intro empty
    obtain ⟨c, mem⟩ := List.exists_mem_of_ne_nil _ fun none =>
      h.nonempty (String.toList_eq_nil_iff.1 none)
    have nothing : (escaped word).toList = [] := String.toList_eq_nil_iff.2 empty
    rw [escaped, String.toList_ofList, List.flatMap_eq_nil_iff] at nothing
    have written := nothing c mem
    split at written
    next => exact absurd written (by decide +kernel)
    next => cases written
  · intro c mem
    rw [escaped, String.toList_ofList] at mem
    obtain ⟨old, inside, written⟩ := List.mem_flatMap.1 mem
    split at written
    next =>
      have unblank : "&quot;".toList.all (!Text.isBlank ·) = true := by decide +kernel
      simpa using List.all_eq_true.1 unblank c written
    next => rw [List.mem_singleton.1 written]; exact h.unblank old inside

theorem names_written (element : Element) :
    (written element).map (·.name) =
      (match element.id with | none => [] | some _ => ["id"]) ++
        (if element.classes.isEmpty then [] else ["class"]) ++ element.attributes.map (·.name) := by
  unfold written
  cases element.id <;> cases element.classes <;> simp

end Layout

/-- Neither the id nor the classes repeat an attribute. -/
theorem Element.Sound.nodup_written {element : Element} (h : element.Sound) :
    ((Layout.written element).map (·.name)).Nodup := by
  have noClass : "class" ∉ element.attributes.map (·.name) := by
    intro mem
    obtain ⟨entry, inside, name⟩ := List.mem_map.1 mem
    exact h.unclassed entry inside name
  have noId (id : String) (own : element.id = some id) : "id" ∉ element.attributes.map (·.name) := by
    intro mem
    obtain ⟨entry, inside, name⟩ := List.mem_map.1 mem
    rw [(h.bareId entry inside name).1] at own
    cases own
  have classed : ((if element.classes.isEmpty then [] else ["class"]) ++
      element.attributes.map (·.name)).Nodup := by
    split
    next => exact h.distinct
    next => exact List.nodup_cons.2 ⟨noClass, h.distinct⟩
  rw [Layout.names_written, List.append_assoc]
  split
  next => exact classed
  next id own =>
    rw [List.singleton_append, List.nodup_cons, List.mem_append, not_or]
    refine ⟨⟨?_, noId id own⟩, classed⟩
    split <;> simp

/-- The classes are the words of the class attribute.  Where it is written, quotes of their own are
escaped, so that its value ends at the next quote. -/
theorem Element.Sound.words_written {element : Element} (h : element.Sound)
    (classed : element.classes ≠ []) :
    ∃ value, ⟨"class", some value⟩ ∈ Layout.written element ∧
      Text.words value = element.classes ∧
      Layout.attributeText ⟨"class", some value⟩ = " class=\"" ++ Layout.escaped value ++ "\"" ∧
      '"' ∉ (Layout.escaped value).toList ∧
      Text.words (Layout.escaped value) = element.classes.map Layout.escaped := by
  refine ⟨" ".intercalate element.classes, by simp [Layout.written, classed],
    Text.words_intercalate h.words, Layout.attributeText_class _, Layout.quote_not_mem_escaped _, ?_⟩
  rw [Layout.escaped_intercalate]
  exact Text.words_intercalate (List.forall_mem_map.2 fun name mem =>
    Layout.unbroken_escaped (h.words name mem))

/-- Every element of the markup has attributes that differ by name from each other and from the id
and the classes, and its classes can be read off its opening tag. -/
theorem expandTree_attributes_distinct {source : String} {options : Options} {markup : Markup}
    (accepted : expandTree source options = .ok markup) :
    ∀ element ∈ Tree.labelsAll markup,
      element.Sound ∧ ((Layout.written element).map (·.name)).Nodup ∧
        (element.classes ≠ [] → ∃ value, ⟨"class", some value⟩ ∈ Layout.written element ∧
          Text.words value = element.classes ∧
          Layout.attributeText ⟨"class", some value⟩ =
            " class=\"" ++ Layout.escaped value ++ "\"" ∧
          '"' ∉ (Layout.escaped value).toList ∧
          Text.words (Layout.escaped value) = element.classes.map Layout.escaped) := by
  intro element mem
  obtain ⟨-, tokens, forest, tokenized, -, yields⟩ := yields_of_expandTree accepted
  obtain ⟨path, -, ⟨depth, run, outlined, spelled⟩, marks⟩ := exists_of_mem_right yields mem
  have sound : element.Sound := by
    obtain ⟨parent, rfl⟩ := spelled.element_eq marks
    have copy : path.copy.Sound := spelled.sound fun placed mem =>
      sound_of_tokenize tokenized placed (mem_of_mem_outline outlined placed mem)
    have untagged := copy.element options.defaultTag
    exact ⟨untagged.distinct, untagged.named, untagged.unclassed, untagged.bareId, untagged.words⟩
  exact ⟨sound, sound.nodup_written, sound.words_written⟩

/-- Classes of a mark and of a block, one of two equal names and a bare id. -/
theorem expandTree_attributes_distinct_block :
    ∃ element : Element, element.classes = ["a", "b\"", "c"] ∧
      element.attributes = [⟨"id", none⟩, ⟨"x", some "2"⟩] ∧
      element.Sound ∧ ((Layout.written element).map (·.name)).Nodup ∧
        (element.classes ≠ [] → ∃ value, ⟨"class", some value⟩ ∈ Layout.written element ∧
          Text.words value = element.classes ∧
          Layout.attributeText ⟨"class", some value⟩ =
            " class=\"" ++ Layout.escaped value ++ "\"" ∧
          '"' ∉ (Layout.escaped value).toList ∧
          Text.words (Layout.escaped value) = element.classes.map Layout.escaped) := by
  have labels : (expandTree "p.a[class='b\"  c' id x=1 x=2]" .standard).toOption.map Tree.labelsAll =
      some [
        { tag := "p"
          classes := ["a", "b\"", "c"]
          attributes := [⟨"id", none⟩, ⟨"x", some "2"⟩] }] := by
    decide +kernel
  obtain ⟨markup, accepted, shown⟩ := Except.exists_of_toOption_map labels
  have told := expandTree_attributes_distinct accepted
  rw [shown, List.forall_mem_singleton] at told
  refine ⟨_, ?_, ?_, told⟩
  · rfl
  · rfl

/-- The class in an opening tag is not always the class of the element. -/
theorem expandTree_escapes_class :
    ∃ markup, expandTree "[class='a\"b']" .standard = .ok markup ∧
      (Tree.labelsAll markup = [{ tag := "div", classes := ["a\"b"] }] ∧
        render Options.standard.toStyle markup = "<div class=\"a&quot;b\"></div>") ∧
      Text.words "a&quot;b" ≠ ["a\"b"] := by
  have shown : (expandTree "[class='a\"b']" .standard).toOption.map
      (fun markup => (Tree.labelsAll markup, render Options.standard.toStyle markup)) =
        some ([{ tag := "div", classes := ["a\"b"] }], "<div class=\"a&quot;b\"></div>") := by
    decide +kernel
  obtain ⟨markup, accepted, shown⟩ := Except.exists_of_toOption_map shown
  exact ⟨markup, accepted, Prod.ext_iff.1 shown, by decide +kernel⟩

end Shorthand
