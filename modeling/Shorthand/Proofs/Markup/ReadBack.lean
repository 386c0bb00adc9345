import Shorthand.Proofs.Forest
import Shorthand.Proofs.Markup.Attributes
import Shorthand.Proofs.Token.AttributeBlock

/-! # Reading markup back

Rendered markup can be read again.  The tags stand between `<` and `>`, the attributes of a tag
behind a space each, and a stack of open elements makes a forest of the tags.  What comes back is
the forest that was rendered, without texts and without anything below void elements.
-/
namespace Shorthand

open Shorthand.Text

structure OpeningTag where
  name : String
  attributes : List Attribute
deriving DecidableEq, Repr, Inhabited

namespace ReadBack

inductive Mark where
  | opening (tag : OpeningTag)
  /-- The tag of an element that has no closing tag. -/
  | void (tag : OpeningTag)
  | closing (name : String)
deriving DecidableEq, Repr

/-- The characters of an attribute name, wherever it stands in a tag. -/
def isNameChar (c : Char) : Bool := c != ' ' && c != '='

def readAttribute (text : List Char) : Option (Attribute × List Char) :=
  let name := String.ofList (text.takeWhile isNameChar)
  match text.dropWhile isNameChar with
  | '=' :: '"' :: behind =>
    (AttributeBlock.readQuoted '"' behind).map fun (value, rest) =>
      (⟨name, some (String.ofList value)⟩, rest)
  | '=' :: _ => none
  | rest => some (⟨name, none⟩, rest)

theorem suffix_readAttribute {text rest : List Char} {entry : Attribute}
    (h : readAttribute text = some (entry, rest)) : rest <:+ text := by
  have whole := List.dropWhile_suffix (l := text) isNameChar
  unfold readAttribute at h
  dsimp only at h
  split at h
  next behind start =>
    obtain ⟨⟨value, after⟩, found, same⟩ := Option.map_eq_some_iff.1 h
    obtain ⟨-, rfl⟩ := Prod.mk.injEq .. ▸ same
    have inside : behind <:+ text :=
      ((List.suffix_cons _ _).trans (List.suffix_cons _ _)).trans (start ▸ whole)
    exact (AttributeBlock.suffix_readQuoted found).trans inside
  next => cases h
  next => cases h; exact whole

def readAttributes (text : List Char) : Option (List Attribute) :=
  match text with
  | [] => some []
  | c :: behind =>
    if c = ' ' then
      match found : readAttribute behind with
      | some (entry, rest) =>
        have : rest.length < behind.length + 1 :=
          Nat.lt_succ_of_le (suffix_readAttribute found).length_le
        (readAttributes rest).map (entry :: ·)
      | none => none
    else none
termination_by text.length

def readTag (style : ClosingStyle) (text : List Char) : Option Mark :=
  match text with
  | '/' :: name => some (.closing (String.ofList name))
  | _ =>
    let name := String.ofList (text.takeWhile TagName.isNameChar)
    let behind := text.dropWhile TagName.isNameChar
    if TagName.isVoid name then
      -- The `>` is not part of the inside.
      (behind.dropSuffix? style.ending.toList.dropLast).bind fun attributes =>
        (readAttributes attributes).map fun entries => .void ⟨name, entries⟩
    else (readAttributes behind).map fun entries => .opening ⟨name, entries⟩

/-- The tags of a text, each from a `<` up to the next `>`. -/
def readMarks (style : ClosingStyle) : List Char → Option (List Mark)
  | [] => some []
  | c :: rest =>
    if c = '<' then
      (readTag style (rest.takeWhile (· != '>'))).bind fun mark =>
        (readMarks style rest).map (mark :: ·)
    else readMarks style rest

/-- Makes trees of tags.  `found` are the trees of the innermost level so far; `stack` are the open
elements from the inside to the outside, each with the trees in front of it. -/
def grow : List Mark → Forest OpeningTag → List (OpeningTag × Forest OpeningTag) →
    Option (Forest OpeningTag)
  | [], found, [] => some found
  | [], _, _ :: _ => none
  | .void tag :: rest, found, stack => grow rest (found ++ [.node tag []]) stack
  | .opening tag :: rest, found, stack => grow rest [] ((tag, found) :: stack)
  | .closing _ :: _, _, [] => none
  | .closing name :: rest, found, (tag, before) :: stack =>
    if tag.name = name then grow rest (before ++ [.node tag found]) stack else none

end ReadBack

/-- Reads markup that was written with a given style of void elements. -/
def readMarkup (style : ClosingStyle) (text : String) : Option (Forest OpeningTag) :=
  (ReadBack.readMarks style text.toList).bind fun marks => ReadBack.grow marks [] []

/-- A text in which no tag can start or end. -/
def Unmarked (text : String) : Prop := ∀ c ∈ text.toList, c ≠ '<' ∧ c ≠ '>'

instance (text : String) : Decidable (Unmarked text) :=
  decidable_of_iff (text.toList.all (fun c => c != '<' && c != '>') = true) (by simp [Unmarked])

/-- An attribute whose name ends where a space or `=` comes next. -/
structure Attribute.Readable (entry : Attribute) : Prop where
  nonempty : entry.name ≠ ""
  named : ∀ c ∈ entry.name.toList, isBlank c = false ∧ c ≠ '=' ∧ c ≠ '"'
  name : Unmarked entry.name
  value : ∀ value ∈ entry.value, Unmarked value

/-- An element of which no part looks like a tag. -/
structure Element.Readable (element : Element) : Prop where
  tag : TagName.isValid element.tag = true
  id : ∀ id ∈ element.id, Unmarked id
  classes : ∀ name ∈ element.classes, Unmarked name
  attributes : ∀ entry ∈ element.attributes, entry.Readable
  text : ∀ text ∈ element.text, Unmarked text

instance (entry : Attribute) : Decidable entry.Readable :=
  decidable_of_iff (entry.name ≠ "" ∧
      entry.name.toList.all (fun c => !isBlank c && c != '=' && c != '"') = true ∧
        Unmarked entry.name ∧ ∀ value ∈ entry.value, Unmarked value)
    ⟨fun h => ⟨h.1, by simpa [and_assoc] using h.2.1, h.2.2.1, h.2.2.2⟩,
      fun h => ⟨h.nonempty, by simpa [and_assoc] using h.named, h.name, h.value⟩⟩

instance (element : Element) : Decidable element.Readable :=
  decidable_of_iff (TagName.isValid element.tag = true ∧ (∀ id ∈ element.id, Unmarked id) ∧
      (∀ name ∈ element.classes, Unmarked name) ∧
        (∀ entry ∈ element.attributes, entry.Readable) ∧ ∀ text ∈ element.text, Unmarked text)
    ⟨fun h => ⟨h.1, h.2.1, h.2.2.1, h.2.2.2.1, h.2.2.2.2⟩,
      fun h => ⟨h.tag, h.id, h.classes, h.attributes, h.text⟩⟩

def Attribute.escaped (entry : Attribute) : Attribute :=
  { entry with value := entry.value.map Layout.escaped }

/-- The tag of an element: the id if there is one, the classes if there are any, and all other
attributes. -/
def Element.openingTag (element : Element) : OpeningTag where
  name := element.tag
  attributes :=
    (match element.id with
      | none => []
      | some id => [⟨"id", some (Layout.escaped id)⟩]) ++
    (match element.classes with
      | [] => []
      | first :: rest => [⟨"class", some (Layout.escaped (" ".intercalate (first :: rest)))⟩]) ++
    element.attributes.map Attribute.escaped

mutual

/-- What markup shows of a tree besides texts. -/
def skeleton : Tree Element → Tree OpeningTag
  | .node element children =>
    .node element.openingTag (if TagName.isVoid element.tag then [] else skeletonAll children)

def skeletonAll : List (Tree Element) → List (Tree OpeningTag)
  | [] => []
  | first :: rest => skeleton first :: skeletonAll rest

end

section Unmarked

variable {front back : String}

theorem unmarked_empty : Unmarked "" := by simp [Unmarked]

theorem Unmarked.append (h : Unmarked front) (h' : Unmarked back) : Unmarked (front ++ back) := by
  rw [Unmarked, String.toList_append, List.forall_mem_append]
  exact ⟨h, h'⟩

theorem unmarked_intercalate {separator : String} (plain : Unmarked separator)
    {pieces : List String} (h : ∀ piece ∈ pieces, Unmarked piece) :
    Unmarked (separator.intercalate pieces) := by
  induction pieces with
  | nil => exact unmarked_empty
  | cons first rest ih =>
    rw [List.forall_mem_cons] at h
    cases rest with
    | nil => rw [String.intercalate_singleton]; exact h.1
    | cons next others =>
      rw [String.intercalate_cons_cons]
      exact (h.1.append plain).append (ih h.2)

theorem unmarked_escaped {value : String} (h : Unmarked value) :
    Unmarked (Layout.escaped value) := by
  intro c mem
  rw [Layout.escaped, String.toList_ofList] at mem
  obtain ⟨old, inside, written⟩ := List.mem_flatMap.1 mem
  split at written
  next =>
    have plain : Unmarked "&quot;" := by decide
    exact plain c written
  next =>
    rw [List.mem_singleton.1 written]
    exact h old inside

theorem unmarked_repeated {unit : String} (h : Unmarked unit) (count : Nat) :
    Unmarked (repeated unit count) := by
  induction count with
  | zero => exact unmarked_empty
  | succ count ih => exact ih.append h

theorem unmarked_of_mem_lines {text line : String} (h : Unmarked text) (mem : line ∈ lines text) :
    Unmarked line :=
  fun c inside => h c (subset_of_mem_lines mem inside)

theorem unmarked_of_isValid {tag : String} (h : TagName.isValid tag = true) : Unmarked tag := by
  intro c mem
  have name := isNameChar_of_isValid h c mem
  constructor <;> (rintro rfl; exact absurd name (by decide))

theorem Element.Readable.unmarked_text {element : Element} (h : element.Readable) :
    Unmarked (element.text.getD "") := by
  cases text : element.text with
  | none => exact unmarked_empty
  | some text => exact h.text _ text

end Unmarked

namespace Layout

theorem readable_of_mem_written {element : Element} (h : element.Readable) :
    ∀ entry ∈ written element, entry.Readable := by
  have named : ∀ name ∈ ["id", "class"], ∀ value, Unmarked value →
      Attribute.Readable ⟨name, some value⟩ := by
    intro name mem value plain
    have allowed : ∀ name ∈ ["id", "class"], Attribute.Readable ⟨name, none⟩ := by decide
    have bare := allowed name mem
    exact ⟨bare.nonempty, bare.named, bare.name, by simpa using plain⟩
  intro entry mem
  rcases List.mem_append.1 mem with mem | other
  · rcases List.mem_append.1 mem with mem | classes
    · obtain ⟨id, own, rfl⟩ := Option.map_eq_some_iff.1 (Option.mem_toList.1 mem)
      exact named "id" (by simp) id (h.id id own)
    · split at classes
      next => cases classes
      next =>
        rw [List.mem_singleton.1 classes]
        exact named "class" (by simp) _ (unmarked_intercalate (by decide) h.classes)
  · exact h.attributes entry other

theorem map_escaped_written (element : Element) :
    (written element).map Attribute.escaped = element.openingTag.attributes := by
  obtain ⟨tag, id, classes, attributes, text⟩ := element
  cases id <;> cases classes <;> rfl

theorem unmarked_attributeText {entry : Attribute} (h : entry.Readable) :
    Unmarked (attributeText entry) := by
  have space : Unmarked " " := by decide
  obtain ⟨name, value⟩ := entry
  cases value with
  | none => exact space.append h.name
  | some value =>
    have quote : Unmarked "\"" := by decide
    have quoted : Unmarked (quoteValue value) :=
      (quote.append (unmarked_escaped (h.value value rfl))).append quote
    exact ((space.append h.name).append (by decide)).append quoted

end Layout

namespace ReadBack

open Shorthand.Layout

section Name

variable {name : String} (inside : ∀ c ∈ name.toList, isNameChar c = true)
include inside

theorem readAttribute_bare {rest : List Char} (ends : ∀ c ∈ rest.head?, c = ' ') :
    readAttribute (name.toList ++ rest) = some (⟨name, none⟩, rest) := by
  have stops : ∀ c ∈ rest.head?, isNameChar c = false := by
    intro c mem
    rw [ends c mem]
    rfl
  rw [readAttribute, takeWhile_append_of_stop inside stops, dropWhile_append_of_stop inside stops,
    String.ofList_toList]
  cases rest with
  | nil => rfl
  | cons c rest => cases ends c rfl; rfl

theorem readAttribute_quoted {behind value rest : List Char}
    (quoted : AttributeBlock.readQuoted '"' behind = some (value, rest)) :
    readAttribute (name.toList ++ '=' :: '"' :: behind) =
      some (⟨name, some (String.ofList value)⟩, rest) := by
  have stops : ∀ c ∈ ('=' :: '"' :: behind).head?, isNameChar c = false := by simp [isNameChar]
  rw [readAttribute, takeWhile_append_of_stop inside stops, dropWhile_append_of_stop inside stops,
    String.ofList_toList]
  show Option.map _ (AttributeBlock.readQuoted '"' behind) = _
  rw [quoted, Option.map_some]

end Name

theorem readAttribute_attributeText {entry : Attribute} (h : entry.Readable) {rest : List Char}
    (ends : ∀ c ∈ rest.head?, c = ' ') :
    ∃ shown, (attributeText entry).toList = ' ' :: shown ∧
      readAttribute (shown ++ rest) = some (entry.escaped, rest) := by
  have inside : ∀ c ∈ entry.name.toList, isNameChar c = true := by
    intro c mem
    obtain ⟨unblank, noEquals, -⟩ := h.named c mem
    have noSpace : c ≠ ' ' := by rintro rfl; exact absurd unblank (by decide)
    simp [isNameChar, noSpace, noEquals]
  obtain ⟨name, value⟩ := entry
  cases value with
  | none => exact ⟨name.toList, by simp [attributeText], readAttribute_bare inside ends⟩
  | some value =>
    have quoted := AttributeBlock.readQuoted_append (quote_not_mem_escaped value) rest
    refine ⟨name.toList ++ '=' :: '"' :: ((escaped value).toList ++ ['"']), ?_, ?_⟩
    · have written : attributeText ⟨name, some value⟩ =
          " " ++ name ++ "=" ++ ("\"" ++ escaped value ++ "\"") := rfl
      simp [written]
    · have shown : name.toList ++ '=' :: '"' :: ((escaped value).toList ++ ['"']) ++ rest =
          name.toList ++ '=' :: '"' :: ((escaped value).toList ++ '"' :: rest) := by simp
      rw [shown, readAttribute_quoted inside quoted, String.ofList_toList]
      rfl

theorem readAttributes_cons {text rest : List Char} {entry : Attribute}
    (h : readAttribute text = some (entry, rest)) :
    readAttributes (' ' :: text) = (readAttributes rest).map (entry :: ·) := by
  rw [readAttributes, if_pos rfl]
  split
  next found => rw [h] at found; cases found; rfl
  next found => rw [h] at found; cases found

theorem head_texts (entries : List Attribute) :
    ∀ c ∈ (entries.flatMap fun entry => (attributeText entry).toList).head?, c = ' ' := by
  cases entries with
  | nil => simp
  | cons entry entries =>
    obtain ⟨name, value⟩ := entry
    cases value <;> simp [attributeText]

theorem readAttributes_texts {entries : List Attribute} (h : ∀ entry ∈ entries, entry.Readable) :
    readAttributes (entries.flatMap fun entry => (attributeText entry).toList) =
      some (entries.map Attribute.escaped) := by
  induction entries with
  | nil => rw [List.flatMap_nil, readAttributes]; rfl
  | cons entry entries ih =>
    rw [List.forall_mem_cons] at h
    obtain ⟨shown, text, read⟩ := readAttribute_attributeText h.1 (head_texts entries)
    rw [List.flatMap_cons, text, List.cons_append, readAttributes_cons read, ih h.2]
    rfl

def inside (element : Element) : String :=
  element.tag ++ String.join ((written element).map attributeText)

theorem unmarked_inside {element : Element} (h : element.Readable) : Unmarked (inside element) := by
  refine (unmarked_of_isValid h.tag).append fun c mem => ?_
  rw [String.toList_join, List.mem_flatMap] at mem
  obtain ⟨text, mem, here⟩ := mem
  obtain ⟨entry, written, rfl⟩ := List.mem_map.1 mem
  exact unmarked_attributeText (readable_of_mem_written h entry written) c here

/-- The tag name ends where the attributes start, or where the tag ends. -/
theorem readTag_eq {style : ClosingStyle} {tag : String} (valid : TagName.isValid tag = true)
    {behind : List Char} (stops : ∀ c ∈ behind.head?, c = ' ') :
    readTag style (tag.toList ++ behind) =
      if TagName.isVoid tag then
        (behind.dropSuffix? style.ending.toList.dropLast).bind fun attributes =>
          (readAttributes attributes).map fun entries => .void ⟨tag, entries⟩
      else (readAttributes behind).map fun entries => .opening ⟨tag, entries⟩ := by
  have named := isNameChar_of_isValid valid
  have stop : ∀ c ∈ behind.head?, TagName.isNameChar c = false := by
    intro c mem
    rw [stops c mem]
    decide
  have noSlash : ∀ name, tag.toList ++ behind ≠ '/' :: name := by
    intro name same
    obtain ⟨c, rest, chars⟩ := List.exists_cons_of_ne_nil fun empty =>
      (Text.unbroken_of_isValid valid).nonempty (String.toList_eq_nil_iff.1 empty)
    rw [chars, List.cons_append, List.cons.injEq] at same
    exact absurd (named c (by rw [chars]; exact List.mem_cons_self)) (by rw [same.1]; decide)
  rw [readTag]
  · simp only [takeWhile_append_of_stop named stop, dropWhile_append_of_stop named stop,
      String.ofList_toList]
  · exact noSlash

theorem readAttributes_written {element : Element} (h : element.Readable) :
    readAttributes (String.join ((written element).map attributeText)).toList =
      some element.openingTag.attributes := by
  rw [String.toList_join, List.flatMap_map, ← map_escaped_written]
  exact readAttributes_texts (readable_of_mem_written h)

theorem head_written (element : Element) :
    ∀ c ∈ (String.join ((written element).map attributeText)).toList.head?, c = ' ' := by
  rw [String.toList_join, List.flatMap_map]
  exact head_texts (written element)

theorem readTag_opening {element : Element} (h : element.Readable)
    (open_ : TagName.isVoid element.tag = false) (style : ClosingStyle) :
    readTag style (inside element).toList = some (.opening element.openingTag) := by
  rw [inside, String.toList_append, readTag_eq h.tag (head_written element), open_,
    readAttributes_written h]
  rfl

theorem readTag_void {element : Element} (h : element.Readable)
    (void : TagName.isVoid element.tag = true) (style : ClosingStyle) :
    readTag style ((inside element).toList ++ style.ending.toList.dropLast) =
      some (.void element.openingTag) := by
  have ending : ∀ c ∈ style.ending.toList.dropLast.head?, c = ' ' := by
    cases style <;> simp [ClosingStyle.ending]
  have stops : ∀ c ∈ ((String.join ((written element).map attributeText)).toList ++
      style.ending.toList.dropLast).head?, c = ' ' := by
    intro c mem
    rw [List.head?_append] at mem
    cases front : (String.join ((written element).map attributeText)).toList.head? with
    | none => rw [front] at mem; exact ending c mem
    | some d => rw [front] at mem; cases mem; exact head_written element c front
  have stripped (front : List Char) :
      (front ++ style.ending.toList.dropLast).dropSuffix? style.ending.toList.dropLast =
        some front :=
    List.dropSuffix?_eq_some_iff.2 ⟨_, rfl, beq_self_eq_true _⟩
  rw [inside, String.toList_append, List.append_assoc, readTag_eq h.tag stops, void, if_pos rfl,
    stripped, Option.bind_some, readAttributes_written h]
  rfl

theorem readTag_closing (style : ClosingStyle) (tag : String) :
    readTag style ('/' :: tag.toList) = some (.closing tag) := by
  rw [readTag, String.ofList_toList]

theorem readMarks_append_of_unmarked (style : ClosingStyle) {text : List Char}
    (h : ∀ c ∈ text, c ≠ '<' ∧ c ≠ '>') (rest : List Char) :
    readMarks style (text ++ rest) = readMarks style rest := by
  induction text with
  | nil => rfl
  | cons c text ih =>
    rw [List.forall_mem_cons] at h
    rw [List.cons_append, readMarks, if_neg h.1.1, ih h.2]

theorem readMarks_tag {style : ClosingStyle} {tag : List Char} {mark : Mark}
    (h : ∀ c ∈ tag, c ≠ '<' ∧ c ≠ '>') (read : readTag style tag = some mark) (rest : List Char) :
    readMarks style ('<' :: (tag ++ '>' :: rest)) = (readMarks style rest).map (mark :: ·) := by
  have within : ∀ c ∈ tag, (c != '>') = true := fun c mem => bne_iff_ne.2 (h c mem).2
  have stops : ∀ c ∈ ('>' :: rest).head?, (c != '>') = false := by simp
  -- Reading goes on right behind the `<`, over the inside of the tag.
  rw [readMarks, if_pos rfl, takeWhile_append_of_stop within stops, read, Option.bind_some,
    readMarks_append_of_unmarked style h, readMarks, if_neg (by decide)]

/-- Whatever follows a text, reading starts with the marks of the text. -/
def Reads (style : ClosingStyle) (text : String) (marks : List Mark) : Prop :=
  ∀ rest, readMarks style (text.toList ++ rest) = (readMarks style rest).map (marks ++ ·)

section Reads

variable {style : ClosingStyle} {marks more : List Mark}

theorem Reads.append {front back : String} (h : Reads style front marks)
    (h' : Reads style back more) : Reads style (front ++ back) (marks ++ more) := by
  intro rest
  rw [String.toList_append, List.append_assoc, h, h', Option.map_map]
  congr 1
  funext later
  exact (List.append_assoc marks more later).symm

theorem reads_of_unmarked {text : String} (h : Unmarked text) : Reads style text [] := by
  intro rest
  rw [readMarks_append_of_unmarked style h]
  exact Option.map_id'.symm

theorem reads_opening {element : Element} (h : element.Readable)
    (filled : TagName.isVoid element.tag = false) :
    Reads style (opening element ++ ">") [.opening element.openingTag] := by
  intro rest
  have shown : (opening element ++ ">").toList ++ rest =
      '<' :: ((inside element).toList ++ '>' :: rest) := by
    simp [opening, inside]
  rw [shown, readMarks_tag (unmarked_inside h) (readTag_opening h filled style)]
  rfl

theorem reads_void {element : Element} (h : element.Readable)
    (void : TagName.isVoid element.tag = true) :
    Reads style (opening element ++ style.ending) [.void element.openingTag] := by
  intro rest
  have ending : style.ending.toList = style.ending.toList.dropLast ++ ['>'] := by
    cases style <;> rfl
  have shown : (opening element ++ style.ending).toList ++ rest =
      '<' :: ((inside element).toList ++ style.ending.toList.dropLast ++ '>' :: rest) := by
    rw [String.toList_append, ending]
    simp [opening, inside]
  have plain : ∀ c ∈ (inside element).toList ++ style.ending.toList.dropLast,
      c ≠ '<' ∧ c ≠ '>' := by
    refine List.forall_mem_append.2 ⟨unmarked_inside h, ?_⟩
    cases style <;> simp [ClosingStyle.ending]
  rw [shown, readMarks_tag plain (readTag_void h void style)]
  rfl

theorem reads_closing {element : Element} (h : element.Readable) :
    Reads style (closing element) [.closing element.tag] := by
  intro rest
  have shown : (closing element).toList ++ rest =
      '<' :: ('/' :: element.tag.toList ++ '>' :: rest) := by
    simp [closing]
  have plain : ∀ c ∈ '/' :: element.tag.toList, c ≠ '<' ∧ c ≠ '>' :=
    List.forall_mem_cons.2 ⟨by decide, unmarked_of_isValid h.tag⟩
  rw [shown, readMarks_tag plain (readTag_closing style element.tag)]
  rfl

def ReadsLines (style : ClosingStyle) (lines : List String) (marks : List Mark) : Prop :=
  Reads style ("\n".intercalate lines) marks

theorem ReadsLines.append {front back : List String} (h : ReadsLines style front marks)
    (h' : ReadsLines style back more) : ReadsLines style (front ++ back) (marks ++ more) := by
  have empty {marks : List Mark} (h : ReadsLines style [] marks) : marks = [] := by
    have nothing := h []
    rw [String.intercalate_nil] at nothing
    simpa [readMarks] using nothing.symm
  by_cases noFront : front = []
  · subst noFront
    rw [empty h]
    exact h'
  by_cases noBack : back = []
  · subst noBack
    rw [empty h', List.append_nil, List.append_nil]
    exact h
  rw [ReadsLines, String.intercalate_append_of_ne_nil noFront noBack]
  have lineEnd : Reads style "\n" [] := reads_of_unmarked (by decide)
  simpa using (Reads.append h lineEnd).append h'

end Reads

section Lines

variable {style : Style}

theorem readsLines_line (indent : Unmarked style.indentUnit) (depth : Nat) {content : String}
    {marks : List Mark} (h : Reads style.closing content marks) :
    ReadsLines style.closing [line style depth content] marks := by
  rw [ReadsLines, String.intercalate_singleton, line]
  split
  next empty =>
    rw [String.isEmpty_iff.1 empty] at h
    exact h
  next => exact (reads_of_unmarked (unmarked_repeated indent depth)).append h

theorem readsLines_textLines (indent : Unmarked style.indentUnit) (depth : Nat) {text : String}
    (h : Unmarked text) : ReadsLines style.closing (textLines style depth text) [] := by
  have each : ∀ line ∈ lines text, Unmarked line := fun line mem => unmarked_of_mem_lines h mem
  rw [textLines]
  generalize lines text = pieces at each
  induction pieces with
  | nil => exact reads_of_unmarked unmarked_empty
  | cons first rest ih =>
    rw [List.forall_mem_cons] at each
    exact (readsLines_line indent depth (reads_of_unmarked each.1)).append (ih each.2)

/-- Texts with and without line breaks have no marks. -/
theorem readsLines_leafLines (indent : Unmarked style.indentUnit) (depth : Nat) {element : Element}
    (h : element.Readable) (filled : TagName.isVoid element.tag = false) :
    ReadsLines style.closing (leafLines style depth element)
      [.opening element.openingTag, .closing element.tag] := by
  have opens : Reads style.closing _ _ := reads_opening h filled
  have closes : Reads style.closing _ _ := reads_closing h
  rw [leafLines]
  split
  next =>
    have front := readsLines_line indent depth opens
    have middle := readsLines_textLines indent (depth + 1) h.unmarked_text
    exact (front.append middle).append (readsLines_line indent depth closes)
  next =>
    have text : Reads style.closing _ _ := reads_of_unmarked h.unmarked_text
    exact readsLines_line indent depth ((opens.append text).append closes)

end Lines

mutual

/-- The tags of an element and of all below it, in the order in which they are written. -/
def marks : Tree Element → List Mark
  | .node element children =>
    if TagName.isVoid element.tag then [.void element.openingTag]
    else .opening element.openingTag :: (marksAll children ++ [.closing element.tag])

def marksAll : List (Tree Element) → List Mark
  | [] => []
  | first :: rest => marks first ++ marksAll rest

end

mutual

theorem readsLines_treeLines {style : Style} (indent : Unmarked style.indentUnit) (depth : Nat) :
    (tree : Tree Element) → (∀ element ∈ tree.labels, element.Readable) →
      ReadsLines style.closing (treeLines style depth tree) (marks tree)
  | .node element children, readable => by
    rw [Tree.labels, List.forall_mem_cons] at readable
    rw [treeLines.eq_def, marks]
    dsimp only
    split
    next void => exact readsLines_line indent depth (reads_void readable.1 void)
    next filled =>
      have filled := Bool.not_eq_true _ ▸ filled
      cases children with
      | nil => exact readsLines_leafLines indent depth readable.1 filled
      | cons first rest =>
        have front := readsLines_line indent depth (reads_opening readable.1 filled)
        have text := readsLines_textLines indent (depth + 1) readable.1.unmarked_text
        have below := readsLines_forestLines indent (depth + 1) (first :: rest) readable.2
        have back := readsLines_line indent depth (reads_closing readable.1)
        exact front.append ((text.append below).append back)

/-- The lines of a forest show all its tags in order, on any level. -/
theorem readsLines_forestLines {style : Style} (indent : Unmarked style.indentUnit) (depth : Nat) :
    (forest : List (Tree Element)) → (∀ element ∈ Tree.labelsAll forest, element.Readable) →
      ReadsLines style.closing (forestLines style depth forest) (marksAll forest)
  | [], _ => reads_of_unmarked unmarked_empty
  | first :: rest, readable => by
    rw [Tree.labelsAll, List.forall_mem_append] at readable
    rw [forestLines, marksAll]
    exact (readsLines_treeLines indent depth first readable.1).append
      (readsLines_forestLines indent depth rest readable.2)

end

mutual

theorem grow_marks (rest : List Mark) (found : Forest OpeningTag)
    (stack : List (OpeningTag × Forest OpeningTag)) :
    (tree : Tree Element) →
      grow (marks tree ++ rest) found stack = grow rest (found ++ [skeleton tree]) stack
  | .node element children => by
    rw [marks, skeleton]
    split
    next => rfl
    next =>
      rw [List.cons_append, List.append_assoc, grow, grow_marksAll _ [] _ children]
      exact if_pos rfl

/-- The tags of a forest add its trees to those of the innermost level. -/
theorem grow_marksAll (rest : List Mark) (found : Forest OpeningTag)
    (stack : List (OpeningTag × Forest OpeningTag)) :
    (forest : List (Tree Element)) →
      grow (marksAll forest ++ rest) found stack = grow rest (found ++ skeletonAll forest) stack
  | [] => by rw [skeletonAll, List.append_nil]; rfl
  | first :: others => by
    rw [marksAll, skeletonAll, List.append_assoc, grow_marks _ _ _ first, grow_marksAll _ _ _ others,
      List.append_assoc, List.singleton_append]

end

end ReadBack

/-- Markup that is rendered with any style is read back, if no part of it looks like a tag. -/
theorem readMarkup_render (style : Style) {markup : Markup} (indent : Unmarked style.indentUnit)
    (readable : ∀ element ∈ Tree.labelsAll markup, element.Readable) :
    readMarkup style.closing (render style markup) = some (skeletonAll markup) := by
  have reads := ReadBack.readsLines_forestLines indent 0 markup readable []
  rw [List.append_nil, ReadBack.readMarks, Option.map_some, List.append_nil] at reads
  have grown := ReadBack.grow_marksAll [] [] [] markup
  rw [List.append_nil, List.nil_append, ReadBack.grow] at grown
  rw [readMarkup, render, reads, Option.bind_some, grown]

/-- A value with a quote and a line break, a name that looks like the end of a void tag, and a text
below a void element. -/
theorem readMarkup_render_mixed :
    ∃ markup : Markup,
      render ⟨"\t", .xhtml⟩ markup =
        "<ul id=\"a&quot;b\" class=\"x y\" title=\"1 = 1\n/\">\n\tone\n\n\ttwo\n\t<BR / />\n" ++
          "\t<li hidden></li>\n</ul>\n<p>three</p>" ∧
      Tree.preorderAll 0 (skeletonAll markup) =
        [(0, ⟨"ul", [⟨"id", some "a&quot;b"⟩, ⟨"class", some "x y"⟩, ⟨"title", some "1 = 1\n/"⟩]⟩),
          (1, ⟨"BR", [⟨"/", none⟩]⟩), (1, ⟨"li", [⟨"hidden", none⟩]⟩), (0, ⟨"p", []⟩)] ∧
      (Unmarked "\t" ∧ ∀ element ∈ Tree.labelsAll markup, element.Readable) ∧
      readMarkup .xhtml (render ⟨"\t", .xhtml⟩ markup) = some (skeletonAll markup) := by
  refine ⟨[.node
      { tag := "ul"
        id := some "a\"b"
        classes := ["x", "y"]
        attributes := [⟨"title", some "1 = 1\n/"⟩]
        text := some "one\n\ntwo\n" }
      [.node { tag := "BR", attributes := [⟨"/", none⟩] } [.node { tag := "b" } []],
        .node { tag := "li", attributes := [⟨"hidden", none⟩] } []],
    .node { tag := "p", text := some "three" } []], by decide +kernel, by decide +kernel,
    ⟨by decide, by decide +kernel⟩, readMarkup_render ⟨"\t", .xhtml⟩ ?_ ?_⟩
  · decide
  · decide +kernel

end Shorthand
