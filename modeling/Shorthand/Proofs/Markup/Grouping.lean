import Shorthand.Proofs.Abbreviation.Surroundings
import Shorthand.Proofs.Markup.Layout
import Shorthand.Proofs.Markup.OnePass
import Shorthand.Proofs.Text.Words
import Shorthand.Proofs.Token.Seams

/-! # Groups and neighbours

Whole expansions are put together like the abbreviations they come from.  Parentheses around an
abbreviation change nothing, a second abbreviation behind `+` adds its markup behind that of the
first, and a tag in front of a group takes the markup of the group as its children.
-/
namespace Shorthand

open Shorthand.Parser

/-! ## Names of tags -/

theorem isWord_of_isValid {name : String} (h : TagName.isValid name = true) : IsWord name where
  nonempty empty := (Text.unbroken_of_isValid h).nonempty (String.toList_eq_nil_iff.1 empty)
  inside c mem := by
    have letter := Text.isNameChar_of_isValid h c mem
    constructor
    · simp only [TagName.isNameChar, Lexer.isWordChar, Bool.or_eq_true] at letter ⊢
      tauto
    · rintro rfl
      exact absurd letter (by decide)

theorem dollar_not_mem_of_isValid {name : String} (h : TagName.isValid name = true) :
    '$' ∉ name.toList :=
  fun mem => absurd (Text.isNameChar_of_isValid h '$' mem) (by decide)

theorem Head.fits_tag {name : String} (h : TagName.isValid name = true) {span : Span} :
    ({ tag := some name, span } : Head).Fits := by
  intro template mem
  obtain rfl : template = name := by simpa [templates] using mem
  exact Numbering.fits_of_plain (dollar_not_mem_of_isValid h)

/-- A group has no placeholders of its own. -/
theorem fits_of_mem_group {children : Abbreviation} {multiplier : UInt64} {span : Span}
    (fits : ∀ head ∈ Tree.labelsAll children, head.Fits) :
    ∀ head ∈ Tree.labelsAll [.node { kind := .group, multiplier, span } children], head.Fits := by
  rw [Tree.labelsAll, Tree.labelsAll, List.append_nil, Tree.labels, List.forall_mem_cons]
  exact ⟨(fun _ mem => nomatch mem), fits⟩

/-! ## From tokens to markup -/

/-- What an abbreviation that expands is read as and stands for. -/
theorem exists_of_expandTree {source : String} {options : Options} {markup : Markup}
    (accepted : expandTree source options = .ok markup) :
    ∃ tokens forest, Lexer.ReadsAs source.toList (tokens.map (·.token)) ∧
      parseTokens source.utf8ByteSize options.maxDepth tokens = .ok forest ∧
        weightAll forest = (Tree.labelsAll markup).length ∧
          (∀ head ∈ Tree.labelsAll forest, head.Fits) ∧
            expansionAll options.implicitTags options.defaultTag none none forest = markup := by
  obtain ⟨-, forest, parsed, -, fits, rfl⟩ := expandTree_eq_ok_iff.1 accepted
  obtain ⟨tokens, tokenized, parsed⟩ := Except.bind_eq_ok_iff.1 parsed
  exact ⟨tokens, forest, Lexer.readsAs_of_readTokens (locate_eq_ok_iff.1 tokenized),
    locate_eq_ok_iff.1 parsed, (length_labelsAll_expansionAll _ _ forest).symm, fits, rfl⟩

section Alike

variable {source : String} {options : Options} {tokens : List Token} {forest nodes : Abbreviation}

theorem Parser.Alike.expansionAll_eq (alike : Alike forest nodes) (table : ImplicitTags)
    (fallback : String) :
    expansionAll table fallback none none nodes = expansionAll table fallback none none forest := by
  rw [← expansionAll_mapAll_unplaced, ← alike, expansionAll_mapAll_unplaced]

theorem Parser.Alike.weightAll_eq (alike : Alike forest nodes) :
    weightAll nodes = weightAll forest := by
  rw [← length_labelsAll_expansionAll .standard "div", alike.expansionAll_eq,
    length_labelsAll_expansionAll]

theorem Parser.Alike.forall_fits_iff (alike : Alike forest nodes) :
    (∀ head ∈ Tree.labelsAll nodes, head.Fits) ↔ ∀ head ∈ Tree.labelsAll forest, head.Fits := by
  have labels := congrArg Tree.labelsAll alike
  rw [Tree.labelsAll_mapAll, Tree.labelsAll_mapAll] at labels
  have unplaced (forest : Abbreviation) : (∀ head ∈ Tree.labelsAll forest, head.Fits) ↔
      ∀ head ∈ (Tree.labelsAll forest).map Head.unplaced, head.Fits := by
    rw [List.forall_mem_map]
    rfl
  rw [unplaced, unplaced, labels]

theorem exists_parseAbbreviation_of_alike (read : Lexer.ReadsAs source.toList tokens)
    (parses : ∀ placed : List PlacedToken, placed.map (·.token) = tokens →
      ∃ nodes, parseTokens source.utf8ByteSize options.maxDepth placed = .ok nodes ∧
        Alike forest nodes) :
    ∃ nodes, parseAbbreviation source options.maxDepth = .ok nodes ∧ Alike forest nodes := by
  obtain ⟨placed, lexed, same⟩ := read 0
  obtain ⟨nodes, parsed, alike⟩ := parses placed same
  exact ⟨nodes, Except.bind_eq_ok_iff.2 ⟨placed, locate_eq_ok_iff.2 lexed,
    locate_eq_ok_iff.2 parsed⟩, alike⟩

/-- An abbreviation expands to the markup of any forest that it stands for up to places. -/
theorem expandTree_of_alike (valid : options.validate = .ok ())
    (read : Lexer.ReadsAs source.toList tokens)
    (parses : ∀ placed : List PlacedToken, placed.map (·.token) = tokens →
      ∃ nodes, parseTokens source.utf8ByteSize options.maxDepth placed = .ok nodes ∧
        Alike forest nodes)
    (light : weightAll forest ≤ options.maxNodes)
    (fits : ∀ head ∈ Tree.labelsAll forest, head.Fits) :
    expandTree source options =
      .ok (expansionAll options.implicitTags options.defaultTag none none forest) := by
  obtain ⟨nodes, parsed, alike⟩ := exists_parseAbbreviation_of_alike read parses
  exact expandTree_eq_ok_iff.2 ⟨valid, nodes, parsed, alike.weightAll_eq ▸ light,
    alike.forall_fits_iff.2 fits, alike.expansionAll_eq ..⟩

/-- If there is room for all copies, a placeholder that is too long makes the program crash. -/
theorem expandTree_crashes_of_alike (valid : options.validate = .ok ())
    (read : Lexer.ReadsAs source.toList tokens)
    (parses : ∀ placed : List PlacedToken, placed.map (·.token) = tokens →
      ∃ nodes, parseTokens source.utf8ByteSize options.maxDepth placed = .ok nodes ∧
        Alike forest nodes)
    (light : weightAll forest ≤ options.maxNodes)
    (wide : ¬∀ head ∈ Tree.labelsAll forest, head.Fits) :
    expandTree source options = .error .crash := by
  obtain ⟨nodes, parsed, alike⟩ := exists_parseAbbreviation_of_alike read parses
  rw [← alike.weightAll_eq] at light
  refine expandTree_of_unrollNodes_error valid parsed
    (unrollNodes_crashes_of_weightAll_le source light fun fits => wide ?_)
  exact alike.forall_fits_iff.1 fun head mem => fits head ((mem_copied_iff_of_parsed parsed).2 mem)

end Alike

section Grouping

variable {one other : String} {options : Options} {front back : Markup} {maxDepth maxNodes : Nat}

/-- Limits have no part in whether options are usable. -/
theorem validate_of_expandTree (accepted : expandTree one options = .ok front)
    (maxDepth maxNodes : Nat) :
    ({ options with maxDepth, maxNodes } : Options).validate = .ok () :=
  (expandTree_eq_ok_iff.1 accepted).1

/-- Parentheses make no difference. -/
theorem expandTree_group (accepted : expandTree one options = .ok front)
    (deeper : options.maxDepth < maxDepth) (room : (Tree.labelsAll front).length ≤ maxNodes) :
    expandTree ("(" ++ one ++ ")") { options with maxDepth, maxNodes } = .ok front := by
  obtain ⟨tokens, forest, read, parsed, weighs, fits, rfl⟩ := exists_of_expandTree accepted
  have written : ("(" ++ one ++ ")").toList = '(' :: (one.toList ++ [')']) := by simp
  have light : weightAll [.node { kind := .group } forest] ≤ maxNodes := by
    rw [weightAll, weightAll, weight_group, weighs]
    exact room
  have expands := expandTree_of_alike (validate_of_expandTree accepted maxDepth maxNodes)
    (written ▸ read.group)
    (fun placed same => exists_parseTokens_group parsed same deeper) light
    (fits_of_mem_group fits)
  rwa [expansionAll_singleton, expansion_group] at expands

theorem expandTree_group_sibling (accepted : expandTree one options = .ok front)
    (accepted' : expandTree other options = .ok back) (deeper : options.maxDepth < maxDepth)
    (room : (Tree.labelsAll front).length + (Tree.labelsAll back).length ≤ maxNodes) :
    expandTree ("(" ++ one ++ ")+" ++ other) { options with maxDepth, maxNodes } =
      .ok (front ++ back) := by
  obtain ⟨tokens, forest, read, parsed, weighs, fits, rfl⟩ := exists_of_expandTree accepted
  obtain ⟨tokens', forest', read', parsed', weighs', fits', rfl⟩ := exists_of_expandTree accepted'
  have written : ("(" ++ one ++ ")+" ++ other).toList =
      '(' :: (one.toList ++ [')']) ++ '+' :: other.toList := by simp
  have light : weightAll (.node { kind := .group } forest :: forest') ≤ maxNodes := by
    rw [weightAll, weight_group, weighs, weighs']
    exact room
  have both : ∀ head ∈ Tree.labelsAll (.node { kind := .group } forest :: forest'), head.Fits := by
    rw [← List.singleton_append, Tree.labelsAll_append, List.forall_mem_append]
    exact ⟨fits_of_mem_group fits, fits'⟩
  have expands := expandTree_of_alike (validate_of_expandTree accepted maxDepth maxNodes)
    (written ▸ read.group.append rfl read')
    (fun placed same => exists_parseTokens_group_sibling parsed parsed' same deeper) light both
  rwa [expansionAll, expansion_group] at expands

/-- The markup of a group is what an element in front of it has below itself, unless the tag of the
element implies others. -/
theorem expandTree_child_group {tag : String} (valid : TagName.isValid tag = true)
    (implied : options.implicitTags.childOf tag = none)
    (accepted : expandTree one options = .ok front) (deeper : options.maxDepth + 1 < maxDepth)
    (room : (Tree.labelsAll front).length + 1 ≤ maxNodes) :
    expandTree (tag ++ ">(" ++ one ++ ")") { options with maxDepth, maxNodes } =
      .ok [.node { tag } front] := by
  obtain ⟨tokens, forest, read, parsed, weighs, fits, rfl⟩ := exists_of_expandTree accepted
  have word := isWord_of_isValid valid
  have written : (tag ++ ">(" ++ one ++ ")").toList =
      tag.toList ++ '>' :: '(' :: (one.toList ++ [')']) := by simp
  have light : weightAll [.node { tag := some tag } [.node { kind := .group } forest]] ≤
      maxNodes := by
    rw [weightAll, weightAll, weight_tag, weightAll, weightAll, weight_group, weighs]
    omega
  have all : ∀ head ∈ Tree.labelsAll [.node { tag := some tag } [.node { kind := .group } forest]],
      head.Fits := by
    rw [Tree.labelsAll, Tree.labelsAll, List.append_nil, Tree.labels, List.forall_mem_cons]
    exact ⟨Head.fits_tag valid, fits_of_mem_group fits⟩
  have expands := expandTree_of_alike (validate_of_expandTree accepted maxDepth maxNodes)
    (written ▸ (Lexer.readsAs_tagName word.isName).append rfl read.group)
    (fun placed same => exists_parseTokens_child_group
      (Numbering.strip_of_unmodified word.unmodified) parsed same deeper) light all
  have inside : (some tag).bind options.implicitTags.childOf =
      none.bind options.implicitTags.childOf := implied
  rwa [expansionAll_singleton, expansion_tag (dollar_not_mem_of_isValid valid),
    expansionAll_singleton, expansion_group, expansionAll_congr inside] at expands

/-- Under options that allow two levels more and one node more than both abbreviations need, they are
put together as their markup and their text are. -/
theorem expandTree_compose (accepted : expandTree one options = .ok front)
    (accepted' : expandTree other options = .ok back)
    (room : (Tree.labelsAll front).length + (Tree.labelsAll back).length + 1 ≤ maxNodes) :
    let wider := { options with maxDepth := options.maxDepth + 2, maxNodes }
    expandTree ("(" ++ one ++ ")") wider = .ok front ∧
      expandTree ("(" ++ one ++ ")+" ++ other) wider = .ok (front ++ back) ∧
        (∃ text text', expand one options = .ok text ∧ expand other options = .ok text' ∧
          expand ("(" ++ one ++ ")+" ++ other) wider = .ok (text ++ "\n" ++ text')) ∧
            ∀ tag, TagName.isValid tag = true → options.implicitTags.childOf tag = none →
              expandTree (tag ++ ">(" ++ one ++ ")") wider = .ok [.node { tag } front] := by
  intro wider
  have deeper : options.maxDepth < options.maxDepth + 2 := by omega
  have joined : expandTree ("(" ++ one ++ ")+" ++ other) wider = .ok (front ++ back) :=
    expandTree_group_sibling accepted accepted' deeper (by omega)
  refine ⟨expandTree_group accepted deeper (by omega), joined, ?_, fun tag valid implied => ?_⟩
  · refine ⟨render options.toStyle front, render options.toStyle back, ?_, ?_, ?_⟩
    · rw [expand, accepted, Except.map]
    · rw [expand, accepted', Except.map]
    · rw [expand, joined, Except.map,
        ← render_append (expandTree_ne_nil accepted) (expandTree_ne_nil accepted')]
  · exact expandTree_child_group valid implied accepted (Nat.lt_succ_self _) (by omega)

end Grouping

/-- An abbreviation that ends two levels deep, where the wider options are just wide enough. -/
theorem expandTree_compose_nested :
    ∃ front back, expandTree "ul>(.a)*2" { maxDepth := 2 } = .ok front ∧
      expandTree "p>b" { maxDepth := 2 } = .ok back ∧
        (Tree.labelsAll front).length + (Tree.labelsAll back).length + 1 ≤ 6 ∧
          expandTree "(ul>(.a)*2)" { maxDepth := 4, maxNodes := 6 } = .ok front ∧
            expandTree "(ul>(.a)*2)+p>b" { maxDepth := 4, maxNodes := 6 } = .ok (front ++ back) ∧
              (∃ text text', expand "ul>(.a)*2" { maxDepth := 2 } = .ok text ∧
                expand "p>b" { maxDepth := 2 } = .ok text' ∧
                  expand "(ul>(.a)*2)+p>b" { maxDepth := 4, maxNodes := 6 } =
                    .ok (text ++ "\n" ++ text')) ∧
                expandTree "nav>(ul>(.a)*2)" { maxDepth := 4, maxNodes := 6 } =
                  .ok [.node { tag := "nav" } front] := by
  have labels : (expandTree "ul>(.a)*2" { maxDepth := 2 }).toOption.map
      (fun markup => (Tree.labelsAll markup).length) = some 3 := by decide +kernel
  have labels' : (expandTree "p>b" { maxDepth := 2 }).toOption.map
      (fun markup => (Tree.labelsAll markup).length) = some 2 := by decide +kernel
  obtain ⟨front, accepted, three⟩ := Except.exists_of_toOption_map labels
  obtain ⟨back, accepted', two⟩ := Except.exists_of_toOption_map labels'
  have room : (Tree.labelsAll front).length + (Tree.labelsAll back).length + 1 ≤ 6 := by
    rw [three, two]
  obtain ⟨grouped, joined, texts, below⟩ := expandTree_compose accepted accepted' room
  exact ⟨front, back, accepted, accepted', room, grouped, joined, texts,
    below "nav" (by decide +kernel) (by decide +kernel)⟩

end Shorthand
