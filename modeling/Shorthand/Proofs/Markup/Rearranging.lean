import Shorthand.Proofs.Abbreviation.Rearranging
import Shorthand.Proofs.Markup.Grouping
import Shorthand.Proofs.Token.Rejoining

/-! # Elements with their parts in another order

Whichever way the parts of its elements are arranged, an abbreviation stands for the same nodes and
expands to the same markup.
-/
namespace Shorthand

open Shorthand.Parser

section Rearranging

variable {source source' : String} {options : Options} {tokens tokens' : List PlacedToken}

theorem expandTree_of_rearranges {markup : Markup} (tokenized : tokenize source = .ok tokens)
    (tokenized' : tokenize source' = .ok tokens')
    (rearranges : Rearranges (tokens.map (·.token)) (tokens'.map (·.token)))
    (accepted : expandTree source options = .ok markup) :
    expandTree source' options = .ok markup := by
  obtain ⟨valid, forest, parsed, light, fits, rfl⟩ := expandTree_eq_ok_iff.1 accepted
  rw [parseAbbreviation, tokenized] at parsed
  refine expandTree_of_alike valid
    (Lexer.readsAs_of_readTokens (locate_eq_ok_iff.1 tokenized')) (fun placed same => ?_) light fits
  exact exists_parseTokens_rearranged (same ▸ rearranges) (locate_eq_ok_iff.1 parsed)

/-- Two abbreviations with rearranged tokens expand to the same text, or neither expands. -/
theorem expand_eq_ok_iff_of_rearranges (tokenized : tokenize source = .ok tokens)
    (tokenized' : tokenize source' = .ok tokens')
    (rearranges : Rearranges (tokens.map (·.token)) (tokens'.map (·.token))) {text : String} :
    expand source' options = .ok text ↔ expand source options = .ok text := by
  rw [expand, expand, Except.map_eq_ok_iff, Except.map_eq_ok_iff]
  constructor
  · rintro ⟨markup, accepted, rfl⟩
    exact ⟨markup, expandTree_of_rearranges tokenized' tokenized rearranges.symm accepted, rfl⟩
  · rintro ⟨markup, accepted, rfl⟩
    exact ⟨markup, expandTree_of_rearranges tokenized tokenized' rearranges accepted, rfl⟩

end Rearranging

/-- Tokens that are parsed are parsed as well with the parts of each element in another order, as long
as classes keep theirs, and make the same forest in other places.  Every source that is read as these
tokens expands as the source of the first does, and so does the source that is put together from
its own pieces in their order. -/
theorem parse_rearranged {source : String} {maxDepth : Nat} {tokens tokens' : List PlacedToken}
    {forest : Abbreviation} (parsed : parse source maxDepth tokens = .ok forest)
    (rearranges : Rearranges (tokens.map (·.token)) (tokens'.map (·.token))) :
    (∀ source', ∃ forest', parse source' maxDepth tokens' = .ok forest' ∧
      Tree.mapAll Head.unplaced forest' = Tree.mapAll Head.unplaced forest) ∧
    (tokenize source = .ok tokens → ∀ options text,
      (∀ source' again, tokenize source' = .ok again →
        again.map (·.token) = tokens'.map (·.token) →
          (expand source' options = .ok text ↔ expand source options = .ok text)) ∧
      (tokens'.Perm tokens →
        (expand (rejoin source tokens') options = .ok text ↔
          expand source options = .ok text))) := by
  have reparsed (source' : String) :
      ∃ forest', parseTokens source'.utf8ByteSize maxDepth tokens' = .ok forest' ∧
        Alike forest forest' :=
    exists_parseTokens_rearranged rearranges (locate_eq_ok_iff.1 parsed)
  refine ⟨fun source' => ?_, fun tokenized options text => ?_⟩
  · obtain ⟨forest', parsed', alike⟩ := reparsed source'
    exact ⟨forest', locate_eq_ok_iff.2 parsed', alike.symm⟩
  · have expands : ∀ source' again, tokenize source' = .ok again →
        again.map (·.token) = tokens'.map (·.token) →
          (expand source' options = .ok text ↔ expand source options = .ok text) := by
      intro source' again tokenized' same
      exact expand_eq_ok_iff_of_rearranges tokenized tokenized' (same ▸ rearranges)
    refine ⟨expands, fun moved => ?_⟩
    obtain ⟨forest', parsed', -⟩ := reparsed source
    obtain ⟨again, read, same⟩ :=
      exists_tokenize_rejoin tokenized moved.subset (apart_of_parseTokens parsed')
    exact expands _ again read same

/-- Two elements, a count with a zero in front, and a block with a blank in a value. -/
theorem parse_rearranged_block :
    ∃ tokens tokens' forest forest',
      tokenize "ul.x#i[k='v w'].y*02>li\x7bt\x7d.c" = .ok tokens ∧
        parse "ul.x#i[k='v w'].y*02>li\x7bt\x7d.c" 1 tokens = .ok forest ∧
          rejoin "ul.x#i[k='v w'].y*02>li\x7bt\x7d.c" tokens' =
            "ul*02.x[k='v w'].y#i>li.c\x7bt\x7d" ∧
          parse "ul*02.x[k='v w'].y#i>li.c\x7bt\x7d" 1 tokens' = .ok forest' ∧
            Tree.mapAll Head.unplaced forest' = Tree.mapAll Head.unplaced forest ∧
              ∀ options text, expand "ul*02.x[k='v w'].y#i>li.c\x7bt\x7d" options = .ok text ↔
                expand "ul.x#i[k='v w'].y*02>li\x7bt\x7d.c" options = .ok text := by
  let ul : PlacedToken := ⟨.tagName "ul", ⟨0, 2⟩⟩
  let x : PlacedToken := ⟨.className "x", ⟨2, 4⟩⟩
  let i : PlacedToken := ⟨.idName "i", ⟨4, 6⟩⟩
  let k : PlacedToken := ⟨.attributes [⟨"k", some "v w"⟩], ⟨6, 15⟩⟩
  let y : PlacedToken := ⟨.className "y", ⟨15, 17⟩⟩
  let two : PlacedToken := ⟨.multiplier 2, ⟨17, 20⟩⟩
  let child : PlacedToken := ⟨.child, ⟨20, 21⟩⟩
  let li : PlacedToken := ⟨.tagName "li", ⟨21, 23⟩⟩
  let t : PlacedToken := ⟨.text "t", ⟨23, 26⟩⟩
  let c : PlacedToken := ⟨.className "c", ⟨26, 28⟩⟩
  let tokens := [ul, x, i, k, y, two, child, li, t, c]
  let tokens' := [ul, two, x, k, y, i, child, li, c, t]
  have tokenized : tokenize "ul.x#i[k='v w'].y*02>li\x7bt\x7d.c" = .ok tokens := by decide +kernel
  have joined : rejoin "ul.x#i[k='v w'].y*02>li\x7bt\x7d.c" tokens' =
      "ul*02.x[k='v w'].y#i>li.c\x7bt\x7d" := by decide +kernel
  have accepted : (parse "ul.x#i[k='v w'].y*02>li\x7bt\x7d.c" 1 tokens).toOption.map
      List.length = some 1 := by decide +kernel
  have first : Shuffles ([ul, x, i, k, y, two].map (·.token))
      ([ul, two, x, k, y, i].map (·.token)) := by decide
  have second : Shuffles ([li, t, c].map (·.token)) ([li, c, t].map (·.token)) := by decide
  have both : Rearranges
      ([ul, x, i, k, y, two].map (·.token) ++ child.token :: [li, t, c].map (·.token))
      ([ul, two, x, k, y, i].map (·.token) ++ child.token :: [li, c, t].map (·.token)) :=
    .operator (by decide) first rfl (.run (by decide) second)
  have rearranges : Rearranges (tokens.map (·.token)) (tokens'.map (·.token)) := both
  obtain ⟨forest, parsed, -⟩ := Except.exists_of_toOption_map accepted
  obtain ⟨reparsed, expands⟩ := parse_rearranged parsed rearranges
  obtain ⟨forest', parsed', same⟩ := reparsed "ul*02.x[k='v w'].y#i>li.c\x7bt\x7d"
  refine ⟨tokens, tokens', forest, forest', tokenized, parsed, joined, parsed', same, fun options text => ?_⟩
  have moved := (expands tokenized options text).2 (by decide)
  rwa [joined] at moved

end Shorthand
