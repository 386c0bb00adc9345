import Shorthand.Proofs.Token.Spelling

/-! # What is read

Every token that the lexer reads is sound: its names are names, and the attributes of a block have
names of their own that differ from each other.
-/
namespace Shorthand

namespace Attribute

structure Named (entry : Attribute) : Prop where
  nonempty : entry.name.toList ≠ []
  inside : ∀ c ∈ entry.name.toList, AttributeBlock.isNameChar c = true

theorem mem_put {new entry : Attribute} {entries : List Attribute} (mem : entry ∈ new.put entries) :
    entry = new ∨ entry ∈ entries := by
  induction entries with
  | nil => exact .inl (List.mem_singleton.1 mem)
  | cons old rest ih =>
    rw [put] at mem
    split at mem
    · exact (List.mem_cons.1 mem).imp_right (List.mem_cons_of_mem old)
    · rcases List.mem_cons.1 mem with rfl | mem
      · exact .inr List.mem_cons_self
      · exact (ih mem).imp_right (List.mem_cons_of_mem old)

theorem nodup_put (new : Attribute) {entries : List Attribute}
    (distinct : (entries.map (·.name)).Nodup) : ((new.put entries).map (·.name)).Nodup := by
  induction entries with
  | nil => simp [put]
  | cons old rest ih =>
    rw [List.map_cons, List.nodup_cons] at distinct
    rw [put]
    split
    next same =>
      rw [List.map_cons, List.nodup_cons, ← same]
      exact distinct
    next other =>
      rw [List.map_cons, List.nodup_cons]
      refine ⟨fun again => ?_, ih distinct.2⟩
      obtain ⟨entry, mem, same⟩ := List.mem_map.1 again
      rcases mem_put mem with rfl | mem
      · exact other same.symm
      · exact distinct.1 (same ▸ List.mem_map_of_mem mem)

structure Sound (entries : List Attribute) : Prop where
  named : ∀ entry ∈ entries, entry.Named
  distinct : (entries.map (·.name)).Nodup

theorem Sound.nil : Sound [] where
  named := by simp
  distinct := List.nodup_nil

theorem Sound.put {new : Attribute} {entries : List Attribute} (h : Sound entries)
    (named : new.Named) : Sound (new.put entries) where
  named entry mem := by
    rcases mem_put mem with rfl | mem
    · exact named
    · exact h.named entry mem
  distinct := nodup_put new h.distinct

/-- Templates in values may change, the names stay. -/
theorem Sound.map_value {entries : List Attribute} (h : Sound entries) (f : String → String) :
    Sound (entries.map fun entry => { entry with value := entry.value.map f }) where
  named := by
    intro entry mem
    obtain ⟨old, inside, rfl⟩ := List.mem_map.1 mem
    exact ⟨(h.named old inside).nonempty, (h.named old inside).inside⟩
  distinct := by
    rw [List.map_map]
    exact h.distinct

end Attribute

namespace AttributeBlock

theorem named_of_readEntry {c : Char} {text rest : List Char} {entry : Attribute}
    (start : isNameChar c = true) (read : readEntry (c :: text) = .read entry rest) :
    entry.Named := by
  obtain ⟨value, -, -, rfl, -⟩ := exists_of_readEntry read
  constructor
  · rw [String.toList_ofList, List.takeWhile_cons_of_pos start]
    exact List.cons_ne_nil _ _
  · intro d mem
    rw [String.toList_ofList] at mem
    exact List.all_eq_true.1 List.all_takeWhile d mem

theorem sound_of_readEntries {found entries : List Attribute} {text rest : List Char}
    (sound : Attribute.Sound found) (read : readEntries found text = .ok (entries, rest)) :
    Attribute.Sound entries := by
  fun_induction readEntries found text with
  | case1 => cases read
  | case2 =>
    cases read
    exact sound
  | case3 found text c behind start _ named new after entry _ ih =>
    exact ih (sound.put (named_of_readEntry named entry)) read
  | case4 => cases read
  | case5 => cases read
  | case6 => cases read

end AttributeBlock

def Token.Sound : Token → Prop
  | tagName name | className name | idName name => Lexer.IsName name.toList
  | attributes entries => Attribute.Sound entries
  | _ => True

namespace Lexer

theorem isName_of_readName {skipped : Nat} {c : Char} {text rest : List Char} {name : String}
    (start : isWordChar c = true) (read : readName skipped (c :: text) = .ok (name, rest)) :
    IsName name.toList := by
  unfold readName at read
  dsimp only at read
  split at read
  next => cases read
  next modifiers =>
    cases read
    rw [String.toList_ofList]
    refine ⟨?_, List.all_eq_true.1 List.all_takeWhile, modifiers⟩
    rw [List.takeWhile_cons_of_pos start]
    exact List.cons_ne_nil _ _

theorem sound_of_readMarked {make : String → Token} {missing : SpellingProblem}
    {text rest : List Char} {token : Token}
    (makes : ∀ name, IsName name.toList → (make name).Sound)
    (read : readMarked make missing text = .ok (token, rest)) : token.Sound := by
  unfold readMarked at read
  split at read
  next => cases read
  next c behind =>
    split at read
    next start =>
      obtain ⟨⟨name, after⟩, named, same⟩ := Except.map_eq_ok_iff.1 read
      cases same
      exact makes name (isName_of_readName start named)
    next => cases read

theorem sound_of_readToken {c : Char} {text rest : List Char} {token : Token}
    (read : readToken c text = .ok (token, rest)) : token.Sound := by
  unfold readToken at read
  split at read
  next => exact sound_of_readMarked (fun _ => id) read
  next => exact sound_of_readMarked (fun _ => id) read
  next =>
    unfold readAttributes at read
    split at read
    next entries behind found =>
      cases read
      exact AttributeBlock.sound_of_readEntries .nil found
    next => cases read
    next => cases read
  next =>
    unfold readText at read
    split at read
    next => cases read
    next =>
      cases read
      trivial
  next =>
    unfold readMultiplier at read
    dsimp only at read
    split at read
    next => cases read
    split at read
    next => cases read
    split at read
    next =>
      cases read
      trivial
    next => cases read
  iterate 5
    next =>
      cases read
      trivial
  next =>
    split at read
    next start =>
      obtain ⟨⟨name, after⟩, named, same⟩ := Except.map_eq_ok_iff.1 read
      cases same
      exact isName_of_readName start named
    next => cases read

/-- A multiplier is read only if it is not zero. -/
theorem counted_of_readToken {c : Char} {text rest : List Char} {token : Token}
    (read : readToken c text = .ok (token, rest)) : token ≠ .multiplier 0 := by
  rintro rfl
  obtain ⟨_, -, _, -, -, -, -, positive, -⟩ := spelled_of_readToken read
  exact absurd positive (by decide)

/-- What holds of every token that can be read holds of all tokens. -/
theorem forall_of_readTokens {holds : Token → Prop}
    (one : ∀ {c text token rest}, readToken c text = .ok (token, rest) → holds token) {pos : Nat}
    {seenId : Bool} {text : List Char} {tokens : List PlacedToken}
    (read : readTokens pos seenId text = .ok tokens) : ∀ placed ∈ tokens, holds placed.token := by
  fun_induction readTokens pos seenId text generalizing tokens with
  | case1 =>
    cases read
    simp
  | case2 => cases read
  | case3 => cases read
  | case4 => cases read
  | case5 =>
    rename_i step _ _ _ _ _ onward ih
    cases read
    rw [List.forall_mem_cons]
    exact ⟨one step, ih onward⟩

end Lexer

theorem sound_of_lex {source : String} {tokens : List PlacedToken}
    (read : lex source = .ok tokens) : ∀ placed ∈ tokens, placed.token.Sound :=
  Lexer.forall_of_readTokens Lexer.sound_of_readToken read

theorem counted_of_lex {source : String} {tokens : List PlacedToken}
    (read : lex source = .ok tokens) : ∀ placed ∈ tokens, placed.token ≠ .multiplier 0 :=
  Lexer.forall_of_readTokens Lexer.counted_of_readToken read

end Shorthand
