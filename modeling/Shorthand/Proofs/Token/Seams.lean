import Shorthand.Proofs.Except
import Shorthand.Proofs.Token.Display

/-! # Seams between texts

An operator or a parenthesis ends whatever is read in front of it.  A text that can be read alone is
read in the same way in front of an operator, and what follows the operator is read as if nothing
stood before it.
-/
namespace Shorthand

open Shorthand.Text

def PlacedToken.shift (distance : Nat) (placed : PlacedToken) : PlacedToken :=
  { placed with span := placed.span.shift distance }

def Fault.shift (distance : Nat) (fault : Fault) : Fault :=
  { fault with span := fault.span.shift distance }

namespace Lexer

/-- The token that a character makes without regard to what follows. -/
def operator? : Char → Option Token
  | '>' => some .child
  | '+' => some .sibling
  | '^' => some .climb
  | '(' => some .openGroup
  | ')' => some .closeGroup
  | _ => none

section Operator

variable {c : Char} {operator : Token}

theorem endsElement_of_operator? (h : operator? c = some operator) :
    operator.endsElement = true := by
  unfold operator? at h
  split at h <;> cases h <;> rfl

theorem not_isWordChar_of_operator? (h : operator? c = some operator) : isWordChar c = false := by
  unfold operator? at h
  split at h <;> cases h <;> decide

theorem not_isDigit_of_operator? (h : operator? c = some operator) : c.isDigit = false := by
  unfold operator? at h
  split at h <;> cases h <;> decide

theorem utf8Size_of_operator? (h : operator? c = some operator) : c.utf8Size = 1 := by
  unfold operator? at h
  split at h <;> cases h <;> decide

theorem readToken_operator (h : operator? c = some operator) (text : List Char) :
    readToken c text = .ok (operator, text) := by
  unfold operator? at h
  split at h <;> cases h <;> rfl

end Operator

/-! ## A token in front of an operator -/

section Append

variable {c d : Char} {operator token : Token} {text rest : List Char}

theorem readName_append_right {skipped : Nat} {name : String}
    (read : readName skipped text = .ok (name, rest)) (stops : isWordChar d = false)
    (tail : List Char) :
    readName skipped (text ++ d :: tail) = .ok (name, rest ++ d :: tail) := by
  have ends : text.dropWhile isWordChar = [] →
      ∀ c ∈ (d :: tail).head?, isWordChar c = false := by simpa using fun _ => stops
  unfold readName at read ⊢
  rw [takeWhile_append_of_ends ends, dropWhile_append_of_ends ends]
  dsimp only at read ⊢
  split at read
  next => cases read
  next =>
    cases read
    rfl

theorem readMarked_append_right {make : String → Token} {missing : SpellingProblem}
    (read : readMarked make missing text = .ok (token, rest)) (stops : isWordChar d = false)
    (tail : List Char) :
    readMarked make missing (text ++ d :: tail) = .ok (token, rest ++ d :: tail) := by
  unfold readMarked at read
  split at read
  next => cases read
  next c behind =>
    split at read
    next start =>
      obtain ⟨⟨name, after⟩, named, same⟩ := Except.map_eq_ok_iff.1 read
      cases same
      have longer := readName_append_right named stops tail
      rw [List.cons_append] at longer ⊢
      rw [readMarked, if_pos start, longer]
      rfl
    next => cases read

theorem readText_append_right (read : readText text = .ok (token, rest)) (tail : List Char) :
    readText (text ++ tail) = .ok (token, rest ++ tail) := by
  unfold readText at read
  split at read
  next => cases read
  next c behind closing =>
    cases read
    have ends : text.dropWhile (· != '}') = [] → ∀ c ∈ tail.head?, (c != '}') = false := by
      simp [closing]
    rw [readText, dropWhile_append_of_ends ends, takeWhile_append_of_ends ends, closing]
    rfl

/-- A closed block does not look behind its bracket. -/
theorem readAttributes_append_right (read : readAttributes text = .ok (token, rest))
    (tail : List Char) : readAttributes (text ++ tail) = .ok (token, rest ++ tail) := by
  unfold readAttributes at read
  split at read
  next entries behind found =>
    cases read
    obtain ⟨inside, wellFormed, rfl, rfl⟩ := AttributeBlock.exists_inside_of_readEntries found
    have longer := AttributeBlock.readEntries_inside [] wellFormed (rest ++ tail)
    rw [readAttributes, List.append_assoc, List.cons_append, AttributeBlock.read, longer]
  next => cases read
  next => cases read

theorem readMultiplier_append_right (read : readMultiplier text = .ok (token, rest))
    (stops : d.isDigit = false) (tail : List Char) :
    readMultiplier (text ++ d :: tail) = .ok (token, rest ++ d :: tail) := by
  have ends : text.dropWhile Char.isDigit = [] →
      ∀ c ∈ (d :: tail).head?, c.isDigit = false := by simpa using fun _ => stops
  unfold readMultiplier at read ⊢
  rw [takeWhile_append_of_ends ends, dropWhile_append_of_ends ends]
  dsimp only at read ⊢
  split at read
  next => cases read
  next some =>
    split at read
    next => cases read
    next nonzero =>
      split at read
      next count found =>
        cases read
        rw [if_neg some, if_neg nonzero]
      next => cases read

/-- A token that a text starts with is read in the same way if an operator follows the text. -/
theorem readToken_append_right (read : readToken c text = .ok (token, rest))
    (ends : operator? d = some operator) (tail : List Char) :
    readToken c (text ++ d :: tail) = .ok (token, rest ++ d :: tail) := by
  have stops := not_isWordChar_of_operator? ends
  unfold readToken at read
  split at read
  next => exact readMarked_append_right read stops tail
  next => exact readMarked_append_right read stops tail
  next => exact readAttributes_append_right read (d :: tail)
  next => exact readText_append_right read (d :: tail)
  next => exact readMultiplier_append_right read (not_isDigit_of_operator? ends) tail
  iterate 5
    next => cases read; rfl
  next =>
    split at read
    next word =>
      obtain ⟨⟨name, after⟩, named, same⟩ := Except.map_eq_ok_iff.1 read
      cases same
      have longer := readName_append_right named stops tail
      rw [List.cons_append] at longer
      rw [readToken_word word, longer]
      rfl
    next => cases read

end Append

/-! ## All tokens -/

section Tokens

variable {pos : Nat} {seenId : Bool} {text : List Char} {tokens : List PlacedToken}

/-- The tokens that a text is read as from a byte on, one after the other. -/
inductive Reads : Nat → Bool → List Char → List PlacedToken → Prop where
  | nil (pos : Nat) (seenId : Bool) : Reads pos seenId [] []
  | cons {pos stop : Nat} {seenId : Bool} {c : Char} {text rest : List Char} {token : Token}
      {others : List PlacedToken} (first : readToken c text = .ok (token, rest))
      (fresh : token.id?.isSome = true → seenId = false)
      (stops : stop = pos + (byteSize (c :: text) - byteSize rest))
      (onward : Reads stop (hasId seenId token) rest others) :
      Reads pos seenId (c :: text) (⟨token, ⟨pos, stop⟩⟩ :: others)

theorem reads_of_readTokens (read : readTokens pos seenId text = .ok tokens) :
    Reads pos seenId text tokens := by
  fun_induction readTokens pos seenId text generalizing tokens with
  | case1 =>
    cases read
    exact .nil _ _
  | case2 => cases read
  | case3 => cases read
  | case4 => cases read
  | case5 =>
    rename_i token _ first _ _ placed checked _ onward ih
    cases read
    refine .cons first (fun id => ?_) rfl (ih onward)
    cases token with
    | idName => simpa [placed, checkId] using checked
    | _ => cases id

theorem byteSize_le_of_readToken {c : Char} {rest : List Char} {token : Token}
    (read : readToken c text = .ok (token, rest)) : byteSize rest ≤ byteSize text := by
  obtain ⟨front, rfl⟩ := suffix_readToken read
  rw [byteSize_append]
  exact Nat.le_add_left _ _

/-- Behind an operator reading starts anew. -/
theorem readTokens_operator {d : Char} {operator : Token} (h : operator? d = some operator)
    (tail : List Char) :
    readTokens pos seenId (d :: tail) =
      (readTokens (pos + 1) false tail).map (⟨operator, ⟨pos, pos + 1⟩⟩ :: ·) := by
  have ends := endsElement_of_operator? h
  have fresh : operator.id?.isSome = true → seenId = false := by
    cases operator <;> simp_all [Token.id?, Token.endsElement]
  have noId : hasId seenId operator = false := by
    cases operator <;> simp_all [hasId, Token.endsElement]
  have stops : pos + 1 = pos + (byteSize (d :: tail) - byteSize tail) := by
    rw [byteSize, utf8Size_of_operator? h]
    omega
  rw [readTokens_cons (readToken_operator h tail) fresh stops, noId]

/-- In front of an operator a text is read to its end, and then the operator. -/
theorem Reads.readTokens_append {d : Char} {operator : Token}
    (h : Reads pos seenId text tokens) (ends : operator? d = some operator) (tail : List Char) :
    readTokens pos seenId (text ++ d :: tail) =
      (readTokens (pos + byteSize text + 1) false tail).map fun later =>
        tokens ++ ⟨operator, ⟨pos + byteSize text, pos + byteSize text + 1⟩⟩ :: later := by
  induction h with
  | nil pos seenId => exact readTokens_operator ends tail
  | @cons pos stop seenId c text rest token others first fresh stops _ ih =>
    have smaller := byteSize_le_of_readToken first
    have whole : byteSize (c :: text) = c.utf8Size + byteSize text := rfl
    have stops' : stop = pos + (byteSize (c :: (text ++ d :: tail)) -
        byteSize (rest ++ d :: tail)) := by
      rw [← List.cons_append, byteSize_append, byteSize_append, Nat.add_sub_add_right, stops]
    have seam : stop + byteSize rest = pos + byteSize (c :: text) := by omega
    rw [List.cons_append, readTokens_cons (readToken_append_right first ends tail) fresh stops', ih,
      seam]
    cases readTokens (pos + byteSize (c :: text) + 1) false tail <;> rfl

end Tokens

/-! ## Other bytes -/

def shifted (distance : Nat) : Except Fault (List PlacedToken) → Except Fault (List PlacedToken)
  | .error fault => .error (fault.shift distance)
  | .ok tokens => .ok (tokens.map (PlacedToken.shift distance))

/-- Whether an id is the second of its element does not depend on where it stands. -/
theorem checkId_shift (distance : Nat) (seenId : Bool) (placed : PlacedToken) :
    checkId seenId (placed.shift distance) =
      (checkId seenId placed).mapError (Fault.shift distance) := by
  obtain ⟨token, span⟩ := placed
  cases token <;> cases seenId <;> rfl

theorem readTokens_step_shift {pos stop : Nat} {seenId : Bool} {c : Char}
    {behind rest : List Char} {token : Token} (distance : Nat)
    (first : readToken c behind = .ok (token, rest))
    (stops : stop = pos + (byteSize (c :: behind) - byteSize rest)) :
    readTokens (distance + pos) seenId (c :: behind) =
      ((checkId seenId ⟨token, ⟨pos, stop⟩⟩).mapError (Fault.shift distance)).bind fun _ =>
        (readTokens (distance + stop) (hasId seenId token) rest).map
          (PlacedToken.shift distance ⟨token, ⟨pos, stop⟩⟩ :: ·) := by
  have moved : distance + stop = distance + pos + (byteSize (c :: behind) - byteSize rest) := by
    omega
  rw [readTokens_step first moved, ← checkId_shift]
  rfl

/-- A text is read in the same way at other bytes. -/
theorem readTokens_shift (distance pos : Nat) (seenId : Bool) (text : List Char) :
    readTokens (distance + pos) seenId text = shifted distance (readTokens pos seenId text) := by
  fun_induction readTokens pos seenId text with
  | case1 => rw [readTokens]; rfl
  | case2 pos seenId c behind fault first =>
    rw [readTokens_of_error first]
    simp only [shifted, Fault.shift, Span.shift, Nat.add_assoc]
  | case3 pos seenId c behind token rest first _ stop placed fault checked =>
    rw [readTokens_step_shift distance first rfl, checked]
    rfl
  | case4 pos seenId c behind token rest first _ stop placed checked fault later ih =>
    rw [readTokens_step_shift distance first rfl, checked, ih, later]
    rfl
  | case5 pos seenId c behind token rest first _ stop placed checked tokens later ih =>
    rw [readTokens_step_shift distance first rfl, checked, ih, later]
    rfl

/-- Wherever a text stands behind an operator or a start, it is read as some tokens. -/
def ReadsAs (text : List Char) (tokens : List Token) : Prop :=
  ∀ pos, ∃ placed, readTokens pos false text = .ok placed ∧ placed.map (·.token) = tokens

theorem readsAs_of_readTokens {text : List Char} {tokens : List PlacedToken}
    (read : readTokens 0 false text = .ok tokens) : ReadsAs text (tokens.map (·.token)) := by
  intro pos
  have moved := readTokens_shift pos 0 false text
  rw [read] at moved
  refine ⟨_, moved, ?_⟩
  rw [List.map_map]
  rfl

theorem readsAs_nil : ReadsAs [] [] := fun _ => ⟨[], by rw [readTokens], rfl⟩

theorem readsAs_display {token : Token} (legible : token.Legible) :
    ReadsAs token.display.toList [token] := by
  intro pos
  have apart : Apart false [token] := ⟨by simp, fun _ => rfl, trivial⟩
  have read := readTokens_display (List.forall_mem_singleton.2 legible) apart pos
  rwa [List.flatMap_singleton] at read

theorem readsAs_tagName {name : String} (h : IsName name.toList) :
    ReadsAs name.toList [.tagName name] :=
  readsAs_display (show (Token.tagName name).Legible from h)

section ReadsAs

variable {d : Char} {operator : Token} {text tail : List Char} {tokens more : List Token}

theorem ReadsAs.cons (h : ReadsAs tail more) (ends : operator? d = some operator) :
    ReadsAs (d :: tail) (operator :: more) := by
  intro pos
  obtain ⟨later, read, same⟩ := h (pos + 1)
  refine ⟨_, by rw [readTokens_operator ends, read]; rfl, ?_⟩
  rw [List.map_cons, same]

theorem ReadsAs.append (h : ReadsAs text tokens) (ends : operator? d = some operator)
    (h' : ReadsAs tail more) : ReadsAs (text ++ d :: tail) (tokens ++ operator :: more) := by
  intro pos
  obtain ⟨front, read, same⟩ := h pos
  obtain ⟨later, read', same'⟩ := h' (pos + byteSize text + 1)
  refine ⟨_, by rw [(reads_of_readTokens read).readTokens_append ends, read']; rfl, ?_⟩
  rw [List.map_append, List.map_cons, same, same']

theorem ReadsAs.group (h : ReadsAs text tokens) :
    ReadsAs ('(' :: (text ++ [')'])) (.openGroup :: tokens ++ [.closeGroup]) := by
  have opens : operator? '(' = some .openGroup := rfl
  have closes : operator? ')' = some .closeGroup := rfl
  exact (h.append closes readsAs_nil).cons opens

theorem ReadsAs.repeatedGroup (h : ReadsAs text tokens) {count : UInt64} (positive : count ≠ 0) :
    ReadsAs ('(' :: (text ++ ')' :: (Token.multiplier count).display.toList))
      (.openGroup :: tokens ++ [.closeGroup, .multiplier count]) := by
  have opens : operator? '(' = some .openGroup := rfl
  have closes : operator? ')' = some .closeGroup := rfl
  have multiplies := readsAs_display (show (Token.multiplier count).Legible from positive)
  exact (h.append closes multiplies).cons opens

end ReadsAs

end Lexer

end Shorthand
