import Shorthand.Expansion
import Shorthand.Proofs.Numbering.LongestModifier
import Shorthand.Proofs.Numbering.Name
import Shorthand.Proofs.Numbering.Placeholder

/-! # Placeholders where they stand

A template is cut into pieces: each run of `$` with the longest modifier right behind it, and every
other character.  A copy shows the pieces one by one unless a modifier stands between two runs: there,
taking it out joins the runs, and they show the number once, if they are not too long together.
-/
namespace Shorthand.Numbering

open Shorthand.Text

/-! ## Pieces -/

inductive Piece where
  | char (c : Char)
  /-- A run of `$` and the modifier behind it, which is empty if there is none. -/
  | placeholder (width : Nat) (modifier : List Char)
deriving DecidableEq, Repr

namespace Piece

def bare : Piece → List Char
  | char c => [c]
  | placeholder width _ => List.replicate width '$'

/-- What stands for the piece when its run is replaced by a number. -/
def shown (number : Nat) : Piece → List Char
  | char c => [c]
  | placeholder width _ => padded width number

/-- A character of a template that stands for itself, or a run that is there. -/
def Proper : Piece → Prop
  | char c => c ≠ '$'
  | placeholder width _ => 0 < width

end Piece

/-- No run stands right behind another one, whose modifier is all that keeps them apart; `afterRun`
tells whether one stands right before the pieces. -/
def separate (afterRun : Bool) : List Piece → Bool
  | [] => true
  | .char _ :: rest => separate false rest
  | .placeholder _ _ :: rest => !afterRun && separate true rest

/-- The pieces of a text: runs of `$` are as long as possible, and so are the modifiers. -/
inductive Cut : List Char → List Piece → Prop where
  | nil : Cut [] []
  | char {c : Char} {text : List Char} {pieces : List Piece} (plain : c ≠ '$')
      (rest : Cut text pieces) : Cut (c :: text) (.char c :: pieces)
  | run {width : Nat} {text : List Char} {pieces : List Piece} (positive : 0 < width)
      (ends : text.head? ≠ some '$') (unmodified : text.head? ≠ some '@') (rest : Cut text pieces) :
      Cut (List.replicate width '$' ++ text) (.placeholder width [] :: pieces)
  | modified {width : Nat} {modifier text : List Char} {pieces : List Piece} (positive : 0 < width)
      (longest : IsLongestModifier modifier (modifier ++ text)) (rest : Cut text pieces) :
      Cut (List.replicate width '$' ++ (modifier ++ text)) (.placeholder width modifier :: pieces)

theorem exists_run (text : List Char) :
    ∃ width behind, text = List.replicate width '$' ++ behind ∧ behind.head? ≠ some '$' := by
  refine ⟨(text.takeWhile (· = '$')).length, text.dropWhile (· = '$'), ?_, ?_⟩
  · have run : text.takeWhile (· = '$') = List.replicate _ '$' :=
      List.eq_replicate_of_mem fun c mem => by
        simpa using List.all_eq_true.1 List.all_takeWhile c mem
    rw [← run, List.takeWhile_append_dropWhile]
  · intro dollar
    have stops := List.head?_dropWhile_not (· = '$') text
    rw [dollar] at stops
    simp at stops

theorem run_inj {a b : Nat} {front back : List Char} (ha : front.head? ≠ some '$')
    (hb : back.head? ≠ some '$')
    (same : List.replicate a '$' ++ front = List.replicate b '$' ++ back) : a = b ∧ front = back := by
  induction a generalizing b with
  | zero =>
    cases b with
    | zero => exact ⟨rfl, same⟩
    | succ b => exact absurd (by rw [show front = _ from same]; rfl) ha
  | succ a ih =>
    cases b with
    | zero => exact absurd (by rw [← show _ = back from same]; rfl) hb
    | succ b =>
      obtain ⟨rfl, behind⟩ := ih (List.cons.inj same).2
      exact ⟨rfl, behind⟩

theorem IsLongestModifier.head?_ne {modifier text : List Char}
    (h : IsLongestModifier modifier text) (back : List Char) :
    (modifier ++ back).head? ≠ some '$' := by
  obtain ⟨rest, rfl⟩ := h.is_modifier.exists_cons
  simp

theorem exists_cut (text : List Char) : ∃ pieces, Cut text pieces := by
  obtain ⟨width, behind, rfl, ends⟩ := exists_run text
  by_cases positive : 0 < width
  · by_cases modified : behind.head? = some '@'
    · obtain ⟨rest, rfl⟩ : ∃ rest, behind = '@' :: rest := List.head?_eq_some_iff.1 modified
      obtain ⟨modifier, whole, longest⟩ := exists_modifier rest
      have shorter := (suffix_readModifier rest).length_le
      obtain ⟨pieces, cut⟩ := exists_cut (readModifier rest).2
      rw [whole] at longest ⊢
      exact ⟨_, .modified positive longest cut⟩
    · obtain ⟨pieces, cut⟩ := exists_cut behind
      exact ⟨_, .run positive ends modified cut⟩
  · obtain rfl : width = 0 := by omega
    cases behind with
    | nil => exact ⟨[], .nil⟩
    | cons c rest =>
      obtain ⟨pieces, cut⟩ := exists_cut rest
      exact ⟨_, .char (fun dollar => ends (by rw [dollar]; rfl)) cut⟩
termination_by text.length
decreasing_by
  all_goals simp_all
  all_goals omega

namespace Cut

variable {text : List Char} {pieces : List Piece}

theorem char_inv {c : Char} (plain : c ≠ '$') (h : Cut (c :: text) pieces) :
    ∃ rest, pieces = .char c :: rest ∧ Cut text rest := by
  generalize whole : c :: text = all at h
  have noRun {width : Nat} {behind : List Char} (positive : 0 < width) :
      c :: text ≠ List.replicate width '$' ++ behind := by
    obtain ⟨width, rfl⟩ := Nat.exists_eq_succ_of_ne_zero (Nat.ne_of_gt positive)
    exact fun same => plain (List.cons.inj same).1
  cases h with
  | nil => cases whole
  | char _ rest =>
    cases whole
    exact ⟨_, rfl, rest⟩
  | run positive => exact absurd whole (noRun positive)
  | modified positive => exact absurd whole (noRun positive)

theorem run_inv {width : Nat} (positive : 0 < width) (ends : text.head? ≠ some '$')
    (h : Cut (List.replicate width '$' ++ text) pieces) :
    (∃ rest, pieces = .placeholder width [] :: rest ∧ text.head? ≠ some '@' ∧ Cut text rest) ∨
      ∃ modifier behind rest, pieces = .placeholder width modifier :: rest ∧
        text = modifier ++ behind ∧ IsLongestModifier modifier (modifier ++ behind) ∧
          Cut behind rest := by
  generalize whole : List.replicate width '$' ++ text = all at h
  obtain ⟨width, rfl⟩ := Nat.exists_eq_succ_of_ne_zero (Nat.ne_of_gt positive)
  cases h with
  | nil => cases whole
  | char plain => exact absurd (List.cons.inj whole).1.symm plain
  | run _ ends' unmodified rest =>
    obtain ⟨rfl, rfl⟩ := run_inj ends ends' whole
    exact .inl ⟨_, rfl, unmodified, rest⟩
  | modified _ longest rest =>
    obtain ⟨rfl, rfl⟩ := run_inj ends (longest.head?_ne _) whole
    exact .inr ⟨_, _, _, rfl, rfl, longest, rest⟩

theorem nil_inv (h : Cut [] pieces) : pieces = [] := by
  generalize whole : ([] : List Char) = all at h
  cases h with
  | nil => rfl
  | char => cases whole
  | run positive => simp [Nat.ne_of_gt positive] at whole
  | modified positive => simp [Nat.ne_of_gt positive] at whole

theorem eq {others : List Piece} (h : Cut text pieces) (other : Cut text others) :
    others = pieces := by
  induction h generalizing others with
  | nil => exact other.nil_inv
  | char plain _ ih =>
    obtain ⟨rest, rfl, cut⟩ := other.char_inv plain
    rw [ih cut]
  | run positive ends unmodified _ ih =>
    obtain ⟨rest, rfl, -, cut⟩ | ⟨modifier, behind, rest, -, rfl, longest, -⟩ :=
      other.run_inv positive ends
    · rw [ih cut]
    · obtain ⟨rest, rfl⟩ := longest.is_modifier.exists_cons
      exact absurd rfl unmodified
  | modified positive longest _ ih =>
    obtain ⟨rest, -, unmodified, -⟩ | ⟨modifier, behind, rest, rfl, same, longest', cut⟩ :=
      other.run_inv positive (longest.head?_ne _)
    · obtain ⟨rest, rfl⟩ := longest.is_modifier.exists_cons
      exact absurd rfl unmodified
    · obtain ⟨rfl, rfl⟩ := longest.eq_of_append_eq longest' same
      rw [ih cut]

theorem proper (h : Cut text pieces) : ∀ piece ∈ pieces, piece.Proper := by
  induction h with
  | nil => simp
  | char plain _ ih => exact List.forall_mem_cons.2 ⟨plain, ih⟩
  | run positive _ _ _ ih => exact List.forall_mem_cons.2 ⟨positive, ih⟩
  | modified positive _ _ ih => exact List.forall_mem_cons.2 ⟨positive, ih⟩

end Cut

/-! ## Taking out the modifiers -/

theorem stripFrom_replicate (afterDollar : Bool) {width : Nat} (positive : 0 < width)
    (text : List Char) :
    stripFrom afterDollar (List.replicate width '$' ++ text) =
      (List.replicate width '$' ++ (stripFrom true text).1, (stripFrom true text).2) := by
  induction width generalizing afterDollar with
  | zero => cases positive
  | succ width ih =>
    rw [List.replicate_succ, List.cons_append, stripFrom, if_neg (by simp)]
    by_cases more : 0 < width
    · rw [ih _ more]
      rfl
    · obtain rfl : width = 0 := by omega
      rfl

theorem stripFrom_of_unmodified_head {text : List Char} (unmodified : text.head? ≠ some '@') :
    stripFrom true text = stripFrom false text := by
  cases text with
  | nil => rw [stripFrom, stripFrom]
  | cons c rest =>
    have here : (c == '@') = false := by simpa using unmodified
    rw [stripFrom, stripFrom, here, Bool.and_false, Bool.and_false]

theorem stripFrom_char {c : Char} (plain : c ≠ '$') (text : List Char) :
    stripFrom false (c :: text) = (c :: (stripFrom false text).1, (stripFrom false text).2) := by
  rw [stripFrom, if_neg (by simp), beq_false_of_ne plain]

theorem stripFrom_run {width : Nat} (positive : 0 < width) {text : List Char}
    (unmodified : text.head? ≠ some '@') :
    stripFrom false (List.replicate width '$' ++ text) =
      (List.replicate width '$' ++ (stripFrom false text).1, (stripFrom false text).2) := by
  rw [stripFrom_replicate false positive, stripFrom_of_unmodified_head unmodified]

theorem stripFrom_modified {width : Nat} (positive : 0 < width) {rest text : List Char}
    (longest : IsLongestModifier ('@' :: rest) ('@' :: rest ++ text)) :
    stripFrom false (List.replicate width '$' ++ ('@' :: rest ++ text)) =
      (List.replicate width '$' ++ (stripFrom false text).1,
        (readModifier (rest ++ text)).1 :: (stripFrom false text).2) := by
  rw [stripFrom_replicate false positive, List.cons_append, stripFrom, if_pos (by simp)]
  dsimp only
  rw [longest.readModifier_eq]

theorem Cut.stripFrom_eq {text : List Char} {pieces : List Piece} (h : Cut text pieces) :
    (stripFrom false text).1 = pieces.flatMap Piece.bare := by
  induction h with
  | nil => rw [stripFrom, List.flatMap_nil]
  | char plain _ ih =>
    rw [stripFrom_char plain, ih]
    rfl
  | run positive _ unmodified _ ih =>
    rw [stripFrom_run positive unmodified, ih]
    rfl
  | modified positive longest _ ih =>
    obtain ⟨rest, rfl⟩ := longest.is_modifier.exists_cons
    rw [stripFrom_modified positive longest, ih]
    rfl

/-! ## Filling in a number -/

theorem length_shown_add_le (number width more : Nat) (positive : 0 < more) :
    (shown number (width + more)).length ≤
      (shown number width).length + (padded more number).length := by
  rw [shown_of_pos (by omega : 0 < width + more), length_padded, length_padded]
  unfold shown
  split
  next => simp_all
  next =>
    rw [length_padded]
    omega

/-- Joined runs show no more characters than the pieces do one by one. -/
theorem length_fill_bare_le {pieces : List Piece} (proper : ∀ piece ∈ pieces, piece.Proper)
    (number width : Nat) :
    (fill number width (pieces.flatMap Piece.bare)).length ≤
      (shown number width).length + (pieces.flatMap (Piece.shown number)).length := by
  induction pieces generalizing width with
  | nil => exact Nat.le_refl _
  | cons piece rest ih =>
    obtain ⟨here, later⟩ := List.forall_mem_cons.1 proper
    cases piece with
    | char c =>
      have behind := ih later 0
      simp only [List.flatMap_cons, Piece.bare, Piece.shown, List.singleton_append, fill,
        if_neg (show c ≠ '$' from here), List.length_append, List.length_cons] at behind ⊢
      have nothing : (shown number 0).length = 0 := rfl
      omega
    | placeholder more modifier =>
      have behind := ih later (width + more)
      have joined := length_shown_add_le number width more here
      simp only [List.flatMap_cons, Piece.bare, Piece.shown, fill_replicate, List.length_append]
        at behind ⊢
      omega

theorem zeros_prefix_zeros {few many : Nat} (le : few ≤ many) :
    List.replicate few '0' <+: List.replicate many '0' :=
  ⟨List.replicate (many - few) '0', by
    rw [List.replicate_append_replicate, Nat.add_sub_cancel' le]⟩

/-- A run under way shows zeros in front of the number, and more of them when it goes on. -/
theorem zeros_prefix_fill (number width : Nat) (text : List Char) :
    List.replicate (width - (Nat.toDigits 10 number).length) '0' <+: fill number width text := by
  have here (width : Nat) :
      List.replicate (width - (Nat.toDigits 10 number).length) '0' <+: shown number width := by
    unfold shown
    split
    next none => simp [none]
    next => exact List.prefix_append _ _
  induction text generalizing width with
  | nil => exact here width
  | cons c rest ih =>
    rw [fill]
    split
    next =>
      exact (zeros_prefix_zeros (Nat.sub_le_sub_right (Nat.le_succ width) _)).trans (ih (width + 1))
    next => exact (here width).trans (List.prefix_append _ _)

theorem padded_zero {width : Nat} (positive : 0 < width) :
    padded width 0 = List.replicate width '0' := by
  obtain ⟨width, rfl⟩ := Nat.exists_eq_succ_of_ne_zero (Nat.ne_of_gt positive)
  rw [padded, show Nat.toDigits 10 0 = ['0'] from rfl, ← List.replicate_succ']
  rfl

theorem shown_zero (width : Nat) : shown 0 width = List.replicate width '0' := by
  unfold shown
  split
  next none => rw [none, List.replicate_zero]
  next some => exact padded_zero (Nat.pos_of_ne_zero some)

/-- Two runs that are joined show what they show apart for zero only. -/
theorem eq_zero_of_joined {number width more : Nat} {text behind : List Char} (positive : 0 < width)
    (short : (fill number (width + more) text).length ≤
      (shown number (width + more)).length + behind.length)
    (positive' : 0 < more)
    (same : fill number (width + more) text =
      shown number width ++ (padded more number ++ behind)) : number = 0 := by
  have digits : 0 < (Nat.toDigits 10 number).length := Nat.length_toDigits_pos
  rw [same, shown_of_pos positive, shown_of_pos (by omega), List.length_append,
    List.length_append, length_padded, length_padded, length_padded] at short
  -- as the lengths agree, no numeral is longer than its run
  have fits : (Nat.toDigits 10 number).length ≤ width := by omega
  have zeros := zeros_prefix_fill number (width + more) text
  rw [same, shown_of_pos positive] at zeros
  have ahead : List.replicate width '0' <+: padded width number ++ (padded more number ++ behind) :=
    (zeros_prefix_zeros (by omega)).trans zeros
  have whole : List.replicate width '0' = padded width number := by
    refine List.IsPrefix.eq_of_length
      (List.prefix_of_prefix_length_le ahead (List.prefix_append _ _) ?_) ?_
    · rw [List.length_replicate, length_padded]
      omega
    · rw [List.length_replicate, length_padded]
      omega
  rw [← numeralValue_padded width number, ← whole]
  exact numeralValue_of_zeros fun c mem => List.eq_of_mem_replicate mem

/-- Filling in a number shows the pieces one by one if no runs are joined. -/
theorem fill_bare_eq_iff {pieces : List Piece} (proper : ∀ piece ∈ pieces, piece.Proper)
    (number width : Nat) :
    fill number width (pieces.flatMap Piece.bare) =
        shown number width ++ pieces.flatMap (Piece.shown number) ↔
      number = 0 ∨ separate (0 < width) pieces = true := by
  induction pieces generalizing width with
  | nil => simp [fill, separate]
  | cons piece rest ih =>
    obtain ⟨here, later⟩ := List.forall_mem_cons.1 proper
    cases piece with
    | char c =>
      have behind := ih later 0
      simp only [List.flatMap_cons, Piece.bare, Piece.shown, List.singleton_append, fill,
        if_neg (show c ≠ '$' from here), List.append_cancel_left_eq, List.cons.injEq, true_and]
      simpa [separate, show shown number 0 = [] from rfl] using behind
    | placeholder more modifier =>
      have here : 0 < more := here
      have joined := ih later (width + more)
      simp only [List.flatMap_cons, Piece.bare, Piece.shown, fill_replicate]
      by_cases under : 0 < width
      · refine ⟨fun same => .inl ?_, fun zero => ?_⟩
        · exact eq_zero_of_joined under (length_fill_bare_le later number _) here same
        · obtain rfl : number = 0 := by simpa [separate, under] using zero
          rw [joined.2 (.inl rfl), shown_zero, shown_zero, padded_zero here, ← List.append_assoc,
            List.replicate_append_replicate]
      · obtain rfl : width = 0 := by omega
        rw [Nat.zero_add, shown_of_pos here] at joined
        rw [Nat.zero_add]
        simpa [separate, shown, here] using joined

/-! ## What a copy shows -/

/-- A template is cut into pieces in one way.  With its modifiers taken out and its placeholders
replaced by a number, it shows these pieces one by one if no run of `$` is too long then, and the
number is zero or no modifier stands between two runs of `$`.  Otherwise it does not, and a run that is
too long makes the program crash. -/
theorem displayed_eq_pieces_iff (template : String) (number : UInt64) :
    ∃ pieces, Cut template.toList pieces ∧
      (∀ others, Cut template.toList others → others = pieces) ∧
      (substitute? (strip template).1 number =
          some (String.ofList (pieces.flatMap (Piece.shown number.toNat))) ↔
        Fits (pieces.flatMap Piece.bare) ∧ (number = 0 ∨ separate false pieces = true)) ∧
      (substitute? (strip template).1 number = none ↔ ¬Fits (pieces.flatMap Piece.bare)) := by
  obtain ⟨pieces, cut⟩ := exists_cut template.toList
  have bare : (strip template).1.toList = pieces.flatMap Piece.bare := by
    rw [strip, ← cut.stripFrom_eq]
    simp only [String.toList_ofList]
  refine ⟨pieces, cut, fun others other => cut.eq other, ?_, ?_⟩
  · have filled := fill_bare_eq_iff cut.proper number.toNat 0
    have zero : number.toNat = 0 ↔ number = 0 := UInt64.toNat_inj (b := 0)
    rw [substitute?_eq, bare]
    split
    next fits =>
      rw [Option.some_inj, substitute, bare, String.ofList_inj, ← zero]
      exact filled.trans (and_iff_right fits).symm
    next wide => simp [wide]
  · rw [substitute?_eq_none_iff, bare]

/-- A modifier between two runs: both are one character long, but what is left of them shows the
number once, with two digits. -/
theorem displayed_joins_runs :
    Cut "$@$".toList [.placeholder 1 ['@'], .placeholder 1 []] ∧
      substitute? (strip "$@$").1 1 = some "01" ∧
      String.ofList ([.placeholder 1 ['@'], .placeholder 1 []].flatMap (Piece.shown 1)) = "11" ∧
      (expand "li{$@$}*2" {}).toOption = some "<li>01</li>
<li>02</li>" := by
  refine ⟨?_, by decide +kernel, by decide +kernel, by decide +kernel⟩
  have longest : IsLongestModifier ['@'] (['@'] ++ ['$']) := by
    obtain ⟨modifier, whole, longest⟩ := exists_modifier ['$']
    have rest : (readModifier ['$']).2 = ['$'] := by decide
    rw [rest] at whole
    obtain rfl : modifier = ['@'] := (List.append_cancel_right whole).symm
    exact longest
  have last : Cut (List.replicate 1 '$' ++ []) [.placeholder 1 []] :=
    .run Nat.one_pos (by simp) (by simp) .nil
  exact .modified Nat.one_pos longest last

end Shorthand.Numbering
