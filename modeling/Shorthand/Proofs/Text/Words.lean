import Shorthand.TagName
import Shorthand.Text.Blank

/-! # Words and lines

The words of a text are not empty and have no blanks.  Any such words are found again in the text in
which they stand with one space between them.  The lines of a text have no other characters than the
text.
-/
namespace Shorthand.Text

/-- A text with something in it, and without blanks. -/
structure Unbroken (word : String) : Prop where
  nonempty : word ≠ ""
  unblank : ∀ c ∈ word.toList, isBlank c = false

theorem unblank_of_mem_splitOnP {text piece : List Char} (mem : piece ∈ text.splitOnP isBlank) :
    ∀ c ∈ piece, isBlank c = false := by
  induction text generalizing piece with
  | nil =>
    rw [List.splitOnP_nil, List.mem_singleton] at mem
    simp [mem]
  | cons c rest ih =>
    rw [List.splitOnP_cons_eq_if_modifyHead] at mem
    split at mem
    next =>
      rcases List.mem_cons.1 mem with rfl | later
      · simp
      · exact ih later
    next unblank =>
      -- The character joins the first of the other pieces.
      obtain ⟨first, others, pieces⟩ := List.exists_cons_of_ne_nil (List.splitOnP_ne_nil isBlank rest)
      rw [pieces, List.modifyHead_cons] at mem
      rw [pieces] at ih
      rcases List.mem_cons.1 mem with rfl | later
      · rw [List.forall_mem_cons]
        exact ⟨Bool.not_eq_true _ ▸ unblank, ih List.mem_cons_self⟩
      · exact ih (List.mem_cons_of_mem first later)

theorem unbroken_of_mem_words {text word : String} (mem : word ∈ words text) : Unbroken word := by
  obtain ⟨piece, inside, rfl⟩ := List.mem_map.1 mem
  obtain ⟨split, nonempty⟩ := List.mem_filter.1 inside
  constructor
  · simpa [String.ext_iff] using nonempty
  · rw [String.toList_ofList]
    exact unblank_of_mem_splitOnP split

theorem words_of_unbroken {word : String} (h : Unbroken word) : words word = [word] := by
  have nonempty : word.toList ≠ [] := fun empty => h.nonempty (String.toList_eq_nil_iff.1 empty)
  rw [words, List.splitOnP_eq_singleton h.unblank, List.filter_cons_of_pos (by simpa using nonempty),
    List.filter_nil, List.map_singleton, String.ofList_toList]

theorem words_append_space (front back : String) :
    words (front ++ " " ++ back) = words front ++ words back := by
  have same : (front ++ " " ++ back).toList = front.toList ++ ' ' :: back.toList := by simp
  rw [words, same, List.splitOnP_append_cons _ _ (by decide), List.filter_append, List.map_append,
    ← words, ← words]

/-- Words with a space between them are just the words of the whole. -/
theorem words_intercalate {pieces : List String} (h : ∀ piece ∈ pieces, Unbroken piece) :
    words (" ".intercalate pieces) = pieces := by
  induction pieces with
  | nil => rfl
  | cons first rest ih =>
    rw [List.forall_mem_cons] at h
    cases rest with
    | nil => rw [String.intercalate_singleton, words_of_unbroken h.1]
    | cons next others =>
      rw [String.intercalate_cons_cons, words_append_space, words_of_unbroken h.1, ih h.2]
      rfl

theorem toNat_of_isAlphanum {c : Char} (h : c.isAlphanum = true) :
    (65 ≤ c.toNat ∧ c.toNat ≤ 90) ∨ (97 ≤ c.toNat ∧ c.toNat ≤ 122) ∨
      (48 ≤ c.toNat ∧ c.toNat ≤ 57) := by
  change (decide (65 ≤ c.val ∧ c.val ≤ 90) || (decide (97 ≤ c.val) && decide (c.val ≤ 122)) ||
    (decide (48 ≤ c.val) && decide (c.val ≤ 57))) = true at h
  simp only [Bool.or_eq_true, Bool.and_eq_true, decide_eq_true_eq, UInt32.le_iff_toNat_le] at h
  exact or_assoc.1 h

theorem isBlank_of_isAlphanum {c : Char} (h : c.isAlphanum = true) : isBlank c = false := by
  have range := toNat_of_isAlphanum h
  simp only [isBlank, Bool.or_eq_false_iff, Bool.and_eq_false_iff, decide_eq_false_iff_not,
    beq_eq_false_iff_ne]
  omega

theorem utf8Size_of_isAlphanum {c : Char} (h : c.isAlphanum = true) : c.utf8Size = 1 := by
  have range := toNat_of_isAlphanum h
  rw [Char.utf8Size_eq_one_iff, UInt32.le_iff_toNat_le]
  show c.toNat ≤ 127
  omega

theorem utf8Size_of_isDigit {c : Char} (h : c.isDigit = true) : c.utf8Size = 1 :=
  utf8Size_of_isAlphanum (by rw [Char.isAlphanum, h, Bool.or_true])

theorem isBlank_of_isNameChar {c : Char} (h : TagName.isNameChar c = true) : isBlank c = false := by
  simp only [TagName.isNameChar, Bool.or_eq_true, beq_iff_eq] at h
  rcases h with ((letter | rfl) | rfl) | rfl
  · exact isBlank_of_isAlphanum letter
  all_goals decide

theorem isNameChar_of_isValid {name : String} (h : TagName.isValid name = true) :
    ∀ c ∈ name.toList, TagName.isNameChar c = true := by
  rw [TagName.isValid, Bool.and_eq_true, List.all_eq_true] at h
  exact h.2

theorem unbroken_of_isValid {name : String} (h : TagName.isValid name = true) : Unbroken name := by
  simp only [TagName.isValid, Bool.and_eq_true, Bool.not_eq_true', List.isEmpty_eq_false_iff,
    List.all_eq_true] at h
  exact ⟨fun empty => h.1 (by rw [empty]; rfl), fun c mem => isBlank_of_isNameChar (h.2 c mem)⟩

theorem subset_of_mem_splitOnP {p : Char → Bool} {text piece : List Char}
    (mem : piece ∈ text.splitOnP p) : piece ⊆ text := by
  induction text generalizing piece with
  | nil =>
    rw [List.splitOnP_nil, List.mem_singleton] at mem
    rw [mem]
    exact List.Subset.refl []
  | cons c rest ih =>
    rw [List.splitOnP_cons_eq_if_modifyHead] at mem
    split at mem
    next =>
      rcases List.mem_cons.1 mem with rfl | later
      · exact List.nil_subset _
      · exact List.subset_cons_of_subset c (ih later)
    next =>
      obtain ⟨first, others, pieces⟩ := List.exists_cons_of_ne_nil (List.splitOnP_ne_nil p rest)
      rw [pieces, List.modifyHead_cons] at mem
      rw [pieces] at ih
      rcases List.mem_cons.1 mem with rfl | later
      · exact List.cons_subset_cons c (ih List.mem_cons_self)
      · exact List.subset_cons_of_subset c (ih (List.mem_cons_of_mem first later))

theorem chomp_subset (line : List Char) : chomp line ⊆ line := by
  fun_induction chomp line with
  | case1 => exact List.Subset.refl []
  | case2 => exact List.nil_subset _
  | case3 c rest _ ih => exact List.cons_subset_cons c ih

theorem exists_of_mem_ofPieces {pieces : List (List Char)} {line : List Char}
    (mem : line ∈ ofPieces pieces) : ∃ piece ∈ pieces, line ⊆ piece := by
  fun_induction ofPieces pieces with
  | case1 => cases mem
  | case2 last => cases mem
  | case3 last =>
    rw [List.mem_singleton.1 mem]
    exact ⟨last, List.mem_singleton_self last, List.Subset.refl last⟩
  | case4 piece rest _ ih =>
    rcases List.mem_cons.1 mem with rfl | later
    · exact ⟨piece, List.mem_cons_self, chomp_subset piece⟩
    · obtain ⟨other, inside, subset⟩ := ih later
      exact ⟨other, List.mem_cons_of_mem piece inside, subset⟩

theorem subset_of_mem_lines {text line : String} (mem : line ∈ lines text) :
    line.toList ⊆ text.toList := by
  obtain ⟨chars, inside, rfl⟩ := List.mem_map.1 mem
  obtain ⟨piece, split, subset⟩ := exists_of_mem_ofPieces inside
  rw [String.toList_ofList]
  exact List.Subset.trans subset (subset_of_mem_splitOnP split)

end Shorthand.Text
