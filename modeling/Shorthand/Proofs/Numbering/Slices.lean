import Mathlib.Data.List.Forall2
import Shorthand.Proofs.Numbering.Cursors
import Shorthand.Proofs.Numbering.Pieces

/-! # Templates copied in slices

Modifiers can be taken out of a template by its bytes alone.  One cursor runs over the bytes, and
another one stays where the last modifier ended.  What lies between the two is kept: when the next
modifier is found, it is copied as one slice.  Every slice starts and stops between characters, and
the slices lie apart, in order.  They are what is left of the template when its pieces lose their
modifiers.
-/
namespace Shorthand.Numbering

open Shorthand.Text

/-- The slices of the bytes that are kept, in the order in which they are taken, and the modifiers
between them; `copied` is where the next slice starts. -/
def scan (bytes : List UInt8) (cursor copied : Nat) : List Span × List Numbering :=
  if inside : cursor < bytes.length then
    if dollar : (bytes[cursor] == '$'.toUInt8) = true then
      let behind := skipWhile (· == '$'.toUInt8) bytes cursor
      if bytes[behind]? = some '@'.toUInt8 then
        let found := modifierAt bytes (behind + 1)
        let later := scan bytes found.2 found.2
        (⟨copied, behind⟩ :: later.1, found.1 :: later.2)
      else scan bytes behind copied
    else scan bytes (cursor + 1) copied
  else ([⟨copied, bytes.length⟩], [])
termination_by bytes.length - cursor
decreasing_by
  -- every round moves the cursor on, by a whole run of `$` if one stands there
  · have ahead : cursor < skipWhile (· == '$'.toUInt8) bytes cursor := lt_skipWhile inside dollar
    have behind := le_modifierAt bytes (skipWhile (· == '$'.toUInt8) bytes cursor + 1)
    omega
  · have ahead : cursor < skipWhile (· == '$'.toUInt8) bytes cursor := lt_skipWhile inside dollar
    omega
  · omega

/-- The characters from one byte position to another, if both stand between characters and in this
order. -/
def slice? (text : List Char) (span : Span) : Option (List Char) :=
  match charsBefore text span.start, charsBefore text span.stop with
  | some first, some last => if first ≤ last then some ((text.take last).drop first) else none
  | _, _ => none

def scanned (template : String) : List Span × List Numbering :=
  scan template.toByteArray.data.toList 0 0

/-- A template without its modifiers, put together from slices of it, and the modifiers. -/
def stripByBytes (template : String) : Option (String × List Numbering) :=
  ((scanned template).1.mapM (slice? template.toList)).map fun parts =>
    (String.ofList parts.flatten, (scanned template).2)

/-! ## Slices in order -/

/-- Slices of a text that lie apart, one behind the other, from a byte position on, and the characters
that they cover together. -/
inductive Slices (text : List Char) : Nat → List Span → List Char → Prop where
  | nil {bound : Nat} : Slices text bound [] []
  | cons {bound start : Nat} {covered behind kept : List Char} {spans : List Span}
      (ordered : bound ≤ start) (starts : RestAt text start (covered ++ behind))
      (later : Slices text (start + byteSize covered + 1) spans kept) :
      Slices text bound (⟨start, start + byteSize covered⟩ :: spans) (covered ++ kept)

namespace Slices

variable {text kept : List Char} {bound : Nat} {spans : List Span}

theorem mono {low : Nat} (h : Slices text bound spans kept) (le : low ≤ bound) :
    Slices text low spans kept := by
  cases h with
  | nil => exact .nil
  | cons ordered starts later => exact .cons (Nat.le_trans le ordered) starts later

theorem inside (h : Slices text bound spans kept) : ∀ slice ∈ spans, slice.Inside text := by
  induction h with
  | nil => simp
  | cons _ starts _ ih =>
    refine List.forall_mem_cons.2 ⟨?_, ih⟩
    obtain ⟨front, rfl, rfl⟩ := starts
    exact Span.inside_append ..

theorem le_start (h : Slices text bound spans kept) : ∀ slice ∈ spans, bound ≤ slice.start := by
  induction h with
  | nil => simp
  | cons ordered _ _ ih =>
    refine List.forall_mem_cons.2 ⟨ordered, fun slice mem => ?_⟩
    have behind := ih slice mem
    omega

theorem pairwise (h : Slices text bound spans kept) :
    spans.Pairwise fun one other => one.stop < other.start := by
  induction h with
  | nil => exact .nil
  | cons _ _ later ih => exact .cons (fun slice mem => later.le_start slice mem) ih

end Slices

theorem slice?_eq {text covered behind : List Char} {start : Nat}
    (h : RestAt text start (covered ++ behind)) :
    slice? text ⟨start, start + byteSize covered⟩ = some covered := by
  obtain ⟨front, rfl, rfl⟩ := h
  have first : charsBefore (front ++ (covered ++ behind)) (byteSize front) = some front.length :=
    charsBefore_byteSize ..
  have last : charsBefore (front ++ (covered ++ behind)) (byteSize front + byteSize covered) =
      some (front.length + covered.length) := by
    rw [← List.append_assoc, ← byteSize_append, charsBefore_byteSize, List.length_append]
  simp only [slice?, first, last]
  rw [if_pos (Nat.le_add_right _ _), ← List.append_assoc, ← List.length_append, List.take_left,
    List.drop_left]

theorem Slices.mapM_slice? {text kept : List Char} {bound : Nat} {spans : List Span}
    (h : Slices text bound spans kept) :
    ∃ parts, spans.mapM (slice? text) = some parts ∧ parts.flatten = kept := by
  induction h with
  | nil => exact ⟨[], rfl, rfl⟩
  | cons _ starts _ ih =>
    obtain ⟨parts, taken, whole⟩ := ih
    refine ⟨_ :: parts, ?_, congrArg (_ ++ ·) whole⟩
    rw [List.mapM_cons, slice?_eq starts, taken]
    rfl

/-! ## The scan of a template -/

theorem scan_other {bytes : List UInt8} {cursor copied count : Nat}
    (others : ∀ offset < count, ∃ byte, bytes[cursor + offset]? = some byte ∧ byte ≠ '$'.toUInt8) :
    scan bytes cursor copied = scan bytes (cursor + count) copied := by
  induction count with
  | zero => rfl
  | succ count ih =>
    obtain ⟨byte, found, other⟩ := others count (Nat.lt_succ_self count)
    obtain ⟨inside, rfl⟩ := List.getElem?_eq_some_iff.1 found
    rw [ih fun offset lt => others offset (Nat.lt_succ_of_lt lt), scan, dif_pos inside,
      dif_neg (by rwa [beq_iff_eq]), Nat.add_assoc]

variable {text rest : List Char} {pieces : List Piece} {cursor copied : Nat}

/-- Over the bytes of a character other than `$` the cursor goes on. -/
theorem scan_char {c : Char} (plain : c ≠ '$') (h : RestAt text cursor (c :: rest)) :
    scan (encoded text) cursor copied = scan (encoded text) (cursor + c.utf8Size) copied := by
  apply scan_other
  intro offset lt
  rw [← String.length_utf8EncodeChar] at lt
  refine ⟨(String.utf8EncodeChar c)[offset], ?_, ?_⟩
  · rw [h.getElem?, encoded_cons, List.getElem?_append_left lt, List.getElem?_eq_getElem lt]
  · have mem : (String.utf8EncodeChar c)[offset] ∈ String.utf8EncodeChar c := List.getElem_mem lt
    intro dollar
    rw [dollar] at mem
    by_cases narrow : c.utf8Size = 1
    · rw [utf8EncodeChar_of_narrow narrow, List.mem_singleton, toUInt8_inj rfl narrow] at mem
      exact plain mem.symm
    · exact absurd (le_of_mem_utf8EncodeChar narrow mem) (by decide)

theorem byteSize_dollars (width : Nat) : byteSize (List.replicate width '$') = width := by
  rw [byteSize_eq_length fun c mem => by rw [List.eq_of_mem_replicate mem]; rfl,
    List.length_replicate]

theorem takeWhile_run {width : Nat} (ends : rest.head? ≠ some '$') :
    (List.replicate width '$' ++ rest).takeWhile (· == '$') = List.replicate width '$' := by
  have behind : rest.takeWhile (· == '$') = [] := by
    cases rest with
    | nil => rfl
    | cons c rest => exact List.takeWhile_cons_of_neg (by simpa using ends)
  rw [List.takeWhile_append_of_pos (by simp), behind, List.append_nil]

/-- Behind a run of `$` a modifier is found, or the cursor goes on. -/
theorem scan_run {width : Nat} (positive : 0 < width) (ends : rest.head? ≠ some '$')
    (h : RestAt text cursor (List.replicate width '$' ++ rest)) :
    scan (encoded text) cursor copied =
      if rest.head? = some '@' then
        let found := modifierAt (encoded text) (cursor + width + 1)
        let later := scan (encoded text) found.2 found.2
        (⟨copied, cursor + width⟩ :: later.1, found.1 :: later.2)
      else scan (encoded text) (cursor + width) copied := by
  have first : (List.replicate width '$' ++ rest).head? = some '$' := by
    obtain ⟨width, rfl⟩ := Nat.exists_eq_succ_of_ne_zero (Nat.ne_of_gt positive)
    rfl
  obtain ⟨inside, dollar⟩ :=
    List.getElem?_eq_some_iff.1 ((h.getElem?_eq_some_iff (c := '$') rfl).2 first)
  have stop : skipWhile (· == '$'.toUInt8) (encoded text) cursor = cursor + width := by
    rw [skipWhile_eq (finds_char (c := '$') rfl) h, takeWhile_run ends, byteSize_dollars]
  have behind : RestAt text (cursor + width) rest := byteSize_dollars width ▸ h.advance
  rw [scan, dif_pos inside, dif_pos (beq_iff_eq.2 dollar), stop]
  simp only [behind.getElem?_eq_some_iff (c := '@') rfl]

/-- The scan keeps what is kept character by character and finds the same modifiers.  What lies between
the two cursors is pending: it is kept, but no slice of it is taken yet. -/
theorem Cut.scan_eq (cut : Cut rest pieces) {pending : List Char}
    (h : RestAt text copied (pending ++ rest)) :
    Slices text copied (scan (encoded text) (copied + byteSize pending) copied).1
        (pending ++ (stripFrom false rest).1) ∧
      (scan (encoded text) (copied + byteSize pending) copied).2 = (stripFrom false rest).2 := by
  induction cut generalizing pending copied with
  | nil =>
    have whole : copied + byteSize pending = (encoded text).length := by
      rw [← h.size, List.append_nil]
    have ends : ¬ copied + byteSize pending < (encoded text).length := by omega
    rw [scan, dif_neg ends, stripFrom, ← whole]
    exact ⟨.cons (Nat.le_refl copied) h .nil, rfl⟩
  | @char c rest pieces plain _ ih =>
    have here : RestAt text (copied + byteSize pending) (c :: rest) := h.advance
    have longer : RestAt text copied (pending ++ [c] ++ rest) := List.append_cons .. ▸ h
    rw [scan_char plain here, stripFrom_char plain]
    simpa [byteSize, Nat.add_assoc] using ih longer
  | @run width rest pieces positive ends unmodified _ ih =>
    have here : RestAt text (copied + byteSize pending) (List.replicate width '$' ++ rest) :=
      h.advance
    have longer : RestAt text copied (pending ++ List.replicate width '$' ++ rest) := by
      rwa [List.append_assoc]
    rw [scan_run positive ends here, if_neg unmodified, stripFrom_run positive unmodified]
    simpa [byteSize_dollars, Nat.add_assoc] using ih longer
  | @modified width modifier rest pieces positive longest _ ih =>
    obtain ⟨written, rfl⟩ := longest.is_modifier.exists_cons
    have here : RestAt text (copied + byteSize pending)
        (List.replicate width '$' ++ ('@' :: written ++ rest)) := h.advance
    have covers : RestAt text copied
        (pending ++ List.replicate width '$' ++ ('@' :: written ++ rest)) := by
      rwa [List.append_assoc]
    have stop : copied + byteSize (pending ++ List.replicate width '$') =
        copied + byteSize pending + width := by
      rw [byteSize_append, byteSize_dollars, Nat.add_assoc]
    have behind : RestAt text (copied + byteSize pending + width + 1) (written ++ rest) :=
      (stop ▸ covers.advance).tail
    obtain ⟨same, ends⟩ := agree_modifierAt behind
    rw [longest.readModifier_eq] at ends
    obtain ⟨slices, modifiers⟩ := @ih _ [] ends
    have modified : ('@' :: written ++ rest).head? = some '@' := rfl
    rw [scan_run positive (by simp) here, if_pos modified, stripFrom_modified positive longest,
      ← List.append_assoc, ← stop]
    rw [← stop] at same slices modifiers
    refine ⟨.cons (Nat.le_refl copied) covers (slices.mono (le_modifierAt ..)), ?_⟩
    exact congrArg₂ List.cons same modifiers

/-! ## What is taken out -/

def Piece.modifier? : Piece → Option (List Char)
  | .char _ => none
  | .placeholder _ modifier => if modifier = [] then none else some modifier

theorem Cut.denotes (cut : Cut text pieces) :
    List.Forall₂ Denotes (pieces.filterMap Piece.modifier?) (stripFrom false text).2 := by
  induction cut with
  | nil =>
    rw [stripFrom]
    exact .nil
  | char plain _ ih => rwa [stripFrom_char plain]
  | run positive _ unmodified _ ih => rwa [stripFrom_run positive unmodified]
  | modified positive longest _ ih =>
    obtain ⟨written, rfl⟩ := longest.is_modifier.exists_cons
    rw [stripFrom_modified positive longest]
    exact .cons longest.denotes ih

theorem forall₂_denotes_eq {modifiers : List (List Char)} {ones others : List Numbering}
    (h : List.Forall₂ Denotes modifiers ones) (h' : List.Forall₂ Denotes modifiers others) :
    others = ones := by
  induction h generalizing others with
  | nil => exact List.forall₂_nil_left_iff.1 h'
  | cons denotes _ ih =>
    cases h' with
    | cons denotes' later => rw [denotes.eq denotes', ih later]

/-- Modifiers are taken out of a template by slices between characters, which lie apart and in order.
What is left is the template without the longest modifier behind each run of `$`, and everything
else as it stands; the numberings are what these modifiers say, from left to right. -/
theorem strip_removes_modifiers (template : String) :
    (∀ slice ∈ (scanned template).1, slice.Inside template.toList) ∧
    ((scanned template).1.Pairwise fun one other => one.stop < other.start) ∧
    stripByBytes template = some (strip template) ∧
    ∃ pieces, (∀ others, Cut template.toList others ↔ others = pieces) ∧
      (strip template).1 = String.ofList (pieces.flatMap Piece.bare) ∧
      ∀ numberings, List.Forall₂ Denotes (pieces.filterMap Piece.modifier?) numberings ↔
        numberings = (strip template).2 := by
  obtain ⟨pieces, cut⟩ := exists_cut template.toList
  have start : RestAt template.toList 0 ([] ++ template.toList) := RestAt.zero template.toList
  obtain ⟨slices, modifiers⟩ := cut.scan_eq start
  have same : scan (encoded template.toList) (0 + byteSize []) 0 = scanned template := by
    rw [scanned, toByteArray_eq_encoded]
    rfl
  rw [same] at slices modifiers
  obtain ⟨parts, taken, whole⟩ := slices.mapM_slice?
  refine ⟨slices.inside, slices.pairwise, ?_, pieces, fun others => ⟨fun other => cut.eq other, ?_⟩,
    ?_, fun numberings => ⟨fun other => forall₂_denotes_eq cut.denotes other, ?_⟩⟩
  · rw [stripByBytes, taken, modifiers, Option.map_some, whole]
    rfl
  · rintro rfl
    exact cut
  · rw [strip, ← cut.stripFrom_eq]
  · rintro rfl
    exact cut.denotes

/-- A modifier with characters of several bytes on both sides of it. -/
theorem strip_removes_modifiers_between :
    (⟨8, 12⟩ : Span) ∈ (scanned "é$@-3:2→$").1 ∧
      (⟨8, 12⟩ : Span).Inside "é$@-3:2→$".toList ∧
      stripByBytes "é$@-3:2→$" =
        some ("é$→$", [{ start := 3, step := 2, reversed := true }]) := by
  have slices : (scanned "é$@-3:2→$").1 = [⟨0, 3⟩, ⟨8, 12⟩] := by decide +kernel
  have mem : (⟨8, 12⟩ : Span) ∈ (scanned "é$@-3:2→$").1 := by simp [slices]
  obtain ⟨inside, -, same, -⟩ := strip_removes_modifiers "é$@-3:2→$"
  exact ⟨mem, inside _ mem, same.trans (by decide +kernel)⟩

end Shorthand.Numbering
