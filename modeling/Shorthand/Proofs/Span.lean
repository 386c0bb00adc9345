import Shorthand.Span

/-! # Spans between characters

Bytes are counted by characters here, so that only some positions of a text are meaningful: those
between two characters and those at the ends.  A span between two such positions covers characters
of the text, and the offset of its start is the number of characters in front of them.
-/
namespace Shorthand

theorem byteSize_nil : byteSize [] = 0 := rfl

theorem byteSize_eq_length {text : List Char} (single : ∀ c ∈ text, c.utf8Size = 1) :
    byteSize text = text.length := by
  induction text with
  | nil => rfl
  | cons c rest ih =>
    rw [List.forall_mem_cons] at single
    rw [byteSize, single.1, ih single.2, List.length_cons, Nat.add_comm]

theorem utf8ByteSize_ofList (text : List Char) :
    (String.ofList text).utf8ByteSize = byteSize text := by
  induction text with
  | nil => rfl
  | cons c rest ih =>
    rw [String.ofList_cons, String.utf8ByteSize_append, String.utf8ByteSize_singleton, ih, byteSize]

theorem utf8ByteSize_eq_byteSize (source : String) :
    source.utf8ByteSize = byteSize source.toList := by
  rw [← utf8ByteSize_ofList, String.ofList_toList]

/-- A byte position between two characters of a text, or at one of its ends. -/
def IsBoundary (text : List Char) (byte : Nat) : Prop :=
  ∃ front back, text = front ++ back ∧ byteSize front = byte

theorem IsBoundary.le {text : List Char} {byte : Nat} (h : IsBoundary text byte) :
    byte ≤ byteSize text := by
  obtain ⟨front, back, rfl, rfl⟩ := h
  rw [byteSize_append]
  exact Nat.le_add_right _ _

theorem isBoundary_byteSize (front back : List Char) :
    IsBoundary (front ++ back) (byteSize front) := ⟨front, back, rfl, rfl⟩

theorem IsBoundary.shift {text : List Char} {byte : Nat} (h : IsBoundary text byte)
    (front : List Char) : IsBoundary (front ++ text) (byteSize front + byte) := by
  obtain ⟨inner, back, rfl, rfl⟩ := h
  exact ⟨front ++ inner, back, (List.append_assoc ..).symm, byteSize_append ..⟩

theorem eq_nil_of_byteSize_eq_zero {text : List Char} (h : byteSize text = 0) : text = [] := by
  cases text with
  | nil => rfl
  | cons c rest =>
    have := c.utf8Size_pos
    rw [byteSize] at h
    omega

theorem lt_add_byteSize {text : List Char} (nonempty : text ≠ []) (pos : Nat) :
    pos < pos + byteSize text :=
  Nat.lt_add_of_pos_right (Nat.pos_of_ne_zero (mt eq_nil_of_byteSize_eq_zero nonempty))

/-- Between two boundaries there are whole characters. -/
theorem exists_covered {text front back front' back' : List Char} (start : text = front ++ back)
    (stop : text = front' ++ back') (ordered : byteSize front ≤ byteSize front') :
    ∃ covered, front' = front ++ covered ∧ back = covered ++ back' := by
  rw [start] at stop
  rcases List.append_eq_append_iff.1 stop with ⟨covered, rfl, rfl⟩ | ⟨covered, rfl, rfl⟩
  · exact ⟨covered, rfl, rfl⟩
  · have none : covered = [] := by
      rw [byteSize_append] at ordered
      exact eq_nil_of_byteSize_eq_zero (by omega)
    exact ⟨[], by simp [none], by simp [none]⟩

/-- A text in front of a place adds its characters to the offset. -/
theorem offsetAt_append {source : String} {byte : Nat} (h : IsBoundary source.toList byte)
    (front : String) :
    offsetAt (front ++ source) (front.utf8ByteSize + byte) = front.length + offsetAt source byte := by
  obtain ⟨inner, back, split, rfl⟩ := h
  have whole : (front ++ source).toList = front.toList ++ inner ++ back := by
    rw [String.toList_append, split, List.append_assoc]
  rw [offsetAt, offsetAt, whole, split, utf8ByteSize_eq_byteSize, ← byteSize_append,
    charsBefore_byteSize, charsBefore_byteSize, List.length_append, String.length_toList]
  rfl

namespace Span

/-- A span of characters of a text, which may be none. -/
structure Inside (text : List Char) (span : Span) : Prop where
  starts : IsBoundary text span.start
  stops : IsBoundary text span.stop
  ordered : span.start ≤ span.stop

theorem inside_append (front covered back : List Char) :
    Inside (front ++ (covered ++ back)) ⟨byteSize front, byteSize front + byteSize covered⟩ where
  starts := isBoundary_byteSize front _
  stops := (isBoundary_byteSize covered back).shift front
  ordered := Nat.le_add_right _ _

variable {text : List Char} {span : Span}

theorem Inside.shift (h : span.Inside text) (front : List Char) :
    (span.shift (byteSize front)).Inside (front ++ text) where
  starts := h.starts.shift front
  stops := h.stops.shift front
  ordered := Nat.add_le_add_left h.ordered _

theorem Inside.exists_eq (h : span.Inside text) :
    ∃ front covered back, text = front ++ (covered ++ back) ∧
      byteSize front = span.start ∧ byteSize (front ++ covered) = span.stop := by
  obtain ⟨front, back, start, first⟩ := h.starts
  obtain ⟨front', back', stop, last⟩ := h.stops
  obtain ⟨covered, rfl, rfl⟩ := exists_covered start stop (by rw [first, last]; exact h.ordered)
  exact ⟨front, covered, back', start, first, last⟩

end Span

end Shorthand
