/-! # Spans of a source text

A span is a range of byte positions.  Messages count characters instead, so a byte position is
turned into the number of characters in front of it.
-/
namespace Shorthand

/-- The bytes from `start` up to `stop`, without `stop`. -/
structure Span where
  start : Nat
  stop : Nat
deriving DecidableEq, Repr, Inhabited

namespace Span

def size (span : Span) : Nat := span.stop - span.start

def shift (distance : Nat) (span : Span) : Span := ⟨distance + span.start, distance + span.stop⟩

end Span

def byteSize : List Char → Nat
  | [] => 0
  | c :: rest => c.utf8Size + byteSize rest

@[simp] theorem byteSize_append (front back : List Char) :
    byteSize (front ++ back) = byteSize front + byteSize back := by
  induction front with
  | nil => simp [byteSize]
  | cons c front ih => simp [byteSize, ih, Nat.add_assoc]

/-- The characters in front of a byte position, if that position is a character's start or the end
of the text. -/
def charsBefore : List Char → Nat → Option Nat
  | _, 0 => some 0
  | [], _ + 1 => none
  | c :: rest, byte =>
    if c.utf8Size ≤ byte then (charsBefore rest (byte - c.utf8Size)).map (· + 1) else none

theorem charsBefore_byteSize (front back : List Char) :
    charsBefore (front ++ back) (byteSize front) = some front.length := by
  induction front with
  | nil => simp [byteSize, charsBefore]
  | cons c front ih =>
    have positive : 0 < c.utf8Size := c.utf8Size_pos
    obtain ⟨byte, hbyte⟩ : ∃ byte, byteSize (c :: front) = byte + 1 :=
      ⟨c.utf8Size + byteSize front - 1, by simp only [byteSize]; omega⟩
    have rest : byte + 1 - c.utf8Size = byteSize front := by simp only [byteSize] at hbyte; omega
    have fits : c.utf8Size ≤ byte + 1 := by simp only [byteSize] at hbyte; omega
    simp [hbyte, charsBefore, fits, rest, ih]

/-- The offset reported for a byte position: the characters in front of it, or the position itself
if it is not between two characters of the source. -/
def offsetAt (source : String) (byte : Nat) : Nat :=
  (charsBefore source.toList byte).getD byte

end Shorthand
