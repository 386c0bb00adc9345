import Shorthand.Numbering.Basic

/-! # Sequences of numbers

The replicas of a repeated node show an arithmetic sequence, which stops at the largest word.  Counted
downwards they show it in the opposite order.  As long as the sequence stays below the largest word and
moves at all, no two replicas show the same number, whichever way they are counted.
-/
namespace Shorthand

def indices (multiplier : UInt64) : List UInt64 :=
  (List.range' 1 multiplier.toNat).map Nat.toUInt64

theorem toNat_of_mem_range' {multiplier : UInt64} {n : Nat}
    (mem : n ∈ List.range' 1 multiplier.toNat) : n.toUInt64.toNat = n := by
  have bound := multiplier.toNat_lt
  rw [List.mem_range'_1] at mem
  exact UInt64.toNat_ofNat_of_lt' (by rw [UInt64.size]; omega)

theorem mem_indices {multiplier index : UInt64} :
    index ∈ indices multiplier ↔ 1 ≤ index ∧ index ≤ multiplier := by
  rw [indices, List.mem_map, UInt64.le_iff_toNat_le, UInt64.le_iff_toNat_le, UInt64.toNat_one]
  constructor
  · rintro ⟨n, mem, rfl⟩
    rw [toNat_of_mem_range' mem]
    rw [List.mem_range'_1] at mem
    omega
  · rintro ⟨low, high⟩
    refine ⟨index.toNat, List.mem_range'_1.2 (by omega), UInt64.ofNat_toNat⟩

theorem pairwise_indices (multiplier : UInt64) : (indices multiplier).Pairwise (· < ·) := by
  rw [indices, List.pairwise_map]
  refine List.Pairwise.imp_of_mem ?_ (List.pairwise_lt_range' 1)
  intro n m mem mem' lt
  rwa [UInt64.lt_iff_toNat_lt, toNat_of_mem_range' mem, toNat_of_mem_range' mem']

theorem length_indices (multiplier : UInt64) : (indices multiplier).length = multiplier.toNat := by
  rw [indices, List.length_map, List.length_range']

theorem one_le_of_ne_zero {word : UInt64} (h : word ≠ 0) : 1 ≤ word :=
  UInt64.le_iff_toNat_le.2 (UInt64.lt_iff_toNat_lt.1 (UInt64.pos_iff_ne_zero.2 h))

namespace Numbering

open Shorthand.Text (maxWord)

variable {numbering : Numbering} {index count : UInt64}

/-- How many replicas are counted before replica `index` of `count`. -/
def ahead (numbering : Numbering) (index count : UInt64) : Nat :=
  if numbering.reversed then count.toNat - index.toNat else index.toNat - 1

theorem ahead_lt (counted : 1 ≤ index) (within : index ≤ count) :
    numbering.ahead index count < count.toNat := by
  rw [UInt64.le_iff_toNat_le] at counted within
  rw [UInt64.toNat_one] at counted
  unfold ahead
  split <;> omega

theorem ahead_inj {one other : UInt64} (counted : 1 ≤ one) (within : one ≤ count)
    (counted' : 1 ≤ other) (within' : other ≤ count)
    (same : numbering.ahead one count = numbering.ahead other count) : one = other := by
  rw [UInt64.le_iff_toNat_le] at counted within counted' within'
  rw [UInt64.toNat_one] at counted counted'
  apply UInt64.toNat_inj.1
  unfold ahead at same
  split at same <;> omega

theorem toNat_position_sub (counted : 1 ≤ index) :
    (Saturating.sub (numbering.position index count) 1).toNat = numbering.ahead index count := by
  rw [UInt64.le_iff_toNat_le, UInt64.toNat_one] at counted
  have bound := count.toNat_lt
  rw [Saturating.toNat_sub, UInt64.toNat_one, position, ahead]
  split
  next =>
    rw [UInt64.toNat_add, Saturating.toNat_sub, UInt64.toNat_one]
    omega
  next => rfl

/-- A replica shows the start and one step more for each replica counted before it. -/
theorem toNat_number (counted : 1 ≤ index) :
    (numbering.number index count).toNat =
      min maxWord (numbering.start.toNat + numbering.ahead index count * numbering.step.toNat) := by
  simp only [number, Saturating.toNat_add, Saturating.toNat_mul, toNat_position_sub counted]
  omega

theorem toNat_number_of_fits (counted : 1 ≤ index) (within : index ≤ count)
    (fits : numbering.start.toNat + (count.toNat - 1) * numbering.step.toNat ≤ maxWord) :
    (numbering.number index count).toNat =
      numbering.start.toNat + numbering.ahead index count * numbering.step.toNat := by
  have behind : numbering.ahead index count < count.toNat := ahead_lt counted within
  have steps : numbering.ahead index count * numbering.step.toNat ≤
      (count.toNat - 1) * numbering.step.toNat := Nat.mul_le_mul_right _ (by omega)
  rw [toNat_number counted]
  omega

theorem number_inj {one other : UInt64} (moves : 1 ≤ numbering.step)
    (fits : numbering.start.toNat + (count.toNat - 1) * numbering.step.toNat ≤ maxWord)
    (counted : 1 ≤ one) (within : one ≤ count) (counted' : 1 ≤ other) (within' : other ≤ count)
    (same : numbering.number one count = numbering.number other count) : one = other := by
  have positive : 0 < numbering.step.toNat := UInt64.le_iff_toNat_le.1 moves
  have numbers := congrArg UInt64.toNat same
  rw [toNat_number_of_fits counted within fits, toNat_number_of_fits counted' within' fits,
    Nat.add_left_cancel_iff] at numbers
  exact ahead_inj counted within counted' within' (Nat.eq_of_mul_eq_mul_right positive numbers)

theorem number_plain (counted : index ≠ 0) (count : UInt64) : plain.number index count = index := by
  have first := one_le_of_ne_zero counted
  have bound := index.toNat_lt
  have forward : plain.ahead index count = index.toNat - 1 := rfl
  have start : plain.start.toNat = 1 := rfl
  have step : plain.step.toNat = 1 := rfl
  apply UInt64.toNat_inj.1
  rw [toNat_number first, forward, start, step, Saturating.maxWord_eq]
  rw [UInt64.le_iff_toNat_le, UInt64.toNat_one] at first
  omega

/-! ## Both directions -/

/-- The index of a replica is taken off the count first, so that one can be added without a carry out
of the word. -/
theorem toNat_sub_lt_maxWord (counted : 1 ≤ index) :
    (Saturating.sub count index).toNat < maxWord := by
  rw [UInt64.le_iff_toNat_le, UInt64.toNat_one] at counted
  have bound := count.toNat_lt
  rw [Saturating.toNat_sub, Saturating.maxWord_eq]
  omega

theorem toNat_position (counted : 1 ≤ index) :
    (numbering.position index count).toNat =
      if numbering.reversed then count.toNat - index.toNat + 1 else index.toNat := by
  have room : (Saturating.sub count index).toNat < maxWord := toNat_sub_lt_maxWord counted
  rw [Saturating.toNat_sub, Saturating.maxWord_eq] at room
  unfold position
  split
  · rw [UInt64.toNat_add, Saturating.toNat_sub, UInt64.toNat_one]
    omega
  · rfl

def sequence (numbering : Numbering) (count : UInt64) : List UInt64 :=
  (indices count).map fun index => numbering.number index count

theorem length_sequence : (numbering.sequence count).length = count.toNat := by
  rw [sequence, List.length_map, length_indices]

/-- The number in one place of the sequence, which stops at the largest word. -/
theorem toNat_getElem_sequence {place : Nat} (inside : place < (numbering.sequence count).length) :
    (numbering.sequence count)[place].toNat =
      min maxWord (numbering.start.toNat +
        (if numbering.reversed then count.toNat - (place + 1) else place) *
          numbering.step.toNat) := by
  have bound : place < count.toNat := by rwa [length_sequence] at inside
  have counts : place + 1 ∈ List.range' 1 count.toNat := List.mem_range'_1.2 (by omega)
  have word : (place + 1).toUInt64.toNat = place + 1 := toNat_of_mem_range' counts
  have counted : 1 ≤ (place + 1).toUInt64 := by
    rw [UInt64.le_iff_toNat_le, word, UInt64.toNat_one]
    omega
  have fits : place < (indices count).length := by rwa [length_indices]
  have index : (indices count)[place] = (place + 1).toUInt64 := by
    simp [indices, Nat.add_comm]
  simp only [sequence, List.getElem_map, index]
  rw [toNat_number counted, ahead, word, Nat.add_sub_cancel]

/-- Counted downwards, the replicas show the same numbers in the opposite order. -/
theorem sequence_reversed (numbering : Numbering) (count : UInt64) :
    sequence { numbering with reversed := true } count =
      (sequence { numbering with reversed := false } count).reverse := by
  apply List.ext_getElem
  · rw [List.length_reverse, length_sequence, length_sequence]
  · intro place inside inside'
    apply UInt64.toNat_inj.1
    rw [length_sequence] at inside
    rw [List.getElem_reverse, toNat_getElem_sequence, toNat_getElem_sequence, length_sequence,
      Nat.sub_sub, Nat.add_comm 1 place]
    rfl

theorem number_mono {one other : UInt64} (counted : 1 ≤ one) (counted' : 1 ≤ other)
    (le : numbering.ahead one count ≤ numbering.ahead other count) :
    numbering.number one count ≤ numbering.number other count := by
  have further : numbering.ahead one count * numbering.step.toNat ≤
      numbering.ahead other count * numbering.step.toNat := Nat.mul_le_mul_right _ le
  rw [UInt64.le_iff_toNat_le, toNat_number counted, toNat_number counted']
  omega

theorem pairwise_sequence (numbering : Numbering) (count : UInt64) :
    (numbering.sequence count).Pairwise fun one other =>
      if numbering.reversed then other ≤ one else one ≤ other := by
  rw [sequence, List.pairwise_map]
  refine List.Pairwise.imp_of_mem ?_ (pairwise_indices count)
  intro one other mem mem' before
  have counted : 1 ≤ one := (mem_indices.1 mem).1
  have counted' : 1 ≤ other := (mem_indices.1 mem').1
  rw [UInt64.lt_iff_toNat_lt] at before
  -- A replica further behind is counted later upwards and earlier downwards.
  split
  next downwards =>
    apply number_mono counted' counted
    simp only [ahead, downwards, if_true]
    omega
  next upwards =>
    apply number_mono counted counted'
    simp only [ahead, upwards, Bool.false_eq_true, if_false]
    omega

/-- Numbers are computed exactly up to the largest word: the only addition that is not checked stays
below it.  Counting downwards mirrors the sequence, which never falls upwards and never rises
downwards. -/
theorem number_exact (numbering : Numbering) :
    (∀ index count : UInt64, 1 ≤ index → index ≤ count →
      let place := if numbering.reversed then count.toNat - index.toNat + 1 else index.toNat
      (Saturating.sub count index).toNat + 1 ≤ maxWord ∧
        (numbering.position index count).toNat = place ∧
          (numbering.number index count).toNat =
            min maxWord (numbering.start.toNat + (place - 1) * numbering.step.toNat)) ∧
    ∀ count : UInt64,
      sequence { numbering with reversed := true } count =
        (sequence { numbering with reversed := false } count).reverse ∧
      (numbering.reversed = false → (numbering.sequence count).Pairwise (· ≤ ·)) ∧
      (numbering.reversed = true → (numbering.sequence count).Pairwise (· ≥ ·)) := by
  refine ⟨fun index count counted _ => ?_, fun count => ⟨sequence_reversed numbering count, ?_, ?_⟩⟩
  · refine ⟨toNat_sub_lt_maxWord counted, toNat_position counted, ?_⟩
    rw [toNat_number counted, ahead]
    split <;> rfl
  · intro upwards
    simpa [upwards] using pairwise_sequence numbering count
  · intro downwards
    simpa [downwards] using pairwise_sequence numbering count

/-- The first of as many replicas as there can be, counted downwards in the widest steps. -/
theorem number_exact_widest :
    let widest : Numbering := { start := 5, step := Saturating.top, reversed := true }
    (Saturating.sub Saturating.top 1).toNat + 1 ≤ maxWord ∧
      (widest.position 1 Saturating.top).toNat = maxWord ∧
        (widest.number 1 Saturating.top).toNat =
          min maxWord (5 + (maxWord - 1) * maxWord) := by
  intro widest
  exact (number_exact widest).1 1 Saturating.top (by decide) (by decide)

end Numbering

end Shorthand
