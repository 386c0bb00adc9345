import Shorthand.Text.Numeral

/-! # Numbering of replicas

The replicas of a repeated element are numbered from `start` in steps of `step`, upwards or
downwards.  Numbers are 64-bit words, and every operation stops at the largest or smallest word.
-/
namespace Shorthand

namespace Saturating

open Shorthand.Text (maxWord)

def top : UInt64 := 0xffffffffffffffff

def add (a b : UInt64) : UInt64 := if a ≤ top - b then a + b else top

def sub (a b : UInt64) : UInt64 := if b ≤ a then a - b else 0

def mul (a b : UInt64) : UInt64 := if b = 0 then 0 else if a ≤ top / b then a * b else top

theorem toNat_top : top.toNat = maxWord := by decide

theorem maxWord_eq : maxWord = 18446744073709551615 := rfl

theorem toNat_add (a b : UInt64) : (add a b).toNat = min (maxWord) (a.toNat + b.toNat) := by
  have ha := a.toNat_lt
  have hb := b.toNat_lt
  have hm := maxWord_eq
  have bound : (top - b).toNat = maxWord - b.toNat := by
    rw [UInt64.toNat_sub_of_le _ _ (by rw [UInt64.le_iff_toNat_le, toNat_top]; omega), toNat_top]
  unfold add
  split
  next h =>
    rw [UInt64.le_iff_toNat_le, bound] at h
    rw [UInt64.toNat_add]
    omega
  next h =>
    rw [UInt64.le_iff_toNat_le, bound] at h
    rw [toNat_top]
    omega

theorem toNat_sub (a b : UInt64) : (sub a b).toNat = a.toNat - b.toNat := by
  unfold sub
  split
  next h => exact UInt64.toNat_sub_of_le _ _ h
  next h =>
    rw [UInt64.le_iff_toNat_le] at h
    simp
    omega

theorem toNat_mul (a b : UInt64) : (mul a b).toNat = min (maxWord) (a.toNat * b.toNat) := by
  have hm := maxWord_eq
  unfold mul
  split
  next h => simp [h]
  next h =>
    have positive : 0 < b.toNat := Nat.pos_of_ne_zero fun e => h (UInt64.toNat_inj.1 (by simpa using e))
    split
    next fits =>
      rw [UInt64.le_iff_toNat_le, UInt64.toNat_div, toNat_top, Nat.le_div_iff_mul_le positive] at fits
      rw [UInt64.toNat_mul]
      omega
    next exceeds =>
      rw [UInt64.le_iff_toNat_le, UInt64.toNat_div, toNat_top, Nat.le_div_iff_mul_le positive]
        at exceeds
      rw [toNat_top]
      omega

end Saturating

structure Numbering where
  start : UInt64 := 1
  step : UInt64 := 1
  reversed : Bool := false
deriving DecidableEq, Repr, Inhabited

namespace Numbering

def plain : Numbering := {}

def isPlain (numbering : Numbering) : Bool := numbering = plain

/-- The place of a replica in the direction of counting, from 1. -/
def position (numbering : Numbering) (index count : UInt64) : UInt64 :=
  if numbering.reversed then Saturating.sub count index + 1 else index

/-- The number shown by replica `index` (from 1, in the order of the output) of `count`. -/
def number (numbering : Numbering) (index count : UInt64) : UInt64 :=
  let ahead := Saturating.sub (numbering.position index count) 1
  Saturating.add numbering.start (Saturating.mul ahead numbering.step)

end Numbering

end Shorthand
