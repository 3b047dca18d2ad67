import Mathlib.Algebra.Group.Nat.Defs
import Mathlib.Tactic.Common

/-! Counters of which only the low sixteen bits are on the wire. A counter is held as the total it has
been advanced to; two totals that are less than `2 ^ 15` apart can be told apart, and compared, by their
low bits. -/

namespace serial

/-- The part of a counter that is on the wire. -/
def wrap (total : Nat) : UInt16 := UInt16.ofNat total

/-- The counter advanced to the next total with the given low bits. -/
def advance_to (total : Nat) (value : UInt16) : Nat := total + (value - wrap total).toNat

/-- Two totals that are close enough for their low bits to decide which is ahead. -/
def Close (s t : Nat) : Prop := s < t + 2 ^ 15 ∧ t < s + 2 ^ 15

section
variable {s t : Nat}

theorem toNat_wrap (total : Nat) : (wrap total).toNat = total % 2 ^ 16 := UInt16.toNat_ofNat'

theorem wrap_succ (total : Nat) : wrap (total + 1) = wrap total + 1 := by
  apply UInt16.toNat.inj
  rw [UInt16.toNat_add, toNat_wrap, toNat_wrap, UInt16.toNat_one]
  omega

/-- The distance to a total that is ahead. -/
theorem toNat_wrap_sub (h : t ≤ s) (hclose : s < t + 2 ^ 16) : (wrap s - wrap t).toNat = s - t := by
  rw [UInt16.toNat_sub, toNat_wrap, toNat_wrap]
  omega

/-- The distance to a total that is behind goes around. -/
theorem toNat_wrap_sub_of_lt (h : s < t) (hclose : t < s + 2 ^ 16) : (wrap s - wrap t).toNat = 2 ^ 16 - (t - s) := by
  rw [UInt16.toNat_sub, toNat_wrap, toNat_wrap]
  omega

theorem wrap_inj (hs : s < t + 2 ^ 16) (ht : t < s + 2 ^ 16) (h : wrap s = wrap t) : s = t := by
  have hmod := congrArg UInt16.toNat h
  rw [toNat_wrap, toNat_wrap] at hmod
  omega

theorem Close.wrap_sub_lt_iff (hclose : Close s t) : (wrap s - wrap t).toNat < 2 ^ 15 ↔ t ≤ s := by
  obtain ⟨hs, ht⟩ := hclose
  by_cases hle : t ≤ s
  · rw [toNat_wrap_sub hle (by omega)]
    simp only [hle, iff_true]
    omega
  · rw [toNat_wrap_sub_of_lt (by omega) (by omega)]
    simp only [hle, iff_false]
    omega

end

end serial
