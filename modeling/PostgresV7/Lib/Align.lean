import Mathlib.Data.Nat.Basic
import Mathlib.Algebra.Order.Group.Nat

/-!
# Rounding up to an alignment

`alignUp a n` is the least multiple of `a` that is at least `n`. Everything
about it follows from the two bounds and the divisibility below.
-/

namespace Align

/-- The least multiple of `a` at or above `n`. -/
def alignUp (a n : Nat) : Nat := (n + (a - 1)) / a * a

theorem dvd_alignUp (a n : Nat) : a ∣ alignUp a n := Nat.dvd_mul_left a _

theorem le_alignUp {a : Nat} (ha : 0 < a) (n : Nat) : n ≤ alignUp a n := by
  have hm := Nat.mod_lt (n + (a - 1)) ha
  have hd := Nat.div_add_mod' (n + (a - 1)) a
  unfold alignUp
  omega

theorem alignUp_lt {a : Nat} (ha : 0 < a) (n : Nat) : alignUp a n < n + a := by
  have hd := Nat.div_mul_le_self (n + (a - 1)) a
  unfold alignUp
  omega

theorem alignUp_of_dvd {a n : Nat} (ha : 0 < a) (h : a ∣ n) : alignUp a n = n := by
  obtain ⟨k, rfl⟩ := h
  unfold alignUp
  rw [Nat.mul_add_div ha, Nat.div_eq_of_lt (by omega : a - 1 < a), Nat.add_zero, Nat.mul_comm]

theorem alignUp_mono {a m n : Nat} (h : m ≤ n) : alignUp a m ≤ alignUp a n :=
  Nat.mul_le_mul_right a (Nat.div_le_div_right (by omega))

/-- The least multiple: nothing below it is both aligned and large enough. -/
theorem alignUp_le {a m n : Nat} (ha : 0 < a) (hm : a ∣ m) (h : n ≤ m) : alignUp a n ≤ m := by
  rw [← alignUp_of_dvd ha hm]
  exact alignUp_mono h

/-- Offsets from an aligned base may be aligned with or without the base. -/
theorem alignUp_add_of_dvd {a b n : Nat} (ha : 0 < a) (h : a ∣ b) :
    alignUp a (b + n) = b + alignUp a n := by
  obtain ⟨k, rfl⟩ := h
  unfold alignUp
  rw [Nat.add_assoc, Nat.mul_add_div ha, Nat.add_mul, Nat.mul_comm k a]

end Align
