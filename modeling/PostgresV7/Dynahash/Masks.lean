import Mathlib.Tactic.Ring
import PostgresV7.Dynahash.Dynahash

/-!
# The two masks

The buckets run from `0` to `maxBucket`, which lies between `2 ^ j - 1` and
`2 ^ (j + 1) - 1`. A hash value goes to its low `j + 1` bits, or to its low `j`
bits when there is no such bucket yet. A bucket more takes keys from one old
bucket only.
-/

namespace PostgresV7.Dynahash

/-- The masks are those of the `j` with `maxBucket` between them. -/
def HashHeader.Masked (hctl : HashHeader) (j : Nat) : Prop :=
  hctl.lowMask = 2 ^ j - 1 ∧ hctl.highMask = 2 ^ (j + 1) - 1 ∧
    2 ^ j ≤ hctl.maxBucket + 1 ∧ hctl.maxBucket + 1 ≤ 2 ^ (j + 1)

variable {hctl : HashHeader} {j : Nat}

/-- The bucket of a hash value among the first `n` ones, `2 ^ j ≤ n ≤ 2 ^ (j + 1)`. -/
def foldedBucket (j n bits : Nat) : Nat :=
  if bits % 2 ^ (j + 1) < n then bits % 2 ^ (j + 1) else bits % 2 ^ j

theorem callHash_eq (h : hctl.Masked j) (hashVal : Int) :
    callHash hctl hashVal = foldedBucket j (hctl.maxBucket + 1) (hashVal % 2 ^ 64).toNat % 2 ^ 32 := by
  obtain ⟨hlow, hhigh, hle, hge⟩ := h
  unfold callHash foldedBucket
  dsimp only
  rw [hlow, hhigh, Nat.and_two_pow_sub_one_eq_mod, Nat.and_two_pow_sub_one_eq_mod]
  by_cases hlt : (hashVal % 2 ^ 64).toNat % 2 ^ (j + 1) < hctl.maxBucket + 1
  · rw [if_pos hlt, if_neg (by omega)]
  · have hgt : (hashVal % 2 ^ 64).toNat % 2 ^ (j + 1) > hctl.maxBucket := by omega
    rw [if_neg hlt, if_pos hgt, Nat.mod_mod_of_dvd _ (pow_dvd_pow 2 (Nat.le_succ j))]

theorem foldedBucket_lt {n : Nat} (bits : Nat) (hn : 2 ^ j ≤ n) : foldedBucket j n bits < n := by
  unfold foldedBucket
  split
  · assumption
  · exact Nat.lt_of_lt_of_le (Nat.mod_lt _ (Nat.two_pow_pos j)) hn

/-- `call_hash` answers with a bucket there is. -/
theorem callHash_le (h : hctl.Masked j) (hashVal : Int) :
    callHash hctl hashVal ≤ hctl.maxBucket := by
  rw [callHash_eq h]
  have hlt := foldedBucket_lt (hashVal % 2 ^ 64).toNat h.2.2.1
  have hmod := Nat.mod_le (foldedBucket j (hctl.maxBucket + 1) (hashVal % 2 ^ 64).toNat) (2 ^ 32)
  omega

/-- One bit more or less of a hash value. -/
theorem mod_two_pow_succ (bits j : Nat) :
    bits % 2 ^ (j + 1) = bits % 2 ^ j ∨ bits % 2 ^ (j + 1) = bits % 2 ^ j + 2 ^ j := by
  rw [pow_succ, Nat.mod_mul]
  rcases Nat.mod_two_eq_zero_or_one (bits / 2 ^ j) with h0 | h1
  · exact Or.inl (by rw [h0]; omega)
  · exact Or.inr (by rw [h1]; omega)

/-- With one bucket more, a hash value stays where it was or moves from the old
bucket to the new one. -/
theorem foldedBucket_succ (j n bits : Nat) :
    foldedBucket j (n + 1) bits = foldedBucket j n bits ∨
      (foldedBucket j n bits + 2 ^ j = n ∧ foldedBucket j (n + 1) bits = n) := by
  unfold foldedBucket
  rcases Nat.lt_trichotomy (bits % 2 ^ (j + 1)) n with h | h | h
  · exact Or.inl (by rw [if_pos h, if_pos (by omega)])
  · rw [if_neg (Nat.not_lt.mpr h.ge), if_pos (by omega)]
    rcases mod_two_pow_succ bits j with h0 | h1
    · exact Or.inl h0
    · exact Or.inr ⟨by omega, h⟩
  · exact Or.inl (by rw [if_neg (by omega), if_neg (by omega)])

/-- A full table is one where the next bit is not used yet. -/
theorem foldedBucket_full (bits : Nat) :
    foldedBucket j (2 ^ (j + 1)) bits = foldedBucket (j + 1) (2 ^ (j + 1)) bits := by
  have hlt := Nat.mod_lt bits (Nat.two_pow_pos (j + 1))
  unfold foldedBucket
  rw [if_pos hlt]
  split
  · rcases mod_two_pow_succ bits (j + 1) with h | h <;> omega
  · rfl

/-- The conversion to `uint32` leaves the two buckets as they are, or makes them
one. -/
theorem uint32_pair {k old : Nat} (hold : old < 2 ^ k) :
    (old + 2 ^ k) % 2 ^ 32 = old % 2 ^ 32 ∨ old + 2 ^ k < 2 ^ 32 := by
  rcases Nat.lt_or_ge k 32 with hk | hk
  · right
    calc old + 2 ^ k < 2 ^ (k + 1) := by rw [pow_succ]; omega
      _ ≤ 2 ^ 32 := Nat.pow_le_pow_right (by decide) hk
  · left
    obtain ⟨m, hm⟩ := pow_dvd_pow 2 hk
    rw [hm, Nat.add_mul_mod_self_left]

/-- The bucket `expand_table` splits. -/
def oldBucket (hctl : HashHeader) : Nat := (hctl.maxBucket + 1) &&& hctl.lowMask

theorem oldBucket_le (h : hctl.Masked j) : oldBucket hctl ≤ hctl.maxBucket := by
  have hlt := Nat.mod_lt (hctl.maxBucket + 1) (Nat.two_pow_pos j)
  have hle := h.2.2.1
  unfold oldBucket
  rw [h.1, Nat.and_two_pow_sub_one_eq_mod]
  omega

@[simp] theorem growMasks_maxBucket : (growMasks hctl).maxBucket = hctl.maxBucket + 1 := by
  unfold growMasks
  dsimp only
  split <;> rfl

/-- The masks stay around the number of buckets. The new bucket differs in one bit
from the old one, and up to now keys were placed without that bit. -/
theorem growMasks_masked (h : hctl.Masked j) :
    ∃ k, (growMasks hctl).Masked k ∧ oldBucket hctl < 2 ^ k ∧
      oldBucket hctl + 2 ^ k = hctl.maxBucket + 1 ∧
      ∀ hashVal, callHash hctl hashVal =
        foldedBucket k (hctl.maxBucket + 1) (hashVal % 2 ^ 64).toNat % 2 ^ 32 := by
  have heq := callHash_eq h
  obtain ⟨hlow, hhigh, hge, hle⟩ := h
  have hpos := Nat.two_pow_pos j
  have hsucc : 2 ^ (j + 1) = 2 * 2 ^ j := by rw [pow_succ, Nat.mul_comm]
  unfold oldBucket growMasks
  rw [hlow, hhigh, Nat.and_two_pow_sub_one_eq_mod]
  dsimp only
  rcases Nat.lt_or_eq_of_le hle with hlt | hfull
  · -- the masks do not change
    have hmod : (hctl.maxBucket + 1) % 2 ^ j = hctl.maxBucket + 1 - 2 ^ j := by
      rw [Nat.mod_eq_sub_mod hge, Nat.mod_eq_of_lt (by omega)]
    rw [if_neg (by omega), hmod]
    exact ⟨j, ⟨rfl, rfl, Nat.le_succ_of_le hge, hlt⟩, by omega, by omega, heq⟩
  · -- the new bucket crosses a power of two
    have hor : 2 ^ (j + 1) ||| (2 ^ (j + 1) - 1) = 2 ^ (j + 1) * 1 + (2 ^ (j + 1) - 1) := by
      rw [Nat.two_pow_add_eq_or_of_lt (by omega) 1, mul_one]
    rw [if_pos (by omega), hfull, hor]
    refine ⟨j + 1, ⟨rfl, ?_, Nat.le_succ _, ?_⟩, ?_, ?_, ?_⟩
    · show 2 ^ (j + 1) * 1 + (2 ^ (j + 1) - 1) = 2 ^ (j + 1 + 1) - 1
      rw [pow_succ 2 (j + 1)]
      omega
    · show 2 ^ (j + 1) + 1 ≤ 2 ^ (j + 1 + 1)
      rw [pow_succ 2 (j + 1)]
      omega
    · rw [hsucc, Nat.mul_mod_left]
      omega
    · rw [hsucc, Nat.mul_mod_left, Nat.zero_add]
    · intro hashVal
      rw [heq, hfull, foldedBucket_full]

/-- A new bucket takes keys from the old bucket only, and leaves all others where
they are. -/
theorem callHash_grow (h : hctl.Masked j) (hashVal : Int) :
    callHash (growMasks hctl) hashVal = callHash hctl hashVal ∨
      (callHash hctl hashVal = oldBucket hctl ∧
        callHash (growMasks hctl) hashVal = hctl.maxBucket + 1) := by
  obtain ⟨k, hk, hlt, hadd, hcall⟩ := growMasks_masked h
  rw [hcall, callHash_eq hk, growMasks_maxBucket]
  rcases foldedBucket_succ k (hctl.maxBucket + 1) (hashVal % 2 ^ 64).toNat with hs | ⟨h1, h2⟩
  · exact Or.inl (by rw [hs])
  · have hold : foldedBucket k (hctl.maxBucket + 1) (hashVal % 2 ^ 64).toNat = oldBucket hctl := by
      omega
    rw [h2, hold, ← hadd]
    rcases uint32_pair hlt with heq | hsmall
    · exact Or.inl heq
    · exact Or.inr ⟨Nat.mod_eq_of_lt (by omega), Nat.mod_eq_of_lt hsmall⟩

end PostgresV7.Dynahash
