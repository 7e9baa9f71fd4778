import PostgresV7.Strings.StringinfoRun

/-!
# How far an extensible string can grow

The sizes an `int` can hold are `256` to `2 ^ 30`; the next doubling overflows.
-/

namespace PostgresV7.Strings

open ByteMem Outcomes

variable {repalloc : Repalloc} {rounds : Nat} {str str' : StringInfo} {bytes : List UInt8}

/-- What a program can have made of a string. -/
def Reachable (str : StringInfo) : Prop :=
  ∃ (repalloc : Repalloc) (rounds : Nat) (fresh : Mem) (calls : List Call),
    (∀ c ∈ calls, c.Documented) ∧ runCalls repalloc rounds (initStringInfo fresh) calls = .ok str

/-- From some number of rounds on, a string that is enlarged by `datalen` has the room, or `repalloc` has
refused the size, and no store goes past the buffer. -/
def Enlarges (repalloc : Repalloc) (str : StringInfo) (datalen : Nat) : Prop :=
  ∃ enough, ∀ rounds ≥ enough,
    Ends (· = .refused) (enlargeStringInfo repalloc rounds str datalen) (fun str' => str.len + datalen + 1 ≤ str'.maxlen) ∧
    ∀ data : List UInt8, data.length = datalen →
      appendBinaryStringInfo repalloc rounds str data ≠ .error .outOfBounds

theorem Reachable.holds (h : Reachable str) : ∃ bytes, Holds str bytes := by
  obtain ⟨repalloc, rounds, fresh, calls, hcalls, hrun⟩ := h
  exact ⟨_, (holds_init fresh).calls_inv hcalls hrun⟩

/-- Doubling from a size of the buffer does not reach more than `2 ^ 30` bytes. -/
theorem doubling_long (rounds : Nat) {needed : Int} {k : Nat} (hlong : 2 ^ 30 < needed)
    (hsmall : ((256 * 2 ^ k : Nat) : Int) ≤ INT_MAX) :
    doubling needed rounds (256 * 2 ^ k : Nat) = .error .overflow ∨
      doubling needed rounds (256 * 2 ^ k : Nat) = .error .endless := by
  induction rounds generalizing k with
  | zero => exact .inr rfl
  | succ rounds ih =>
    have hle := Int.ofNat_le.mpr (le_of_doubled rfl hsmall).2
    have hlt : ((256 * 2 ^ k : Nat) : Int) < needed := Int.lt_of_le_of_lt hle hlong
    have hdouble : 2 * ((256 * 2 ^ k : Nat) : Int) = ((256 * 2 ^ (k + 1) : Nat) : Int) := by
      rw [pow_succ]
      push_cast
      ring
    rw [doubling, if_pos hlt, hdouble]
    by_cases hmax : ((256 * 2 ^ (k + 1) : Nat) : Int) ≤ INT_MAX
    · rw [int_ok ⟨by unfold INT_MIN; omega, hmax⟩, ok_bind]
      exact ih hmax
    · left
      rw [int_overflow hmax]
      rfl

theorem Buffered.enlarge_long {n : Nat} (h : Buffered str bytes) (repalloc : Repalloc) (rounds : Nat)
    (hlong : 2 ^ 30 < bytes.length + n + 1) :
    enlargeStringInfo repalloc rounds str n = .error .overflow ∨
      enlargeStringInfo repalloc rounds str n = .error .endless := by
  have hsize := h.size_le
  have hneed : (n : Int) + ((bytes.length + 1 : Nat) : Int) = ((bytes.length + n + 1 : Nat) : Int) := by
    push_cast
    ring
  unfold enlargeStringInfo
  rw [h.len_succ, ok_bind, hneed]
  by_cases hmax : ((bytes.length + n + 1 : Nat) : Int) ≤ INT_MAX
  · rw [int_ok ⟨by unfold INT_MIN; omega, hmax⟩, ok_bind, if_neg (by rw [h.maxlen]; omega)]
    obtain ⟨k, hk⟩ := h.doubled
    have hdouble : 2 * str.maxlen = ((256 * 2 ^ (k + 1) : Nat) : Int) := by
      rw [h.maxlen, hk, pow_succ]
      push_cast
      ring
    rw [hdouble]
    by_cases hfirst : ((256 * 2 ^ (k + 1) : Nat) : Int) ≤ INT_MAX
    · rw [int_ok ⟨by unfold INT_MIN; omega, hfirst⟩, ok_bind]
      have hneeded : (2 ^ 30 : Int) < ((bytes.length + n + 1 : Nat) : Int) := by exact_mod_cast hlong
      rcases doubling_long rounds hneeded hfirst with hrun | hrun
      · rw [hrun]
        exact .inl rfl
      · rw [hrun]
        exact .inr rfl
    · rw [int_overflow hfirst]
      exact .inl rfl
  · rw [int_overflow hmax]
    exact .inl rfl

/-- Up to `2 ^ 30` bytes the doubling ends. -/
theorem Buffered.enlarge_short {n : Nat} (h : Buffered str bytes) (hshort : bytes.length + n + 1 ≤ 2 ^ 30)
    (hrounds : 31 ≤ rounds) :
    enlargeStringInfo repalloc rounds str n = .error .refused ∨
      ∃ str', enlargeStringInfo repalloc rounds str n = .ok str' := by
  obtain ⟨k₀, hk₀⟩ := h.doubled
  have hk₀le := (le_of_doubled hk₀ h.small).1
  have hlast : str.size * 2 ^ (22 - k₀) = 2 ^ 30 := by
    rw [hk₀, mul_assoc, ← pow_add, Nat.add_sub_cancel' hk₀le]
    rfl
  have hreach : ∃ k, bytes.length + n + 1 ≤ str.size * 2 ^ k := ⟨22 - k₀, by rwa [hlast]⟩
  have hfirst : Nat.find hreach ≤ 22 - k₀ := Nat.find_le (by rwa [hlast])
  have hmax : str.size * 2 ^ Nat.find hreach ≤ 2 ^ 30 := by
    rw [← hlast]
    exact Nat.mul_le_mul_left _ (Nat.pow_le_pow_right (by decide) hfirst)
  rcases h.enlarge (fun j hj => Nat.not_le.mp (Nat.find_min hreach hj)) (Nat.find_spec hreach)
    (by unfold INT_MAX; omega) hrounds with ⟨hrefused, -⟩ | ⟨str', hok, -⟩
  · exact .inl hrefused
  · exact .inr ⟨str', hok⟩

theorem Buffered.enlarges_iff_le (h : Buffered str bytes) (repalloc : Repalloc) (datalen : Nat) :
    Enlarges repalloc str datalen ↔ bytes.length + datalen + 1 ≤ 2 ^ 30 := by
  constructor
  · rintro ⟨enough, hends⟩
    have hends := (hends enough (Nat.le_refl _)).1
    by_contra hlong
    rcases h.enlarge_long repalloc enough (Nat.not_le.mp hlong) with hrun | hrun
    · rw [hrun] at hends
      cases hends
    · rw [hrun] at hends
      cases hends
  · intro hshort
    refine ⟨31, fun rounds hrounds => ?_⟩
    rcases h.enlarge_short hshort hrounds with hrefused | ⟨str', hok⟩
    · refine ⟨by rw [hrefused]; rfl, fun data hdata hrun => ?_⟩
      unfold appendBinaryStringInfo at hrun
      dsimp only at hrun
      rw [hdata, hrefused] at hrun
      cases hrun
    · obtain ⟨h', hroom, -⟩ := h.enlarge_inv hok
      refine ⟨?_, fun data hdata hrun => ?_⟩
      · rw [hok]
        show str.len + datalen + 1 ≤ str'.maxlen
        rw [h.len, h'.maxlen]
        exact hroom
      · obtain ⟨str₂, happend, -⟩ := h'.append data (by omega)
        unfold appendBinaryStringInfo at hrun
        dsimp only at hrun
        rw [hdata, hok, ok_bind, ← hdata] at hrun
        cases happend.symm.trans hrun

/-- A string a program has can be enlarged exactly up to `2 ^ 30` bytes. -/
theorem enlarges_iff (str : StringInfo) (hstr : Reachable str) (repalloc : Repalloc) (datalen : Nat) :
    Enlarges repalloc str datalen ↔ str.len + datalen + 1 ≤ 2 ^ 30 := by
  obtain ⟨bytes, h⟩ := hstr.holds
  rw [h.toBuffered.enlarges_iff_le, h.len]
  exact_mod_cast Iff.rfl

theorem reachable_init : Reachable (initStringInfo fun _ => 0) :=
  ⟨fun _ => none, 0, fun _ => 0, [], fun _ hc => absurd hc List.not_mem_nil, rfl⟩

/-- A new string has room for `2 ^ 30 - 1` bytes. -/
theorem enlarges_iff_init : Reachable (initStringInfo fun _ => 0) ∧
    Enlarges (fun _ => some fun _ => 0) (initStringInfo fun _ => 0) (2 ^ 30 - 1) :=
  ⟨reachable_init, (enlarges_iff _ reachable_init _ _).mpr (by decide)⟩

/-- A new string to which `2 ^ 30` bytes are appended. -/
theorem not_enlarges_init : Reachable (initStringInfo fun _ => 0) ∧
    ¬ Enlarges (fun _ => some fun _ => 0) (initStringInfo fun _ => 0) (2 ^ 30) := by
  refine ⟨reachable_init, fun henlarges => ?_⟩
  have hle := ((holds_init fun _ => 0).toBuffered.enlarges_iff_le _ _).mp henlarges
  exact absurd hle (by decide)

end PostgresV7.Strings
