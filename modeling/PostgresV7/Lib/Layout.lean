import PostgresV7.Lib.Align

/-!
# Fields laid out one after another

Field `i` starts at the next multiple of its alignment after the fields before
it; a skipped field takes no room. How long a field is may depend on where it
was placed, so one definition serves the writer, who knows the sizes, and a
reader who finds them in the data.
-/

namespace Layout

open Align

variable (align : Nat → Nat) (size : Nat → Nat → Nat) (skip : Nat → Bool)

/-- Where the first `i` fields end. -/
def stop : Nat → Nat
  | 0 => 0
  | i + 1 =>
    if skip i then stop i
    else alignUp (align i) (stop i) + size i (alignUp (align i) (stop i))

/-- Where field `i` starts, if it is there. -/
def start (i : Nat) : Nat := alignUp (align i) (stop align size skip i)

variable {align size skip}

theorem stop_succ_of_skip {i : Nat} (h : skip i = true) :
    stop align size skip (i + 1) = stop align size skip i := by
  rw [stop, if_pos h]

theorem stop_succ {i : Nat} (h : skip i = false) :
    stop align size skip (i + 1) =
      start align size skip i + size i (start align size skip i) := by
  rw [stop, if_neg (by simp [h])]
  rfl

theorem stop_le_start (ha : ∀ i, 0 < align i) (i : Nat) :
    stop align size skip i ≤ start align size skip i := le_alignUp (ha i) _

theorem stop_le_succ (ha : ∀ i, 0 < align i) (i : Nat) :
    stop align size skip i ≤ stop align size skip (i + 1) := by
  cases h : skip i with
  | true => rw [stop_succ_of_skip h]
  | false =>
    have hs : stop align size skip i ≤ start align size skip i := stop_le_start ha i
    rw [stop_succ h]
    omega

theorem stop_mono (ha : ∀ i, 0 < align i) {i j : Nat} (h : i ≤ j) :
    stop align size skip i ≤ stop align size skip j := by
  induction h with
  | refl => exact Nat.le_refl _
  | step _ ih => exact ih.trans (stop_le_succ ha _)

/-- Fields that are skipped only save room. -/
theorem stop_le_of_skip {size : Nat → Nat} {skip' : Nat → Bool} {n : Nat} (ha : ∀ i, 0 < align i)
    (hk : ∀ i, i < n → skip' i = true → skip i = true) :
    stop align (fun i _ => size i) skip n ≤ stop align (fun i _ => size i) skip' n := by
  induction n with
  | zero => exact Nat.le_refl _
  | succ n ih =>
    have hn := ih fun i hi => hk i (by omega)
    cases h : skip n with
    | true =>
      rw [stop_succ_of_skip h]
      exact hn.trans (stop_le_succ ha n)
    | false =>
      have h' : skip' n = false := by
        cases hs : skip' n with
        | true => exact (hk n (Nat.lt_succ_self n) hs).symm.trans h
        | false => rfl
      rw [stop_succ h, stop_succ h']
      exact Nat.add_le_add_right (alignUp_mono hn) _

/-- The layout of the first fields depends on those fields only. -/
theorem stop_congr {align' : Nat → Nat} {size' : Nat → Nat → Nat} {skip' : Nat → Bool} {n : Nat}
    (ha : ∀ i, i < n → align' i = align i) (hk : ∀ i, i < n → skip' i = skip i)
    (hs : ∀ i, i < n → skip i = false →
      size' i (start align size skip i) = size i (start align size skip i)) :
    stop align' size' skip' n = stop align size skip n := by
  induction n with
  | zero => rfl
  | succ n ih =>
    have hn := ih (fun i hi => ha i (by omega)) (fun i hi => hk i (by omega))
      (fun i hi => hs i (by omega))
    have hstart : start align' size' skip' n = start align size skip n := by
      rw [start, start, hn, ha n (Nat.lt_succ_self n)]
    have hkn := hk n (Nat.lt_succ_self n)
    cases h : skip n with
    | true => rw [stop_succ_of_skip h, stop_succ_of_skip (by rw [hkn, h]), hn]
    | false =>
      rw [stop_succ h, stop_succ (by rw [hkn, h]), hstart, hs n (Nat.lt_succ_self n) h]

theorem start_congr {align' : Nat → Nat} {size' : Nat → Nat → Nat} {skip' : Nat → Bool} {n : Nat}
    (ha : ∀ i, i ≤ n → align' i = align i) (hk : ∀ i, i < n → skip' i = skip i)
    (hs : ∀ i, i < n → skip i = false →
      size' i (start align size skip i) = size i (start align size skip i)) :
    start align' size' skip' n = start align size skip n := by
  rw [start, start, stop_congr (fun i hi => ha i (by omega)) hk hs, ha n (Nat.le_refl n)]

end Layout
