import Mathlib.Data.Nat.Basic
import Mathlib.Tactic.Ring

/-!
# Byte-addressed memory

A memory is a total function from addresses to bytes. Every write below is an
instance of `write`, so two facts about it, what it stores inside its range and
that it stores nothing outside, carry all the others. Numbers are little-endian
and of any width.
-/

namespace ByteMem

/-- A byte-addressed memory. -/
abbrev Mem := Nat → UInt8

/-- Store `n` bytes of `src` from address `a` on. -/
def write (m : Mem) (a n : Nat) (src : Nat → UInt8) : Mem :=
  fun b => if a ≤ b ∧ b < a + n then src (b - a) else m b

/-- `memmove`: the source is read before the destination is written. -/
def copy (m : Mem) (dst src n : Nat) : Mem := write m dst n (fun i => m (src + i))

/-- The little-endian number in the `n` bytes from `a` on. -/
def load (m : Mem) : Nat → Nat → Nat
  | _, 0 => 0
  | a, n + 1 => (m a).toNat + 256 * load m (a + 1) n

/-- Store the low `n` bytes of `v`, little-endian, from `a` on. -/
def store (m : Mem) (a n v : Nat) : Mem := write m a n (fun i => UInt8.ofNat (v / 256 ^ i))

/-- The `n` bytes from `a` on, as a list. -/
def slice (m : Mem) (a n : Nat) : List UInt8 := (List.range n).map (fun i => m (a + i))

theorem write_inside (m : Mem) (a n : Nat) (src : Nat → UInt8) {i : Nat} (h : i < n) :
    write m a n src (a + i) = src i := by
  unfold write
  rw [if_pos (by omega), Nat.add_sub_cancel_left]

theorem write_outside (m : Mem) (a n : Nat) (src : Nat → UInt8) {b : Nat}
    (h : b < a ∨ a + n ≤ b) : write m a n src b = m b := by
  unfold write
  rw [if_neg (by omega)]

theorem copy_inside (m : Mem) (dst src n : Nat) {i : Nat} (h : i < n) :
    copy m dst src n (dst + i) = m (src + i) := write_inside m dst n _ h

theorem copy_outside (m : Mem) (dst src n : Nat) {b : Nat} (h : b < dst ∨ dst + n ≤ b) :
    copy m dst src n b = m b := write_outside m dst n _ h

theorem store_outside (m : Mem) (a n v : Nat) {b : Nat} (h : b < a ∨ a + n ≤ b) :
    store m a n v b = m b := write_outside m a n _ h

/-- A load depends on the bytes it covers and on nothing else. -/
theorem load_congr {m m' : Mem} {a a' n : Nat} (h : ∀ i, i < n → m (a + i) = m' (a' + i)) :
    load m a n = load m' a' n := by
  induction n generalizing a a' with
  | zero => rfl
  | succ n ih =>
    have h0 := h 0 (by omega)
    simp only [Nat.add_zero] at h0
    have ht : load m (a + 1) n = load m' (a' + 1) n := by
      apply ih
      intro i hi
      have h1 := h (i + 1) (by omega)
      rwa [show a + (i + 1) = a + 1 + i by omega, show a' + (i + 1) = a' + 1 + i by omega] at h1
    simp only [load, h0, ht]

theorem load_lt (m : Mem) (a n : Nat) : load m a n < 256 ^ n := by
  induction n generalizing a with
  | zero => simp [load]
  | succ n ih =>
    have h := ih (a + 1)
    have hb := (m a).toNat_lt
    simp only [load, Nat.pow_succ]
    omega

/-- What a store leaves at its own address, truncated to the width stored. -/
theorem load_store (m : Mem) (a n v : Nat) : load (store m a n v) a n = v % 256 ^ n := by
  induction n generalizing m a v with
  | zero => simp [load, Nat.mod_one]
  | succ n ih =>
    have h0 : store m a (n + 1) v a = UInt8.ofNat v := by
      have h := write_inside m a (n + 1) (fun i => UInt8.ofNat (v / 256 ^ i)) (i := 0) (by omega)
      simpa [store] using h
    have ht : load (store m a (n + 1) v) (a + 1) n = v / 256 % 256 ^ n := by
      rw [← ih m (a + 1) (v / 256)]
      apply load_congr
      intro i hi
      have h1 := write_inside m a (n + 1) (fun i => UInt8.ofNat (v / 256 ^ i)) (i := i + 1) (by omega)
      have h2 := write_inside m (a + 1) n (fun i => UInt8.ofNat (v / 256 / 256 ^ i)) (i := i) hi
      rw [show a + (i + 1) = a + 1 + i by omega] at h1
      unfold store
      rw [h1, h2, Nat.div_div_eq_div_mul, Nat.pow_succ, Nat.mul_comm]
    have hb : (UInt8.ofNat v).toNat = v % 256 := UInt8.toNat_ofNat'
    rw [load, h0, ht, hb, Nat.pow_succ, Nat.mul_comm (256 ^ n) 256, Nat.mod_mul]

/-- Reading back the bytes of a number. -/
theorem load_of_bytes {m : Mem} {a n v : Nat}
    (h : ∀ i, i < n → m (a + i) = UInt8.ofNat (v / 256 ^ i)) : load m a n = v % 256 ^ n := by
  rw [← load_store m a n v]
  apply load_congr
  intro i hi
  rw [h i hi, store, write_inside m a n _ hi]

/-- The bytes of a loaded number. -/
theorem ofNat_load (m : Mem) (a n : Nat) {i : Nat} (h : i < n) :
    UInt8.ofNat (load m a n / 256 ^ i) = m (a + i) := by
  induction n generalizing a i with
  | zero => omega
  | succ n ih =>
    have hb := (m a).toNat_lt
    cases i with
    | zero =>
      have hmod : load m a (n + 1) % 256 = (m a).toNat := by
        simp only [load]
        omega
      apply UInt8.toNat_inj.mp
      rw [UInt8.toNat_ofNat', pow_zero, Nat.div_one, Nat.add_zero]
      exact hmod
    | succ i =>
      have hdiv : load m a (n + 1) / 256 = load m (a + 1) n := by
        simp only [load]
        omega
      have hrest := ih (a + 1) (Nat.lt_of_succ_lt_succ h)
      rw [Nat.pow_succ', ← Nat.div_div_eq_div_mul, hdiv, hrest, Nat.add_assoc, Nat.add_comm 1 i]

/-- Storing what was loaded changes nothing. -/
theorem store_load (m : Mem) (a n : Nat) : store m a n (load m a n) = m := by
  funext b
  by_cases hb : a ≤ b ∧ b < a + n
  · obtain ⟨i, rfl⟩ := Nat.exists_eq_add_of_le hb.1
    have hi : i < n := by omega
    unfold store
    rw [write_inside m a n _ hi, ofNat_load m a n hi]
  · exact store_outside m a n _ (by omega)

/-- A load is unchanged by a write next to it. -/
theorem load_write_disjoint (m : Mem) {a n b k : Nat} (src : Nat → UInt8)
    (h : a + n ≤ b ∨ b + k ≤ a) : load (write m b k src) a n = load m a n :=
  load_congr fun _ _ => write_outside m b k src (by omega)

theorem load_store_disjoint (m : Mem) {a n b k v : Nat} (h : a + n ≤ b ∨ b + k ≤ a) :
    load (store m b k v) a n = load m a n := load_write_disjoint m _ h

@[simp] theorem length_slice (m : Mem) (a n : Nat) : (slice m a n).length = n := by
  simp [slice]

theorem getElem_slice (m : Mem) (a n : Nat) {i : Nat} (h : i < (slice m a n).length) :
    (slice m a n)[i] = m (a + i) := by
  simp [slice]

theorem slice_congr {m m' : Mem} {a a' n : Nat} (h : ∀ i, i < n → m (a + i) = m' (a' + i)) :
    slice m a n = slice m' a' n := by
  unfold slice
  apply List.map_congr_left
  intro i hi
  exact h i (List.mem_range.mp hi)

theorem slice_eq_iff {m : Mem} {a : Nat} {l : List UInt8} :
    slice m a l.length = l ↔ ∀ (i : Nat) (hi : i < l.length), m (a + i) = l[i] := by
  constructor
  · intro h i hi
    have hs : i < (slice m a l.length).length := by simpa using hi
    rw [← getElem_slice m a l.length hs]
    exact List.getElem_of_eq h hs
  · intro h
    apply List.ext_getElem
    · simp
    · intro i h1 h2
      rw [getElem_slice m a l.length h1, h i h2]

end ByteMem
