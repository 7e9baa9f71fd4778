import Mathlib.Algebra.Group.Nat.Defs
import Mathlib.Data.List.Basic

/-!
# Regions of memory and allocators

An allocator answers a request with an address or refuses it. Its contract is a
field: what it hands out overlaps nothing that is still allocated. It may answer
the same request differently at different times, so the number of the call is an
argument.
-/

namespace Regions

structure Region where
  base : Nat
  size : Nat
  deriving DecidableEq, Repr

/-- No byte in common. -/
def Region.Apart (r s : Region) : Prop := r.base + r.size ≤ s.base ∨ s.base + s.size ≤ r.base

/-- The address is inside the region. -/
def Region.Holds (r : Region) (a : Nat) : Prop := r.base ≤ a ∧ a < r.base + r.size

instance (r s : Region) : Decidable (r.Apart s) := inferInstanceAs (Decidable (_ ∨ _))

theorem Region.Apart.symm {r s : Region} (h : r.Apart s) : s.Apart r := Or.symm h

theorem Region.Apart.ne {r s : Region} {a b : Nat} (h : r.Apart s) (ha : r.Holds a)
    (hb : s.Holds b) : a ≠ b := by
  unfold Region.Apart at h
  unfold Region.Holds at ha hb
  omega

/-- An allocator, with its contract. -/
structure Allocator where
  answer : Nat → List Region → Nat → Option Nat
  pos : ∀ {n rs size p}, answer n rs size = some p → 0 < p
  aligned : ∀ {n rs size p}, answer n rs size = some p → 16 ∣ p
  inside : ∀ {n rs size p}, answer n rs size = some p → p + size < 2 ^ 63
  fresh : ∀ {n rs size p}, answer n rs size = some p → ∀ r ∈ rs, Region.Apart ⟨p, size⟩ r

/-- What is allocated, and how many requests there were. -/
structure Heap where
  calls : Nat
  regions : List Region

namespace Heap

def alloc (A : Allocator) (h : Heap) (size : Nat) : Option Nat × Heap :=
  match A.answer h.calls h.regions size with
  | some p => (some p, { calls := h.calls + 1, regions := ⟨p, size⟩ :: h.regions })
  | none => (none, { h with calls := h.calls + 1 })

def free (h : Heap) (r : Region) : Heap := { h with regions := h.regions.erase r }

/-- Give back whatever starts at `p`. -/
def release (h : Heap) (p : Nat) : Heap :=
  { h with regions := h.regions.filter fun r => r.base ≠ p }

/-- Another region instead of the one at `p`; on failure the old one stays. -/
def realloc (A : Allocator) (h : Heap) (p size : Nat) : Option Nat × Heap :=
  match (h.release p).alloc A size with
  | (some q, h') => (some q, h')
  | (none, h') => (none, { h with calls := h'.calls })

variable {A : Allocator} {h h' : Heap} {size p : Nat} {r : Region}

theorem alloc_some (ha : h.alloc A size = (some p, h')) :
    h'.regions = ⟨p, size⟩ :: h.regions ∧ 0 < p ∧ 16 ∣ p ∧ p + size < 2 ^ 63 ∧
    ∀ r ∈ h.regions, Region.Apart ⟨p, size⟩ r := by
  unfold alloc at ha
  cases hq : A.answer h.calls h.regions size with
  | none => rw [hq] at ha; cases ha
  | some q =>
    rw [hq] at ha
    obtain ⟨hp, rfl⟩ := Prod.mk.inj ha
    obtain rfl := Option.some.inj hp
    exact ⟨rfl, A.pos hq, A.aligned hq, A.inside hq, A.fresh hq⟩

/-- `h'` is `h` with a region of `size` bytes at `p` more, that is clear of all others. -/
structure Grants (h h' : Heap) (p size : Nat) : Prop where
  regions : h'.regions = ⟨p, size⟩ :: h.regions
  pos : 0 < p
  aligned : 16 ∣ p
  inside : p + size < 2 ^ 63
  fresh : ∀ r ∈ h.regions, Region.Apart ⟨p, size⟩ r

theorem grants_of_alloc (ha : h.alloc A size = (some p, h')) : h.Grants h' p size := by
  obtain ⟨hregions, hpos, haligned, hinside, hfresh⟩ := alloc_some ha
  exact ⟨hregions, hpos, haligned, hinside, hfresh⟩

theorem alloc_none (ha : h.alloc A size = (none, h')) : h'.regions = h.regions := by
  unfold alloc at ha
  cases hq : A.answer h.calls h.regions size with
  | none =>
    rw [hq] at ha
    rw [← (Prod.mk.inj ha).2]
  | some q => rw [hq] at ha; cases ha

theorem mem_free (hr : r ∈ h.regions) {s : Region} (hne : r ≠ s) : r ∈ (h.free s).regions :=
  (List.mem_erase_of_ne hne).mpr hr

theorem mem_release {p : Nat} : r ∈ (h.release p).regions ↔ r ∈ h.regions ∧ r.base ≠ p := by
  unfold release
  rw [List.mem_filter, decide_eq_true_iff]

theorem realloc_some {q : Nat} (hr : h.realloc A p size = (some q, h')) :
    (h.release p).alloc A size = (some q, h') := by
  unfold realloc at hr
  rcases ha : (h.release p).alloc A size with ⟨_ | q', h''⟩
  · rw [ha] at hr
    cases hr
  · rw [ha] at hr
    exact hr

theorem realloc_none (hr : h.realloc A p size = (none, h')) : h'.regions = h.regions := by
  unfold realloc at hr
  rcases ha : (h.release p).alloc A size with ⟨_ | q, h''⟩
  · rw [ha] at hr
    rw [← (Prod.mk.inj hr).2]
  · rw [ha] at hr
    cases hr

/-- What holds of the regions there are and of every answer still holds after a
request. -/
theorem alloc_all {I : Region → Prop} (hA : ∀ n rs size p, A.answer n rs size = some p → I ⟨p, size⟩)
    (hI : ∀ r ∈ h.regions, I r) (size : Nat) : ∀ r ∈ (h.alloc A size).2.regions, I r := by
  unfold alloc
  cases hq : A.answer h.calls h.regions size with
  | none => exact hI
  | some q =>
    intro r hr
    rcases List.mem_cons.mp hr with rfl | hr
    · exact hA _ _ _ _ hq
    · exact hI r hr

theorem release_all {I : Region → Prop} (hI : ∀ r ∈ h.regions, I r) (p : Nat) :
    ∀ r ∈ (h.release p).regions, I r :=
  fun r hr => hI r (mem_release.mp hr).1

end Heap

/-! ## An allocator -/

/-- An allocator that keeps clear of a region it once handed out. -/
def Allocator.reserve (A : Allocator) (r : Region) : Allocator where
  answer n rs size := A.answer n (r :: rs) size
  pos := A.pos
  aligned := A.aligned
  inside := A.inside
  fresh h s hs := A.fresh h s (List.mem_cons_of_mem r hs)

theorem Allocator.reserve_apart {A : Allocator} {r : Region} {n : Nat} {rs : List Region}
    {size p : Nat} (h : (A.reserve r).answer n rs size = some p) : Region.Apart ⟨p, size⟩ r :=
  A.fresh h r List.mem_cons_self

/-- Beyond the end of every region. -/
def pastEnd (rs : List Region) : Nat :=
  (rs.foldr (fun r n => max (r.base + r.size) n) 0 / 16 + 1) * 16

theorem le_pastEnd {rs : List Region} {r : Region} (hr : r ∈ rs) :
    r.base + r.size ≤ pastEnd rs := by
  have hle : r.base + r.size ≤ rs.foldr (fun r n => max (r.base + r.size) n) 0 := by
    induction rs with
    | nil => cases hr
    | cons s rs ih =>
      rcases List.mem_cons.mp hr with rfl | hm
      · exact Nat.le_max_left _ _
      · exact Nat.le_trans (ih hm) (Nat.le_max_right _ _)
  unfold pastEnd
  omega

/-- Memory from low addresses up, as long as there is any. -/
def bump (rs : List Region) (size : Nat) : Option Nat :=
  if pastEnd rs + size < 2 ^ 63 then some (pastEnd rs) else none

theorem bump_some {rs : List Region} {size p : Nat} (h : bump rs size = some p) :
    p = pastEnd rs ∧ p + size < 2 ^ 63 := by
  unfold bump at h
  by_cases hlt : pastEnd rs + size < 2 ^ 63
  · rw [if_pos hlt] at h
    obtain rfl := Option.some.inj h
    exact ⟨rfl, hlt⟩
  · rw [if_neg hlt] at h
    cases h

def bumpAllocator : Allocator where
  answer _ rs size := bump rs size
  pos h := by
    rw [(bump_some h).1]
    unfold pastEnd
    omega
  aligned h := by
    rw [(bump_some h).1]
    exact Nat.dvd_mul_left 16 _
  inside h := (bump_some h).2
  fresh h r hr := by
    rw [(bump_some h).1]
    exact Or.inr (le_pastEnd hr)

end Regions
