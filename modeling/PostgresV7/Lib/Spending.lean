import Mathlib.Algebra.GroupWithZero.Nat
import PostgresV7.Lib.Regions

/-!
# What a heap has handed out

From one heap to a later one, with nothing given back in between, the regions that
were added are counted at a price of their own.
-/

namespace Regions

variable {price : Nat → Nat} {A : Allocator} {heap heap' heap'' : Heap} {size p n m : Nat}

/-- The regions added since `heap` come to `n` together. -/
def Spent (price : Nat → Nat) (heap heap' : Heap) (n : Nat) : Prop :=
  ∃ added, heap'.regions = added ++ heap.regions ∧ (added.map fun r => price r.size).sum = n

theorem Spent.of_regions (h : heap'.regions = heap.regions) : Spent price heap heap' 0 :=
  ⟨[], h, rfl⟩

theorem Spent.cons (h : heap'.regions = ⟨p, size⟩ :: heap.regions) :
    Spent price heap heap' (price size) := ⟨[⟨p, size⟩], h, by simp⟩

theorem Spent.trans (h : Spent price heap heap' n) (h' : Spent price heap' heap'' m) :
    Spent price heap heap'' (n + m) := by
  obtain ⟨added, heq, rfl⟩ := h
  obtain ⟨added', heq', rfl⟩ := h'
  refine ⟨added' ++ added, ?_, ?_⟩
  · rw [heq', heq, List.append_assoc]
  · rw [List.map_append, List.sum_append, Nat.add_comm]

/-- A request is granted or not. -/
theorem spent_alloc (price : Nat → Nat) (A : Allocator) (heap : Heap) (size : Nat) :
    (A.answer heap.calls heap.regions size = none ∧ Spent price heap (heap.alloc A size).2 0) ∨
    (A.answer heap.calls heap.regions size ≠ none ∧
      Spent price heap (heap.alloc A size).2 (price size)) := by
  unfold Heap.alloc
  cases hq : A.answer heap.calls heap.regions size with
  | none => exact Or.inl ⟨rfl, .of_regions rfl⟩
  | some q => exact Or.inr ⟨Option.some_ne_none q, .cons rfl⟩

end Regions
