import Mathlib.Data.List.Nodup

/-!
# Least recently used first

A history of uses, the newest first, determines which elements are present and in
which order they were last touched. An element leaves when it is dropped and comes
back with its next touch.
-/

namespace Recency

variable {α : Type*} [DecidableEq α]

inductive Use (α : Type*) where
  | touch (a : α)
  | drop (a : α)
  deriving DecidableEq, Repr

/-- The present elements, the most recently touched one first. -/
def order : List (Use α) → List α
  | [] => []
  | .touch a :: l => a :: (order l).erase a
  | .drop a :: l => (order l).erase a

/-- Touched, and not dropped since. -/
def Present : List (Use α) → α → Prop
  | [], _ => False
  | .touch b :: l, a => a = b ∨ Present l a
  | .drop b :: l, a => a ≠ b ∧ Present l a

/-- When an element was last touched, counted from the start of the history. -/
def lastTouch : List (Use α) → α → Nat
  | [], _ => 0
  | .touch b :: l, a => if a = b then l.length + 1 else lastTouch l a
  | .drop _ :: l, a => lastTouch l a

theorem order_nodup (l : List (Use α)) : (order l).Nodup := by
  induction l with
  | nil => exact List.nodup_nil
  | cons u l ih =>
    cases u with
    | touch a => exact List.nodup_cons.mpr ⟨ih.not_mem_erase, ih.erase a⟩
    | drop a => exact ih.erase a

theorem mem_order {l : List (Use α)} {a : α} : a ∈ order l ↔ Present l a := by
  induction l with
  | nil => simp [order, Present]
  | cons u l ih =>
    cases u with
    | touch b =>
      by_cases hab : a = b
      · simp [order, Present, hab]
      · simp [order, Present, hab, List.mem_erase_of_ne hab, ih]
    | drop b => simp [order, Present, (order_nodup l).mem_erase_iff, ih]

/-- Different elements, each touched once. -/
theorem order_map_touch {l : List α} (h : l.Nodup) : order (l.map .touch) = l := by
  induction l with
  | nil => rfl
  | cons a l ih =>
    obtain ⟨hnot, hnd⟩ := List.nodup_cons.mp h
    show a :: (order (l.map .touch)).erase a = a :: l
    rw [ih hnd, List.erase_of_not_mem hnot]

theorem lastTouch_le (l : List (Use α)) (a : α) : lastTouch l a ≤ l.length := by
  induction l with
  | nil => exact Nat.le_refl 0
  | cons u l ih =>
    have hle : lastTouch l a ≤ l.length + 1 := Nat.le_succ_of_le ih
    cases u with
    | touch b =>
      unfold lastTouch
      split
      · exact Nat.le_refl _
      · exact hle
    | drop b => exact hle

/-- The order is that of the last touches. -/
theorem order_sorted (l : List (Use α)) :
    (order l).Pairwise fun a b => lastTouch l b < lastTouch l a := by
  induction l with
  | nil => exact List.Pairwise.nil
  | cons u l ih =>
    cases u with
    | touch a =>
      have hother : ∀ b ∈ (order l).erase a, lastTouch (.touch a :: l) b = lastTouch l b :=
        fun b hb => if_neg ((order_nodup l).mem_erase_iff.mp hb).1
      refine List.pairwise_cons.mpr ⟨fun b hb => ?_, ?_⟩
      · rw [hother b hb]
        have hself : lastTouch (.touch a :: l) a = l.length + 1 := if_pos rfl
        rw [hself]
        exact Nat.lt_succ_of_le (lastTouch_le l b)
      · refine (ih.sublist List.erase_sublist).imp_of_mem fun hb hc hlt => ?_
        rw [hother _ hb, hother _ hc]
        exact hlt
    | drop a => exact ih.sublist List.erase_sublist

/-- The last of the order is the element whose last touch is the oldest. -/
theorem lastTouch_lt_of_getLast {l : List (Use α)} {a b : α} (h : (order l).getLast? = some a)
    (hb : Present l b) (hne : b ≠ a) : lastTouch l a < lastTouch l b := by
  obtain ⟨init, hinit⟩ := List.getLast?_eq_some_iff.mp h
  have hsorted := order_sorted l
  have hmem := mem_order.mpr hb
  rw [hinit] at hsorted hmem
  rcases List.mem_append.mp hmem with hm | hm
  · exact (List.pairwise_append.mp hsorted).2.2 b hm a List.mem_cons_self
  · exact absurd (List.mem_singleton.mp hm) hne

theorem present_of_getLast {l : List (Use α)} {a : α} (h : (order l).getLast? = some a) :
    Present l a := mem_order.mp (List.mem_of_getLast? h)

end Recency
