import Mathlib.Data.List.Perm.Basic
import Mathlib.Logic.Function.Basic

/-!
# Logs of stacks

A log tells what was pushed on which stack and what was popped, the last entry first.
In a log of stacks whatever is popped was on top.
-/

namespace Stacks

inductive Event (ι α : Type) where
  | pushed (i : ι) (a : α)
  | popped (i : ι) (a : α)
  deriving DecidableEq, Repr

variable {ι α : Type} [DecidableEq ι]

/-- What is on the stacks after the log. -/
def contents (start : ι → List α) : List (Event ι α) → ι → List α
  | [] => start
  | .pushed i a :: log => Function.update (contents start log) i (a :: contents start log i)
  | .popped i _ :: log => Function.update (contents start log) i (contents start log i).tail

/-- Last in, first out. -/
def Lifo (start : ι → List α) (log : List (Event ι α)) : Prop :=
  ∀ later i a earlier, log = later ++ .popped i a :: earlier → (contents start earlier i).head? = some a

def Event.pushedOn? (i : ι) : Event ι α → Option α
  | .pushed j a => if j = i then some a else none
  | .popped _ _ => none

def Event.poppedFrom? (i : ι) : Event ι α → Option α
  | .pushed _ _ => none
  | .popped j a => if j = i then some a else none

def pushedOn (i : ι) (log : List (Event ι α)) : List α := log.filterMap (Event.pushedOn? i)

def poppedFrom (i : ι) (log : List (Event ι α)) : List α := log.filterMap (Event.poppedFrom? i)

variable {start : ι → List α} {e : Event ι α} {log log₁ log₂ : List (Event ι α)} {i j : ι} {a : α}

theorem Lifo.nil : Lifo start [] := by
  intro later i a earlier h
  cases later <;> cases h

theorem Lifo.tail (h : Lifo start (e :: log)) : Lifo start log := by
  intro later i a earlier heq
  exact h (e :: later) i a earlier (by rw [heq, List.cons_append])

theorem Lifo.push (h : Lifo start log) : Lifo start (.pushed i a :: log) := by
  intro later j b earlier heq
  cases later with
  | nil => cases heq
  | cons e later => exact h later j b earlier (List.cons.inj heq).2

theorem Lifo.pop (h : Lifo start log) (ha : (contents start log i).head? = some a) :
    Lifo start (.popped i a :: log) := by
  intro later j b earlier heq
  cases later with
  | nil =>
    obtain ⟨he, rfl⟩ := List.cons.inj heq
    obtain ⟨rfl, rfl⟩ := Event.popped.inj he
    exact ha
  | cons e later => exact h later j b earlier (List.cons.inj heq).2

/-- What was popped and what is still there is what was there and what was pushed. -/
theorem Lifo.perm (h : Lifo start log) (i : ι) :
    (poppedFrom i log ++ contents start log i).Perm (pushedOn i log ++ start i) := by
  induction log with
  | nil => exact List.Perm.refl _
  | cons e log ih =>
    have ih := ih h.tail
    cases e with
    | pushed j a =>
      by_cases hj : j = i
      · subst hj
        have hpopped : poppedFrom j (.pushed j a :: log) = poppedFrom j log := rfl
        have hpushed : pushedOn j (.pushed j a :: log) = a :: pushedOn j log := by
          simp [pushedOn, Event.pushedOn?]
        rw [hpopped, hpushed, contents, Function.update_self]
        exact List.perm_middle.trans (ih.cons a)
      · have hpushed : pushedOn i (.pushed j a :: log) = pushedOn i log := by
          simp [pushedOn, Event.pushedOn?, hj]
        rw [hpushed, contents, Function.update_of_ne (Ne.symm hj)]
        exact ih
    | popped j a =>
      by_cases hj : j = i
      · subst hj
        have hpopped : poppedFrom j (.popped j a :: log) = a :: poppedFrom j log := by
          simp [poppedFrom, Event.poppedFrom?]
        have htop := h [] j a log rfl
        obtain ⟨rest, hrest⟩ := List.head?_eq_some_iff.mp htop
        rw [hrest] at ih
        rw [hpopped, contents, Function.update_self, hrest, List.tail_cons, List.cons_append]
        exact List.perm_middle.symm.trans ih
      · have hpopped : poppedFrom i (.popped j a :: log) = poppedFrom i log := by
          simp [poppedFrom, Event.poppedFrom?, hj]
        rw [hpopped, contents, Function.update_of_ne (Ne.symm hj)]
        exact ih

/-- With nothing pushed twice, nothing is popped twice. -/
theorem Lifo.nodup (h : Lifo start log) (hnodup : (pushedOn i log ++ start i).Nodup) :
    (poppedFrom i log).Nodup :=
  (List.nodup_append.mp ((h.perm i).nodup_iff.mpr hnodup)).1

/-- What is not there any more was popped. -/
theorem Lifo.mem_poppedFrom (h : Lifo start log) (ha : a ∈ start i) (hgone : a ∉ contents start log i) :
    a ∈ poppedFrom i log := by
  have hmem := (h.perm i).mem_iff.mpr (List.mem_append_right _ ha)
  exact (List.mem_append.mp hmem).resolve_right hgone

end Stacks
