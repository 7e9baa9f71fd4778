import Mathlib.Data.List.Forall2

/-!
# Comparing nodes of a pointer graph with a pointer-identity shortcut

A graph is seen through a partial lookup that gives a node's label and its
children. Unfolding it to a depth yields a tree in which a node without a
lookup stands for itself alone. A comparison that first tests the pointers and
then the labels and children decides equality of the unfoldings, however the
graph shares its nodes.
-/

namespace PostgresV7.TermGraph

variable {P L : Type}

/-- An unfolding: labelled nodes, and pointers that are not looked into. -/
inductive Tree (P L : Type) where
  | own (p : P)
  | node (label : L) (kids : List (Tree P L))

/-- The unfolding at `p` to a given depth. The lookup is told how much of the
depth is left below the node. -/
def unfold (look : Nat → P → Option (L × List P)) : Nat → P → Tree P L
  | 0, p => .own p
  | n + 1, p =>
    match look n p with
    | none => .own p
    | some (l, ks) => .node l (ks.map (unfold look n))

theorem map_eq_iff_forall₂ {A B : Type} {f : A → B} {xs ys : List A} :
    xs.map f = ys.map f ↔ List.Forall₂ (fun x y => f x = f y) xs ys := by
  rw [← List.forall₂_eq_eq_eq, List.forall₂_map_left_iff, List.forall₂_map_right_iff]

/-- One step of two equal unfoldings: the same pointer, or the same label and
children that unfold alike. -/
theorem unfold_succ_eq_iff {look : Nat → P → Option (L × List P)} {n : Nat} {p q : P} :
    unfold look (n + 1) p = unfold look (n + 1) q ↔ p = q ∨
      ∃ l ks ls, look n p = some (l, ks) ∧ look n q = some (l, ls) ∧
        List.Forall₂ (fun k k' => unfold look n k = unfold look n k') ks ls := by
  refine ⟨fun h => ?_, fun h => ?_⟩
  · cases hp : look n p with
    | none =>
      cases hq : look n q with
      | none =>
        left
        simpa [unfold, hp, hq] using h
      | some lk => simp [unfold, hp, hq] at h
    | some lk =>
      cases hq : look n q with
      | none => simp [unfold, hp, hq] at h
      | some lk' =>
        right
        simp only [unfold, hp, hq, Tree.node.injEq] at h
        refine ⟨lk.1, lk.2, lk'.2, rfl, ?_, map_eq_iff_forall₂.1 h.2⟩
        rw [h.1]
  · rcases h with rfl | ⟨l, ks, ls, hp, hq, hk⟩
    · rfl
    · simp only [unfold, hp, hq, Tree.node.injEq, true_and]
      exact map_eq_iff_forall₂.2 hk

/-- A comparison with a pointer shortcut: out of depth it knows only the
pointers, and one step compares labels and then the children. -/
structure Compares (look : Nat → P → Option (L × List P)) (R : Nat → P → P → Prop) : Prop where
  zero : ∀ p q, R 0 p q ↔ p = q
  succ : ∀ n p q, R (n + 1) p q ↔ p = q ∨
    ∃ l ks ls, look n p = some (l, ks) ∧ look n q = some (l, ls) ∧ List.Forall₂ (R n) ks ls

/-- Such a comparison decides equality of the unfoldings. -/
theorem Compares.iff_unfold {look : Nat → P → Option (L × List P)} {R : Nat → P → P → Prop}
    (h : Compares look R) (n : Nat) (p q : P) :
    R n p q ↔ unfold look n p = unfold look n q := by
  induction n generalizing p q with
  | zero =>
    rw [h.zero]
    simp [unfold]
  | succ n ih =>
    have hR : R n = fun k k' => unfold look n k = unfold look n k' := by
      funext k k'
      exact propext (ih k k')
    rw [h.succ, unfold_succ_eq_iff, hR]

/-- Splitting a pointwise relation on two appended lists at equal lengths. -/
theorem forall₂_append_iff {A : Type} {R : A → A → Prop} {xs xs' ys ys' : List A}
    (h : xs.length = xs'.length) :
    List.Forall₂ R (xs ++ ys) (xs' ++ ys') ↔ List.Forall₂ R xs xs' ∧ List.Forall₂ R ys ys' := by
  induction xs generalizing xs' with
  | nil =>
    have hx : xs' = [] := List.length_eq_zero_iff.1 h.symm
    subst hx
    simp
  | cons x xs ih =>
    cases xs' with
    | nil => exact absurd h (Nat.succ_ne_zero _)
    | cons x' xs' =>
      have hl : xs.length = xs'.length := Nat.succ.inj h
      simp [ih hl, and_assoc]

end PostgresV7.TermGraph
