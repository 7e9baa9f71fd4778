import Mathlib.Algebra.BigOperators.Group.List.Basic
import Mathlib.Algebra.GroupWithZero.Nat
import Mathlib.Data.List.Perm.Basic

/-!
# Ledgers

A ledger lists what was obtained, given back and exchanged, the last entry first. It
settles when nothing is given back that is not held, and nothing obtained twice.
-/

namespace Ledgers

inductive Entry (α : Type) where
  | obtained (p : α)
  | returned (p : α)
  | exchanged (p q : α)
  deriving DecidableEq, Repr

variable {α : Type} [DecidableEq α]

/-- What is held after one entry. -/
def Entry.settle : Entry α → List α → Option (List α)
  | .obtained p, held => if p ∈ held then none else some (p :: held)
  | .returned p, held => if p ∈ held then some (held.erase p) else none
  | .exchanged p q, held =>
    if p ∈ held then if q ∈ held.erase p then none else some (q :: held.erase p) else none

/-- What is held after all entries. -/
def settle : List (Entry α) → List α → Option (List α)
  | [], held => some held
  | e :: es, held => (settle es held).bind e.settle

/-- How often an entry obtains `p`. -/
def Entry.gains (p : α) : Entry α → Nat
  | .obtained q => if q = p then 1 else 0
  | .returned _ => 0
  | .exchanged _ q => if q = p then 1 else 0

/-- How often an entry gives `p` back. -/
def Entry.losses (p : α) : Entry α → Nat
  | .obtained _ => 0
  | .returned q => if q = p then 1 else 0
  | .exchanged q _ => if q = p then 1 else 0

def gains (p : α) (es : List (Entry α)) : Nat := (es.map (Entry.gains p)).sum

def losses (p : α) (es : List (Entry α)) : Nat := (es.map (Entry.losses p)).sum

variable {e : Entry α} {es es' : List (Entry α)} {held held' bs bs' bs'' : List α} {p q : α}

theorem settle_append (es es' : List (Entry α)) (held : List α) :
    settle (es ++ es') held = (settle es' held).bind (settle es) := by
  induction es with
  | nil =>
    show settle es' held = (settle es' held).bind some
    simp
  | cons e es ih =>
    show (settle (es ++ es') held).bind e.settle = (settle es' held).bind (settle (e :: es))
    rw [ih, Option.bind_assoc]
    rfl

/-! ## Order does not matter -/

theorem Entry.settle_perm (hp : held.Perm held') (h : e.settle held = some bs) :
    ∃ bs', e.settle held' = some bs' ∧ bs.Perm bs' := by
  cases e with
  | obtained p =>
    simp only [Entry.settle, hp.mem_iff] at h ⊢
    split at h
    · cases h
    · rename_i hn
      obtain rfl := Option.some.inj h
      exact ⟨p :: held', if_neg hn, hp.cons p⟩
  | returned p =>
    simp only [Entry.settle, hp.mem_iff] at h ⊢
    split at h
    · rename_i hm
      obtain rfl := Option.some.inj h
      exact ⟨held'.erase p, if_pos hm, hp.erase p⟩
    · cases h
  | exchanged p q =>
    simp only [Entry.settle, hp.mem_iff, (hp.erase p).mem_iff] at h ⊢
    split at h
    · rename_i hm
      rw [if_pos hm]
      split at h
      · cases h
      · rename_i hn
        obtain rfl := Option.some.inj h
        exact ⟨q :: held'.erase p, if_neg hn, (hp.erase p).cons q⟩
    · cases h

theorem settle_perm (hp : held.Perm held') (h : settle es held = some bs) :
    ∃ bs', settle es held' = some bs' ∧ bs.Perm bs' := by
  induction es generalizing bs with
  | nil =>
    obtain rfl := Option.some.inj h
    exact ⟨held', rfl, hp⟩
  | cons e es ih =>
    obtain ⟨mid, hmid, he⟩ := Option.bind_eq_some_iff.mp h
    obtain ⟨mid', hmid', hpm⟩ := ih hmid
    obtain ⟨bs', he', hpb⟩ := Entry.settle_perm hpm he
    exact ⟨bs', Option.bind_eq_some_iff.mpr ⟨mid', hmid', he'⟩, hpb⟩

/-- With `bs` held at first, the entries settle and leave `bs'`, in some order. -/
def Settles (es : List (Entry α)) (bs bs' : List α) : Prop :=
  ∃ out, settle es bs = some out ∧ out.Perm bs'

namespace Settles

theorem none (h : bs.Perm bs') : Settles [] bs bs' := ⟨bs, rfl, h⟩

theorem trans (h : Settles es bs bs') (h' : Settles es' bs' bs'') : Settles (es' ++ es) bs bs'' := by
  obtain ⟨out, hout, hp⟩ := h
  obtain ⟨out', hout', hp'⟩ := h'
  obtain ⟨out'', hout'', hp''⟩ := settle_perm hp.symm hout'
  refine ⟨out'', ?_, hp''.symm.trans hp'⟩
  rw [settle_append, hout]
  exact hout''

theorem perm {cs cs' : List α} (h : Settles es bs cs) (hp : bs.Perm bs') (hp' : cs.Perm cs') :
    Settles es bs' cs' := by
  obtain ⟨out, hout, ho⟩ := h
  obtain ⟨out', hout', ho'⟩ := settle_perm hp hout
  exact ⟨out', hout', ho'.symm.trans (ho.trans hp')⟩

theorem obtained (h : p ∉ bs) (hp : (p :: bs).Perm bs') : Settles [.obtained p] bs bs' :=
  ⟨p :: bs, if_neg h, hp⟩

theorem returned (h : p ∈ bs) (hp : (bs.erase p).Perm bs') : Settles [.returned p] bs bs' :=
  ⟨bs.erase p, if_pos h, hp⟩

theorem exchanged (h : p ∈ bs) (hq : q ∉ bs.erase p) (hp : (q :: bs.erase p).Perm bs') :
    Settles [.exchanged p q] bs bs' := by
  refine ⟨q :: bs.erase p, ?_, hp⟩
  show (if p ∈ bs then _ else _) = _
  rw [if_pos h, if_neg hq]

end Settles

/-! ## The books balance -/

theorem Entry.settle_count (p : α) (h : e.settle held = some bs) :
    bs.count p + e.losses p = held.count p + e.gains p := by
  cases e with
  | obtained q =>
    simp only [Entry.settle] at h
    split at h
    · cases h
    · obtain rfl := Option.some.inj h
      simp [Entry.gains, Entry.losses, List.count_cons]
  | returned q =>
    simp only [Entry.settle] at h
    split at h
    · rename_i hm
      obtain rfl := Option.some.inj h
      have hpos := List.count_pos_iff.mpr hm
      by_cases hqp : q = p
      · subst hqp
        simp only [Entry.gains, Entry.losses, List.count_erase_self, if_true]
        omega
      · simp [Entry.gains, Entry.losses, hqp, List.count_erase_of_ne (Ne.symm hqp)]
    · cases h
  | exchanged q r =>
    simp only [Entry.settle] at h
    split at h
    · rename_i hm
      split at h
      · cases h
      · obtain rfl := Option.some.inj h
        have hpos := List.count_pos_iff.mpr hm
        by_cases hqp : q = p
        · subst hqp
          simp only [Entry.gains, Entry.losses, List.count_cons, List.count_erase_self, if_true,
            beq_iff_eq]
          omega
        · simp [Entry.gains, Entry.losses, hqp, List.count_cons, List.count_erase_of_ne (Ne.symm hqp)]
    · cases h

/-- What is held is what was held and obtained, but for what was given back. -/
theorem settle_count (p : α) (h : settle es held = some bs) :
    bs.count p + losses p es = held.count p + gains p es := by
  induction es generalizing bs with
  | nil =>
    obtain rfl := Option.some.inj h
    rfl
  | cons e es ih =>
    obtain ⟨mid, hmid, he⟩ := Option.bind_eq_some_iff.mp h
    have hes := ih hmid
    have hcount := Entry.settle_count p he
    simp only [gains, losses, List.map_cons, List.sum_cons] at hes ⊢
    omega

end Ledgers
