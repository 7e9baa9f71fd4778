import Mathlib.Data.List.Range
import PostgresV7.Fd.FdRun
import PostgresV7.Lib.Chain
import PostgresV7.Lib.Runs
import PostgresV7.Smgr.Md

/-!
# The array of descriptor vectors (`md.c`)

`fdvec_free` pushes a slot in front of the list; behind the freed slots the list goes
through those that were never used, in order. That is what the asserts of `fdvec_alloc`
rely on. `Nfds` is doubled before the memory is asked for, and `memory_context_alloc`
does not return when it gives none.
-/

namespace PostgresV7.Md

open Chains Runs Fd Smgr

variable {σ : Type} {md md' : MdState σ} {freed used : List Nat} {i : Nat}

/-! ## The list -/

/-- `md_fd_next_free` of a slot. -/
def nextFreeOf (md : MdState σ) (i : Int) : Int := (md.fdvec i.toNat).nextFree

/-- The slots from `CurFd` on. -/
def neverUsed (md : MdState σ) : List Nat := List.range' md.curFd (md.nfds - md.curFd)

/-- The list leads through the freed slots and then through those never used, and the
slots below `CurFd` are freed or in use. -/
structure Slots (md : MdState σ) (freed used : List Nat) : Prop where
  linked : Linked id (-1) (nextFreeOf md) md.mdFree ((freed ++ neverUsed md).map Nat.cast)
  perm : (freed ++ used).Perm (List.range md.curFd)
  curFd_le : md.curFd ≤ md.nfds
  free : ∀ i ∈ freed ++ neverUsed md, (md.fdvec i).free = true
  used : ∀ i ∈ used, (md.fdvec i).free = false

/-- The list through slots that point to their neighbours. -/
theorem linked_range' {next : Int → Int} {n lo : Nat} (hlo : lo ≤ n)
    (hnext : ∀ i : Nat, lo ≤ i → i < n → next i = if i + 1 = n then -1 else ((i + 1 : Nat) : Int)) :
    Linked id (-1) next (if lo = n then -1 else lo) ((List.range' lo (n - lo)).map Nat.cast) := by
  obtain ⟨k, rfl⟩ := Nat.exists_eq_add_of_le hlo
  induction k generalizing lo with
  | zero => simp [Chains.Linked]
  | succ k ih =>
    have hlt : lo < lo + (k + 1) := by omega
    have hhead : next lo = if lo + 1 = lo + 1 + k then -1 else ((lo + 1 : Nat) : Int) := by
      rw [hnext lo (Nat.le_refl lo) hlt]
      exact if_congr (by omega) rfl rfl
    have hrest := @ih (lo + 1) (by omega) fun i h1 h2 => by
      rw [hnext i (by omega) (by omega)]
      exact if_congr (by omega) rfl rfl
    have hlen : lo + 1 + k - (lo + 1) = k := by omega
    rw [hlen] at hrest
    have hsub : lo + (k + 1) - lo = k + 1 := by omega
    rw [if_neg (by omega), hsub, List.range'_succ, List.map_cons]
    apply Linked.cons
    · rw [id_eq, hhead]
      exact hrest
    · omega

theorem initVec_nextFree (nfds i : Nat) :
    (initVec nfds i).nextFree = if i + 1 = nfds then -1 else ((i + 1 : Nat) : Int) := rfl

/-- `md_init` links all slots. -/
theorem mdInit_slots (dataDir : FileName) (bootstrap : Bool) (st : FdState σ) :
    Slots (mdInit dataDir bootstrap st) [] [] := by
  constructor
  · exact linked_range' (Nat.zero_le 100) fun i _ _ => initVec_nextFree 100 i
  · exact .refl _
  · exact Nat.zero_le _
  · exact fun _ _ => rfl
  · simp

theorem Slots.nodup (h : Slots md freed used) : (freed ++ used).Nodup :=
  h.perm.nodup_iff.mpr List.nodup_range

theorem Slots.used_nodup (h : Slots md freed used) : used.Nodup := (List.nodup_append.mp h.nodup).2.1

theorem Slots.lt_curFd (h : Slots md freed used) (hi : i ∈ freed ++ used) : i < md.curFd :=
  List.mem_range.mp (h.perm.mem_iff.mp hi)

theorem mem_neverUsed (md : MdState σ) : i ∈ neverUsed md ↔ md.curFd ≤ i ∧ i < md.nfds := by
  unfold neverUsed
  rw [List.mem_range'_1]
  omega

/-- Free slots and slots in use are all slots there are. -/
theorem Slots.partition (h : Slots md freed used) :
    (freed ++ neverUsed md ++ used).Perm (List.range md.nfds) := by
  have hsplit : List.range md.nfds = List.range md.curFd ++ neverUsed md := by
    have happend := List.range'_append_1 (s := 0) (m := md.curFd) (n := md.nfds - md.curFd)
    rw [Nat.zero_add, Nat.add_sub_cancel' h.curFd_le] at happend
    unfold neverUsed
    rw [List.range_eq_range', List.range_eq_range', happend]
  have hswap : (freed ++ neverUsed md ++ used).Perm (freed ++ used ++ neverUsed md) := by
    rw [List.append_assoc, List.append_assoc]
    exact List.perm_append_comm.append_left freed
  rw [hsplit]
  exact hswap.trans (h.perm.append_right _)

/-- The list is read off the free slots only. -/
theorem linked_congr {x : Int} {l : List Nat} (h : Linked id (-1) (nextFreeOf md) x (l.map Nat.cast))
    (hnext : ∀ i ∈ l, (md'.fdvec i).nextFree = (md.fdvec i).nextFree) :
    Linked id (-1) (nextFreeOf md') x (l.map Nat.cast) := by
  apply h.move
  intro e he
  obtain ⟨i, hi, rfl⟩ := List.mem_map.mp he
  exact hnext i hi

/-! ## Allocating -/

/-- There is a free slot exactly if the head is one. -/
theorem Slots.head (h : Slots md freed used) :
    (freed ++ neverUsed md = [] ∧ md.mdFree = -1) ∨
      ∃ i l, freed ++ neverUsed md = i :: l ∧ md.mdFree = (i : Nat) ∧
        Linked id (-1) (nextFreeOf md) (md.fdvec i).nextFree (l.map Nat.cast) := by
  have hlinked := h.linked
  cases hl : freed ++ neverUsed md with
  | nil =>
    rw [hl] at hlinked
    exact .inl ⟨rfl, hlinked⟩
  | cons i l =>
    rw [hl, List.map_cons] at hlinked
    exact .inr ⟨i, l, rfl, hlinked.1, hlinked.tail⟩

/-- The first slot of the list is taken. -/
def takeSlot (md : MdState σ) (i : Nat) : MdState σ :=
  { md with
    mdFree := (md.fdvec i).nextFree
    fdvec := Function.update md.fdvec i { md.fdvec i with free := false }
    curFd := if i ≥ md.curFd then md.curFd + 1 else md.curFd }

theorem takeSlot_of_ne {j : Nat} (hne : j ≠ i) : (takeSlot md i).fdvec j = md.fdvec j :=
  Function.update_of_ne hne _ _

theorem takeSlot_free : ((takeSlot md i).fdvec i).free = false := by
  simp [takeSlot]

/-- A slot that was freed is used again. -/
theorem Slots.takeFreed {l : List Nat} (h : Slots md (i :: l) used)
    (hrest : Linked id (-1) (nextFreeOf md) (md.fdvec i).nextFree ((l ++ neverUsed md).map Nat.cast)) :
    Slots (takeSlot md i) l (i :: used) := by
  have hlt : i < md.curFd := h.lt_curFd List.mem_cons_self
  have hcur : (takeSlot md i).curFd = md.curFd := if_neg (by omega)
  have hnever : neverUsed (takeSlot md i) = neverUsed md := by
    unfold neverUsed
    rw [hcur]
    rfl
  have hnotin : ∀ j ∈ l ++ neverUsed md, j ≠ i := by
    rintro j hj rfl
    rcases List.mem_append.mp hj with hj | hj
    · exact (List.nodup_cons.mp (List.nodup_append.mp h.nodup).1).1 hj
    · have hle := (mem_neverUsed md).mp hj
      omega
  have hused : ∀ j ∈ used, j ≠ i := by
    rintro j hj rfl
    exact (List.nodup_append.mp h.nodup).2.2 _ List.mem_cons_self _ hj rfl
  constructor
  · rw [hnever]
    exact linked_congr hrest fun j hj => by rw [takeSlot_of_ne (hnotin j hj)]
  · rw [hcur]
    exact List.perm_middle.trans h.perm
  · rw [hcur]
    exact h.curFd_le
  · intro j hj
    rw [hnever] at hj
    rw [takeSlot_of_ne (hnotin j hj)]
    exact h.free j (List.mem_cons_of_mem i hj)
  · intro j hj
    rcases List.mem_cons.mp hj with rfl | hj
    · exact takeSlot_free
    · rw [takeSlot_of_ne (hused j hj)]
      exact h.used j hj

/-- The first slot that was never used is taken. -/
theorem Slots.takeNew {l : List Nat} (h : Slots md [] used) (hl : neverUsed md = i :: l)
    (hrest : Linked id (-1) (nextFreeOf md) (md.fdvec i).nextFree (l.map Nat.cast)) :
    i = md.curFd ∧ Slots (takeSlot md i) [] (i :: used) := by
  have hlt : md.curFd < md.nfds := by
    have hmem : i ∈ neverUsed md := hl ▸ List.mem_cons_self
    have hle := (mem_neverUsed md).mp hmem
    omega
  have hsplit : neverUsed md = md.curFd :: List.range' (md.curFd + 1) (md.nfds - (md.curFd + 1)) := by
    unfold neverUsed
    have hsub : md.nfds - md.curFd = md.nfds - (md.curFd + 1) + 1 := by omega
    rw [hsub, List.range'_succ]
  obtain ⟨rfl, hl'⟩ := List.cons.inj (hl.symm.trans hsplit)
  have hcur : (takeSlot md md.curFd).curFd = md.curFd + 1 := if_pos (Nat.le_refl _)
  have hnever : neverUsed (takeSlot md md.curFd) = l := by
    rw [hl']
    unfold neverUsed
    rw [hcur]
    rfl
  have hnotin : ∀ j ∈ l, j ≠ md.curFd := by
    intro j hj
    rw [hl', List.mem_range'_1] at hj
    omega
  have hused : ∀ j ∈ used, j ≠ md.curFd := fun j hj => Nat.ne_of_lt (h.lt_curFd hj)
  refine ⟨rfl, ?_⟩
  constructor
  · rw [hnever]
    exact linked_congr hrest fun j hj => by rw [takeSlot_of_ne (hnotin j hj)]
  · rw [hcur, List.range_succ]
    have hperm : used.Perm (List.range md.curFd) := h.perm
    exact (hperm.cons md.curFd).trans (List.perm_append_singleton _ _).symm
  · rw [hcur]
    exact hlt
  · intro j hj
    rw [hnever] at hj
    rw [takeSlot_of_ne (hnotin j hj)]
    exact h.free j (by rw [List.nil_append, hl]; exact List.mem_cons_of_mem _ hj)
  · intro j hj
    rcases List.mem_cons.mp hj with rfl | hj
    · exact takeSlot_free
    · rw [takeSlot_of_ne (hused j hj)]
      exact h.used j hj

/-- All slots are in use, and the array is doubled. -/
def growVec (md : MdState σ) : MdState σ :=
  let nvec := fun i => if i < md.curFd then md.fdvec i else initVec (md.nfds * 2) i
  { md with
    nfds := md.nfds * 2
    fdvec := Function.update nvec md.curFd { nvec md.curFd with free := false }
    mdFree := (md.curFd + 1 : Nat)
    curFd := md.curFd + 1 }

theorem growVec_of_lt {j : Nat} (hj : j < md.curFd) : (growVec md).fdvec j = md.fdvec j := by
  simp [growVec, Function.update_of_ne (Nat.ne_of_lt hj), hj]

theorem growVec_of_gt {j : Nat} (hj : md.curFd < j) :
    (growVec md).fdvec j = initVec (md.nfds * 2) j := by
  simp [growVec, Function.update_of_ne (Nat.ne_of_gt hj), Nat.not_lt_of_gt hj]

/-- The first of the new slots is taken, and the others are linked in order. -/
theorem Slots.grow (h : Slots md [] used) (hfull : md.nfds = md.curFd) (hroom : 1 < md.nfds) :
    Slots (growVec md) [] (md.curFd :: used) := by
  have hlt : md.curFd + 1 < md.nfds * 2 := by omega
  constructor
  · have hchain := @linked_range' (nextFreeOf (growVec md)) (md.nfds * 2) (md.curFd + 1)
      (Nat.le_of_lt hlt) fun i h1 _ => by
        show ((growVec md).fdvec i).nextFree = _
        rw [growVec_of_gt h1, initVec_nextFree]
    rw [if_neg (Nat.ne_of_lt hlt)] at hchain
    exact hchain
  · have hperm : used.Perm (List.range md.curFd) := h.perm
    show (md.curFd :: used).Perm (List.range (md.curFd + 1))
    rw [List.range_succ]
    exact (hperm.cons md.curFd).trans (List.perm_append_singleton _ _).symm
  · exact Nat.le_of_lt hlt
  · intro j hj
    have hge : md.curFd + 1 ≤ j := ((mem_neverUsed _).mp hj).1
    rw [growVec_of_gt hge]
    rfl
  · intro j hj
    rcases List.mem_cons.mp hj with rfl | hj
    · simp [growVec]
    · rw [growVec_of_lt (h.lt_curFd hj)]
      exact h.used j hj

/-- `fdvec_alloc` returns a slot that was not in use and leaves the others alone. -/
theorem fdvecAlloc_spec (h : Slots md freed used) (hroom : 1 < md.nfds) :
    ∃ i md' freed', fdvecAlloc md = .ok (i, md') ∧ Slots md' freed' (i :: used) ∧ 1 < md'.nfds ∧
      ∀ j ∈ used, md'.fdvec j = md.fdvec j := by
  rcases h.head with ⟨hnil, hfree⟩ | ⟨i, l, hl, hfree, hrest⟩
  · obtain ⟨rfl, hnever⟩ := List.append_eq_nil_iff.mp hnil
    have hfull : md.nfds = md.curFd := by
      have hlen := congrArg List.length hnever
      simp only [neverUsed, List.length_range', List.length_nil] at hlen
      have hle := h.curFd_le
      omega
    have hgrow : fdvecAlloc md = .ok (md.curFd, growVec md) := by
      unfold fdvecAlloc
      rw [hfree, if_neg (by decide), if_neg (not_not.mpr hfull)]
      rfl
    refine ⟨_, _, _, hgrow, h.grow hfull hroom, ?_, fun j hj => growVec_of_lt (h.lt_curFd hj)⟩
    show 1 < md.nfds * 2
    omega
  · have hflag : (md.fdvec i).free = true := h.free i (hl ▸ List.mem_cons_self)
    have htake : (i ≥ md.curFd → i = md.curFd) → fdvecAlloc md = .ok (i, takeSlot md i) := by
      intro hnew
      unfold fdvecAlloc takeSlot
      rw [hfree, if_pos (Int.natCast_nonneg i)]
      simp only [Int.toNat_natCast, hflag, not_true_eq_false, if_false]
      split
      · rename_i hge
        rw [if_neg (not_not.mpr (hnew hge))]
      · rfl
    have hothers : (i :: used).Nodup → ∀ j ∈ used, (takeSlot md i).fdvec j = md.fdvec j :=
      fun hnd j hj => takeSlot_of_ne fun heq => (List.nodup_cons.mp hnd).1 (heq ▸ hj)
    cases freed with
    | nil =>
      obtain ⟨hi, hslots⟩ := h.takeNew hl hrest
      exact ⟨i, _, [], htake fun _ => hi, hslots, hroom,
        hothers hslots.used_nodup⟩
    | cons i' freed =>
      obtain ⟨rfl, rfl⟩ := List.cons.inj hl
      have hlt : i' < md.curFd := h.lt_curFd List.mem_cons_self
      have hslots := h.takeFreed hrest
      exact ⟨i', _, freed, htake fun hge => absurd hlt (Nat.not_lt.mpr hge), hslots, hroom,
        hothers hslots.used_nodup⟩

/-! ## Freeing -/

/-- The slot as `fdvec_free` leaves it. -/
def freedSlot (md : MdState σ) (i : Nat) : MdState σ :=
  { md with
    fdvec := Function.update md.fdvec i { md.fdvec i with nextFree := md.mdFree, free := true }
    mdFree := i }

theorem freedSlot_of_ne {j : Nat} (hne : j ≠ i) : (freedSlot md i).fdvec j = md.fdvec j :=
  Function.update_of_ne hne _ _

theorem fdvecFree_spec (h : Slots md freed used) (hi : i ∈ used) :
    fdvecFree md i = .ok (freedSlot md i) ∧ Slots (freedSlot md i) (i :: freed) (used.erase i) := by
  have hhead : md.mdFree < 0 ∨ (md.fdvec md.mdFree.toNat).free = true := by
    rcases h.head with ⟨-, hfree⟩ | ⟨k, l, hl, hfree, -⟩
    · exact .inl (by omega)
    · rw [hfree, Int.toNat_natCast]
      exact .inr (h.free k (hl ▸ List.mem_cons_self))
  have hlist : ∀ j ∈ freed ++ neverUsed md, j ≠ i := by
    rintro j hj rfl
    have hfree := h.free j hj
    rw [h.used j hi] at hfree
    cases hfree
  refine ⟨?_, ?_⟩
  · unfold fdvecFree
    rw [if_neg (not_not.mpr hhead), h.used i hi]
    rfl
  constructor
  · rw [List.cons_append, List.map_cons]
    apply Linked.cons
    · have hcell : nextFreeOf (freedSlot md i) (id (freedSlot md i).mdFree) = md.mdFree := by
        simp [nextFreeOf, freedSlot]
      rw [hcell]
      exact linked_congr h.linked fun j hj => by rw [freedSlot_of_ne (hlist j hj)]
    · show (i : Int) ≠ -1
      omega
  · have hswap : (i :: freed ++ used.erase i).Perm (freed ++ i :: used.erase i) :=
      List.perm_middle.symm
    exact hswap.trans (((List.perm_cons_erase hi).symm.append_left freed).trans h.perm)
  · exact h.curFd_le
  · intro j hj
    rcases List.mem_cons.mp hj with rfl | hj
    · simp [freedSlot]
    · rw [freedSlot_of_ne (hlist j hj)]
      exact h.free j hj
  · intro j hj
    obtain ⟨hne, hj⟩ := h.used_nodup.mem_erase_iff.mp hj
    rw [freedSlot_of_ne hne]
    exact h.used j hj

/-! ## Memory -/

def SIZEOF_MDFDVEC : Nat := 24
def MAX_ALLOC_SIZE : Nat := 0x3fffffff

/-- There is a free slot, or memory for an array of twice the size. -/
def Granted (md : MdState σ) (malloced : Bool) : Prop :=
  md.mdFree < 0 → md.nfds * 2 * SIZEOF_MDFDVEC ≤ MAX_ALLOC_SIZE ∧ malloced = true

instance (md : MdState σ) (malloced : Bool) : Decidable (Granted md malloced) :=
  inferInstanceAs (Decidable (_ → _ ∧ _))

/-- `fdvec_alloc`, with the answer of `malloc`. `none` is the `elog(ERROR)` of
`memory_context_alloc`; by then `Nfds` is doubled. -/
def fdvecAllocIn (malloced : Bool) (md : MdState σ) : Except Fault (Option Nat × MdState σ) :=
  if ¬ Granted md malloced ∧ md.nfds = md.curFd then .ok (none, { md with nfds := md.nfds * 2 })
  else do
    let (fdvec, md) ← fdvecAlloc md
    .ok (some fdvec, md)

theorem fdvecAllocIn_granted {malloced : Bool} (h : Granted md malloced) :
    fdvecAllocIn malloced md = (do
      let (fdvec, md) ← fdvecAlloc md
      .ok (some fdvec, md)) := if_neg fun hand => hand.1 h

/-! ## Any sequence of calls -/

/-- The array, and the slots in use with what their owners keep in them. -/
structure Handles (σ : Type) where
  md : MdState σ
  held : List (Nat × MdfdVec)

def Handles.inUse (s : Handles σ) : List Nat := s.held.map Prod.fst

/-- A call, or an owner's store into its slot. -/
inductive VecCall where
  | alloc (malloced : Bool)
  | free (fdvec : Nat)
  | fill (fdvec : Nat) (vec : MdfdVec)

/-- Only slots in use are freed and stored into, and the flag of a slot is not its owner's. -/
def VecCall.Owned (s : Handles σ) : VecCall → Prop
  | .alloc _ => True
  | .free i => i ∈ s.inUse
  | .fill i vec => i ∈ s.inUse ∧ vec.free = false

/-- The growth of the array that an `fdvec_alloc` asks for is given memory. -/
def VecCall.Granted (s : Handles σ) : VecCall → Prop
  | .alloc malloced => Md.Granted s.md malloced
  | _ => True

instance (s : Handles σ) : (c : VecCall) → Decidable (c.Owned s)
  | .alloc _ => isTrue trivial
  | .free i => inferInstanceAs (Decidable (i ∈ s.inUse))
  | .fill i vec => inferInstanceAs (Decidable (i ∈ s.inUse ∧ vec.free = false))

instance (s : Handles σ) : (c : VecCall) → Decidable (c.Granted s)
  | .alloc malloced => inferInstanceAs (Decidable (Md.Granted s.md malloced))
  | .free _ | .fill _ _ => isTrue trivial

def Handles.call (s : Handles σ) : VecCall → Except Fault (Handles σ)
  | .alloc malloced => do
    match ← fdvecAllocIn malloced s.md with
    | (some i, md) => .ok ⟨md, (i, md.fdvec i) :: s.held⟩
    | (none, md) => .ok ⟨md, s.held⟩
  | .free i => do
    let md ← fdvecFree s.md i
    .ok ⟨md, s.held.filter fun p => p.1 != i⟩
  | .fill i vec => .ok ⟨{ s.md with fdvec := Function.update s.md.fdvec i vec },
      s.held.map fun p => if p.1 = i then (i, vec) else p⟩

/-- A call that does not end the process. -/
def VecStep (s : Handles σ) (c : VecCall) (s' : Handles σ) : Prop :=
  c.Owned s ∧ s.call c = .ok s'

/-- Slots in use are apart from each other and from the free list, all slots are in one
of the two, and each holds what its owner stored. -/
structure Handles.Partitioned (s : Handles σ) : Prop where
  distinct : s.inUse.Nodup
  list : ∃ free, Linked id (-1) (nextFreeOf s.md) s.md.mdFree (free.map Nat.cast) ∧ free.Nodup ∧
    (free ++ s.inUse).Perm (List.range s.md.nfds) ∧
    ∀ i, s.md.curFd ≤ i → i < s.md.nfds → i ∈ free
  kept : ∀ p ∈ s.held, s.md.fdvec p.1 = p.2

/-- What every call keeps. -/
structure Handles.Sound (s : Handles σ) : Prop where
  slots : ∃ freed, Slots s.md freed s.inUse
  room : 1 < s.md.nfds
  kept : ∀ p ∈ s.held, s.md.fdvec p.1 = p.2

theorem Handles.Sound.partitioned {s : Handles σ} (h : s.Sound) : s.Partitioned := by
  obtain ⟨freed, hslots⟩ := h.slots
  have hpart := hslots.partition
  have hnodup := hpart.nodup_iff.mpr List.nodup_range
  refine ⟨hslots.used_nodup, ⟨_, hslots.linked, (List.nodup_append.mp hnodup).1, hpart, ?_⟩, h.kept⟩
  intro i hge hlt
  exact List.mem_append_right freed ((mem_neverUsed s.md).mpr ⟨hge, hlt⟩)

theorem Handles.Sound.alloc {s : Handles σ} {malloced : Bool} (h : s.Sound)
    (hgranted : Md.Granted s.md malloced) :
    ∃ s', s.call (.alloc malloced) = .ok s' ∧ s'.Sound ∧ ∃ i, s'.inUse = i :: s.inUse := by
  obtain ⟨freed, hslots⟩ := h.slots
  obtain ⟨i, md', freed', halloc, hslots', hroom, hkept⟩ := fdvecAlloc_spec hslots h.room
  refine ⟨⟨md', (i, md'.fdvec i) :: s.held⟩, ?_, ⟨⟨freed', hslots'⟩, hroom, ?_⟩, i, rfl⟩
  · simp only [Handles.call, fdvecAllocIn_granted hgranted, halloc]
    rfl
  · intro p hp
    rcases List.mem_cons.mp hp with rfl | hp
    · rfl
    · exact (hkept p.1 (List.mem_map_of_mem hp)).trans (h.kept p hp)

theorem Handles.Sound.free {s : Handles σ} (h : s.Sound) (hi : i ∈ s.inUse) :
    ∃ s', s.call (.free i) = .ok s' ∧ s'.Sound := by
  obtain ⟨freed, hslots⟩ := h.slots
  obtain ⟨hfree, hslots'⟩ := fdvecFree_spec hslots hi
  have herase : (s.held.filter fun p => p.1 != i).map Prod.fst = s.inUse.erase i := by
    rw [hslots.used_nodup.erase_eq_filter, Handles.inUse, List.filter_map]
    rfl
  refine ⟨⟨freedSlot s.md i, s.held.filter fun p => p.1 != i⟩, ?_, ⟨⟨i :: freed, ?_⟩, h.room, ?_⟩⟩
  · simp only [Handles.call, hfree]
    rfl
  · unfold Handles.inUse
    rw [herase]
    exact hslots'
  · intro p hp
    obtain ⟨hp, hne⟩ := List.mem_filter.mp hp
    have hne : p.1 ≠ i := by simpa using hne
    exact (freedSlot_of_ne hne).trans (h.kept p hp)

theorem Handles.Sound.fill {s : Handles σ} {vec : MdfdVec} (h : s.Sound) (hi : i ∈ s.inUse)
    (hvec : vec.free = false) :
    (Handles.mk { s.md with fdvec := Function.update s.md.fdvec i vec }
      (s.held.map fun p => if p.1 = i then (i, vec) else p)).Sound := by
  obtain ⟨freed, hslots⟩ := h.slots
  have hused : (s.held.map fun p => if p.1 = i then (i, vec) else p).map Prod.fst = s.inUse := by
    rw [List.map_map, Handles.inUse]
    apply List.map_congr_left
    intro p _
    by_cases hp : p.1 = i <;> simp [hp]
  have hlist : ∀ j ∈ freed ++ neverUsed s.md, j ≠ i := by
    rintro j hj rfl
    have hfree := hslots.free j hj
    rw [hslots.used j hi] at hfree
    cases hfree
  have hother : ∀ j ≠ i, Function.update s.md.fdvec i vec j = s.md.fdvec j :=
    fun j hj => Function.update_of_ne hj _ _
  refine ⟨⟨freed, ?_⟩, h.room, ?_⟩
  · unfold Handles.inUse
    rw [hused]
    constructor
    · exact linked_congr hslots.linked fun j hj =>
        congrArg MdfdVec.nextFree (hother j (hlist j hj))
    · exact hslots.perm
    · exact hslots.curFd_le
    · intro j hj
      exact (congrArg MdfdVec.free (hother j (hlist j hj))).trans (hslots.free j hj)
    · intro j hj
      by_cases hji : j = i
      · rw [hji]
        exact (congrArg MdfdVec.free (Function.update_self i vec s.md.fdvec)).trans hvec
      · exact (congrArg MdfdVec.free (hother j hji)).trans (hslots.used j hj)
  · intro p hp
    obtain ⟨q, hq, rfl⟩ := List.mem_map.mp hp
    by_cases hqi : q.1 = i
    · simp [hqi]
    · rw [if_neg hqi]
      exact (hother q.1 hqi).trans (h.kept q hq)

/-- A call of slots in use whose growth is given memory does not end the process. -/
theorem Handles.Sound.call {s : Handles σ} {c : VecCall} (h : s.Sound) (howned : c.Owned s)
    (hgranted : c.Granted s) : ∃ s', s.call c = .ok s' ∧ s'.Sound := by
  cases c with
  | alloc malloced =>
    obtain ⟨s', hcall, hsound, -⟩ := h.alloc hgranted
    exact ⟨s', hcall, hsound⟩
  | free i => exact h.free howned
  | fill i vec => exact ⟨_, rfl, h.fill howned.1 howned.2⟩

/-- Where the list is empty and no memory is given, `Nfds` no longer is the size of the array. -/
theorem Handles.Sound.alloc_refused {s : Handles σ} {malloced : Bool} (h : s.Sound)
    (hrefused : ¬ Md.Granted s.md malloced) :
    s.call (.alloc malloced) = .ok ⟨{ s.md with nfds := s.md.nfds * 2 }, s.held⟩ ∧
      ¬ (Handles.mk { s.md with nfds := s.md.nfds * 2 } s.held).Partitioned := by
  obtain ⟨freed, hslots⟩ := h.slots
  have hempty : s.md.mdFree < 0 := (Classical.not_imp.mp hrefused).1
  have hfull : s.md.nfds = s.md.curFd := by
    rcases hslots.head with ⟨hnil, -⟩ | ⟨j, l, -, hhead, -⟩
    · have hlen := congrArg List.length (List.append_eq_nil_iff.mp hnil).2
      simp only [neverUsed, List.length_range', List.length_nil] at hlen
      have hle := hslots.curFd_le
      omega
    · omega
  refine ⟨?_, ?_⟩
  · simp only [Handles.call, fdvecAllocIn, if_pos (And.intro hrefused hfull)]
    rfl
  · -- the list is still empty, and the new slots are not in it
    intro hpart
    obtain ⟨free, hlinked, -, -, hnew⟩ := hpart.list
    have hmem := hnew s.md.nfds (Nat.le_of_eq hfull.symm) (by
      show s.md.nfds < s.md.nfds * 2
      have hroom := h.room
      omega)
    cases free with
    | nil => cases hmem
    | cons j l =>
      have hhead : s.md.mdFree = (j : Int) := hlinked.1
      omega

theorem init_sound (dataDir : FileName) (bootstrap : Bool) (st : FdState σ) :
    (Handles.mk (mdInit dataDir bootstrap st) []).Sound := by
  refine ⟨⟨[], mdInit_slots dataDir bootstrap st⟩, ?_, fun p hp => nomatch hp⟩
  show 1 < 100
  decide

/-- Calls one after another. -/
def Handles.calls : List VecCall → Handles σ → Option (Handles σ)
  | [], s => some s
  | c :: l, s => if c.Owned s then (s.call c).toOption.bind (Handles.calls l) else none

theorem Handles.calls_run {l : List VecCall} {s s' : Handles σ} (h : Handles.calls l s = some s') :
    Run VecStep s l s' := by
  induction l generalizing s with
  | nil =>
    obtain rfl := Option.some.inj h
    exact .nil s
  | cons c l ih =>
    unfold Handles.calls at h
    split at h
    · rename_i howned
      cases hcall : s.call c with
      | error e =>
        rw [hcall] at h
        cases h
      | ok s₁ =>
        rw [hcall] at h
        exact .cons ⟨howned, hcall⟩ (ih h)
    · cases h

end PostgresV7.Md
