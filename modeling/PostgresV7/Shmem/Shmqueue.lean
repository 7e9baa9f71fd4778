import Mathlib.Algebra.Group.Nat.Defs
import Mathlib.Tactic.Common
import PostgresV7.Lib.Ring

/-!
# Queues in shared memory (`shmqueue.c`)

The records of the segment are known by their offsets. A process sees the segment from its own
`ShmemBase` on, and every function takes the pointers of the process that calls it.
-/

namespace PostgresV7.Shmem

open Rings Chains

def INVALID_OFFSET : UInt64 := -1

def NULL : UInt64 := 0

/-- `ShmemQueue`. -/
structure ShmemQueue where
  prev : UInt64
  next : UInt64
  deriving DecidableEq, Repr

/-- The queue records of the segment, at their offsets. -/
abbrev Segment := UInt64 → ShmemQueue

def makePtr (base offs : UInt64) : UInt64 := base + offs

def makeOffset (base ptr : UInt64) : UInt64 := ptr - base

def shmPtrValid (base ptr : UInt64) : Prop := ptr > base

instance (base ptr : UInt64) : Decidable (shmPtrValid base ptr) := inferInstanceAs (Decidable (_ > _))

namespace Segment

/-- The record behind a pointer. -/
def deref (seg : Segment) (base ptr : UInt64) : ShmemQueue := seg (makeOffset base ptr)

def setNext (seg : Segment) (base ptr next : UInt64) : Segment :=
  Function.update seg (makeOffset base ptr) { seg.deref base ptr with next := next }

def setPrev (seg : Segment) (base ptr prev : UInt64) : Segment :=
  Function.update seg (makeOffset base ptr) { seg.deref base ptr with prev := prev }

end Segment

/-- `shm_queue_init`. `none` is a failed assertion, here and below. -/
def shmQueueInit (base : UInt64) (seg : Segment) (queue : UInt64) : Option Segment :=
  if shmPtrValid base queue then
    let offset := makeOffset base queue
    some ((seg.setNext base queue offset).setPrev base queue offset)
  else none

def shmQueueElemInit (base : UInt64) (seg : Segment) (queue : UInt64) : Option Segment :=
  if shmPtrValid base queue then
    some ((seg.setNext base queue INVALID_OFFSET).setPrev base queue INVALID_OFFSET)
  else none

def shmQueueDelete (base : UInt64) (seg : Segment) (queue : UInt64) : Option Segment :=
  let nextElem := makePtr base (seg.deref base queue).next
  let prevElem := makePtr base (seg.deref base queue).prev
  if shmPtrValid base queue ∧ shmPtrValid base nextElem ∧ shmPtrValid base prevElem then
    let seg := seg.setNext base prevElem (seg.deref base queue).next
    let seg := seg.setPrev base nextElem (seg.deref base queue).prev
    some ((seg.setNext base queue INVALID_OFFSET).setPrev base queue INVALID_OFFSET)
  else none

def shmQueueInsertBefore (base : UInt64) (seg : Segment) (queue elem : UInt64) : Option Segment :=
  let prevPtr := makePtr base (seg.deref base queue).prev
  let elemOffset := makeOffset base elem
  if shmPtrValid base queue ∧ shmPtrValid base elem then
    let seg := seg.setNext base elem (seg.deref base prevPtr).next
    let seg := seg.setPrev base elem (seg.deref base queue).prev
    let seg := seg.setPrev base queue elemOffset
    some (seg.setNext base prevPtr elemOffset)
  else none

def shmQueueNext (base : UInt64) (seg : Segment) (queue curElem linkOffset : UInt64) : Option UInt64 :=
  let elemPtr := makePtr base (seg.deref base curElem).next
  if shmPtrValid base curElem then
    if elemPtr = queue then some NULL else some (elemPtr - linkOffset)
  else none

def shmQueueEmpty (base : UInt64) (seg : Segment) (queue : UInt64) : Option Bool :=
  if shmPtrValid base queue then
    if (seg.deref base queue).prev = makeOffset base queue then
      if (seg.deref base queue).next = makeOffset base queue then some true else none
    else some false
  else none

/-- A caller's walk with `shm_queue_next`: the records in the order it gets them, when it gets
`NULL` within `n` calls. -/
def queueWalk (base : UInt64) (seg : Segment) (queue linkOffset : UInt64) : Nat → UInt64 → Option (List UInt64)
  | 0, _ => none
  | n + 1, curElem => do
    let record ← shmQueueNext base seg queue curElem linkOffset
    if record = NULL then some []
    else return record :: (← queueWalk base seg queue linkOffset n (record + linkOffset))

/-! ## Records by their offsets -/

variable {base : UInt64} {size : Nat} {seg seg' : Segment} {offs p v : UInt64}

theorem makeOffset_makePtr (base offs : UInt64) : makeOffset base (makePtr base offs) = offs := by
  unfold makeOffset makePtr
  rw [UInt64.add_comm, UInt64.add_sub_cancel]

theorem makePtr_makeOffset (base ptr : UInt64) : makePtr base (makeOffset base ptr) = ptr := by
  unfold makeOffset makePtr
  rw [UInt64.add_comm, UInt64.sub_add_cancel]

namespace Segment

/-- Where the links of a record lead. -/
def next (seg : Segment) (offs : UInt64) : UInt64 := (seg offs).next

def prev (seg : Segment) (offs : UInt64) : UInt64 := (seg offs).prev

theorem deref_next (seg : Segment) (base p : UInt64) : (seg.deref base p).next = seg.next (makeOffset base p) := rfl

theorem deref_prev (seg : Segment) (base p : UInt64) : (seg.deref base p).prev = seg.prev (makeOffset base p) := rfl

theorem next_setNext (seg : Segment) (base p v : UInt64) :
    (seg.setNext base p v).next = Function.update seg.next (makeOffset base p) v := by
  funext offs
  by_cases h : offs = makeOffset base p
  · subst h
    simp [next, setNext]
  · simp [next, setNext, h]

theorem prev_setNext (seg : Segment) (base p v : UInt64) : (seg.setNext base p v).prev = seg.prev := by
  funext offs
  by_cases h : offs = makeOffset base p
  · subst h
    simp [prev, setNext, deref]
  · simp [prev, setNext, h]

theorem prev_setPrev (seg : Segment) (base p v : UInt64) :
    (seg.setPrev base p v).prev = Function.update seg.prev (makeOffset base p) v := by
  funext offs
  by_cases h : offs = makeOffset base p
  · subst h
    simp [prev, setPrev]
  · simp [prev, setPrev, h]

theorem next_setPrev (seg : Segment) (base p v : UInt64) : (seg.setPrev base p v).next = seg.next := by
  funext offs
  by_cases h : offs = makeOffset base p
  · subst h
    simp [next, setPrev, deref]
  · simp [next, setPrev, h]

end Segment

/-- The segment is mapped at `base` as a whole. -/
def Mapped (size : Nat) (base : UInt64) : Prop := base.toNat + size ≤ 2 ^ 64

/-- The record is in the segment, behind the header. -/
def Inside (size : Nat) (offs : UInt64) : Prop := 0 < offs.toNat ∧ offs.toNat < size

theorem Inside.valid (h : Inside size offs) (hbase : Mapped size base) : shmPtrValid base (makePtr base offs) := by
  unfold Inside at h
  unfold Mapped at hbase
  show base < base + offs
  rw [UInt64.lt_iff_toNat_lt, UInt64.toNat_add]
  omega

/-! ## What a call writes -/

/-- Both links of the record are set. -/
structure Sets (seg : Segment) (offs link : UInt64) (seg' : Segment) : Prop where
  next : seg'.next = Function.update seg.next offs link
  prev : seg'.prev = Function.update seg.prev offs link

theorem shmQueueInit_sets (seg : Segment) (hvalid : shmPtrValid base p) :
    ∃ seg', shmQueueInit base seg p = some seg' ∧ Sets seg (makeOffset base p) (makeOffset base p) seg' := by
  unfold shmQueueInit
  rw [if_pos hvalid]
  refine ⟨_, rfl, ?_, ?_⟩
  · rw [Segment.next_setPrev, Segment.next_setNext]
  · rw [Segment.prev_setPrev, Segment.prev_setNext]

theorem shmQueueElemInit_sets (seg : Segment) (hvalid : shmPtrValid base p) :
    ∃ seg', shmQueueElemInit base seg p = some seg' ∧ Sets seg (makeOffset base p) INVALID_OFFSET seg' := by
  unfold shmQueueElemInit
  rw [if_pos hvalid]
  refine ⟨_, rfl, ?_, ?_⟩
  · rw [Segment.next_setPrev, Segment.next_setNext]
  · rw [Segment.prev_setPrev, Segment.prev_setNext]

/-- The neighbours of the record are linked with each other. -/
structure Unlinks (seg : Segment) (e : UInt64) (seg' : Segment) : Prop where
  next : seg'.next = Function.update (Function.update seg.next (seg.prev e) (seg.next e)) e INVALID_OFFSET
  prev : seg'.prev = Function.update (Function.update seg.prev (seg.next e) (seg.prev e)) e INVALID_OFFSET

theorem shmQueueDelete_unlinks (seg : Segment) (hvalid : shmPtrValid base p)
    (hnext : shmPtrValid base (makePtr base (seg.next (makeOffset base p))))
    (hprev : shmPtrValid base (makePtr base (seg.prev (makeOffset base p)))) :
    ∃ seg', shmQueueDelete base seg p = some seg' ∧ Unlinks seg (makeOffset base p) seg' := by
  unfold shmQueueDelete
  refine ⟨_, if_pos ⟨hvalid, hnext, hprev⟩, ?_, ?_⟩
  · simp only [Segment.next_setPrev, Segment.next_setNext, Segment.deref_next, Segment.deref_prev, makeOffset_makePtr]
  · simp only [Segment.prev_setPrev, Segment.prev_setNext, Segment.deref_next, Segment.deref_prev, makeOffset_makePtr]

/-- The record `e` is linked in before `q`. -/
structure LinksBefore (seg : Segment) (q e : UInt64) (seg' : Segment) : Prop where
  next : seg'.next = Function.update (Function.update seg.next e (seg.next (seg.prev q))) (seg.prev q) e
  prev : seg'.prev = Function.update (Function.update seg.prev e (seg.prev q)) q e

theorem shmQueueInsertBefore_links (seg : Segment) {elem : UInt64} (hqueue : shmPtrValid base p)
    (helem : shmPtrValid base elem) :
    ∃ seg', shmQueueInsertBefore base seg p elem = some seg' ∧
      LinksBefore seg (makeOffset base p) (makeOffset base elem) seg' := by
  unfold shmQueueInsertBefore
  refine ⟨_, if_pos ⟨hqueue, helem⟩, ?_, ?_⟩
  · simp only [Segment.next_setPrev, Segment.next_setNext, Segment.deref_next, Segment.deref_prev, makeOffset_makePtr]
  · simp only [Segment.prev_setPrev, Segment.prev_setNext, Segment.deref_prev]

/-! ## Queues as lists -/

/-- What is on the queues, by the offsets of their heads. -/
abbrev Queues := UInt64 → Option (List UInt64)

/-- The segment holds the queues: no record is in two of them or twice in one. -/
structure Represents (size : Nat) (seg : Segment) (qs : Queues) : Prop where
  ring : ∀ q l, qs q = some l → Ring q seg.next seg.prev l
  apart : ∀ q l q' l', qs q = some l → qs q' = some l' → ∀ e ∈ q :: l, e ∈ q' :: l' → q = q'
  inside : ∀ q l, qs q = some l → ∀ e ∈ q :: l, Inside size e

variable {qs : Queues} {q e link : UInt64} {l : List UInt64}

/-- A record that is in no queue may become the head of an empty one, or be in none still. -/
theorem Represents.sets {contents : Option (List UInt64)} (h : Represents size seg qs) (hs : Sets seg e link seg')
    (hfree : ∀ q l, qs q = some l → e ∉ l) (hinside : Inside size e)
    (hcontents : ∀ l, contents = some l → l = [] ∧ link = e) :
    Represents size seg' (Function.update qs e contents) := by
  have hcases : ∀ q l, Function.update qs e contents q = some l → q = e ∧ l = [] ∧ link = e ∨ q ≠ e ∧ qs q = some l := by
    intro q l hq
    by_cases hqe : q = e
    · subst hqe
      rw [Function.update_self] at hq
      exact .inl ⟨rfl, hcontents l hq⟩
    · rw [Function.update_of_ne hqe] at hq
      exact .inr ⟨hqe, hq⟩
  have hother : ∀ q l, q ≠ e → qs q = some l → ∀ x ∈ q :: l, x ≠ e := by
    rintro q l hqe hq x hx rfl
    rcases List.mem_cons.mp hx with heq | hx
    · exact hqe heq.symm
    · exact hfree q l hq hx
  refine ⟨fun q l hq => ?_, fun q l q' l' hq hq' x hx hx' => ?_, fun q l hq x hx => ?_⟩
  · rcases hcases q l hq with ⟨rfl, rfl, rfl⟩ | ⟨hqe, hold⟩
    · constructor
      · show seg'.next link = link
        rw [hs.next, Function.update_self]
      · show seg'.prev link = link
        rw [hs.prev, Function.update_self]
    · refine (h.ring q l hold).congr fun x hx => ?_
      have hne := hother q l hqe hold x hx
      rw [hs.next, hs.prev, Function.update_of_ne hne, Function.update_of_ne hne]
      exact ⟨rfl, rfl⟩
  · rcases hcases q l hq with ⟨hqe, rfl, -⟩ | ⟨hqe, hold⟩
    · have hxe := (List.mem_singleton.mp hx).trans hqe
      rcases hcases q' l' hq' with ⟨hqe', -⟩ | ⟨hqe', hold'⟩
      · rw [hqe, hqe']
      · exact absurd hxe (hother q' l' hqe' hold' x hx')
    · rcases hcases q' l' hq' with ⟨hqe', rfl, -⟩ | ⟨hqe', hold'⟩
      · exact absurd ((List.mem_singleton.mp hx').trans hqe') (hother q l hqe hold x hx)
      · exact h.apart q l q' l' hold hold' x hx hx'
  · rcases hcases q l hq with ⟨hqe, rfl, -⟩ | ⟨hqe, hold⟩
    · rw [List.mem_singleton.mp hx, hqe]
      exact hinside
    · exact h.inside q l hold x hx

/-- A record that is in no queue is linked in before `p`, which is the head of `q` or in it. -/
theorem Represents.links {p : UInt64} (h : Represents size seg qs) (hs : LinksBefore seg p e seg')
    (hq : qs q = some l) (hp : p ∈ q :: l) (hfree : ∀ q l, qs q = some l → e ∉ q :: l) (hinside : Inside size e) :
    Represents size seg' fun q => (qs q).map fun l => if q = p then l ++ [e] else putBefore p e l := by
  have hother : ∀ q' l', qs q' = some l' → q' ≠ q → (if q' = p then l' ++ [e] else putBefore p e l') = l' := by
    intro q' l' hq' hne
    have hp' : p ∉ q' :: l' := fun hp' => hne (h.apart q' l' q l hq' hq p hp' hp)
    have hq'p : q' ≠ p := fun heq => hp' (heq ▸ List.mem_cons_self)
    rw [if_neg hq'p, putBefore_of_notMem fun hmem => hp' (List.mem_cons_of_mem q' hmem)]
  have hmem : ∀ q' l', qs q' = some l' → ∀ x ∈ q' :: (if q' = p then l' ++ [e] else putBefore p e l'),
      x ∈ q' :: l' ∨ x = e ∧ q' = q := by
    intro q' l' hq' x hx
    by_cases hne : q' = q
    · rcases List.mem_cons.mp hx with rfl | hx
      · exact .inl List.mem_cons_self
      · split at hx
        · rcases List.mem_append.mp hx with hx | hx
          · exact .inl (List.mem_cons_of_mem _ hx)
          · exact .inr ⟨List.mem_singleton.mp hx, hne⟩
        · rcases mem_putBefore hx with rfl | hx
          · exact .inr ⟨rfl, hne⟩
          · exact .inl (List.mem_cons_of_mem _ hx)
    · rw [hother q' l' hq' hne] at hx
      exact .inl hx
  refine ⟨fun q' l₁ hq₁ => ?_, fun q₁ l₁ q₂ l₂ hq₁ hq₂ x hx₁ hx₂ => ?_, fun q' l₁ hq₁ x hx => ?_⟩
  · obtain ⟨l', hq', rfl⟩ := Option.map_eq_some_iff.mp hq₁
    by_cases hne : q' = q
    · subst hne
      obtain rfl := Option.some.inj (hq.symm.trans hq')
      rw [hs.next, hs.prev]
      have hfree := hfree q' l hq
      exact (h.ring q' l hq).insert_before hp (fun heq => hfree (heq ▸ List.mem_cons_self))
        fun hmem => hfree (List.mem_cons_of_mem q' hmem)
    · rw [hother q' l' hq' hne]
      refine (h.ring q' l' hq').congr fun x hx => ?_
      have hring := h.ring q l hq
      have hxe : x ≠ e := fun heq => hfree q' l' hq' (heq ▸ hx)
      have hapart : ∀ y ∈ q :: l, x ≠ y := fun y hy heq => hne (h.apart q' l' q l hq' hq x hx (heq ▸ hy))
      have hprev : seg.prev p ∈ q :: l := by
        rcases List.mem_cons.mp hp with rfl | hp
        · rw [← hring.prev_anchor]
          have hlast : lastCell id p l ∈ p :: l.map id := lastCell_mem p l
          rwa [List.map_id] at hlast
        · exact hring.prev_mem hp
      rw [hs.next, hs.prev, Function.update_of_ne (hapart _ hprev), Function.update_of_ne hxe,
        Function.update_of_ne (hapart p hp), Function.update_of_ne hxe]
      exact ⟨rfl, rfl⟩
  · obtain ⟨l₁, hold₁, rfl⟩ := Option.map_eq_some_iff.mp hq₁
    obtain ⟨l₂, hold₂, rfl⟩ := Option.map_eq_some_iff.mp hq₂
    rcases hmem q₁ l₁ hold₁ x hx₁ with hmem₁ | ⟨hxe, hq₁⟩
    · rcases hmem q₂ l₂ hold₂ x hx₂ with hmem₂ | ⟨hxe, -⟩
      · exact h.apart q₁ l₁ q₂ l₂ hold₁ hold₂ x hmem₁ hmem₂
      · exact absurd (hxe ▸ hmem₁) (hfree q₁ l₁ hold₁)
    · rcases hmem q₂ l₂ hold₂ x hx₂ with hmem₂ | ⟨-, hq₂⟩
      · exact absurd (hxe ▸ hmem₂) (hfree q₂ l₂ hold₂)
      · rw [hq₁, hq₂]
  · obtain ⟨l', hold, rfl⟩ := Option.map_eq_some_iff.mp hq₁
    rcases hmem q' l' hold x hx with hmem | ⟨rfl, -⟩
    · exact h.inside q' l' hold x hmem
    · exact hinside

/-- A record of a queue is taken out. -/
theorem Represents.unlinks (h : Represents size seg qs) (hs : Unlinks seg e seg') (hq : qs q = some l) (he : e ∈ l) :
    Represents size seg' fun q => (qs q).map fun l => l.erase e := by
  have hsub : ∀ q' l', ∀ x ∈ q' :: l'.erase e, x ∈ q' :: l' := fun q' l' x hx =>
    List.cons_subset_cons q' List.erase_subset hx
  have hring := h.ring q l hq
  refine ⟨fun q' l₁ hq₁ => ?_, fun q₁ l₁ q₂ l₂ hq₁ hq₂ x hx₁ hx₂ => ?_, fun q' l₁ hq₁ x hx => ?_⟩
  · obtain ⟨l', hq', rfl⟩ := Option.map_eq_some_iff.mp hq₁
    by_cases hne : q' = q
    · subst hne
      obtain rfl := Option.some.inj (hq.symm.trans hq')
      refine (hring.erase he).congr fun x hx => ?_
      have hxe : x ≠ e := by
        rintro rfl
        rcases List.mem_cons.mp hx with heq | hx
        · exact hring.ne_anchor he heq
        · exact hring.nodup.not_mem_erase hx
      rw [hs.next, hs.prev, Function.update_of_ne hxe, Function.update_of_ne hxe]
      exact ⟨rfl, rfl⟩
    · have hapart : ∀ x ∈ q' :: l', ∀ y ∈ q :: l, x ≠ y :=
        fun x hx y hy heq => hne (h.apart q' l' q l hq' hq x hx (heq ▸ hy))
      have hnot : e ∉ l' := fun hmem => hapart e (List.mem_cons_of_mem q' hmem) e (List.mem_cons_of_mem q he) rfl
      rw [List.erase_of_not_mem hnot]
      refine (h.ring q' l' hq').congr fun x hx => ?_
      have hxe := hapart x hx e (List.mem_cons_of_mem q he)
      rw [hs.next, hs.prev, Function.update_of_ne hxe, Function.update_of_ne (hapart x hx _ (hring.prev_mem he)),
        Function.update_of_ne hxe, Function.update_of_ne (hapart x hx _ (hring.next_mem he))]
      exact ⟨rfl, rfl⟩
  · obtain ⟨l₁, hold₁, rfl⟩ := Option.map_eq_some_iff.mp hq₁
    obtain ⟨l₂, hold₂, rfl⟩ := Option.map_eq_some_iff.mp hq₂
    exact h.apart q₁ l₁ q₂ l₂ hold₁ hold₂ x (hsub _ _ x hx₁) (hsub _ _ x hx₂)
  · obtain ⟨l', hold, rfl⟩ := Option.map_eq_some_iff.mp hq₁
    exact h.inside q' l' hold x (hsub _ _ x hx)

end PostgresV7.Shmem
