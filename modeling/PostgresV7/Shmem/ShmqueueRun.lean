import PostgresV7.Shmem.Shmqueue

/-!
# Runs of queue calls

The processes call the functions of `shmqueue.c` in turn, each with the segment mapped
at its own address. Whoever calls says what the call is to do to the lists.
-/

namespace PostgresV7.Shmem

open Rings Chains

inductive QueueOp where
  | init (queue : UInt64)
  | elemInit (elem : UInt64)
  | insertBefore (queue elem : UInt64)
  | delete (elem : UInt64)
  deriving DecidableEq, Repr

/-- A call by a process that has mapped the segment at `base`. -/
structure QueueCall where
  base : UInt64
  op : QueueOp
  deriving DecidableEq, Repr

def QueueCall.run (seg : Segment) (c : QueueCall) : Option Segment :=
  match c.op with
  | .init queue => shmQueueInit c.base seg queue
  | .elemInit elem => shmQueueElemInit c.base seg elem
  | .insertBefore queue elem => shmQueueInsertBefore c.base seg queue elem
  | .delete elem => shmQueueDelete c.base seg elem

/-- What the call means for the lists. Before the head is at the tail. -/
def Queues.after (qs : Queues) (c : QueueCall) : Queues :=
  match c.op with
  | .init queue => Function.update qs (makeOffset c.base queue) (some [])
  | .elemInit elem => Function.update qs (makeOffset c.base elem) none
  | .insertBefore queue elem => fun q => (qs q).map fun l =>
    if q = makeOffset c.base queue then l ++ [makeOffset c.base elem]
    else putBefore (makeOffset c.base queue) (makeOffset c.base elem) l
  | .delete elem => fun q => (qs q).map fun l => l.erase (makeOffset c.base elem)

/-- The record is in no queue. -/
def Queues.Free (qs : Queues) (e : UInt64) : Prop := ∀ q l, qs q = some l → e ∉ l

/-- What is linked in is in no queue and the head of none; what is linked out is in one; a
record is initialised only where no queue holds it. -/
def Queues.Allows (size : Nat) (qs : Queues) (c : QueueCall) : Prop :=
  Mapped size c.base ∧
  match c.op with
  | .init queue => Inside size (makeOffset c.base queue) ∧ qs.Free (makeOffset c.base queue)
  | .elemInit elem => Inside size (makeOffset c.base elem) ∧ qs.Free (makeOffset c.base elem)
  | .insertBefore queue elem =>
    (∃ q l, qs q = some l ∧ makeOffset c.base queue ∈ q :: l) ∧ Inside size (makeOffset c.base elem) ∧
      qs (makeOffset c.base elem) = none ∧ qs.Free (makeOffset c.base elem)
  | .delete elem => ∃ q l, qs q = some l ∧ makeOffset c.base elem ∈ l

def runCalls (seg : Segment) : List QueueCall → Option Segment
  | [] => some seg
  | c :: calls => (c.run seg).bind fun seg => runCalls seg calls

def Queues.afterAll (qs : Queues) (calls : List QueueCall) : Queues := calls.foldl Queues.after qs

def Queues.AllowsAll (size : Nat) (qs : Queues) : List QueueCall → Prop
  | [] => True
  | c :: calls => qs.Allows size c ∧ (qs.after c).AllowsAll size calls

/-- There are no queues yet. -/
def Queues.none : Queues := fun _ => Option.none

variable {base : UInt64} {size : Nat} {seg : Segment} {qs : Queues} {q : UInt64} {l : List UInt64}

/-! ## The lists are followed -/

/-- No assertion fails, and the segment holds the lists after the call. -/
theorem Represents.call {c : QueueCall} (h : Represents size seg qs) (hc : qs.Allows size c) :
    ∃ seg', c.run seg = some seg' ∧ Represents size seg' (qs.after c) := by
  obtain ⟨base, op⟩ := c
  obtain ⟨hbase, hop⟩ := hc
  have hvalid : ∀ {p : UInt64}, Inside size (makeOffset base p) → shmPtrValid base p := by
    intro p hp
    have hvalid := hp.valid hbase
    rwa [makePtr_makeOffset] at hvalid
  cases op with
  | init queue =>
    obtain ⟨hinside, hfree⟩ := hop
    obtain ⟨seg', hrun, hsets⟩ := shmQueueInit_sets seg (hvalid hinside)
    exact ⟨seg', hrun, h.sets hsets hfree hinside fun l hl => ⟨(Option.some.inj hl).symm, rfl⟩⟩
  | elemInit elem =>
    obtain ⟨hinside, hfree⟩ := hop
    obtain ⟨seg', hrun, hsets⟩ := shmQueueElemInit_sets seg (hvalid hinside)
    exact ⟨seg', hrun, h.sets hsets hfree hinside fun l hl => by cases hl⟩
  | insertBefore queue elem =>
    obtain ⟨⟨q, l, hq, hqueue⟩, hinside, hnone, hfree⟩ := hop
    obtain ⟨seg', hrun, hlinks⟩ :=
      shmQueueInsertBefore_links seg (hvalid (h.inside q l hq _ hqueue)) (hvalid hinside)
    refine ⟨seg', hrun, h.links hlinks hq hqueue (fun q' l' hq' hmem => ?_) hinside⟩
    rcases List.mem_cons.mp hmem with heq | hmem
    · rw [heq, hq'] at hnone
      cases hnone
    · exact hfree q' l' hq' hmem
  | delete elem =>
    obtain ⟨q, l, hq, helem⟩ := hop
    have hring := h.ring q l hq
    obtain ⟨seg', hrun, hunlinks⟩ := shmQueueDelete_unlinks seg
      (hvalid (h.inside q l hq _ (List.mem_cons_of_mem q helem)))
      ((h.inside q l hq _ (hring.next_mem helem)).valid hbase) ((h.inside q l hq _ (hring.prev_mem helem)).valid hbase)
    exact ⟨seg', hrun, h.unlinks hunlinks hq helem⟩

theorem Represents.calls {calls : List QueueCall} (h : Represents size seg qs) (hcalls : qs.AllowsAll size calls) :
    ∃ seg', runCalls seg calls = some seg' ∧ Represents size seg' (qs.afterAll calls) := by
  induction calls generalizing seg qs with
  | nil => exact ⟨seg, rfl, h⟩
  | cons c calls ih =>
    obtain ⟨seg₁, hrun₁, h₁⟩ := h.call hcalls.1
    obtain ⟨seg', hrun, h'⟩ := ih h₁ hcalls.2
    refine ⟨seg', ?_, h'⟩
    rw [runCalls, hrun₁, Option.bind_some, hrun]

theorem represents_none (size : Nat) (seg : Segment) : Represents size seg Queues.none :=
  ⟨fun _ _ h => (by cases h), fun _ _ _ _ h => (by cases h), fun _ _ h => (by cases h)⟩

/-! ## What a caller sees of a queue -/

theorem Represents.empty (h : Represents size seg qs) (hq : qs q = some l) (hbase : Mapped size base) :
    shmQueueEmpty base seg (makePtr base q) = some (decide (l = [])) := by
  have hring := h.ring q l hq
  have hvalid := (h.inside q l hq q List.mem_cons_self).valid hbase
  unfold shmQueueEmpty
  rw [if_pos hvalid, Segment.deref_next, Segment.deref_prev, makeOffset_makePtr]
  rcases List.eq_nil_or_concat' l with rfl | ⟨l₁, x, rfl⟩
  · have hprev : seg.prev q = q := hring.back
    have hnext : seg.next q = q := hring.forth
    rw [if_pos hprev, if_pos hnext]
    rfl
  · have hprev := hring.prev_anchor
    rw [lastCell_append] at hprev
    have hne : seg.prev q ≠ q := by
      rw [← hprev]
      exact hring.ne_anchor (List.mem_append_right _ (List.mem_singleton.mpr rfl))
    rw [if_neg hne]
    simp

/-- From any record of the queue on, the walk gets what comes behind it. -/
theorem Represents.walk_from {linkOffset o : UInt64} {l₁ l₂ : List UInt64} (h : Represents size seg qs)
    (hq : qs q = some (l₁ ++ l₂)) (hbase : Mapped size base) (hnull : ∀ e ∈ l₂, makePtr base e ≠ linkOffset)
    (ho : o = lastCell id q l₁) {n : Nat} (hn : l₂.length < n) :
    queueWalk base seg (makePtr base q) linkOffset n (makePtr base o) =
      some (l₂.map fun e => makePtr base e - linkOffset) := by
  have hring := h.ring q _ hq
  have hmem : o ∈ q :: (l₁ ++ l₂) := by
    have hlast : lastCell id q l₁ ∈ q :: l₁.map id := lastCell_mem q l₁
    rw [List.map_id, ← ho] at hlast
    exact List.cons_subset_cons q (List.subset_append_left _ _) hlast
  have hvalid := (h.inside q _ hq o hmem).valid hbase
  have hnext := hring.forth.right
  rw [← ho] at hnext
  induction l₂ generalizing l₁ o n with
  | nil =>
    obtain ⟨n, rfl⟩ := Nat.exists_eq_succ_of_ne_zero (Nat.ne_of_gt hn)
    have hback : seg.next o = q := hnext
    have hend : shmQueueNext base seg (makePtr base q) (makePtr base o) linkOffset = some NULL := by
      unfold shmQueueNext
      rw [if_pos hvalid, Segment.deref_next, makeOffset_makePtr, hback, if_pos rfl]
    simp [queueWalk, hend]
  | cons e l₂ ih =>
    obtain ⟨n, rfl⟩ := Nat.exists_eq_succ_of_ne_zero (Nat.ne_of_gt (Nat.lt_trans (Nat.succ_pos _) hn))
    have hnext' : seg.next o = e := hnext.1
    have hne : makePtr base e ≠ makePtr base q := by
      intro heq
      have hoffs := congrArg (makeOffset base) heq
      rw [makeOffset_makePtr, makeOffset_makePtr] at hoffs
      exact hnext.2.1 hoffs
    have hstep : shmQueueNext base seg (makePtr base q) (makePtr base o) linkOffset =
        some (makePtr base e - linkOffset) := by
      unfold shmQueueNext
      rw [if_pos hvalid, Segment.deref_next, makeOffset_makePtr, hnext', if_neg hne]
    have hrecord : makePtr base e - linkOffset ≠ NULL := by
      intro heq
      refine hnull e List.mem_cons_self ?_
      rw [← UInt64.sub_add_cancel (makePtr base e) linkOffset, heq]
      exact UInt64.zero_add _
    have hq' : qs q = some ((l₁ ++ [e]) ++ l₂) := by rw [hq, List.append_assoc, List.singleton_append]
    have he : e = lastCell id q (l₁ ++ [e]) := by
      rw [lastCell_append]
      rfl
    have hmem' : e ∈ q :: (l₁ ++ [e] ++ l₂) := by simp
    have hring' := h.ring q _ hq'
    have hnext₂ := hring'.forth.right
    rw [← he] at hnext₂
    have ih := ih hq' (fun e' he' => hnull e' (List.mem_cons_of_mem e he')) he (Nat.lt_of_succ_lt_succ hn) hring'
      hmem' ((h.inside q _ hq' e hmem').valid hbase) hnext₂
    rw [← UInt64.sub_add_cancel (makePtr base e) linkOffset] at ih
    simp only [queueWalk, hstep, Option.bind_eq_bind, Option.bind_some, if_neg hrecord, ih]
    rfl

/-- What holds of the queue with head `q` and the elements `l`. -/
structure QueueHolds (size : Nat) (seg : Segment) (q : UInt64) (l : List UInt64) : Prop where
  ring : Ring q seg.next seg.prev l
  once : l.Nodup
  empty : ∀ base, Mapped size base → shmQueueEmpty base seg (makePtr base q) = some (decide (l = []))
  walk : ∀ base linkOffset n, Mapped size base → (∀ e ∈ l, makePtr base e ≠ linkOffset) → l.length < n →
    queueWalk base seg (makePtr base q) linkOffset n (makePtr base q) =
      some (l.map fun e => makePtr base e - linkOffset)

/-- However the calls come, no assertion fails and every queue is the list it should be. -/
theorem shm_queue_run (size : Nat) (seg₀ : Segment) (calls : List QueueCall)
    (hcalls : Queues.none.AllowsAll size calls) :
    ∃ seg, runCalls seg₀ calls = some seg ∧
      ∀ q l, Queues.none.afterAll calls q = some l → QueueHolds size seg q l := by
  obtain ⟨seg, hrun, h⟩ := (represents_none size seg₀).calls hcalls
  refine ⟨seg, hrun, fun q l hq => ?_⟩
  have hring := h.ring q l hq
  exact ⟨hring, hring.nodup, fun base hbase => h.empty hq hbase,
    fun base linkOffset n hbase hnull hn => Represents.walk_from h (show _ = some ([] ++ l) from hq) hbase hnull rfl hn⟩

/-- Two processes share a queue: one makes it and puts two records on it, the other one takes out
the first and puts a third before the second. -/
theorem shm_queue_run_shared : ∃ seg, runCalls (fun _ => ⟨0, 0⟩)
      [⟨0x1000, .init 0x1010⟩, ⟨0x1000, .insertBefore 0x1010 0x1020⟩, ⟨0x1000, .insertBefore 0x1010 0x1030⟩,
        ⟨0x2000, .delete 0x2020⟩, ⟨0x2000, .insertBefore 0x2030 0x2040⟩] = some seg ∧
    QueueHolds 0x100 seg 0x10 [0x40, 0x30] := by
  obtain ⟨seg, hrun, h⟩ := shm_queue_run 0x100 (fun _ => ⟨0, 0⟩)
    [⟨0x1000, .init 0x1010⟩, ⟨0x1000, .insertBefore 0x1010 0x1020⟩, ⟨0x1000, .insertBefore 0x1010 0x1030⟩,
      ⟨0x2000, .delete 0x2020⟩, ⟨0x2000, .insertBefore 0x2030 0x2040⟩] (by
    simp [Queues.AllowsAll, Queues.Allows, Queues.after, Queues.none, Queues.Free, Mapped, Inside, makeOffset,
      Function.update_apply, putBefore])
  exact ⟨seg, hrun, h _ _ rfl⟩

end PostgresV7.Shmem
