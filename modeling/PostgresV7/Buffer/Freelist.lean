import PostgresV7.Buffer.BufInternals
import PostgresV7.Lib.Ring
import PostgresV7.Lib.Recency

/-!
# The free list (`freelist.c`)

A ring through the descriptors, with descriptor `n` as its head: buffers are added
before the head and taken from behind it. A failed assertion is `none`. The callers
hold the buffer manager's lock.
-/

namespace PostgresV7.Buffer

open Rings Recency Chains

/-- `IsInQueue`. -/
def IsInQueue (bf : BufferDesc) : Prop :=
  bf.freeNext ≠ INVALID_DESCRIPTOR ∧ bf.freePrev ≠ INVALID_DESCRIPTOR ∧ Has bf.flags BM_FREE

/-- `NotInQueue`. -/
def NotInQueue (bf : BufferDesc) : Prop :=
  bf.freeNext = INVALID_DESCRIPTOR ∧ bf.freePrev = INVALID_DESCRIPTOR ∧ ¬ Has bf.flags BM_FREE

instance (bf : BufferDesc) : Decidable (IsInQueue bf) := inferInstanceAs (Decidable (_ ∧ _ ∧ _))

instance (bf : BufferDesc) : Decidable (NotInQueue bf) := inferInstanceAs (Decidable (_ ∧ _ ∧ _))

def setRefcount (descs : Descriptors) (i : Int) (refcount : Nat) : Descriptors :=
  Function.update descs i { descs i with refcount := refcount }

/-- `add_buffer_to_freelist`. -/
def addBufferToFreelist (n i : Int) (descs : Descriptors) : Option Descriptors :=
  if NotInQueue (descs i) then
    let descs := setFreePrev descs i (descs n).freePrev
    let descs := setFreeNext descs i n
    let descs := setFreePrev descs (descs i).freeNext (descs i).bufId
    some (setFreeNext descs (descs i).freePrev (descs i).bufId)
  else none

/-- Off the ring, and no longer free: what `pin_buffer` and `get_free_buffer` do. -/
def unlinkBuffer (i : Int) (descs : Descriptors) : Descriptors :=
  let descs := setFreePrev descs (descs i).freeNext (descs i).freePrev
  let descs := setFreeNext descs (descs i).freePrev (descs i).freeNext
  let descs := setFreePrev descs i INVALID_DESCRIPTOR
  let descs := setFreeNext descs i INVALID_DESCRIPTOR
  setFlags descs i ((descs i).flags &&& ~~~BM_FREE)

/-- The shared descriptors, and `PrivateRefCount` of each backend. -/
structure Pool where
  descs : Descriptors
  privateRefCount : Nat → Int → Nat

/-- `PrivateRefCount[b] = count` in one backend. -/
def setPrivate (counts : Nat → Int → Nat) (backend : Nat) (b : Int) (count : Nat) : Nat → Int → Nat :=
  Function.update counts backend (Function.update (counts backend) b count)

/-- `pin_buffer` in a backend. -/
def pinBuffer (backend : Nat) (i : Int) (p : Pool) : Option Pool :=
  let count := p.privateRefCount backend (p.descs i).bufId
  let counts := setPrivate p.privateRefCount backend (p.descs i).bufId (count + 1)
  if (p.descs i).refcount = 0 then
    if IsInQueue (p.descs i) then
      let descs := unlinkBuffer i p.descs
      some ⟨if count = 0 then setRefcount descs i ((descs i).refcount + 1) else descs, counts⟩
    else none
  else if NotInQueue (p.descs i) then
    some ⟨if count = 0 then setRefcount p.descs i ((p.descs i).refcount + 1) else p.descs, counts⟩
  else none

/-- `unpin_buffer` in a backend. -/
def unpinBuffer (n : Int) (backend : Nat) (i : Int) (p : Pool) : Option Pool := do
  let count := p.privateRefCount backend (p.descs i).bufId
  if (p.descs i).refcount = 0 ∨ count = 0 then none
  else
    let counts := setPrivate p.privateRefCount backend (p.descs i).bufId (count - 1)
    let descs := if count - 1 = 0 then setRefcount p.descs i ((p.descs i).refcount - 1) else p.descs
    if (descs i).refcount = 0 then
      let descs ← addBufferToFreelist n i descs
      some ⟨setFlags descs i ((descs i).flags ||| BM_FREE), counts⟩
    else some ⟨descs, counts⟩

/-- `get_free_buffer`. -/
def getFreeBuffer (n : Int) (descs : Descriptors) : Option Int × Descriptors :=
  if n = (descs n).freeNext then (none, descs)
  else (some (descs n).freeNext, unlinkBuffer (descs n).freeNext descs)

/-! ## Links -/

def nexts (descs : Descriptors) : Int → Int := fun i => (descs i).freeNext

def prevs (descs : Descriptors) : Int → Int := fun i => (descs i).freePrev

section
variable (descs : Descriptors) (i j v : Int) (flags : BufFlags) (count : Nat)

@[simp] theorem nexts_setFreeNext : nexts (setFreeNext descs i v) = Function.update (nexts descs) i v := by
  funext j
  by_cases h : j = i <;> simp [nexts, setFreeNext, h]

@[simp] theorem prevs_setFreeNext : prevs (setFreeNext descs i v) = prevs descs := by
  funext j
  by_cases h : j = i <;> simp [prevs, setFreeNext, h]

@[simp] theorem nexts_setFreePrev : nexts (setFreePrev descs i v) = nexts descs := by
  funext j
  by_cases h : j = i <;> simp [nexts, setFreePrev, h]

@[simp] theorem prevs_setFreePrev : prevs (setFreePrev descs i v) = Function.update (prevs descs) i v := by
  funext j
  by_cases h : j = i <;> simp [prevs, setFreePrev, h]

@[simp] theorem nexts_setFlags : nexts (setFlags descs i flags) = nexts descs := by
  funext j
  by_cases h : j = i <;> simp [nexts, setFlags, h]

@[simp] theorem prevs_setFlags : prevs (setFlags descs i flags) = prevs descs := by
  funext j
  by_cases h : j = i <;> simp [prevs, setFlags, h]

@[simp] theorem nexts_setRefcount : nexts (setRefcount descs i count) = nexts descs := by
  funext j
  by_cases h : j = i <;> simp [nexts, setRefcount, h]

@[simp] theorem prevs_setRefcount : prevs (setRefcount descs i count) = prevs descs := by
  funext j
  by_cases h : j = i <;> simp [prevs, setRefcount, h]

end

/-! ## The rest of a descriptor -/

/-- What changes of a descriptor besides its links. -/
def rest (d : BufferDesc) : Int × BufFlags × Nat := (d.bufId, d.flags, d.refcount)

section
variable (descs : Descriptors) (i j v : Int)

@[simp] theorem rest_setFreeNext : rest (setFreeNext descs i v j) = rest (descs j) := by
  by_cases h : j = i <;> simp [rest, setFreeNext, h]

@[simp] theorem rest_setFreePrev : rest (setFreePrev descs i v j) = rest (descs j) := by
  by_cases h : j = i <;> simp [rest, setFreePrev, h]

end

theorem freeNext_eq (descs : Descriptors) (i : Int) : (descs i).freeNext = nexts descs i := rfl

theorem freePrev_eq (descs : Descriptors) (i : Int) : (descs i).freePrev = prevs descs i := rfl

theorem bufId_eq (d : BufferDesc) : d.bufId = (rest d).1 := rfl

theorem flags_eq (d : BufferDesc) : d.flags = (rest d).2.1 := rfl

theorem refcount_eq (d : BufferDesc) : d.refcount = (rest d).2.2 := rfl

/-! ## Off the ring -/

variable {n i : Int} {descs : Descriptors} {l : List Int}

/-- The free list holds the buffers of `l`; the one that has been on it for the shortest
time comes first. -/
abbrev Freelist (n : Int) (descs : Descriptors) (l : List Int) : Prop :=
  Ring n (prevs descs) (nexts descs) l

theorem unlinkBuffer_links (h : Freelist n descs l) (hi : i ∈ l) :
    prevs (unlinkBuffer i descs) = Function.update (Function.update (prevs descs)
      (nexts descs i) (prevs descs i)) i INVALID_DESCRIPTOR ∧
    nexts (unlinkBuffer i descs) = Function.update (Function.update (nexts descs)
      (prevs descs i) (nexts descs i)) i INVALID_DESCRIPTOR := by
  have hne : nexts descs i ≠ i := h.prev_ne hi
  unfold unlinkBuffer
  constructor <;> simp only [freeNext_eq, freePrev_eq, nexts_setFlags, prevs_setFlags,
    nexts_setFreeNext, prevs_setFreeNext, nexts_setFreePrev, prevs_setFreePrev,
    Function.update_of_ne hne.symm]

/-- Descriptors that are not on the ring keep their links. -/
theorem unlinkBuffer_frame (h : Freelist n descs l) (hi : i ∈ l) {j : Int} (hj : j ∉ n :: l) :
    nexts (unlinkBuffer i descs) j = nexts descs j ∧
      prevs (unlinkBuffer i descs) j = prevs descs j := by
  obtain ⟨hprevs, hnexts⟩ := unlinkBuffer_links h hi
  have hji : j ≠ i := fun heq => hj (heq ▸ List.mem_cons_of_mem n hi)
  have hjnext : j ≠ nexts descs i := fun heq => hj (heq ▸ h.prev_mem hi)
  have hjprev : j ≠ prevs descs i := fun heq => hj (heq ▸ h.next_mem hi)
  rw [hprevs, hnexts]
  simp only [Function.update_of_ne hji, Function.update_of_ne hjnext, Function.update_of_ne hjprev,
    and_self]

theorem unlinkBuffer_ring (h : Freelist n descs l) (hi : i ∈ l) :
    Freelist n (unlinkBuffer i descs) (l.erase i) := by
  have herase := h.erase hi
  have hlinks := unlinkBuffer_links h hi
  refine herase.congr fun x hx => ?_
  have hxi : x ≠ i := by
    rcases List.mem_cons.mp hx with rfl | hx
    · exact (h.ne_anchor hi).symm
    · exact (h.nodup.mem_erase_iff.mp hx).1
  rw [hlinks.1, hlinks.2, Function.update_of_ne hxi, Function.update_of_ne hxi]
  exact ⟨rfl, rfl⟩

theorem unlinkBuffer_self (descs : Descriptors) (i : Int) :
    NotInQueue (unlinkBuffer i descs i) := by
  refine ⟨?_, ?_, ?_⟩
  · rw [freeNext_eq]
    unfold unlinkBuffer
    simp
  · rw [freePrev_eq]
    unfold unlinkBuffer
    simp
  · unfold unlinkBuffer setFlags
    rw [Function.update_self]
    exact not_has_clear _ _

theorem rest_setFlags (descs : Descriptors) (i : Int) (flags : BufFlags) (j : Int) :
    rest (setFlags descs i flags j) =
      if j = i then ((descs j).bufId, flags, (descs j).refcount) else rest (descs j) := by
  by_cases h : j = i <;> simp [rest, setFlags, h]

theorem rest_setRefcount (descs : Descriptors) (i : Int) (count : Nat) (j : Int) :
    rest (setRefcount descs i count j) =
      if j = i then ((descs j).bufId, (descs j).flags, count) else rest (descs j) := by
  by_cases h : j = i <;> simp [rest, setRefcount, h]

/-- All other data stays, except that the buffer is not free any more. -/
theorem unlinkBuffer_rest (descs : Descriptors) (i j : Int) :
    rest (unlinkBuffer i descs j) =
      if j = i then ((descs j).bufId, (descs j).flags &&& ~~~BM_FREE, (descs j).refcount)
      else rest (descs j) := by
  unfold unlinkBuffer
  simp only [rest_setFlags, rest_setFreeNext, rest_setFreePrev, bufId_eq, flags_eq, refcount_eq]
  by_cases h : j = i
  · rw [if_pos h, if_pos h, h]
  · rw [if_neg h, if_neg h]

/-! ## On the ring -/

theorem addBufferToFreelist_spec (h : Freelist n descs l) (hi : i ∉ l) (hne : i ≠ n)
    (hid : (descs i).bufId = i) (hnot : NotInQueue (descs i)) :
    ∃ descs', addBufferToFreelist n i descs = some descs' ∧ Freelist n descs' (i :: l) ∧
      (∀ j, rest (descs' j) = rest (descs j)) ∧
      ∀ j, j ∉ n :: i :: l → nexts descs' j = nexts descs j ∧ prevs descs' j = prevs descs j := by
  unfold addBufferToFreelist
  rw [if_pos hnot]
  refine ⟨_, rfl, ?_, fun j => ?_, fun j hj => ?_⟩
  · have hins := h.insert hne hi
    have hid' : (rest (descs i)).1 = i := hid
    simp only [freeNext_eq, freePrev_eq, bufId_eq, nexts_setFreeNext, prevs_setFreeNext,
      nexts_setFreePrev, prevs_setFreePrev, rest_setFreeNext, rest_setFreePrev, hid',
      Function.update_self, Function.update_of_ne hne]
    unfold Freelist
    simp only [nexts_setFreeNext, prevs_setFreeNext, nexts_setFreePrev, prevs_setFreePrev]
    exact hins
  · simp only [rest_setFreeNext, rest_setFreePrev]
  · have hjn : j ≠ n := fun heq => hj (heq ▸ List.mem_cons_self)
    have hji : j ≠ i := fun heq => hj (heq ▸ List.mem_cons_of_mem n List.mem_cons_self)
    have hprev : prevs descs n ≠ j := by
      rintro rfl
      rw [← h.last_eq] at hj
      have hmem : lastCell id n l.reverse ∈ n :: l.reverse.map id := lastCell_mem n _
      rw [List.map_id, List.mem_cons, List.mem_reverse] at hmem
      refine hj (List.mem_cons.mpr (hmem.imp_right fun hm => List.mem_cons_of_mem i hm))
    simp only [freeNext_eq, freePrev_eq, bufId_eq, nexts_setFreeNext, prevs_setFreeNext,
      nexts_setFreePrev, prevs_setFreePrev, Function.update_self, Function.update_of_ne hne,
      Function.update_of_ne hprev.symm, Function.update_of_ne hji, Function.update_of_ne hjn]
    exact ⟨trivial, trivial⟩

/-! ## Taking the first -/

/-- `get_free_buffer` takes the buffer that is the last of the list, if there is one. -/
theorem getFreeBuffer_eq (h : Freelist n descs l) :
    getFreeBuffer n descs = match l.getLast? with
      | none => (none, descs)
      | some i => (some i, unlinkBuffer i descs) := by
  have hlast := h.prev_anchor
  unfold getFreeBuffer
  rw [freeNext_eq, ← hlast]
  rcases List.eq_nil_or_concat' l with rfl | ⟨init, x, rfl⟩
  · exact if_pos rfl
  · have hx : lastCell id n (init ++ [x]) = x := by
      rw [lastCell_append]
      rfl
    rw [hx, if_neg (h.ne_anchor (List.mem_append_right _ List.mem_cons_self)).symm,
      List.getLast?_concat]

end PostgresV7.Buffer
