import PostgresV7.Fd.Fd
import PostgresV7.Lib.Outcomes
import PostgresV7.Lib.Ring

/-!
# The ring and the free list (`fd.c`)

What the log says about the order of the ring is what the links say. A slot that was
allocated and has no name yet is neither in the free list nor in use.
-/

namespace PostgresV7.Fd

open Chains Rings Recency Outcomes

variable {σ : Type} {os : Os σ} {st st' : FdState σ} {file : File} {limbo : Option File}

/-- How an event touches the ring. -/
def Event.use : Event → Option (Use File)
  | .opened file | .reopened file | .accessed file => some (.touch file)
  | .closed file => some (.drop file)
  | _ => none

def uses (log : List Event) : List (Use File) := log.filterMap Event.use

/-- The open files, the most recently used one first. -/
def FdState.lru (st : FdState σ) : List File := order (uses st.log)

/-- A slot of the array that holds no file. -/
def Spare (st : FdState σ) (i : Nat) : Prop := 0 < i ∧ i < st.sizeVfdCache ∧ st.filename i = none

/-- Ring and free list are as they should be; `limbo` is the slot on its way from the
free list into use. -/
structure Linked (st : FdState σ) (limbo : Option File) : Prop where
  ring : Ring 0 st.lruLessRecently st.lruMoreRecently st.lru
  open_iff : ∀ i, i ∈ st.lru ↔ st.fd i ≠ VFD_CLOSED
  nFile : st.nFile = st.lru.length
  free : ∃ l, Chain id 0 st.nextFree 0 l ∧ ∀ i, i ∈ l ↔ Spare st i ∧ some i ≠ limbo
  within : ∀ i : Nat, st.filename i ≠ none ∨ some i = limbo → 0 < i ∧ i < st.sizeVfdCache
  named : ∀ i ∈ st.lru, st.filename i ≠ none ∨ some i = limbo

/-- The other fields of the slots do not matter. -/
theorem Linked.of_eq (h : Linked st limbo) (hlru : st'.lru = st.lru) (hfd : st'.fd = st.fd)
    (hless : st'.lruLessRecently = st.lruLessRecently) (hmore : st'.lruMoreRecently = st.lruMoreRecently)
    (hn : st'.nFile = st.nFile) (hfree : st'.nextFree = st.nextFree)
    (hname : st'.filename = st.filename) (hsize : st'.sizeVfdCache = st.sizeVfdCache) :
    Linked st' limbo := by
  refine ⟨?_, ?_, ?_, ?_, ?_, ?_⟩
  · rw [hlru, hless, hmore]
    exact h.ring
  · rw [hlru, hfd]
    exact h.open_iff
  · rw [hn, hlru]
    exact h.nFile
  · unfold Spare
    rw [hfree, hname, hsize]
    exact h.free
  · rw [hname, hsize]
    exact h.within
  · rw [hlru, hname]
    exact h.named

theorem Linked.closed_zero (h : Linked st limbo) : st.fd 0 = VFD_CLOSED := by
  by_contra hne
  exact h.ring.ne_anchor ((h.open_iff 0).mpr hne) rfl

theorem Linked.ne_zero (h : Linked st limbo) (hfile : file ∈ st.lru) : file ≠ 0 :=
  h.ring.ne_anchor hfile

theorem FileIsValid.ne_zero (hvalid : FileIsValid st file) : file ≠ 0 :=
  Nat.pos_iff_ne_zero.mp hvalid.1

theorem lru_nodup (st : FdState σ) : st.lru.Nodup := order_nodup _

/-! ## Unlinking and linking -/

/-- The ring without a file. -/
def FdState.unlinked (st : FdState σ) (file : File) : FdState σ :=
  let more := Function.update st.lruMoreRecently (st.lruLessRecently file) (st.lruMoreRecently file)
  { st with
    lruMoreRecently := more
    lruLessRecently := Function.update st.lruLessRecently (more file) (st.lruLessRecently file) }

theorem delete_eq (hfile : file ≠ 0) : delete st file = .ok (st.unlinked file) := if_neg hfile

/-- The ring with a file in front. -/
def FdState.linked (st : FdState σ) (file : File) : FdState σ :=
  let more := Function.update st.lruMoreRecently file 0
  let less := Function.update st.lruLessRecently file (st.lruLessRecently 0)
  let less := Function.update less 0 file
  { st with
    lruLessRecently := less
    lruMoreRecently := Function.update more (less file) file }

theorem insert_eq (hfile : file ≠ 0) : insert st file = .ok (st.linked file) := if_neg hfile

theorem ring_unlinked {l : List File} (h : Ring 0 st.lruLessRecently st.lruMoreRecently l)
    (hfile : file ∈ l) :
    Ring 0 (st.unlinked file).lruLessRecently (st.unlinked file).lruMoreRecently (l.erase file) := by
  have hring := h.erase hfile
  have hne : st.lruLessRecently file ≠ file := h.flip.prev_ne (List.mem_reverse.mpr hfile)
  unfold FdState.unlinked
  dsimp only
  rw [Function.update_of_ne hne.symm]
  exact hring

theorem ring_linked {l : List File} (h : Ring 0 st.lruLessRecently st.lruMoreRecently l)
    (hzero : file ≠ 0) (hfile : file ∉ l) :
    Ring 0 (st.linked file).lruLessRecently (st.linked file).lruMoreRecently (file :: l) := by
  have hring := h.insert hzero hfile
  unfold FdState.linked
  dsimp only
  rw [Function.update_of_ne hzero, Function.update_self]
  exact hring

/-! ## Closing a descriptor -/

/-- The state after a descriptor was closed: `evs` are the events on the way. -/
def FdState.shut (st : FdState σ) (file : File) (seekPos : File → Int) (dirty : File → Bool) (os : σ)
    (evs : List Event) : FdState σ :=
  { st.unlinked file with
    seekPos := seekPos
    dirty := dirty
    os := os
    nFile := st.nFile - 1
    fd := Function.update st.fd file VFD_CLOSED
    log := .closed file :: (evs ++ st.log) }

theorem uses_append {evs : List Event} (hevs : ∀ ev ∈ evs, ev.use = none) (log : List Event) :
    uses (evs ++ log) = uses log := by
  unfold uses
  rw [List.filterMap_append, List.filterMap_eq_nil_iff.mpr hevs, List.nil_append]

variable {seekPos : File → Int} {dirty : File → Bool} {os' : σ} {evs : List Event}

theorem lru_shut (hevs : ∀ ev ∈ evs, ev.use = none) :
    (st.shut file seekPos dirty os' evs).lru = st.lru.erase file := by
  show order (uses (.closed file :: (evs ++ st.log))) = _
  have huses : uses (.closed file :: (evs ++ st.log)) = .drop file :: uses st.log :=
    congrArg _ (uses_append hevs st.log)
  rw [huses]
  rfl

theorem Linked.shut (h : Linked st limbo) (hfile : file ∈ st.lru)
    (hevs : ∀ ev ∈ evs, ev.use = none) :
    Linked (st.shut file seekPos dirty os' evs) limbo := by
  have hmem : ∀ i, i ∈ st.lru.erase file ↔ i ≠ file ∧ i ∈ st.lru := fun i =>
    (lru_nodup st).mem_erase_iff
  refine ⟨?_, fun i => ?_, ?_, h.free, h.within, fun i hi => h.named i ?_⟩
  · rw [lru_shut hevs]
    exact ring_unlinked h.ring hfile
  · rw [lru_shut hevs, hmem]
    show _ ↔ Function.update st.fd file VFD_CLOSED i ≠ VFD_CLOSED
    by_cases hi : i = file
    · rw [hi, Function.update_self]
      exact iff_of_false (fun hand => hand.1 rfl) (fun hne => hne rfl)
    · rw [Function.update_of_ne hi, ← h.open_iff]
      exact and_iff_right hi
  · rw [lru_shut hevs, List.length_erase_of_mem hfile]
    exact congrArg (· - 1) h.nFile
  · rw [lru_shut hevs] at hi
    exact ((hmem i).mp hi).2

/-! ## Opening a descriptor -/

/-- The state after a descriptor was opened for a file. -/
def FdState.entered (st : FdState σ) (file : File) (fd : Int) (os : σ) (ev : Event) : FdState σ :=
  { (st.setFd file fd).linked file with
    nFile := st.nFile + 1
    os := os
    log := ev :: st.log }

theorem lru_cons {ev : Event} (hev : ev.use = some (.touch file)) (hlog : st'.log = ev :: st.log) :
    st'.lru = file :: st.lru.erase file := by
  unfold FdState.lru uses
  rw [hlog, List.filterMap_cons_some hev]
  rfl

/-- A file that is first in the ring is noted as accessed. -/
theorem Linked.note_accessed {l : List File} (h : Linked st limbo) (hlru : st.lru = file :: l) :
    Linked (st.note (.accessed file)) limbo := by
  refine h.of_eq ?_ rfl rfl rfl rfl rfl rfl rfl
  rw [lru_cons rfl rfl, hlru, List.erase_cons_head]

theorem Linked.enter {fd : Int} {ev : Event} (h : Linked st limbo) (hclosed : st.fd file = VFD_CLOSED)
    (hfd : toShort fd ≠ VFD_CLOSED) (huse : st.filename file ≠ none ∨ some file = limbo)
    (hev : ev.use = some (.touch file)) : Linked (st.entered file fd os' ev) limbo := by
  have hnot : file ∉ st.lru := fun hmem => (h.open_iff file).mp hmem hclosed
  have hlru : (st.entered file fd os' ev).lru = file :: st.lru := by
    rw [lru_cons hev rfl, List.erase_of_not_mem hnot]
  refine ⟨?_, fun i => ?_, ?_, h.free, h.within, fun i hi => ?_⟩
  · rw [hlru]
    exact ring_linked h.ring (Nat.pos_iff_ne_zero.mp (h.within file huse).1) hnot
  · rw [hlru, List.mem_cons, h.open_iff]
    show _ ↔ Function.update st.fd file (toShort fd) i ≠ VFD_CLOSED
    by_cases hi : i = file
    · rw [hi, Function.update_self]
      exact iff_of_true (.inl rfl) hfd
    · rw [Function.update_of_ne hi]
      exact or_iff_right hi
  · rw [hlru]
    exact congrArg (· + 1) h.nFile
  · rw [hlru] at hi
    rcases List.mem_cons.mp hi with rfl | hmem
    · exact huse
    · exact h.named i hmem

/-- The state after an open file was moved to the front. -/
def FdState.touched (st : FdState σ) (file : File) : FdState σ :=
  if st.lruLessRecently 0 ≠ file then ((st.unlinked file).linked file).note (.accessed file)
  else st.note (.accessed file)

theorem lru_touched : (st.touched file).lru = file :: st.lru.erase file := by
  unfold FdState.touched
  split <;> exact lru_cons rfl rfl

theorem ring_touched {l : List File} (h : Ring 0 st.lruLessRecently st.lruMoreRecently l)
    (hfile : file ∈ l) :
    Ring 0 (st.touched file).lruLessRecently (st.touched file).lruMoreRecently
      (file :: l.erase file) := by
  unfold FdState.touched
  split
  · exact ring_linked (ring_unlinked h hfile) (h.ne_anchor hfile)
      (h.nodup.not_mem_erase)
  · rename_i hhead
    cases l with
    | nil => cases hfile
    | cons x l =>
      obtain rfl : x = file := h.forth.1.symm.trans (not_not.mp hhead)
      rw [List.erase_cons_head]
      exact h

theorem Linked.touch (h : Linked st limbo) (hfile : file ∈ st.lru) :
    Linked (st.touched file) limbo := by
  have hsame : (st.touched file).fd = st.fd ∧ (st.touched file).nFile = st.nFile ∧
      (st.touched file).nextFree = st.nextFree ∧ (st.touched file).filename = st.filename ∧
      (st.touched file).sizeVfdCache = st.sizeVfdCache := by
    unfold FdState.touched
    split <;> exact ⟨rfl, rfl, rfl, rfl, rfl⟩
  obtain ⟨hfd, hn, hfree, hname, hsize⟩ := hsame
  have hmem : ∀ i, i ∈ file :: st.lru.erase file ↔ i ∈ st.lru := fun i =>
    (List.perm_cons_erase hfile).symm.mem_iff
  refine ⟨?_, fun i => ?_, ?_, ?_, ?_, fun i hi => ?_⟩
  · rw [lru_touched]
    exact ring_touched h.ring hfile
  · rw [lru_touched, hmem, hfd]
    exact h.open_iff i
  · rw [lru_touched, hn, h.nFile]
    exact (List.perm_cons_erase hfile).length_eq
  · unfold Spare
    rw [hfree, hname, hsize]
    exact h.free
  · rw [hname, hsize]
    exact h.within
  · rw [lru_touched, hmem] at hi
    rw [hname]
    exact h.named i hi

end PostgresV7.Fd
