import PostgresV7.Fd.Names
import PostgresV7.Fd.Sync
import PostgresV7.Lib.Decimal
import Mathlib.Data.List.Perm.Basic

/-!
# The end of a transaction (`fd.c`)

Files opened through `stdio` and temporary files are let go by `at_eo_xact_files`. It
frees slots of the array it goes through, and moves entries of the other array while it
empties it.
-/

namespace PostgresV7.Xact

open Fd Chains Outcomes Decimal

/-- A `FILE *`. -/
abbrev Stream := Nat

def MAX_ALLOCATED_FILES : Nat := 32

/-- What is called of `stdio`. -/
structure Stdio (σ : Type) where
  fopen : FileName → List Char → σ → Except Errno Stream × σ
  /-- `false` is `EOF`. -/
  fclose : Stream → σ → Bool × σ

variable {σ τ : Type}

/-- Its calls have nothing to do with what is kept beside the system. -/
def Stdio.beside (io : Stdio σ) : Stdio (σ × τ) where
  fopen name mode s := ((io.fopen name mode s.1).1, ((io.fopen name mode s.1).2, s.2))
  fclose file s := ((io.fclose file s.1).1, ((io.fclose file s.1).2, s.2))

/-- The virtual file descriptors, `AllocatedFiles` and `TempFileCounter`. `fclosed` are the
streams that were closed, the last one first; no code reads it. -/
structure XactState (σ : Type) where
  vfds : FdState σ
  allocatedFiles : Nat → Stream
  tempFileCounter : Nat
  fclosed : List Stream

/-! ## Files through `stdio` -/

/-- The loop of `allocate_file`, with `k` tries left. -/
def tryAllocate (os : Os σ) (io : Stdio σ) (name : FileName) (mode : List Char) :
    Nat → XactState σ → Except Fault (Option Stream × XactState σ)
  | k, st =>
    let (result, s) := io.fopen name mode st.vfds.os
    let vfds := { st.vfds with os := s }
    match result with
    | .ok file =>
      .ok (some file, { st with
        vfds := { vfds with numAllocatedFiles := vfds.numAllocatedFiles + 1 }
        allocatedFiles := Function.update st.allocatedFiles vfds.numAllocatedFiles file })
    | .error errno =>
      if errno = .EMFILE ∨ errno = .ENFILE then do
        let (released, vfds) ← releaseLruFile os vfds
        if released then
          match k with
          | 0 => .error .endless
          | k + 1 => tryAllocate os io name mode k { st with vfds := vfds }
        else .ok (none, { st with vfds := vfds })
      else .ok (none, { st with vfds := vfds })

/-- `allocate_file`. -/
def allocateFile (os : Os σ) (io : Stdio σ) (st : XactState σ) (name : FileName) (mode : List Char) :
    Except Fault (Option Stream × XactState σ) :=
  if st.vfds.numAllocatedFiles ≥ MAX_ALLOCATED_FILES then .error .elog
  else tryAllocate os io name mode st.vfds.nFile st

/-- The search of `free_file`, from the end. -/
def findAllocated (allocatedFiles : Nat → Stream) (file : Stream) : Nat → Option Nat
  | 0 => none
  | i + 1 => if allocatedFiles i = file then some i else findAllocated allocatedFiles file i

/-- The entry of a file is overwritten with the last one. -/
def forget (st : XactState σ) (file : Stream) : XactState σ :=
  match findAllocated st.allocatedFiles file st.vfds.numAllocatedFiles with
  | some i =>
    let last := st.vfds.numAllocatedFiles - 1
    { st with
      vfds := { st.vfds with numAllocatedFiles := last }
      allocatedFiles := Function.update st.allocatedFiles i (st.allocatedFiles last) }
  | none => st

/-- `free_file`. A file that was not obtained from `allocate_file` is closed too. -/
def freeFile (io : Stdio σ) (st : XactState σ) (file : Stream) : XactState σ :=
  let st := forget st file
  { st with
    vfds := { st.vfds with os := (io.fclose file st.vfds.os).2 }
    fclosed := file :: st.fclosed }

/-- The loop that frees the first file as long as there is one, with `k` steps left. -/
def freeAllocated (io : Stdio σ) : Nat → XactState σ → Except Fault (XactState σ)
  | k, st =>
    if st.vfds.numAllocatedFiles > 0 then
      match k with
      | 0 => .error .endless
      | k + 1 => freeAllocated io k (freeFile io st (st.allocatedFiles 0))
    else .ok st

/-! ## Temporary files -/

def tempFilename (pid counter : Nat) : FileName :=
  "pg_sorttemp".toList ++ decimal pid ++ '.' :: decimal counter

/-- `open_temporary_file`. The name is relative, so that `file_name_open_file` gives to `pfree`
what came from `malloc`; that `pfree` is taken to return. -/
def openTemporaryFile (os : Os σ) (pid : Nat) (st : XactState σ) : Except Fault (File × XactState σ) := do
  let (fname, _) := filepath st.vfds (tempFilename pid st.tempFileCounter)
  let (file, vfds) ← fileNameOpenFileAux os st.vfds fname { access := .O_RDWR, creat := true, trunc := true }
    0o600
  match file with
  | some file =>
    .ok (file, { st with
      vfds := { vfds with temporary := Function.update vfds.temporary file true }
      tempFileCounter := st.tempFileCounter + 1 })
  | none => .error .elog

/-- The loop of `at_eo_xact_files` over the slots. -/
def endSlots (os : Os σ) (vfds : FdState σ) : Except Fault (FdState σ) :=
  if vfds.sizeVfdCache > 0 then
    if vfds.fd 0 ≠ VFD_CLOSED then .error .broken
    else endVfds os (List.range' 1 (vfds.sizeVfdCache - 1)) vfds
  else .ok vfds

/-- `at_eo_xact_files`. -/
def atEoXactFiles (os : Os σ) (io : Stdio σ) (st : XactState σ) : Except Fault (XactState σ) := do
  let vfds ← endSlots os st.vfds
  let st ← freeAllocated io vfds.numAllocatedFiles { st with vfds := vfds }
  .ok { st with tempFileCounter := 0 }

/-! ## Runs -/

inductive XactOp where
  | vfd (op : Op)
  | openTemporary
  | allocate (name : FileName) (mode : List Char)
  | free (file : Stream)
  | endXact

/-- One operation; `at_eo_xact_files` is the one of this module. -/
def xactStep (os : Os σ) (io : Stdio σ) (pid : Nat) (st : XactState σ) : XactOp → Except Fault (XactState σ)
  | .vfd op =>
    if op = .endXact then atEoXactFiles os io st
    else do
      let (_, vfds) ← step os st.vfds op
      .ok { st with vfds := vfds }
  | .openTemporary => do
    let (_, st) ← openTemporaryFile os pid st
    .ok st
  | .allocate name mode => do
    let (_, st) ← allocateFile os io st name mode
    .ok st
  | .free file => .ok (freeFile io st file)
  | .endXact => atEoXactFiles os io st

def xactRun (os : Os σ) (io : Stdio σ) (pid : Nat) : List XactOp → XactState σ → Except Fault (XactState σ)
  | [], st => .ok st
  | op :: ops, st => do
    let st ← xactStep os io pid st op
    xactRun os io pid ops st

def XactState.init (databasePath : FileName) (enableFsync : Bool) (s : σ) : XactState σ :=
  ⟨FdState.init databasePath enableFsync s, fun _ => 0, 0, []⟩

/-! ## The array of streams -/

/-- The entries in use. -/
def allocated (st : XactState σ) : List Stream :=
  (List.range st.vfds.numAllocatedFiles).map st.allocatedFiles

theorem findAllocated_spec (files : Nat → Stream) (file : Stream) (n : Nat) :
    (∀ i, findAllocated files file n = some i → i < n ∧ files i = file) ∧
      (findAllocated files file n = none → ∀ i < n, files i ≠ file) := by
  induction n with
  | zero =>
    constructor
    · intro i hi
      cases hi
    · intro _ i hi
      cases hi
  | succ n ih =>
    obtain ⟨hfound, hnone⟩ := ih
    unfold findAllocated
    split
    · rename_i heq
      constructor
      · intro i hi
        obtain rfl := Option.some.inj hi
        exact ⟨Nat.lt_succ_self n, heq⟩
      · intro hi
        cases hi
    · rename_i hne
      constructor
      · intro i hi
        obtain ⟨hlt, heq⟩ := hfound i hi
        exact ⟨Nat.lt_succ_of_lt hlt, heq⟩
      · intro hi i hlt
        rcases Nat.lt_succ_iff_lt_or_eq.mp hlt with hlt | rfl
        · exact hnone hi i hlt
        · exact hne

theorem map_range_update {files : Nat → Stream} {i n : Nat} {x : Stream} :
    (List.range n).map (Function.update files i x) = ((List.range n).map files).set i x := by
  apply List.ext_getElem
  · simp
  · intro j hj _
    have hlt : j < n := by simpa using hj
    by_cases hji : j = i
    · simp [hji]
    · simp [hji, Ne.symm hji]

/-- Nothing but the file is lost when its entry is overwritten with the last one. -/
theorem moveLast_perm (files : Nat → Stream) {i n : Nat} (hi : i ≤ n) :
    (files i :: (List.range n).map (Function.update files i (files n))).Perm
      ((List.range (n + 1)).map files) := by
  rw [map_range_update, List.range_succ, List.map_append, List.map_singleton]
  rcases Nat.lt_or_eq_of_le hi with hlt | rfl
  · have hlen : i < ((List.range n).map files).length := by simpa using hlt
    have hget : ((List.range n).map files)[i] = files i := by simp
    have hset := List.set_perm_cons_eraseIdx hlen (files n)
    have hback := List.getElem_cons_eraseIdx_perm hlen
    rw [hget] at hback
    calc (files i :: ((List.range n).map files).set i (files n)).Perm
          (files i :: files n :: ((List.range n).map files).eraseIdx i) := hset.cons _
      _ |>.Perm (files n :: files i :: ((List.range n).map files).eraseIdx i) := List.Perm.swap _ _ _
      _ |>.Perm (files n :: (List.range n).map files) := hback.cons _
      _ |>.Perm ((List.range n).map files ++ [files n]) := (List.perm_append_singleton _ _).symm
  · rw [List.set_eq_of_length_le (by simp)]
    exact (List.perm_append_singleton _ _).symm

variable {os : Os σ} {io : Stdio σ} {st st' : XactState σ}

/-- Freeing the first file closes it and takes it out of the array. -/
theorem freeFile_first (io : Stdio σ) (hpos : 0 < st.vfds.numAllocatedFiles) :
    ((st.allocatedFiles 0) :: allocated (freeFile io st (st.allocatedFiles 0))).Perm (allocated st) ∧
      (freeFile io st (st.allocatedFiles 0)).vfds.numAllocatedFiles + 1 = st.vfds.numAllocatedFiles := by
  obtain ⟨n, hn⟩ := Nat.exists_eq_succ_of_ne_zero (Nat.pos_iff_ne_zero.mp hpos)
  have hspec := findAllocated_spec st.allocatedFiles (st.allocatedFiles 0) st.vfds.numAllocatedFiles
  cases hfind : findAllocated st.allocatedFiles (st.allocatedFiles 0) st.vfds.numAllocatedFiles with
  | none => exact absurd rfl (hspec.2 hfind 0 hpos)
  | some i =>
    obtain ⟨hlt, hfile⟩ := hspec.1 i hfind
    have hperm := moveLast_perm st.allocatedFiles (Nat.le_of_lt_succ (hn ▸ hlt))
    rw [hfile] at hperm
    rw [hn] at hfind
    simp only [freeFile, forget, hfind, allocated, hn, Nat.succ_eq_add_one, Nat.add_sub_cancel]
    exact ⟨hperm, trivial⟩

/-- What the loop over the streams leaves as it was. -/
structure SameSlots (vfds vfds' : FdState σ) : Prop where
  fd : vfds'.fd = vfds.fd
  dirty : vfds'.dirty = vfds.dirty
  temporary : vfds'.temporary = vfds.temporary
  nextFree : vfds'.nextFree = vfds.nextFree
  seekPos : vfds'.seekPos = vfds.seekPos
  filename : vfds'.filename = vfds.filename
  size : vfds'.sizeVfdCache = vfds.sizeVfdCache

theorem SameSlots.trans {vfds vfds' vfds'' : FdState σ} (h : SameSlots vfds vfds') (h' : SameSlots vfds' vfds'') :
    SameSlots vfds vfds'' :=
  ⟨h'.fd.trans h.fd, h'.dirty.trans h.dirty, h'.temporary.trans h.temporary, h'.nextFree.trans h.nextFree,
    h'.seekPos.trans h.seekPos, h'.filename.trans h.filename, h'.size.trans h.size⟩

theorem freeFile_slots (file : Stream) : SameSlots st.vfds (freeFile io st file).vfds := by
  unfold freeFile forget
  dsimp only
  split <;> exact ⟨rfl, rfl, rfl, rfl, rfl, rfl, rfl⟩

theorem freeFile_os (file : Stream) : (freeFile io st file).vfds.os = (io.fclose file st.vfds.os).2 := by
  unfold freeFile forget
  dsimp only
  split <;> rfl

theorem freeFile_fclosed (file : Stream) : (freeFile io st file).fclosed = file :: st.fclosed := by
  unfold freeFile forget
  dsimp only
  split <;> rfl

/-- The loop ends with an empty array, and every entry was closed. -/
theorem freeAllocated_spec (io : Stdio σ) (st : XactState σ) {k : Nat} (hk : st.vfds.numAllocatedFiles ≤ k) :
    ∃ st', freeAllocated io k st = .ok st' ∧ st'.vfds.numAllocatedFiles = 0 ∧
      SameSlots st.vfds st'.vfds ∧
      ∃ closed, st'.fclosed = closed ++ st.fclosed ∧ closed.Perm (allocated st) := by
  induction k generalizing st with
  | zero =>
    have hzero : st.vfds.numAllocatedFiles = 0 := Nat.le_zero.mp hk
    refine ⟨st, ?_, hzero, ⟨rfl, rfl, rfl, rfl, rfl, rfl, rfl⟩, [], rfl, ?_⟩
    · simp [freeAllocated, hzero]
    · simp [allocated, hzero]
  | succ k ih =>
    by_cases hpos : 0 < st.vfds.numAllocatedFiles
    · obtain ⟨hperm, hnum⟩ := freeFile_first io hpos
      have hk' : (freeFile io st (st.allocatedFiles 0)).vfds.numAllocatedFiles ≤ k := by omega
      obtain ⟨st', hrun, hzero, hslots, closed, hclosed, hrest⟩ := ih _ hk'
      refine ⟨st', ?_, hzero, (freeFile_slots _).trans hslots, closed ++ [st.allocatedFiles 0], ?_, ?_⟩
      · rw [freeAllocated, if_pos hpos]
        exact hrun
      · rw [hclosed, freeFile_fclosed]
        simp
      · calc (closed ++ [st.allocatedFiles 0]).Perm (st.allocatedFiles 0 :: closed) :=
              List.perm_append_singleton _ _
          _ |>.Perm (st.allocatedFiles 0 :: allocated (freeFile io st (st.allocatedFiles 0))) := hrest.cons _
          _ |>.Perm (allocated st) := hperm
    · have hzero : st.vfds.numAllocatedFiles = 0 := Nat.eq_zero_of_not_pos hpos
      refine ⟨st, ?_, hzero, ⟨rfl, rfl, rfl, rfl, rfl, rfl, rfl⟩, [], rfl, ?_⟩
      · rw [freeAllocated, if_neg hpos]
      · simp [allocated, hzero]

/-- What is kept beside the system is not changed. -/
theorem freeAllocated_beside {io : Stdio σ} {st st' : XactState (σ × τ)} {k : Nat}
    (h : freeAllocated io.beside k st = .ok st') : st'.vfds.os.2 = st.vfds.os.2 := by
  induction k generalizing st with
  | zero =>
    unfold freeAllocated at h
    split at h
    · cases h
    · rw [Except.ok.inj h]
  | succ k ih =>
    unfold freeAllocated at h
    split at h
    · rw [ih h, freeFile_os]
      rfl
    · rw [Except.ok.inj h]

/-! ## The array of slots -/

variable {vfds vfds' vfds'' : FdState σ} {file : File}

/-- The system closes a temporary file, if it is open, and is told to remove it. -/
def Removes (os : Os σ) (vfds : FdState σ) (file : File) (s s' : σ) : Prop :=
  ∃ s₁ errno,
    (if vfds.fd file = VFD_CLOSED then s₁ = s
      else ∃ s₀, SyncedBy os vfds file s s₀ ∧ os.close (vfds.fd file) s₀ = some (true, s₁)) ∧
    os.unlink ((vfds.filename file).getD []) s₁ = some (errno, s')

/-- The state after that. -/
def removed (vfds : FdState σ) (file : File) (s : σ) : FdState σ :=
  freeVfd { (if vfds.fd file = VFD_CLOSED then vfds else vfds.shut file vfds.seekPos
      (Function.update vfds.dirty file false) s (syncEvents vfds file)) with
    temporary := Function.update vfds.temporary file false
    os := s } file

theorem fileClose_removed (hvalid : FileIsValid vfds file) (htemp : vfds.temporary file = true) :
    Ends (fun _ => True) (fileClose os vfds file) fun vfds' => ∃ s,
      Removes os vfds file vfds.os s ∧ vfds' = removed vfds file s := by
  unfold fileClose
  rw [if_neg (not_not.mpr hvalid)]
  apply Ends.bind (closeIfOpen_ends (fun _ => ⟨fun _ => trivial, fun _ _ => trivial⟩)
    (fun _ _ _ => ⟨fun _ => trivial, fun _ _ => trivial⟩) hvalid.ne_zero)
  intro vfds₁ hclosed
  apply Ends.bind (unlinkIfTemporary_ends fun _ => trivial)
  intro vfds₂ ⟨s, hunlink, hvfds₂⟩
  rcases hclosed with ⟨hfd, rfl⟩ | ⟨hfd, s₀, s₁, hsync, hclose, rfl⟩
  · rw [if_pos htemp] at hunlink
    obtain ⟨errno, hunlink⟩ := hunlink
    refine ⟨s, ⟨vfds₁.os, errno, ?_, hunlink⟩, ?_⟩
    · rw [if_pos hfd]
    · simp [removed, hfd, hvfds₂]
  · have htemp' : (vfds.shut file vfds.seekPos (Function.update vfds.dirty file false) s₁
        (syncEvents vfds file)).temporary file = true := htemp
    rw [if_pos htemp'] at hunlink
    obtain ⟨errno, hunlink⟩ := hunlink
    refine ⟨s, ⟨s₁, errno, ?_, hunlink⟩, ?_⟩
    · rw [if_neg hfd]
      exact ⟨s₀, hsync, hclose⟩
    · rw [hvfds₂]
      simp only [removed, hfd, if_false]
      rfl

theorem syncIfDirty_synced {s : σ} (h : SyncedBy os vfds file vfds.os s) :
    ∃ vfds', syncIfDirty os vfds file = .ok vfds' ∧ vfds'.os = s ∧ vfds'.fd = vfds.fd ∧
      vfds'.temporary = vfds.temporary ∧ vfds'.filename = vfds.filename := by
  unfold SyncedBy at h
  unfold syncIfDirty pgFsync
  by_cases hdirty : vfds.dirty file = true
  · by_cases hfsync : vfds.enableFsync = true
    · rw [if_pos ⟨hdirty, hfsync⟩] at h
      simp only [hdirty, hfsync, if_true, FdState.sys, h, bind, Except.bind]
      split <;> exact ⟨_, rfl, rfl, rfl, rfl, rfl⟩
    · rw [if_neg fun hand => hfsync hand.2] at h
      simp only [hdirty, hfsync, if_true, bind, Except.bind]
      exact ⟨_, rfl, h.symm, rfl, rfl, rfl⟩
  · rw [if_neg fun hand => hdirty hand.1] at h
    rw [if_neg hdirty]
    exact ⟨_, rfl, h.symm, rfl, rfl, rfl⟩

theorem closeDescriptor_closed {s : σ} (h : os.close (vfds.fd file) vfds.os = some (true, s)) :
    ∃ vfds', closeDescriptor os vfds file = .ok vfds' ∧ vfds'.os = s ∧
      vfds'.temporary = vfds.temporary ∧ vfds'.filename = vfds.filename := by
  simp only [closeDescriptor, FdState.sys, h, bind, Except.bind, if_true]
  exact ⟨_, rfl, rfl, rfl, rfl⟩

theorem unlinkIfTemporary_unlinked {errno : Option Errno} {s : σ}
    (h : os.unlink ((vfds.filename file).getD []) vfds.os = some (errno, s)) :
    ∃ vfds', unlinkIfTemporary os vfds file = .ok vfds' := by
  unfold unlinkIfTemporary
  split
  · simp only [FdState.sys, h, bind, Except.bind]
    exact ⟨_, rfl⟩
  · exact ⟨_, rfl⟩

theorem syncedBy_unique {s s₁ s₂ : σ} (h₁ : SyncedBy os vfds file s s₁) (h₂ : SyncedBy os vfds file s s₂) :
    s₁ = s₂ := by
  unfold SyncedBy at h₁ h₂
  split at h₁ <;> simp_all

theorem Removes.unique {s s₁ s₂ : σ} (h₁ : Removes os vfds file s s₁) (h₂ : Removes os vfds file s s₂) :
    s₁ = s₂ := by
  obtain ⟨t₁, errno₁, hclosed₁, hunlink₁⟩ := h₁
  obtain ⟨t₂, errno₂, hclosed₂, hunlink₂⟩ := h₂
  have ht : t₁ = t₂ := by
    by_cases hfd : vfds.fd file = VFD_CLOSED
    · rw [if_pos hfd] at hclosed₁ hclosed₂
      exact hclosed₁.trans hclosed₂.symm
    · rw [if_neg hfd] at hclosed₁ hclosed₂
      obtain ⟨u₁, hsync₁, hclose₁⟩ := hclosed₁
      obtain ⟨u₂, hsync₂, hclose₂⟩ := hclosed₂
      rw [syncedBy_unique hsync₁ hsync₂, hclose₂] at hclose₁
      exact ((Prod.mk.inj (Option.some.inj hclose₁)).2).symm
  rw [ht, hunlink₂] at hunlink₁
  exact ((Prod.mk.inj (Option.some.inj hunlink₁)).2).symm

/-- If the system does its part, `file_close` returns. -/
theorem Removes.returns {s : σ} (h : Removes os vfds file vfds.os s) (hvalid : FileIsValid vfds file) :
    ∃ vfds', fileClose os vfds file = .ok vfds' := by
  obtain ⟨s₁, errno, hclosed, hunlink⟩ := h
  have hclose : ∃ vfds₁, closeIfOpen os vfds file = .ok vfds₁ ∧ vfds₁.os = s₁ ∧
      vfds₁.filename = vfds.filename := by
    unfold closeIfOpen
    by_cases hfd : vfds.fd file = VFD_CLOSED
    · rw [if_pos hfd] at hclosed
      rw [if_neg (not_not.mpr hfd)]
      exact ⟨vfds, rfl, hclosed.symm, rfl⟩
    · rw [if_neg hfd] at hclosed
      obtain ⟨s₀, hsync, hclose⟩ := hclosed
      have hsync' : SyncedBy os (vfds.unlinked file) file (vfds.unlinked file).os s₀ := hsync
      obtain ⟨vfds₂, hrun₂, hos₂, hfd₂, _, hname₂⟩ := syncIfDirty_synced hsync'
      have hclose' : os.close (vfds₂.fd file) vfds₂.os = some (true, s₁) := by
        rw [hos₂, hfd₂]
        exact hclose
      obtain ⟨vfds₃, hrun₃, hos₃, _, hname₃⟩ := closeDescriptor_closed hclose'
      rw [if_pos hfd, delete_eq hvalid.ne_zero, ok_bind, hrun₂, ok_bind]
      exact ⟨vfds₃, hrun₃, hos₃, hname₃.trans hname₂⟩
  obtain ⟨vfds₁, hrun, hos, hname⟩ := hclose
  rw [← hos, ← hname] at hunlink
  obtain ⟨vfds₂, hrun₂⟩ := unlinkIfTemporary_unlinked hunlink
  unfold fileClose
  rw [if_neg (not_not.mpr hvalid), hrun, ok_bind, hrun₂]
  exact ⟨_, rfl⟩

/-- A slot and all that is about it. -/
structure SameSlot (vfds vfds' : FdState σ) (i : File) : Prop where
  fd : vfds'.fd i = vfds.fd i
  dirty : vfds'.dirty i = vfds.dirty i
  temporary : vfds'.temporary i = vfds.temporary i
  seekPos : vfds'.seekPos i = vfds.seekPos i
  filename : vfds'.filename i = vfds.filename i
  size : vfds'.sizeVfdCache = vfds.sizeVfdCache
  enableFsync : vfds'.enableFsync = vfds.enableFsync

theorem removed_same {i : File} {s : σ} (hi : i ≠ file) : SameSlot vfds (removed vfds file s) i := by
  unfold removed
  split <;> constructor <;> simp [freeVfd, FdState.shut, FdState.unlinked, hi]

/-- A slot that is not to be synced any more. -/
def cleaned (vfds : FdState σ) (file : File) : FdState σ :=
  { vfds with dirty := Function.update vfds.dirty file false }

theorem cleaned_same {i : File} (hi : i ≠ file) : SameSlot vfds (cleaned vfds file) i := by
  constructor <;> simp [cleaned, hi]

theorem SameSlot.valid {i : File} (h : SameSlot vfds vfds' i) : FileIsValid vfds' i ↔ FileIsValid vfds i := by
  simp [FileIsValid, h.size, h.filename]

theorem SameSlot.removes {i : File} {s s' : σ} (h : SameSlot vfds vfds' i) :
    Removes os vfds' i s s' ↔ Removes os vfds i s s' := by
  simp [Removes, SyncedBy, h.fd, h.filename, h.dirty, h.enableFsync]

/-- The system does its part for one file after the other. -/
def RemovesAll (os : Os σ) (vfds : FdState σ) : List File → σ → σ → Prop
  | [], s, s' => s' = s
  | i :: is, s, s' => ∃ s₁, Removes os vfds i s s₁ ∧ RemovesAll os vfds is s₁ s'

theorem removesAll_congr {is : List File} {s s' : σ} (h : ∀ i ∈ is, SameSlot vfds vfds' i) :
    RemovesAll os vfds' is s s' ↔ RemovesAll os vfds is s s' := by
  induction is generalizing s with
  | nil => exact Iff.rfl
  | cons i is ih =>
    simp only [RemovesAll, (h i List.mem_cons_self).removes, ih fun j hj => h j (List.mem_cons_of_mem i hj)]

/-- What the loop over the slots has done after the slots `is`. -/
structure Ended (os : Os σ) (is : List File) (vfds vfds' : FdState σ) : Prop where
  valid : ∀ i ∈ is, vfds.temporary i = true → FileIsValid vfds i
  removes : RemovesAll os vfds (is.filter vfds.temporary) vfds.os vfds'.os
  outside : ∀ i, i ∉ is → SameSlot vfds vfds' i
  kept : ∀ i ∈ is, vfds.temporary i = false → vfds'.fd i = vfds.fd i ∧ vfds'.seekPos i = vfds.seekPos i ∧
    vfds'.filename i = vfds.filename i
  marks : ∀ i ∈ is, vfds'.temporary i = false ∧ vfds'.dirty i = false
  gone : ∀ i ∈ is, vfds.temporary i = true → vfds'.filename i = none
  free : ∀ l, Chain id 0 vfds.nextFree 0 l → (∀ i ∈ is, vfds.temporary i = true → i ∉ l) →
    Chain id 0 vfds'.nextFree 0 ((is.filter vfds.temporary).reverse ++ l)
  numAllocatedFiles : vfds'.numAllocatedFiles = vfds.numAllocatedFiles

theorem Ended.skip {i : File} {is : List File} (hi : i ∉ is) (htemp : vfds.temporary i = false)
    (h : Ended os is (cleaned vfds i) vfds') :
    Ended os (i :: is) vfds vfds' := by
  have hsame : ∀ j, j ∉ i :: is → SameSlot vfds (cleaned vfds i) j :=
    fun j hj => cleaned_same (List.ne_of_not_mem_cons hj)
  have hafter := h.outside i hi
  constructor
  · intro j hj htemp'
    rcases List.mem_cons.mp hj with rfl | hj
    · rw [htemp] at htemp'
      cases htemp'
    · exact h.valid j hj htemp'
  · rw [List.filter_cons_of_neg (by simp [htemp])]
    have hsame' : ∀ j ∈ is.filter vfds.temporary,
        SameSlot vfds (cleaned vfds i) j := by
      intro j hj
      apply cleaned_same
      intro heq
      rw [heq] at hj
      exact hi (List.mem_filter.mp hj).1
    exact (removesAll_congr hsame').mp h.removes
  · intro j hj
    have hafter' := h.outside j (List.not_mem_of_not_mem_cons hj)
    have hsame' := hsame j hj
    exact ⟨hafter'.fd, hafter'.dirty.trans hsame'.dirty, hafter'.temporary, hafter'.seekPos, hafter'.filename,
      hafter'.size, hafter'.enableFsync⟩
  · intro j hj htemp'
    rcases List.mem_cons.mp hj with rfl | hj
    · exact ⟨hafter.fd, hafter.seekPos, hafter.filename⟩
    · exact h.kept j hj htemp'
  · intro j hj
    rcases List.mem_cons.mp hj with rfl | hj
    · exact ⟨hafter.temporary.trans htemp, hafter.dirty.trans (Function.update_self _ _ _)⟩
    · exact h.marks j hj
  · intro j hj htemp'
    rcases List.mem_cons.mp hj with rfl | hj
    · rw [htemp] at htemp'
      cases htemp'
    · exact h.gone j hj htemp'
  · intro l hchain hnot
    rw [List.filter_cons_of_neg (by simp [htemp])]
    exact h.free l hchain fun j hj => hnot j (List.mem_cons_of_mem i hj)
  · exact h.numAllocatedFiles

theorem Ended.remove {i : File} {is : List File} {s : σ} (hi : i ∉ is) (htemp : vfds.temporary i = true)
    (hvalid : FileIsValid vfds i) (hremoves : Removes os vfds i vfds.os s)
    (h : Ended os is (removed vfds i s) vfds') : Ended os (i :: is) vfds vfds' := by
  have hsame : ∀ j, j ≠ i → SameSlot vfds (removed vfds i s) j := fun j hj => removed_same hj
  have hne : ∀ j ∈ is, j ≠ i := fun j hj heq => hi (heq ▸ hj)
  have hfilter : is.filter (removed vfds i s).temporary = is.filter vfds.temporary :=
    List.filter_congr fun j hj => (hsame j (hne j hj)).temporary
  have hself : (removed vfds i s).temporary i = false ∧ (removed vfds i s).dirty i = false ∧
      (removed vfds i s).filename i = none := by
    simp [removed, freeVfd]
  have hfree : (removed vfds i s).nextFree = (freeVfd vfds i).nextFree := by
    unfold removed
    split <;> rfl
  have hos : (removed vfds i s).os = s := rfl
  have hnum : (removed vfds i s).numAllocatedFiles = vfds.numAllocatedFiles := by
    unfold removed
    split <;> rfl
  have hafter := h.outside i hi
  constructor
  · intro j hj htemp'
    rcases List.mem_cons.mp hj with rfl | hj
    · exact hvalid
    · have hs := hsame j (hne j hj)
      rw [← hs.temporary] at htemp'
      exact hs.valid.mp (h.valid j hj htemp')
  · rw [List.filter_cons_of_pos htemp]
    have hrest := h.removes
    rw [hfilter, hos, removesAll_congr fun j hj => hsame j (hne j (List.mem_filter.mp hj).1)] at hrest
    exact ⟨s, hremoves, hrest⟩
  · intro j hj
    have hafter' := h.outside j (List.not_mem_of_not_mem_cons hj)
    have hs := hsame j (List.ne_of_not_mem_cons hj)
    exact ⟨hafter'.fd.trans hs.fd, hafter'.dirty.trans hs.dirty, hafter'.temporary.trans hs.temporary,
      hafter'.seekPos.trans hs.seekPos, hafter'.filename.trans hs.filename, hafter'.size.trans hs.size,
      hafter'.enableFsync.trans hs.enableFsync⟩
  · intro j hj htemp'
    rcases List.mem_cons.mp hj with rfl | hj
    · rw [htemp] at htemp'
      cases htemp'
    · have hs := hsame j (hne j hj)
      obtain ⟨hfd, hpos, hname⟩ := h.kept j hj (hs.temporary.trans htemp')
      exact ⟨hfd.trans hs.fd, hpos.trans hs.seekPos, hname.trans hs.filename⟩
  · intro j hj
    rcases List.mem_cons.mp hj with rfl | hj
    · exact ⟨hafter.temporary.trans hself.1, hafter.dirty.trans hself.2.1⟩
    · exact h.marks j hj
  · intro j hj htemp'
    rcases List.mem_cons.mp hj with rfl | hj
    · exact hafter.filename.trans hself.2.2
    · rw [← (hsame j (hne j hj)).temporary] at htemp'
      exact h.gone j hj htemp'
  · intro l hchain hnot
    have hpush : Chain id 0 (removed vfds i s).nextFree 0 (i :: l) := by
      rw [hfree]
      exact chain_freeVfd hchain hvalid.ne_zero (hnot i List.mem_cons_self htemp)
    have hrest := h.free (i :: l) hpush fun j hj htemp' hin => by
      rcases List.mem_cons.mp hin with heq | hin
      · exact hne j hj heq
      · rw [(hsame j (hne j hj)).temporary] at htemp'
        exact hnot j (List.mem_cons_of_mem i hj) htemp' hin
    rw [hfilter] at hrest
    rw [List.filter_cons_of_pos htemp]
    simpa using hrest
  · exact h.numAllocatedFiles.trans hnum

/-- The loop over the slots, while slots are freed in it. -/
theorem endVfds_ended {is : List File} (hnodup : is.Nodup)
    (hmarked : ∀ i ∈ is, vfds.temporary i = true → vfds.filename i ≠ none) :
    Ends (fun _ => True) (endVfds os is vfds) (Ended os is vfds) := by
  induction is generalizing vfds with
  | nil =>
    refine ⟨fun _ hi => absurd hi List.not_mem_nil, rfl, ?_, fun _ hi => absurd hi List.not_mem_nil,
      fun _ hi => absurd hi List.not_mem_nil, fun _ hi => absurd hi List.not_mem_nil, ?_, rfl⟩
    · intro i _
      exact ⟨rfl, rfl, rfl, rfl, rfl, rfl, rfl⟩
    · intro l hchain _
      exact hchain
  | cons i is ih =>
    obtain ⟨hi, hnodup⟩ := List.nodup_cons.mp hnodup
    have hne : ∀ j ∈ is, j ≠ i := fun j hj heq => hi (heq ▸ hj)
    unfold endVfds
    by_cases htemp : vfds.temporary i = true
    · rw [if_pos ⟨htemp, hmarked i List.mem_cons_self htemp⟩]
      by_cases hvalid : FileIsValid vfds i
      · apply Ends.bind (fileClose_removed hvalid htemp)
        rintro vfds₁ ⟨s, hremoves, hvfds₁⟩
        rw [hvfds₁]
        have hmarked' : ∀ j ∈ is, (removed vfds i s).temporary j = true → (removed vfds i s).filename j ≠ none := by
          intro j hj htemp'
          have hs : SameSlot vfds (removed vfds i s) j := removed_same (hne j hj)
          rw [hs.temporary] at htemp'
          rw [hs.filename]
          exact hmarked j (List.mem_cons_of_mem i hj) htemp'
        exact (ih hnodup hmarked').mono (fun _ h => h) fun _ h => h.remove hi htemp hvalid hremoves
      · unfold fileClose
        rw [if_pos hvalid]
        trivial
    · rw [if_neg fun hand => htemp hand.1]
      have hrest : Ends (fun _ => True) (endVfds os is (cleaned vfds i)) (Ended os is (cleaned vfds i)) :=
        ih hnodup fun j hj => hmarked j (List.mem_cons_of_mem i hj)
      exact hrest.mono (fun _ h => h) fun _ h => h.skip hi (eq_false_of_ne_true htemp)

/-- If the system does its part for all of them, the loop returns. -/
theorem RemovesAll.returns {is : List File} {s : σ} (hnodup : is.Nodup)
    (hvalid : ∀ i ∈ is, vfds.temporary i = true → FileIsValid vfds i)
    (h : RemovesAll os vfds (is.filter vfds.temporary) vfds.os s) :
    ∃ vfds', endVfds os is vfds = .ok vfds' := by
  induction is generalizing vfds with
  | nil => exact ⟨vfds, rfl⟩
  | cons i is ih =>
    obtain ⟨hi, hnodup⟩ := List.nodup_cons.mp hnodup
    have hne : ∀ j ∈ is, j ≠ i := fun j hj heq => hi (heq ▸ hj)
    unfold endVfds
    by_cases htemp : vfds.temporary i = true
    · rw [List.filter_cons_of_pos htemp] at h
      obtain ⟨s₁, hremoves, hrest⟩ := h
      have hvalid₀ := hvalid i List.mem_cons_self htemp
      obtain ⟨vfds₁, hclose⟩ := hremoves.returns hvalid₀
      obtain ⟨s₂, hremoves₂, rfl⟩ := (fileClose_removed hvalid₀ htemp).of_ok hclose
      obtain rfl := hremoves.unique hremoves₂
      have hsame : ∀ j ∈ is, SameSlot vfds (removed vfds i s₁) j := fun j hj => removed_same (hne j hj)
      have hfilter : is.filter (removed vfds i s₁).temporary = is.filter vfds.temporary :=
        List.filter_congr fun j hj => (hsame j hj).temporary
      have hrest' : RemovesAll os (removed vfds i s₁) (is.filter (removed vfds i s₁).temporary)
          (removed vfds i s₁).os s := by
        rw [hfilter, removesAll_congr fun j hj => hsame j (List.mem_filter.mp hj).1]
        exact hrest
      have hvalid' : ∀ j ∈ is, (removed vfds i s₁).temporary j = true → FileIsValid (removed vfds i s₁) j := by
        intro j hj htemp'
        rw [(hsame j hj).temporary] at htemp'
        exact (hsame j hj).valid.mpr (hvalid j (List.mem_cons_of_mem i hj) htemp')
      rw [if_pos ⟨htemp, hvalid₀.2.2⟩, hclose]
      exact ih hnodup hvalid' hrest'
    · rw [List.filter_cons_of_neg htemp] at h
      rw [if_neg fun hand => htemp hand.1]
      have hsame : ∀ j ∈ is.filter vfds.temporary, SameSlot vfds (cleaned vfds i) j :=
        fun j hj => cleaned_same (hne j (List.mem_filter.mp hj).1)
      have hvalid' : ∀ j ∈ is, (cleaned vfds i).temporary j = true → FileIsValid (cleaned vfds i) j :=
        fun j hj htemp' => hvalid j (List.mem_cons_of_mem i hj) htemp'
      have hrest : RemovesAll os (cleaned vfds i) (is.filter (cleaned vfds i).temporary) (cleaned vfds i).os s :=
        (removesAll_congr hsame).mpr h
      exact ih hnodup hvalid' hrest

/-! ## The calls that are made -/

def unlinkedNames (calls : List Syscall) : List FileName :=
  calls.filterMap fun
    | .unlink filename _ => some filename
    | _ => none

def closedDescriptors (calls : List Syscall) : List Int :=
  calls.filterMap fun
    | .close fd _ => some fd
    | _ => none

theorem unlinkedNames_append (calls calls' : List Syscall) :
    unlinkedNames (calls ++ calls') = unlinkedNames calls ++ unlinkedNames calls' := List.filterMap_append

theorem closedDescriptors_append (calls calls' : List Syscall) :
    closedDescriptors (calls ++ calls') = closedDescriptors calls ++ closedDescriptors calls' :=
  List.filterMap_append

variable {slots slots' : FdState (σ × List Syscall)} {s s' : σ × List Syscall}

theorem syncedBy_calls (h : SyncedBy os.traced slots file s s') :
    ∃ calls, s'.2 = s.2 ++ calls ∧ unlinkedNames calls = [] ∧ closedDescriptors calls = [] := by
  unfold SyncedBy at h
  split at h
  · exact ⟨_, (logged_eq_some h).2, rfl, rfl⟩
  · exact ⟨[], by simp [h], rfl, rfl⟩

theorem Removes.calls (h : Removes os.traced slots file s s') :
    ∃ calls, s'.2 = s.2 ++ calls ∧ unlinkedNames calls = [(slots.filename file).getD []] ∧
      closedDescriptors calls = if slots.fd file = VFD_CLOSED then [] else [slots.fd file] := by
  obtain ⟨s₁, errno, hclosed, hunlink⟩ := h
  have hunlink := (logged_eq_some hunlink).2
  split at hclosed
  · rename_i hfd
    refine ⟨[.unlink ((slots.filename file).getD []) errno], by rw [hunlink, hclosed], rfl, ?_⟩
    rw [if_pos hfd]
    rfl
  · rename_i hfd
    obtain ⟨s₀, hsync, hclose⟩ := hclosed
    obtain ⟨calls, hcalls, hunlinked, hnone⟩ := syncedBy_calls hsync
    have hclose := (logged_eq_some hclose).2
    refine ⟨calls ++ [.close (slots.fd file) true, .unlink ((slots.filename file).getD []) errno], ?_, ?_, ?_⟩
    · simp [hunlink, hclose, hcalls]
    · rw [unlinkedNames_append, hunlinked]
      rfl
    · rw [closedDescriptors_append, hnone, if_neg hfd]
      rfl

theorem RemovesAll.calls {is : List File} (h : RemovesAll os.traced slots is s s') :
    ∃ calls, s'.2 = s.2 ++ calls ∧ unlinkedNames calls = is.map (fun i => (slots.filename i).getD []) ∧
      closedDescriptors calls = (is.filter (fun i => slots.fd i ≠ VFD_CLOSED)).map slots.fd := by
  induction is generalizing s with
  | nil => exact ⟨[], by simp [show s' = s from h], rfl, rfl⟩
  | cons i is ih =>
    obtain ⟨s₁, hremoves, hrest⟩ := h
    obtain ⟨calls, hcalls, hunlinked, hclosed⟩ := hremoves.calls
    obtain ⟨calls', hcalls', hunlinked', hclosed'⟩ := ih hrest
    refine ⟨calls ++ calls', by simp [hcalls, hcalls'], ?_, ?_⟩
    · rw [unlinkedNames_append, hunlinked, hunlinked']
      rfl
    · rw [closedDescriptors_append, hclosed, hclosed']
      by_cases hfd : slots.fd i = VFD_CLOSED <;> simp [hfd]

/-! ## The end of a transaction -/

/-- The slots of the temporary files, in the order of the array. -/
def temporaries (vfds : FdState σ) : List File :=
  (List.range' 1 (vfds.sizeVfdCache - 1)).filter vfds.temporary

/-- What a transaction leaves behind: no marks, no temporary files and no streams. Each
temporary file was closed with its own descriptor, and was unlinked, and its slot is in the
free list, once; each stream was closed once. The other files are as they were. -/
structure EndsXact (st st' : XactState (σ × List Syscall)) : Prop where
  marks : ∀ i, st'.vfds.temporary i = false ∧ st'.vfds.dirty i = false
  others : ∀ i, st.vfds.temporary i = false → st'.vfds.fd i = st.vfds.fd i ∧
    st'.vfds.seekPos i = st.vfds.seekPos i ∧ st'.vfds.filename i = st.vfds.filename i
  calls : ∃ calls, st'.vfds.os.2 = st.vfds.os.2 ++ calls ∧
    unlinkedNames calls = (temporaries st.vfds).map (fun i => (st.vfds.filename i).getD []) ∧
    closedDescriptors calls =
      ((temporaries st.vfds).filter (fun i => st.vfds.fd i ≠ VFD_CLOSED)).map st.vfds.descriptor
  free : ∃ free, Chain id 0 st.vfds.nextFree 0 free ∧
    Chain id 0 st'.vfds.nextFree 0 ((temporaries st.vfds).reverse ++ free) ∧
    ((temporaries st.vfds).reverse ++ free).Nodup
  streams : ∃ closed, st'.fclosed = closed ++ st.fclosed ∧ closed.Perm (allocated st)
  numAllocatedFiles : st'.vfds.numAllocatedFiles = 0

/-- Free list, names and marks are in order, and the streams are in their array. -/
structure Ready (st : XactState σ) : Prop where
  orderly : Orderly st.vfds none
  numAllocatedFiles : st.vfds.numAllocatedFiles ≤ MAX_ALLOCATED_FILES

theorem orderly_sameSlots (h : Orderly vfds none) (hs : SameSlots vfds vfds') : Orderly vfds' none := by
  refine ⟨?_, ?_, nofun, ?_, ?_⟩
  · rw [hs.fd]
    exact h.anchor
  · unfold Spare
    rw [hs.nextFree, hs.size, hs.filename]
    exact h.free
  · rw [hs.size, hs.filename]
    exact h.within
  · rw [hs.temporary, hs.dirty, hs.filename]
    exact h.marked

theorem endSlots_eq (h : Orderly vfds none) :
    endSlots os vfds = endVfds os (List.range' 1 (vfds.sizeVfdCache - 1)) vfds := by
  unfold endSlots
  split
  · rw [if_neg (not_not.mpr h.anchor)]
  · rename_i hsize
    have hzero : vfds.sizeVfdCache = 0 := by omega
    rw [hzero]
    rfl

theorem endSlots_ended (h : Orderly vfds none) : Ends (fun _ => True) (endSlots os vfds)
    (Ended os (List.range' 1 (vfds.sizeVfdCache - 1)) vfds) := by
  rw [endSlots_eq h]
  exact endVfds_ended (List.nodup_range' 1) fun i _ htemp => h.marked i (.inl htemp)

theorem endVfds_orderly {is : List File} (h : Orderly vfds none) :
    Ends (fun _ => True) (endVfds os is vfds) fun vfds' => Orderly vfds' none := by
  induction is generalizing vfds with
  | nil => exact h
  | cons i is ih =>
    unfold endVfds
    split
    · exact Ends.bind h.fileClose fun _ h' => ih h'.1
    · apply ih
      exact h.same ⟨rfl, rfl, rfl, rfl, rfl, fun _ hdirty => clean_dirty hdirty, rfl⟩

/-- The loops over slots and streams in turn. -/
theorem atEoXactFiles_spec (h : Orderly st.vfds none) :
    Ends (fun _ => True) (atEoXactFiles os io st) fun st' => ∃ vfds,
      Ended os (List.range' 1 (st.vfds.sizeVfdCache - 1)) st.vfds vfds ∧ Orderly vfds none ∧
      SameSlots vfds st'.vfds ∧ st'.vfds.numAllocatedFiles = 0 ∧
      (∃ closed, st'.fclosed = closed ++ st.fclosed ∧ closed.Perm (allocated st)) ∧
      ∃ st₁, freeAllocated io vfds.numAllocatedFiles { st with vfds := vfds } = .ok st₁ ∧ st₁.vfds = st'.vfds := by
  have horderly : Ends (fun _ => True) (endSlots os st.vfds) fun vfds => Orderly vfds none := by
    rw [endSlots_eq h]
    exact endVfds_orderly h
  unfold atEoXactFiles
  apply Ends.bind ((endSlots_ended h).and horderly)
  intro vfds ⟨hended, hvfds⟩
  obtain ⟨st', hrun, hzero, hslots, hstreams⟩ := freeAllocated_spec io { st with vfds := vfds }
    (Nat.le_refl _)
  have hallocated : allocated { st with vfds := vfds } = allocated st := by
    unfold allocated
    rw [hended.numAllocatedFiles]
  rw [hallocated] at hstreams
  rw [hrun]
  exact ⟨vfds, hended, hvfds, hslots, hzero, hstreams, st', hrun, rfl⟩

theorem endsXact {os : Os σ} {io : Stdio σ} {st st' : XactState (σ × List Syscall)} (h : Orderly st.vfds none)
    (hown : ∀ i ∈ temporaries st.vfds, st.vfds.fd i ≠ VFD_CLOSED → st.vfds.fd i = st.vfds.descriptor i)
    (hrun : atEoXactFiles os.traced io.beside st = .ok st') : EndsXact st st' := by
  obtain ⟨vfds, hended, hvfds, hslots, hzero, hstreams, st₁, hfree, hst₁⟩ := (atEoXactFiles_spec h).of_ok hrun
  have hsize : vfds.sizeVfdCache = st.vfds.sizeVfdCache :=
    (hended.outside 0 (by simp [List.mem_range'_1])).size
  have hin : ∀ i, vfds.filename i ≠ none → i ∈ List.range' 1 (st.vfds.sizeVfdCache - 1) := by
    intro i hname
    obtain ⟨hpos, hlt⟩ := hvfds.within i hname
    rw [List.mem_range'_1]
    exact ⟨hpos, by omega⟩
  constructor
  · intro i
    rw [hslots.temporary, hslots.dirty]
    by_cases hi : i ∈ List.range' 1 (st.vfds.sizeVfdCache - 1)
    · exact hended.marks i hi
    · apply hvfds.nameless
      by_contra hname
      exact hi (hin i hname)
  · intro i htemp
    rw [hslots.fd, hslots.seekPos, hslots.filename]
    by_cases hi : i ∈ List.range' 1 (st.vfds.sizeVfdCache - 1)
    · exact hended.kept i hi htemp
    · have hsame := hended.outside i hi
      exact ⟨hsame.fd, hsame.seekPos, hsame.filename⟩
  · obtain ⟨calls, hcalls, hunlinked, hclosed⟩ := hended.removes.calls
    refine ⟨calls, ?_, hunlinked, ?_⟩
    · rw [← hst₁, freeAllocated_beside hfree]
      exact hcalls
    · rw [hclosed]
      apply List.map_congr_left
      intro i hi
      obtain ⟨hmem, hfd⟩ := List.mem_filter.mp hi
      exact hown i hmem (of_decide_eq_true hfd)
  · obtain ⟨free, hchain, hmem⟩ := h.free
    have hnot : ∀ i ∈ List.range' 1 (st.vfds.sizeVfdCache - 1), st.vfds.temporary i = true → i ∉ free := by
      intro i _ htemp hfree
      exact h.marked i (.inl htemp) ((hmem i).mp hfree).1.2.2
    have hchain' := hended.free free hchain hnot
    rw [← hslots.nextFree] at hchain'
    exact ⟨free, hchain, hchain', hchain'.nodup⟩
  · exact hstreams
  · exact hzero

/-- The slots of the temporary files are within the array for an `int` too, they hold the
descriptors that `open` returned, and the system closes these and can be told to unlink the
files. -/
structure CanEnd (os : Os σ) (vfds : FdState σ) : Prop where
  size : ∀ i ∈ temporaries vfds, (i : Int) < toInt vfds.sizeVfdCache
  descriptor : ∀ i ∈ temporaries vfds, vfds.fd i ≠ VFD_CLOSED → vfds.fd i = vfds.descriptor i
  removes : ∃ s, RemovesAll os vfds (temporaries vfds) vfds.os s

theorem ends_iff {os : Os σ} {io : Stdio σ} {st : XactState (σ × List Syscall)} (h : Orderly st.vfds none) :
    (∃ st', atEoXactFiles os.traced io.beside st = .ok st' ∧ EndsXact st st') ↔ CanEnd os.traced st.vfds := by
  have hin : ∀ i, i ∈ temporaries st.vfds ↔
      i ∈ List.range' 1 (st.vfds.sizeVfdCache - 1) ∧ st.vfds.temporary i = true :=
    fun i => List.mem_filter
  constructor
  · intro ⟨st', hrun, hends⟩
    obtain ⟨vfds, hended, -⟩ := (atEoXactFiles_spec h).of_ok hrun
    constructor
    · intro i hi
      obtain ⟨hmem, htemp⟩ := (hin i).mp hi
      exact (hended.valid i hmem htemp).2.1
    · obtain ⟨vfds', hended', -, hslots, -, -, st₁, hfree, hst₁⟩ := (atEoXactFiles_spec h).of_ok hrun
      obtain ⟨calls, hcalls, -, hclosed⟩ := hends.calls
      obtain ⟨calls', hcalls', -, hclosed'⟩ := hended'.removes.calls
      have hsame : calls = calls' := by
        rw [← hst₁, freeAllocated_beside hfree] at hcalls
        exact List.append_cancel_left (hcalls.symm.trans hcalls')
      rw [hsame, hclosed'] at hclosed
      intro i hi hfd
      exact List.map_inj_left.mp hclosed i (List.mem_filter.mpr ⟨hi, decide_eq_true hfd⟩)
    · exact ⟨_, hended.removes⟩
  · intro ⟨hsize, hown, s, hremoves⟩
    have hvalid : ∀ i ∈ List.range' 1 (st.vfds.sizeVfdCache - 1), st.vfds.temporary i = true →
        FileIsValid st.vfds i := by
      intro i hi htemp
      exact ⟨(List.mem_range'_1.mp hi).1, hsize i ((hin i).mpr ⟨hi, htemp⟩), h.marked i (.inl htemp)⟩
    obtain ⟨vfds, hslots⟩ := RemovesAll.returns (List.nodup_range' 1) hvalid hremoves
    obtain ⟨st', hfree, -⟩ := freeAllocated_spec io.beside { st with vfds := vfds } (Nat.le_refl _)
    have hrun : atEoXactFiles os.traced io.beside st = .ok { st' with tempFileCounter := 0 } := by
      unfold atEoXactFiles
      rw [endSlots_eq h, hslots, ok_bind, hfree]
      rfl
    exact ⟨_, hrun, endsXact h hown hrun⟩

/-- The slots are left as by the loop over them alone. -/
theorem atEoXactFiles_slots (h : atEoXactFiles os io st = .ok st') :
    ∃ vfds, Fd.atEoXactFiles os st.vfds = .ok vfds ∧ SameSlots vfds st'.vfds ∧
      st'.vfds.numAllocatedFiles = vfds.numAllocatedFiles := by
  have hslots : Fd.atEoXactFiles os st.vfds = endSlots os st.vfds >>= fun vfds =>
      .ok ({ vfds with numAllocatedFiles := 0 }.note .endOfXact) := by
    unfold Fd.atEoXactFiles endSlots
    split
    · split <;> rfl
    · rfl
  obtain ⟨vfds, hend, hrest⟩ := bind_eq_ok h
  obtain ⟨st₁, hfree, hst₁⟩ := bind_eq_ok hrest
  obtain ⟨st₂, hfree₂, hzero, hsame, -⟩ := freeAllocated_spec io { st with vfds := vfds } (Nat.le_refl _)
  obtain rfl := Except.ok.inj (hfree.symm.trans hfree₂)
  rw [hslots, hend, ← Except.ok.inj hst₁]
  exact ⟨_, rfl, ⟨hsame.fd, hsame.dirty, hsame.temporary, hsame.nextFree, hsame.seekPos, hsame.filename,
    hsame.size⟩, hzero⟩

/-! ## Every run -/

theorem Ready.atEoXactFiles (h : Ready st) :
    Ends (fun _ => True) (atEoXactFiles os io st) Ready := by
  apply (atEoXactFiles_spec h.orderly).mono (fun _ h => h)
  intro st' ⟨vfds, _, horderly, hslots, hzero, _⟩
  exact ⟨orderly_sameSlots horderly hslots, by omega⟩

theorem Ready.openTemporaryFile {pid : Nat} (h : Ready st) :
    Ends (fun _ => True) (openTemporaryFile os pid st) fun r => Ready r.2 := by
  unfold Xact.openTemporaryFile
  dsimp only
  apply Ends.bind h.orderly.fileNameOpenFileAux
  intro ⟨file, vfds⟩ ⟨hvfds, hnum, hname⟩
  cases file with
  | none => trivial
  | some file =>
    have hle : vfds.numAllocatedFiles ≤ MAX_ALLOCATED_FILES := by
      rw [show vfds.numAllocatedFiles = st.vfds.numAllocatedFiles from hnum]
      exact h.numAllocatedFiles
    exact ⟨hvfds.mark (hname file rfl) true, hle⟩

theorem releaseLruFile_orderly {vfds : FdState σ} (h : Orderly vfds none) :
    Ends (fun _ => True) (releaseLruFile os vfds) fun r =>
      Orderly r.2 none ∧ r.2.numAllocatedFiles = vfds.numAllocatedFiles := by
  apply ((sameNames_survives vfds).releases vfds (.refl vfds)).mono (fun _ _ => trivial)
  intro r ⟨hsame, _⟩
  exact ⟨h.same hsame, hsame.numAllocatedFiles⟩

/-- One attempt to open a file, if the next one is in order. -/
theorem attempt_ready {name : FileName} {mode : List Char} {k : Nat} (h : Orderly st.vfds none)
    (hlt : st.vfds.numAllocatedFiles < MAX_ALLOCATED_FILES)
    (hnext : ∀ n, k = n + 1 → ∀ vfds, Orderly vfds none →
      vfds.numAllocatedFiles = st.vfds.numAllocatedFiles →
      Ends (fun _ => True) (tryAllocate os io name mode n { st with vfds := vfds }) fun r => Ready r.2) :
    Ends (fun _ => True) (tryAllocate os io name mode k st) fun r => Ready r.2 := by
  unfold tryAllocate
  cases hfopen : io.fopen name mode st.vfds.os with
  | mk result s =>
    have hs : Orderly { st.vfds with os := s } none := ⟨h.anchor, h.free, h.taken, h.within, h.marked⟩
    cases result with
    | ok file => exact ⟨⟨h.anchor, h.free, h.taken, h.within, h.marked⟩, hlt⟩
    | error errno =>
      dsimp only
      split
      · apply Ends.bind (releaseLruFile_orderly hs)
        intro ⟨released, vfds⟩ ⟨hvfds, hnum⟩
        cases released with
        | true =>
          cases k with
          | zero => trivial
          | succ n => exact hnext n rfl vfds hvfds hnum
        | false => exact ⟨hvfds, Nat.le_trans (Nat.le_of_eq hnum) (Nat.le_of_lt hlt)⟩
      · exact ⟨hs, Nat.le_of_lt hlt⟩

/-- There is an entry for the file that is opened. -/
theorem tryAllocate_ready {name : FileName} {mode : List Char} {k : Nat} (h : Orderly st.vfds none)
    (hlt : st.vfds.numAllocatedFiles < MAX_ALLOCATED_FILES) :
    Ends (fun _ => True) (tryAllocate os io name mode k st) fun r => Ready r.2 := by
  induction k generalizing st with
  | zero => exact attempt_ready h hlt fun n hn => absurd hn (by simp)
  | succ k ih =>
    apply attempt_ready h hlt
    intro n hn vfds hvfds hnum
    obtain rfl := Nat.succ.inj hn
    apply ih hvfds
    rw [hnum]
    exact hlt

theorem Ready.freeFile (h : Ready st) (file : Stream) : Ready (freeFile io st file) := by
  refine ⟨orderly_sameSlots h.orderly (freeFile_slots file), ?_⟩
  have hle : (Xact.freeFile io st file).vfds.numAllocatedFiles ≤ st.vfds.numAllocatedFiles := by
    unfold Xact.freeFile forget
    dsimp only
    split
    · exact Nat.sub_le _ _
    · exact Nat.le_refl _
  exact Nat.le_trans hle h.numAllocatedFiles

theorem Ready.step {pid : Nat} {op : XactOp} (h : Ready st) :
    Ends (fun _ => True) (xactStep os io pid st op) Ready := by
  cases op with
  | vfd op =>
    unfold xactStep
    dsimp only
    split
    · exact h.atEoXactFiles
    · rename_i hop
      apply Ends.bind (h.orderly.step hop)
      intro r ⟨horderly, hnum⟩
      exact ⟨horderly, Nat.le_trans (Nat.le_of_eq hnum) h.numAllocatedFiles⟩
  | openTemporary => exact Ends.bind h.openTemporaryFile fun _ h' => h'
  | allocate name mode =>
    have hallocate : Ends (fun _ => True) (allocateFile os io st name mode) fun r => Ready r.2 := by
      unfold allocateFile
      split
      · trivial
      · rename_i hlt
        exact tryAllocate_ready h.orderly (Nat.not_le.mp hlt)
    exact Ends.bind hallocate fun _ h' => h'
  | free file => exact h.freeFile file
  | endXact => exact h.atEoXactFiles

theorem Ready.run {pid : Nat} {ops : List XactOp} (h : Ready st) :
    Ends (fun _ => True) (xactRun os io pid ops st) Ready := by
  induction ops generalizing st with
  | nil => exact h
  | cons op ops ih => exact Ends.bind h.step fun _ h' => ih h'

theorem ready_init (databasePath : FileName) (enableFsync : Bool) (s : σ) :
    Ready (XactState.init databasePath enableFsync s) :=
  ⟨orderly_init databasePath enableFsync s, Nat.zero_le _⟩

/-- Streams are numbered as they come. -/
def numberedStdio : Stdio Kernel where
  fopen _ _ k := (.ok k.nextInode, { k with nextInode := k.nextInode + 1 })
  fclose _ k := (true, k)

/-- Two temporary files, two streams, and a file that is not temporary; then one of the
temporary files is closed behind its owner's back. -/
def mixedRun : Except Fault (XactState (Kernel × List Syscall)) :=
  xactRun plainOs.traced numberedStdio.beside 1
    [.openTemporary, .openTemporary, .allocate ['a'] ['r'], .allocate ['b'] ['r'],
      .vfd (.openFile ['/', 'c'] { access := .O_RDWR, creat := true } 0), .vfd .releaseLru]
    (XactState.init ['d'] true (emptyKernel, []))

theorem mixedRun_ends : ∃ st, mixedRun = .ok st ∧ temporaries st.vfds = [1, 2] ∧ allocated st = [2, 3] ∧
    CanEnd plainOs.traced st.vfds := by
  have hrun : okAnd mixedRun (fun st => okAnd (atEoXactFiles plainOs.traced numberedStdio.beside st) fun _ =>
      decide (temporaries st.vfds = [1, 2] ∧ allocated st = [2, 3] ∧ ∀ i ∈ temporaries st.vfds,
        st.vfds.fd i ≠ VFD_CLOSED → st.vfds.fd i = st.vfds.descriptor i)) = true := by decide +kernel
  obtain ⟨st, hst, hends⟩ := okAnd_iff.mp hrun
  obtain ⟨st', hend, htest⟩ := okAnd_iff.mp hends
  obtain ⟨htemp, halloc, hown⟩ := of_decide_eq_true htest
  have hready := (ready_init ['d'] true (emptyKernel, [])).run.of_ok hst
  obtain ⟨vfds, hended, -⟩ := (atEoXactFiles_spec hready.orderly).of_ok hend
  refine ⟨st, hst, htemp, halloc, ⟨?_, hown, _, hended.removes⟩⟩
  intro i hi
  obtain ⟨hmem, hmark⟩ := List.mem_filter.mp hi
  exact (hended.valid i hmem hmark).2.1

/-- The first descriptor is small, the others are not; what is no descriptor is refused. -/
def crowdedOs : Os Kernel :=
  let os := Kernel.os (fun k => if k.nextInode = 0 then some 3 else some 40000) fun _ => 0
  { os with
    close := fun fd k => some ((os.close fd k).getD (false, k))
    lseek := fun fd offset whence k => some ((os.lseek fd offset whence k).getD (none, k)) }

end PostgresV7.Xact
