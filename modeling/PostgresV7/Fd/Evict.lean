import PostgresV7.Fd.Slots

/-!
# Evicting and reopening files (`fd.c`)

Files are closed and reopened behind a caller's back. Whatever survives one eviction
survives all that is done to make room.
-/

namespace PostgresV7.Fd

open Recency Outcomes

variable {σ : Type} {os : Os σ} {st st' : FdState σ} {file : File} {limbo : Option File}
  {allowed : Fault → Prop}

/-- What a call of the operating system does to the state. -/
theorem sys_ends {α : Type} {call : σ → Option (α × σ)} (hfails : call st.os = none → allowed .osFailed) :
    Ends allowed (st.sys call) fun r => ∃ a os', call st.os = some (a, os') ∧
      r = (a, { st with os := os' }) := by
  unfold FdState.sys
  split
  · rename_i a os' heq
    exact ⟨a, os', heq, rfl⟩
  · rename_i heq
    exact hfails heq

/-- A run may end where a call fails whose success is asserted. -/
structure Tolerates (os : Os σ) (allowed : Fault → Prop) : Prop where
  osFailed : allowed .osFailed
  lseek : ∀ fd offset whence s s', os.lseek fd offset whence s = some (none, s') → allowed .assertion
  fsync : ∀ fd s s', os.fsync fd s = some (false, s') → allowed .assertion
  close : ∀ fd s s', os.close fd s = some (false, s') → allowed .assertion

/-- What a call does where a failure is no way to go on. -/
structure Asserted {α : Type} (allowed : Fault → Prop) (call : Option (α × σ)) (failure : α) : Prop where
  fails : call = none → allowed .osFailed
  error : ∀ s, call = some (failure, s) → allowed .assertion

theorem tolerates_any (os : Os σ) : Tolerates os fun _ => True :=
  ⟨trivial, fun _ _ _ _ _ _ => trivial, fun _ _ _ _ => trivial, fun _ _ _ _ => trivial⟩

/-! ## One file -/

/-- The event of an `fsync` on the way to closing a file. -/
def syncEvents (st : FdState σ) (file : File) : List Event :=
  if st.dirty file ∧ st.enableFsync ∧ st.fd file = st.descriptor file then [.synced file] else []

theorem syncEvents_use (st : FdState σ) (file : File) : ∀ ev ∈ syncEvents st file, ev.use = none := by
  unfold syncEvents
  intro ev hev
  split at hev
  · rw [List.mem_singleton.mp hev]
    rfl
  · cases hev

/-- The `fsync` of a dirty file. -/
def SyncedBy (os : Os σ) (st : FdState σ) (file : File) (s s' : σ) : Prop :=
  if st.dirty file ∧ st.enableFsync then os.fsync (st.fd file) s = some (true, s') else s' = s

theorem pgFsync_ends (hfails : os.fsync (st.fd file) st.os = none → allowed .osFailed) :
    Ends allowed (pgFsync os st file) fun r => ∃ done os',
      (if st.enableFsync then os.fsync (st.fd file) st.os = some (done, os')
        else done = true ∧ os' = st.os) ∧
      r = (done, { st with
        os := os'
        log := (if done ∧ st.enableFsync ∧ st.fd file = st.descriptor file then [.synced file]
          else []) ++ st.log }) := by
  unfold pgFsync
  split
  · rename_i hfsync
    refine Ends.bind (sys_ends hfails) ?_
    rintro _ ⟨done, os', hcall, rfl⟩
    refine ⟨done, os', hcall, ?_⟩
    dsimp only
    by_cases hsynced : done = true ∧ st.fd file = st.descriptor file
    · rw [if_pos hsynced, if_pos ⟨hsynced.1, hfsync, hsynced.2⟩]
      rfl
    · rw [if_neg hsynced, if_neg fun hand => hsynced ⟨hand.1, hand.2.2⟩]
      rfl
  · rename_i hfsync
    refine ⟨true, st.os, ⟨rfl, rfl⟩, ?_⟩
    rw [if_neg fun hand => hfsync hand.2.1]
    rfl

theorem syncIfDirty_ends (h : Asserted allowed (os.fsync (st.fd file) st.os) false) :
    Ends allowed (syncIfDirty os st file) fun st' => ∃ os', SyncedBy os st file st.os os' ∧
      st' = { st with
        dirty := Function.update st.dirty file false
        os := os'
        log := syncEvents st file ++ st.log } := by
  unfold syncIfDirty
  by_cases hdirty : st.dirty file = true
  · rw [if_pos hdirty]
    refine Ends.bind (pgFsync_ends h.fails) ?_
    rintro _ ⟨done, os', hcall, rfl⟩
    cases done with
    | false =>
      split at hcall
      · exact h.error _ hcall
      · cases hcall.1
    | true =>
      refine ⟨os', ?_, ?_⟩
      · unfold SyncedBy
        split at hcall
        · rename_i hfsync
          rwa [if_pos ⟨hdirty, hfsync⟩]
        · rename_i hfsync
          rw [if_neg fun hand => hfsync hand.2]
          exact hcall.2
      · unfold syncEvents
        simp only [hdirty, true_and]
  · have hsame : Function.update st.dirty file false = st.dirty :=
      update_same (eq_false_of_ne_true hdirty)
    have hevents : syncEvents st file = [] := if_neg fun hand => hdirty hand.1
    rw [if_neg hdirty, hsame, hevents]
    refine ⟨st.os, ?_, rfl⟩
    unfold SyncedBy
    rw [if_neg fun hand => hdirty hand.1]

theorem closeDescriptor_ends (h : Asserted allowed (os.close (st.fd file) st.os) false) :
    Ends allowed (closeDescriptor os st file) fun st' => ∃ os',
      os.close (st.fd file) st.os = some (true, os') ∧
      st' = { st with
        nFile := st.nFile - 1
        fd := Function.update st.fd file VFD_CLOSED
        os := os'
        log := .closed file :: st.log } := by
  unfold closeDescriptor
  refine Ends.bind (sys_ends h.fails) ?_
  rintro _ ⟨done, os', hcall, rfl⟩
  cases done with
  | false => exact h.error _ hcall
  | true => exact ⟨os', hcall, rfl⟩

/-- The calls of `lru_delete` are as they should be, or the run may end. -/
structure Deletes (os : Os σ) (allowed : Fault → Prop) (st : FdState σ) (file : File) : Prop where
  lseek : Asserted allowed (os.lseek (st.fd file) 0 .SEEK_CUR st.os) none
  fsync : ∀ pos s, os.lseek (st.fd file) 0 .SEEK_CUR st.os = some (some pos, s) →
    Asserted allowed (os.fsync (st.fd file) s) false
  close : ∀ pos s s', os.lseek (st.fd file) 0 .SEEK_CUR st.os = some (some pos, s) →
    SyncedBy os st file s s' → Asserted allowed (os.close (st.fd file) s') false

theorem Tolerates.deletes (ht : Tolerates os allowed) : Deletes os allowed st file :=
  ⟨⟨fun _ => ht.osFailed, fun s => ht.lseek _ _ _ _ s⟩,
    fun _ s _ => ⟨fun _ => ht.osFailed, fun s' => ht.fsync _ s s'⟩,
    fun _ _ s _ _ => ⟨fun _ => ht.osFailed, fun s' => ht.close _ s s'⟩⟩

/-- Everything `lru_delete` does. -/
theorem lruDelete_ends (h : Deletes os allowed st file) (hfile : file ≠ 0) :
    Ends allowed (lruDelete os st file) fun st' => ∃ pos os₁ os₂ os',
      os.lseek (st.fd file) 0 .SEEK_CUR st.os = some (some pos, os₁) ∧
      SyncedBy os st file os₁ os₂ ∧ os.close (st.fd file) os₂ = some (true, os') ∧
      st' = st.shut file (Function.update st.seekPos file pos) (Function.update st.dirty file false)
        os' (syncEvents st file) := by
  unfold lruDelete
  rw [delete_eq hfile, ok_bind]
  refine Ends.bind (sys_ends h.lseek.fails) ?_
  rintro _ ⟨pos, os₁, hseek, rfl⟩
  cases pos with
  | none => exact h.lseek.error _ hseek
  | some pos =>
    refine Ends.bind (syncIfDirty_ends (h.fsync pos os₁ hseek)) ?_
    rintro st₂ ⟨os₂, hsync, rfl⟩
    refine (closeDescriptor_ends (h.close pos os₁ os₂ hseek hsync)).mono (fun _ h => h) ?_
    rintro st₃ ⟨os', hclose, rfl⟩
    exact ⟨pos, os₁, os₂, os', hseek, hsync, hclose, rfl⟩

/-- A position is restored, unless it is the one a descriptor starts at. -/
def Restored (os : Os σ) (fd pos : Int) (s s' : σ) : Prop :=
  if pos = 0 then s' = s else ∃ p, os.lseek fd pos .SEEK_SET s = some (some p, s')

/-- The run may end where a position is not restored, or is one that looks like an error. -/
structure Restores (os : Os σ) (allowed : Fault → Prop) (fd pos : Int) (s : σ) : Prop where
  lseek : Asserted allowed (os.lseek fd pos .SEEK_SET s) none
  minus : ∀ p s', os.lseek fd pos .SEEK_SET s = some (some p, s') → toInt p = -1 →
    allowed .reopenAssertion

theorem restorePosition_ends (h : Restores os allowed (st.fd file) (st.seekPos file) st.os) :
    Ends allowed (restorePosition os st file) fun st' => ∃ os', st' = { st with os := os' } ∧
      Restored os (st.fd file) (st.seekPos file) st.os os' := by
  unfold restorePosition Restored
  by_cases hzero : st.seekPos file = 0
  · simp only [hzero, ne_eq, not_true_eq_false, if_false, if_true]
    exact ⟨st.os, rfl, rfl⟩
  · simp only [hzero, ne_eq, not_false_eq_true, if_true, if_false]
    refine Ends.bind (sys_ends h.lseek.fails) ?_
    rintro _ ⟨pos, os', hcall, rfl⟩
    cases pos with
    | none => exact h.lseek.error _ hcall
    | some pos =>
      have hneg := h.minus pos os' hcall
      dsimp only
      generalize toInt pos = n at hneg
      split
      · rename_i heq
        exact hneg heq
      · exact ⟨os', rfl, pos, hcall⟩

/-! ## Making room -/

variable {I : FdState σ → Prop}

/-- An invariant survives the eviction of any file in the ring. -/
def Evicts (os : Os σ) (allowed : Fault → Prop) (I : FdState σ → Prop) : Prop :=
  ∀ st file, I st → file ∈ st.lru → Ends allowed (lruDelete os st file) I

/-- A note about a victim changes nothing. -/
def IgnoresVictims (I : FdState σ → Prop) : Prop :=
  ∀ st file, I st → st.lru.getLast? = some file → I (st.note (.victim file))

/-- The anchor leads back to the file used least recently. -/
theorem Linked.getLast (h : Linked st limbo) : if st.lru = [] then st.lruMoreRecently 0 = 0
    else st.lru.getLast? = some (st.lruMoreRecently 0) := by
  have hback := h.ring.back
  split
  · rename_i hnil
    rwa [hnil] at hback
  · rename_i hne
    obtain ⟨init, x, hinit⟩ := (List.eq_nil_or_concat' st.lru).resolve_left hne
    rw [hinit, List.reverse_append] at hback
    rw [hinit, List.getLast?_concat, hback.1]

/-- Closing the file used least recently keeps an invariant, and leaves one file less. -/
def Releases (os : Os σ) (allowed : Fault → Prop) (I : FdState σ → Prop) : Prop :=
  ∀ st, I st → Ends allowed (releaseLruFile os st) fun r => I r.2 ∧
    (r.1 = true → r.2.nFile + 1 = st.nFile) ∧ (r.1 = false → r.2 = st)

theorem releaseLruFile_ends (hlinked : ∀ st, I st → Linked st limbo) (hevict : Evicts os allowed I)
    (hvictim : IgnoresVictims I) (h : I st) :
    Ends allowed (releaseLruFile os st) fun r => I r.2 ∧ (r.1 = true → r.2.nFile + 1 = st.nFile) ∧
      (r.1 = false → r.2 = st) := by
  have hl := hlinked st h
  unfold releaseLruFile
  split
  · rename_i hpos
    have hne : st.lru ≠ [] := by
      intro hnil
      rw [hl.nFile, hnil] at hpos
      exact Nat.lt_irrefl 0 hpos
    have hlast := hl.getLast
    rw [if_neg hne] at hlast
    have hmem := List.mem_of_getLast? hlast
    rw [if_neg (hl.ne_zero hmem)]
    refine Ends.bind ((hevict _ _ (hvictim st _ h hlast) hmem).and
      (lruDelete_ends (tolerates_any os).deletes (hl.ne_zero hmem))) ?_
    rintro _ ⟨h', pos, os₁, os₂, os', -, -, -, rfl⟩
    exact ⟨h', fun _ => Nat.succ_pred_eq_of_pos hpos, nofun⟩
  · exact ⟨h, nofun, fun _ => rfl⟩

/-- Where the ring is not known to be in order, its own `ASSERT` may fail. -/
theorem releases_of (hassert : allowed .assertion) (hos : allowed .osFailed) (hbroken : allowed .broken)
    (hdelete : ∀ st file, I st → Ends allowed (lruDelete os st file) I)
    (hvictim : ∀ st file, I st → I (st.note (.victim file))) : Releases os allowed I := by
  have ht : Tolerates os allowed :=
    ⟨hos, fun _ _ _ _ _ _ => hassert, fun _ _ _ _ => hassert, fun _ _ _ _ => hassert⟩
  intro st h
  unfold releaseLruFile
  split
  · rename_i hpos
    by_cases hzero : st.lruMoreRecently 0 = 0
    · rw [if_pos hzero]
      exact hbroken
    · rw [if_neg hzero]
      refine Ends.bind ((hdelete _ _ (hvictim st _ h)).and (lruDelete_ends ht.deletes hzero)) ?_
      rintro _ ⟨h', pos, os₁, os₂, os', -, -, -, rfl⟩
      exact ⟨h', fun _ => Nat.succ_pred_eq_of_pos hpos, nofun⟩
  · exact ⟨h, nofun, fun _ => rfl⟩

theorem Releases.whileFull (hreleases : Releases os allowed I) {k : Nat} (h : I st)
    (hk : st.nFile ≤ k) : Ends allowed (releaseWhileFull os k st) I := by
  induction k generalizing st with
  | zero =>
    unfold releaseWhileFull
    split
    · refine Ends.bind (hreleases st h) ?_
      rintro ⟨released, st'⟩ ⟨h', hless, -⟩
      cases released with
      | false => exact h'
      | true => exact absurd (hless rfl) (by omega)
    · exact h
  | succ k ih =>
    unfold releaseWhileFull
    split
    · refine Ends.bind (hreleases st h) ?_
      rintro ⟨released, st'⟩ ⟨h', hless, -⟩
      cases released with
      | false => exact h'
      | true =>
        have hless : st'.nFile + 1 = st.nFile := hless rfl
        exact ih h' (by omega)
    · exact h

theorem releaseWhileFull_ends (hlinked : ∀ st, I st → Linked st limbo)
    (hevict : Evicts os allowed I) (hvictim : IgnoresVictims I) {k : Nat} (h : I st)
    (hk : st.nFile ≤ k) : Ends allowed (releaseWhileFull os k st) I :=
  Releases.whileFull (fun _ h => releaseLruFile_ends hlinked hevict hvictim h) h hk

/-! ## Opening -/

variable {filename : FileName} {flags : OpenFlags} {mode : Nat}

/-- A failed `open` changes nothing that matters. -/
def IgnoresFailures (os : Os σ) (I : FdState σ → Prop) (filename : FileName) (flags : OpenFlags)
    (mode : Nat) : Prop :=
  ∀ st errno os', I st → os.openFile filename flags mode st.os = some (.error errno, os') →
    I { st with os := os' }

/-- Some call of `open` fails. -/
def OpenFails (os : Os σ) (filename : FileName) (flags : OpenFlags) (mode : Nat) : Prop :=
  ∃ s errno s', os.openFile filename flags mode s = some (.error errno, s')

/-- The run may end where `open` comes to nothing. -/
def Opens (os : Os σ) (allowed : Fault → Prop) (I : FdState σ → Prop) (filename : FileName)
    (flags : OpenFlags) (mode : Nat) : Prop :=
  ∀ st, I st → os.openFile filename flags mode st.os = none → allowed .osFailed

theorem Opens.mono {I' : FdState σ → Prop} (h : Opens os allowed I filename flags mode)
    (hI : ∀ st, I' st → I st) : Opens os allowed I' filename flags mode :=
  fun st h' hcall => h st (hI st h') hcall

/-- Either nothing was opened, or the last `open` was successful. -/
theorem Releases.open (hreleases : Releases os allowed I) (hopens : Opens os allowed I filename flags mode)
    (hfails : IgnoresFailures os I filename flags mode) {k : Nat} (h : I st) (hk : st.nFile ≤ k) :
    Ends allowed (basicOpenFile os filename flags mode k st) fun r => ∃ st₁, I st₁ ∧
      ((r = (-1, st₁) ∧ OpenFails os filename flags mode) ∨ ∃ (fd : Nat) (os' : σ),
        os.openFile filename flags mode st₁.os = some (.ok fd, os') ∧
          r = ((fd : Int), { st₁ with os := os' })) := by
  induction k generalizing st with
  | zero =>
    unfold basicOpenFile
    refine Ends.bind (sys_ends (hopens st h)) ?_
    rintro _ ⟨result, os', hcall, rfl⟩
    cases result with
    | ok fd => exact ⟨st, h, .inr ⟨fd, os', hcall, rfl⟩⟩
    | error errno =>
      have h₁ := hfails st errno os' h hcall
      have hfailed : OpenFails os filename flags mode := ⟨_, errno, os', hcall⟩
      dsimp only
      split
      · refine Ends.bind (hreleases _ h₁) ?_
        rintro ⟨released, st'⟩ ⟨h', hless, -⟩
        cases released with
        | false => exact ⟨st', h', .inl ⟨rfl, hfailed⟩⟩
        | true =>
          have hless : st'.nFile + 1 = st.nFile := hless rfl
          omega
      · exact ⟨_, h₁, .inl ⟨rfl, hfailed⟩⟩
  | succ k ih =>
    unfold basicOpenFile
    refine Ends.bind (sys_ends (hopens st h)) ?_
    rintro _ ⟨result, os', hcall, rfl⟩
    cases result with
    | ok fd => exact ⟨st, h, .inr ⟨fd, os', hcall, rfl⟩⟩
    | error errno =>
      have h₁ := hfails st errno os' h hcall
      have hfailed : OpenFails os filename flags mode := ⟨_, errno, os', hcall⟩
      dsimp only
      split
      · refine Ends.bind (hreleases _ h₁) ?_
        rintro ⟨released, st'⟩ ⟨h', hless, -⟩
        cases released with
        | false => exact ⟨st', h', .inl ⟨rfl, hfailed⟩⟩
        | true =>
          have hless : st'.nFile + 1 = st.nFile := hless rfl
          have hle : st'.nFile ≤ k := by omega
          exact ih h' hle
      · exact ⟨_, h₁, .inl ⟨rfl, hfailed⟩⟩

theorem basicOpenFile_ends (hopens : Opens os allowed I filename flags mode)
    (hlinked : ∀ st, I st → Linked st limbo) (hevict : Evicts os allowed I) (hvictim : IgnoresVictims I)
    (hfails : IgnoresFailures os I filename flags mode) {k : Nat} (h : I st) (hk : st.nFile ≤ k) :
    Ends allowed (basicOpenFile os filename flags mode k st) fun r => ∃ st₁, I st₁ ∧
      ((r = (-1, st₁) ∧ OpenFails os filename flags mode) ∨ ∃ (fd : Nat) (os' : σ),
        os.openFile filename flags mode st₁.os = some (.ok fd, os') ∧
          r = ((fd : Int), { st₁ with os := os' })) :=
  Releases.open (fun _ h => releaseLruFile_ends hlinked hevict hvictim h) hopens hfails h hk

/-- No descriptor is too large for a `signed short`. -/
def Os.Short (os : Os σ) : Prop :=
  ∀ filename flags mode s fd s', os.openFile filename flags mode s = some (.ok fd, s') → fd ≤ 32767

theorem toShort_of_le {fd : Nat} (h : fd ≤ 32767) : toShort fd = fd := by
  unfold toShort
  rw [Int.bmod_def]
  split <;> omega

/-- A slot that is physically closed, while room is made for its file. -/
structure Waiting (st₀ : FdState σ) (file : File) (st : FdState σ) : Prop where
  fd : st.fd file = VFD_CLOSED
  filename : st.filename = st₀.filename
  fileFlags : st.fileFlags = st₀.fileFlags
  fileMode : st.fileMode = st₀.fileMode
  seekPos : st.seekPos file = st₀.seekPos file
  dirty : st.dirty file = st₀.dirty file
  temporary : st.temporary = st₀.temporary
  nextFree : st.nextFree = st₀.nextFree
  sizeVfdCache : st.sizeVfdCache = st₀.sizeVfdCache
  numAllocatedFiles : st.numAllocatedFiles = st₀.numAllocatedFiles
  databasePath : st.databasePath = st₀.databasePath
  enableFsync : st.enableFsync = st₀.enableFsync

theorem Waiting.refl (hclosed : st.fd file = VFD_CLOSED) : Waiting st file st :=
  ⟨hclosed, rfl, rfl, rfl, rfl, rfl, rfl, rfl, rfl, rfl, rfl, rfl⟩

/-- Other files may be closed meanwhile. -/
theorem Waiting.evicts {st₀ : FdState σ} (hlinked : ∀ st, I st → Linked st limbo)
    (hevict : Evicts os allowed I) :
    Evicts os allowed fun st => I st ∧ Waiting st₀ file st := by
  rintro st victim ⟨h, hw⟩ hmem
  have hl := hlinked st h
  have hne : file ≠ victim := by
    rintro rfl
    exact (hl.open_iff file).mp hmem hw.fd
  refine ((hevict st victim h hmem).and (lruDelete_ends (tolerates_any os).deletes (hl.ne_zero hmem))).mono (fun _ h => h) ?_
  rintro _ ⟨h', pos, os₁, os₂, os', -, -, -, rfl⟩
  refine ⟨h', (Function.update_of_ne hne _ _).trans hw.fd, hw.filename, hw.fileFlags, hw.fileMode,
    (Function.update_of_ne hne _ _).trans hw.seekPos, (Function.update_of_ne hne _ _).trans hw.dirty,
    hw.temporary, hw.nextFree, hw.sizeVfdCache, hw.numAllocatedFiles, hw.databasePath, hw.enableFsync⟩

theorem Waiting.ignoresVictims {st₀ : FdState σ} (hvictim : IgnoresVictims I) :
    IgnoresVictims fun st => I st ∧ Waiting st₀ file st :=
  fun st victim h hlast => ⟨hvictim st victim h.1 hlast, h.2.fd, h.2.filename, h.2.fileFlags,
    h.2.fileMode, h.2.seekPos, h.2.dirty, h.2.temporary, h.2.nextFree, h.2.sizeVfdCache,
    h.2.numAllocatedFiles, h.2.databasePath, h.2.enableFsync⟩

theorem Waiting.ignoresFailures {st₀ : FdState σ} (hfails : IgnoresFailures os I filename flags mode) :
    IgnoresFailures os (fun st => I st ∧ Waiting st₀ file st) filename flags mode :=
  fun st errno os' h hcall => ⟨hfails st errno os' h.1 hcall, h.2.fd, h.2.filename, h.2.fileFlags,
    h.2.fileMode, h.2.seekPos, h.2.dirty, h.2.temporary, h.2.nextFree, h.2.sizeVfdCache,
    h.2.numAllocatedFiles, h.2.databasePath, h.2.enableFsync⟩

/-- Room is made, and then a file is opened for a slot, or `open` fails. -/
def Opening (os : Os σ) (I : FdState σ → Prop) (st₀ : FdState σ) (filename : FileName)
    (flags : OpenFlags) (mode : Nat) (file : File) (failed : FdState σ → Prop)
    (opened : Nat → FdState σ → σ → Prop) : Prop :=
  ∃ st, I st ∧ Waiting st₀ file st ∧
    ((failed (st.setFd file (-1)) ∧ OpenFails os filename flags mode) ∨ ∃ (fd : Nat) (os' : σ),
    os.openFile filename flags mode st.os = some (.ok fd, os') ∧ fd ≤ 32767 ∧ opened fd st os')

/-- What `lru_insert` ends with. -/
def Reopening (os : Os σ) (I : FdState σ → Prop) (st₀ : FdState σ) (file : File)
    (finish : FdState σ → FdState σ) (r : Int × FdState σ) : Prop :=
  Opening os I st₀ ((st₀.filename file).getD []) (st₀.fileFlags file) (st₀.fileMode file) file
    (fun st => r = (-1, st)) fun fd st os₁ => ∃ os₂, Restored os fd (st₀.seekPos file) os₁ os₂ ∧
      r = (0, finish (st.entered file fd os₂ (.reopened file)))

/-- The run may end where a file cannot be opened again at its position. -/
structure Reopens (os : Os σ) (allowed : Fault → Prop) (I : FdState σ → Prop) (st₀ : FdState σ)
    (file : File) : Prop where
  opens : Opens os allowed (fun st => I st ∧ Waiting st₀ file st) ((st₀.filename file).getD [])
    (st₀.fileFlags file) (st₀.fileMode file)
  restores : ∀ st (fd : Nat) (s : σ), I st → Waiting st₀ file st →
    os.openFile ((st₀.filename file).getD []) (st₀.fileFlags file) (st₀.fileMode file) st.os =
      some (.ok fd, s) → Restores os allowed fd (st₀.seekPos file) s

theorem Tolerates.reopens (ht : Tolerates os allowed)
    (hassert : ∀ fd s p s', os.lseek fd (st.seekPos file) .SEEK_SET s = some (some p, s') →
      toInt p = -1 → allowed .reopenAssertion) : Reopens os allowed I st file :=
  ⟨fun _ _ _ => ht.osFailed, fun _ fd s _ _ _ =>
    ⟨⟨fun _ => ht.osFailed, fun s' => ht.lseek _ _ _ _ s'⟩, hassert fd s⟩⟩

theorem lruInsert_ends (hreopens : Reopens os allowed I st file) (hlinked : ∀ st, I st → Linked st limbo)
    (hevict : Evicts os allowed I) (hvictim : IgnoresVictims I)
    (hfails : IgnoresFailures os I ((st.filename file).getD []) (st.fileFlags file) (st.fileMode file))
    (hshort : os.Short) (hfile : file ≠ 0) (h : I st) (hclosed : st.fd file = VFD_CLOSED) :
    Ends allowed (lruInsert os st file) (Reopening os I st file id) := by
  have hlinked' : ∀ st', I st' ∧ Waiting st file st' → Linked st' limbo := fun st' h => hlinked st' h.1
  have hevict' : Evicts os allowed fun st' => I st' ∧ Waiting st file st' :=
    Waiting.evicts hlinked hevict
  have hvictim' : IgnoresVictims fun st' => I st' ∧ Waiting st file st' :=
    Waiting.ignoresVictims hvictim
  have hfails' : IgnoresFailures os (fun st' => I st' ∧ Waiting st file st')
    ((st.filename file).getD []) (st.fileFlags file) (st.fileMode file) :=
    Waiting.ignoresFailures hfails
  unfold lruInsert
  rw [if_neg hfile, if_pos hclosed]
  refine Ends.bind (releaseWhileFull_ends hlinked' hevict' hvictim' ⟨h, .refl hclosed⟩
    (Nat.le_refl _)) ?_
  rintro st₁ ⟨h₁, hw₁⟩
  rw [hw₁.filename, hw₁.fileFlags, hw₁.fileMode]
  refine Ends.bind (basicOpenFile_ends hreopens.opens hlinked' hevict' hvictim' hfails' ⟨h₁, hw₁⟩
    (Nat.le_refl _)) ?_
  rintro _ ⟨st₂, ⟨h₂, hw₂⟩, ⟨rfl, hfailed⟩ | ⟨fd, os₁, hcall, rfl⟩⟩
  · have hneg : (st₂.setFd file (-1)).fd file = -1 := Function.update_self _ _ _
    dsimp only
    rw [hneg, if_pos (by decide)]
    exact ⟨st₂, h₂, hw₂, .inl ⟨rfl, hfailed⟩⟩
  · have hle := hshort _ _ _ _ _ _ hcall
    have hfd : (FdState.setFd { st₂ with os := os₁ } file fd).fd file = fd :=
      (Function.update_self _ _ _).trans (toShort_of_le hle)
    dsimp only
    rw [hfd, if_neg (by omega)]
    refine Ends.bind (restorePosition_ends ?_) ?_
    · rw [hfd]
      have hrestores := hreopens.restores st₂ fd os₁ h₂ hw₂ hcall
      rwa [← hw₂.seekPos] at hrestores
    · rintro _ ⟨os₂, rfl, hrestored⟩
      dsimp only at hrestored
      rw [hfd] at hrestored
      rw [insert_eq hfile]
      exact ⟨st₂, h₂, hw₂, .inr ⟨fd, os₁, hcall, hle, os₂, hw₂.seekPos ▸ hrestored, rfl⟩⟩

theorem fileAccess_open (hfile : file ≠ 0) (hopen : st.fd file ≠ VFD_CLOSED) :
    fileAccess os st file = .ok (0, st.touched file) := by
  unfold fileAccess FdState.touched
  rw [if_neg hopen]
  split
  · rw [delete_eq hfile, ok_bind, insert_eq hfile]
    rfl
  · rfl

/-- `file_access` moves an open file to the front, and reopens a closed one. -/
theorem fileAccess_ends (hreopens : st.fd file = VFD_CLOSED → Reopens os allowed I st file)
    (hlinked : ∀ st, I st → Linked st limbo) (hevict : Evicts os allowed I) (hvictim : IgnoresVictims I)
    (hfails : IgnoresFailures os I ((st.filename file).getD []) (st.fileFlags file) (st.fileMode file))
    (hshort : os.Short) (hfile : file ≠ 0) (h : I st) :
    Ends allowed (fileAccess os st file) fun r =>
      (st.fd file ≠ VFD_CLOSED ∧ r = (0, st.touched file)) ∨
      (st.fd file = VFD_CLOSED ∧ Reopening os I st file (FdState.note · (.accessed file)) r) := by
  by_cases hclosed : st.fd file = VFD_CLOSED
  · unfold fileAccess
    rw [if_pos hclosed]
    refine Ends.bind (lruInsert_ends (hreopens hclosed) hlinked hevict hvictim hfails hshort hfile h
      hclosed) ?_
    rintro ⟨code, st'⟩ ⟨st₂, h₂, hw₂, ⟨hr, hfailed⟩ | ⟨fd, os₁, hcall, hle, os₂, hrestored, hr⟩⟩
    · obtain ⟨rfl, rfl⟩ := Prod.mk.inj hr
      exact .inr ⟨hclosed, st₂, h₂, hw₂, .inl ⟨rfl, hfailed⟩⟩
    · obtain ⟨rfl, rfl⟩ := Prod.mk.inj hr
      exact .inr ⟨hclosed, st₂, h₂, hw₂, .inr ⟨fd, os₁, hcall, hle, os₂, hrestored, rfl⟩⟩
  · rw [fileAccess_open hfile hclosed]
    exact .inl ⟨hclosed, rfl⟩

/-- What `file_name_open_file_aux` ends with. -/
def NewlyOpened (os : Os σ) (I : FdState σ → Prop) (st₀ : FdState σ) (filename : FileName)
    (flags : OpenFlags) (mode : Nat) (file : File) (r : Option File × FdState σ) : Prop :=
  Opening os I st₀ filename flags mode file (fun st => r = (none, freeVfd st file))
    fun fd st os' => r = (some file,
      (st.entered file fd os' (.opened file)).fillSlot file filename flags mode)

theorem fileNameOpenFileAux_ends {I : File → FdState σ → Prop}
    (hopens : ∀ file, Opens os allowed (I file) filename flags mode)
    (hnarrow : 2 ^ 32 ≤ allocatedSize st → allowed .narrowIndex) (hlinked : ∀ file st, I file st → Linked st (some file))
    (hevict : ∀ file, Evicts os allowed (I file)) (hvictim : ∀ file, IgnoresVictims (I file))
    (hfails : ∀ file, IgnoresFailures os (I file) filename flags mode) (hshort : os.Short)
    (hallocated : ∀ file st', Linked st' (some file) → Kept st st' →
      st'.sizeVfdCache = allocatedSize st → st.filename file = none → st.fd file = VFD_CLOSED →
      I file st') (h : Linked st none) :
    Ends allowed (fileNameOpenFileAux os st filename flags mode) fun r => ∃ file st₀,
      Linked st₀ (some file) ∧ Kept st st₀ ∧ st.filename file = none ∧ st.fd file = VFD_CLOSED ∧
        NewlyOpened os (I file) st₀ filename flags mode file r := by
  unfold fileNameOpenFileAux
  refine Ends.bind (allocateVfd_ends h hnarrow) ?_
  rintro ⟨file, st₀⟩ ⟨hlinked₀, hkept, hsize, hname, hclosed⟩
  have h₀ := hallocated file st₀ hlinked₀ hkept hsize hname hclosed
  have hclosed₀ : st₀.fd file = VFD_CLOSED := (congrFun hkept.fd file).trans hclosed
  have hlinked' : ∀ st', I file st' ∧ Waiting st₀ file st' → Linked st' (some file) :=
    fun st' h => hlinked file st' h.1
  have hevict' : Evicts os allowed fun st' => I file st' ∧ Waiting st₀ file st' :=
    Waiting.evicts (hlinked file) (hevict file)
  have hvictim' : IgnoresVictims fun st' => I file st' ∧ Waiting st₀ file st' :=
    Waiting.ignoresVictims (hvictim file)
  have hfails' : IgnoresFailures os (fun st' => I file st' ∧ Waiting st₀ file st') filename flags mode :=
    Waiting.ignoresFailures (hfails file)
  dsimp only
  refine Ends.bind (releaseWhileFull_ends hlinked' hevict' hvictim' ⟨h₀, .refl hclosed₀⟩
    (Nat.le_refl _)) ?_
  rintro st₁ ⟨h₁, hw₁⟩
  refine Ends.bind (basicOpenFile_ends ((hopens file).mono fun _ h => h.1) hlinked' hevict' hvictim' hfails' ⟨h₁, hw₁⟩
    (Nat.le_refl _)) ?_
  rintro _ ⟨st₂, ⟨h₂, hw₂⟩, ⟨rfl, hfailed⟩ | ⟨fd, os₁, hcall, rfl⟩⟩
  · have hneg : (st₂.setFd file (-1)).fd file = -1 := Function.update_self _ _ _
    dsimp only
    rw [hneg, if_pos (by decide)]
    exact ⟨file, st₀, hlinked₀, hkept, hname, hclosed, st₂, h₂, hw₂, .inl ⟨rfl, hfailed⟩⟩
  · have hle := hshort _ _ _ _ _ _ hcall
    have hfd : (FdState.setFd { st₂ with os := os₁ } file fd).fd file = fd :=
      (Function.update_self _ _ _).trans (toShort_of_le hle)
    have hfile : file ≠ 0 := Nat.pos_iff_ne_zero.mp (hlinked₀.within file (.inr rfl)).1
    dsimp only
    rw [hfd, if_neg (by omega), insert_eq hfile]
    exact ⟨file, st₀, hlinked₀, hkept, hname, hclosed, st₂, h₂, hw₂, .inr ⟨fd, os₁, hcall, hle, rfl⟩⟩

/-! ## All files -/

theorem closeVfds_ends (hlinked : ∀ st, I st → Linked st limbo) (hevict : Evicts os allowed I)
    {is : List File} (h : I st) : Ends allowed (closeVfds os is st) I := by
  induction is generalizing st with
  | nil => exact h
  | cons i is ih =>
    unfold closeVfds
    split
    · rename_i hopen
      exact Ends.bind (hevict st i h (((hlinked st h).open_iff i).mpr hopen)) fun st' h' => ih h'
    · exact ih h

theorem closeAllVfds_ends (hlinked : ∀ st, I st → Linked st limbo) (hevict : Evicts os allowed I)
    (h : I st) : Ends allowed (closeAllVfds os st) I := by
  unfold closeAllVfds
  split
  · rw [if_neg (not_not.mpr (hlinked st h).closed_zero)]
    exact closeVfds_ends hlinked hevict h
  · exact h

end PostgresV7.Fd
