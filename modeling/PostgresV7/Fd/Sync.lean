import PostgresV7.Fd.Narrow

/-!
# What `file_sync` returns (`fd.c`)

A file is synced only where it has to be opened again first. For one that is open
`return_code` is returned as it was found.
-/

namespace PostgresV7.Fd

open Outcomes

variable {σ : Type} {os : Os σ} {st st' : FdState σ} {file : File}

/-- The process ends: an `ASSERT` fails, or the operating system does not come back. -/
def Aborts (e : Fault) : Prop :=
  e = .assertion ∨ e = .reopenAssertion ∨ e = .broken ∨ e = .osFailed

/-- What is no descriptor has no position. -/
def Os.Refuses (os : Os σ) : Prop :=
  ∀ offset whence s pos s', os.lseek VFD_CLOSED offset whence s ≠ some (some pos, s')

theorem aborts_tolerates : Tolerates os Aborts :=
  ⟨.inr (.inr (.inr rfl)), fun _ _ _ _ _ _ => .inl rfl, fun _ _ _ _ => .inl rfl, fun _ _ _ _ => .inl rfl⟩

/-! ## While a closed file waits -/

/-- The file is closed, and no `fsync` of it is noted. -/
structure Unsynced (st₀ : FdState σ) (file : File) (st : FdState σ) : Prop where
  waiting : Waiting st₀ file st
  events : ∃ evs, st.log = evs ++ st₀.log ∧ .synced file ∉ evs

theorem Unsynced.note {st₀ : FdState σ} {ev : Event} (h : Unsynced st₀ file st)
    (hev : ev ≠ .synced file) : Unsynced st₀ file (st.note ev) := by
  obtain ⟨hw, evs, hlog, hnot⟩ := h
  constructor
  · exact ⟨hw.fd, hw.filename, hw.fileFlags, hw.fileMode, hw.seekPos, hw.dirty, hw.temporary, hw.nextFree,
      hw.sizeVfdCache, hw.numAllocatedFiles, hw.databasePath, hw.enableFsync⟩
  · refine ⟨ev :: evs, ?_, ?_⟩
    · show ev :: st.log = _
      rw [hlog]
      rfl
    · simp [hev.symm, hnot]

/-- A closed file is not the victim: its position could not be asked for. -/
theorem Unsynced.delete {st₀ : FdState σ} {victim : File} (hrefuses : os.Refuses)
    (h : Unsynced st₀ file st) : Ends Aborts (lruDelete os st victim) (Unsynced st₀ file) := by
  by_cases hzero : victim = 0
  · unfold lruDelete Fd.delete
    rw [if_pos hzero]
    exact .inr (.inr (.inl rfl))
  apply (lruDelete_ends aborts_tolerates.deletes hzero).mono (fun _ h => h)
  rintro _ ⟨pos, os₁, os₂, os', hseek, -, -, rfl⟩
  obtain ⟨hw, evs, hlog, hnot⟩ := h
  have hne : file ≠ victim := by
    rintro rfl
    rw [hw.fd] at hseek
    exact hrefuses _ _ _ _ _ hseek
  have hother : ∀ {α : Type} (m : File → α) (a : α), Function.update m victim a file = m file :=
    fun m a => Function.update_of_ne hne a m
  constructor
  · exact ⟨(hother _ _).trans hw.fd, hw.filename, hw.fileFlags, hw.fileMode,
      (hother _ _).trans hw.seekPos, (hother _ _).trans hw.dirty, hw.temporary, hw.nextFree,
      hw.sizeVfdCache, hw.numAllocatedFiles, hw.databasePath, hw.enableFsync⟩
  · refine ⟨.closed victim :: (syncEvents st victim ++ evs), ?_, ?_⟩
    · show .closed victim :: (syncEvents st victim ++ st.log) = _
      simp [hlog]
    · unfold syncEvents
      split <;> simp [hne, hnot]

theorem unsynced_survives (hrefuses : os.Refuses) (st₀ : FdState σ) (file : File) :
    Survives os Aborts (Unsynced st₀ file) := by
  constructor
  · apply releases_of (.inl rfl) (.inr (.inr (.inr rfl))) (.inr (.inr (.inl rfl)))
    · intro st victim h
      exact h.delete hrefuses
    · intro st victim h
      exact h.note (by simp)
  · intro filename flags mode st errno s h hcall
    obtain ⟨hw, hevs⟩ := h
    exact ⟨⟨hw.fd, hw.filename, hw.fileFlags, hw.fileMode, hw.seekPos, hw.dirty, hw.temporary, hw.nextFree,
      hw.sizeVfdCache, hw.numAllocatedFiles, hw.databasePath, hw.enableFsync⟩, hevs⟩

/-! ## What was not assigned -/

/-- The system with something else in memory that nothing was assigned to. -/
def Os.withJunk (os : Os σ) (junk : σ → Int) : Os σ := { os with indeterminate := junk }

theorem releaseWhileFull_junk (junk : σ → Int) (k : Nat) (st : FdState σ) :
    releaseWhileFull (os.withJunk junk) k st = releaseWhileFull os k st := by
  induction k generalizing st with
  | zero => rfl
  | succ k ih =>
    unfold releaseWhileFull
    simp only [ih]
    rfl

theorem basicOpenFile_junk (junk : σ → Int) (filename : FileName) (flags : OpenFlags) (mode k : Nat)
    (st : FdState σ) :
    basicOpenFile (os.withJunk junk) filename flags mode k st = basicOpenFile os filename flags mode k st := by
  induction k generalizing st with
  | zero =>
    unfold basicOpenFile
    rfl
  | succ k ih =>
    unfold basicOpenFile
    simp only [ih]
    rfl

theorem lruInsert_junk (junk : σ → Int) (st : FdState σ) (file : File) :
    lruInsert (os.withJunk junk) st file = lruInsert os st file := by
  unfold lruInsert
  simp only [releaseWhileFull_junk, basicOpenFile_junk]
  rfl

/-! ## The result -/

/-- `0` says that nothing is left to be synced, and anything else that the file is as dirty
as before. -/
structure Reports (st : FdState σ) (file : File) (r : Int × FdState σ) : Prop where
  zero : r.1 = 0 → r.2.dirty file = false ∧ (st.dirty file = false ∨ st.enableFsync = false ∨
    ∃ evs, r.2.log = evs ++ st.log ∧ .synced file ∈ evs)
  nonzero : r.1 ≠ 0 → st.dirty file = true → r.2.dirty file = true

/-- The result does not depend on what was not assigned. -/
structure SyncSound (os : Os σ) (st : FdState σ) (file : File) (r : Int × FdState σ) : Prop extends
    Reports st file r where
  defined : ∀ junk, fileSync (os.withJunk junk) st file = .ok r

/-- There is something to be synced. -/
def NeedsSync (st : FdState σ) (file : File) : Prop := st.dirty file = true ∧ st.enableFsync = true

/-- The file is opened with a descriptor that does not fit its slot, and the `fsync` of the
one that is there works. -/
def Misdirected (os : Os σ) (st : FdState σ) (file : File) : Prop :=
  ∃ st' s, lruInsert os st file = .ok (0, st') ∧ st'.fd file ≠ st'.descriptor file ∧
    os.fsync (st'.fd file) st'.os = some (true, s)

theorem fileSync_clean (hfile : FileIsValid st file) (hclean : st.dirty file = false) :
    fileSync os st file = .ok (0, st) := by
  simp [fileSync, hfile, hclean]

theorem fileSync_disabled (hfile : FileIsValid st file) (hdirty : st.dirty file = true)
    (hdisabled : st.enableFsync = false) :
    fileSync os st file = .ok (0, { st with dirty := Function.update st.dirty file false }) := by
  simp [fileSync, hfile, hdirty, hdisabled]

theorem fileSync_open (hfile : FileIsValid st file) (hneeds : NeedsSync st file)
    (hopen : st.fd file ≠ VFD_CLOSED) : fileSync os st file = .ok (os.indeterminate st.os, st) := by
  simp [fileSync, hfile, hneeds.1, hneeds.2, hopen]

theorem fileSync_closed (hfile : FileIsValid st file) (hneeds : NeedsSync st file)
    (hclosed : st.fd file = VFD_CLOSED) : fileSync os st file = (do
      let (returnCode, st) ← lruInsert os st file
      if returnCode ≠ 0 then .ok (returnCode, st)
      else
        let (done, st) ← pgFsync os st file
        if done then .ok (0, { st with dirty := Function.update st.dirty file false })
        else .ok (-1, st)) := by
  simp [fileSync, hfile, hneeds.1, hneeds.2, hclosed]

theorem fileSync_junk (junk : σ → Int) (hclosed : st.fd file = VFD_CLOSED) :
    fileSync (os.withJunk junk) st file = fileSync os st file := by
  unfold fileSync
  simp only [lruInsert_junk, if_pos hclosed]
  rfl

theorem reports_failure {st₁ : FdState σ} {code fd : Int} {s : σ} (h : Unsynced st file st₁) (hcode : code ≠ 0) :
    Reports st file (code, { st₁.setFd file fd with os := s }) :=
  ⟨fun hzero => absurd hzero hcode, fun _ hdirty => h.waiting.dirty.trans hdirty⟩

/-- The `fsync` after a file was opened again. -/
theorem pgFsync_reports {st₁ : FdState σ} {fd : Nat} {s : σ} (hneeds : NeedsSync st file)
    (h : Unsynced st file st₁) :
    Ends Aborts (do
      let (done, st) ← pgFsync os (st₁.entered file fd s (.reopened file)) file
      if done then .ok (0, { st with dirty := Function.update st.dirty file false }) else .ok (-1, st))
    fun r : Int × FdState σ => Reports st file r ↔
      ¬ (toShort fd ≠ fd ∧ ∃ s', os.fsync (toShort fd) s = some (true, s')) := by
  have henabled : (st₁.entered file fd s (.reopened file)).enableFsync = true :=
    h.waiting.enableFsync.trans hneeds.2
  have hfd : (st₁.entered file fd s (.reopened file)).fd file = toShort fd := fd_setFd st₁ file fd
  have hdescriptor : (st₁.entered file fd s (.reopened file)).descriptor file = fd :=
    Function.update_self _ _ _
  refine Ends.bind (pgFsync_ends fun _ => .inr (.inr (.inr rfl))) ?_
  rintro _ ⟨done, s', hcall, rfl⟩
  rw [if_pos henabled, hfd] at hcall
  obtain ⟨evs, hlog, hnot⟩ := h.events
  dsimp only
  rw [henabled, hfd, hdescriptor]
  cases done with
  | false =>
    simp only [Bool.false_eq_true, false_and, if_false, List.nil_append]
    refine iff_of_true ⟨nofun, fun _ hdirty => h.waiting.dirty.trans hdirty⟩ ?_
    rintro ⟨-, s'', hsync⟩
    cases hcall.symm.trans hsync
  | true =>
    simp only [true_and, if_true]
    by_cases hfits : toShort fd = fd
    · rw [if_pos hfits]
      refine iff_of_true ⟨fun _ => ⟨Function.update_self _ _ _, .inr (.inr ?_)⟩, fun hne => absurd rfl hne⟩
        fun hmis => hmis.1 hfits
      refine ⟨.synced file :: .reopened file :: evs, ?_, by simp⟩
      simp [FdState.entered, hlog]
    · rw [if_neg hfits]
      refine iff_of_false ?_ (not_not.mpr ⟨hfits, s', hcall⟩)
      intro hreports
      rcases (hreports.zero rfl).2 with hclean | hdisabled | ⟨evs', hevs', hmem⟩
      · exact Bool.false_ne_true (hclean.symm.trans hneeds.1)
      · exact Bool.false_ne_true (hdisabled.symm.trans hneeds.2)
      · have hevents : (.reopened file :: evs) ++ st.log = evs' ++ st.log := by
          simpa [FdState.entered, hlog] using hevs'
        rw [← List.append_cancel_right hevents] at hmem
        simp [hnot] at hmem

/-- What is returned for a closed file, by what `lru_insert` did. -/
theorem fileSync_closed_sound (hrefuses : os.Refuses) (hfile : FileIsValid st file)
    (hneeds : NeedsSync st file) (hclosed : st.fd file = VFD_CLOSED) :
    Ends Aborts (fileSync os st file) fun r => Reports st file r ↔ ¬ Misdirected os st file := by
  have hne : file ≠ 0 := Nat.pos_iff_ne_zero.mp hfile.1
  have hstart : Unsynced st file st := ⟨.refl hclosed, [], rfl, by simp⟩
  rw [fileSync_closed hfile hneeds hclosed]
  refine Ends.bind (lruInsert_outcome (unsynced_survives hrefuses st file) (.inl rfl) (.inr (.inl rfl))
    (.inr (.inr (.inr rfl))) hne hstart hclosed).ran ?_
  rintro r ⟨hrun, st₁, h₁, rfl | ⟨filename, flags, mode, fd, s, hcall, hr⟩⟩
  · refine iff_of_true (reports_failure h₁ (by decide)) ?_
    rintro ⟨st', s, hrun', -⟩
    have hcode := (Prod.mk.inj (Except.ok.inj (hrun.symm.trans hrun'))).1
    exact absurd hcode (by decide)
  · rcases hr with ⟨hneg, rfl⟩ | ⟨hnonneg, s', hrestored, rfl⟩
    · have hcode : toShort fd ≠ 0 := by omega
      dsimp only
      rw [if_pos hcode]
      refine iff_of_true (reports_failure h₁ hcode) ?_
      rintro ⟨st', s, hrun', -⟩
      exact hcode (Prod.mk.inj (Except.ok.inj (hrun.symm.trans hrun'))).1
    · have hfd : (st₁.entered file fd s' (.reopened file)).fd file = toShort fd := fd_setFd st₁ file fd
      have hdescriptor : (st₁.entered file fd s' (.reopened file)).descriptor file = fd :=
        Function.update_self _ _ _
      dsimp only
      rw [if_neg (not_not.mpr rfl)]
      apply (pgFsync_reports hneeds h₁).mono (fun _ h => h)
      intro r hr
      rw [hr]
      apply not_congr
      constructor
      · rintro ⟨hmis, s'', hsync⟩
        refine ⟨_, s'', hrun, ?_, ?_⟩
        · rw [hfd, hdescriptor]
          exact hmis
        · rw [hfd]
          exact hsync
      · rintro ⟨st', s'', hrun', hmis, hsync⟩
        obtain ⟨-, rfl⟩ := Prod.mk.inj (Except.ok.inj (hrun.symm.trans hrun'))
        rw [hfd, hdescriptor] at hmis
        rw [hfd] at hsync
        exact ⟨hmis, s'', hsync⟩

theorem Kernel.os_refuses {pick : Kernel → Option Nat} {junk : Kernel → Int} :
    (Kernel.os pick junk).Refuses := by
  intro offset whence s pos s' h
  cases h

/-- A system with nothing in it, and with `0` in memory that nothing was assigned to. -/
def emptyKernel : Kernel := ⟨fun _ => none, fun _ => [], 0, fun _ => none⟩

def plainOs : Os Kernel := Kernel.os (lowestFree 3 61) fun _ => 0

/-- A new file, and what is done with it. -/
def created (ops : List Op) : Except Fault (List Result × FdState Kernel) :=
  run plainOs (.openFile ['/', 'a'] { access := .O_RDWR, creat := true } 0 :: ops)
    (FdState.init [] true emptyKernel)

theorem created_closed : ∃ rs st file, created [.releaseLru, .markDirty 1] = .ok (rs, st) ∧
    FileIsValid st file ∧ st.fd file = VFD_CLOSED ∧
    ∃ st', lruInsert plainOs st file = .ok (0, st') ∧ st'.fd file = st'.descriptor file := by
  have hrun : okAnd (created [.releaseLru, .markDirty 1]) (fun t => okAnd (lruInsert plainOs t.2 1) fun t' =>
      decide (t'.1 = 0 ∧ FileIsValid t.2 1 ∧ t.2.fd 1 = VFD_CLOSED ∧ t'.2.fd 1 = t'.2.descriptor 1)) = true := by
    decide +kernel
  obtain ⟨⟨rs, st⟩, hcreated, hinserts⟩ := okAnd_iff.mp hrun
  obtain ⟨⟨_, st'⟩, hinsert, htest⟩ := okAnd_iff.mp hinserts
  obtain ⟨rfl, hvalid, hclosed, hfd⟩ := of_decide_eq_true htest
  exact ⟨rs, st, 1, hcreated, hvalid, hclosed, st', hinsert, hfd⟩

theorem created_dirty : ∃ rs st file st', created [] = .ok (rs, st) ∧
    fileSync plainOs st file = .ok (0, st') ∧ st'.dirty file = true := by
  have hrun : ∃ file, okAnd (created []) (fun t => okAnd (fileSync plainOs t.2 file) fun t' =>
      decide (t'.1 = 0 ∧ t'.2.dirty file = true)) = true := ⟨1, by decide +kernel⟩
  obtain ⟨file, hrun⟩ := hrun
  obtain ⟨⟨rs, st⟩, hcreated, hsyncs⟩ := okAnd_iff.mp hrun
  obtain ⟨⟨_, st'⟩, hsync, htest⟩ := okAnd_iff.mp hsyncs
  obtain ⟨rfl, hdirty⟩ := of_decide_eq_true htest
  exact ⟨rs, st, file, st', hcreated, hsync, hdirty⟩

end PostgresV7.Fd
