import PostgresV7.Fd.Sync
import PostgresV7.Lib.Runs

/-!
# The positions of closed files (`fd.c`)

A file that is closed behind its owner's back is opened again at its `seek_pos`. What was
never asked of the system may be negative: a `SEEK_CUR` is added to the position of a closed
file without any check, and a read or write of a file that could not be opened again leaves
`FILE_UNKNOWN_POS`.
-/

namespace PostgresV7.Fd

open Outcomes Runs

variable {σ : Type} {os : Os σ} {st₀ st st' : FdState (σ × List Syscall)} {file : File}

/-- A file that is physically closed has a position it can be opened at again. -/
def Seekable {τ : Type} (st : FdState τ) : Prop :=
  ∀ i, st.filename i ≠ none → st.fd i = VFD_CLOSED → 0 ≤ st.seekPos i

/-- No file is set to a negative position. -/
def Syscall.NonNegative : Syscall → Prop
  | .lseek _ offset whence _ => whence = .SEEK_SET → 0 ≤ offset
  | _ => True

theorem Syscall.Closing.nonNegative {c : Syscall} (h : c.Closing) : c.NonNegative := by
  cases c with
  | lseek fd offset whence pos =>
    intro hset
    cases h.symm.trans hset
  | _ => trivial

theorem Syscall.Room.nonNegative {c : Syscall} (h : c.Room) : c.NonNegative := by
  cases c with
  | openFile => trivial
  | _ => exact Syscall.Closing.nonNegative h

/-- Both, since `st₀`. -/
structure Positions (st₀ st : FdState (σ × List Syscall)) : Prop where
  placed : Seekable st
  asked : Adds Syscall.NonNegative st₀ st

/-- Closed files keep their positions, or get one that is not negative. -/
theorem Positions.move (h : Positions st₀ st) (hadds : Adds Syscall.NonNegative st st')
    (hplaced : ∀ i, st'.filename i ≠ none → st'.fd i = VFD_CLOSED →
      (st.filename i ≠ none ∧ st.fd i = VFD_CLOSED ∧ st'.seekPos i = st.seekPos i) ∨ 0 ≤ st'.seekPos i) :
    Positions st₀ st' := by
  refine ⟨?_, h.asked.trans hadds⟩
  intro i hname hclosed
  rcases hplaced i hname hclosed with ⟨hname', hclosed', hpos⟩ | hnonneg
  · rw [hpos]
    exact h.placed i hname' hclosed'
  · exact hnonneg

theorem Positions.same (h : Positions st₀ st) (hadds : Adds Syscall.NonNegative st st')
    (hname : st'.filename = st.filename) (hfd : st'.fd = st.fd) (hpos : st'.seekPos = st.seekPos) :
    Positions st₀ st' := by
  apply h.move hadds
  intro i hname' hclosed
  rw [hname] at hname'
  rw [hfd] at hclosed
  exact .inl ⟨hname', hclosed, by rw [hpos]⟩

/-- A call of the system that sets no position. -/
theorem Positions.sys {α : Type} {call : σ → Option (α × σ)} {entry : α → Syscall} (h : Positions st₀ st)
    (hentry : ∀ a, (entry a).NonNegative) :
    Ends (fun _ => True) (st.sys (logged call entry)) fun r =>
      Positions st₀ r.2 ∧ r.2.fd = st.fd ∧ r.2.filename = st.filename ∧ r.2.seekPos = st.seekPos := by
  apply (Ends.and (sys_ends fun _ => trivial) (sys_makes hentry)).mono (fun _ h => h)
  rintro _ ⟨⟨a, s, -, rfl⟩, hadds⟩
  exact ⟨h.same hadds rfl rfl rfl, rfl, rfl, rfl⟩

/-! ## Closing -/

theorem Positions.lruDelete (h : Positions st₀ st) :
    Ends (fun _ => True) (lruDelete os.traced st file) (Positions st₀) := by
  by_cases hzero : file = 0
  · unfold Fd.lruDelete delete
    rw [if_pos hzero]
    trivial
  apply (Ends.and (lruDelete_ends (tolerates_any _).deletes hzero) lruDelete_makes).mono (fun _ h => h)
  rintro _ ⟨⟨pos, os₁, os₂, os', -, -, -, rfl⟩, hadds⟩
  apply h.move (hadds.mono fun _ => Syscall.Closing.nonNegative)
  intro i hname hclosed
  by_cases hi : i = file
  · right
    rw [hi]
    show 0 ≤ Function.update st.seekPos file (pos : Int) file
    simp
  · left
    exact ⟨hname, (Function.update_of_ne hi _ _).symm.trans hclosed, Function.update_of_ne hi _ _⟩

theorem pgFsync_nonNegative : Makes Syscall.NonNegative (pgFsync os.traced st file) st Prod.snd := by
  have hfsync : ∀ done, Syscall.NonNegative (.fsync (st.fd file) done) := fun _ => trivial
  exact pgFsync_makes hfsync

theorem Positions.pgFsync (h : Positions st₀ st) :
    Ends (fun _ => True) (pgFsync os.traced st file) fun r =>
      Positions st₀ r.2 ∧ r.2.filename = st.filename := by
  apply (Ends.and (pgFsync_ends fun _ => trivial) pgFsync_nonNegative).mono (fun _ h => h)
  rintro _ ⟨⟨done, s, -, rfl⟩, hadds⟩
  exact ⟨h.same hadds rfl rfl rfl, rfl⟩

theorem closeIfOpen_nonNegative : Makes Syscall.NonNegative (closeIfOpen os.traced st file) st id := by
  have hfsync : ∀ fd done, Syscall.NonNegative (.fsync fd done) := fun _ _ => trivial
  have hclose : ∀ fd done, Syscall.NonNegative (.close fd done) := fun _ _ => trivial
  unfold closeIfOpen
  split
  · apply Makes.bind delete_makes
    intro st₁
    apply Makes.bind (syncIfDirty_makes (hfsync _))
    intro st₂
    exact closeDescriptor_makes (hclose _)
  · exact Makes.ok rfl

theorem unlinkIfTemporary_nonNegative :
    Makes Syscall.NonNegative (unlinkIfTemporary os.traced st file) st id := by
  have hunlink : ∀ errno, Syscall.NonNegative (.unlink ((st.filename file).getD []) errno) := fun _ => trivial
  unfold unlinkIfTemporary
  split
  · have hsys : Makes Syscall.NonNegative (FdState.sys
        { st with temporary := Function.update st.temporary file false }
        (os.traced.unlink ((st.filename file).getD []))) st Prod.snd := sys_makes hunlink
    apply hsys.bind
    intro r
    exact Makes.ok rfl
  · exact Makes.ok rfl

theorem fileClose_nonNegative : Makes Syscall.NonNegative (fileClose os.traced st file) st id := by
  unfold fileClose
  split
  · exact Makes.error
  · apply Makes.bind closeIfOpen_nonNegative
    intro st₁
    apply Makes.bind unlinkIfTemporary_nonNegative
    intro st₂
    exact Makes.ok rfl

/-- A slot that is closed for good has no name, and so no position. -/
theorem Positions.fileClose (h : Positions st₀ st) :
    Ends (fun _ => True) (fileClose os.traced st file) (Positions st₀) := by
  apply (Ends.and (fileClose_ends.mono (fun _ _ => trivial) fun _ h => h) fileClose_nonNegative).mono
    (fun _ h => h)
  rintro _ ⟨⟨-, st₁, os', -, hname, hst₁, rfl⟩, hadds⟩
  apply h.move hadds
  intro i hname' hclosed
  have hi : i ≠ file := by
    rintro rfl
    exact hname' (Function.update_self _ _ _)
  have hname₁ : st₁.filename i ≠ none := fun hnone => hname' ((Function.update_of_ne hi _ _).trans hnone)
  rw [hname] at hname₁
  left
  rcases hst₁ with rfl | ⟨-, os₁, rfl⟩
  · exact ⟨hname₁, hclosed, rfl⟩
  · exact ⟨hname₁, (Function.update_of_ne hi _ _).symm.trans hclosed, rfl⟩

theorem Positions.fileUnlink (h : Positions st₀ st) :
    Ends (fun _ => True) (fileUnlink os.traced st file) (Positions st₀) := by
  unfold Fd.fileUnlink
  split
  · trivial
  · have hmarked : Positions st₀ { st with temporary := Function.update st.temporary file true } :=
      h.same (Adds.of_eq rfl) rfl rfl rfl
    exact hmarked.fileClose

/-! ## Opening -/

/-- A file that waits to be opened again. -/
structure Shelved (st₀ : FdState (σ × List Syscall)) (file : File) (st : FdState (σ × List Syscall)) :
    Prop where
  positions : Positions st₀ st
  closed : st.fd file = VFD_CLOSED
  named : st.filename file ≠ none

theorem Shelved.lruDelete {victim : File} (h : Shelved st₀ file st) :
    Ends (fun _ => True) (lruDelete os.traced st victim) (Shelved st₀ file) := by
  by_cases hzero : victim = 0
  · unfold Fd.lruDelete delete
    rw [if_pos hzero]
    trivial
  apply (Ends.and (lruDelete_ends (tolerates_any _).deletes hzero) h.positions.lruDelete).mono (fun _ h => h)
  rintro _ ⟨⟨pos, os₁, os₂, os', -, -, -, rfl⟩, hpositions⟩
  refine ⟨hpositions, ?_, h.named⟩
  show Function.update st.fd victim VFD_CLOSED file = VFD_CLOSED
  by_cases hi : file = victim
  · simp [hi]
  · simp [hi, h.closed]

theorem shelved_survives (st₀ : FdState (σ × List Syscall)) (file : File) :
    Survives os.traced (fun _ => True) (Shelved st₀ file) := by
  constructor
  · apply releases_of trivial trivial trivial
    · intro st victim h
      exact h.lruDelete
    · intro st victim h
      exact ⟨h.positions.same (Adds.of_eq rfl) rfl rfl rfl, h.closed, h.named⟩
  · intro filename flags mode st errno s h hcall
    have hadds : Adds Syscall.NonNegative st { st with os := s } :=
      ⟨_, open_adds hcall, by simp [Syscall.NonNegative]⟩
    exact ⟨h.positions.same hadds rfl rfl rfl, h.closed, h.named⟩

theorem Restored.nonNegative {fd pos : Int} {s s' : σ × List Syscall} (h : Restored os.traced fd pos s s')
    (hpos : 0 ≤ pos) : ∃ calls, s'.2 = s.2 ++ calls ∧ ∀ c ∈ calls, c.NonNegative := by
  unfold Restored at h
  split at h
  · exact ⟨[], by simp [h], by simp⟩
  · obtain ⟨p, hp⟩ := h
    exact ⟨_, (logged_eq_some hp).2, by simp [Syscall.NonNegative, hpos]⟩

/-- Whatever descriptor is put in its slot, the position of the file stays. -/
theorem Shelved.entered (h : Shelved st₀ file st) (hadds : Adds Syscall.NonNegative st st')
    (hname : st'.filename = st.filename) (hpos : st'.seekPos = st.seekPos)
    (hfd : ∀ i ≠ file, st'.fd i = st.fd i) : Positions st₀ st' := by
  apply h.positions.move hadds
  intro i hname' hclosed
  left
  rw [hname] at hname'
  rw [hpos]
  by_cases hi : i = file
  · exact ⟨hname', hi ▸ h.closed, rfl⟩
  · exact ⟨hname', (hfd i hi).symm.trans hclosed, rfl⟩

theorem Positions.lruInsert (h : Positions st₀ st) (hname : st.filename file ≠ none)
    (hclosed : st.fd file = VFD_CLOSED) :
    Ends (fun _ => True) (lruInsert os.traced st file) fun r =>
      Positions st₀ r.2 ∧ r.2.filename file ≠ none := by
  by_cases hfile : file = 0
  · unfold Fd.lruInsert
    rw [if_pos hfile]
    trivial
  apply (lruInsert_outcome (shelved_survives st₀ file) trivial trivial trivial hfile ⟨h, hclosed, hname⟩
    hclosed).mono (fun _ h => h)
  rintro r ⟨st₁, h₁, rfl | ⟨filename, flags, mode, n, s, hcall, hr⟩⟩
  · exact ⟨h₁.entered (Adds.of_eq rfl) rfl rfl fun i hi => Function.update_of_ne hi _ _, h₁.named⟩
  · have hopen := open_adds hcall
    rcases hr with ⟨-, rfl⟩ | ⟨-, s', hrestored, rfl⟩
    · refine ⟨h₁.entered ⟨_, hopen, ?_⟩ rfl rfl fun i hi => Function.update_of_ne hi _ _, h₁.named⟩
      simp [Syscall.NonNegative]
    · obtain ⟨calls, hcalls, hnonneg⟩ := hrestored.nonNegative (h₁.positions.placed file h₁.named h₁.closed)
      have hadds : Adds Syscall.NonNegative st₁ (st₁.entered file n s' (.reopened file)) := by
        refine ⟨.openFile filename flags mode (.ok n) :: calls, ?_, ?_⟩
        · simp [FdState.entered, hcalls, hopen]
        · simpa [Syscall.NonNegative] using hnonneg
      exact ⟨h₁.entered hadds rfl rfl fun i hi => Function.update_of_ne hi _ _, h₁.named⟩

/-- A file is in its slot as it was, or opened again. -/
theorem Positions.fileAccess (h : Positions st₀ st) (hname : st.filename file ≠ none) :
    Ends (fun _ => True) (fileAccess os.traced st file) fun r => Positions st₀ r.2 := by
  unfold Fd.fileAccess
  by_cases hclosed : st.fd file = VFD_CLOSED
  · rw [if_pos hclosed]
    apply Ends.bind (h.lruInsert hname hclosed)
    rintro ⟨code, st₁⟩ ⟨h₁, -⟩
    dsimp only
    split
    · exact h₁
    · exact h₁.same (Adds.of_eq rfl) rfl rfl rfl
  · rw [if_neg hclosed]
    by_cases hfile : file = 0
    · unfold delete
      rw [if_pos hfile]
      split
      · trivial
      · exact h.same (Adds.of_eq rfl) rfl rfl rfl
    · rw [delete_eq hfile, ok_bind, insert_eq hfile]
      split <;> exact h.same (Adds.of_eq rfl) rfl rfl rfl

theorem Seekable.initVfdCache {τ : Type} {st : FdState τ} (h : Seekable st) :
    Seekable (initVfdCache st) ∧ (initVfdCache st).os = st.os := by
  unfold Fd.initVfdCache
  split
  · refine ⟨?_, rfl⟩
    intro i hname hclosed
    have hi : i ≠ 0 := by
      rintro rfl
      exact hname (by simp)
    simp only [Function.update_of_ne hi] at hname hclosed ⊢
    exact h i hname hclosed
  · exact ⟨h, rfl⟩

/-- New slots have no names. -/
theorem Seekable.growVfdCache {τ : Type} {st : FdState τ} (h : Seekable st) (newCacheSize : Nat) :
    Seekable (growVfdCache st newCacheSize) := by
  intro i hname hclosed
  simp only [Fd.growVfdCache, fill] at hname hclosed ⊢
  split at hname
  · exact absurd rfl hname
  · rename_i hold
    rw [if_neg hold] at hclosed ⊢
    exact h i hname hclosed

theorem Seekable.allocateVfd {τ : Type} {st : FdState τ} (h : Seekable st) :
    Ends (fun _ => True) (allocateVfd st) fun r => Seekable r.2 ∧ r.2.os = st.os := by
  obtain ⟨hinit, hos⟩ := h.initVfdCache
  unfold Fd.allocateVfd
  dsimp only
  split
  · split
    · exact ⟨hinit.growVfdCache (newCacheSize (Fd.initVfdCache st)), hos⟩
    · trivial
  · exact ⟨hinit, hos⟩

theorem positions_survives (st₀ : FdState (σ × List Syscall)) :
    Survives os.traced (fun _ => True) (Positions st₀) := by
  constructor
  · apply releases_of trivial trivial trivial
    · intro st victim h
      exact h.lruDelete
    · intro st victim h
      exact h.same (Adds.of_eq rfl) rfl rfl rfl
  · intro filename flags mode st errno s h hcall
    exact h.same ⟨_, open_adds hcall, by simp [Syscall.NonNegative]⟩ rfl rfl rfl

theorem Positions.freeVfd (h : Positions st₀ st) (hadds : Adds Syscall.NonNegative st st')
    (hname : st'.filename = st.filename) (hpos : st'.seekPos = st.seekPos)
    (hfd : ∀ i ≠ file, st'.fd i = st.fd i) : Positions st₀ (freeVfd st' file) := by
  have hfreed : Adds Syscall.NonNegative st (Fd.freeVfd st' file) := hadds.trans (Adds.of_eq rfl)
  apply h.move hfreed
  intro i hname' hclosed
  have hi : i ≠ file := by
    rintro rfl
    exact hname' (Function.update_self _ _ _)
  left
  simp only [Fd.freeVfd, Function.update_of_ne hi, hname] at hname'
  exact ⟨hname', (hfd i hi).symm.trans hclosed, congrFun hpos i⟩

/-- A file that was just opened is at its start. -/
theorem Positions.fillSlot {filename : FileName} {flags : OpenFlags} {mode : Nat} (h : Positions st₀ st)
    (hadds : Adds Syscall.NonNegative st st') (hname : st'.filename = st.filename)
    (hpos : st'.seekPos = st.seekPos) (hfd : ∀ i ≠ file, st'.fd i = st.fd i) :
    Positions st₀ (st'.fillSlot file filename flags mode) := by
  have hfilled : Adds Syscall.NonNegative st (st'.fillSlot file filename flags mode) :=
    hadds.trans (Adds.of_eq rfl)
  apply h.move hfilled
  intro i hname' hclosed
  by_cases hi : i = file
  · right
    simp [FdState.fillSlot, hi]
  · left
    simp only [FdState.fillSlot, Function.update_of_ne hi, hname] at hname'
    exact ⟨hname', (hfd i hi).symm.trans hclosed, (Function.update_of_ne hi _ _).trans (congrFun hpos i)⟩

theorem Positions.fileNameOpenFileAux {filename : FileName} {flags : OpenFlags} {mode : Nat}
    (h : Positions st₀ st) :
    Ends (fun _ => True) (fileNameOpenFileAux os.traced st filename flags mode) fun r =>
      Positions st₀ r.2 := by
  have hI : Survives os.traced (fun _ => True) (Positions st₀) := positions_survives st₀
  unfold Fd.fileNameOpenFileAux
  apply Ends.bind h.placed.allocateVfd
  rintro ⟨file, st₁⟩ ⟨hplaced, hos⟩
  have h₁ : Positions st₀ st₁ := ⟨hplaced, h.asked.trans (Adds.of_eq hos)⟩
  apply Ends.bind (hI.releases.whileFull h₁ (Nat.le_refl _))
  intro st₂ h₂
  apply Ends.bind (hI.releases.open (fun _ _ _ => trivial) (hI.failure _ _ _) h₂ (Nat.le_refl _))
  rintro ⟨fd, st₄⟩ ⟨st₃, h₃, hopen⟩
  have hadds : Adds Syscall.NonNegative st₃ st₄ ∧ st₄.filename = st₃.filename ∧
      st₄.seekPos = st₃.seekPos ∧ st₄.fd = st₃.fd := by
    rcases hopen with ⟨hr, -⟩ | ⟨n, s, hcall, hr⟩
    · obtain ⟨-, rfl⟩ := Prod.mk.inj hr
      exact ⟨Adds.of_eq rfl, rfl, rfl, rfl⟩
    · obtain ⟨-, rfl⟩ := Prod.mk.inj hr
      exact ⟨⟨_, open_adds hcall, by simp [Syscall.NonNegative]⟩, rfl, rfl, rfl⟩
  obtain ⟨hadds, hname, hpos, hfd⟩ := hadds
  have hothers : ∀ i ≠ file, (st₄.setFd file fd).fd i = st₃.fd i :=
    fun i hi => (Function.update_of_ne hi _ _).trans (congrFun hfd i)
  dsimp only
  split
  · exact h₃.freeVfd (hadds.trans (Adds.of_eq rfl)) hname hpos hothers
  · by_cases hfile : file = 0
    · unfold insert
      rw [if_pos hfile]
      trivial
    · rw [insert_eq hfile]
      exact h₃.fillSlot (hadds.trans (Adds.of_eq rfl)) hname hpos hothers

theorem Positions.fileNameOpenFile {filename : FileName} {flags : OpenFlags} {mode : Nat}
    (h : Positions st₀ st) :
    Ends (fun _ => True) (fileNameOpenFile os.traced st filename flags mode) fun r => Positions st₀ r.2 := by
  unfold Fd.fileNameOpenFile
  apply Ends.bind h.fileNameOpenFileAux
  rintro ⟨file, st₁⟩ h₁
  dsimp only
  split
  · exact h₁
  · trivial

/-! ## Reading and seeking -/

/-- A file that is closed could not be opened again. -/
def StaysClosed {τ : Type} (os : Os τ) (st : FdState τ) (file : File) : Prop :=
  st.fd file = VFD_CLOSED ∧ ∃ code st', lruInsert os st file = .ok (code, st') ∧ st'.fd file = VFD_CLOSED

theorem fileAccess_opens {τ : Type} {os : Os τ} {st : FdState τ} (hopens : ¬ StaysClosed os st file) :
    Ends (fun _ => True) (fileAccess os st file) fun r => r.2.fd file ≠ VFD_CLOSED := by
  unfold fileAccess
  by_cases hclosed : st.fd file = VFD_CLOSED
  · rw [if_pos hclosed]
    apply Ends.bind (ends_ran _)
    rintro ⟨code, st₁⟩ hinsert
    have hopen : st₁.fd file ≠ VFD_CLOSED := fun hstays => hopens ⟨hclosed, code, st₁, hinsert, hstays⟩
    dsimp only
    split <;> exact hopen
  · rw [if_neg hclosed]
    by_cases hfile : file = 0
    · unfold delete
      rw [if_pos hfile]
      split
      · trivial
      · exact hclosed
    · rw [delete_eq hfile, ok_bind, insert_eq hfile]
      split <;> exact hclosed

/-- The position of an open file may be anything. -/
theorem Positions.setPos {pos : Int} (h : Positions st₀ st) (hpos : st.fd file = VFD_CLOSED → 0 ≤ pos) :
    Positions st₀ { st with seekPos := Function.update st.seekPos file pos } := by
  have hadds : Adds Syscall.NonNegative st { st with seekPos := Function.update st.seekPos file pos } :=
    Adds.of_eq rfl
  apply h.move hadds
  intro i hname hclosed
  by_cases hi : i = file
  · right
    rw [hi] at hclosed
    simpa [hi] using hpos hclosed
  · left
    exact ⟨hname, hclosed, Function.update_of_ne hi _ _⟩

/-- A file that was found, or opened again, for a transfer. -/
theorem Positions.access (h : Positions st₀ st) (hname : st.filename file ≠ none)
    (hopens : ¬ StaysClosed os.traced st file) :
    Ends (fun _ => True) (Fd.fileAccess os.traced st file) fun r =>
      Positions st₀ r.2 ∧ r.2.fd file ≠ VFD_CLOSED :=
  Ends.and (h.fileAccess hname) (fileAccess_opens hopens)

theorem Positions.fileRead {amount : Nat} (h : Positions st₀ st) (hopens : ¬ StaysClosed os.traced st file) :
    Ends (fun _ => True) (fileRead os.traced st file amount) fun r => Positions st₀ r.2 := by
  unfold Fd.fileRead
  split
  · trivial
  · rename_i hvalid
    apply Ends.bind (h.access (not_not.mp hvalid).2.2 hopens)
    rintro ⟨code, st₁⟩ ⟨h₁, hopen⟩
    have hread : ∀ bytes, Syscall.NonNegative (.read (st₁.fd file) amount bytes) := fun _ => trivial
    apply Ends.bind (h₁.sys hread)
    rintro ⟨bytes, st₂⟩ ⟨h₂, hfd, -, -⟩
    have hopen₂ : st₂.fd file ≠ VFD_CLOSED := by rwa [← hfd] at hopen
    cases bytes <;> exact h₂.setPos fun hclosed => absurd hclosed hopen₂

theorem Positions.fileWrite {buffer : List UInt8} (h : Positions st₀ st)
    (hopens : ¬ StaysClosed os.traced st file) :
    Ends (fun _ => True) (fileWrite os.traced st file buffer) fun r => Positions st₀ r.2 := by
  unfold Fd.fileWrite
  split
  · trivial
  · rename_i hvalid
    apply Ends.bind (h.access (not_not.mp hvalid).2.2 hopens)
    rintro ⟨code, st₁⟩ ⟨h₁, hopen⟩
    have hwrite : ∀ count, Syscall.NonNegative (.write (st₁.fd file) buffer count) := fun _ => trivial
    apply Ends.bind (h₁.sys hwrite)
    rintro ⟨count, st₂⟩ ⟨h₂, hfd, -, -⟩
    have hopen₂ : st₂.fd file ≠ VFD_CLOSED := by rwa [← hfd] at hopen
    cases count with
    | none => exact h₂.setPos fun hclosed => absurd hclosed hopen₂
    | some count =>
      have hadvanced : Positions st₀ (st₂.advance file count) :=
        h₂.setPos fun hclosed => absurd hclosed hopen₂
      exact hadvanced.same (Adds.of_eq rfl) rfl rfl rfl

theorem Positions.seekFile {offset : Int} {whence : Whence} (h : Positions st₀ st)
    (hopen : st.fd file ≠ VFD_CLOSED) (hoffset : whence = .SEEK_SET → 0 ≤ offset) :
    Ends (fun _ => True) (seekFile os.traced st file offset whence) (Positions st₀) := by
  unfold Fd.seekFile
  have hseek : ∀ pos, Syscall.NonNegative (.lseek (st.fd file) offset whence pos) := fun _ => hoffset
  apply Ends.bind (h.sys hseek)
  rintro ⟨pos, st₁⟩ ⟨h₁, hfd, -, -⟩
  exact h₁.setPos fun hclosed => absurd (by rwa [← hfd]) hopen

/-- What may go wrong with the position of a closed file. -/
def SeekSafe {τ : Type} (os : Os τ) (st : FdState τ) : Op → Prop
  | .seek file offset .SEEK_CUR => st.fd file = VFD_CLOSED → 0 ≤ toLong (st.seekPos file + offset)
  | .seek file _ .SEEK_END | .read file _ | .write file _ => ¬ StaysClosed os st file
  | _ => True

theorem Positions.seekClosed {offset : Int} {whence : Whence} (h : Positions st₀ st)
    (hname : st.filename file ≠ none) (hsafe : SeekSafe os.traced st (.seek file offset whence)) :
    Ends (fun _ => True) (seekClosed os.traced st file offset whence) (Positions st₀) := by
  unfold Fd.seekClosed
  cases whence with
  | SEEK_SET =>
    dsimp only
    split
    · trivial
    · rename_i hnonneg
      exact h.setPos fun _ => Int.not_lt.mp hnonneg
  | SEEK_CUR => exact h.setPos hsafe
  | SEEK_END =>
    apply Ends.bind (h.access hname hsafe)
    rintro ⟨code, st₁⟩ ⟨h₁, hopen⟩
    exact h₁.seekFile hopen nofun
  | invalid => trivial

theorem Positions.seekOpen {offset : Int} {whence : Whence} (h : Positions st₀ st)
    (hopen : st.fd file ≠ VFD_CLOSED) :
    Ends (fun _ => True) (seekOpen os.traced st file offset whence) (Positions st₀) := by
  unfold Fd.seekOpen
  cases whence with
  | SEEK_SET =>
    dsimp only
    split
    · trivial
    · rename_i hnonneg
      split
      · exact h.seekFile hopen fun _ => Int.not_lt.mp hnonneg
      · exact h
  | SEEK_CUR =>
    dsimp only
    split
    · exact h.seekFile hopen nofun
    · exact h
  | SEEK_END => exact h.seekFile hopen nofun
  | invalid => trivial

theorem Positions.fileSeek {offset : Int} {whence : Whence} (h : Positions st₀ st)
    (hsafe : SeekSafe os.traced st (.seek file offset whence)) :
    Ends (fun _ => True) (fileSeek os.traced st file offset whence) fun r => Positions st₀ r.2 := by
  unfold Fd.fileSeek
  split
  · trivial
  · rename_i hvalid
    split
    · exact Ends.bind (h.seekClosed (not_not.mp hvalid).2.2 hsafe) fun _ h₁ => h₁
    · rename_i hopen
      exact Ends.bind (h.seekOpen hopen) fun _ h₁ => h₁

/-! ## Everything else -/

theorem Positions.fileSync (h : Positions st₀ st) :
    Ends (fun _ => True) (fileSync os.traced st file) fun r =>
      Positions st₀ r.2 ∧ r.2.filename file ≠ none := by
  unfold Fd.fileSync
  split
  · trivial
  rename_i hvalid
  have hname : st.filename file ≠ none := (not_not.mp hvalid).2.2
  split
  · exact ⟨h, hname⟩
  · split
    · exact ⟨h.same (Adds.of_eq rfl) rfl rfl rfl, hname⟩
    · split
      · rename_i hclosed
        apply Ends.bind (h.lruInsert hname hclosed)
        rintro ⟨code, st₁⟩ ⟨h₁, hname₁⟩
        dsimp only
        split
        · exact ⟨h₁, hname₁⟩
        · apply Ends.bind h₁.pgFsync
          rintro ⟨done, st₂⟩ ⟨h₂, hname₂⟩
          rw [← hname₂] at hname₁
          dsimp only
          split
          · exact ⟨h₂.same (Adds.of_eq rfl) rfl rfl rfl, hname₁⟩
          · exact ⟨h₂, hname₁⟩
      · exact ⟨h, hname⟩

theorem Positions.fileTruncate {offset : Int} (h : Positions st₀ st) :
    Ends (fun _ => True) (fileTruncate os.traced st file offset) fun r => Positions st₀ r.2 := by
  unfold Fd.fileTruncate
  split
  · trivial
  · apply Ends.bind h.fileSync
    rintro ⟨code, st₁⟩ ⟨h₁, hname₁⟩
    apply Ends.bind (h₁.fileAccess hname₁)
    rintro ⟨code', st₂⟩ h₂
    have htruncate : ∀ done, Syscall.NonNegative (.ftruncate (st₂.fd file) offset done) := fun _ => trivial
    exact Ends.bind (h₂.sys htruncate) fun _ h₃ => h₃.1

theorem Positions.closeVfds {is : List File} (h : Positions st₀ st) :
    Ends (fun _ => True) (closeVfds os.traced is st) (Positions st₀) := by
  induction is generalizing st with
  | nil => exact h
  | cons i is ih =>
    unfold Fd.closeVfds
    split
    · exact Ends.bind h.lruDelete fun _ h₁ => ih h₁
    · exact ih h

theorem Positions.endVfds {is : List File} (h : Positions st₀ st) :
    Ends (fun _ => True) (endVfds os.traced is st) (Positions st₀) := by
  induction is generalizing st with
  | nil => exact h
  | cons i is ih =>
    unfold Fd.endVfds
    split
    · exact Ends.bind h.fileClose fun _ h₁ => ih h₁
    · exact ih (h.same (Adds.of_eq rfl) rfl rfl rfl)

theorem Positions.step {op : Op} (h : Positions st₀ st) (hsafe : SeekSafe os.traced st op) :
    Ends (fun _ => True) (step os.traced st op) fun r => Positions st₀ r.2 := by
  have hnone : ∀ {x : Except Fault (FdState (σ × List Syscall))}, Ends (fun _ => True) x (Positions st₀) →
      Ends (fun _ => True) (returnsNone x) fun r => Positions st₀ r.2 :=
    fun hx => Ends.bind hx fun _ h' => h'
  cases op with
  | openFile filename flags mode => exact Ends.bind h.fileNameOpenFile fun _ h' => h'
  | close file => exact hnone h.fileClose
  | unlink file => exact hnone h.fileUnlink
  | read file amount => exact Ends.bind (h.fileRead hsafe) fun _ h' => h'
  | write file buffer => exact Ends.bind (h.fileWrite hsafe) fun _ h' => h'
  | seek file offset whence => exact Ends.bind (h.fileSeek hsafe) fun _ h' => h'
  | sync file => exact Ends.bind h.fileSync fun _ h' => h'.1
  | truncate file offset => exact Ends.bind h.fileTruncate fun _ h' => h'
  | markDirty file =>
    apply hnone
    unfold fileMarkDirty
    split
    · trivial
    · exact h.same (Adds.of_eq rfl) rfl rfl rfl
  | releaseLru =>
    exact Ends.bind ((positions_survives st₀).releases st h) fun _ h' => h'.1
  | closeAll =>
    apply hnone
    unfold closeAllVfds
    split
    · split
      · trivial
      · exact h.closeVfds
    · exact h
  | endXact =>
    apply hnone
    unfold atEoXactFiles
    split
    · split
      · trivial
      · exact Ends.bind h.endVfds fun _ h' => h'.same (Adds.of_eq rfl) rfl rfl rfl
    · exact h.same (Adds.of_eq rfl) rfl rfl rfl

/-! ## Where it goes wrong -/

/-- What is no descriptor is refused. -/
structure Os.RefusesAll {τ : Type} (os : Os τ) : Prop where
  lseek : os.Refuses
  read : ∀ amount s bytes s', os.read VFD_CLOSED amount s ≠ some (some bytes, s')
  write : ∀ buffer s count s', os.write VFD_CLOSED buffer s ≠ some (some count, s')

theorem not_placed {τ : Type} {st : FdState τ} (hname : st.filename file ≠ none)
    (hclosed : st.fd file = VFD_CLOSED) (hpos : st.seekPos file < 0) : ¬ Seekable st := by
  intro h
  have hnonneg := h file hname hclosed
  omega

theorem names_survive {τ : Type} (os : Os τ) (name : File → Option FileName) :
    Survives os (fun _ => True) fun st => st.filename = name := by
  constructor
  · apply releases_of trivial trivial trivial
    · intro st victim h
      by_cases hzero : victim = 0
      · unfold lruDelete delete
        rw [if_pos hzero]
        trivial
      · apply (lruDelete_ends (tolerates_any _).deletes hzero).mono (fun _ h => h)
        rintro _ ⟨pos, os₁, os₂, os', -, -, -, rfl⟩
        exact h
    · intro st victim h
      exact h
  · intro filename flags mode st errno s h hcall
    exact h

/-- The file that could not be opened again is still named, and still closed. -/
theorem StaysClosed.access {τ : Type} {os : Os τ} {st : FdState τ} (h : StaysClosed os st file) :
    Ends (fun _ => True) (fileAccess os st file) fun r =>
      r.2.fd file = VFD_CLOSED ∧ r.2.filename = st.filename := by
  obtain ⟨hclosed, code, st', hinsert, hstays⟩ := h
  have hname : st'.filename = st.filename := by
    by_cases hfile : file = 0
    · unfold lruInsert at hinsert
      rw [if_pos hfile] at hinsert
      cases hinsert
    · obtain ⟨st₁, h₁, hr | ⟨filename, flags, mode, n, s, -, ⟨-, hr⟩ | ⟨-, s', -, hr⟩⟩⟩ :=
        (lruInsert_outcome (names_survive os st.filename) trivial trivial trivial hfile rfl hclosed).of_ok hinsert
      all_goals
        obtain ⟨-, rfl⟩ := Prod.mk.inj hr
        exact h₁
  unfold fileAccess
  rw [if_pos hclosed, hinsert, ok_bind]
  dsimp only
  split <;> exact ⟨hstays, hname⟩

/-- A seek on what is no descriptor leaves `-1`. -/
theorem seekFile_refused {τ : Type} {os : Os τ} {st : FdState τ} {offset : Int} {whence : Whence}
    (hrefuses : os.Refuses) (hclosed : st.fd file = VFD_CLOSED) (hname : st.filename file ≠ none) :
    Ends (fun _ => True) (seekFile os st file offset whence) fun st' => ¬ Seekable st' := by
  unfold seekFile
  apply Ends.bind (sys_ends fun _ => trivial)
  rintro _ ⟨pos, s, hcall, rfl⟩
  rw [hclosed] at hcall
  cases pos with
  | some pos => exact absurd hcall (hrefuses _ _ _ _ _)
  | none => exact not_placed hname hclosed (by simp)

section Spoiled

variable {τ : Type} {os : Os τ} {st : FdState τ}

theorem fileRead_spoils {amount : Nat} (hrefuses : os.RefusesAll) (hstays : StaysClosed os st file) :
    Ends (fun _ => True) (fileRead os st file amount) fun r => ¬ Seekable r.2 := by
  unfold fileRead
  split
  · trivial
  rename_i hvalid
  apply Ends.bind hstays.access
  rintro ⟨code, st₁⟩ ⟨hclosed, hname⟩
  apply Ends.bind (sys_ends fun _ => trivial)
  rintro _ ⟨bytes, s, hcall, rfl⟩
  dsimp only at hclosed hname
  rw [hclosed] at hcall
  cases bytes with
  | some bytes => exact absurd hcall (hrefuses.read _ _ _ _)
  | none =>
    have hnamed : st₁.filename file ≠ none := by
      rw [hname]
      exact (not_not.mp hvalid).2.2
    exact not_placed hnamed hclosed (by simp [FdState.advance, FILE_UNKNOWN_POS])

theorem fileWrite_spoils {buffer : List UInt8} (hrefuses : os.RefusesAll) (hstays : StaysClosed os st file) :
    Ends (fun _ => True) (fileWrite os st file buffer) fun r => ¬ Seekable r.2 := by
  unfold fileWrite
  split
  · trivial
  rename_i hvalid
  apply Ends.bind hstays.access
  rintro ⟨code, st₁⟩ ⟨hclosed, hname⟩
  apply Ends.bind (sys_ends fun _ => trivial)
  rintro _ ⟨count, s, hcall, rfl⟩
  dsimp only at hclosed hname
  rw [hclosed] at hcall
  cases count with
  | some count => exact absurd hcall (hrefuses.write _ _ _ _)
  | none =>
    have hnamed : st₁.filename file ≠ none := by
      rw [hname]
      exact (not_not.mp hvalid).2.2
    exact not_placed hnamed hclosed (by simp [FdState.advance, FILE_UNKNOWN_POS])

theorem seekClosed_spoils {offset : Int} {whence : Whence} (hrefuses : os.Refuses)
    (hname : st.filename file ≠ none) (hclosed : st.fd file = VFD_CLOSED)
    (hrisk : ¬ SeekSafe os st (.seek file offset whence)) :
    Ends (fun _ => True) (seekClosed os st file offset whence) fun st' => ¬ Seekable st' := by
  unfold seekClosed
  cases whence with
  | SEEK_CUR =>
    have hneg := Int.not_le.mp (Classical.not_imp.mp hrisk).2
    exact not_placed hname hclosed (by simpa using hneg)
  | SEEK_END =>
    have hstays : StaysClosed os st file := not_not.mp hrisk
    apply Ends.bind hstays.access
    rintro ⟨code, st₁⟩ ⟨hclosed₁, hname₁⟩
    dsimp only at hclosed₁ hname₁
    rw [← hname₁] at hname
    exact seekFile_refused hrefuses hclosed₁ hname
  | SEEK_SET => exact absurd trivial hrisk
  | invalid => exact absurd trivial hrisk

theorem fileSeek_spoils {offset : Int} {whence : Whence} (hrefuses : os.Refuses)
    (hrisk : ¬ SeekSafe os st (.seek file offset whence)) :
    Ends (fun _ => True) (fileSeek os st file offset whence) fun r => ¬ Seekable r.2 := by
  have hclosed : st.fd file = VFD_CLOSED := by
    cases whence with
    | SEEK_CUR => exact (Classical.not_imp.mp hrisk).1
    | SEEK_END => exact (not_not.mp hrisk).1
    | SEEK_SET => exact absurd trivial hrisk
    | invalid => exact absurd trivial hrisk
  unfold fileSeek
  split
  · trivial
  · rename_i hvalid
    exact Ends.bind (seekClosed_spoils hrefuses (not_not.mp hvalid).2.2 hclosed hrisk) fun _ h => h

/-- What is done with a file that could not be opened again spoils its position. -/
theorem unsafe_spoils {op : Op} (hrefuses : os.RefusesAll) (hrisk : ¬ SeekSafe os st op) :
    Ends (fun _ => True) (step os st op) fun r => ¬ Seekable r.2 := by
  cases op with
  | read file amount => exact Ends.bind (fileRead_spoils hrefuses (not_not.mp hrisk)) fun _ h => h
  | write file buffer => exact Ends.bind (fileWrite_spoils hrefuses (not_not.mp hrisk)) fun _ h => h
  | seek file offset whence => exact Ends.bind (fileSeek_spoils hrefuses.lseek hrisk) fun _ h => h
  | _ => exact absurd trivial hrisk

end Spoiled

/-! ## Any run -/

/-- An operation that returns. -/
def Returns {τ : Type} (os : Os τ) (st : FdState τ) (op : Op) (st' : FdState τ) : Prop :=
  ∃ result, step os st op = .ok (result, st')

theorem init_positions (databasePath : FileName) (enableFsync : Bool) (s : σ) :
    Positions (FdState.init databasePath enableFsync (s, []))
      (FdState.init databasePath enableFsync (s, [])) :=
  ⟨fun _ hname => absurd rfl hname, Adds.of_eq rfl⟩

/-- In a run without such operations every closed file has a position that is not negative,
and no file was set to a negative one; and exactly these operations keep it so. -/
theorem run_placed (hrefuses : os.RefusesAll) (databasePath : FileName) (enableFsync : Bool) (s : σ)
    {ops : List Op} (hrun : Run (fun st op st' => SeekSafe os.traced st op ∧ Returns os.traced st op st')
      (FdState.init databasePath enableFsync (s, [])) ops st) :
    Seekable st ∧ (∀ fd offset pos, .lseek fd offset .SEEK_SET pos ∈ st.os.2 → 0 ≤ offset) ∧
      ∀ op st', Returns os.traced st op st' → (Seekable st' ↔ SeekSafe os.traced st op) := by
  have h : Positions (FdState.init databasePath enableFsync (s, [])) st := by
    apply hrun.invariant ?_ (init_positions databasePath enableFsync s)
    intro st op st' h hs
    obtain ⟨hsafe, result, hstep⟩ := hs
    exact (h.step hsafe).of_ok hstep
  have htraced : os.traced.RefusesAll := by
    constructor
    · intro offset whence s pos s' hcall
      exact hrefuses.lseek _ _ _ _ _ (logged_eq_some hcall).1
    · intro amount s bytes s' hcall
      exact hrefuses.read _ _ _ _ (logged_eq_some hcall).1
    · intro buffer s count s' hcall
      exact hrefuses.write _ _ _ _ (logged_eq_some hcall).1
  refine ⟨h.placed, ?_, ?_⟩
  · intro fd offset pos hmem
    obtain ⟨calls, hcalls, hnonneg⟩ := h.asked
    rw [hcalls] at hmem
    have hcall : Syscall.NonNegative (.lseek fd offset .SEEK_SET pos) :=
      hnonneg _ (by simpa [FdState.init] using hmem)
    exact hcall rfl
  · intro op st' hreturns
    obtain ⟨result, hstep⟩ := hreturns
    constructor
    · intro hplaced
      by_contra hrisk
      exact (unsafe_spoils htraced hrisk).of_ok hstep hplaced
    · intro hsafe
      exact ((h.step hsafe).of_ok hstep).placed

/-! ## Two runs -/

/-- Enough for an operation to be safe: transfers are on open files. -/
def seekChecked {τ : Type} (st : FdState τ) : Op → Bool
  | .seek file offset .SEEK_CUR => st.fd file = VFD_CLOSED → 0 ≤ toLong (st.seekPos file + offset)
  | .seek file _ .SEEK_END | .read file _ | .write file _ => st.fd file ≠ VFD_CLOSED
  | _ => true

theorem seekSafe_of_checked {τ : Type} {os : Os τ} {st : FdState τ} {op : Op} (h : seekChecked st op = true) :
    SeekSafe os st op := by
  have hopen : ∀ file, decide (st.fd file ≠ VFD_CLOSED) = true → ¬ StaysClosed os st file :=
    fun file hne hstays => of_decide_eq_true hne hstays.1
  cases op with
  | read file amount => exact hopen file h
  | write file buffer => exact hopen file h
  | seek file offset whence =>
    cases whence with
    | SEEK_CUR =>
      intro hclosed
      have hpos : ¬ st.fd file = VFD_CLOSED ∨ 0 ≤ toLong (st.seekPos file + offset) := by
        simpa [seekChecked] using h
      exact hpos.resolve_left (not_not.mpr hclosed)
    | SEEK_END => exact hopen file h
    | SEEK_SET => trivial
    | invalid => trivial
  | _ => trivial

/-- Operations one after another, as long as they pass a test. -/
def runChecked {τ : Type} (os : Os τ) (check : FdState τ → Op → Bool) : List Op → FdState τ → Option (FdState τ)
  | [], st => some st
  | op :: ops, st =>
    if check st op then
      match step os st op with
      | .ok (_, st) => runChecked os check ops st
      | .error _ => none
    else none

theorem runChecked_run {τ : Type} {os : Os τ} {check : FdState τ → Op → Bool} {ops : List Op}
    {st st' : FdState τ} (h : runChecked os check ops st = some st') :
    Run (fun st op st' => check st op = true ∧ Returns os st op st') st ops st' := by
  induction ops generalizing st with
  | nil =>
    obtain rfl := Option.some.inj h
    exact .nil st
  | cons op ops ih =>
    unfold runChecked at h
    split at h
    · rename_i hcheck
      split at h
      · rename_i result st₁ hstep
        exact .cons ⟨hcheck, result, hstep⟩ (ih h)
      · cases h
    · cases h

/-- A system that reports it when it refuses a seek. -/
def reportingOs : Os Kernel :=
  { plainOs with lseek := fun fd offset whence k => some ((plainOs.lseek fd offset whence k).getD (none, k)) }

theorem reportingOs_refuses : reportingOs.RefusesAll := by
  constructor
  · intro offset whence s pos s' h
    cases h
  · intro amount s bytes s' h
    cases h
  · intro buffer s count s' h
    cases h

/-- A new file is closed behind its owner's back, and then there are seeks. -/
def shelved (seeks : List Op) : List Op :=
  [.openFile ['/', 'a'] { access := .O_RDWR, creat := true } 0, .releaseLru] ++ seeks

theorem run_placed_example : ∃ st, Run (fun st op st' => SeekSafe reportingOs.traced st op ∧
      Returns reportingOs.traced st op st') (FdState.init [] true (emptyKernel, []))
      (shelved [.seek 1 5 .SEEK_SET, .seek 1 (-2) .SEEK_CUR, .sync 1]) st ∧ Seekable st := by
  have hrun : (runChecked reportingOs.traced seekChecked
      (shelved [.seek 1 5 .SEEK_SET, .seek 1 (-2) .SEEK_CUR, .sync 1])
      (FdState.init [] true (emptyKernel, []))).isSome = true := by decide +kernel
  obtain ⟨st, hst⟩ := Option.isSome_iff_exists.mp hrun
  have hsafe : Run (fun st op st' => SeekSafe reportingOs.traced st op ∧ Returns reportingOs.traced st op st')
      (FdState.init [] true (emptyKernel, []))
      (shelved [.seek 1 5 .SEEK_SET, .seek 1 (-2) .SEEK_CUR, .sync 1]) st :=
    (runChecked_run hst).mono fun _ _ _ hs => ⟨seekSafe_of_checked hs.1, hs.2⟩
  exact ⟨st, hsafe, (run_placed reportingOs_refuses [] true emptyKernel hsafe).1⟩

/-- A closed file is moved before its start, and cannot be opened again there. -/
theorem run_misplaced : ∃ st, Run (Returns reportingOs.traced) (FdState.init [] true (emptyKernel, []))
      (shelved [.seek 1 (-1) .SEEK_CUR]) st ∧ ¬ Seekable st ∧
    ∃ file, step reportingOs.traced st (.read file 1) = .error .assertion := by
  have hrun : ∃ file, (match runChecked reportingOs.traced (fun _ _ => true)
      (shelved [.seek 1 (-1) .SEEK_CUR]) (FdState.init [] true (emptyKernel, [])) with
    | some st => decide (st.filename file ≠ none ∧ st.fd file = VFD_CLOSED ∧ st.seekPos file < 0) &&
        (match step reportingOs.traced st (.read file 1) with
        | .error .assertion => true
        | _ => false)
    | none => false) = true := ⟨1, by decide +kernel⟩
  obtain ⟨file, hrun⟩ := hrun
  split at hrun
  · rename_i st hst
    obtain ⟨hplaced, hread⟩ := Bool.and_eq_true_iff.mp hrun
    obtain ⟨hname, hclosed, hneg⟩ := of_decide_eq_true hplaced
    refine ⟨st, (runChecked_run hst).mono fun _ _ _ hs => hs.2, not_placed hname hclosed hneg, file, ?_⟩
    split at hread
    · rename_i herror
      exact herror
    · cases hread
  · cases hrun

end PostgresV7.Fd
