import PostgresV7.Fd.Durable
import PostgresV7.Smgr.Keeps

/-!
# Flushing and committing (`md.c`)

No code marks a file that is closed, so whatever `file_sync` is asked to sync is either
not marked or open, and `file_sync` does nothing about it.
-/

namespace PostgresV7.Md

open Fd Smgr Outcomes

variable {σ : Type} {os : Os σ} {st st' : FdState σ} {md : MdState σ} {file : File}
  {limbo : Option File} {rnode : RelFileNode} {I : Option File → FdState σ → Prop}

/-! ## Marked files are open -/

structure MarkedOpen (st : FdState σ) (limbo : Option File) : Prop where
  linked : Linked st limbo
  marked : ∀ i, st.filename i ≠ none → st.dirty i = true → st.fd i ≠ VFD_CLOSED

theorem MarkedOpen.enter {fd : Nat} {s : σ} {ev : Event} (h : MarkedOpen st limbo)
    (hclosed : st.fd file = VFD_CLOSED) (hfd : fd ≤ 32767)
    (huse : st.filename file ≠ none ∨ some file = limbo) (hev : ev.use = some (.touch file)) :
    MarkedOpen (st.entered file fd s ev) limbo ∧ (st.entered file fd s ev).fd file ≠ VFD_CLOSED := by
  have hne : toShort fd ≠ VFD_CLOSED := by
    rw [toShort_of_le hfd]
    unfold VFD_CLOSED
    omega
  have hopen : Function.update st.fd file (toShort fd) file ≠ VFD_CLOSED := by
    rw [Function.update_self]
    exact hne
  refine ⟨⟨h.linked.enter hclosed hne huse hev, fun i hname hdirty => ?_⟩, hopen⟩
  show Function.update st.fd file (toShort fd) i ≠ VFD_CLOSED
  by_cases hif : i = file
  · rw [hif]
    exact hopen
  · rw [Function.update_of_ne hif]
    exact h.marked i hname hdirty

theorem markedOpen_invariant : WriteInvariant fun limbo (st : FdState σ) => MarkedOpen st limbo where
  linked h := h.linked
  quiet _ _ _ _ h := ⟨h.linked.of_eq rfl rfl rfl rfl rfl rfl rfl rfl, h.marked⟩
  victim _ _ h _ := ⟨h.linked.of_eq rfl rfl rfl rfl rfl rfl rfl rfl, h.marked⟩
  shut {limbo st file} seekPos s h hfile := by
    refine ⟨h.linked.shut hfile (syncEvents_use st file), fun i hname hdirty => ?_⟩
    have hdirty' : Function.update st.dirty file false i = true := hdirty
    have hif : i ≠ file := by
      rintro rfl
      rw [Function.update_self] at hdirty'
      cases hdirty'
    rw [Function.update_of_ne hif] at hdirty'
    show Function.update st.fd file VFD_CLOSED i ≠ VFD_CLOSED
    rw [Function.update_of_ne hif]
    exact h.marked i hname hdirty'
  failed {limbo st file} h hclosed := by
    have hfd : (st.setFd file (-1)).fd = st.fd := update_same hclosed
    refine ⟨h.linked.of_eq rfl hfd rfl rfl rfl rfl rfl rfl, ?_⟩
    rw [hfd]
    exact h.marked
  reopened _ h hclosed hname hfd := (h.enter hclosed hfd (.inl hname) rfl).1
  touched {limbo st file} h hfile := by
    refine ⟨h.linked.touch hfile, ?_⟩
    unfold FdState.touched
    split <;> exact h.marked
  accessed h hlru := ⟨h.linked.note_accessed hlru, h.marked⟩
  allocated {st st' file} h hlinked hkept := by
    refine ⟨hlinked, fun i hname hdirty => ?_⟩
    rw [hkept.filename] at hname
    rw [(hkept.slot i hname).1] at hdirty
    rw [hkept.fd]
    exact h.marked i hname hdirty
  opened {st file fd} s filename flags mode h hclosed hfd := by
    obtain ⟨hentered, hopen⟩ : MarkedOpen (st.entered file fd s (.opened file)) (some file) ∧ _ :=
      h.enter hclosed hfd (.inr rfl) rfl
    refine ⟨hentered.linked.fill_slot, fun i hname hdirty => ?_⟩
    by_cases hif : i = file
    · rw [hif]
      exact hopen
    · have hname' : Function.update st.filename file (some filename) i ≠ none := hname
      have hdirty' : Function.update st.dirty file flags.creat i = true := hdirty
      rw [Function.update_of_ne hif] at hname' hdirty'
      exact hentered.marked i hname' hdirty'
  freed {limbo st file} h hclosed huse hlimbo := by
    refine ⟨h.linked.free_vfd hclosed huse hlimbo, fun i hname hdirty => ?_⟩
    have hname' : Function.update st.filename file none i ≠ none := hname
    have hdirty' : Function.update st.dirty file false i = true := hdirty
    have hif : i ≠ file := by
      rintro rfl
      rw [Function.update_self] at hdirty'
      cases hdirty'
    rw [Function.update_of_ne hif] at hname' hdirty'
    exact h.marked i hname' hdirty'
  written h := ⟨h.linked.of_eq rfl rfl rfl rfl rfl rfl rfl rfl, h.marked⟩
  synced h := ⟨h.linked.of_eq rfl rfl rfl rfl rfl rfl rfl rfl, h.marked⟩
  cleaned {st file} h := by
    refine ⟨h.linked.of_eq rfl rfl rfl rfl rfl rfl rfl rfl, fun i hname hdirty => ?_⟩
    have hdirty' : Function.update st.dirty file false i = true := hdirty
    have hif : i ≠ file := by
      rintro rfl
      rw [Function.update_self] at hdirty'
      cases hdirty'
    rw [Function.update_of_ne hif] at hdirty'
    exact h.marked i hname hdirty'

/-- `file_sync` syncs nothing. -/
theorem fileSync_idle (h : MarkedOpen st none) :
    Ends Unbroken (fileSync os st file) fun r => MarkedOpen r.2 none ∧ r.2.log = st.log := by
  unfold fileSync
  by_cases hvalid : FileIsValid st file
  · rw [if_neg (not_not.mpr hvalid)]
    split
    · exact ⟨h, rfl⟩
    · rename_i hdirty
      split
      · exact ⟨markedOpen_invariant.cleaned h, rfl⟩
      · rw [if_neg (h.marked file hvalid.2.2 (not_not.mp hdirty))]
        exact ⟨h, rfl⟩
  · rw [if_pos hvalid]
    exact ⟨nofun, nofun⟩

/-- What was written is the last thing in the log. -/
theorem fileWrite_logged {buffer : List UInt8} (hshort : os.Short) (h : MarkedOpen st none) :
    Ends Unbroken (fileWrite os st file buffer) fun r => MarkedOpen r.2 none ∧
      ∀ n : Nat, 0 < n → r.1 = n → r.2.log.head? = some (.written file n) := by
  unfold fileWrite
  by_cases hvalid : FileIsValid st file
  · rw [if_neg (not_not.mpr hvalid)]
    refine Ends.bind (markedOpen_invariant.fileAccess hshort h hvalid.ne_zero hvalid.2.2) ?_
    rintro ⟨code, st₁⟩ h₁
    refine Ends.bind (markedOpen_invariant.sys h₁) ?_
    rintro ⟨count, st₂⟩ ⟨h₂, -⟩
    cases count with
    | none => exact ⟨markedOpen_invariant.advance h₂, fun n _ hn => by simp only at hn; omega⟩
    | some count =>
      refine ⟨markedOpen_invariant.written (markedOpen_invariant.advance h₂), fun n _ hn => ?_⟩
      rw [Int.ofNat.inj hn]
      rfl
  · rw [if_pos hvalid]
    exact ⟨nofun, nofun⟩

/-! ## Writing and flushing -/

/-- The block's segment is where the last write went, if all of the block was written. -/
def WroteBlock (os : Os σ) (md : MdState σ) (rnode : RelFileNode) (blockNum : BlockNumber) (vfd : File)
    (log : List Event) : Prop :=
  ∃ vec v md', mdFdGetSeg os md rnode (toInt blockNum.toNat) = .ok (vec, v, md') ∧ vfd = vec.vfd ∧
    log.head? = some (.written vfd BLCKSZ)

theorem writeBlock_logged {blockNum : BlockNumber} {buffer : Block} (hshort : os.Short)
    (h : MarkedOpen md.st none) :
    Ends Any (writeBlock os md rnode blockNum buffer) fun r => MarkedOpen r.2.st none ∧
      (r.1.1 = true → WroteBlock os md rnode blockNum r.1.2 r.2.st.log) := by
  unfold writeBlock
  refine Ends.bind (mdFdGetSeg_keeps markedOpen_invariant hshort h).ran ?_
  rintro ⟨vec, v, md₁⟩ ⟨hseg, h₁⟩
  refine Ends.bind (call_keeps (I := fun limbo st => MarkedOpen st limbo)
    (markedOpen_invariant.fileSeek hshort h₁)) ?_
  rintro ⟨pos, md₂⟩ h₂
  dsimp only
  split
  · exact ⟨h₂, nofun⟩
  · refine Ends.bind (call_ends (fileWrite_logged hshort h₂)) ?_
    rintro ⟨nbytes, _⟩ ⟨st, ⟨h₃, hlog⟩, rfl⟩
    refine ⟨h₃, fun hwritten => ⟨vec, v, md₁, hseg, rfl, ?_⟩⟩
    exact hlog BLCKSZ (by decide) (of_decide_eq_true hwritten)

theorem sync_idle {vfd : File} (h : MarkedOpen md.st none) :
    Ends Any (md.call fun st => fileSync os st vfd) fun r =>
      MarkedOpen r.2.st none ∧ r.2.st.log = md.st.log := by
  refine (call_ends (fileSync_idle h)).mono (fun _ h => h) ?_
  rintro ⟨code, _⟩ ⟨st, hst, rfl⟩
  exact hst

/-- When `md_flush` returns, nothing happened after the write. -/
theorem mdFlush_idle {blockNum : BlockNumber} {buffer : Block} (hshort : os.Short)
    (h : MarkedOpen md.st none) :
    Ends Any (mdFlush os md rnode blockNum buffer) fun r => MarkedOpen r.2.st none ∧
      (r.1 = .SM_SUCCESS → ∃ vfd, WroteBlock os md rnode blockNum vfd r.2.st.log) := by
  unfold mdFlush
  refine Ends.bind (writeBlock_logged hshort h) ?_
  rintro ⟨⟨written, vfd⟩, md₁⟩ ⟨h₁, hwrote⟩
  cases written with
  | false => exact ⟨h₁, nofun⟩
  | true =>
    refine Ends.bind (sync_idle h₁) ?_
    rintro ⟨code, md₂⟩ ⟨h₂, hlog⟩
    refine ⟨h₂, fun _ => ⟨vfd, ?_⟩⟩
    rw [hlog]
    exact hwrote rfl

/-! ## Committing -/

theorem syncChain_idle {k : Nat} {v : Option Ref} (h : MarkedOpen md.st none) :
    Ends Any (syncChain os k md v) fun r => MarkedOpen r.2.st none ∧ r.2.st.log = md.st.log := by
  induction k generalizing md v with
  | zero =>
    cases v with
    | none => exact ⟨h, rfl⟩
    | some v => trivial
  | succ k ih =>
    cases v with
    | none => exact ⟨h, rfl⟩
    | some v =>
      unfold syncChain
      refine Ends.bind (get_ends fun _ => trivial) ?_
      intro vec _
      refine Ends.bind (sync_idle h) ?_
      rintro ⟨code, md₁⟩ ⟨h₁, hlog⟩
      dsimp only
      split
      · exact ⟨h₁, hlog⟩
      · exact (ih h₁).mono (fun _ h => h) fun r h' => ⟨h'.1, h'.2.trans hlog⟩

theorem commitLoop_idle {is : List Nat} (h : MarkedOpen md.st none) :
    Ends Any (commitLoop os is md) fun r => MarkedOpen r.2.st none ∧ r.2.st.log = md.st.log := by
  induction is generalizing md with
  | nil => exact ⟨h, rfl⟩
  | cons i is ih =>
    unfold commitLoop
    split
    · exact ih h
    · refine Ends.bind (syncChain_idle h) ?_
      rintro ⟨done, md₁⟩ ⟨h₁, hlog⟩
      cases done with
      | false => exact ⟨h₁, hlog⟩
      | true => exact (ih h₁).mono (fun _ h => h) fun r h' => ⟨h'.1, h'.2.trans hlog⟩

/-! ## Runs -/

/-- Every operation of the storage manager leaves marked files open. -/
theorem step_markedOpen {op : Op} (hshort : os.Short) (h : MarkedOpen md.st none) :
    Ends Any (step os md op) fun r => MarkedOpen r.2.st none := by
  have hI : WriteInvariant fun limbo (st : FdState σ) => MarkedOpen st limbo := markedOpen_invariant
  have hstatus : ∀ {x : Except Fault (Status × MdState σ)}, Ends Any x (fun r => MarkedOpen r.2.st none) →
      Ends Any (returnsStatus x) fun r => MarkedOpen r.2.st none :=
    fun hx => Ends.bind hx fun r h' => h'
  cases op with
  | create rnode => exact Ends.bind (mdCreate_keeps hI hshort h) fun r h' => h'
  | «open» rnode => exact Ends.bind (mdOpen_keeps hI hshort h) fun r h' => h'
  | close rnode => exact hstatus (mdClose_keeps hI hshort h)
  | extend rnode buffer => exact hstatus (mdExtend_keeps hI hshort h)
  | read rnode blockNum => exact Ends.bind (mdRead_keeps hI hshort h) fun r h' => h'
  | write rnode blockNum buffer =>
    exact hstatus (Ends.bind (writeBlock_logged hshort h) fun r h' => h'.1)
  | flush rnode blockNum buffer =>
    exact hstatus ((mdFlush_idle hshort h).mono (fun _ h => h) fun r h' => h'.1)
  | nblocks rnode => exact Ends.bind (mdNblocks_keeps hI hshort h) fun r h' => h'
  | truncate rnode n => exact Ends.bind (mdTruncate_keeps hI hshort h) fun r h' => h'
  | commit => exact hstatus ((commitLoop_idle h).mono (fun _ h => h) fun r h' => h'.1)
  | releaseLru =>
    exact Ends.bind (call_keeps (I := fun limbo st => MarkedOpen st limbo) (hI.releaseLruFile h))
      fun r h' => h'
  | closeAll =>
    exact Ends.bind (callUnit_keeps (I := fun limbo st => MarkedOpen st limbo) (hI.closeAllVfds h))
      fun md' h' => h'

theorem run_markedOpen {ops : List Op} (hshort : os.Short) (h : MarkedOpen md.st none) :
    Ends Any (run os ops md) fun r => MarkedOpen r.2.st none := by
  induction ops generalizing md with
  | nil => exact h
  | cons op ops ih =>
    refine Ends.bind (step_markedOpen hshort h) ?_
    rintro ⟨result, md₁⟩ h₁
    exact Ends.bind (ih h₁) fun r h' => h'

theorem init_markedOpen (databasePath : FileName) (enableFsync : Bool) (s : σ) :
    MarkedOpen (FdState.init databasePath enableFsync s) none :=
  ⟨(init_steady databasePath enableFsync s).linked, fun _ hi => absurd rfl hi⟩

/-- After any history, with any evictions: when `md_flush` returns `SM_SUCCESS` the write
of the block is the last that happened to any file, and it is not synced; `md_commit`
syncs nothing, so what is not synced after it is what was not synced before. -/
theorem md_run_unsynced (hshort : os.Short) (ops : List Op) (dataDir databasePath : FileName)
    (bootstrap : Bool) (s : σ) :
    Ends Any (run os ops (mdInit dataDir bootstrap (FdState.init databasePath true s))) fun r =>
      (∀ rnode blockNum buffer, Ends Any (mdFlush os r.2 rnode blockNum buffer) fun r' =>
        r'.1 = .SM_SUCCESS → ∃ vfd, WroteBlock os r.2 rnode blockNum vfd r'.2.st.log ∧
          unsynced vfd r'.2.st.log = true) ∧
      Ends Any (mdCommit os r.2) fun r' =>
        ∀ vfd, unsynced vfd r'.2.st.log = unsynced vfd r.2.st.log := by
  refine (run_markedOpen hshort (init_markedOpen databasePath true s)).mono (fun _ h => h) ?_
  rintro ⟨results, md⟩ h
  refine ⟨fun rnode blockNum buffer => ?_, ?_⟩
  · refine (mdFlush_idle hshort h).mono (fun _ h => h) ?_
    rintro ⟨status, md'⟩ ⟨-, hwrote⟩ hstatus
    obtain ⟨vfd, hblock⟩ := hwrote hstatus
    refine ⟨vfd, hblock, ?_⟩
    obtain ⟨-, -, -, -, -, hlast⟩ := hblock
    obtain ⟨log, hlog⟩ := List.head?_eq_some_iff.mp hlast
    rw [hlog]
    exact Bool.or_eq_true_iff.mpr (.inl (decide_eq_true ⟨rfl, by decide⟩))
  · refine (commitLoop_idle h).mono (fun _ h => h) ?_
    rintro ⟨status, md'⟩ ⟨-, hlog⟩ vfd
    rw [hlog]

/-- An operating system with one file, which is empty, and where every call succeeds. -/
def oneEmptyFile : Os Unit where
  openFile _ _ _ s := some (.ok 3, s)
  close _ s := some (true, s)
  read _ _ s := some (some [], s)
  write _ _ s := some (some BLCKSZ, s)
  lseek _ _ _ s := some (some 0, s)
  fsync _ s := some (true, s)
  ftruncate _ _ s := some (true, s)
  unlink _ s := some (none, s)
  indeterminate _ := 0

theorem oneEmptyFile_short : oneEmptyFile.Short := by
  intro filename flags mode s fd s' h
  obtain ⟨hfd, -⟩ := Prod.mk.inj (Option.some.inj h)
  obtain rfl := Except.ok.inj hfd
  decide

theorem length_zeros : (List.replicate BLCKSZ (0 : UInt8)).length = BLCKSZ := List.length_replicate

def zeroBlock : Block := ⟨List.replicate BLCKSZ 0, length_zeros⟩

/-- The storage manager when a process starts. -/
def started : MdState Unit := mdInit "/data".toList false (FdState.init "/data".toList true ())

/-- The block of a new relation is synced when its file is evicted. -/
theorem md_run_unsynced_example :
    (run oneEmptyFile [.create ⟨1, 7⟩, .extend ⟨1, 7⟩ zeroBlock, .releaseLru, .commit] started).map
      (fun r => (r.1, unsynced 1 r.2.st.log)) = .ok ([.fd (some 0), .status .SM_SUCCESS, .released true,
        .status .SM_SUCCESS], false) ∧
    Ends Any (run oneEmptyFile [.create ⟨1, 7⟩, .extend ⟨1, 7⟩ zeroBlock, .releaseLru, .commit] started)
      fun r => Ends Any (mdCommit oneEmptyFile r.2) fun r' =>
        ∀ vfd, unsynced vfd r'.2.st.log = unsynced vfd r.2.st.log := by
  refine ⟨by decide +kernel, ?_⟩
  exact (md_run_unsynced oneEmptyFile_short _ "/data".toList "/data".toList false ()).mono
    (fun _ h => h) fun _ h => h.2

/-- A block of a new relation is not synced when `md_commit` returns, and one of a relation
that was there before is not when `md_flush` returns. -/
theorem md_run_loses_block :
    (run oneEmptyFile [.create ⟨1, 7⟩, .extend ⟨1, 7⟩ zeroBlock, .commit] started).map
      (fun r => (r.1, unsynced 1 r.2.st.log)) =
        .ok ([.fd (some 0), .status .SM_SUCCESS, .status .SM_SUCCESS], true) ∧
    (run oneEmptyFile [.open ⟨1, 7⟩, .flush ⟨1, 7⟩ 0 zeroBlock] started).map
      (fun r => (r.1, unsynced 1 r.2.st.log)) = .ok ([.fd (some 0), .status .SM_SUCCESS], true) := by
  exact ⟨by decide +kernel, by decide +kernel⟩

end PostgresV7.Md
