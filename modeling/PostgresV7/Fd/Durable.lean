import PostgresV7.Fd.FdRun

/-!
# Written and not synced (`fd.c`)

`FD_DIRTY` is what makes `file_close` and `lru_delete` sync a file. `file_write` does not
set it, and `file_sync` of an open dirty file does nothing. As long as no bytes are
written to a file that is not marked, whatever is not synced is marked.
-/

namespace PostgresV7.Fd

open Recency Outcomes

variable {σ : Type} {os : Os σ} {st st' : FdState σ} {file i : File} {limbo : Option File}
  {allowed : Fault → Prop} {log : List Event}

/-- Bytes were written to the file of the slot in this transaction, and not synced since. -/
def unsynced (file : File) : List Event → Bool
  | [] => false
  | .written other count :: log => decide (other = file ∧ 0 < count) || unsynced file log
  | .synced other :: log => decide (other ≠ file) && unsynced file log
  | .opened other :: log => decide (other ≠ file) && unsynced file log
  | .endOfXact :: _ => false
  | .reopened _ :: log => unsynced file log
  | .accessed _ :: log => unsynced file log
  | .closed _ :: log => unsynced file log
  | .victim _ :: log => unsynced file log

/-- No call comes back with an error, and what is written is some of what there is to write. -/
structure Os.Succeeds (os : Os σ) : Prop where
  openFile : ∀ {filename flags mode s errno s'}, os.openFile filename flags mode s ≠ some (.error errno, s')
  write : ∀ {fd buffer s r s'}, os.write fd buffer s = some (r, s') →
    ∃ count, r = some count ∧ (0 < count ↔ buffer ≠ [])
  fsync : ∀ {fd s done s'}, os.fsync fd s = some (done, s') → done = true

/-- Bytes go to marked files only. -/
def Heeds (st : FdState σ) : Op → Prop
  | .write file buffer => buffer ≠ [] → st.dirty file = true
  | _ => True

instance (st : FdState σ) (op : Op) : Decidable (Heeds st op) := by
  cases op <;> unfold Heeds <;> infer_instance

/-- Every operation of a run heeds the marks there are before it. -/
def Heeded (os : Os σ) : List Op → FdState σ → Prop
  | [], _ => True
  | op :: ops, st => Heeds st op ∧ ∀ r ∈ (step os st op).toOption, Heeded os ops r.2

instance Heeded.decide (os : Os σ) : (ops : List Op) → (st : FdState σ) → Decidable (Heeded os ops st)
  | [], _ => isTrue trivial
  | op :: ops, st =>
    have : ∀ r, Decidable (Heeded os ops r) := Heeded.decide os ops
    inferInstanceAs (Decidable (_ ∧ ∀ r ∈ (step os st op).toOption, Heeded os ops r.2))

/-! ## The invariant -/

/-- An open slot has the descriptor its file was opened with. -/
structure Stored (st : FdState σ) (limbo : Option File) : Prop where
  linked : Linked st limbo
  enabled : st.enableFsync = true
  stored : ∀ i, st.fd i ≠ VFD_CLOSED → st.fd i = st.descriptor i

/-- What is not synced is marked and open. -/
structure Durable (st : FdState σ) (limbo : Option File) : Prop extends Stored st limbo where
  marked : ∀ i, unsynced i st.log = true → st.dirty i = true ∧ st.fd i ≠ VFD_CLOSED

theorem Durable.synced_of_closed (h : Durable st limbo) (hclosed : st.fd i = VFD_CLOSED) :
    unsynced i st.log = false := by
  by_contra hne
  exact (h.marked i (Bool.eq_true_of_not_eq_false hne)).2 hclosed

/-- An event that neither writes nor syncs. -/
theorem Durable.of_log (h : Durable st limbo) (hlinked : Linked st' limbo)
    (henabled : st'.enableFsync = st.enableFsync) (hfd : st'.fd = st.fd)
    (hdesc : st'.descriptor = st.descriptor) (hdirty : ∀ i, st.dirty i = true → st'.dirty i = true)
    (hlog : ∀ i, unsynced i st'.log = true → unsynced i st.log = true) : Durable st' limbo := by
  refine ⟨⟨hlinked, henabled.trans h.enabled, fun i hi => ?_⟩, fun i hi => ?_⟩
  · rw [hfd] at hi ⊢
    rw [hdesc]
    exact h.stored i hi
  · obtain ⟨hmark, hopen⟩ := h.marked i (hlog i hi)
    rw [hfd]
    exact ⟨hdirty i hmark, hopen⟩

/-! ## Closing a descriptor -/

/-- On its way to being closed a file is synced. -/
theorem Durable.synced_shut (h : Durable st limbo) (hopen : st.fd file ≠ VFD_CLOSED) :
    unsynced file (syncEvents st file ++ st.log) = false := by
  unfold syncEvents
  by_cases hdirty : st.dirty file = true
  · rw [if_pos ⟨hdirty, h.enabled, h.stored file hopen⟩]
    show (decide (file ≠ file) && _) = false
    rw [decide_eq_false (not_not.mpr rfl), Bool.false_and]
  · rw [if_neg fun hand => hdirty hand.1]
    by_contra hne
    exact hdirty (h.marked file (Bool.eq_true_of_not_eq_false hne)).1

theorem unsynced_shut_of_ne (hne : i ≠ file) :
    unsynced i (syncEvents st file ++ st.log) = unsynced i st.log := by
  unfold syncEvents
  split
  · show (decide (file ≠ i) && _) = _
    rw [decide_eq_true hne.symm, Bool.true_and]
    rfl
  · rfl

theorem Stored.shut {seekPos : File → Int} {dirty : File → Bool} {os' : σ} (h : Stored st limbo)
    (hfile : file ∈ st.lru) :
    Stored (st.shut file seekPos dirty os' (syncEvents st file)) limbo := by
  refine ⟨h.linked.shut hfile (syncEvents_use st file), h.enabled, fun i hi => ?_⟩
  by_cases hif : i = file
  · subst hif
    exact absurd (Function.update_self _ _ _) hi
  · have hold : Function.update st.fd file VFD_CLOSED i = st.fd i := Function.update_of_ne hif _ _
    exact hold.trans (h.stored i fun hc => hi (hold.trans hc))

theorem Durable.shut {seekPos : File → Int} {os' : σ} (h : Durable st limbo) (hfile : file ∈ st.lru) :
    Durable (st.shut file seekPos (Function.update st.dirty file false) os' (syncEvents st file))
      limbo := by
  have hopen := (h.linked.open_iff file).mp hfile
  refine ⟨h.toStored.shut hfile, fun i hi => ?_⟩
  · have hlog : unsynced i (syncEvents st file ++ st.log) = true := hi
    by_cases hif : i = file
    · subst hif
      rw [h.synced_shut hopen] at hlog
      cases hlog
    · rw [unsynced_shut_of_ne hif] at hlog
      obtain ⟨hmark, hio⟩ := h.marked i hlog
      exact ⟨(Function.update_of_ne hif _ _).trans hmark, fun hc => hio
        ((Function.update_of_ne hif _ _).symm.trans hc)⟩

theorem Durable.victim (h : Durable st limbo) : Durable (st.note (.victim file)) limbo :=
  h.of_log (h.linked.of_eq rfl rfl rfl rfl rfl rfl rfl rfl) rfl rfl rfl (fun _ hi => hi) fun _ hi => hi

/-! ## Opening -/

theorem Stored.enter {fd : Nat} {os' : σ} {ev : Event} (h : Stored st limbo)
    (hclosed : st.fd file = VFD_CLOSED) (hfd : fd ≤ 32767)
    (huse : st.filename file ≠ none ∨ some file = limbo) (hev : ev.use = some (.touch file)) :
    Stored (st.entered file fd os' ev) limbo := by
  have hshort := toShort_of_le hfd
  have hne : toShort fd ≠ VFD_CLOSED := by
    rw [hshort]
    unfold VFD_CLOSED
    omega
  refine ⟨h.linked.enter hclosed hne huse hev, h.enabled, fun i hi => ?_⟩
  show Function.update st.fd file (toShort fd) i = Function.update st.descriptor file fd i
  by_cases hif : i = file
  · rw [hif, Function.update_self, Function.update_self]
    exact hshort
  · have hold : Function.update st.fd file (toShort fd) i = st.fd i := Function.update_of_ne hif _ _
    rw [hold, Function.update_of_ne hif]
    exact h.stored i fun hc => hi (hold.trans hc)

theorem Durable.enter {fd : Nat} {os' : σ} {ev : Event} (h : Durable st limbo)
    (hclosed : st.fd file = VFD_CLOSED) (hfd : fd ≤ 32767)
    (huse : st.filename file ≠ none ∨ some file = limbo) (hev : ev.use = some (.touch file))
    (hlog : ∀ i, unsynced i (ev :: st.log) = true → unsynced i st.log = true) :
    Durable (st.entered file fd os' ev) limbo := by
  refine ⟨h.toStored.enter hclosed hfd huse hev, fun i hi => ?_⟩
  obtain ⟨hmark, hopen⟩ := h.marked i (hlog i hi)
  refine ⟨hmark, fun hc => hopen ?_⟩
  have hif : i ≠ file := by
    rintro rfl
    exact hopen hclosed
  exact (Function.update_of_ne hif _ _).symm.trans hc

theorem touched_dirty (st : FdState σ) (file : File) : (st.touched file).fd = st.fd ∧
    (st.touched file).descriptor = st.descriptor ∧ (st.touched file).dirty = st.dirty ∧
    (st.touched file).enableFsync = st.enableFsync ∧ (st.touched file).log = .accessed file :: st.log := by
  unfold FdState.touched
  split <;> exact ⟨rfl, rfl, rfl, rfl, rfl⟩

theorem Stored.touch (h : Stored st limbo) (hfile : file ∈ st.lru) : Stored (st.touched file) limbo := by
  obtain ⟨hfd, hdesc, -, henabled, -⟩ := touched_dirty st file
  refine ⟨h.linked.touch hfile, henabled.trans h.enabled, fun i hi => ?_⟩
  rw [hfd] at hi ⊢
  rw [hdesc]
  exact h.stored i hi

theorem Durable.touch (h : Durable st limbo) (hfile : file ∈ st.lru) :
    Durable (st.touched file) limbo := by
  obtain ⟨hfd, hdesc, hdirty, henabled, hlog⟩ := touched_dirty st file
  exact h.of_log (h.linked.touch hfile) henabled hfd hdesc (fun i hi => by rwa [hdirty]) fun i hi => by
    rwa [hlog] at hi

theorem Stored.failed (h : Stored st limbo) (hclosed : st.fd file = VFD_CLOSED) :
    Stored (st.setFd file (-1)) limbo := by
  have hfd : (st.setFd file (-1)).fd = st.fd := update_same hclosed
  refine ⟨h.linked.of_eq rfl hfd rfl rfl rfl rfl rfl rfl, h.enabled, fun i hi => ?_⟩
  rw [hfd] at hi ⊢
  have hif : i ≠ file := by
    rintro rfl
    exact hi hclosed
  exact (h.stored i hi).trans (Function.update_of_ne hif _ _).symm

theorem Durable.failed (h : Durable st limbo) (hclosed : st.fd file = VFD_CLOSED) :
    Durable (st.setFd file (-1)) limbo := by
  have hfd : (st.setFd file (-1)).fd = st.fd := update_same hclosed
  refine ⟨h.toStored.failed hclosed, fun i hi => ?_⟩
  rw [hfd]
  exact h.marked i hi

/-! ## Slots -/

theorem Stored.allocate (h : Stored st none) (hlinked : Linked st' (some file)) (hkept : Kept st st') :
    Stored st' (some file) := by
  refine ⟨hlinked, hkept.enableFsync.trans h.enabled, ?_⟩
  rw [hkept.fd, hkept.descriptor]
  exact h.stored

theorem Durable.allocate (h : Durable st none) (hlinked : Linked st' (some file)) (hkept : Kept st st') :
    Durable st' (some file) := by
  refine ⟨h.toStored.allocate hlinked hkept, ?_⟩
  rw [hkept.log, hkept.fd]
  intro i hi
  obtain ⟨hmark, hopen⟩ := h.marked i hi
  have hname := (h.linked.named i ((h.linked.open_iff i).mpr hopen)).resolve_right nofun
  exact ⟨(hkept.slot i hname).1.trans hmark, hopen⟩

theorem Stored.fill {filename : FileName} {flags : OpenFlags} {mode : Nat} (h : Stored st (some file)) :
    Stored (st.fillSlot file filename flags mode) none :=
  ⟨h.linked.fill_slot, h.enabled, h.stored⟩

theorem Durable.openNew {fd : Nat} (os' : σ) (filename : FileName) (flags : OpenFlags) (mode : Nat)
    (h : Durable st (some file)) (hclosed : st.fd file = VFD_CLOSED) (hfd : fd ≤ 32767) :
    Durable ((st.entered file fd os' (.opened file)).fillSlot file filename flags mode) none := by
  have hentered : Durable (st.entered file fd os' (.opened file)) (some file) :=
    h.enter hclosed hfd (.inr rfl) rfl fun i hi => (Bool.and_eq_true_iff.mp hi).2
  refine ⟨hentered.toStored.fill, fun i hi => ?_⟩
  obtain ⟨hmark, hopen⟩ := hentered.marked i hi
  have hif : i ≠ file := fun heq => of_decide_eq_true (Bool.and_eq_true_iff.mp hi).1 heq.symm
  exact ⟨(Function.update_of_ne hif _ _).trans hmark, hopen⟩

theorem Durable.free (h : Durable st limbo) (hclosed : st.fd file = VFD_CLOSED)
    (huse : st.filename file ≠ none ∨ some file = limbo) (hlimbo : ∀ i, some i = limbo → i = file) :
    Durable (freeVfd st file) none := by
  refine ⟨⟨h.linked.free_vfd hclosed huse hlimbo, h.enabled, h.stored⟩, fun i hi => ?_⟩
  obtain ⟨hmark, hopen⟩ := h.marked i hi
  have hif : i ≠ file := by
    rintro rfl
    exact hopen hclosed
  exact ⟨(Function.update_of_ne hif _ _).trans hmark, hopen⟩

/-- A file that was reopened. -/
theorem Durable.reopen {fd : Nat} (os' : σ) (h : Durable st limbo) (hclosed : st.fd file = VFD_CLOSED)
    (hfd : fd ≤ 32767) (hname : st.filename file ≠ none) :
    Durable (st.entered file fd os' (.reopened file)) limbo ∧
      (st.entered file fd os' (.reopened file)).fd file ≠ VFD_CLOSED := by
  refine ⟨h.enter hclosed hfd (.inl hname) rfl fun _ hi => hi, ?_⟩
  show Function.update st.fd file (toShort fd) file ≠ VFD_CLOSED
  rw [Function.update_self, toShort_of_le hfd]
  unfold VFD_CLOSED
  omega

theorem Os.Succeeds.not_fails (h : os.Succeeds) {filename : FileName} {flags : OpenFlags}
    {mode : Nat} : ¬ OpenFails os filename flags mode :=
  fun ⟨_, _, _, hcall⟩ => h.openFile hcall

/-- The other fields of the slots do not matter. -/
theorem Durable.of_eq (h : Durable st limbo) (hlog : st'.log = st.log) (hfd : st'.fd = st.fd)
    (hless : st'.lruLessRecently = st.lruLessRecently) (hmore : st'.lruMoreRecently = st.lruMoreRecently)
    (hn : st'.nFile = st.nFile) (hfree : st'.nextFree = st.nextFree)
    (hname : st'.filename = st.filename) (hsize : st'.sizeVfdCache = st.sizeVfdCache)
    (henabled : st'.enableFsync = st.enableFsync) (hdesc : st'.descriptor = st.descriptor)
    (hdirty : st'.dirty = st.dirty) : Durable st' limbo :=
  h.of_log (h.linked.of_eq (congrArg (fun log => order (uses log)) hlog) hfd hless hmore hn hfree hname
    hsize) henabled hfd hdesc (fun i hi => by rwa [hdirty]) fun i hi => by rwa [hlog] at hi

/-! ## What is kept -/

theorem stored_invariant : Invariant fun limbo (st : FdState σ) => Stored st limbo where
  linked h := h.linked
  quiet _ _ _ _ h := ⟨h.linked.of_eq rfl rfl rfl rfl rfl rfl rfl rfl, h.enabled, h.stored⟩
  victim _ _ h _ := ⟨h.linked.of_eq rfl rfl rfl rfl rfl rfl rfl rfl, h.enabled, h.stored⟩
  shut _ _ h hfile := h.shut hfile
  failed h hclosed := h.failed hclosed
  reopened _ h hclosed hname hfd := h.enter hclosed hfd (.inl hname) rfl
  touched h hfile := h.touch hfile
  accessed h hlru := ⟨h.linked.note_accessed hlru, h.enabled, h.stored⟩
  allocated h hlinked hkept := h.allocate hlinked hkept
  opened _ _ _ _ h hclosed hfd := (h.enter hclosed hfd (.inr rfl) rfl).fill
  freed h hclosed huse hlimbo := ⟨h.linked.free_vfd hclosed huse hlimbo, h.enabled, h.stored⟩

theorem durable_invariant : Invariant fun limbo (st : FdState σ) => Durable st limbo where
  linked h := h.linked
  quiet _ _ _ _ h := h.of_eq rfl rfl rfl rfl rfl rfl rfl rfl rfl rfl rfl
  victim _ _ h _ := h.victim
  shut _ _ h hfile := h.shut hfile
  failed h hclosed := h.failed hclosed
  reopened s h hclosed hname hfd := (h.reopen s hclosed hfd hname).1
  touched h hfile := h.touch hfile
  accessed h hlru := h.of_log (h.linked.note_accessed hlru) rfl rfl rfl (fun _ hi => hi) fun _ hi => hi
  allocated h hlinked hkept := h.allocate hlinked hkept
  opened s filename flags mode h hclosed hfd := h.openNew s filename flags mode hclosed hfd
  freed h hclosed huse hlimbo := h.free hclosed huse hlimbo

theorem lruInsert_durable (hshort : os.Short) (hsucc : os.Succeeds) (h : Durable st none)
    (hfile : file ≠ 0) (hname : st.filename file ≠ none) (hclosed : st.fd file = VFD_CLOSED) :
    Ends Unbroken (lruInsert os st file) fun r => r.1 = 0 ∧ Durable r.2 none ∧
      r.2.filename = st.filename ∧ r.2.dirty file = st.dirty file ∧ r.2.fd file ≠ VFD_CLOSED := by
  refine (lruInsert_ends (reopens_unbroken os) (fun _ h => (Durable.toStored h).linked)
    durable_invariant.evicts durable_invariant.victim durable_invariant.ignoresFailures hshort
    hfile h hclosed).mono (fun _ h => h) ?_
  rintro _ ⟨st', h', hw, ⟨-, hfails⟩ | ⟨fd, os₁, -, hle, os₂, -, rfl⟩⟩
  · exact absurd hfails hsucc.not_fails
  · obtain ⟨hdurable, hopen⟩ := h'.reopen os₂ hw.fd hle (by rwa [hw.filename])
    exact ⟨rfl, hdurable, hw.filename, hw.dirty, hopen⟩

theorem fileAccess_durable (hshort : os.Short) (hsucc : os.Succeeds) (h : Durable st none)
    (hfile : file ≠ 0) (hname : st.filename file ≠ none) :
    Ends Unbroken (fileAccess os st file) fun r => Durable r.2 none ∧
      r.2.dirty file = st.dirty file ∧ r.2.fd file ≠ VFD_CLOSED := by
  refine (fileAccess_ends (fun _ => reopens_unbroken os) (fun _ h => (Durable.toStored h).linked)
    durable_invariant.evicts durable_invariant.victim durable_invariant.ignoresFailures hshort
    hfile h).mono (fun _ h => h) ?_
  rintro _ (⟨hopen, rfl⟩ | ⟨hclosed, st', h', hw, ⟨-, hfails⟩ | ⟨fd, os₁, -, hle, os₂, -, rfl⟩⟩)
  · obtain ⟨hfd, -, hdirty, -⟩ := touched_dirty st file
    refine ⟨h.touch ((h.linked.open_iff file).mpr hopen), congrFun hdirty file, ?_⟩
    dsimp only
    rw [hfd]
    exact hopen
  · exact absurd hfails hsucc.not_fails
  · obtain ⟨hdurable, hopen⟩ := h'.reopen os₂ hw.fd hle (by rwa [hw.filename])
    exact ⟨hdurable.of_log (hdurable.linked.note_accessed (lru_cons rfl rfl)) rfl rfl rfl
      (fun _ hi => hi) fun _ hi => hi, hw.dirty, hopen⟩

/-! ## Closing -/

/-- After `file_close` nothing of the file is left to be synced. -/
theorem fileClose_durable (h : Durable st none) :
    Ends Unbroken (fileClose os st file) fun st' => unsynced file st'.log = false := by
  refine fileClose_ends.mono (fun _ h => h) ?_
  rintro _ ⟨hvalid, st₁, os', hclosed, -, hst₁, rfl⟩
  have h₁ : Durable st₁ none := by
    rcases hst₁ with rfl | ⟨hopen, os₁, rfl⟩
    · exact h
    · exact h.shut ((h.linked.open_iff file).mpr hopen)
  exact h₁.synced_of_closed hclosed

theorem Stored.endVfds {is : List File} (h : Stored st none) :
    Ends Unbroken (endVfds os is st) fun st' => Stored st' none := by
  induction is generalizing st with
  | nil => exact h
  | cons i is ih =>
    unfold PostgresV7.Fd.endVfds
    split
    · exact Ends.bind (stored_invariant.fileClose h) fun st' h' => ih h'
    · exact ih ⟨h.linked.of_eq rfl rfl rfl rfl rfl rfl rfl rfl, h.enabled, h.stored⟩

/-- At the end of a transaction all marks go, and no file is unsynced any more. -/
theorem atEoXactFiles_durable (h : Durable st none) :
    Ends Unbroken (atEoXactFiles os st) fun st' => Durable st' none := by
  have hend : ∀ {st' : FdState σ}, Stored st' none →
      Durable ({ st' with numAllocatedFiles := 0 }.note .endOfXact) none := by
    intro st' h'
    have hlinked : Linked ({ st' with numAllocatedFiles := 0 }.note .endOfXact) none :=
      h'.linked.of_eq rfl rfl rfl rfl rfl rfl rfl rfl
    exact ⟨⟨hlinked, h'.enabled, h'.stored⟩, fun i hi => nomatch hi⟩
  unfold atEoXactFiles
  split
  · rw [if_neg (not_not.mpr h.linked.closed_zero)]
    exact Ends.bind h.toStored.endVfds fun st' h' => hend h'
  · exact hend h.toStored

/-! ## Writing and syncing -/

/-- A file that was marked before bytes are written to it still is, and one that was not is
not. -/
theorem fileWrite_durable {buffer : List UInt8} (hshort : os.Short) (hsucc : os.Succeeds)
    (h : Durable st none) :
    Ends Unbroken (fileWrite os st file buffer) fun r =>
      ((buffer ≠ [] → st.dirty file = true) → Durable r.2 none) ∧
      r.2.dirty file = st.dirty file ∧ (buffer ≠ [] → unsynced file r.2.log = true) := by
  unfold fileWrite
  by_cases hvalid : FileIsValid st file
  · rw [if_neg (not_not.mpr hvalid)]
    refine Ends.bind (fileAccess_durable hshort hsucc h hvalid.ne_zero hvalid.2.2) ?_
    rintro ⟨code, st₁⟩ ⟨h₁, hdirty, hopen⟩
    dsimp only at hdirty hopen
    refine Ends.bind (sys_ends fun _ => ⟨nofun, nofun⟩) ?_
    rintro _ ⟨r, os', hcall, rfl⟩
    obtain ⟨count, rfl, hcount⟩ := hsucc.write hcall
    have hst : Durable (FdState.advance { st₁ with os := os' } file count) none :=
      h₁.of_eq rfl rfl rfl rfl rfl rfl rfl rfl rfl rfl rfl
    refine ⟨fun hmark => ⟨⟨hst.linked.of_eq rfl rfl rfl rfl rfl rfl rfl rfl, hst.enabled, hst.stored⟩,
      fun i hi => ?_⟩, hdirty, fun hne => ?_⟩
    · rcases Bool.or_eq_true_iff.mp hi with hwritten | hold
      · obtain ⟨rfl, hpos⟩ := of_decide_eq_true hwritten
        exact ⟨hdirty.trans (hmark (hcount.mp hpos)), hopen⟩
      · exact hst.marked i hold
    · exact Bool.or_eq_true_iff.mpr (.inl (decide_eq_true ⟨rfl, hcount.mpr hne⟩))
  · rw [if_pos hvalid]
    exact ⟨nofun, nofun⟩

theorem pgFsync_durable (hsucc : os.Succeeds) (h : Durable st none) (hopen : st.fd file ≠ VFD_CLOSED) :
    Ends Unbroken (pgFsync os st file) fun r => r.1 = true ∧ Durable r.2 none ∧
      r.2.filename = st.filename ∧ unsynced file r.2.log = false := by
  refine (pgFsync_ends fun _ => show Unbroken .osFailed from ⟨nofun, nofun⟩).mono (fun _ h => h) ?_
  rintro _ ⟨done, os', hcall, rfl⟩
  rw [if_pos h.enabled] at hcall
  obtain rfl := hsucc.fsync hcall
  dsimp only
  rw [if_pos ⟨rfl, h.enabled, h.stored file hopen⟩]
  have hst : Durable { st with os := os' } none := h.of_eq rfl rfl rfl rfl rfl rfl rfl rfl rfl rfl rfl
  refine ⟨rfl, ⟨⟨hst.linked.of_eq rfl rfl rfl rfl rfl rfl rfl rfl, hst.enabled, hst.stored⟩,
    fun i hi => ?_⟩, rfl, ?_⟩
  · exact hst.marked i (Bool.and_eq_true_iff.mp hi).2
  · show (decide (file ≠ file) && _) = false
    rw [decide_eq_false (not_not.mpr rfl), Bool.false_and]

/-- A file that is synced needs no mark. -/
theorem Durable.unmark (h : Durable st none) (hsynced : unsynced file st.log = false) :
    Durable { st with dirty := Function.update st.dirty file false } none := by
  refine ⟨⟨h.linked.of_eq rfl rfl rfl rfl rfl rfl rfl rfl, h.enabled, h.stored⟩, fun i hi => ?_⟩
  obtain ⟨hmark, hopen⟩ := h.marked i hi
  have hif : i ≠ file := by
    rintro rfl
    exact Bool.false_ne_true (hsynced.symm.trans hi)
  exact ⟨(Function.update_of_ne hif _ _).trans hmark, hopen⟩

/-- `file_sync` leaves everything unsynced that is: a file that is dirty and open is not
synced, and the others need no sync. -/
theorem fileSync_durable (hshort : os.Short) (hsucc : os.Succeeds) (h : Durable st none) :
    Ends Unbroken (fileSync os st file) fun r => Durable r.2 none ∧ r.2.filename = st.filename ∧
      unsynced file r.2.log = unsynced file st.log := by
  unfold fileSync
  by_cases hvalid : FileIsValid st file
  · rw [if_neg (not_not.mpr hvalid)]
    split
    · exact ⟨h, rfl, rfl⟩
    · rw [if_neg (not_not.mpr h.enabled)]
      split
      · rename_i hclosed
        refine Ends.bind (lruInsert_durable hshort hsucc h hvalid.ne_zero hvalid.2.2 hclosed) ?_
        rintro ⟨code, st₁⟩ ⟨hcode, h₁, hname₁, -, hopen₁⟩
        dsimp only at hcode
        dsimp only
        rw [if_neg (not_not.mpr hcode)]
        refine Ends.bind (pgFsync_durable hsucc h₁ hopen₁) ?_
        rintro ⟨done, st₂⟩ ⟨hdone, h₂, hname₂, hsynced⟩
        dsimp only at hdone
        dsimp only
        rw [if_pos hdone]
        exact ⟨h₂.unmark hsynced, hname₂.trans hname₁, hsynced.trans (h.synced_of_closed hclosed).symm⟩
      · exact ⟨h, rfl, rfl⟩
  · rw [if_pos hvalid]
    exact ⟨nofun, nofun⟩

/-! ## Every operation -/

theorem Durable.markDirty (h : Durable st limbo) :
    Durable { st with dirty := Function.update st.dirty file true } limbo := by
  refine h.of_log (h.linked.of_eq rfl rfl rfl rfl rfl rfl rfl rfl) rfl rfl rfl (fun i hi => ?_)
    fun _ hi => hi
  show Function.update st.dirty file true i = true
  by_cases hif : i = file
  · rw [hif, Function.update_self]
  · rw [Function.update_of_ne hif]
    exact hi

/-- An operation that heeds the marks leaves what is not synced marked. -/
theorem step_durable {op : Op} (hshort : os.Short) (hsucc : os.Succeeds) (h : Durable st none)
    (hheeds : Heeds st op) : Ends Unbroken (step os st op) fun r => Durable r.2 none := by
  have hnone : ∀ {x : Except Fault (FdState σ)}, Ends Unbroken x (Durable · none) →
      Ends Unbroken (returnsNone x) fun r => Durable r.2 none :=
    fun hx => Ends.bind hx fun st' h' => h'
  cases op with
  | openFile filename flags mode =>
    exact Ends.bind (durable_invariant.fileNameOpenFile hshort h) fun r h' => h'
  | close file => exact hnone (durable_invariant.fileClose h)
  | unlink file => exact hnone (durable_invariant.fileUnlink h)
  | read file amount => exact Ends.bind (durable_invariant.fileRead hshort h) fun r h' => h'
  | write file buffer => exact Ends.bind (fileWrite_durable hshort hsucc h) fun r h' => h'.1 hheeds
  | seek file offset whence => exact Ends.bind (durable_invariant.fileSeek hshort h) fun r h' => h'
  | sync file => exact Ends.bind (fileSync_durable hshort hsucc h) fun r h' => h'.1
  | truncate file offset =>
    have hsync : Ends Unbroken (fileSync os st file) fun r =>
        Durable r.2 none ∧ r.2.filename = st.filename :=
      (fileSync_durable hshort hsucc h).mono (fun _ h => h) fun _ h' => ⟨h'.1, h'.2.1⟩
    exact Ends.bind (durable_invariant.fileTruncate hshort hsync) fun r h' => h'
  | markDirty file =>
    refine hnone ?_
    unfold fileMarkDirty
    split
    · exact ⟨nofun, nofun⟩
    · exact h.markDirty
  | releaseLru => exact Ends.bind (durable_invariant.releaseLruFile h) fun r h' => h'
  | closeAll => exact hnone (durable_invariant.closeAllVfds h)
  | endXact => exact hnone (atEoXactFiles_durable h)

theorem run_durable {ops : List Op} (hshort : os.Short) (hsucc : os.Succeeds) (h : Durable st none)
    (hheeded : Heeded os ops st) : Ends Unbroken (run os ops st) fun r => Durable r.2 none := by
  induction ops generalizing st with
  | nil => exact h
  | cons op ops ih =>
    have hstep := step_durable hshort hsucc h hheeded.1
    have hrest := hheeded.2
    unfold run
    cases hr : step os st op with
    | error e =>
      rw [hr] at hstep
      exact hstep
    | ok r =>
      rw [hr] at hstep hrest
      rw [ok_bind]
      exact Ends.bind (ih hstep (hrest r rfl)) fun r' h' => h'

theorem init_durable (databasePath : FileName) (s : σ) :
    Durable (FdState.init databasePath true s) none :=
  ⟨⟨(init_steady databasePath true s).linked, rfl, fun _ hi => absurd rfl hi⟩, fun _ hi => nomatch hi⟩

theorem lruDelete_durable (h : Durable st none) (hopen : st.fd file ≠ VFD_CLOSED) :
    Ends Unbroken (lruDelete os st file) fun st' => unsynced file st'.log = false := by
  have hmem := (h.linked.open_iff file).mpr hopen
  refine (lruDelete_ends (tolerates_unbroken os).deletes (h.linked.ne_zero hmem)).mono (fun _ h => h) ?_
  rintro _ ⟨pos, os₁, os₂, os', -, -, -, rfl⟩
  exact h.synced_shut hopen

/-- With `fsync` enabled and no call failing, as long as bytes are only written to files
that are marked: what is not synced is marked and in a slot that is open, and closing or
evicting the file syncs it. `file_sync` does so for no file, and the first write to a file
that is not marked leaves it unsynced without a mark. -/
theorem fd_run_durable (hshort : os.Short) (hsucc : os.Succeeds) (ops : List Op)
    (databasePath : FileName) (s : σ) (hheeded : Heeded os ops (FdState.init databasePath true s)) :
    Ends Unbroken (run os ops (FdState.init databasePath true s)) fun r =>
      (∀ file, unsynced file r.2.log = true →
        r.2.dirty file = true ∧ r.2.fd file ≠ VFD_CLOSED ∧ r.2.filename file ≠ none) ∧
      (∀ file, Ends Unbroken (fileClose os r.2 file) fun st' => unsynced file st'.log = false) ∧
      (∀ file, r.2.fd file ≠ VFD_CLOSED →
        Ends Unbroken (lruDelete os r.2 file) fun st' => unsynced file st'.log = false) ∧
      (∀ file, Ends Unbroken (fileSync os r.2 file) fun r' =>
        unsynced file r'.2.log = unsynced file r.2.log) ∧
      (∀ file buffer, Ends Unbroken (fileWrite os r.2 file buffer) fun r' =>
        (unsynced file r'.2.log = true → r'.2.dirty file = true) ↔
          Heeds r.2 (.write file buffer)) := by
  refine (run_durable hshort hsucc (init_durable databasePath s) hheeded).mono (fun _ h => h) ?_
  rintro ⟨results, st⟩ h
  dsimp only at h ⊢
  refine ⟨fun file hold => ?_, fun file => ?_, fun file => lruDelete_durable h, fun file => ?_,
    fun file buffer => ?_⟩
  · obtain ⟨hmark, hopen⟩ := h.marked file hold
    have hname := h.linked.named file ((h.linked.open_iff file).mpr hopen)
    exact ⟨hmark, hopen, hname.resolve_right nofun⟩
  · exact fileClose_durable h
  · exact (fileSync_durable hshort hsucc h).mono (fun _ h => h) fun _ h' => h'.2.2
  · refine (fileWrite_durable hshort hsucc h).mono (fun _ h => h) ?_
    rintro r' ⟨hdurable, hdirty, hunsynced⟩
    refine ⟨fun himp hne => ?_, fun hmark hold => ?_⟩
    · rw [← hdirty]
      exact himp (hunsynced hne)
    · exact ((hdurable hmark).marked file hold).1

theorem Kernel.write_count {k k' : Kernel} {fd count : Nat} {buffer : List UInt8}
    (h : k.write fd buffer = some (count, k')) : 0 < count ↔ buffer ≠ [] := by
  obtain ⟨f, -, hf⟩ := Option.bind_eq_some_iff.mp h
  split at hf
  · cases hf
  · split at hf
    · rename_i hnil
      obtain ⟨rfl, -⟩ := Prod.mk.inj (Option.some.inj hf)
      exact iff_of_false (Nat.lt_irrefl 0) (not_not.mpr hnil)
    · rename_i hne
      dsimp only at hf
      generalize (if f.append then (k.data f.inode).length else f.pos) = pos at hf
      split at hf
      · obtain ⟨rfl, -⟩ := Prod.mk.inj (Option.some.inj hf)
        exact iff_of_true (List.length_pos_iff.mpr hne) hne
      · cases hf

theorem Kernel.os_succeeds {pick : Kernel → Option Nat} {junk : Kernel → Int} :
    (Kernel.os pick junk).Succeeds := by
  refine ⟨fun hcall => os_openFile_ne_error hcall, fun {fd buffer k r k'} hcall => ?_,
    fun hcall => (os_fsync hcall).1⟩
  obtain ⟨d, -, hrest⟩ := Option.bind_eq_some_iff.mp hcall
  obtain ⟨⟨count, k₁⟩, hwrite, heq⟩ := Option.bind_eq_some_iff.mp hrest
  obtain ⟨rfl, rfl⟩ := Prod.mk.inj (Option.some.inj heq)
  exact ⟨count, rfl, write_count hwrite⟩

/-- A file that is marked before it is written to, and evicted. -/
def markedWrites : List Op :=
  [.openFile ['/', 'a'] { access := .O_RDWR } 0, .markDirty 1, .write 1 [7], .releaseLru, .read 1 2]

theorem fd_run_durable_example :
    (run (Kernel.os (lowestFree 0 256) fun _ => 0) markedWrites (FdState.init ['/'] true oneFile)).map
      (fun r => r.2.log) = .ok [.accessed 1, .reopened 1, .closed 1, .synced 1, .victim 1,
        .written 1 1, .accessed 1, .opened 1] ∧
    Ends Unbroken (run (Kernel.os (lowestFree 0 256) fun _ => 0) markedWrites
      (FdState.init ['/'] true oneFile)) fun r =>
      ∀ file, unsynced file r.2.log = true → r.2.dirty file = true := by
  have hshort : (Kernel.os (lowestFree 0 256) fun _ => 0).Short :=
    Kernel.os_short (lowestFree_picks 0 256) (by decide)
  refine ⟨by decide +kernel, ?_⟩
  refine (fd_run_durable hshort Kernel.os_succeeds markedWrites ['/'] oneFile
    (by decide +kernel)).mono (fun _ h => h) ?_
  rintro r ⟨hmarked, -⟩ file hold
  exact (hmarked file hold).1

/-- A byte is written to a file that was opened without `O_CREAT`: it is not marked, and
closing the file does not sync it. A byte that is written to a new file is marked, and
`file_sync` does not sync it. -/
theorem fd_run_forgets_write :
    (Kernel.os (lowestFree 0 256) fun _ => 0).Short ∧ (Kernel.os (lowestFree 0 256) fun _ => 0).Succeeds ∧
    (run (Kernel.os (lowestFree 0 256) fun _ => 0)
      [.openFile ['/', 'a'] { access := .O_RDWR } 0, .write 1 [7]]
      (FdState.init ['/'] true oneFile)).map
        (fun r => (unsynced 1 r.2.log, r.2.dirty 1)) = .ok (true, false) ∧
    (run (Kernel.os (lowestFree 0 256) fun _ => 0)
      [.openFile ['/', 'a'] { access := .O_RDWR } 0, .write 1 [7], .close 1]
      (FdState.init ['/'] true oneFile)).map (fun r => unsynced 1 r.2.log) = .ok true ∧
    (run (Kernel.os (lowestFree 0 256) fun _ => 0)
      [.openFile ['/', 'b'] { access := .O_RDWR, creat := true } 0, .write 1 [7], .sync 1]
      (FdState.init ['/'] true oneFile)).map
        (fun r => (unsynced 1 r.2.log, r.2.dirty 1)) = .ok (true, true) :=
  ⟨Kernel.os_short (lowestFree_picks 0 256) (by decide), Kernel.os_succeeds, by decide +kernel,
    by decide +kernel, by decide +kernel⟩

end PostgresV7.Fd
