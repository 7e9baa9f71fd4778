import PostgresV7.Fd.Invariant
import PostgresV7.Fd.Kernel

/-!
# Runs of the virtual file descriptors (`fd.c`)

Any sequence of calls, with whatever the operating system makes of them, keeps the ring
and the free list as they should be, and closes the file first whose last use is oldest.
-/

namespace PostgresV7.Fd

open Chains Rings Recency Outcomes

variable {σ : Type} {os : Os σ} {st st' : FdState σ} {file : File} {limbo : Option File}
  {allowed : Fault → Prop}

/-! ## Operations -/

/-- The operations on virtual file descriptors. -/
inductive Op where
  | openFile (filename : FileName) (flags : OpenFlags) (mode : Nat)
  | close (file : File)
  | unlink (file : File)
  | read (file amount : Nat)
  | write (file : File) (buffer : List UInt8)
  | seek (file : File) (offset : Int) (whence : Whence)
  | sync (file : File)
  | truncate (file : File) (offset : Int)
  | markDirty (file : File)
  | releaseLru
  | closeAll
  | endXact
  deriving DecidableEq, Repr

/-- What a caller sees of an operation. -/
inductive Result where
  | none
  | file (file : Option File)
  | code (code : Int)
  | bytes (count : Int) (buffer : List UInt8)
  | released (released : Bool)
  deriving DecidableEq, Repr

/-- A function that returns nothing. -/
def returnsNone (x : Except Fault (FdState σ)) : Except Fault (Result × FdState σ) := do
  let st ← x
  .ok (.none, st)

/-- One operation. -/
def step (os : Os σ) (st : FdState σ) : Op → Except Fault (Result × FdState σ)
  | .openFile filename flags mode => do
    let (file, st) ← fileNameOpenFile os st filename flags mode
    .ok (.file file, st)
  | .close file => returnsNone (fileClose os st file)
  | .unlink file => returnsNone (fileUnlink os st file)
  | .read file amount => do
    let ((count, buffer), st) ← fileRead os st file amount
    .ok (.bytes count buffer, st)
  | .write file buffer => do
    let (count, st) ← fileWrite os st file buffer
    .ok (.code count, st)
  | .seek file offset whence => do
    let (pos, st) ← fileSeek os st file offset whence
    .ok (.code pos, st)
  | .sync file => do
    let (code, st) ← fileSync os st file
    .ok (.code code, st)
  | .truncate file offset => do
    let (code, st) ← fileTruncate os st file offset
    .ok (.code code, st)
  | .markDirty file => returnsNone (fileMarkDirty st file)
  | .releaseLru => do
    let (released, st) ← releaseLruFile os st
    .ok (.released released, st)
  | .closeAll => returnsNone (closeAllVfds os st)
  | .endXact => returnsNone (atEoXactFiles os st)

/-- A sequence of operations. -/
def run (os : Os σ) : List Op → FdState σ → Except Fault (List Result × FdState σ)
  | [], st => .ok ([], st)
  | op :: ops, st => do
    let (result, st) ← step os st op
    let (results, st) ← run os ops st
    .ok (result :: results, st)

/-- The state at the start of a process. -/
def FdState.init (databasePath : FileName) (enableFsync : Bool) (s : σ) : FdState σ where
  fd _ := VFD_CLOSED
  dirty _ := false
  temporary _ := false
  nextFree _ := 0
  lruMoreRecently _ := 0
  lruLessRecently _ := 0
  seekPos _ := 0
  filename _ := .none
  fileFlags _ := { access := .O_RDONLY }
  fileMode _ := 0
  sizeVfdCache := 0
  nFile := 0
  numAllocatedFiles := 0
  databasePath := databasePath
  enableFsync := enableFsync
  os := s
  descriptor _ := -1
  log := []

/-! ## What all operations keep -/

/-- A victim's last use is older than that of any other open file. -/
def OldestOpen (log : List Event) (file : File) : Prop :=
  Present (uses log) file ∧ ∀ other, Present (uses log) other → other ≠ file →
    lastTouch (uses log) file < lastTouch (uses log) other

/-- Every victim was the open file used least recently. -/
def VictimsOldest : List Event → Prop
  | [] => True
  | .victim file :: log => OldestOpen log file ∧ VictimsOldest log
  | _ :: log => VictimsOldest log

structure Steady (st : FdState σ) (limbo : Option File) : Prop where
  linked : Linked st limbo
  victims : VictimsOldest st.log

theorem victimsOldest_append {evs log : List Event} (hevs : ∀ ev ∈ evs, ∀ file, ev ≠ .victim file)
    (h : VictimsOldest log) : VictimsOldest (evs ++ log) := by
  induction evs with
  | nil => exact h
  | cons ev evs ih =>
    have hrest := ih fun ev' hev' => hevs ev' (List.mem_cons_of_mem ev hev')
    cases ev with
    | victim file => exact absurd rfl (hevs _ List.mem_cons_self file)
    | opened | reopened | accessed | closed | written | synced | endOfXact => exact hrest

theorem syncEvents_ne_victim (st : FdState σ) (file : File) :
    ∀ ev ∈ syncEvents st file, ∀ victim, ev ≠ .victim victim := by
  unfold syncEvents
  intro ev hev victim
  split at hev
  · rw [List.mem_singleton.mp hev]
    exact nofun
  · cases hev

theorem steady_shut {seekPos : File → Int} {dirty : File → Bool} {os' : σ} (h : Steady st limbo)
    (hfile : file ∈ st.lru) :
    Steady (st.shut file seekPos dirty os' (syncEvents st file)) limbo :=
  ⟨h.linked.shut hfile (syncEvents_use st file),
    victimsOldest_append (syncEvents_ne_victim st file) h.victims⟩

/-- The other fields of the slots do not matter. -/
theorem Steady.of_eq (h : Steady st limbo) (hlog : st'.log = st.log) (hfd : st'.fd = st.fd)
    (hless : st'.lruLessRecently = st.lruLessRecently) (hmore : st'.lruMoreRecently = st.lruMoreRecently)
    (hn : st'.nFile = st.nFile) (hfree : st'.nextFree = st.nextFree)
    (hname : st'.filename = st.filename) (hsize : st'.sizeVfdCache = st.sizeVfdCache) :
    Steady st' limbo :=
  ⟨h.linked.of_eq (congrArg (fun log => order (uses log)) hlog) hfd hless hmore hn hfree hname hsize,
    hlog ▸ h.victims⟩

theorem Steady.note {ev : Event} (h : Steady st limbo) (huse : ev.use = none)
    (hvictim : ∀ victim, ev = .victim victim → OldestOpen st.log victim) :
    Steady (st.note ev) limbo := by
  refine ⟨h.linked.of_eq ?_ rfl rfl rfl rfl rfl rfl rfl, ?_⟩
  · unfold FdState.lru uses
    exact congrArg order (List.filterMap_cons_none huse)
  · cases ev with
    | victim victim => exact ⟨hvictim victim rfl, h.victims⟩
    | opened | reopened | accessed | closed | written | synced | endOfXact => exact h.victims

theorem steady_ignoresVictims : IgnoresVictims (σ := σ) (Steady · limbo) := by
  intro st file h hlast
  refine h.note rfl fun victim heq => ?_
  obtain rfl := Event.victim.inj heq
  exact ⟨present_of_getLast hlast, fun other hother hne => lastTouch_lt_of_getLast hlast hother hne⟩

/-- The descriptor of a slot is closed after a failed `open` as it was before. -/
theorem Steady.failed (h : Steady st limbo) (hclosed : st.fd file = VFD_CLOSED) :
    Steady (st.setFd file (-1)) limbo := by
  have hfd : Function.update st.fd file (toShort (-1)) = st.fd := update_same hclosed
  exact h.of_eq rfl hfd rfl rfl rfl rfl rfl rfl

theorem Steady.enter {fd : Nat} {os' : σ} {ev : Event} (h : Steady st limbo)
    (hclosed : st.fd file = VFD_CLOSED) (hfd : fd ≤ 32767)
    (huse : st.filename file ≠ none ∨ some file = limbo) (hev : ev.use = some (.touch file)) :
    Steady (st.entered file fd os' ev) limbo := by
  refine ⟨h.linked.enter hclosed ?_ huse hev, ?_⟩
  · rw [toShort_of_le hfd]
    unfold VFD_CLOSED
    omega
  · cases ev with
    | victim => cases hev
    | opened | reopened | accessed | closed | written | synced | endOfXact => exact h.victims

theorem Steady.touch (h : Steady st limbo) (hfile : file ∈ st.lru) : Steady (st.touched file) limbo := by
  refine ⟨h.linked.touch hfile, ?_⟩
  unfold FdState.touched
  split <;> exact h.victims

theorem Steady.clean {dirty : File → Bool} (h : Steady st none) : Steady { st with dirty := dirty } none :=
  h.of_eq rfl rfl rfl rfl rfl rfl rfl rfl

/-- Steadiness is kept by what the calls are made of. -/
theorem steady_invariant : WriteInvariant fun limbo (st : FdState σ) => Steady st limbo where
  linked h := h.linked
  quiet _ _ _ _ h := h.of_eq rfl rfl rfl rfl rfl rfl rfl rfl
  victim := steady_ignoresVictims
  shut _ _ h hfile := steady_shut h hfile
  failed h hclosed := h.failed hclosed
  reopened _ h hclosed hname hfd := h.enter hclosed hfd (.inl hname) rfl
  touched h hfile := h.touch hfile
  accessed h hlru := ⟨h.linked.note_accessed hlru, h.victims⟩
  allocated h hlinked hkept := ⟨hlinked, hkept.log ▸ h.victims⟩
  opened {st file fd} s _ _ _ h hclosed hfd := by
    have hentered : Steady (st.entered file fd s (.opened file)) (some file) :=
      h.enter hclosed hfd (.inr rfl) rfl
    exact ⟨hentered.linked.fill_slot, hentered.victims⟩
  freed h hclosed huse hlimbo := ⟨h.linked.free_vfd hclosed huse hlimbo, h.victims⟩
  written h := h.note rfl fun _ hv => nomatch hv
  synced h := h.note rfl fun _ hv => nomatch hv
  cleaned h := h.clean

/-! ## Every operation -/

theorem endVfds_steady {is : List File} (h : Steady st none) :
    Ends Unbroken (endVfds os is st) fun st' => Steady st' none := by
  induction is generalizing st with
  | nil => exact h
  | cons i is ih =>
    unfold endVfds
    split
    · exact Ends.bind (steady_invariant.fileClose h) fun st' h' => ih h'
    · exact ih (h.of_eq rfl rfl rfl rfl rfl rfl rfl rfl)

theorem atEoXactFiles_steady (h : Steady st none) :
    Ends Unbroken (atEoXactFiles os st) fun st' => Steady st' none := by
  have hend : ∀ {st' : FdState σ}, Steady st' none →
      Steady ({ st' with numAllocatedFiles := 0 }.note .endOfXact) none := by
    intro st' h'
    have hst : Steady { st' with numAllocatedFiles := 0 } none :=
      h'.of_eq rfl rfl rfl rfl rfl rfl rfl rfl
    exact hst.note rfl fun victim hv => nomatch hv
  unfold atEoXactFiles
  split
  · rw [if_neg (not_not.mpr h.linked.closed_zero)]
    exact Ends.bind (endVfds_steady h) fun st' h' => hend h'
  · exact hend h

/-- Every operation keeps ring and free list. -/
theorem step_steady {op : Op} (hshort : os.Short) (h : Steady st none) :
    Ends Unbroken (step os st op) fun r => Steady r.2 none := by
  have hnone : ∀ {x : Except Fault (FdState σ)}, Ends Unbroken x (Steady · none) →
      Ends Unbroken (returnsNone x) fun r => Steady r.2 none :=
    fun hx => Ends.bind hx fun st' h' => h'
  cases op with
  | openFile filename flags mode =>
    exact Ends.bind (steady_invariant.fileNameOpenFile hshort h) fun r h' => h'
  | close file => exact hnone (steady_invariant.fileClose h)
  | unlink file => exact hnone (steady_invariant.fileUnlink h)
  | read file amount => exact Ends.bind (steady_invariant.fileRead hshort h) fun r h' => h'
  | write file buffer =>
    exact Ends.bind (steady_invariant.fileWrite hshort h) fun r h' => h'
  | seek file offset whence => exact Ends.bind (steady_invariant.fileSeek hshort h) fun r h' => h'
  | sync file => exact Ends.bind (steady_invariant.fileSync hshort h) fun r h' => h'.1
  | truncate file offset => exact Ends.bind (steady_invariant.truncate hshort h) fun r h' => h'
  | markDirty file =>
    refine hnone ?_
    unfold fileMarkDirty
    split
    · exact ⟨nofun, nofun⟩
    · exact h.clean
  | releaseLru => exact Ends.bind (steady_invariant.releaseLruFile h) fun r h' => h'
  | closeAll => exact hnone (steady_invariant.closeAllVfds h)
  | endXact => exact hnone (atEoXactFiles_steady h)

theorem run_steady {ops : List Op} (hshort : os.Short) (h : Steady st none) :
    Ends Unbroken (run os ops st) fun r => Steady r.2 none := by
  induction ops generalizing st with
  | nil => exact h
  | cons op ops ih =>
    refine Ends.bind (step_steady hshort h) ?_
    rintro ⟨result, st₁⟩ h₁
    exact Ends.bind (ih h₁) fun r h' => h'

theorem init_steady (databasePath : FileName) (enableFsync : Bool) (s : σ) :
    Steady (FdState.init databasePath enableFsync s) none := by
  refine ⟨⟨⟨rfl, rfl⟩, fun i => ?_, rfl, ⟨[], rfl, fun i => ?_⟩, fun i hi => ?_, fun i hi => ?_⟩,
    trivial⟩
  · exact iff_of_false List.not_mem_nil fun hne => hne rfl
  · exact iff_of_false List.not_mem_nil fun hand => absurd hand.1.2.1 (Nat.not_lt_zero i)
  · rcases hi with hi | hi
    · exact absurd rfl hi
    · cases hi
  · cases hi

/-- After any sequence of operations the ring leads through the open files, each once, in
the order of their last uses, the free list through the unused slots, and every victim was
the open file whose last use was oldest. -/
theorem fd_run_linked (hshort : os.Short) (ops : List Op) (databasePath : FileName)
    (enableFsync : Bool) (s : σ) :
    Ends Unbroken (run os ops (FdState.init databasePath enableFsync s)) fun r =>
      (∃ ring, Ring 0 r.2.lruLessRecently r.2.lruMoreRecently ring ∧
        (∀ i, i ∈ ring ↔ r.2.fd i ≠ VFD_CLOSED) ∧ ring.Nodup ∧
        (ring.Pairwise fun i j => lastTouch (uses r.2.log) j < lastTouch (uses r.2.log) i) ∧
        r.2.nFile = ring.length) ∧
      (∃ free, Chain id 0 r.2.nextFree 0 free ∧ free.Nodup ∧
        ∀ i, i ∈ free ↔ i ≠ 0 ∧ i < r.2.sizeVfdCache ∧ r.2.filename i = none) ∧
      VictimsOldest r.2.log := by
  refine (run_steady hshort (init_steady databasePath enableFsync s)).mono (fun _ h => h) ?_
  rintro ⟨results, st⟩ ⟨h, hvictims⟩
  obtain ⟨free, hchain, hmem⟩ := h.free
  refine ⟨⟨st.lru, h.ring, h.open_iff, lru_nodup st, order_sorted _, h.nFile⟩,
    ⟨free, hchain, hchain.nodup, fun i => ?_⟩, hvictims⟩
  rw [hmem]
  unfold Spare
  constructor
  · rintro ⟨⟨hpos, hlt, hname⟩, -⟩
    exact ⟨Nat.pos_iff_ne_zero.mp hpos, hlt, hname⟩
  · rintro ⟨hpos, hlt, hname⟩
    exact ⟨⟨Nat.pos_iff_ne_zero.mpr hpos, hlt, hname⟩, nofun⟩

/-- The lowest of `left` descriptors from `fd` on that is not in use. -/
def lowestFree (fd : Nat) : Nat → Kernel → Option Nat
  | 0, _ => none
  | left + 1, k => if (k.table fd).isNone then some fd else lowestFree (fd + 1) left k

theorem lowestFree_picks (fd left : Nat) : Kernel.Picks (lowestFree fd left) (fd + left) := by
  intro k d h
  induction left generalizing fd with
  | zero => cases h
  | succ left ih =>
    unfold lowestFree at h
    split at h
    · rename_i hfree
      obtain rfl := Option.some.inj h
      exact ⟨Option.isNone_iff_eq_none.mp hfree, Nat.le_add_right _ _⟩
    · obtain ⟨hfree, hle⟩ := ih (fd + 1) h
      exact ⟨hfree, by omega⟩

/-- One file that exists, and no descriptor in use. -/
def oneFile : Kernel :=
  ⟨fun filename => if filename = ['/', 'a'] then some 0 else none, fun _ => [], 1, fun _ => none⟩

/-- Two files, the first of which is closed behind its owner's back and opened again. -/
def reopened : Except Fault (List Result × FdState Kernel) :=
  run (Kernel.os (lowestFree 0 256) fun _ => 0)
    [.openFile ['/', 'a'] { access := .O_RDWR, creat := true } 0, .write 1 [7, 8],
      .openFile ['/', 'b'] { access := .O_RDWR, creat := true } 0, .releaseLru,
      .seek 1 0 .SEEK_SET, .read 1 2, .close 2]
    (FdState.init ['/'] false ⟨fun _ => none, fun _ => [], 0, fun _ => none⟩)

theorem fd_run_linked_example :
    reopened.map (·.1) = .ok [.file (some 1), .code 2, .file (some 2), .released true, .code 0,
      .bytes 2 [7, 8], .none] ∧
    Ends Unbroken reopened fun r =>
      ∃ ring, Ring 0 r.2.lruLessRecently r.2.lruMoreRecently ring ∧
        (∀ i, i ∈ ring ↔ r.2.fd i ≠ VFD_CLOSED) ∧ ring.Nodup := by
  have hshort : (Kernel.os (lowestFree 0 256) fun _ => 0).Short :=
    Kernel.os_short (lowestFree_picks 0 256) (by decide)
  refine ⟨by decide +kernel, (fd_run_linked hshort _ _ _ _).mono (fun _ h => h) ?_⟩
  rintro r ⟨⟨ring, hring, hmem, hnodup, -⟩, -⟩
  exact ⟨ring, hring, hmem, hnodup⟩

end PostgresV7.Fd
