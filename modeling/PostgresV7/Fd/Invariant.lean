import PostgresV7.Fd.Evict

/-!
# Invariants of the slots (`fd.c`)

Whatever survives what the calls are made of survives the calls. A slot in limbo is
allocated and has no file yet.
-/

namespace PostgresV7.Fd

open Recency Outcomes

variable {σ : Type} {os : Os σ} {st st' : FdState σ} {file : File} {limbo : Option File}
  {allowed : Fault → Prop} {I : Option File → FdState σ → Prop}

/-- The faults that are left: no assertion about the ring fails, and no loop is endless. -/
def Unbroken (e : Fault) : Prop := e ≠ .broken ∧ e ≠ .endless

theorem tolerates_unbroken (os : Os σ) : Tolerates os Unbroken :=
  ⟨⟨nofun, nofun⟩, fun _ _ _ _ _ _ => ⟨nofun, nofun⟩, fun _ _ _ _ => ⟨nofun, nofun⟩,
    fun _ _ _ _ => ⟨nofun, nofun⟩⟩

theorem reopens_unbroken (os : Os σ) {I : FdState σ → Prop} : Reopens os Unbroken I st file :=
  (tolerates_unbroken os).reopens fun _ _ _ _ _ _ => ⟨nofun, nofun⟩

/-! ## Closing -/

theorem closeIfOpen_ends
    (hfsync : st.fd file ≠ VFD_CLOSED → Asserted allowed (os.fsync (st.fd file) st.os) false)
    (hclose : ∀ s, st.fd file ≠ VFD_CLOSED → SyncedBy os st file st.os s →
      Asserted allowed (os.close (st.fd file) s) false)
    (hfile : file ≠ 0) :
    Ends allowed (closeIfOpen os st file) fun st' =>
      (st.fd file = VFD_CLOSED ∧ st' = st) ∨ (st.fd file ≠ VFD_CLOSED ∧ ∃ os₁ os',
        SyncedBy os st file st.os os₁ ∧ os.close (st.fd file) os₁ = some (true, os') ∧
          st' = st.shut file st.seekPos (Function.update st.dirty file false) os'
            (syncEvents st file)) := by
  unfold closeIfOpen
  by_cases hclosed : st.fd file = VFD_CLOSED
  · rw [if_neg (not_not.mpr hclosed)]
    exact .inl ⟨hclosed, rfl⟩
  · rw [if_pos hclosed, delete_eq hfile, ok_bind]
    refine Ends.bind (syncIfDirty_ends (hfsync hclosed)) ?_
    rintro _ ⟨os₁, hsync, rfl⟩
    refine (closeDescriptor_ends (hclose os₁ hclosed hsync)).mono (fun _ h => h) ?_
    rintro _ ⟨os', hclose, rfl⟩
    exact .inr ⟨hclosed, os₁, os', hsync, hclose, rfl⟩

theorem unlinkIfTemporary_ends
    (hfails : os.unlink ((st.filename file).getD []) st.os = none → allowed .osFailed) :
    Ends allowed (unlinkIfTemporary os st file) fun st' => ∃ os',
      (if st.temporary file then ∃ errno, os.unlink ((st.filename file).getD []) st.os = some (errno, os')
        else os' = st.os) ∧
      st' = { st with temporary := Function.update st.temporary file false, os := os' } := by
  unfold unlinkIfTemporary
  by_cases htemp : st.temporary file = true
  · rw [if_pos htemp]
    refine Ends.bind (sys_ends hfails) ?_
    rintro _ ⟨errno, os', hcall, rfl⟩
    refine ⟨os', ?_, rfl⟩
    rw [if_pos htemp]
    exact ⟨errno, hcall⟩
  · have hsame : Function.update st.temporary file false = st.temporary :=
      update_same (eq_false_of_ne_true htemp)
    rw [if_neg htemp, hsame]
    exact ⟨st.os, by rw [if_neg htemp], rfl⟩

/-- A file that is open is shut first, and then its slot is free. -/
def Closing (st : FdState σ) (file : File) (st' : FdState σ) : Prop :=
  ∃ st₁ os', st₁.fd file = VFD_CLOSED ∧ st₁.filename = st.filename ∧
    (st₁ = st ∨ (st.fd file ≠ VFD_CLOSED ∧ ∃ os₁, st₁ = st.shut file st.seekPos
      (Function.update st.dirty file false) os₁ (syncEvents st file))) ∧
    st' = freeVfd { st₁ with
      temporary := Function.update st₁.temporary file false
      os := os' } file

theorem fileClose_ends : Ends Unbroken (fileClose os st file) fun st' =>
    FileIsValid st file ∧ Closing st file st' := by
  unfold fileClose
  by_cases hvalid : FileIsValid st file
  · rw [if_neg (not_not.mpr hvalid)]
    refine Ends.bind (closeIfOpen_ends (fun _ => ⟨fun _ => ⟨nofun, nofun⟩, fun _ _ => ⟨nofun, nofun⟩⟩)
      (fun _ _ _ => ⟨fun _ => ⟨nofun, nofun⟩, fun _ _ => ⟨nofun, nofun⟩⟩) hvalid.ne_zero) ?_
    rintro st₁ (⟨hclosed, rfl⟩ | ⟨hopen, os₁, os₂, -, -, hst₁⟩)
    · refine Ends.bind (unlinkIfTemporary_ends fun _ => ⟨nofun, nofun⟩) ?_
      rintro _ ⟨os', -, rfl⟩
      exact ⟨hvalid, st₁, os', hclosed, rfl, .inl rfl, rfl⟩
    · refine Ends.bind (unlinkIfTemporary_ends fun _ => ⟨nofun, nofun⟩) ?_
      rintro _ ⟨os', -, rfl⟩
      refine ⟨hvalid, st₁, os', ?_, ?_, .inr ⟨hopen, os₂, hst₁⟩, rfl⟩
      · rw [hst₁]
        exact Function.update_self _ _ _
      · rw [hst₁]
        rfl
  · rw [if_pos hvalid]
    exact ⟨nofun, nofun⟩

/-! ## What is kept -/

/-- What is kept while files are opened, moved in the ring, closed and freed. -/
structure Invariant (I : Option File → FdState σ → Prop) : Prop where
  linked : ∀ {limbo st}, I limbo st → Linked st limbo
  quiet : ∀ {limbo st} (s : σ) (seekPos : File → Int) (temporary : File → Bool) (n : Nat),
    I limbo st → I limbo { st with
      os := s
      seekPos := seekPos
      temporary := temporary
      numAllocatedFiles := n }
  victim : ∀ {limbo}, IgnoresVictims (I limbo)
  shut : ∀ {limbo st file} (seekPos : File → Int) (s : σ), I limbo st → file ∈ st.lru →
    I limbo (st.shut file seekPos (Function.update st.dirty file false) s (syncEvents st file))
  failed : ∀ {limbo st file}, I limbo st → st.fd file = VFD_CLOSED → I limbo (st.setFd file (-1))
  reopened : ∀ {limbo st file} {fd : Nat} (s : σ), I limbo st → st.fd file = VFD_CLOSED →
    st.filename file ≠ none → fd ≤ 32767 → I limbo (st.entered file fd s (.reopened file))
  touched : ∀ {limbo st file}, I limbo st → file ∈ st.lru → I limbo (st.touched file)
  accessed : ∀ {limbo st file l}, I limbo st → st.lru = file :: l → I limbo (st.note (.accessed file))
  allocated : ∀ {st st' file}, I none st → Linked st' (some file) → Kept st st' → I (some file) st'
  opened : ∀ {st file} {fd : Nat} (s : σ) (filename : FileName) (flags : OpenFlags) (mode : Nat),
    I (some file) st → st.fd file = VFD_CLOSED → fd ≤ 32767 →
    I none ((st.entered file fd s (.opened file)).fillSlot file filename flags mode)
  freed : ∀ {limbo st file}, I limbo st → st.fd file = VFD_CLOSED →
    (st.filename file ≠ none ∨ some file = limbo) → (∀ i, some i = limbo → i = file) →
    I none (freeVfd st file)

/-- What is kept while files are written and synced too. -/
structure WriteInvariant (I : Option File → FdState σ → Prop) : Prop extends Invariant I where
  written : ∀ {st file count}, I none st → I none (st.note (.written file count))
  synced : ∀ {st file}, I none st → I none (st.note (.synced file))
  cleaned : ∀ {st file}, I none st → I none { st with dirty := Function.update st.dirty file false }

namespace Invariant

theorem system (hI : Invariant I) (s : σ) (h : I limbo st) : I limbo { st with os := s } :=
  hI.quiet s st.seekPos st.temporary st.numAllocatedFiles h

theorem evicts (hI : Invariant I) : Evicts os Unbroken (I limbo) := by
  intro st file h hmem
  refine (lruDelete_ends (tolerates_unbroken os).deletes ((hI.linked h).ne_zero hmem)).mono (fun _ h => h) ?_
  rintro _ ⟨pos, os₁, os₂, os', -, -, -, rfl⟩
  exact hI.shut _ _ h hmem

theorem ignoresFailures (hI : Invariant I) {filename : FileName} {flags : OpenFlags} {mode : Nat} :
    IgnoresFailures os (I limbo) filename flags mode :=
  fun _ _ os' h _ => hI.system os' h

/-- A call of the operating system between two states of the ring. -/
theorem sys {α : Type} {call : σ → Option (α × σ)} (hI : Invariant I) (h : I limbo st) :
    Ends Unbroken (st.sys call) fun r => I limbo r.2 ∧ r.2.fd = st.fd ∧ r.2.filename = st.filename := by
  refine (sys_ends fun _ => show Unbroken .osFailed from ⟨nofun, nofun⟩).mono (fun _ h => h) ?_
  rintro _ ⟨a, os', -, rfl⟩
  exact ⟨hI.system os' h, rfl, rfl⟩

/-! ## Opening -/

theorem lruInsert (hI : Invariant I) (hshort : os.Short) (h : I none st) (hfile : file ≠ 0)
    (hname : st.filename file ≠ none) (hclosed : st.fd file = VFD_CLOSED) :
    Ends Unbroken (lruInsert os st file) fun r => I none r.2 ∧ r.2.filename = st.filename := by
  refine (lruInsert_ends (reopens_unbroken os) (fun _ h => hI.linked h) hI.evicts hI.victim
    hI.ignoresFailures hshort hfile h hclosed).mono (fun _ h => h) ?_
  rintro _ ⟨st', h', hw, ⟨rfl, -⟩ | ⟨fd, os₁, -, hle, os₂, -, rfl⟩⟩
  · exact ⟨hI.failed h' hw.fd, hw.filename⟩
  · exact ⟨hI.reopened os₂ h' hw.fd (by rwa [hw.filename]) hle, hw.filename⟩

theorem fileAccess (hI : Invariant I) (hshort : os.Short) (h : I none st) (hfile : file ≠ 0)
    (hname : st.filename file ≠ none) :
    Ends Unbroken (fileAccess os st file) fun r => I none r.2 := by
  refine (fileAccess_ends (fun _ => reopens_unbroken os) (fun _ h => hI.linked h) hI.evicts hI.victim
    hI.ignoresFailures hshort hfile h).mono (fun _ h => h) ?_
  rintro _ (⟨hopen, rfl⟩ | ⟨hclosed, st', h', hw, ⟨rfl, -⟩ | ⟨fd, os₁, -, hle, os₂, -, rfl⟩⟩)
  · exact hI.touched h (((hI.linked h).open_iff file).mpr hopen)
  · exact hI.failed h' hw.fd
  · exact hI.accessed (hI.reopened os₂ h' hw.fd (by rwa [hw.filename]) hle) (lru_cons rfl rfl)

theorem fileNameOpenFileAux {filename : FileName} {flags : OpenFlags} {mode : Nat} (hI : Invariant I)
    (hshort : os.Short) (h : I none st) :
    Ends Unbroken (fileNameOpenFileAux os st filename flags mode) fun r => I none r.2 := by
  refine (fileNameOpenFileAux_ends (I := fun file st => I (some file) st)
    (fun _ _ _ _ => ⟨nofun, nofun⟩) (fun _ => ⟨nofun, nofun⟩) (fun _ _ h => hI.linked h) (fun _ => hI.evicts) (fun _ => hI.victim)
    (fun _ => hI.ignoresFailures) hshort (fun file st' hl hkept _ _ _ => hI.allocated h hl hkept)
    (hI.linked h)).mono (fun _ h => h) ?_
  rintro _ ⟨file, st₀, -, -, -, -, st', h', hw, ⟨rfl, -⟩ | ⟨fd, os', -, hle, rfl⟩⟩
  · have hclosed : (st'.setFd file (-1)).fd file = VFD_CLOSED := Function.update_self _ _ _
    exact hI.freed (hI.failed h' hw.fd) hclosed (.inr rfl) fun i hi => Option.some.inj hi
  · exact hI.opened os' filename flags mode h' hw.fd hle

theorem fileNameOpenFile {filename : FileName} {flags : OpenFlags} {mode : Nat} (hI : Invariant I)
    (hshort : os.Short) (h : I none st) :
    Ends Unbroken (fileNameOpenFile os st filename flags mode) fun r => I none r.2 := by
  unfold PostgresV7.Fd.fileNameOpenFile
  refine Ends.bind (hI.fileNameOpenFileAux hshort h) ?_
  rintro ⟨file, st'⟩ h'
  dsimp only
  split
  · exact h'
  · exact ⟨nofun, nofun⟩

/-! ## Closing -/

theorem fileClose (hI : Invariant I) (h : I none st) :
    Ends Unbroken (fileClose os st file) fun st' => I none st' := by
  refine fileClose_ends.mono (fun _ h => h) ?_
  rintro _ ⟨hvalid, st₁, os', hclosed, hname, hst₁, rfl⟩
  have h₁ : I none st₁ := by
    rcases hst₁ with rfl | ⟨hopen, os₁, rfl⟩
    · exact h
    · exact hI.shut _ _ h (((hI.linked h).open_iff file).mpr hopen)
  have hname₁ : st₁.filename file ≠ none := by
    rw [hname]
    exact hvalid.2.2
  exact hI.freed (hI.quiet os' st₁.seekPos _ st₁.numAllocatedFiles h₁) hclosed (.inl hname₁)
    fun i hi => nomatch hi

theorem fileUnlink (hI : Invariant I) (h : I none st) :
    Ends Unbroken (fileUnlink os st file) fun st' => I none st' := by
  unfold PostgresV7.Fd.fileUnlink
  split
  · exact ⟨nofun, nofun⟩
  · exact hI.fileClose (hI.quiet st.os st.seekPos _ st.numAllocatedFiles h)

theorem releaseLruFile (hI : Invariant I) (h : I none st) :
    Ends Unbroken (releaseLruFile os st) fun r => I none r.2 :=
  (releaseLruFile_ends (fun _ h => hI.linked h) hI.evicts hI.victim h).mono
    (fun _ h => h) fun _ h => h.1

theorem closeAllVfds (hI : Invariant I) (h : I none st) :
    Ends Unbroken (closeAllVfds os st) fun st' => I none st' :=
  closeAllVfds_ends (fun _ h => hI.linked h) hI.evicts h

/-! ## Reading and seeking -/

theorem advance {count : Nat} (hI : Invariant I) (h : I limbo st) : I limbo (st.advance file count) :=
  hI.quiet st.os _ st.temporary st.numAllocatedFiles h

theorem fileRead {amount : Nat} (hI : Invariant I) (hshort : os.Short) (h : I none st) :
    Ends Unbroken (fileRead os st file amount) fun r => I none r.2 := by
  unfold PostgresV7.Fd.fileRead
  by_cases hvalid : FileIsValid st file
  · rw [if_neg (not_not.mpr hvalid)]
    refine Ends.bind (hI.fileAccess hshort h hvalid.ne_zero hvalid.2.2) ?_
    rintro ⟨code, st₁⟩ h₁
    refine Ends.bind (hI.sys h₁) ?_
    rintro ⟨bytes, st₂⟩ ⟨h₂, -⟩
    cases bytes <;> exact hI.advance h₂
  · rw [if_pos hvalid]
    exact ⟨nofun, nofun⟩

theorem seekFile {offset : Int} {whence : Whence} (hI : Invariant I) (h : I none st) :
    Ends Unbroken (seekFile os st file offset whence) fun st' => I none st' := by
  unfold PostgresV7.Fd.seekFile
  refine Ends.bind (hI.sys h) ?_
  rintro ⟨pos, st'⟩ ⟨h', -⟩
  exact hI.quiet st'.os _ st'.temporary st'.numAllocatedFiles h'

theorem seekClosed {offset : Int} {whence : Whence} (hI : Invariant I) (hshort : os.Short) (h : I none st)
    (hvalid : FileIsValid st file) :
    Ends Unbroken (seekClosed os st file offset whence) fun st' => I none st' := by
  unfold PostgresV7.Fd.seekClosed
  cases whence with
  | SEEK_SET =>
    dsimp only
    split
    · exact ⟨nofun, nofun⟩
    · exact hI.quiet st.os _ st.temporary st.numAllocatedFiles h
  | SEEK_CUR => exact hI.quiet st.os _ st.temporary st.numAllocatedFiles h
  | SEEK_END =>
    refine Ends.bind (hI.fileAccess hshort h hvalid.ne_zero hvalid.2.2) ?_
    rintro ⟨code, st₁⟩ h₁
    exact hI.seekFile h₁
  | invalid => exact ⟨nofun, nofun⟩

theorem seekOpen {offset : Int} {whence : Whence} (hI : Invariant I) (h : I none st) :
    Ends Unbroken (seekOpen os st file offset whence) fun st' => I none st' := by
  unfold PostgresV7.Fd.seekOpen
  cases whence with
  | SEEK_SET =>
    dsimp only
    split
    · exact ⟨nofun, nofun⟩
    · split
      · exact hI.seekFile h
      · exact h
  | SEEK_CUR =>
    dsimp only
    split
    · exact hI.seekFile h
    · exact h
  | SEEK_END => exact hI.seekFile h
  | invalid => exact ⟨nofun, nofun⟩

theorem fileSeek {offset : Int} {whence : Whence} (hI : Invariant I) (hshort : os.Short) (h : I none st) :
    Ends Unbroken (fileSeek os st file offset whence) fun r => I none r.2 := by
  unfold PostgresV7.Fd.fileSeek
  by_cases hvalid : FileIsValid st file
  · rw [if_neg (not_not.mpr hvalid)]
    split
    · exact Ends.bind (hI.seekClosed hshort h hvalid) fun st' h' => h'
    · exact Ends.bind (hI.seekOpen h) fun st' h' => h'
  · rw [if_pos hvalid]
    exact ⟨nofun, nofun⟩

theorem fileTruncate {offset : Int} (hI : Invariant I) (hshort : os.Short)
    (hsync : Ends Unbroken (PostgresV7.Fd.fileSync os st file) fun r =>
      I none r.2 ∧ r.2.filename = st.filename) :
    Ends Unbroken (fileTruncate os st file offset) fun r => I none r.2 := by
  unfold PostgresV7.Fd.fileTruncate
  by_cases hvalid : FileIsValid st file
  · rw [if_neg (not_not.mpr hvalid)]
    refine Ends.bind hsync ?_
    rintro ⟨code, st₁⟩ ⟨h₁, hname₁⟩
    dsimp only at hname₁
    have hname : st₁.filename file ≠ none := by
      rw [hname₁]
      exact hvalid.2.2
    refine Ends.bind (hI.fileAccess hshort h₁ hvalid.ne_zero hname) ?_
    rintro ⟨code', st₂⟩ h₂
    exact Ends.bind (hI.sys h₂) fun r h' => h'.1
  · rw [if_pos hvalid]
    exact ⟨nofun, nofun⟩

end Invariant

namespace WriteInvariant

/-! ## Writing and syncing -/

theorem fileWrite {buffer : List UInt8} (hI : WriteInvariant I) (hshort : os.Short)
    (h : I none st) :
    Ends Unbroken (fileWrite os st file buffer) fun r => I none r.2 := by
  unfold PostgresV7.Fd.fileWrite
  by_cases hvalid : FileIsValid st file
  · rw [if_neg (not_not.mpr hvalid)]
    refine Ends.bind (hI.fileAccess hshort h hvalid.ne_zero hvalid.2.2) ?_
    rintro ⟨code, st₁⟩ h₁
    refine Ends.bind (hI.sys h₁) ?_
    rintro ⟨count, st₂⟩ ⟨h₂, -⟩
    cases count with
    | none => exact hI.advance h₂
    | some count => exact hI.written (hI.advance h₂)
  · rw [if_pos hvalid]
    exact ⟨nofun, nofun⟩

theorem pgFsync (hI : WriteInvariant I) (h : I none st) :
    Ends Unbroken (pgFsync os st file) fun r => I none r.2 ∧ r.2.filename = st.filename := by
  refine (pgFsync_ends fun _ => show Unbroken .osFailed from ⟨nofun, nofun⟩).mono (fun _ h => h) ?_
  rintro _ ⟨done, os', -, rfl⟩
  refine ⟨?_, rfl⟩
  have hst := hI.system os' h
  split
  · exact hI.synced hst
  · exact hst

theorem fileSync (hI : WriteInvariant I) (hshort : os.Short) (h : I none st) :
    Ends Unbroken (fileSync os st file) fun r => I none r.2 ∧ r.2.filename = st.filename := by
  unfold PostgresV7.Fd.fileSync
  by_cases hvalid : FileIsValid st file
  · rw [if_neg (not_not.mpr hvalid)]
    split
    · exact ⟨h, rfl⟩
    · split
      · exact ⟨hI.cleaned h, rfl⟩
      · split
        · rename_i hclosed
          refine Ends.bind (hI.lruInsert hshort h hvalid.ne_zero hvalid.2.2 hclosed) ?_
          rintro ⟨code, st₁⟩ ⟨h₁, hname₁⟩
          dsimp only
          split
          · exact ⟨h₁, hname₁⟩
          · refine Ends.bind (hI.pgFsync h₁) ?_
            rintro ⟨done, st₂⟩ ⟨h₂, hname₂⟩
            dsimp only
            split
            · exact ⟨hI.cleaned h₂, hname₂.trans hname₁⟩
            · exact ⟨h₂, hname₂.trans hname₁⟩
        · exact ⟨h, rfl⟩
  · rw [if_pos hvalid]
    exact ⟨nofun, nofun⟩

theorem truncate {offset : Int} (hI : WriteInvariant I) (hshort : os.Short) (h : I none st) :
    Ends Unbroken (fileTruncate os st file offset) fun r => I none r.2 :=
  hI.fileTruncate hshort (hI.fileSync hshort h)

end WriteInvariant

end PostgresV7.Fd
