import PostgresV7.Fd.FdRun
import PostgresV7.Fd.Trace
import PostgresV7.Smgr.Md

/-!
# Writing blind (`md.c`)

`md_blind_wrt` has no relation to go by. It opens the file of the segment itself, and
nothing in it looks at `do_fsync`.
-/

namespace PostgresV7.Md

open Outcomes Fd Smgr

variable {σ : Type} {os : Os σ}

/-- `md_blind_wrt`. -/
def mdBlindWrt (os : Os σ) (dataDir : FileName) (st : FdState σ) (rnode : RelFileNode)
    (blockNum : BlockNumber) (buffer : Block) (_doFsync : Bool) :
    Except Fd.Fault (Status × FdState σ) := do
  let path := mdFdBlindGetSeg dataDir rnode blockNum
  let (fd, st) ← basicOpenFile os path RDWR fileMode st.nFile st
  if fd < 0 then .ok (.SM_FAIL, st)
  else
    let (pos, st) ← st.sys (os.lseek fd (seekPos blockNum) .SEEK_SET)
    if pos ≠ some (seekPos blockNum) then
      let (_, st) ← st.sys (os.close fd)
      .ok (.SM_FAIL, st)
    else
      let (nbytes, st) ← st.sys (os.write fd buffer.bytes)
      let (closed, st) ← st.sys (os.close fd)
      .ok (if nbytes = some BLCKSZ ∧ closed then .SM_SUCCESS else .SM_FAIL, st)

/-! ## What is asked of it -/

/-- Where `md_flush` writes a block, whatever segments of the relation are open. -/
def FlushAddress (dataDir : FileName) (rnode : RelFileNode) (blockNum : BlockNumber)
    (path : FileName) (pos : Nat) : Prop :=
  pos = seekPos blockNum ∧ ∀ opens chain found chain', Numbered dataDir rnode 1 chain →
    Smgr.mdFdGetSeg opens dataDir rnode chain blockNum = some (found, chain') → path = found

/-- All bytes are written at a place, and `after` is what is done next. -/
def WrittenAt (path : FileName) (pos : Nat) (buffer : List UInt8) (fd : Nat)
    (calls after : List Syscall) : Prop :=
  ∃ before, calls = before ++ .openFile path RDWR fileMode (.ok fd) ::
    .lseek fd pos .SEEK_SET (some pos) :: .write fd buffer (some BLCKSZ) :: after

/-- A block is written and synced if that is reported, and no descriptor is lost. -/
structure BlindWritten (dataDir : FileName) (rnode : RelFileNode) (blockNum : BlockNumber)
    (buffer : Block) (sync : Prop) (status : Status) (calls : List Syscall) : Prop where
  written : status = .SM_SUCCESS → ∃ path pos fd after,
    FlushAddress dataDir rnode blockNum path pos ∧ WrittenAt path pos buffer.bytes fd calls after ∧
      (sync → .fsync fd true ∈ after)
  closed : ∀ before filename flags mode fd after,
    calls = before ++ .openFile filename flags mode (.ok fd) :: after → ∃ done, .close fd done ∈ after

/-- The operating system opens the file, and seeks, writes and closes as it is told. -/
def AllSucceed (os : Os σ) (st : FdState σ) (path : FileName) (pos : Nat) (buffer : List UInt8) : Prop :=
  ∃ (fd : Nat) (st₁ : FdState σ) (s₂ s₃ s₄ : σ),
    basicOpenFile os path RDWR fileMode st.nFile st = .ok (fd, st₁) ∧
    os.lseek fd pos .SEEK_SET st₁.os = some (some pos, s₂) ∧
    os.write fd buffer s₂ = some (some BLCKSZ, s₃) ∧ os.close fd s₃ = some (true, s₄)

/-! ## The calls -/

variable {dataDir : FileName} {st : FdState (σ × List Syscall)} {rnode : RelFileNode}
  {blockNum : BlockNumber} {buffer : Block} {doFsync : Bool}

/-- Not an `open` that works. -/
def NotOpened (c : Syscall) : Prop := ∀ filename flags mode fd, c ≠ .openFile filename flags mode (.ok fd)

theorem room_notOpened {c : Syscall} (h : c.Room) : NotOpened c := by
  intro filename flags mode fd hc
  obtain ⟨errno, herr⟩ := hc ▸ h
  cases herr

/-- The one `open` that works. -/
theorem opened_once {room tail before after : List Syscall} {c : Syscall} {filename : FileName}
    {flags : OpenFlags} {mode fd : Nat} (hroom : ∀ c ∈ room, c.Room) (htail : ∀ c ∈ tail, NotOpened c)
    (h : room ++ c :: tail = before ++ .openFile filename flags mode (.ok fd) :: after) :
    c = .openFile filename flags mode (.ok fd) ∧ tail = after := by
  have hnotroom : .openFile filename flags mode (.ok fd) ∉ room :=
    fun hmem => room_notOpened (hroom _ hmem) _ _ _ _ rfl
  have hnottail : .openFile filename flags mode (.ok fd) ∉ tail :=
    fun hmem => htail _ hmem _ _ _ _ rfl
  exact ((List.append_cons_inj_of_notMem hnotroom hnottail).mp h).2

theorem flushAddress : FlushAddress dataDir rnode blockNum (mdFdBlindGetSeg dataDir rnode blockNum)
    (seekPos blockNum) :=
  ⟨rfl, fun _ _ _ _ hnum hseg => (mdFdGetSeg_spec hnum hseg).1.symm⟩

/-- What is done with the descriptor. -/
inductive BlindCalls (fd : Nat) (pos : Nat) (buffer : List UInt8) : Status → List Syscall → Prop where
  | seekFails (p : Option Nat) (done : Bool) : p ≠ some pos →
      BlindCalls fd pos buffer .SM_FAIL [.lseek fd pos .SEEK_SET p, .close fd done]
  | writeFails (n : Option Nat) (done : Bool) : ¬ (n = some BLCKSZ ∧ done) →
      BlindCalls fd pos buffer .SM_FAIL
        [.lseek fd pos .SEEK_SET (some pos), .write fd buffer n, .close fd done]
  | written : BlindCalls fd pos buffer .SM_SUCCESS
      [.lseek fd pos .SEEK_SET (some pos), .write fd buffer (some BLCKSZ), .close fd true]

/-- A call that is logged. -/
theorem sys_logged {α : Type} {call : σ → Option (α × σ)} {entry : α → Syscall} :
    Ends (fun _ => True) (st.sys (logged call entry)) fun r => r.2.os.2 = st.os.2 ++ [entry r.1] := by
  unfold FdState.sys
  split
  · rename_i a s heq
    exact (logged_eq_some heq).2
  · trivial

theorem mdBlindWrt_calls : Ends (fun _ => True)
    (mdBlindWrt os.traced dataDir st rnode blockNum buffer doFsync) fun r =>
      (r.1 = .SM_FAIL ∧ Adds Syscall.Room st r.2) ∨ ∃ fd room tail,
        r.2.os.2 = st.os.2 ++ (room ++ .openFile (mdFdBlindGetSeg dataDir rnode blockNum) RDWR fileMode
          (.ok fd) :: tail) ∧ (∀ c ∈ room, c.Room) ∧
        BlindCalls fd (seekPos blockNum) buffer.bytes r.1 tail := by
  unfold mdBlindWrt
  apply Ends.bind (basicOpenFile_opened (Adds.of_eq rfl))
  rintro ⟨fd, st₁⟩ hopened
  rcases hopened with ⟨rfl, hroom⟩ | ⟨fd, rfl, room, hcalls, hroom⟩
  · exact .inl ⟨rfl, hroom⟩
  · have hfd : ¬ (fd : Int) < 0 := by omega
    simp only [if_neg hfd]
    apply Ends.bind sys_logged
    rintro ⟨pos, st₂⟩ hseek
    by_cases hpos : pos = some (seekPos blockNum)
    · simp only [hpos, ne_eq, not_true_eq_false, if_false]
      apply Ends.bind sys_logged
      rintro ⟨nbytes, st₃⟩ hwrite
      apply Ends.bind sys_logged
      rintro ⟨closed, st₄⟩ hclose
      have htail : st₄.os.2 = st.os.2 ++ (room ++ .openFile (mdFdBlindGetSeg dataDir rnode blockNum) RDWR
          fileMode (.ok fd) :: [.lseek fd (seekPos blockNum) .SEEK_SET pos,
            .write fd buffer.bytes nbytes, .close fd closed]) := by
        dsimp only at hcalls hseek hwrite hclose
        simp [hclose, hwrite, hseek, hcalls]
      refine .inr ⟨fd, room, _, htail, hroom, ?_⟩
      rw [hpos]
      by_cases hdone : nbytes = some BLCKSZ ∧ closed = true
      · rw [if_pos hdone, hdone.1, hdone.2]
        exact .written
      · rw [if_neg hdone]
        exact .writeFails nbytes closed hdone
    · simp only [hpos, ne_eq, not_false_eq_true, if_true]
      apply Ends.bind sys_logged
      rintro ⟨closed, st₃⟩ hclose
      have htail : st₃.os.2 = st.os.2 ++ (room ++ .openFile (mdFdBlindGetSeg dataDir rnode blockNum) RDWR
          fileMode (.ok fd) :: [.lseek fd (seekPos blockNum) .SEEK_SET pos, .close fd closed]) := by
        dsimp only at hcalls hseek hclose
        simp [hclose, hseek, hcalls]
      exact .inr ⟨fd, room, _, htail, hroom, .seekFails pos closed hpos⟩

theorem mdBlindWrt_success {os : Os σ} {st : FdState σ} : Ends (fun _ => True)
    (mdBlindWrt os dataDir st rnode blockNum buffer doFsync) fun r => r.1 = .SM_SUCCESS ↔
      AllSucceed os st (mdFdBlindGetSeg dataDir rnode blockNum) (seekPos blockNum) buffer.bytes := by
  unfold mdBlindWrt
  apply Ends.bind (ends_ran _)
  rintro ⟨fd, st₁⟩ hopen
  by_cases hfd : fd < 0
  · simp only [if_pos hfd]
    refine iff_of_false nofun ?_
    intro h
    obtain ⟨fd', st', s₂, s₃, s₄, heq, -⟩ := h
    obtain ⟨rfl, -⟩ := Prod.mk.inj (Except.ok.inj (hopen.symm.trans heq))
    omega
  obtain ⟨fd, rfl⟩ := Int.eq_ofNat_of_zero_le (Int.not_lt.mp hfd)
  -- the rest goes on with the descriptor and the state that were returned
  have hall : AllSucceed os st (mdFdBlindGetSeg dataDir rnode blockNum) (seekPos blockNum) buffer.bytes ↔
      ∃ s₂ s₃ s₄, os.lseek fd (seekPos blockNum) .SEEK_SET st₁.os = some (some (seekPos blockNum), s₂) ∧
        os.write fd buffer.bytes s₂ = some (some BLCKSZ, s₃) ∧ os.close fd s₃ = some (true, s₄) := by
    constructor
    · intro h
      obtain ⟨fd', st', s₂, s₃, s₄, heq, hrest⟩ := h
      obtain ⟨hfd', rfl⟩ := Prod.mk.inj (Except.ok.inj (hopen.symm.trans heq))
      rw [hfd']
      exact ⟨s₂, s₃, s₄, hrest⟩
    · intro h
      obtain ⟨s₂, s₃, s₄, hrest⟩ := h
      exact ⟨fd, st₁, s₂, s₃, s₄, hopen, hrest⟩
  rw [hall]
  simp only [if_neg hfd]
  apply Ends.bind (sys_ends fun _ => trivial)
  rintro _ ⟨pos, s₂, hseek, rfl⟩
  by_cases hpos : pos = some (seekPos blockNum)
  · simp only [hpos, ne_eq, not_true_eq_false, if_false]
    apply Ends.bind (sys_ends fun _ => trivial)
    rintro _ ⟨nbytes, s₃, hwrite, rfl⟩
    apply Ends.bind (sys_ends fun _ => trivial)
    rintro _ ⟨closed, s₄, hclose, rfl⟩
    dsimp only at hseek hwrite hclose
    show (if nbytes = some BLCKSZ ∧ closed = true then Status.SM_SUCCESS else .SM_FAIL) = .SM_SUCCESS ↔ _
    simp [hseek, hpos, hwrite, hclose]
  · simp only [hpos, ne_eq, not_false_eq_true, if_true]
    apply Ends.bind (sys_ends fun _ => trivial)
    rintro _ ⟨closed, s₃, hclose, rfl⟩
    refine iff_of_false nofun ?_
    simp [hseek, hpos]

/-! ## The claim -/

theorem BlindCalls.notOpened {fd pos : Nat} {bytes : List UInt8} {status : Status} {tail : List Syscall}
    (h : BlindCalls fd pos bytes status tail) : ∀ c ∈ tail, NotOpened c := by
  cases h <;> simp [NotOpened]

theorem BlindCalls.closes {fd pos : Nat} {bytes : List UInt8} {status : Status} {tail : List Syscall}
    (h : BlindCalls fd pos bytes status tail) : ∃ done, .close fd done ∈ tail := by
  cases h <;> simp

/-- A block is where `md_flush` would write it, and the descriptor is closed. It is synced
exactly if no success is reported, or nobody asked for it. -/
theorem mdBlindWrt_synced_iff {status : Status} {st' : FdState (σ × List Syscall)} {calls : List Syscall}
    (hrun : mdBlindWrt os.traced dataDir st rnode blockNum buffer doFsync = .ok (status, st'))
    (hcalls : st'.os.2 = st.os.2 ++ calls) :
    BlindWritten dataDir rnode blockNum buffer (st.enableFsync = true ∧ doFsync = true) status calls ↔
      ¬ (st.enableFsync = true ∧ doFsync = true ∧
        AllSucceed os.traced st (mdFdBlindGetSeg dataDir rnode blockNum) (seekPos blockNum)
          buffer.bytes) := by
  have hsuccess := mdBlindWrt_success.of_ok hrun
  have hmade := mdBlindWrt_calls.of_ok hrun
  rw [← hsuccess]
  dsimp only at hmade ⊢
  rw [hcalls] at hmade
  rcases hmade with ⟨rfl, room, hadds, hall⟩ | ⟨fd, room, tail, htail, hroom, hblind⟩
  · obtain rfl := List.append_cancel_left (hcalls.symm.trans hadds)
    refine iff_of_true ⟨nofun, ?_⟩ (by simp)
    intro before filename flags mode fd after hsplit
    have hmem : .openFile filename flags mode (.ok fd) ∈ calls := by simp [hsplit]
    exact absurd rfl (room_notOpened (hall _ hmem) _ _ _ _)
  · obtain rfl := List.append_cancel_left htail
    have hclosed : ∀ before filename flags mode fd' after, room ++ .openFile
        (mdFdBlindGetSeg dataDir rnode blockNum) RDWR fileMode (.ok fd) :: tail =
          before ++ .openFile filename flags mode (.ok fd') :: after → ∃ done, .close fd' done ∈ after := by
      intro before filename flags mode fd' after hsplit
      obtain ⟨hsame, rfl⟩ := opened_once hroom hblind.notOpened hsplit
      obtain ⟨-, -, -, hfd⟩ := Syscall.openFile.inj hsame
      obtain rfl := Except.ok.inj hfd
      exact hblind.closes
    constructor
    · intro h hasked
      obtain ⟨henabled, hdo, hstatus⟩ := hasked
      cases hblind with
      | seekFails => cases hstatus
      | writeFails => cases hstatus
      | written =>
        obtain ⟨path, pos, fd', after, -, ⟨before, hwritten⟩, hsync⟩ := h.written rfl
        obtain ⟨-, hafter⟩ := opened_once hroom BlindCalls.written.notOpened hwritten
        obtain ⟨-, -, rfl⟩ := by simpa using hafter
        simpa using hsync ⟨henabled, hdo⟩
    · intro hnot
      refine ⟨?_, hclosed⟩
      intro hstatus
      cases hblind with
      | seekFails => cases hstatus
      | writeFails => cases hstatus
      | written =>
        exact ⟨_, _, fd, _, flushAddress, ⟨room, rfl⟩, fun hsync => absurd ⟨hsync.1, hsync.2, rfl⟩ hnot⟩

/-- A system with the one segment of a relation. -/
def oneSegment : Kernel where
  directory filename := if filename = "/d/base/1/2".toList then some 0 else none
  data _ := []
  nextInode := 1
  table _ := none

/-- Its calls, with all of them logged. -/
def tracedKernel : Os (Kernel × List Syscall) :=
  (Kernel.os (lowestFree 3 61) fun _ => 0).traced

def blankBlock : Block := ⟨List.replicate BLCKSZ 0, List.length_replicate⟩

/-- The first block of the relation is written blind. -/
def blindZeros (doFsync : Bool) : Except Fd.Fault (Status × FdState (Kernel × List Syscall)) :=
  mdBlindWrt tracedKernel "/d".toList (FdState.init [] true (oneSegment, [])) ⟨1, 2⟩ 0 blankBlock doFsync

def Syscall.isFsync : Syscall → Bool
  | .fsync _ _ => true
  | _ => false

theorem blindZeros_calls (doFsync : Bool) : ∃ st', blindZeros doFsync = .ok (.SM_SUCCESS, st') ∧
    st'.os.2.any Syscall.isFsync = false := by
  have hrun : okAnd (blindZeros doFsync) (fun t =>
      decide (t.1 = .SM_SUCCESS ∧ t.2.os.2.any Syscall.isFsync = false)) = true := by
    cases doFsync <;> decide +kernel
  obtain ⟨⟨_, st'⟩, hblind, htest⟩ := okAnd_iff.mp hrun
  obtain ⟨rfl, hcalls⟩ := of_decide_eq_true htest
  exact ⟨st', hblind, hcalls⟩

theorem mdBlindWrt_synced_iff_example : ∃ st', blindZeros false = .ok (.SM_SUCCESS, st') ∧
    BlindWritten "/d".toList ⟨1, 2⟩ 0 blankBlock (true = true ∧ false = true) .SM_SUCCESS st'.os.2 := by
  obtain ⟨st', hrun, -⟩ := blindZeros_calls false
  exact ⟨st', hrun, (mdBlindWrt_synced_iff hrun (List.nil_append _).symm).mpr (by simp)⟩

/-- The block is to be synced and is not, and success is reported. -/
theorem mdBlindWrt_not_synced : ∃ st', blindZeros true = .ok (.SM_SUCCESS, st') ∧
    ¬ BlindWritten "/d".toList ⟨1, 2⟩ 0 blankBlock (true = true ∧ true = true) .SM_SUCCESS st'.os.2 := by
  obtain ⟨st', hrun, hcalls⟩ := blindZeros_calls true
  refine ⟨st', hrun, ?_⟩
  intro h
  obtain ⟨path, pos, fd, after, -, ⟨before, hwritten⟩, hsync⟩ := h.written rfl
  have hmem : .fsync fd true ∈ st'.os.2 := by simp [hwritten, hsync]
  exact Bool.false_ne_true (hcalls.symm.trans (List.any_eq_true.mpr ⟨_, hmem, rfl⟩))

end PostgresV7.Md
