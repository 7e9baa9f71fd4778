import PostgresV7.Fd.FdRun
import PostgresV7.Fd.Trace

/-!
# Descriptors of any size (`fd.c`)

`open` returns an `int`, and the slot keeps a `signed short` of it. The value that was
kept tells whether the `open` worked, and is what all later calls are about.
-/

namespace PostgresV7.Fd

open Outcomes

variable {σ : Type} {os : Os σ} {st : FdState σ} {file : File} {allowed : Fault → Prop}
  {I : FdState σ → Prop}

/-- A descriptor fits the slot if it comes back out of it. -/
theorem toShort_eq_iff (n : Nat) : toShort n = n ↔ n ≤ 32767 := by
  constructor
  · intro h
    have hlt : Int.bmod (n : Int) (2 ^ 16) < (2 ^ 16 + 1) / 2 := Int.bmod_lt (by decide)
    unfold toShort at h
    omega
  · exact toShort_of_le

theorem fd_setFd (st : FdState σ) (file : File) (fd : Int) : (st.setFd file fd).fd file = toShort fd :=
  Function.update_self _ _ _

theorem toShort_minus : toShort (-1) = -1 := by decide

-- so that a comparison is never decided by running the conversion
seal toShort

/-! ## Reopening -/

/-- What all that is done to make room keeps. -/
structure Survives (os : Os σ) (allowed : Fault → Prop) (I : FdState σ → Prop) : Prop where
  releases : Releases os allowed I
  failure : ∀ filename flags mode, IgnoresFailures os I filename flags mode

/-- A descriptor is put in a slot whatever its size. If it is negative there, nothing more
is done with it. -/
def Narrowed (os : Os σ) (st : FdState σ) (file : File) (fd : Nat) (s : σ) (r : Int × FdState σ) : Prop :=
  (toShort fd < 0 ∧ r = (toShort fd, { st.setFd file fd with os := s })) ∨
  (0 ≤ toShort fd ∧ ∃ s', Restored os (toShort fd) (st.seekPos file) s s' ∧
    r = (0, st.entered file fd s' (.reopened file)))

/-- All that `lru_insert` does for a closed file, by what `open` returned. -/
def Outcome (os : Os σ) (I : FdState σ → Prop) (file : File) (r : Int × FdState σ) : Prop :=
  ∃ st, I st ∧ (r = (-1, st.setFd file (-1)) ∨ ∃ filename flags mode fd s,
    os.openFile filename flags mode st.os = some (.ok fd, s) ∧ Narrowed os st file fd s r)

theorem lruInsert_outcome (hI : Survives os allowed I) (hassert : allowed .assertion)
    (hreopen : allowed .reopenAssertion) (hos : allowed .osFailed) (hfile : file ≠ 0) (h : I st)
    (hclosed : st.fd file = VFD_CLOSED) : Ends allowed (lruInsert os st file) (Outcome os I file) := by
  unfold lruInsert
  rw [if_neg hfile, if_pos hclosed]
  refine Ends.bind (hI.releases.whileFull h (Nat.le_refl _)) ?_
  intro st₁ h₁
  refine Ends.bind (hI.releases.open (fun _ _ _ => hos) (hI.failure _ _ _) h₁ (Nat.le_refl _)) ?_
  rintro _ ⟨st₂, h₂, ⟨rfl, -⟩ | ⟨fd, s, hcall, rfl⟩⟩
  · have hneg : (st₂.setFd file (-1)).fd file = -1 :=
      (fd_setFd st₂ file (-1)).trans toShort_minus
    dsimp only
    rw [hneg, if_pos (by decide)]
    exact ⟨st₂, h₂, .inl rfl⟩
  · have hfd : (FdState.setFd { st₂ with os := s } file fd).fd file = toShort fd := fd_setFd _ file fd
    have houtcome : ∀ r, Narrowed os st₂ file fd s r → Outcome os I file r :=
      fun r hr => ⟨st₂, h₂, .inr ⟨_, _, _, fd, s, hcall, hr⟩⟩
    dsimp only
    rw [hfd]
    rcases Int.lt_or_le (toShort fd) 0 with hneg | hnonneg
    · rw [if_pos hneg]
      exact houtcome _ (.inl ⟨hneg, rfl⟩)
    · rw [if_neg (Int.not_lt.mpr hnonneg)]
      refine Ends.bind (restorePosition_ends ⟨⟨fun _ => hos, fun _ _ => hassert⟩, fun _ _ _ _ => hreopen⟩) ?_
      rintro _ ⟨s', rfl, hrestored⟩
      dsimp only at hrestored
      rw [hfd] at hrestored
      rw [insert_eq hfile]
      exact houtcome _ (.inr ⟨hnonneg, s', hrestored, rfl⟩)

/-! ## The descriptors that were opened -/

/-- The descriptors that `open` returned. -/
def opened (calls : List Syscall) : List Nat :=
  calls.filterMap fun
    | .openFile _ _ _ (.ok fd) => some fd
    | _ => none

theorem opened_append (calls calls' : List Syscall) :
    opened (calls ++ calls') = opened calls ++ opened calls' := List.filterMap_append

theorem opened_room {calls : List Syscall} (h : ∀ c ∈ calls, c.Room) : opened calls = [] := by
  apply List.filterMap_eq_nil_iff.mpr
  intro c hc
  have hroom := h c hc
  split
  · obtain ⟨errno, herr⟩ := hroom
    cases herr
  · rfl

/-- Room is made with the calls logged. -/
theorem room_survives (st₀ : FdState (σ × List Syscall)) :
    Survives os.traced (fun _ => True) (Adds Syscall.Room st₀) :=
  ⟨room_releases st₀, fun filename flags mode => room_ignoresFailures st₀ filename flags mode⟩

theorem Restored.adds {fd pos : Int} {s s' : σ × List Syscall} (h : Restored os.traced fd pos s s') :
    ∃ calls, s'.2 = s.2 ++ calls ∧ opened calls = [] := by
  unfold Restored at h
  split at h
  · exact ⟨[], by simp [h], rfl⟩
  · obtain ⟨p, hp⟩ := h
    exact ⟨_, (logged_eq_some hp).2, rfl⟩

/-- A file is opened again with a descriptor that fits, or with the wrong one, or not at all. -/
theorem lruInsert_opened {st : FdState (σ × List Syscall)} (hclosed : st.fd file = VFD_CLOSED) :
    Ends (fun _ => True) (lruInsert os.traced st file) fun r => ∃ calls, r.2.os.2 = st.os.2 ++ calls ∧
      (opened calls = [] ∨ ∃ n : Nat, opened calls = [n] ∧ r.2.fd file = toShort n ∧
        (toShort n < 0 → r.1 < 0) ∧ (0 ≤ toShort n → r.1 = 0)) := by
  by_cases hfile : file = 0
  · unfold lruInsert
    rw [if_pos hfile]
    trivial
  apply (lruInsert_outcome (room_survives st) trivial trivial trivial hfile (Adds.of_eq rfl) hclosed).mono
    (fun _ h => h)
  rintro r ⟨st₁, ⟨room, hroom, hall⟩, rfl | ⟨filename, flags, mode, n, s, hcall, hr⟩⟩
  · exact ⟨room, hroom, .inl (opened_room hall)⟩
  · have hopen := (logged_eq_some hcall).2
    rcases hr with ⟨hneg, rfl⟩ | ⟨hnonneg, s', hrestored, rfl⟩
    · refine ⟨room ++ [.openFile filename flags mode (.ok n)], by simp [hopen, hroom], .inr ⟨n, ?_, ?_⟩⟩
      · rw [opened_append, opened_room hall]
        rfl
      · exact ⟨Function.update_self _ _ _, fun _ => hneg, fun hnonneg => by omega⟩
    · obtain ⟨calls, hcalls, hnone⟩ := hrestored.adds
      refine ⟨room ++ .openFile filename flags mode (.ok n) :: calls, ?_, .inr ⟨n, ?_, ?_⟩⟩
      · simp [FdState.entered, hcalls, hopen, hroom]
      · rw [opened_append, opened_room hall, List.nil_append]
        exact congrArg (n :: ·) hnone
      · exact ⟨Function.update_self _ _ _, fun hneg => by omega, fun _ => rfl⟩

theorem allocateVfd_os {st : FdState σ} : Ends (fun _ => True) (allocateVfd st) fun r => r.2.os = st.os := by
  have hinit : (initVfdCache st).os = st.os := by
    unfold initVfdCache
    split <;> rfl
  unfold allocateVfd
  dsimp only
  split
  · split
    · exact hinit
    · trivial
  · exact hinit

theorem fileNameOpenFileAux_opened {st : FdState (σ × List Syscall)} {filename : FileName}
    {flags : OpenFlags} {mode : Nat} : Ends (fun _ => True)
      (fileNameOpenFileAux os.traced st filename flags mode) fun r => ∃ calls, r.2.os.2 = st.os.2 ++ calls ∧
        (opened calls = [] ∨ ∃ n : Nat, opened calls = [n] ∧ (toShort n < 0 → r.1 = none) ∧
          (0 ≤ toShort n → ∃ file, r.1 = some file ∧ r.2.fd file = toShort n)) := by
  unfold fileNameOpenFileAux
  apply Ends.bind allocateVfd_os
  rintro ⟨file, st₀⟩ hos
  have hI : Survives os.traced (fun _ => True) (Adds Syscall.Room st) := room_survives st
  apply Ends.bind (hI.releases.whileFull (Adds.of_eq hos) (Nat.le_refl _))
  intro st₁ h₁
  apply Ends.bind (basicOpenFile_opened h₁)
  rintro ⟨fd, st₂⟩ (⟨rfl, room, hroom, hall⟩ | ⟨n, rfl, room, hroom, hall⟩)
  · have hneg : (st₂.setFd file (-1)).fd file = -1 := (fd_setFd st₂ file (-1)).trans toShort_minus
    dsimp only
    rw [hneg, if_pos (by decide)]
    exact ⟨room, hroom, .inl (opened_room hall)⟩
  · have hopened : opened (room ++ [.openFile filename flags mode (.ok n)]) = [n] := by
      rw [opened_append, opened_room hall]
      rfl
    have hfd : (st₂.setFd file n).fd file = toShort n := fd_setFd st₂ file n
    dsimp only
    rw [hfd]
    rcases Int.lt_or_le (toShort n) 0 with hneg | hnonneg
    · rw [if_pos hneg]
      exact ⟨_, hroom, .inr ⟨n, hopened, fun _ => rfl, fun hnonneg => by omega⟩⟩
    · rw [if_neg (Int.not_lt.mpr hnonneg)]
      by_cases hfile : file = 0
      · unfold insert
        rw [if_pos hfile]
        trivial
      · rw [insert_eq hfile]
        exact ⟨_, hroom, .inr ⟨n, hopened, fun hneg => by omega, fun _ => ⟨file, rfl, hfd⟩⟩⟩

/-- What `open` returned is in the slot, and success is reported, exactly if it fits a
`signed short`; and so for a file that is opened again. -/
theorem opened_recorded_iff (os : Os σ) :
    (∀ (st st' : FdState (σ × List Syscall)) (filename : FileName) (flags : OpenFlags) (mode : Nat)
      (file : Option File) (calls : List Syscall),
      fileNameOpenFileAux os.traced st filename flags mode = .ok (file, st') →
      st'.os.2 = st.os.2 ++ calls →
      ((∀ n ∈ opened calls, ∃ i, file = some i ∧ st'.fd i = n) ↔ ∀ n ∈ opened calls, n ≤ 32767)) ∧
    ∀ (st st' : FdState (σ × List Syscall)) (file : File) (code : Int) (calls : List Syscall),
      st.fd file = VFD_CLOSED → lruInsert os.traced st file = .ok (code, st') →
      st'.os.2 = st.os.2 ++ calls →
      ((∀ n ∈ opened calls, code = 0 ∧ st'.fd file = n) ↔ ∀ n ∈ opened calls, n ≤ 32767) := by
  constructor
  · intro st st' filename flags mode file calls hrun hcalls
    obtain ⟨calls', hcalls', hopened⟩ := fileNameOpenFileAux_opened.of_ok hrun
    obtain rfl := List.append_cancel_left (hcalls.symm.trans hcalls')
    rcases hopened with hnone | ⟨n, hn, hneg, hnonneg⟩
    · simp [hnone]
    · simp only [hn, List.mem_singleton, forall_eq, ← toShort_eq_iff]
      constructor
      · intro hrecorded
        obtain ⟨i, rfl, hi⟩ := hrecorded
        rcases Int.lt_or_le (toShort n) 0 with hlt | hle
        · cases hneg hlt
        · obtain ⟨i', hsome, hi'⟩ := hnonneg hle
          obtain rfl := Option.some.inj hsome
          exact hi'.symm.trans hi
      · intro hfits
        obtain ⟨i, hsome, hi⟩ := hnonneg (by omega)
        exact ⟨i, hsome, hi.trans hfits⟩
  · intro st st' file code calls hclosed hrun hcalls
    obtain ⟨calls', hcalls', hopened⟩ := (lruInsert_opened hclosed).of_ok hrun
    obtain rfl := List.append_cancel_left (hcalls.symm.trans hcalls')
    rcases hopened with hnone | ⟨n, hn, hfd, -, hcode⟩
    · simp [hnone]
    · simp only [hn, List.mem_singleton, forall_eq, ← toShort_eq_iff]
      constructor
      · intro hrecorded
        exact hfd.symm.trans hrecorded.2
      · intro hfits
        exact ⟨hcode (by omega), hfd.trans hfits⟩

/-- A file is opened where `open` returns the descriptor it is told to. -/
def openAt (fd : Nat) : Except Fault (Option File × FdState (Kernel × List Syscall)) :=
  fileNameOpenFileAux (Kernel.os (fun _ => some fd) fun _ => 0).traced (FdState.init [] true (oneFile, []))
    ['/', 'a'] { access := .O_RDWR } 0

theorem openAt_three : ∃ st', openAt 3 = .ok (some 1, st') ∧ opened st'.os.2 = [3] := by
  have hrun : okAnd (openAt 3) (fun t => decide (t.1 = some 1 ∧ opened t.2.os.2 = [3])) = true := by
    decide +kernel
  obtain ⟨⟨_, st'⟩, hopen, htest⟩ := okAnd_iff.mp hrun
  obtain ⟨rfl, hcalls⟩ := of_decide_eq_true htest
  exact ⟨st', hopen, hcalls⟩

theorem opened_recorded_iff_example : ∃ st', openAt 3 = .ok (some 1, st') ∧
    ∀ n ∈ [3], ∃ i, some 1 = some i ∧ st'.fd i = (n : Nat) := by
  obtain ⟨st', hopen, hcalls⟩ := openAt_three
  refine ⟨st', hopen, ?_⟩
  have h := ((opened_recorded_iff _).1 _ st' _ _ _ _ st'.os.2 hopen (List.nil_append _).symm).mpr
  rw [hcalls] at h
  exact h (by simp)

/-- Descriptor `40000` is open, and the caller is told that there is none. -/
theorem opened_not_recorded : ∃ st', openAt 40000 = .ok (none, st') ∧ opened st'.os.2 = [40000] ∧
    (st'.os.1.table 40000).isSome := by
  have hrun : okAnd (openAt 40000) (fun t => decide (t.1 = none ∧ opened t.2.os.2 = [40000] ∧
      (t.2.os.1.table 40000).isSome = true)) = true := by decide +kernel
  obtain ⟨⟨_, st'⟩, hopen, htest⟩ := okAnd_iff.mp hrun
  obtain ⟨rfl, hcalls, htable⟩ := of_decide_eq_true htest
  exact ⟨st', hopen, hcalls, htable⟩

end PostgresV7.Fd
