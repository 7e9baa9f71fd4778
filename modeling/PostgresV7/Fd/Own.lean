import PostgresV7.Fd.Transfer
import PostgresV7.Lib.Simulation

/-!
# Runs against a descriptor for each file (`fd.c`)

In the model nothing is ever closed. The code returns the same bytes, counts and
positions as long as no bytes are transferred at a position that was marked unknown.
-/

namespace PostgresV7.Fd

open Outcomes Simulation

variable {st st' : FdState Kernel} {k k' : Kernel} {file : File} {pick : Kernel → Option Nat}
  {junk : Kernel → Int} {base : Nat → Prop}

/-- The operations where every file has a descriptor of its own, with the number of its
slot. No file is opened for appending. -/
def OwnStep (k : Kernel) : Op → Result → Kernel → Prop
  | .openFile filename flags _, .file (some file), k' =>
    k.table file = none ∧ flags.append = false ∧ k.openFile file filename flags = .ok k'
  | .read file amount, .bytes count buffer, k' =>
    count = buffer.length ∧ k.read file amount = some (buffer, k')
  | .write file buffer, .code count, k' => ∃ n : Nat, count = n ∧ k.write file buffer = some (n, k')
  | .seek file offset whence, .code pos, k' =>
    ∃ n : Nat, pos = n ∧ k.lseek file offset whence = some (n, k')
  | .releaseLru, .released _, k' => k' = k
  | .closeAll, .none, k' => k' = k
  | _, _, _ => False

/-- What the code copes with: an absolute name and a slot for it, a position that can be
reopened at, and a transfer at a position that is known, or of nothing. -/
def Manageable (st : FdState Kernel) : Op → Result → Prop
  | .openFile filename _ _, _ => filename.head? = some SEP_CHAR ∧ Roomy st
  | .read file _, .bytes _ buffer => Reopenable st file ∧ Known st file buffer.length
  | .write file buffer, _ => Reopenable st file ∧ Known st file buffer.length
  | .seek file _ .SEEK_END, _ => Reopenable st file
  | _, _ => True

/-- No file of the model is open for appending. -/
def NoAppend (k : Kernel) : Prop := ∀ i f, k.table i = some f → f.append = false

theorem NoAppend.update {f' : OpenFile} (h : NoAppend k)
    (hk : k'.table = Function.update k.table file (some f')) (happend : f'.append = false) : NoAppend k' := by
  intro i g hg
  rw [hk] at hg
  by_cases hi : i = file
  · rw [hi, Function.update_self] at hg
    rwa [← Option.some.inj hg]
  · rw [Function.update_of_ne hi] at hg
    exact h i g hg

/-- The model determines the result, but for the number of a slot and whether anything
was there to evict. -/
theorem OwnStep.unique {op : Op} {r r' : Result} {k₁ k₂ : Kernel} (h : OwnStep k op r k₁)
    (h' : OwnStep k op r' k₂) (hop : ∀ filename flags mode, op ≠ .openFile filename flags mode)
    (hevict : op ≠ .releaseLru) : r = r' ∧ k₁ = k₂ := by
  cases op with
  | openFile filename flags mode => exact absurd rfl (hop filename flags mode)
  | releaseLru => exact absurd rfl hevict
  | read file amount =>
    cases r <;> cases r' <;> first | exact h.elim | exact h'.elim | skip
    obtain ⟨rfl, hread⟩ := h
    obtain ⟨rfl, hread'⟩ := h'
    obtain ⟨rfl, rfl⟩ := Prod.mk.inj (Option.some.inj (hread.symm.trans hread'))
    exact ⟨rfl, rfl⟩
  | write file buffer =>
    cases r <;> cases r' <;> first | exact h.elim | exact h'.elim | skip
    obtain ⟨n, rfl, hwrite⟩ := h
    obtain ⟨n', rfl, hwrite'⟩ := h'
    obtain ⟨rfl, rfl⟩ := Prod.mk.inj (Option.some.inj (hwrite.symm.trans hwrite'))
    exact ⟨rfl, rfl⟩
  | seek file offset whence =>
    cases r <;> cases r' <;> first | exact h.elim | exact h'.elim | skip
    obtain ⟨n, rfl, hseek⟩ := h
    obtain ⟨n', rfl, hseek'⟩ := h'
    obtain ⟨rfl, rfl⟩ := Prod.mk.inj (Option.some.inj (hseek.symm.trans hseek'))
    exact ⟨rfl, rfl⟩
  | closeAll =>
    cases r <;> cases r' <;> first | exact h.elim | exact h'.elim | skip
    exact ⟨rfl, h.trans h'.symm⟩
  | close | unlink | sync | truncate | markDirty | endXact => exact h.elim

/-- A slot and the descriptor of its number do the same. -/
def Own (base : Nat → Prop) (st : FdState Kernel) (k : Kernel) : Prop := Sim base st k none ∧ NoAppend k

theorem openFile_own {filename : FileName} {flags : OpenFlags} {mode : Nat}
    (hpick : Kernel.Picks pick 32767) (h : Own base st k) (happend : flags.append = false)
    (hwithin : filename.head? = some SEP_CHAR ∧ Roomy st) :
    Ends OsFailed (step (Kernel.os pick junk) st (.openFile filename flags mode)) fun r =>
      ∃ k', OwnStep k (.openFile filename flags mode) r.1 k' ∧ Own base r.2 k' := by
  refine Ends.bind (fileNameOpenFile_sim hpick exhausts_osFailed (fun _ _ _ => rfl) h.1 hwithin.2 hwithin.1) ?_
  rintro ⟨_, st'⟩ ⟨file, k', rfl, hfree, hopen, hsim⟩
  obtain ⟨f, hf⟩ := Kernel.openFile_opens hopen
  exact ⟨k', ⟨hfree, happend, hopen⟩, hsim, h.2.update hf.table (hf.append.trans happend)⟩

theorem read_own {file amount : Nat} {bytes : List UInt8} (hpick : Kernel.Picks pick 32767)
    (h : Own base st k) (hread : k.read file amount = some (bytes, k'))
    (hwithin : Reopenable st file ∧ Known st file bytes.length) :
    Ends OsFailed (step (Kernel.os pick junk) st (.read file amount)) fun r =>
      ∃ k', OwnStep k (.read file amount) r.1 k' ∧ Own base r.2 k' := by
  refine Ends.bind (fileRead_sim hpick exhausts_osFailed h.1 hread hwithin.1 hwithin.2) ?_
  rintro ⟨_, st'⟩ ⟨rfl, hsim, -⟩
  obtain ⟨f, hf, -⟩ := Option.bind_eq_some_iff.mp hread
  obtain ⟨-, -, hk⟩ := Kernel.read_eq hf hread
  exact ⟨k', ⟨rfl, hread⟩, hsim, h.2.update (congrArg Kernel.table hk) (h.2 file f hf)⟩

theorem write_own {buffer : List UInt8} {n : Nat} (hpick : Kernel.Picks pick 32767) (h : Own base st k)
    (hwrite : k.write file buffer = some (n, k'))
    (hwithin : Reopenable st file ∧ Known st file buffer.length) :
    Ends OsFailed (step (Kernel.os pick junk) st (.write file buffer)) fun r =>
      ∃ k', OwnStep k (.write file buffer) r.1 k' ∧ Own base r.2 k' := by
  obtain ⟨f, hf, -⟩ := Option.bind_eq_some_iff.mp hwrite
  obtain ⟨-, hcount, -, hk⟩ := Kernel.write_eq hf (h.2 file f hf) hwrite
  have hknown : Known st file n := hcount ▸ hwithin.2
  refine Ends.bind (fileWrite_sim hpick exhausts_osFailed h.1 hf (h.2 file f hf) hwrite hwithin.1 hknown) ?_
  rintro ⟨_, st'⟩ ⟨rfl, hsim, -⟩
  refine ⟨k', ⟨n, rfl, hwrite⟩, hsim, ?_⟩
  split at hk
  · rw [hk]
    exact h.2
  · exact h.2.update (congrArg Kernel.table hk) (h.2 file f hf)

theorem seek_own {offset : Int} {whence : Whence} {n : Nat} (hpick : Kernel.Picks pick 32767)
    (h : Own base st k) (hseek : k.lseek file offset whence = some (n, k'))
    (hwithin : whence = .SEEK_END → Reopenable st file) :
    Ends OsFailed (step (Kernel.os pick junk) st (.seek file offset whence)) fun r =>
      ∃ k', OwnStep k (.seek file offset whence) r.1 k' ∧ Own base r.2 k' := by
  refine Ends.bind (fileSeek_sim hpick exhausts_osFailed h.1 hseek hwithin) ?_
  rintro ⟨_, st'⟩ ⟨rfl, -, hsim, -⟩
  obtain ⟨f, hf, -⟩ := Option.bind_eq_some_iff.mp hseek
  obtain ⟨start, -, -, -, hk⟩ := Kernel.lseek_eq hf hseek
  exact ⟨k', ⟨n, rfl, hseek⟩, hsim, h.2.update (congrArg Kernel.table hk) (h.2 file f hf)⟩

/-- Every operation that the model can do is done with a result of the model. -/
theorem step_own (hpick : Kernel.Picks pick 32767) :
    Simulates (step (Kernel.os pick junk)) OwnStep Manageable OsFailed (Own base) := by
  intro st k op result k' h hmodel hwithin
  cases op with
  | openFile filename flags mode =>
    cases result with
    | file file =>
      cases file with
      | some file => exact openFile_own hpick h hmodel.2.1 hwithin
      | none => exact hmodel.elim
    | none | code | bytes | released => exact hmodel.elim
  | read file amount =>
    cases result with
    | bytes count buffer => exact read_own hpick h hmodel.2 hwithin
    | none | code | file | released => exact hmodel.elim
  | write file buffer =>
    cases result with
    | code count =>
      obtain ⟨n, -, hwrite⟩ := hmodel
      exact write_own hpick h hwrite hwithin
    | none | bytes | file | released => exact hmodel.elim
  | seek file offset whence =>
    cases result with
    | code pos =>
      obtain ⟨n, -, hseek⟩ := hmodel
      refine seek_own hpick h hseek ?_
      rintro rfl
      exact hwithin
    | none | bytes | file | released => exact hmodel.elim
  | releaseLru =>
    refine Ends.bind (releaseLruFile_ends (fun _ h => Sim.linked h) sim_evicts
      sim_ignoresVictims h.1) fun r h' => ?_
    exact ⟨k, rfl, h'.1, h.2⟩
  | closeAll =>
    refine Ends.bind (closeAllVfds_ends (fun _ h => Sim.linked h) sim_evicts h.1) fun st' h' => ?_
    exact ⟨k, rfl, h', h.2⟩
  | close | unlink | sync | truncate | markDirty | endXact => exact hmodel.elim

/-- The model has the files of the system, and no descriptors yet. -/
def noDescriptors (s : Kernel) : Kernel := { s with table := fun _ => none }

theorem init_own (databasePath : FileName) (enableFsync : Bool) (s : Kernel)
    (hsizes : ∀ inode, (s.data inode).length ≤ maxOffset) :
    Own (fun d => s.table d ≠ none) (FdState.init databasePath enableFsync s) (noDescriptors s) :=
  ⟨⟨(init_steady databasePath enableFsync s).linked, rfl, rfl, rfl, fun _ hi => absurd rfl hi,
    fun _ _ => rfl, fun _ hi => absurd rfl hi, fun _ _ hi => absurd rfl hi, fun _ => .inl, hsizes, Nat.two_pow_pos 31⟩, nofun⟩

/-- In any order of opens, reads, writes, seeks and evictions, on any number of files, as
long as the model can do the operations and they are manageable, the code returns what
the model returns. -/
theorem fd_run_own (hpick : Kernel.Picks pick 32767) (ops : List Op) (databasePath : FileName)
    (enableFsync : Bool) (s : Kernel) (hsizes : ∀ inode, (s.data inode).length ≤ maxOffset) :
    Follows (step (Kernel.os pick junk)) OwnStep Manageable OsFailed ops
      (FdState.init databasePath enableFsync s) (noDescriptors s) :=
  (step_own hpick).follows (init_own databasePath enableFsync s hsizes)

theorem lowestFree_short : Kernel.Picks (lowestFree 0 256) 32767 := by
  intro k d h
  obtain ⟨hfree, hle⟩ := lowestFree_picks 0 256 k d h
  exact ⟨hfree, Nat.le_trans hle (by decide)⟩

/-- A file that is written, evicted in the middle, and read to its end. -/
def evictedReads : List Op :=
  [.openFile ['/', 'a'] { access := .O_RDWR } 0, .write 1 [7, 8, 9], .releaseLru, .seek 1 (-2) .SEEK_CUR,
    .read 1 1, .closeAll, .read 1 1, .read 1 1, .seek 1 0 .SEEK_END]

theorem fd_run_own_example :
    (run (Kernel.os (lowestFree 0 256) fun _ => 0) evictedReads (FdState.init ['/'] true oneFile)).map
      (·.1) = .ok [.file (some 1), .code 3, .released true, .code 1, .bytes 1 [8], .none, .bytes 1 [9],
        .bytes 0 [], .code 3] ∧
    Follows (step (Kernel.os (lowestFree 0 256) fun _ => 0)) OwnStep Manageable OsFailed evictedReads
      (FdState.init ['/'] true oneFile) (noDescriptors oneFile) := by
  have hsizes : ∀ inode, (oneFile.data inode).length ≤ maxOffset := fun inode => Nat.zero_le _
  exact ⟨by decide +kernel, fd_run_own lowestFree_short evictedReads ['/'] true oneFile hsizes⟩

/-- An empty file is read, two bytes are written to it, and its position is asked for: it
is `2`, and the code says `1`. -/
theorem fd_run_own_stale :
    (run (Kernel.os (lowestFree 0 256) fun _ => 0)
      [.openFile ['/', 'a'] { access := .O_RDWR } 0, .read 1 1, .write 1 [7, 8], .seek 1 0 .SEEK_CUR]
      (FdState.init ['/'] true oneFile)).map (·.1) =
        .ok [.file (some 1), .bytes 0 [], .code 2, .code 1] ∧
    ∃ k₁ k₂ k₃ k₄, OwnStep (noDescriptors oneFile) (.openFile ['/', 'a'] { access := .O_RDWR } 0)
      (.file (some 1)) k₁ ∧ OwnStep k₁ (.read 1 1) (.bytes 0 []) k₂ ∧
      OwnStep k₂ (.write 1 [7, 8]) (.code 2) k₃ ∧ OwnStep k₃ (.seek 1 0 .SEEK_CUR) (.code 2) k₄ := by
  have hpos : (⟨0, 2, .O_RDWR, false⟩ : OpenFile).pos ≤ maxOffset := by decide
  exact ⟨by decide +kernel, _, _, _, _, ⟨rfl, rfl, rfl⟩, ⟨rfl, rfl⟩, ⟨2, rfl, rfl⟩, 2, rfl,
    Kernel.lseek_current rfl hpos⟩

end PostgresV7.Fd
