import PostgresV7.Fd.FdRun

/-!
# A descriptor for each virtual file (`fd.c`)

The virtual files behave like files that have a descriptor of their own, which stays
open. In that model the number of the slot is the descriptor. A slot whose file is
closed keeps the position, and an open one may know it.
-/

namespace PostgresV7.Fd

open Recency Outcomes

variable {st st' : FdState Kernel} {k k' : Kernel} {file i : File} {limbo : Option File}
  {f f' : OpenFile} {pick : Kernel → Option Nat} {junk : Kernel → Int} {base : Nat → Prop}
  {allowed : Fault → Prop}

/-- Where the position of a file is. -/
def Placed (st : FdState Kernel) (i : File) (f : OpenFile) : Prop :=
  (st.fd i = VFD_CLOSED ∧ st.seekPos i = f.pos) ∨
  ∃ d : Nat, st.fd i = d ∧ st.os.table d = some f ∧
    (st.seekPos i = f.pos ∨ st.seekPos i = FILE_UNKNOWN_POS)

/-- A slot holds an open file, and the file can be reached by its name. -/
structure Held (st : FdState Kernel) (i : File) (f : OpenFile) : Prop where
  named : ∃ filename, st.filename i = some filename ∧ st.os.directory filename = some f.inode
  flags : st.fileFlags i = { access := f.access, append := f.append }
  placed : Placed st i f
  pos_le : f.pos ≤ maxOffset

/-- The slots do what descriptors of their own would do. The descriptors of `base` are
those of nobody. -/
structure Sim (base : Nat → Prop) (st : FdState Kernel) (k : Kernel) (limbo : Option File) : Prop where
  linked : Linked st limbo
  directory : st.os.directory = k.directory
  data : st.os.data = k.data
  nextInode : st.os.nextInode = k.nextInode
  held : ∀ i, st.filename i ≠ none → ∃ f, k.table i = some f ∧ Held st i f
  unused : ∀ i, st.filename i = none → k.table i = none
  named : ∀ i, st.fd i ≠ VFD_CLOSED → st.filename i ≠ none
  distinct : ∀ i j, st.fd i ≠ VFD_CLOSED → st.fd i = st.fd j → i = j
  tight : ∀ d : Nat, st.os.table d ≠ none → base d ∨ ∃ i, st.fd i = d
  sizes : ∀ inode, (k.data inode).length ≤ maxOffset
  small : st.sizeVfdCache < 2 ^ 31

theorem Sim.filename_ne_none (h : Sim base st k limbo) (hf : k.table file = some f) :
    st.filename file ≠ none := by
  intro hn
  rw [h.unused file hn] at hf
  cases hf

theorem natCast_ne_closed (d : Nat) : (d : Int) ≠ VFD_CLOSED := by
  unfold VFD_CLOSED
  omega

/-- The descriptor of a file that is open. -/
theorem Placed.open (h : Placed st i f) (hopen : st.fd i ≠ VFD_CLOSED) :
    ∃ d : Nat, st.fd i = d ∧ st.os.table d = some f ∧
      (st.seekPos i = f.pos ∨ st.seekPos i = FILE_UNKNOWN_POS) := by
  rcases h with ⟨hclosed, -⟩ | h
  · exact absurd hclosed hopen
  · exact h

theorem Placed.closed (h : Placed st i f) (hclosed : st.fd i = VFD_CLOSED) : st.seekPos i = f.pos := by
  rcases h with ⟨-, hpos⟩ | ⟨d, hd, -⟩
  · exact hpos
  · exact absurd (hd.symm.trans hclosed) (natCast_ne_closed d)

/-- The table may change where no file of the slots is. -/
theorem Placed.of_table {os' : Kernel} (h : Placed st i f) (hfd : st'.fd i = st.fd i)
    (hpos : st'.seekPos i = st.seekPos i) (hos : st'.os = os')
    (htable : ∀ d : Nat, st.fd i = d → os'.table d = st.os.table d) : Placed st' i f := by
  unfold Placed
  rw [hfd, hpos, hos]
  rcases h with hclosed | ⟨d, hd, hf, hp⟩
  · exact .inl hclosed
  · exact .inr ⟨d, hd, (htable d hd).trans hf, hp⟩

/-- The ring may change, and the free list. -/
theorem Sim.relink {limbo' : Option File} (h : Sim base st k limbo) (hlinked : Linked st' limbo')
    (hfd : st'.fd = st.fd) (hname : st'.filename = st.filename) (hpos : st'.seekPos = st.seekPos)
    (hflags : st'.fileFlags = st.fileFlags) (hos : st'.os = st.os)
    (hsize : st'.sizeVfdCache = st.sizeVfdCache) : Sim base st' k limbo' := by
  refine ⟨hlinked, ?_, ?_, ?_, fun i hi => ?_, ?_, ?_, ?_, ?_, h.sizes, ?_⟩
  · rw [hos]
    exact h.directory
  · rw [hos]
    exact h.data
  · rw [hos]
    exact h.nextInode
  · rw [hname] at hi
    obtain ⟨f, hf, hheld⟩ := h.held i hi
    refine ⟨f, hf, ?_, ?_, ?_, hheld.pos_le⟩
    · rw [hname, hos]
      exact hheld.named
    · rw [hflags]
      exact hheld.flags
    · exact hheld.placed.of_table (congrFun hfd i) (congrFun hpos i) hos fun _ _ => rfl
  · rw [hname]
    exact h.unused
  · rw [hfd, hname]
    exact h.named
  · rw [hfd]
    exact h.distinct
  · rw [hfd, hos]
    exact h.tight
  · rw [hsize]
    exact h.small

/-! ## Evictions -/

/-- What a descriptor is asked about is the position of its file. -/
theorem Kernel.os_lseek_cur {d : Nat} {pos : Nat} (hf : k.table d = some f)
    (h : (Kernel.os pick junk).lseek d 0 .SEEK_CUR k = some (some pos, k')) : pos = f.pos ∧ k' = k := by
  obtain ⟨pos', heq, hseek⟩ := os_lseek h
  obtain rfl := Option.some.inj heq
  obtain ⟨start, horigin, hpos, -, rfl⟩ := lseek_eq hf hseek
  obtain rfl : f.pos = start := Option.some.inj horigin
  rw [Int.add_zero] at hpos
  obtain rfl : pos = f.pos := Int.ofNat.inj hpos
  exact ⟨rfl, setFile_self f hf⟩

theorem SyncedBy.os_eq {os₁ os₂ : Kernel} (h : SyncedBy (Kernel.os pick junk) st file os₁ os₂) :
    os₂ = os₁ := by
  unfold SyncedBy at h
  split at h
  · exact (Kernel.os_fsync h).2
  · exact h

theorem open_of_update {fd : File → Int} (h : Function.update fd file VFD_CLOSED i ≠ VFD_CLOSED) :
    i ≠ file ∧ fd i ≠ VFD_CLOSED := by
  by_cases hif : i = file
  · rw [hif, Function.update_self] at h
    exact absurd rfl h
  · rw [Function.update_of_ne hif] at h
    exact ⟨hif, h⟩

/-- The position of a file that is closed is kept in its slot. -/
theorem Sim.shut {dirty : File → Bool} {d : Nat} (h : Sim base st k limbo) (hfile : file ∈ st.lru)
    (hd : st.fd file = d) (hf : st.os.table d = some f) :
    Sim base (st.shut file (Function.update st.seekPos file f.pos) dirty
      { st.os with table := Function.update st.os.table d none } (syncEvents st file)) k limbo := by
  have hopen := (h.linked.open_iff file).mp hfile
  refine ⟨h.linked.shut hfile (syncEvents_use st file), h.directory, h.data, h.nextInode,
    fun i hi => ?_, h.unused, fun i hi => ?_, fun i j hi hij => ?_, fun d' hd' => ?_, h.sizes, h.small⟩
  · obtain ⟨g, hg, hheld⟩ := h.held i hi
    refine ⟨g, hg, hheld.named, hheld.flags, ?_, hheld.pos_le⟩
    by_cases hif : i = file
    · subst hif
      obtain ⟨d', hd', hg', -⟩ := hheld.placed.open hopen
      obtain rfl : d' = d := Int.ofNat.inj (hd'.symm.trans hd)
      obtain rfl := Option.some.inj (hf.symm.trans hg')
      exact .inl ⟨Function.update_self _ _ _, Function.update_self _ _ _⟩
    · refine hheld.placed.of_table (Function.update_of_ne hif _ _) (Function.update_of_ne hif _ _) rfl ?_
      intro d' hd'
      refine Function.update_of_ne ?_ _ _
      rintro rfl
      exact hif (h.distinct file i hopen (hd.trans hd'.symm)).symm
  · obtain ⟨hif, hi⟩ := open_of_update hi
    exact h.named i hi
  · have hj : Function.update st.fd file VFD_CLOSED j ≠ VFD_CLOSED := fun hc => hi (hij.trans hc)
    obtain ⟨hif, hi⟩ := open_of_update hi
    obtain ⟨hjf, -⟩ := open_of_update hj
    have hij' : Function.update st.fd file VFD_CLOSED i = Function.update st.fd file VFD_CLOSED j := hij
    rw [Function.update_of_ne hif, Function.update_of_ne hjf] at hij'
    exact h.distinct i j hi hij'
  · have hne : d' ≠ d := by
      rintro rfl
      exact hd' (Function.update_self _ _ _)
    refine (h.tight d' fun hnone => hd' ((Function.update_of_ne hne _ _).trans hnone)).imp_right ?_
    rintro ⟨i, hi⟩
    refine ⟨i, (Function.update_of_ne ?_ _ _).trans hi⟩
    rintro rfl
    exact hne (Int.ofNat.inj (hi.symm.trans hd))

/-- The only fault that is left is that a call of the operating system fails. -/
def OsFailed (e : Fault) : Prop := e = .osFailed

theorem Sim.open (h : Sim base st k limbo) (hopen : st.fd file ≠ VFD_CLOSED) :
    ∃ (f : OpenFile) (d : Nat), k.table file = some f ∧ Held st file f ∧ st.fd file = d ∧
      st.os.table d = some f ∧ (st.seekPos file = f.pos ∨ st.seekPos file = FILE_UNKNOWN_POS) := by
  obtain ⟨f, hf, hheld⟩ := h.held file (h.named file hopen)
  obtain ⟨d, hd, hd'⟩ := hheld.placed.open hopen
  exact ⟨f, d, hf, hheld, hd, hd'⟩

theorem Sim.closed (h : Sim base st k limbo) (hf : k.table file = some f) (hclosed : st.fd file = VFD_CLOSED) :
    st.seekPos file = f.pos := by
  obtain ⟨g, hg, hheld⟩ := h.held file (h.filename_ne_none hf)
  obtain rfl := Option.some.inj (hf.symm.trans hg)
  exact hheld.placed.closed hclosed

/-- A call that is done is done well. -/
theorem asserted_done {α : Type} {call : Option (α × Kernel)} {failure : α} {r : α × Kernel}
    (hcall : call = some r) (hr : r.1 ≠ failure) : Asserted allowed call failure := by
  refine ⟨fun hnone => ?_, fun s hs => ?_⟩
  · rw [hcall] at hnone
    cases hnone
  · rw [hcall] at hs
    exact absurd (congrArg Prod.fst (Option.some.inj hs)) hr

/-- A file in the ring can be closed. -/
theorem Sim.deletes (h : Sim base st k limbo) (hmem : file ∈ st.lru) :
    Deletes (Kernel.os pick junk) allowed st file := by
  obtain ⟨f, d, -, hheld, hd, hf, -⟩ := h.open ((h.linked.open_iff file).mp hmem)
  have hseek : (Kernel.os pick junk).lseek d 0 .SEEK_CUR st.os = some (some f.pos, st.os) := by
    have hdone : (Kernel.os pick junk).lseek d 0 .SEEK_CUR st.os =
        some (some f.pos, st.os.setFile d { f with pos := f.pos }) :=
      Kernel.os_lseek_done hf rfl (Int.add_zero _).symm hheld.pos_le
    rwa [Kernel.setFile_self f hf] at hdone
  refine ⟨?_, fun pos s hs => ?_, fun pos s s' hs hsync => ?_⟩
  · rw [hd]
    exact asserted_done hseek nofun
  · rw [hd] at hs ⊢
    obtain ⟨-, rfl⟩ := Kernel.os_lseek_cur hf hs
    exact asserted_done (Kernel.os_fsync_done hf) nofun
  · rw [hd] at hs ⊢
    obtain ⟨-, rfl⟩ := Kernel.os_lseek_cur hf hs
    obtain rfl := hsync.os_eq
    exact asserted_done (Kernel.os_close_done hf) nofun

theorem sim_evicts : Evicts (Kernel.os pick junk) allowed (Sim base · k limbo) := by
  intro st file h hmem
  refine (lruDelete_ends (h.deletes hmem) (h.linked.ne_zero hmem)).mono (fun _ h => h) ?_
  rintro _ ⟨pos, os₁, os₂, os', hseek, hsync, hclose, rfl⟩
  obtain ⟨f, d, -, -, hd, hf, -⟩ := h.open ((h.linked.open_iff file).mp hmem)
  rw [hd] at hseek hclose
  obtain ⟨rfl, rfl⟩ := Kernel.os_lseek_cur hf hseek
  obtain rfl := hsync.os_eq
  obtain rfl := Kernel.os_close hclose
  exact h.shut hmem hd hf

theorem sim_ignoresVictims : IgnoresVictims (Sim base · k limbo) := by
  intro st file h _
  exact h.relink (h.linked.of_eq rfl rfl rfl rfl rfl rfl rfl rfl) rfl rfl rfl rfl rfl rfl

theorem sim_ignoresFailures {filename : FileName} {flags : OpenFlags} {mode : Nat} :
    IgnoresFailures (Kernel.os pick junk) (Sim base · k limbo) filename flags mode :=
  fun _ _ _ _ hcall => (Kernel.os_openFile_ne_error hcall).elim

theorem Kernel.not_fails {filename : FileName} {flags : OpenFlags} {mode : Nat} :
    ¬ OpenFails (Kernel.os pick junk) filename flags mode :=
  fun ⟨_, _, _, hcall⟩ => os_openFile_ne_error hcall

/-! ## Opening -/

/-- A descriptor that is not in use belongs to no slot. -/
theorem Sim.fresh {d : Nat} (h : Sim base st k limbo) (hfree : st.os.table d = none) (i : File) :
    st.fd i ≠ d := by
  intro hd
  have hopen : st.fd i ≠ VFD_CLOSED := fun hc => natCast_ne_closed d (hd.symm.trans hc)
  obtain ⟨f, d', -, -, hd', hf, -⟩ := h.open hopen
  obtain rfl : d = d' := Int.ofNat.inj (hd.symm.trans hd')
  rw [hfree] at hf
  cases hf

/-- The descriptors of two files stay apart when one more is opened. -/
theorem Sim.distinct_enter {d : Nat} (h : Sim base st k limbo) (hfree : st.os.table d = none) :
    ∀ i j, Function.update st.fd file (d : Int) i ≠ VFD_CLOSED →
      Function.update st.fd file (d : Int) i = Function.update st.fd file (d : Int) j → i = j := by
  intro i j hi hij
  by_cases hif : i = file
  · by_cases hjf : j = file
    · exact hif.trans hjf.symm
    · rw [hif, Function.update_self, Function.update_of_ne hjf] at hij
      exact absurd hij.symm (h.fresh hfree j)
  · rw [Function.update_of_ne hif] at hi hij
    by_cases hjf : j = file
    · rw [hjf, Function.update_self] at hij
      exact absurd hij (h.fresh hfree i)
    · rw [Function.update_of_ne hjf] at hij
      exact h.distinct i j hi hij

/-- The descriptor that was opened belongs to a slot now. -/
theorem Sim.tight_enter {os' : Kernel} {d : Nat} (h : Sim base st k limbo)
    (hclosed : st.fd file = VFD_CLOSED) (htable : os'.table = Function.update st.os.table d (some f)) :
    ∀ d' : Nat, os'.table d' ≠ none → base d' ∨ ∃ i, Function.update st.fd file (d : Int) i = d' := by
  intro d' hd'
  by_cases hdd : d' = d
  · exact .inr ⟨file, (Function.update_self _ _ _).trans (congrArg Nat.cast hdd.symm)⟩
  · rw [htable, Function.update_of_ne hdd] at hd'
    refine (h.tight d' hd').imp_right ?_
    rintro ⟨i, hi⟩
    refine ⟨i, (Function.update_of_ne ?_ _ _).trans hi⟩
    rintro rfl
    exact natCast_ne_closed d' (hi.symm.trans hclosed)

/-- A file that was opened again at its position. -/
theorem Sim.reopen {d : Nat} {ev : Event} (h : Sim base st k limbo) (hclosed : st.fd file = VFD_CLOSED)
    (hname : st.filename file ≠ none) (hf : k.table file = some f) (hd : d ≤ 32767)
    (hfree : st.os.table d = none) (hev : ev.use = some (.touch file)) :
    Sim base (st.entered file d (st.os.setFile d f) ev) k limbo := by
  have hshort : toShort d = d := toShort_of_le hd
  have hlinked : Linked (st.entered file d (st.os.setFile d f) ev) limbo := by
    refine h.linked.enter hclosed ?_ (.inl hname) hev
    rw [hshort]
    exact natCast_ne_closed d
  have hfd : (st.entered file d (st.os.setFile d f) ev).fd = Function.update st.fd file (d : Int) := by
    show Function.update st.fd file (toShort d) = _
    rw [hshort]
  refine ⟨hlinked, h.directory, h.data, h.nextInode, fun i hi => ?_, h.unused, fun i hi => ?_, ?_, ?_,
    h.sizes, h.small⟩
  · obtain ⟨g, hg, hheld⟩ := h.held i hi
    refine ⟨g, hg, hheld.named, hheld.flags, ?_, hheld.pos_le⟩
    by_cases hif : i = file
    · subst hif
      obtain rfl := Option.some.inj (hf.symm.trans hg)
      refine .inr ⟨d, ?_, Function.update_self _ _ _, .inl (hheld.placed.closed hclosed)⟩
      rw [hfd]
      exact Function.update_self _ _ _
    · refine hheld.placed.of_table ?_ rfl rfl ?_
      · rw [hfd]
        exact Function.update_of_ne hif _ _
      · intro d' hd'
        refine Function.update_of_ne ?_ _ _
        rintro rfl
        exact h.fresh hfree i hd'
  · rw [hfd] at hi
    by_cases hif : i = file
    · rw [hif]
      exact hname
    · rw [Function.update_of_ne hif] at hi
      exact h.named i hi
  · rw [hfd]
    exact h.distinct_enter hfree
  · rw [hfd]
    exact h.tight_enter hclosed rfl

/-- `open` and `lseek` bring the descriptor of a file back. -/
theorem Kernel.open_again {os os₁ os₂ : Kernel} {filename : FileName} {flags : OpenFlags} {mode d : Nat}
    {pos : Int} (hflags : flags = { access := f.access, append := f.append })
    (hdir : os.directory filename = some f.inode) (hpos : pos = f.pos)
    (hopen : (Kernel.os pick junk).openFile filename flags mode os = some (.ok d, os₁))
    (hrestored : Restored (Kernel.os pick junk) d pos os₁ os₂) :
    pick os = some d ∧ os₂ = os.setFile d f := by
  obtain ⟨hpick, hos₁⟩ := os_openFile hopen
  subst hflags
  obtain rfl := openFile_again hdir rfl rfl hos₁
  refine ⟨hpick, ?_⟩
  unfold Restored at hrestored
  split at hrestored
  · rename_i hzero
    have hf : f.pos = 0 := by omega
    rw [hrestored, ← hf]
  · obtain ⟨p, hseek⟩ := hrestored
    obtain ⟨p', -, hseek'⟩ := os_lseek hseek
    have htable : (os.setFile d ⟨f.inode, 0, f.access, f.append⟩).table d =
        some ⟨f.inode, 0, f.access, f.append⟩ := Function.update_self _ _ _
    obtain ⟨start, horigin, hp, -, rfl⟩ := lseek_eq htable hseek'
    obtain rfl : 0 = start := Option.some.inj horigin
    have hp' : p' = f.pos := by omega
    unfold Kernel.setFile
    rw [Function.update_idem, hp']

theorem sim_waiting (h : Sim base st k limbo) (hw : Waiting st' file st)
    (hname : st'.filename file ≠ none) : ∃ f filename, k.table file = some f ∧
      st'.filename file = some filename ∧ st.os.directory filename = some f.inode ∧
      st'.fileFlags file = { access := f.access, append := f.append } ∧ st'.seekPos file = f.pos := by
  rw [← hw.filename] at hname
  obtain ⟨f, hf, hheld⟩ := h.held file hname
  obtain ⟨filename, hfilename, hdir⟩ := hheld.named
  refine ⟨f, filename, hf, ?_, hdir, ?_, ?_⟩
  · rw [← hw.filename]
    exact hfilename
  · rw [← hw.fileFlags]
    exact hheld.flags
  · rw [← hw.seekPos]
    exact hheld.placed.closed hw.fd

/-- What the calls that reopen a file do to the slots. -/
theorem Sim.reopened {ev : Event} {os₁ os₂ : Kernel} {d : Nat} (h : Sim base st' k none)
    (hw : Waiting st file st') (hname : st.filename file ≠ none) (hpick : Kernel.Picks pick 32767)
    (hopen : (Kernel.os pick junk).openFile ((st.filename file).getD []) (st.fileFlags file)
      (st.fileMode file) st'.os = some (.ok d, os₁))
    (hrestored : Restored (Kernel.os pick junk) d (st.seekPos file) os₁ os₂)
    (hev : ev.use = some (.touch file)) : Sim base (st'.entered file d os₂ ev) k none := by
  obtain ⟨f, filename, hf, hfilename, hdir, hflags, hpos⟩ := sim_waiting h hw hname
  rw [hfilename] at hopen
  obtain ⟨hpicked, rfl⟩ := Kernel.open_again hflags hdir hpos hopen hrestored
  obtain ⟨hfree, hle⟩ := hpick _ _ hpicked
  have hname' : st'.filename file ≠ none := by
    rw [hw.filename]
    exact hname
  exact h.reopen hw.fd hname' hf hle hfree hev

/-- The position a file is reopened at is no `-1` for an `int`. -/
def Reopenable (st : FdState Kernel) (file : File) : Prop :=
  st.fd file = VFD_CLOSED → toInt (st.seekPos file) ≠ -1

theorem Reopenable.asserts (h : Reopenable st file) (hclosed : st.fd file = VFD_CLOSED) (fd : Int)
    (s : Kernel) (p : Nat) (s' : Kernel)
    (hseek : (Kernel.os pick junk).lseek fd (st.seekPos file) .SEEK_SET s = some (some p, s')) :
    toInt p ≠ -1 := by
  obtain ⟨d, -, hrest⟩ := Option.bind_eq_some_iff.mp hseek
  obtain ⟨⟨pos, k₁⟩, hpos, heq⟩ := Option.bind_eq_some_iff.mp hrest
  obtain ⟨hp, rfl⟩ := Prod.mk.inj (Option.some.inj heq)
  obtain rfl := Option.some.inj hp
  obtain ⟨f, hf, -⟩ := Option.bind_eq_some_iff.mp hpos
  obtain ⟨start, horigin, hp, -, -⟩ := Kernel.lseek_eq hf hpos
  obtain rfl : 0 = start := Option.some.inj horigin
  rw [hp, Int.natCast_zero, Int.zero_add]
  exact h hclosed

/-- The run may end where no descriptor is left. -/
def Exhausts (pick : Kernel → Option Nat) (allowed : Fault → Prop) (base : Nat → Prop) (k : Kernel) : Prop :=
  ∀ st limbo, Sim base st k limbo → pick st.os = none → allowed .osFailed

theorem exhausts_osFailed : Exhausts pick OsFailed base k := fun _ _ _ _ => rfl

/-- A file can be opened again if there is a descriptor. -/
theorem sim_reopens (hfull : Exhausts pick allowed base k) (hname : st.filename file ≠ none)
    (hpos : Reopenable st file) (hclosed : st.fd file = VFD_CLOSED) :
    Reopens (Kernel.os pick junk) allowed (Sim base · k none) st file := by
  refine ⟨fun st' ⟨h', hw⟩ hnone => ?_, fun st' fd s h' hw hcall => ⟨?_, ?_⟩⟩
  · obtain ⟨f, filename, -, hfilename, hdir, hflags, -⟩ := sim_waiting h' hw hname
    rw [hfilename, hflags] at hnone
    refine (Kernel.os_openFile_none hnone).elim (hfull st' none h') ?_
    rintro ⟨d, errno, herror⟩
    exact absurd herror (Kernel.openFile_exists hdir rfl)
  · obtain ⟨f, filename, hf, hfilename, hdir, hflags, hp⟩ := sim_waiting h' hw hname
    rw [hfilename, hflags] at hcall
    obtain rfl := Kernel.openFile_again hdir rfl rfl (Kernel.os_openFile hcall).2
    obtain ⟨g, hg, hheld⟩ := h'.held file (h'.filename_ne_none hf)
    obtain rfl := Option.some.inj (hf.symm.trans hg)
    have htable : (st'.os.setFile fd ⟨f.inode, 0, f.access, f.append⟩).table fd =
        some ⟨f.inode, 0, f.access, f.append⟩ := Function.update_self _ _ _
    rw [hp]
    exact asserted_done (Kernel.os_lseek_done htable rfl (Int.zero_add _).symm hheld.pos_le) nofun
  · intro p s' hseek hminus
    exact absurd hminus (hpos.asserts hclosed fd s p s' hseek)

/-- A file is open now, and its slot is what it was. -/
structure Accessed (st : FdState Kernel) (file : File) (st' : FdState Kernel) : Prop where
  isOpen : st'.fd file ≠ VFD_CLOSED
  seekPos : st'.seekPos file = st.seekPos file
  filename : st'.filename = st.filename
  sizeVfdCache : st'.sizeVfdCache = st.sizeVfdCache

theorem Waiting.accessed {ev : Event} {os' : Kernel} {d : Nat} (hw : Waiting st file st')
    (hd : d ≤ 32767) : Accessed st file (st'.entered file d os' ev) := by
  refine ⟨?_, hw.seekPos, hw.filename, hw.sizeVfdCache⟩
  show Function.update st'.fd file (toShort d) file ≠ VFD_CLOSED
  rw [Function.update_self, toShort_of_le hd]
  exact natCast_ne_closed d

theorem lruInsert_sim (hpick : Kernel.Picks pick 32767) (hfull : Exhausts pick allowed base k)
    (h : Sim base st k none) (hfile : file ≠ 0) (hname : st.filename file ≠ none)
    (hclosed : st.fd file = VFD_CLOSED) (hpos : Reopenable st file) :
    Ends allowed (lruInsert (Kernel.os pick junk) st file) fun r =>
      r.1 = 0 ∧ Sim base r.2 k none ∧ Accessed st file r.2 := by
  refine (lruInsert_ends (sim_reopens hfull hname hpos hclosed) (fun _ h => Sim.linked h) sim_evicts
    sim_ignoresVictims sim_ignoresFailures (Kernel.os_short hpick (Nat.le_refl _)) hfile h hclosed).mono
    (fun _ h => h) ?_
  rintro _ ⟨st', h', hw, ⟨-, hfails⟩ | ⟨d, os₁, hopen, hle, os₂, hrestored, rfl⟩⟩
  · exact absurd hfails Kernel.not_fails
  · exact ⟨rfl, h'.reopened hw hname hpick hopen hrestored rfl, hw.accessed hle⟩

theorem touched_fields {σ : Type} (st : FdState σ) (file : File) :
    (st.touched file).fd = st.fd ∧ (st.touched file).filename = st.filename ∧
    (st.touched file).seekPos = st.seekPos ∧ (st.touched file).fileFlags = st.fileFlags ∧
    (st.touched file).os = st.os ∧ (st.touched file).sizeVfdCache = st.sizeVfdCache := by
  unfold FdState.touched
  split <;> exact ⟨rfl, rfl, rfl, rfl, rfl, rfl⟩

theorem fileAccess_sim (hpick : Kernel.Picks pick 32767) (hfull : Exhausts pick allowed base k)
    (h : Sim base st k none) (hfile : file ≠ 0) (hname : st.filename file ≠ none)
    (hpos : Reopenable st file) :
    Ends allowed (fileAccess (Kernel.os pick junk) st file) fun r =>
      Sim base r.2 k none ∧ Accessed st file r.2 := by
  by_cases hclosed : st.fd file = VFD_CLOSED
  · refine (fileAccess_ends (sim_reopens hfull hname hpos) (fun _ h => Sim.linked h) sim_evicts
      sim_ignoresVictims sim_ignoresFailures (Kernel.os_short hpick (Nat.le_refl _)) hfile h).mono
      (fun _ h => h) ?_
    rintro _ (⟨hopen, -⟩ | ⟨-, st', h', hw, ⟨-, hfails⟩ | ⟨d, os₁, hopen, hle, os₂, hrestored, rfl⟩⟩)
    · exact absurd hclosed hopen
    · exact absurd hfails Kernel.not_fails
    · have hst : Sim base (st'.entered file d os₂ (.reopened file)) k none :=
        h'.reopened hw hname hpick hopen hrestored rfl
      have hacc : Accessed st file (st'.entered file d os₂ (.reopened file)) := hw.accessed hle
      exact ⟨hst.relink (hst.linked.note_accessed (lru_cons rfl rfl)) rfl rfl rfl rfl rfl rfl,
        hacc.isOpen, hacc.seekPos, hacc.filename, hacc.sizeVfdCache⟩
  · obtain ⟨hfd, hfilename, hseek, hflags, hos, hsize⟩ := touched_fields st file
    rw [fileAccess_open hfile hclosed]
    refine ⟨h.relink (h.linked.touch ((h.linked.open_iff file).mpr hclosed)) hfd hfilename hseek hflags
      hos hsize, ?_, congrFun hseek file, hfilename, hsize⟩
    dsimp only
    rw [hfd]
    exact hclosed

/-! ## New files -/

/-- A slot that was allocated, and holds nothing yet. -/
theorem Sim.allocate (h : Sim base st k none) (hlinked : Linked st' (some file)) (hkept : Kept st st')
    (hsmall : st'.sizeVfdCache < 2 ^ 31) : Sim base st' k (some file) := by
  refine ⟨hlinked, ?_, ?_, ?_, fun i hi => ?_, ?_, ?_, ?_, ?_, h.sizes, hsmall⟩
  · rw [hkept.os]
    exact h.directory
  · rw [hkept.os]
    exact h.data
  · rw [hkept.os]
    exact h.nextInode
  · rw [hkept.filename] at hi
    obtain ⟨f, hf, hheld⟩ := h.held i hi
    obtain ⟨-, -, hpos, hflags, -⟩ := hkept.slot i hi
    refine ⟨f, hf, ?_, hflags.trans hheld.flags, ?_, hheld.pos_le⟩
    · rw [hkept.filename, hkept.os]
      exact hheld.named
    · exact hheld.placed.of_table (congrFun hkept.fd i) hpos hkept.os fun _ _ => rfl
  · rw [hkept.filename]
    exact h.unused
  · rw [hkept.fd, hkept.filename]
    exact h.named
  · rw [hkept.fd]
    exact h.distinct
  · rw [hkept.fd, hkept.os]
    exact h.tight

/-- An `open` as a change of the file system and of the table. -/
structure Kernel.Opens (k : Kernel) (fd : Nat) (filename : FileName) (flags : OpenFlags) (f : OpenFile)
    (k' : Kernel) : Prop where
  table : k'.table = Function.update k.table fd (some f)
  pos : f.pos = 0
  access : f.access = flags.access
  append : f.append = flags.append
  reached : k'.directory filename = some f.inode
  names : ∀ name inode, k.directory name = some inode → k'.directory name = some inode
  sizes : (∀ inode, (k.data inode).length ≤ maxOffset) → ∀ inode, (k'.data inode).length ≤ maxOffset

theorem Kernel.setData_length {inode : Nat} {bytes : List UInt8} (hbytes : bytes.length ≤ maxOffset)
    (h : ∀ inode, (k.data inode).length ≤ maxOffset) (i : Nat) :
    ((k.setData inode bytes).data i).length ≤ maxOffset := by
  show (Function.update k.data inode bytes i).length ≤ maxOffset
  by_cases hi : i = inode
  · rw [hi, Function.update_self]
    exact hbytes
  · rw [Function.update_of_ne hi]
    exact h i

theorem Kernel.openFile_opens {fd : Nat} {filename : FileName} {flags : OpenFlags}
    (h : k.openFile fd filename flags = .ok k') : ∃ f, k.Opens fd filename flags f k' := by
  unfold openFile at h
  cases hname : k.directory filename with
  | some inode =>
    rw [hname] at h
    dsimp only at h
    split at h
    · cases h
    · obtain rfl := Except.ok.inj h
      refine ⟨⟨inode, 0, flags.access, flags.append⟩, ?_, rfl, rfl, rfl, ?_, ?_, ?_⟩
      · split <;> rfl
      · split <;> exact hname
      · split <;> exact fun _ _ h => h
      · intro hsizes
        split
        · exact setData_length (Nat.zero_le _) hsizes
        · exact hsizes
  | none =>
    rw [hname] at h
    dsimp only at h
    split at h
    · obtain rfl := Except.ok.inj h
      refine ⟨⟨k.nextInode, 0, flags.access, flags.append⟩, rfl, rfl, rfl, rfl,
        Function.update_self _ _ _, fun name inode hinode => ?_, ?_⟩
      · refine (Function.update_of_ne ?_ _ _).trans hinode
        rintro rfl
        rw [hname] at hinode
        cases hinode
      · exact setData_length (Nat.zero_le _)
    · cases h

/-- Two systems with the same files open the same file. -/
theorem Kernel.openFile_agrees {os os' : Kernel} (fd : Nat) {d : Nat} {filename : FileName} {flags : OpenFlags}
    (hdir : os.directory = k.directory) (hdata : os.data = k.data) (hnext : os.nextInode = k.nextInode)
    (h : os.openFile d filename flags = .ok os') :
    ∃ k', k.openFile fd filename flags = .ok k' ∧ os'.directory = k'.directory ∧ os'.data = k'.data ∧
      os'.nextInode = k'.nextInode := by
  unfold openFile at h ⊢
  rw [hdir] at h
  cases hname : k.directory filename with
  | some inode =>
    rw [hname] at h
    dsimp only at h ⊢
    split at h
    · cases h
    · rename_i hexcl
      rw [if_neg hexcl]
      obtain rfl := Except.ok.inj h
      refine ⟨_, rfl, ?_⟩
      split
      · refine ⟨hdir, ?_, hnext⟩
        show Function.update os.data inode [] = Function.update k.data inode []
        rw [hdata]
      · exact ⟨hdir, hdata, hnext⟩
  | none =>
    rw [hname] at h
    dsimp only at h ⊢
    split at h
    · rename_i hcreat
      rw [if_pos hcreat]
      obtain rfl := Except.ok.inj h
      refine ⟨_, rfl, ?_, ?_, congrArg (· + 1) hnext⟩
      · show Function.update k.directory filename (some os.nextInode) =
          Function.update k.directory filename (some k.nextInode)
        rw [hnext]
      · show Function.update os.data os.nextInode [] = Function.update k.data k.nextInode []
        rw [hdata, hnext]
    · cases h

/-- A new file has a slot, and in the model the descriptor of that number. -/
theorem Sim.openNew {os' : Kernel} {d mode : Nat} {filename : FileName} {flags : OpenFlags}
    (h : Sim base st k (some file)) (hclosed : st.fd file = VFD_CLOSED) (hname : st.filename file = none)
    (hd : d ≤ 32767) (hfree : st.os.table d = none) (hopen : st.os.openFile d filename flags = .ok os') :
    ∃ k', k.openFile file filename flags = .ok k' ∧
      Sim base ((st.entered file d os' (.opened file)).fillSlot file filename flags mode) k' none := by
  have hshort : toShort d = d := toShort_of_le hd
  have hfd : ((st.entered file d os' (.opened file)).fillSlot file filename flags mode).fd =
      Function.update st.fd file (d : Int) := by
    show Function.update st.fd file (toShort d) = _
    rw [hshort]
  have hlinked : Linked (st.entered file d os' (.opened file)) (some file) := by
    refine h.linked.enter hclosed ?_ (.inr rfl) rfl
    rw [hshort]
    exact natCast_ne_closed d
  obtain ⟨k', hopen', hdir, hdata, hnext⟩ :=
    Kernel.openFile_agrees file h.directory h.data h.nextInode hopen
  obtain ⟨f, hf⟩ := Kernel.openFile_opens hopen
  obtain ⟨f', hf'⟩ := Kernel.openFile_opens hopen'
  have hinode : f' = f := by
    have hreached := hf'.reached
    rw [← hdir, hf.reached] at hreached
    cases f
    cases f'
    cases hf.pos
    cases hf.access
    cases hf.append
    cases hf'.pos
    cases hf'.access
    cases hf'.append
    cases hreached
    rfl
  subst hinode
  refine ⟨k', hopen', hlinked.fill_slot, hdir, hdata, hnext, fun i hi => ?_, fun i hi => ?_,
    fun i hi => ?_, ?_, ?_, hf'.sizes h.sizes, h.small⟩
  · by_cases hif : i = file
    · subst hif
      refine ⟨f', (congrFun hf'.table i).trans (Function.update_self _ _ _),
        ⟨filename, Function.update_self _ _ _, hf.reached⟩, ?_, .inr ⟨d, ?_, ?_, .inl ?_⟩, ?_⟩
      · refine (Function.update_self _ _ _).trans ?_
        rw [hf.access, hf.append]
      · rw [hfd]
        exact Function.update_self _ _ _
      · exact (congrFun hf.table d).trans (Function.update_self _ _ _)
      · refine (Function.update_self _ _ _).trans ?_
        rw [hf.pos]
        rfl
      · rw [hf.pos]
        exact Nat.zero_le _
    · have hold : st.filename i ≠ none := fun hn => hi ((Function.update_of_ne hif _ _).trans hn)
      obtain ⟨g, hg, hheld⟩ := h.held i hold
      obtain ⟨name, hname', hreach⟩ := hheld.named
      refine ⟨g, ?_, ⟨name, (Function.update_of_ne hif _ _).trans hname', hf.names _ _ hreach⟩,
        (Function.update_of_ne hif _ _).trans hheld.flags, ?_, hheld.pos_le⟩
      · exact (congrFun hf'.table i).trans ((Function.update_of_ne hif _ _).trans hg)
      · refine hheld.placed.of_table ?_ (Function.update_of_ne hif _ _) rfl fun d' hd' => ?_
        · rw [hfd]
          exact Function.update_of_ne hif _ _
        · refine (congrFun hf.table d').trans (Function.update_of_ne ?_ _ _)
          rintro rfl
          exact h.fresh hfree i hd'
  · have hif : i ≠ file := by
      rintro rfl
      cases (Function.update_self _ _ _).symm.trans hi
    exact (congrFun hf'.table i).trans ((Function.update_of_ne hif _ _).trans
      (h.unused i ((Function.update_of_ne hif _ _).symm.trans hi)))
  · by_cases hif : i = file
    · rw [hif]
      exact fun hn => nomatch (Function.update_self _ _ _).symm.trans hn
    · rw [hfd, Function.update_of_ne hif] at hi
      exact fun hn => h.named i hi ((Function.update_of_ne hif _ _).symm.trans hn)
  · rw [hfd]
    exact h.distinct_enter hfree
  · rw [hfd]
    exact h.tight_enter hclosed hf.table

/-- The array has a slot left whose number fits an `int`. -/
def Roomy (st : FdState Kernel) : Prop := allocatedSize st < 2 ^ 31

/-- What the model can open can be opened if there is a descriptor. -/
theorem sim_opens {filename : FileName} {flags : OpenFlags} {mode : Nat}
    (hfull : Exhausts pick allowed base k)
    (hcan : ∀ d errno, k.openFile d filename flags = .error errno → allowed .osFailed) :
    Opens (Kernel.os pick junk) allowed (Sim base · k limbo) filename flags mode := by
  intro st h hnone
  refine (Kernel.os_openFile_none hnone).elim (hfull st limbo h) ?_
  rintro ⟨d, errno, herror⟩
  cases hopen : k.openFile d filename flags with
  | error errno' => exact hcan d errno' hopen
  | ok k' =>
    obtain ⟨os', hos, -⟩ :=
      Kernel.openFile_agrees d h.directory.symm h.data.symm h.nextInode.symm hopen
    rw [herror] at hos
    cases hos

/-- The new file has a slot that was not in use, and the model can open it there. -/
theorem fileNameOpenFileAux_sim {filename : FileName} {flags : OpenFlags} {mode : Nat}
    (hpick : Kernel.Picks pick 32767) (hfull : Exhausts pick allowed base k)
    (hcan : ∀ d errno, k.openFile d filename flags = .error errno → allowed .osFailed)
    (h : Sim base st k none) (hroom : Roomy st) :
    Ends allowed (fileNameOpenFileAux (Kernel.os pick junk) st filename flags mode) fun r =>
      ∃ file k', r.1 = some file ∧ k.table file = none ∧ k.openFile file filename flags = .ok k' ∧
        Sim base r.2 k' none := by
  refine (fileNameOpenFileAux_ends (I := fun file st => Sim base st k (some file))
    (fun _ => sim_opens hfull hcan) (fun hge => absurd hroom (Nat.not_lt.mpr (Nat.le_trans (by decide) hge))) (fun _ _ h => Sim.linked h)
    (fun _ => sim_evicts) (fun _ => sim_ignoresVictims) (fun _ => sim_ignoresFailures)
    (Kernel.os_short hpick (Nat.le_refl _)) (fun file st' hl hkept hsize _ _ => ?_) h.linked).mono
    (fun _ h => h) ?_
  · refine h.allocate hl hkept ?_
    rw [hsize]
    exact hroom
  · rintro _ ⟨file, st₀, -, hkept, hname, -, st', h', hw, ⟨-, hfails⟩ | ⟨d, os', hopen, hle, rfl⟩⟩
    · exact absurd hfails Kernel.not_fails
    · obtain ⟨hpicked, hopen'⟩ := Kernel.os_openFile hopen
      obtain ⟨hfree, -⟩ := hpick _ _ hpicked
      have hname' : st'.filename file = none := by
        rw [hw.filename, hkept.filename]
        exact hname
      obtain ⟨k', hk', hsim⟩ := h'.openNew hw.fd hname' hle hfree hopen'
      exact ⟨file, k', rfl, h.unused file hname, hk', hsim⟩

theorem fileNameOpenFile_sim {filename : FileName} {flags : OpenFlags} {mode : Nat}
    (hpick : Kernel.Picks pick 32767) (hfull : Exhausts pick allowed base k)
    (hcan : ∀ d errno, k.openFile d filename flags = .error errno → allowed .osFailed)
    (h : Sim base st k none) (hroom : Roomy st) (habsolute : filename.head? = some SEP_CHAR) :
    Ends allowed (fileNameOpenFile (Kernel.os pick junk) st filename flags mode) fun r =>
      ∃ file k', r.1 = some file ∧ k.table file = none ∧ k.openFile file filename flags = .ok k' ∧
        Sim base r.2 k' none := by
  unfold fileNameOpenFile filepath
  rw [if_neg (not_not.mpr habsolute)]
  refine Ends.bind (fileNameOpenFileAux_sim hpick hfull hcan h hroom) ?_
  rintro ⟨file, st'⟩ h'
  exact h'

end PostgresV7.Fd
