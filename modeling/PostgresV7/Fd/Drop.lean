import PostgresV7.Fd.Transfer

/-!
# Syncing, truncating and unlinking (`fd.c`)

A file that is synced or truncated stays where it is. With a file that is unlinked its
slot is given back.
-/

namespace PostgresV7.Fd

open Recency Outcomes

variable {st st' : FdState Kernel} {k k' : Kernel} {file i : File} {limbo : Option File}
  {f f' : OpenFile} {pick : Kernel → Option Nat} {junk : Kernel → Int} {base : Nat → Prop}
  {allowed : Fault → Prop}

/-- Positions that fit an `int` are no trouble. -/
theorem Sim.reopenable (h : Sim base st k none) (hf : k.table file = some f) (hlt : f.pos < 2 ^ 31) :
    Reopenable st file := by
  intro hclosed
  rw [h.closed hf hclosed]
  unfold toInt
  rw [Int.bmod_def]
  split <;> omega

/-! ## Syncing -/

theorem pgFsync_sim (h : Sim base st k none) (hopen : st.fd file ≠ VFD_CLOSED) :
    Ends allowed (pgFsync (Kernel.os pick junk) st file) fun r =>
      Sim base r.2 k none ∧ r.2.filename = st.filename := by
  obtain ⟨f, d, -, -, hd, hf, -⟩ := h.open hopen
  refine (pgFsync_ends fun hnone => ?_).mono (fun _ h => h) ?_
  · rw [hd, Kernel.os_fsync_done hf] at hnone
    cases hnone
  · rintro _ ⟨done, os', hcall, rfl⟩
    obtain rfl : os' = st.os := by
      split at hcall
      · exact (Kernel.os_fsync hcall).2
      · exact hcall.2
    refine ⟨h.relink (h.linked.of_eq ?_ rfl rfl rfl rfl rfl rfl rfl) rfl rfl rfl rfl rfl rfl, rfl⟩
    unfold FdState.lru
    refine congrArg order (uses_append (fun ev hev => ?_) st.log)
    split at hev
    · rw [List.mem_singleton.mp hev]
      rfl
    · cases hev

theorem Sim.clean {dirty : File → Bool} (h : Sim base st k limbo) : Sim base { st with dirty := dirty } k limbo :=
  h.relink (h.linked.of_eq rfl rfl rfl rfl rfl rfl rfl rfl) rfl rfl rfl rfl rfl rfl

/-- A file that is synced may be opened for it. -/
theorem fileSync_sim (hpick : Kernel.Picks pick 32767) (hfull : Exhausts pick allowed base k)
    (h : Sim base st k none) (hf : k.table file = some f) (hpos : Reopenable st file) :
    Ends allowed (fileSync (Kernel.os pick junk) st file) fun r =>
      Sim base r.2 k none ∧ r.2.filename = st.filename := by
  have hvalid := h.valid hf
  unfold fileSync
  rw [if_neg (not_not.mpr hvalid)]
  split
  · exact ⟨h, rfl⟩
  · split
    · exact ⟨h.clean, rfl⟩
    · split
      · rename_i hclosed
        refine Ends.bind (lruInsert_sim hpick hfull h hvalid.ne_zero hvalid.2.2 hclosed hpos) ?_
        rintro ⟨_, st₁⟩ ⟨rfl, h₁, hacc⟩
        dsimp only at h₁ hacc ⊢
        rw [if_neg (not_not.mpr rfl)]
        refine Ends.bind (pgFsync_sim h₁ hacc.isOpen) ?_
        rintro ⟨done, st₂⟩ ⟨h₂, hname₂⟩
        dsimp only at h₂ hname₂ ⊢
        split
        · exact ⟨h₂.clean, hname₂.trans hacc.filename⟩
        · exact ⟨h₂, hname₂.trans hacc.filename⟩
      · exact ⟨h, rfl⟩

/-! ## Truncating -/

theorem fileTruncate_sim {size : Int} (hpick : Kernel.Picks pick 32767)
    (hfull : Exhausts pick allowed base k) (h : Sim base st k none) (hf : k.table file = some f)
    (hlt : f.pos < 2 ^ 31) (htruncate : k.ftruncate file size = some k') :
    Ends allowed (fileTruncate (Kernel.os pick junk) st file size) fun r =>
      r.1 = 0 ∧ Sim base r.2 k' none ∧ r.2.filename = st.filename := by
  obtain ⟨haccess, hnonneg, hle, rfl⟩ := Kernel.ftruncate_eq hf htruncate
  unfold fileTruncate
  rw [if_neg (not_not.mpr (h.valid hf))]
  refine Ends.bind (fileSync_sim hpick hfull h hf (h.reopenable hf hlt)) ?_
  rintro ⟨code, st₁⟩ ⟨h₁, hname₁⟩
  dsimp only at h₁ hname₁ ⊢
  have hvalid := h₁.valid hf
  refine Ends.bind (fileAccess_sim hpick hfull h₁ hvalid.ne_zero hvalid.2.2 (h₁.reopenable hf hlt)) ?_
  rintro ⟨code', st₂⟩ ⟨h₂, hacc⟩
  dsimp only at h₂ hacc ⊢
  obtain ⟨g, d, hg, hheld, hd, hd', hseek⟩ := h₂.open hacc.isOpen
  obtain rfl := Option.some.inj (hf.symm.trans hg)
  have hdone := Kernel.ftruncate_done hd' haccess ⟨hnonneg, hle⟩
  refine Ends.bind (sys_ends fun hnone => ?_) ?_
  · rw [hd, Kernel.os_ftruncate_done hdone] at hnone
    cases hnone
  · rintro _ ⟨done, os', hcall, rfl⟩
    rw [hd] at hcall
    obtain ⟨rfl, hcall'⟩ := Kernel.os_ftruncate hcall
    obtain rfl := Option.some.inj (hdone.symm.trans hcall')
    have hmoved : Sim base { st₂ with
        seekPos := Function.update st₂.seekPos file (st₂.seekPos file)
        os := st₂.os.setData f.inode (Kernel.resize (st₂.os.data f.inode) size.toNat) }
        (k.setData f.inode (Kernel.resize (k.data f.inode) size.toNat)) none := by
      refine h₂.move hf hd (update_same hd').symm (update_same hf).symm rfl rfl ?_ h₂.nextInode
        ?_ rfl rfl rfl hheld.pos_le hseek
      · show Function.update st₂.os.data f.inode _ = Function.update k.data f.inode _
        rw [h₂.data]
      · refine Kernel.setData_length ?_ h.sizes
        rw [resize_length]
        omega
    rw [Function.update_eq_self] at hmoved
    exact ⟨rfl, hmoved, hacc.filename.trans hname₁⟩

/-! ## Giving a slot back -/

/-- The slot of a file that is closed is freed. -/
theorem Sim.free (h : Sim base st k none) (hclosed : st.fd file = VFD_CLOSED)
    (hname : st.filename file ≠ none) :
    Sim base (freeVfd st file) { k with table := Function.update k.table file none } none := by
  refine ⟨h.linked.free_vfd hclosed (.inl hname) nofun, h.directory, h.data, h.nextInode,
    fun i hi => ?_, fun i hi => ?_, fun i hi => ?_, h.distinct, h.tight, h.sizes, h.small⟩
  · have hif : i ≠ file := by
      rintro rfl
      exact hi (Function.update_self _ _ _)
    have hsame : (freeVfd st file).filename i = st.filename i := Function.update_of_ne hif _ _
    rw [hsame] at hi
    obtain ⟨g, hg, hheld⟩ := h.held i hi
    refine ⟨g, (Function.update_of_ne hif _ _).trans hg, ?_, hheld.flags,
      hheld.placed.of_table rfl rfl rfl fun _ _ => rfl, hheld.pos_le⟩
    rw [hsame]
    exact hheld.named
  · by_cases hif : i = file
    · rw [hif]
      exact Function.update_self _ _ _
    · exact (Function.update_of_ne hif _ _).trans
        (h.unused i ((Function.update_of_ne hif _ _).symm.trans hi))
  · have hif : i ≠ file := by
      rintro rfl
      exact hi hclosed
    exact fun hn => h.named i hi ((Function.update_of_ne hif _ _).symm.trans hn)

/-- A name that no slot has is removed. -/
theorem Sim.unlinked {filename : FileName} (h : Sim base st k limbo)
    (hnone : ∀ i, st.filename i ≠ some filename) :
    Sim base { st with os := { st.os with directory := Function.update st.os.directory filename none } }
      { k with directory := Function.update k.directory filename none } limbo := by
  refine ⟨h.linked.of_eq rfl rfl rfl rfl rfl rfl rfl rfl, ?_, h.data, h.nextInode, fun i hi => ?_,
    h.unused, h.named, h.distinct, h.tight, h.sizes, h.small⟩
  · show Function.update st.os.directory filename none = Function.update k.directory filename none
    rw [h.directory]
  · obtain ⟨g, hg, hheld⟩ := h.held i hi
    obtain ⟨name, hname, hreach⟩ := hheld.named
    refine ⟨g, hg, ⟨name, hname, (Function.update_of_ne ?_ _ _).trans hreach⟩, hheld.flags,
      hheld.placed.of_table rfl rfl rfl fun _ _ => rfl, hheld.pos_le⟩
    rintro rfl
    exact hnone i hname

/-- The position in a slot that is not in use does not matter. -/
theorem Sim.forget {pos : Int} (h : Sim base st k limbo) (hname : st.filename file = none) :
    Sim base { st with seekPos := Function.update st.seekPos file pos } k limbo := by
  refine ⟨h.linked.of_eq rfl rfl rfl rfl rfl rfl rfl rfl, h.directory, h.data, h.nextInode,
    fun i hi => ?_, h.unused, h.named, h.distinct, h.tight, h.sizes, h.small⟩
  obtain ⟨g, hg, hheld⟩ := h.held i hi
  have hif : i ≠ file := by
    rintro rfl
    exact hi hname
  exact ⟨g, hg, hheld.named, hheld.flags,
    hheld.placed.of_table rfl (Function.update_of_ne hif _ _) rfl fun _ _ => rfl, hheld.pos_le⟩

/-- Removing a name that is there. -/
theorem Kernel.unlink_done {filename : FileName} {inode : Nat} (h : k.directory filename = some inode) :
    k.unlink filename = (none, { k with directory := Function.update k.directory filename none }) := by
  unfold unlink
  rw [h]

/-- The files of the model after `file` is unlinked. -/
def Kernel.dropped (k : Kernel) (file : File) (filename : FileName) : Kernel :=
  { k with
    directory := Function.update k.directory filename none
    table := Function.update k.table file none }

/-- What is left of a slot that was shut on the way to being freed. -/
theorem Sim.drop {filename : FileName} (temporary : File → Bool) (h : Sim base st k none)
    (hclosed : st.fd file = VFD_CLOSED) (hname : st.filename file = some filename)
    (hothers : ∀ i, i ≠ file → st.filename i ≠ some filename) (pos : Int) :
    Sim base (freeVfd { st with
        seekPos := Function.update st.seekPos file pos
        temporary := temporary
        os := { st.os with directory := Function.update st.os.directory filename none } } file)
      (k.dropped file filename) none := by
  have hfreed : Sim base (freeVfd st file) { k with table := Function.update k.table file none } none :=
    h.free hclosed fun hn => nomatch hname.symm.trans hn
  have hforgot : Sim base { freeVfd st file with
      seekPos := Function.update st.seekPos file pos }
      { k with table := Function.update k.table file none } none :=
    hfreed.forget (Function.update_self _ _ _)
  have hnone : ∀ i, (freeVfd st file).filename i ≠ some filename := by
    intro i hi
    by_cases hif : i = file
    · rw [hif] at hi
      cases (Function.update_self _ _ _).symm.trans hi
    · exact hothers i hif ((Function.update_of_ne hif _ _).symm.trans hi)
  have hunlinked := hforgot.unlinked hnone
  exact hunlinked.relink (hunlinked.linked.of_eq rfl rfl rfl rfl rfl rfl rfl rfl) rfl rfl rfl rfl rfl rfl

/-- A file that is to be freed is closed, wherever its position was. -/
structure Shut (base : Nat → Prop) (st : FdState Kernel) (k : Kernel) (file : File) (f : OpenFile)
    (st' : FdState Kernel) : Prop where
  sim : Sim base { st' with seekPos := Function.update st'.seekPos file f.pos } k none
  closed : st'.fd file = VFD_CLOSED
  filename : st'.filename = st.filename
  temporary : st'.temporary = st.temporary
  directory : st'.os.directory = st.os.directory

theorem closeIfOpen_sim (h : Sim base st k none) (hf : k.table file = some f) :
    Ends allowed (closeIfOpen (Kernel.os pick junk) st file) fun st' => Shut base st k file f st' := by
  refine (closeIfOpen_ends (fun hopen => ?_) (fun s hopen hsync => ?_) (h.valid hf).ne_zero).mono
    (fun _ h => h) ?_
  · obtain ⟨f', d, -, -, hd, hd', -⟩ := h.open hopen
    rw [hd]
    exact asserted_done (Kernel.os_fsync_done hd') nofun
  · obtain ⟨f', d, -, -, hd, hd', -⟩ := h.open hopen
    obtain rfl := hsync.os_eq
    rw [hd]
    exact asserted_done (Kernel.os_close_done hd') nofun
  · rintro st' (⟨hclosed, rfl⟩ | ⟨hopen, os₁, os', hsync, hclose, rfl⟩)
    · refine ⟨?_, hclosed, rfl, rfl, rfl⟩
      rw [update_same (h.closed hf hclosed)]
      exact h
    · obtain ⟨g, d, hg, -, hd, hd', -⟩ := h.open hopen
      obtain rfl := Option.some.inj (hf.symm.trans hg)
      obtain rfl := hsync.os_eq
      rw [hd] at hclose
      obtain rfl := Kernel.os_close hclose
      exact ⟨h.shut ((h.linked.open_iff file).mpr hopen) hd hd', Function.update_self _ _ _, rfl, rfl, rfl⟩

/-- A file is shut, if it is open, its name is removed, and its slot is freed. -/
theorem fileUnlink_sim {filename : FileName} (h : Sim base st k none) (hf : k.table file = some f)
    (hname : st.filename file = some filename)
    (hothers : ∀ i, i ≠ file → st.filename i ≠ some filename) :
    Ends allowed (fileUnlink (Kernel.os pick junk) st file) fun st' =>
      Sim base st' (k.dropped file filename) none ∧
        st'.filename = Function.update st.filename file none := by
  have hvalid := h.valid hf
  have hmarked : Sim base { st with temporary := Function.update st.temporary file true } k none :=
    h.relink (h.linked.of_eq rfl rfl rfl rfl rfl rfl rfl rfl) rfl rfl rfl rfl rfl rfl
  obtain ⟨g, -, hheld⟩ := h.held file hvalid.2.2
  obtain ⟨name, hname', hreach⟩ := hheld.named
  obtain rfl := Option.some.inj (hname.symm.trans hname')
  unfold fileUnlink fileClose
  rw [if_neg (not_not.mpr hvalid), if_neg (not_not.mpr (show FileIsValid { st with
    temporary := Function.update st.temporary file true } file from hvalid))]
  refine Ends.bind (closeIfOpen_sim hmarked hf) ?_
  intro st₁ hshut
  have htemp : st₁.temporary file = true := (congrFun hshut.temporary file).trans (Function.update_self _ _ _)
  have hname₁ : st₁.filename file = some filename := (congrFun hshut.filename file).trans hname
  have hothers₁ : ∀ i, i ≠ file → st₁.filename i ≠ some filename := by
    rw [hshut.filename]
    exact hothers
  refine Ends.bind (unlinkIfTemporary_ends nofun) ?_
  rintro _ ⟨os', hunlink, rfl⟩
  rw [if_pos htemp, hname₁] at hunlink
  obtain ⟨errno, hcall⟩ := hunlink
  have hdone := (Option.some.inj hcall).symm.trans
    (Kernel.unlink_done ((congrFun hshut.directory filename).trans hreach))
  obtain ⟨-, rfl⟩ := Prod.mk.inj hdone
  have hdropped := hshut.sim.drop (Function.update st₁.temporary file false) hshut.closed hname₁ hothers₁
    (st₁.seekPos file)
  dsimp only at hdropped
  rw [Function.update_idem, Function.update_eq_self] at hdropped
  refine ⟨hdropped, ?_⟩
  show Function.update st₁.filename file none = _
  rw [hshut.filename]

end PostgresV7.Fd
