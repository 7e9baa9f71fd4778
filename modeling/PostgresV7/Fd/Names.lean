import PostgresV7.Fd.Narrow

/-!
# Names and marks of the slots (`fd.c`)

A descriptor that is too large for its slot may put the ring out of order. The free list,
the names and the marks stay as they should be all the same.
-/

namespace PostgresV7.Fd

open Chains Outcomes

variable {σ : Type} {os : Os σ} {st st' st'' : FdState σ} {file : File} {limbo : Option File}

/-- The free list leads through the slots without a name, and only files are marked. -/
structure Orderly (st : FdState σ) (limbo : Option File) : Prop where
  anchor : st.fd 0 = VFD_CLOSED
  free : ∃ l, Chain id 0 st.nextFree 0 l ∧ ∀ i, i ∈ l ↔ Spare st i ∧ some i ≠ limbo
  taken : ∀ i, some i = limbo → Spare st i
  within : ∀ i : Nat, st.filename i ≠ none → 0 < i ∧ i < st.sizeVfdCache
  marked : ∀ i, st.temporary i = true ∨ st.dirty i = true → st.filename i ≠ none

/-- Nothing but a mark for an `fsync` was taken away. -/
structure SameNames (st st' : FdState σ) : Prop where
  filename : st'.filename = st.filename
  temporary : st'.temporary = st.temporary
  nextFree : st'.nextFree = st.nextFree
  size : st'.sizeVfdCache = st.sizeVfdCache
  numAllocatedFiles : st'.numAllocatedFiles = st.numAllocatedFiles
  dirty : ∀ i, st'.dirty i = true → st.dirty i = true
  anchor : st'.fd 0 = st.fd 0

theorem SameNames.refl (st : FdState σ) : SameNames st st :=
  ⟨rfl, rfl, rfl, rfl, rfl, fun _ h => h, rfl⟩

theorem SameNames.trans (h : SameNames st st') (h' : SameNames st' st'') : SameNames st st'' := by
  constructor
  · exact h'.filename.trans h.filename
  · exact h'.temporary.trans h.temporary
  · exact h'.nextFree.trans h.nextFree
  · exact h'.size.trans h.size
  · exact h'.numAllocatedFiles.trans h.numAllocatedFiles
  · intro i hdirty
    exact h.dirty i (h'.dirty i hdirty)
  · exact h'.anchor.trans h.anchor

theorem SameNames.spare (h : SameNames st st') (i : File) : Spare st' i ↔ Spare st i := by
  simp [Spare, h.size, h.filename]

theorem Orderly.same (h : Orderly st limbo) (hs : SameNames st st') : Orderly st' limbo := by
  constructor
  · exact hs.anchor.trans h.anchor
  · obtain ⟨l, hchain, hmem⟩ := h.free
    refine ⟨l, by rwa [hs.nextFree], ?_⟩
    intro i
    rw [hmem, hs.spare]
  · intro i hi
    exact (hs.spare i).mpr (h.taken i hi)
  · rw [hs.filename, hs.size]
    exact h.within
  · intro i hmark
    rw [hs.filename]
    apply h.marked
    rcases hmark with htemp | hdirty
    · exact .inl (by rwa [hs.temporary] at htemp)
    · exact .inr (hs.dirty i hdirty)

theorem Orderly.nameless (h : Orderly st limbo) (hname : st.filename file = none) :
    st.temporary file = false ∧ st.dirty file = false := by
  constructor
  · by_contra htemp
    exact h.marked file (.inl (eq_true_of_ne_false htemp)) hname
  · by_contra hdirty
    exact h.marked file (.inr (eq_true_of_ne_false hdirty)) hname

/-! ## Taking and giving back a slot -/

theorem Orderly.initVfdCache (h : Orderly st none) :
    Orderly (initVfdCache st) none ∧ 0 < (Fd.initVfdCache st).sizeVfdCache := by
  unfold Fd.initVfdCache
  split
  · rename_i hsize
    have hname : ∀ i, st.filename i = none := by
      intro i
      by_contra hne
      have hlt := (h.within i hne).2
      omega
    refine ⟨⟨?_, ⟨[], ?_, ?_⟩, ?_, ?_, ?_⟩, Nat.one_pos⟩
    · simp
    · simp [Chain]
    · intro i
      have hnone : ¬ (0 < i ∧ i < 1) := fun hi => absurd hi.1 (Nat.not_lt.mpr (Nat.le_of_lt_succ hi.2))
      apply iff_of_false List.not_mem_nil
      intro hi
      exact hnone ⟨hi.1.1, hi.1.2.1⟩
    · intro i hi
      cases hi
    · intro i hne
      simp [Function.update_apply, hname] at hne
    · intro i hmark
      obtain ⟨htemp, hdirty⟩ := h.nameless (hname i)
      simp [Function.update_apply, htemp, hdirty] at hmark
  · rename_i hsize
    exact ⟨h, Nat.pos_of_ne_zero hsize⟩

theorem Orderly.growVfdCache {n : Nat} (h : Orderly st none) (hpos : 0 < st.sizeVfdCache)
    (hn : st.sizeVfdCache < n) (hfree : st.nextFree 0 = 0) : Orderly (growVfdCache st n) none := by
  have hbeyond : ∀ i : Nat, st.sizeVfdCache ≤ i → st.filename i = none := by
    intro i hle
    by_contra hne
    have hlt := (h.within i hne).2
    omega
  have hname : (Fd.growVfdCache st n).filename = st.filename := fill_same fun i hle _ => hbeyond i hle
  have hnone : ∀ i, ¬ Spare st i := by
    obtain ⟨l, hchain, hmem⟩ := h.free
    obtain rfl : l = [] := hchain.unique hfree
    intro i hi
    exact absurd ((hmem i).mpr ⟨hi, nofun⟩) List.not_mem_nil
  constructor
  · exact (fill_of_lt hpos).trans h.anchor
  · refine ⟨_, growVfdCache_chain hpos hn, ?_⟩
    intro i
    rw [List.mem_range'_1, Nat.add_sub_cancel' (Nat.le_of_lt hn)]
    constructor
    · intro ⟨hle, hlt⟩
      refine ⟨⟨Nat.lt_of_lt_of_le hpos hle, hlt, ?_⟩, nofun⟩
      rw [hname]
      exact hbeyond i hle
    · intro ⟨⟨hi, hlt, hi'⟩, _⟩
      rw [hname] at hi'
      refine ⟨Nat.not_lt.mp ?_, hlt⟩
      intro hold
      exact hnone i ⟨hi, hold, hi'⟩
  · intro i hi
    cases hi
  · intro i hne
    rw [hname] at hne
    obtain ⟨hi, hlt⟩ := h.within i hne
    exact ⟨hi, Nat.lt_trans hlt hn⟩
  · intro i hmark
    rw [hname]
    apply h.marked
    simp only [Fd.growVfdCache, fill] at hmark
    split at hmark
    · simp at hmark
    · exact hmark

/-- The first slot of the free list is taken off. -/
theorem Orderly.pop (h : Orderly st none) (hne : st.nextFree 0 ≠ 0) :
    Orderly { st with nextFree := Function.update st.nextFree 0 (st.nextFree (st.nextFree 0)) }
      (some (st.nextFree 0)) := by
  obtain ⟨l, hchain, hmem⟩ := h.free
  cases l with
  | nil => exact absurd hchain hne
  | cons x l =>
    have hnodup := hchain.nodup
    have hpop := chain_pop hchain
    obtain ⟨rfl, hx, -⟩ := hchain
    obtain ⟨hspare, -⟩ := (hmem (st.nextFree 0)).mp List.mem_cons_self
    have hnot : st.nextFree 0 ∉ l := (List.nodup_cons.mp hnodup).1
    refine ⟨h.anchor, ⟨l, hpop, ?_⟩, ?_, h.within, h.marked⟩
    · intro i
      constructor
      · intro hi
        refine ⟨((hmem i).mp (List.mem_cons_of_mem _ hi)).1, ?_⟩
        intro heq
        rw [Option.some.inj heq] at hi
        exact hnot hi
      · intro ⟨hi, hne'⟩
        rcases List.mem_cons.mp ((hmem i).mpr ⟨hi, nofun⟩) with rfl | hm
        · exact absurd rfl hne'
        · exact hm
    · intro i hi
      rw [Option.some.inj hi]
      exact hspare

theorem Orderly.allocateVfd (h : Orderly st none) :
    Ends (fun _ => True) (allocateVfd st) fun r =>
      Orderly r.2 (some r.1) ∧ r.2.numAllocatedFiles = st.numAllocatedFiles := by
  obtain ⟨hinit, hpos⟩ := h.initVfdCache
  have hnum : (Fd.initVfdCache st).numAllocatedFiles = st.numAllocatedFiles := by
    unfold Fd.initVfdCache
    split <;> rfl
  unfold Fd.allocateVfd
  dsimp only
  split
  · rename_i hzero
    split
    · have hgrown := hinit.growVfdCache hpos (newCacheSize_gt _ hpos) hzero
      refine ⟨hgrown.pop ?_, hnum⟩
      rw [growVfdCache_nextFree_zero]
      exact Nat.pos_iff_ne_zero.mp hpos
    · trivial
  · rename_i hne
    exact ⟨hinit.pop hne, hnum⟩

theorem freeVfd_filename (st : FdState σ) (file i : File) :
    (freeVfd st file).filename i = none ↔ i = file ∨ st.filename i = none := by
  by_cases hi : i = file <;> simp [freeVfd, hi]

theorem Orderly.freeVfd (h : Orderly st limbo) (huse : st.filename file ≠ none ∨ some file = limbo)
    (hlimbo : ∀ i, some i = limbo → i = file) : Orderly (freeVfd st file) none := by
  have hfile : 0 < file ∧ file < st.sizeVfdCache := by
    rcases huse with hname | hlim
    · exact h.within file hname
    · exact ⟨(h.taken file hlim).1, (h.taken file hlim).2.1⟩
  have hzero : file ≠ 0 := Nat.pos_iff_ne_zero.mp hfile.1
  obtain ⟨l, hchain, hmem⟩ := h.free
  have hnot : file ∉ l := by
    intro hin
    obtain ⟨hspare, hne⟩ := (hmem file).mp hin
    exact huse.elim (fun hname => hname hspare.2.2) hne
  constructor
  · exact h.anchor
  · refine ⟨file :: l, chain_freeVfd hchain hzero hnot, ?_⟩
    intro i
    have hiff : Spare (Fd.freeVfd st file) i ↔ i = file ∨ Spare st i := by
      unfold Spare
      rw [freeVfd_filename]
      constructor
      · intro ⟨hi, hlt, hor⟩
        exact hor.imp_right fun hname => ⟨hi, hlt, hname⟩
      · intro hor
        rcases hor with rfl | ⟨hi, hlt, hname⟩
        · exact ⟨hfile.1, hfile.2, .inl rfl⟩
        · exact ⟨hi, hlt, .inr hname⟩
    rw [hiff, List.mem_cons, hmem]
    by_cases hi : i = file
    · simp [hi]
    · have hne : some i ≠ limbo := fun heq => hi (hlimbo i heq)
      simp [hi, hne]
  · intro i hi
    cases hi
  · intro i hne
    have hname : st.filename i ≠ none := fun hnone => hne ((freeVfd_filename st file i).mpr (.inr hnone))
    exact h.within i hname
  · intro i hmark
    rw [ne_eq, freeVfd_filename]
    by_cases hi : i = file
    · simp [Fd.freeVfd, hi] at hmark
    · simp only [Fd.freeVfd, Function.update_of_ne hi] at hmark
      simp [hi, h.marked i hmark]

theorem Orderly.fillSlot {filename : FileName} {flags : OpenFlags} {mode : Nat} (h : Orderly st (some file)) :
    Orderly (st.fillSlot file filename flags mode) none := by
  have hspare := h.taken file rfl
  have hname : ∀ i, (st.fillSlot file filename flags mode).filename i = none ↔
      i ≠ file ∧ st.filename i = none := by
    intro i
    by_cases hi : i = file <;> simp [FdState.fillSlot, hi]
  constructor
  · exact h.anchor
  · obtain ⟨l, hchain, hmem⟩ := h.free
    refine ⟨l, hchain, ?_⟩
    intro i
    rw [hmem]
    simp only [Spare, hname, ne_eq, Option.some.injEq, reduceCtorEq, not_false_eq_true, and_true]
    constructor
    · intro ⟨⟨hi, hlt, hnone⟩, hne⟩
      exact ⟨hi, hlt, hne, hnone⟩
    · intro ⟨hi, hlt, hne, hnone⟩
      exact ⟨⟨hi, hlt, hnone⟩, hne⟩
  · intro i hi
    cases hi
  · intro i hne
    by_cases hi : i = file
    · rw [hi]
      exact ⟨hspare.1, hspare.2.1⟩
    · exact h.within i fun hnone => hne ((hname i).mpr ⟨hi, hnone⟩)
  · intro i hmark hnone
    obtain ⟨hi, hnone⟩ := (hname i).mp hnone
    simp only [FdState.fillSlot, Function.update_of_ne hi] at hmark
    exact h.marked i hmark hnone

/-! ## Behind the callers' backs -/

theorem sys_sameNames {α : Type} {call : σ → Option (α × σ)} :
    Ends (fun _ => True) (st.sys call) fun r => SameNames st r.2 := by
  apply (sys_ends fun _ => trivial).mono (fun _ h => h)
  intro r ⟨a, s, _, hr⟩
  rw [hr]
  exact ⟨rfl, rfl, rfl, rfl, rfl, fun _ h => h, rfl⟩

theorem clean_dirty {dirty : File → Bool} {i : File} (h : Function.update dirty file false i = true) :
    dirty i = true := by
  by_cases hi : i = file
  · simp [hi] at h
  · rwa [Function.update_of_ne hi] at h

theorem lruDelete_sameNames : Ends (fun _ => True) (lruDelete os st file) (SameNames st) := by
  by_cases hfile : file = 0
  · simp [lruDelete, delete, hfile, Ends, bind, Except.bind]
  · apply (lruDelete_ends (tolerates_any os).deletes hfile).mono (fun _ h => h)
    intro st' ⟨pos, _, _, os', _, _, _, hst'⟩
    rw [hst']
    refine ⟨rfl, rfl, rfl, rfl, rfl, fun _ h => clean_dirty h, ?_⟩
    exact Function.update_of_ne (Ne.symm hfile) _ _

theorem sameNames_survives (st₀ : FdState σ) : Survives os (fun _ => True) (SameNames st₀) := by
  constructor
  · apply releases_of trivial trivial trivial
    · intro st file h
      exact lruDelete_sameNames.mono (fun _ h => h) fun _ h' => h.trans h'
    · intro st file h
      exact h.trans ⟨rfl, rfl, rfl, rfl, rfl, fun _ h => h, rfl⟩
  · intro filename flags mode st errno s h _
    exact h.trans ⟨rfl, rfl, rfl, rfl, rfl, fun _ h => h, rfl⟩

theorem setFd_sameNames {fd : Int} (hfile : file ≠ 0) : SameNames st (st.setFd file fd) :=
  ⟨rfl, rfl, rfl, rfl, rfl, fun _ h => h, Function.update_of_ne (Ne.symm hfile) _ _⟩

theorem lruInsert_sameNames (hclosed : st.fd file = VFD_CLOSED) :
    Ends (fun _ => True) (lruInsert os st file) fun r => SameNames st r.2 := by
  by_cases hfile : file = 0
  · simp [lruInsert, hfile, Ends]
  · apply (lruInsert_outcome (sameNames_survives st) trivial trivial trivial hfile (.refl st) hclosed).mono
      (fun _ h => h)
    intro r ⟨st₁, h₁, houtcome⟩
    have hset : ∀ fd, SameNames st (st₁.setFd file fd) := fun fd => h₁.trans (setFd_sameNames hfile)
    rcases houtcome with rfl | ⟨_, _, _, fd, s, _, ⟨_, rfl⟩ | ⟨_, s', _, rfl⟩⟩
    · exact hset (-1)
    · exact (hset fd).trans ⟨rfl, rfl, rfl, rfl, rfl, fun _ h => h, rfl⟩
    · exact (hset fd).trans ⟨rfl, rfl, rfl, rfl, rfl, fun _ h => h, rfl⟩

theorem fileAccess_sameNames : Ends (fun _ => True) (fileAccess os st file) fun r => SameNames st r.2 := by
  unfold fileAccess
  split
  · rename_i hclosed
    apply Ends.bind (lruInsert_sameNames hclosed)
    intro r h
    dsimp only
    split
    · exact h
    · exact h.trans ⟨rfl, rfl, rfl, rfl, rfl, fun _ h => h, rfl⟩
  · split
    · by_cases hfile : file = 0
      · simp [delete, hfile, Ends, bind, Except.bind]
      · rw [delete_eq hfile, ok_bind, insert_eq hfile]
        exact ⟨rfl, rfl, rfl, rfl, rfl, fun _ h => h, rfl⟩
    · exact ⟨rfl, rfl, rfl, rfl, rfl, fun _ h => h, rfl⟩

theorem SameNames.setPos (h : SameNames st st') (pos : File → Int) : SameNames st { st' with seekPos := pos } :=
  h.trans ⟨rfl, rfl, rfl, rfl, rfl, fun _ h => h, rfl⟩

theorem SameNames.note (h : SameNames st st') (ev : Event) : SameNames st (st'.note ev) :=
  h.trans ⟨rfl, rfl, rfl, rfl, rfl, fun _ h => h, rfl⟩

theorem SameNames.sys {α : Type} {call : σ → Option (α × σ)} (h : SameNames st st') :
    Ends (fun _ => True) (st'.sys call) fun r => SameNames st r.2 :=
  sys_sameNames.mono (fun _ h => h) fun _ h' => h.trans h'

/-! ## The calls -/

theorem fileRead_sameNames {amount : Nat} :
    Ends (fun _ => True) (fileRead os st file amount) fun r => SameNames st r.2 := by
  unfold fileRead
  split
  · trivial
  · apply Ends.bind fileAccess_sameNames
    intro r h
    apply Ends.bind h.sys
    intro r' h'
    dsimp only
    split <;> exact h'.setPos _

theorem fileWrite_sameNames {buffer : List UInt8} :
    Ends (fun _ => True) (fileWrite os st file buffer) fun r => SameNames st r.2 := by
  unfold fileWrite
  split
  · trivial
  · apply Ends.bind fileAccess_sameNames
    intro r h
    apply Ends.bind h.sys
    intro r' h'
    dsimp only
    split
    · exact (h'.setPos _).note _
    · exact h'.setPos _

theorem seekFile_sameNames {offset : Int} {whence : Whence} (h : SameNames st st') :
    Ends (fun _ => True) (seekFile os st' file offset whence) (SameNames st) := by
  unfold seekFile
  apply Ends.bind h.sys
  intro r h'
  exact h'.setPos _

theorem fileSeek_sameNames {offset : Int} {whence : Whence} :
    Ends (fun _ => True) (fileSeek os st file offset whence) fun r => SameNames st r.2 := by
  have hrefl : SameNames st st := .refl st
  unfold fileSeek
  split
  · trivial
  · split
    · have hclosed : Ends (fun _ => True) (seekClosed os st file offset whence) (SameNames st) := by
        unfold seekClosed
        cases whence with
        | SEEK_SET =>
          dsimp only
          split
          · trivial
          · exact hrefl.setPos _
        | SEEK_CUR => exact hrefl.setPos _
        | SEEK_END => exact Ends.bind fileAccess_sameNames fun r h => seekFile_sameNames h
        | invalid => trivial
      exact Ends.bind hclosed fun st' h => h
    · have hopen : Ends (fun _ => True) (seekOpen os st file offset whence) (SameNames st) := by
        unfold seekOpen
        cases whence with
        | SEEK_SET =>
          dsimp only
          split
          · trivial
          · split
            · exact seekFile_sameNames hrefl
            · exact hrefl
        | SEEK_CUR =>
          dsimp only
          split
          · exact seekFile_sameNames hrefl
          · exact hrefl
        | SEEK_END => exact seekFile_sameNames hrefl
        | invalid => trivial
      exact Ends.bind hopen fun st' h => h

theorem SameNames.clean (h : SameNames st st') :
    SameNames st { st' with dirty := Function.update st'.dirty file false } :=
  h.trans ⟨rfl, rfl, rfl, rfl, rfl, fun _ h => clean_dirty h, rfl⟩

theorem fileSync_sameNames : Ends (fun _ => True) (fileSync os st file) fun r => SameNames st r.2 := by
  have hrefl : SameNames st st := .refl st
  unfold fileSync
  split
  · trivial
  split
  · exact hrefl
  split
  · exact hrefl.clean
  split
  · rename_i hclosed
    apply Ends.bind (lruInsert_sameNames hclosed)
    intro r h
    dsimp only
    split
    · exact h
    · apply Ends.bind (pgFsync_ends fun _ => trivial)
      intro r' ⟨done, os', _, hr'⟩
      have h' : SameNames st r'.2 := by
        rw [hr']
        exact h.trans ⟨rfl, rfl, rfl, rfl, rfl, fun _ h => h, rfl⟩
      split
      · exact h'.clean
      · exact h'
  · exact hrefl

theorem fileTruncate_sameNames {offset : Int} :
    Ends (fun _ => True) (fileTruncate os st file offset) fun r => SameNames st r.2 := by
  unfold fileTruncate
  split
  · trivial
  · apply Ends.bind fileSync_sameNames
    intro r h
    apply Ends.bind fileAccess_sameNames
    intro r' h'
    exact Ends.bind (h.trans h').sys fun _ h'' => h''

theorem closeVfds_sameNames {is : List File} (h : SameNames st st') :
    Ends (fun _ => True) (closeVfds os is st') (SameNames st) := by
  induction is generalizing st' with
  | nil => exact h
  | cons i is ih =>
    unfold closeVfds
    split
    · exact Ends.bind lruDelete_sameNames fun _ h' => ih (h.trans h')
    · exact ih h

theorem closeAllVfds_sameNames : Ends (fun _ => True) (closeAllVfds os st) (SameNames st) := by
  unfold closeAllVfds
  split
  · split
    · trivial
    · exact closeVfds_sameNames (.refl st)
  · exact .refl st

/-! ## Opening and closing -/

theorem Orderly.fileNameOpenFileAux {filename : FileName} {flags : OpenFlags} {mode : Nat}
    (h : Orderly st none) : Ends (fun _ => True) (fileNameOpenFileAux os st filename flags mode) fun r =>
      Orderly r.2 none ∧ r.2.numAllocatedFiles = st.numAllocatedFiles ∧
        ∀ file, r.1 = some file → r.2.filename file ≠ none := by
  unfold Fd.fileNameOpenFileAux
  apply Ends.bind h.allocateVfd
  intro ⟨file, st₀⟩ ⟨h₀, hnum⟩
  have hfile : file ≠ 0 := Nat.pos_iff_ne_zero.mp (h₀.taken file rfl).1
  have hI : Survives os (fun _ => True) (SameNames st₀) := sameNames_survives st₀
  apply Ends.bind (hI.releases.whileFull (.refl st₀) (Nat.le_refl _))
  intro st₁ h₁
  apply Ends.bind (hI.releases.open (fun _ _ _ => trivial) (hI.failure _ _ _) h₁ (Nat.le_refl _))
  intro ⟨fd, st₃⟩ ⟨st₂, h₂, hopen⟩
  have h₃ : SameNames st₀ st₃ := by
    rcases hopen with ⟨hr, _⟩ | ⟨n, s, _, hr⟩
    · rwa [(Prod.mk.inj hr).2]
    · rw [(Prod.mk.inj hr).2]
      exact h₂.trans ⟨rfl, rfl, rfl, rfl, rfl, fun _ h => h, rfl⟩
  have hset : SameNames st₀ (st₃.setFd file fd) := h₃.trans (setFd_sameNames hfile)
  have hnum' := hset.numAllocatedFiles.trans hnum
  dsimp only
  split
  · exact ⟨(h₀.same hset).freeVfd (.inr rfl) fun i hi => Option.some.inj hi, hnum', nofun⟩
  · rw [insert_eq hfile]
    have hlinked : SameNames st₀ ((({ st₃.setFd file fd with nFile := (st₃.setFd file fd).nFile + 1 }).linked
        file).note (.opened file)) :=
      hset.trans ⟨rfl, rfl, rfl, rfl, rfl, fun _ h => h, rfl⟩
    refine ⟨(h₀.same hlinked).fillSlot, hnum', ?_⟩
    intro file' hfile'
    obtain rfl := Option.some.inj hfile'
    simp [FdState.fillSlot]

theorem Orderly.mark (h : Orderly st limbo) (hname : st.filename file ≠ none) (b : Bool) :
    Orderly { st with temporary := Function.update st.temporary file b } limbo := by
  refine ⟨h.anchor, h.free, h.taken, h.within, ?_⟩
  intro i hmark
  by_cases hi : i = file
  · rwa [hi]
  · apply h.marked i
    simpa [hi] using hmark

theorem Orderly.fileClose (h : Orderly st none) : Ends (fun _ => True) (fileClose os st file) fun st' =>
    Orderly st' none ∧ st'.numAllocatedFiles = st.numAllocatedFiles := by
  apply (fileClose_ends.mono (fun _ _ => trivial) fun _ h => h).mono (fun _ h => h)
  intro st' ⟨hvalid, st₁, os', _, hname, hst₁, hst'⟩
  have hsame : SameNames st st₁ := by
    rcases hst₁ with rfl | ⟨_, os₁, rfl⟩
    · exact .refl _
    · refine ⟨rfl, rfl, rfl, rfl, rfl, fun _ h => clean_dirty h, ?_⟩
      exact Function.update_of_ne (Ne.symm hvalid.ne_zero) _ _
  have hnamed : st₁.filename file ≠ none := by
    rw [hname]
    exact hvalid.2.2
  have hos : SameNames st₁ { st₁ with os := os' } := ⟨rfl, rfl, rfl, rfl, rfl, fun _ h => h, rfl⟩
  have h₁ : Orderly { st₁ with temporary := Function.update st₁.temporary file false, os := os' } none :=
    ((h.same hsame).same hos).mark hnamed false
  rw [hst']
  exact ⟨h₁.freeVfd (.inl hnamed) nofun, hsame.numAllocatedFiles⟩

/-- Every call keeps what the slots are about; the end of a transaction is looked at on its own. -/
theorem Orderly.step {op : Op} (h : Orderly st none) (hop : op ≠ .endXact) :
    Ends (fun _ => True) (step os st op) fun r =>
      Orderly r.2 none ∧ r.2.numAllocatedFiles = st.numAllocatedFiles := by
  have hsame : ∀ {st'}, SameNames st st' → Orderly st' none ∧ st'.numAllocatedFiles = st.numAllocatedFiles :=
    fun hs => ⟨h.same hs, hs.numAllocatedFiles⟩
  have hnone : ∀ {x : Except Fault (FdState σ)}, Ends (fun _ => True) x (fun st' =>
      Orderly st' none ∧ st'.numAllocatedFiles = st.numAllocatedFiles) →
      Ends (fun _ => True) (returnsNone x) fun r =>
        Orderly r.2 none ∧ r.2.numAllocatedFiles = st.numAllocatedFiles :=
    fun hx => Ends.bind hx fun _ h' => h'
  cases op with
  | openFile filename flags mode =>
    have hopen : Ends (fun _ => True) (fileNameOpenFile os st filename flags mode) fun r =>
        Orderly r.2 none ∧ r.2.numAllocatedFiles = st.numAllocatedFiles := by
      unfold fileNameOpenFile
      apply Ends.bind h.fileNameOpenFileAux
      intro r ⟨h', hnum, _⟩
      dsimp only
      split
      · exact ⟨h', hnum⟩
      · trivial
    exact Ends.bind hopen fun _ h' => h'
  | close file => exact hnone h.fileClose
  | unlink file =>
    apply hnone
    unfold fileUnlink
    split
    · trivial
    · rename_i hvalid
      exact (h.mark (not_not.mp hvalid).2.2 true).fileClose
  | read file amount => exact Ends.bind fileRead_sameNames fun _ hs => hsame hs
  | write file buffer => exact Ends.bind fileWrite_sameNames fun _ hs => hsame hs
  | seek file offset whence => exact Ends.bind fileSeek_sameNames fun _ hs => hsame hs
  | sync file => exact Ends.bind fileSync_sameNames fun _ hs => hsame hs
  | truncate file offset => exact Ends.bind fileTruncate_sameNames fun _ hs => hsame hs
  | markDirty file =>
    apply hnone
    unfold fileMarkDirty
    split
    · trivial
    · rename_i hvalid
      refine ⟨⟨h.anchor, h.free, h.taken, h.within, ?_⟩, rfl⟩
      intro i hmark
      by_cases hi : i = file
      · rw [hi]
        exact (not_not.mp hvalid).2.2
      · apply h.marked i
        simpa [hi] using hmark
  | releaseLru =>
    have hI : Survives os (fun _ => True) (SameNames st) := sameNames_survives st
    exact Ends.bind (hI.releases st (.refl st)) fun _ hs => hsame hs.1
  | closeAll => exact hnone (closeAllVfds_sameNames.mono (fun _ h => h) fun _ hs => hsame hs)
  | endXact => exact absurd rfl hop

theorem orderly_init (databasePath : FileName) (enableFsync : Bool) (s : σ) :
    Orderly (FdState.init databasePath enableFsync s) none := by
  refine ⟨rfl, ⟨[], rfl, ?_⟩, nofun, ?_, ?_⟩
  · intro i
    apply iff_of_false List.not_mem_nil
    intro hi
    exact Nat.not_lt_zero i hi.1.2.1
  · intro i hne
    exact absurd rfl hne
  · intro i hmark
    rcases hmark with hmark | hmark <;> cases hmark

end PostgresV7.Fd
