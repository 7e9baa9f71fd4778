import PostgresV7.Fd.Honest

/-!
# What failing calls leave of the files (`fd.c`)

A seek, a transfer or an `open` that fails leaves the files as they were. One case is
another matter: a file that could not be opened again is sought all the same, and so given
up.
-/

namespace PostgresV7.Fd

open Outcomes

variable {σ : Type} {os : Os σ} {view : σ → Kernel} {base : Nat → Prop} {Q : σ → (File → Prop) → Prop}
  {st st' : FdState σ} {k k' : Kernel} {limbo : Option File} {G : File → Prop} {file : File}
  {f f' : OpenFile} {allowed : Fault → Prop}

/-- The file of an open slot and its descriptor in the model move together. -/
theorem Tracks.move {os' : σ} {d : Nat} {p : Int} (h : Tracks view base Q st k limbo G)
    (hf : k.table file = some f) (hd : st.fd file = d)
    (hos : (view os').table = Function.update (view st.os).table d (some f'))
    (hk : k'.table = Function.update k.table file (some f'))
    (hdir : (view os').directory = (view st.os).directory) (hdir' : k'.directory = k.directory)
    (hdata : (view os').data = k'.data) (hnext : (view os').nextInode = k'.nextInode)
    (hsizes : ∀ inode, (k'.data inode).length ≤ maxOffset) (hinode : f'.inode = f.inode)
    (haccess : f'.access = f.access) (happend : f'.append = f.append) (hle : f'.pos ≤ maxOffset)
    (hpos : p = f'.pos ∨ p = FILE_UNKNOWN_POS) (hwatch : Q os' G) :
    Tracks view base Q { st with seekPos := Function.update st.seekPos file p, os := os' } k' limbo G := by
  have hopen : st.fd file ≠ VFD_CLOSED := by
    rw [hd]
    exact natCast_ne_closed d
  obtain ⟨pos, hsim, hpos'⟩ := h.sim
  refine ⟨⟨Function.update pos file p, ?_, ?_⟩, ?_, hwatch⟩
  · exact hsim.move hf hd hos hk hdir hdir' hdata hnext hsizes hinode haccess happend hle hpos
  · intro i hname hi
    show Function.update st.seekPos file p i = _
    by_cases hif : i = file
    · simp [hif]
    · simp [hif, hpos' i hname hi]
  · intro i hi
    obtain ⟨hname, hclosed, hunknown⟩ := h.givenUp i hi
    have hif : i ≠ file := by
      rintro rfl
      exact hopen hclosed
    exact ⟨hname, hclosed, (Function.update_of_ne hif _ _).trans hunknown⟩

theorem Tracks.nextInode (h : Tracks view base Q st k limbo G) : (view st.os).nextInode = k.nextInode := by
  obtain ⟨pos, hsim, -⟩ := h.sim
  exact hsim.nextInode

theorem Tracks.directory (h : Tracks view base Q st k limbo G) : (view st.os).directory = k.directory := by
  obtain ⟨pos, hsim, -⟩ := h.sim
  exact hsim.directory

theorem Tracks.sizes (h : Tracks view base Q st k limbo G) (inode : Nat) :
    (k.data inode).length ≤ maxOffset := by
  obtain ⟨pos, hsim, -⟩ := h.sim
  exact hsim.sizes inode

/-- The position of an open file is not known any more. -/
theorem Tracks.forget {os' : σ} (h : Tracks view base Q st k limbo G) (hopen : st.fd file ≠ VFD_CLOSED)
    (hview : view os' = view st.os) (hwatch : Q os' G) :
    Tracks view base Q { st with seekPos := Function.update st.seekPos file FILE_UNKNOWN_POS, os := os' }
      k limbo G := by
  obtain ⟨f, d, hf, hd, hd', hle, -⟩ := h.open hopen
  have htable : (view os').table = Function.update (view st.os).table d (some f) := by
    rw [hview, update_same hd']
  have hdata : (view os').data = k.data := by
    rw [hview]
    exact h.data
  have hnext : (view os').nextInode = k.nextInode := by
    rw [hview]
    exact h.nextInode
  exact h.move hf hd htable (update_same hf).symm (congrArg Kernel.directory hview) rfl hdata hnext h.sizes
    rfl rfl rfl hle (.inr rfl) hwatch

section

variable (hos : os.Honest view) (hQ : os.Watches Q) (hlenient : Lenient os view allowed)

include hos hQ hlenient

/-! ## Seeking -/

/-- A seek that the kernel can do, of a file that is open. -/
theorem Tracks.seekFile {offset : Int} {whence : Whence} {start pos : Nat}
    (h : Tracks view base Q st k none G) (hf : k.table file = some f) (hopen : st.fd file ≠ VFD_CLOSED)
    (hstart : k.origin f whence = some start) (hpos : (pos : Int) = start + offset) (hle : pos ≤ maxOffset) :
    Ends allowed (seekFile os st file offset whence) fun st' => st'.fd file ≠ VFD_CLOSED ∧
      ((st'.seekPos file = pos ∧ Tracks view base Q st' (k.setFile file { f with pos := pos }) none G) ∨
      (¬ os.Serves view ∧ st'.seekPos file = -1 ∧ Tracks view base Q st' k none G)) := by
  obtain ⟨g, d, hg, hd, hd', -, -⟩ := h.open hopen
  obtain rfl := Option.some.inj (hf.symm.trans hg)
  have horigin : (view st.os).origin f whence = some start := by
    rw [← hstart]
    cases whence with
    | SEEK_END => exact congrArg (fun data => some (data f.inode).length) h.data
    | SEEK_SET | SEEK_CUR | invalid => rfl
  have hdone := Kernel.lseek_done hd' horigin hpos hle
  unfold Fd.seekFile
  apply Ends.bind (sys_ends fun _ => hlenient.osFailed)
  rintro _ ⟨p, os', hcall, rfl⟩
  have hwatch : Q os' G := hQ.lseek _ _ _ _ _ _ _ hopen hcall h.watch
  rw [hd] at hcall
  refine ⟨hopen, ?_⟩
  cases p with
  | none =>
    refine .inr ⟨fun hserves => hserves.lseek _ _ _ _ _ _ hdone hcall, by simp, ?_⟩
    exact h.forget hopen (hos.lseekFails _ _ _ _ _ hcall) hwatch
  | some p =>
    obtain ⟨d', hdd, hseek⟩ := hos.lseek _ _ _ _ _ _ hcall
    obtain rfl : d = d' := Int.ofNat.inj hdd
    rw [hdone] at hseek
    obtain ⟨rfl, hview⟩ := Prod.mk.inj (Option.some.inj hseek)
    refine .inl ⟨by simp, ?_⟩
    have htable : (view os').table = Function.update (view st.os).table d (some { f with pos := pos }) :=
      congrArg Kernel.table hview.symm
    have hdata : (view os').data = k.data := (congrArg Kernel.data hview.symm).trans h.data
    have hnext : (view os').nextInode = k.nextInode := (congrArg Kernel.nextInode hview.symm).trans h.nextInode
    have hdir : (view os').directory = (view st.os).directory := by
      rw [← hview]
      rfl
    exact h.move hf hd htable rfl hdir rfl hdata hnext h.sizes rfl rfl rfl hle (.inl rfl) hwatch

omit hlenient in
/-- A seek without a descriptor gives the file up. -/
theorem Tracks.giveUp {offset : Int} {whence : Whence} (hosFailed : allowed .osFailed)
    (h : Tracks view base Q st k none G) (hf : k.table file = some f) (hclosed : st.fd file = VFD_CLOSED) :
    Ends allowed (Fd.seekFile os st file offset whence) fun st' => st'.seekPos file = -1 ∧
      Tracks view base Q st' k none fun i => G i ∨ i = file := by
  unfold Fd.seekFile
  apply Ends.bind (sys_ends fun _ => hosFailed)
  rintro _ ⟨p, os', hcall, rfl⟩
  rw [hclosed] at hcall
  cases p with
  | some p =>
    obtain ⟨d, hd, -⟩ := hos.lseek _ _ _ _ _ _ hcall
    exact absurd hd.symm (natCast_ne_closed d)
  | none =>
    have hwatch : Q os' fun i => G i ∨ i = file :=
      hQ.givesUp _ _ _ _ _ _ _ file (.inr rfl) hcall h.watch
    obtain ⟨pos, hsim, hpos⟩ := h.sim
    refine ⟨by simp, ⟨pos, ?_, ?_⟩, ?_, hwatch⟩
    · unfold FdState.seen
      dsimp only
      rw [hos.lseekFails _ _ _ _ _ hcall]
      exact hsim
    · intro i hname hi
      obtain ⟨hG, hif⟩ := not_or.mp hi
      exact (Function.update_of_ne hif _ _).trans (hpos i hname hG)
    · intro i hi
      by_cases hif : i = file
      · subst hif
        exact ⟨hsim.filename_ne_none hf, hclosed, by simp [FILE_UNKNOWN_POS]⟩
      · obtain ⟨hname, hclosed', hunknown⟩ := h.givenUp i (hi.resolve_right hif)
        exact ⟨hname, hclosed', (Function.update_of_ne hif _ _).trans hunknown⟩

/-- A seek to the end. It fails where the file was given up, or is given up by it, or where
`lseek` fails. -/
theorem Tracks.fileSeek_end {pos : Nat} (hshort : os.Short) (h : Tracks view base Q st k none G)
    (hf : k.table file = some f) (hfpos : toInt f.pos ≠ -1) (hG : G file → allowed .assertion)
    (hpos : (k.data f.inode).length = pos) :
    Ends allowed (fileSeek os st file 0 .SEEK_END) fun r =>
      (¬ G file ∧ r.1 = pos ∧ r.2.fd file ≠ VFD_CLOSED ∧ r.2.seekPos file = pos ∧
        Tracks view base Q r.2 (k.setFile file { f with pos := pos }) none G) ∨
      (¬ os.Serves view ∧ r.1 = -1 ∧ ∃ G' : File → Prop, (∀ i, G' i → G i ∨ i = file) ∧
        Tracks view base Q r.2 k none G') := by
  have hle : pos ≤ maxOffset := hpos ▸ h.sizes f.inode
  have hstart : k.origin f .SEEK_END = some pos := congrArg some hpos
  have hsum : (pos : Int) = pos + 0 := (Int.add_zero _).symm
  unfold Fd.fileSeek
  rw [if_neg (not_not.mpr (h.valid hf))]
  by_cases hclosed : st.fd file = VFD_CLOSED
  · rw [if_pos hclosed]
    refine Ends.bind (Ends.bind (h.fileAccess hos hQ hlenient hshort hf hfpos hG) fun r h₁ => ?_) fun st₂ h₂ => h₂
    obtain ⟨h₁, hreached⟩ := h₁
    rcases hreached.found with ⟨hgiven, hopen, -⟩ | ⟨hfails, hclosed₁⟩
    · apply (h₁.seekFile hos hQ hlenient hf hopen hstart hsum hle).mono (fun _ h => h)
      rintro st₂ ⟨hopen₂, ⟨hpos₂, h₂⟩ | ⟨hfails, hpos₂, h₂⟩⟩
      · exact .inl ⟨hgiven, hpos₂, hopen₂, hpos₂, h₂⟩
      · exact .inr ⟨hfails, hpos₂, G, fun _ => .inl, h₂⟩
    · apply (h₁.giveUp hos hQ hlenient.osFailed hf hclosed₁).mono (fun _ h => h)
      rintro st₂ ⟨hpos₂, h₂⟩
      exact .inr ⟨hfails, hpos₂, _, fun _ h => h, h₂⟩
  · rw [if_neg hclosed]
    refine Ends.bind (h.seekFile hos hQ hlenient hf hclosed hstart hsum hle) fun st₂ h₂ => ?_
    rcases h₂ with ⟨hopen₂, ⟨hpos₂, h₂⟩ | ⟨hfails, hpos₂, h₂⟩⟩
    · exact .inl ⟨h.not_givenUp hclosed, hpos₂, hopen₂, hpos₂, h₂⟩
    · exact .inr ⟨hfails, hpos₂, G, fun _ => .inl, h₂⟩

omit hos hQ hlenient in
/-- The position of a file that is closed moves in its slot only. -/
theorem Tracks.place {pos : Nat} (h : Tracks view base Q st k none G) (hf : k.table file = some f)
    (hclosed : st.fd file = VFD_CLOSED) (hG : ¬ G file) (hle : pos ≤ maxOffset) :
    Tracks view base Q { st with seekPos := Function.update st.seekPos file (pos : Int) }
      (k.setFile file { f with pos := pos }) none G := by
  obtain ⟨pos', hsim, hpos⟩ := h.sim
  refine ⟨⟨Function.update pos' file (pos : Int), hsim.place hf hclosed hle, ?_⟩, ?_, h.watch⟩
  · intro i hname hi
    show Function.update st.seekPos file (pos : Int) i = _
    by_cases hif : i = file
    · simp [hif]
    · simp [hif, hpos i hname hi]
  · intro i hi
    obtain ⟨hname, hclosed', hunknown⟩ := h.givenUp i hi
    have hif : i ≠ file := by
      rintro rfl
      exact hG hi
    exact ⟨hname, hclosed', (Function.update_of_ne hif _ _).trans hunknown⟩

theorem Tracks.fileSeek_set {pos : Nat} (h : Tracks view base Q st k none G) (hf : k.table file = some f)
    (hG : ¬ G file) (hle : pos ≤ maxOffset) :
    Ends allowed (fileSeek os st file pos .SEEK_SET) fun r =>
      (st.fd file ≠ VFD_CLOSED → r.2.fd file ≠ VFD_CLOSED) ∧
      ((r.1 = pos ∧ r.2.seekPos file = pos ∧
        Tracks view base Q r.2 (k.setFile file { f with pos := pos }) none G) ∨
      (¬ os.Serves view ∧ r.1 = -1 ∧ Tracks view base Q r.2 k none G)) := by
  have hnonneg : ¬ (pos : Int) < 0 := by omega
  unfold Fd.fileSeek
  rw [if_neg (not_not.mpr (h.valid hf))]
  by_cases hclosed : st.fd file = VFD_CLOSED
  · rw [if_pos hclosed]
    unfold seekClosed
    dsimp only
    rw [if_neg hnonneg]
    exact ⟨fun hopen => absurd hclosed hopen, .inl ⟨by simp, by simp, h.place hf hclosed hG hle⟩⟩
  · rw [if_neg hclosed]
    unfold seekOpen
    dsimp only
    rw [if_neg hnonneg]
    by_cases hsame : st.seekPos file = pos
    · rw [if_neg (not_not.mpr hsame)]
      obtain ⟨g, d, hg, -, -, -, hplace⟩ := h.open hclosed
      obtain rfl := Option.some.inj (hf.symm.trans hg)
      have hfpos : f.pos = pos := by
        rcases hplace with hplace | hplace
        · omega
        · rw [FILE_UNKNOWN_POS] at hplace
          omega
      refine ⟨fun hopen => hopen, .inl ⟨hsame, hsame, ?_⟩⟩
      rw [← hfpos, Kernel.setFile_self f hf]
      exact h
    · rw [if_pos hsame]
      refine Ends.bind (h.seekFile hos hQ hlenient hf hclosed rfl (Int.zero_add _).symm hle) fun st₂ h₂ => ?_
      obtain ⟨hopen₂, ⟨hpos₂, h₂⟩ | ⟨hfails, hpos₂, h₂⟩⟩ := h₂
      · exact ⟨fun _ => hopen₂, .inl ⟨hpos₂, hpos₂, h₂⟩⟩
      · exact ⟨fun _ => hopen₂, .inr ⟨hfails, hpos₂, h₂⟩⟩

/-! ## Transfers -/

theorem Tracks.fileWrite {buffer : List UInt8} (h : Tracks view base Q st k none G)
    (hf : k.table file = some f) (happend : f.append = false) (hopen : st.fd file ≠ VFD_CLOSED)
    (hplace : st.seekPos file = f.pos) :
    Ends allowed (fileWrite os st file buffer) fun r => r.2.fd file ≠ VFD_CLOSED ∧
      ((∃ (n : Nat) (k' : Kernel), r.1 = n ∧ n ≤ buffer.length ∧
        k.write file (buffer.take n) = some (n, k') ∧ Tracks view base Q r.2 k' none G) ∨
      (r.1 = -1 ∧ Tracks view base Q r.2 k none G)) := by
  have hvalid := h.valid hf
  obtain ⟨hfd, -, hseek, -⟩ := touched_fields st file
  have h₁ := h.touched hopen
  have hopen₁ : (st.touched file).fd file ≠ VFD_CLOSED := by rwa [hfd]
  unfold Fd.fileWrite
  rw [if_neg (not_not.mpr hvalid), fileAccess_open hvalid.ne_zero hopen, ok_bind]
  dsimp only
  generalize st.touched file = st₁ at h₁ hopen₁ hseek
  rw [← hseek] at hplace
  obtain ⟨g, d, hg, hd, hd', -, -⟩ := h₁.open hopen₁
  obtain rfl := Option.some.inj (hf.symm.trans hg)
  apply Ends.bind (sys_ends fun _ => hlenient.osFailed)
  rintro _ ⟨r, os', hcall, rfl⟩
  have hwatch : Q os' G := hQ.write _ _ _ _ _ _ hcall h₁.watch
  cases r with
  | none => exact ⟨hopen₁, .inr ⟨rfl, h₁.forget hopen₁ (hos.writeFails _ _ _ _ hcall) hwatch⟩⟩
  | some n =>
    refine ⟨hopen₁, .inl ⟨n, ?_⟩⟩
    obtain ⟨d', hdd, hn, hwrite⟩ := hos.write _ _ _ _ _ hcall
    obtain rfl : d = d' := Int.ofNat.inj (hd.symm.trans hdd)
    obtain ⟨haccess, hlen, hle, hview⟩ := Kernel.write_eq hd' happend hwrite
    have hdone := Kernel.write_done hf happend haccess hle
    rw [← hlen] at hle hview hdone
    refine ⟨_, rfl, hn, hdone, ?_⟩
    have hnote : ∀ {st₂ : FdState σ} {k' : Kernel}, Tracks view base Q st₂ k' none G →
        Tracks view base Q (st₂.note (.written file n)) k' none G :=
      fun h₂ => h₂.relink (h₂.linked.of_eq rfl rfl rfl rfl rfl rfl rfl rfl) rfl rfl rfl rfl rfl rfl
    apply hnote
    by_cases hnil : buffer.take n = []
    · have hzero : n = 0 := by rw [hlen, hnil, List.length_nil]
      rw [if_pos hnil] at hview ⊢
      subst hzero
      exact h₁.forget hopen₁ hview hwatch
    · have hpos : 0 < n := by
        rw [hlen]
        exact List.length_pos_iff.mpr hnil
      have hadvance : FdState.advance { st₁ with os := os' } file n =
          { st₁ with
            seekPos := Function.update st₁.seekPos file ((f.pos + n : Nat) : Int)
            os := os' } := by
        unfold FdState.advance
        dsimp only
        rw [if_pos hpos, hplace, ← Int.natCast_add, toLong_of_le (hle hnil)]
      rw [if_neg hnil] at hview ⊢
      rw [hadvance]
      have htable : (view os').table = Function.update (view st₁.os).table d
          (some { f with pos := f.pos + n }) := by
        rw [hview]
        rfl
      have hdir : (view os').directory = (view st₁.os).directory := by
        rw [hview]
        rfl
      have hnext : (view os').nextInode = k.nextInode := by
        rw [hview]
        exact h₁.nextInode
      have hk : ((k.setData f.inode (Kernel.overwrite (k.data f.inode) f.pos (buffer.take n))).setFile file
          { f with pos := f.pos + n }).table =
            Function.update k.table file (some { f with pos := f.pos + n }) := rfl
      have hdata : (view os').data =
          (k.setData f.inode (Kernel.overwrite (k.data f.inode) f.pos (buffer.take n))).data := by
        rw [hview]
        show Function.update (view st₁.os).data f.inode _ = Function.update k.data f.inode _
        rw [h₁.data]
      have hsizes : ∀ inode, ((k.setData f.inode
          (Kernel.overwrite (k.data f.inode) f.pos (buffer.take n))).data inode).length ≤ maxOffset := by
        apply Kernel.setData_length _ h₁.sizes
        apply overwrite_length (h₁.sizes _)
        rw [← hlen]
        exact hle hnil
      exact h₁.move hf hd htable hk hdir rfl hdata hnext hsizes rfl rfl rfl (hle hnil) (.inl rfl) hwatch

omit hos hQ hlenient in
/-- `file_sync` makes no call for an open file. -/
theorem fileSync_quiet (hvalid : FileIsValid st file) (hopen : st.fd file ≠ VFD_CLOSED) :
    ∃ code dirty, fileSync os st file = .ok (code, { st with dirty := dirty }) := by
  unfold fileSync
  rw [if_neg (not_not.mpr hvalid), if_neg hopen]
  split
  · exact ⟨_, st.dirty, rfl⟩
  · split
    · exact ⟨_, _, rfl⟩
    · exact ⟨_, st.dirty, rfl⟩

/-- An open file is truncated, or not. -/
theorem Tracks.fileTruncate {size : Int} (h : Tracks view base Q st k none G) (hf : k.table file = some f)
    (hopen : st.fd file ≠ VFD_CLOSED) :
    Ends allowed (fileTruncate os st file size) fun r => r.2.fd file ≠ VFD_CLOSED ∧
      ∃ k', (k' = k ∨ k.ftruncate file size = some k') ∧ Tracks view base Q r.2 k' none G := by
  have hvalid := h.valid hf
  obtain ⟨code, dirty, hsync⟩ : ∃ code dirty, fileSync os st file = .ok (code, { st with dirty := dirty }) :=
    fileSync_quiet hvalid hopen
  have hclean : Tracks view base Q { st with dirty := dirty } k none G :=
    h.relink (h.linked.of_eq rfl rfl rfl rfl rfl rfl rfl rfl) rfl rfl rfl rfl rfl rfl
  have hopen' : ({ st with dirty := dirty } : FdState σ).fd file ≠ VFD_CLOSED := hopen
  obtain ⟨hfd, -⟩ := touched_fields { st with dirty := dirty } file
  have h₁ := hclean.touched hopen'
  have hopen₁ : (({ st with dirty := dirty } : FdState σ).touched file).fd file ≠ VFD_CLOSED := by rwa [hfd]
  unfold Fd.fileTruncate
  rw [if_neg (not_not.mpr hvalid), hsync, ok_bind]
  dsimp only
  rw [fileAccess_open hvalid.ne_zero hopen', ok_bind]
  generalize ({ st with dirty := dirty } : FdState σ).touched file = st₁ at h₁ hopen₁
  obtain ⟨g, d, hg, hd, hd', hle, hplace⟩ := h₁.open hopen₁
  obtain rfl := Option.some.inj (hf.symm.trans hg)
  apply Ends.bind (sys_ends fun _ => hlenient.osFailed)
  rintro _ ⟨done, os', hcall, rfl⟩
  have hwatch : Q os' G := hQ.ftruncate _ _ _ _ _ _ hcall h₁.watch
  refine ⟨hopen₁, ?_⟩
  cases done with
  | false => exact ⟨k, .inl rfl, h₁.viewed (hos.ftruncateFails _ _ _ _ hcall) hwatch⟩
  | true =>
    obtain ⟨d', hdd, htruncate⟩ := hos.ftruncate _ _ _ _ hcall
    obtain rfl : d = d' := Int.ofNat.inj (hd.symm.trans hdd)
    obtain ⟨haccess, hnonneg, hsize, hview⟩ := Kernel.ftruncate_eq hd' htruncate
    refine ⟨_, .inr (Kernel.ftruncate_done hf haccess ⟨hnonneg, hsize⟩), ?_⟩
    have htable : (view os').table = Function.update (view st₁.os).table d (some f) := by
      rw [hview]
      exact (update_same hd').symm
    have hdir : (view os').directory = (view st₁.os).directory := by
      rw [hview]
      rfl
    have hnext : (view os').nextInode = k.nextInode := by
      rw [hview]
      exact h₁.nextInode
    have hsame : { st₁ with os := os' } =
        { st₁ with seekPos := Function.update st₁.seekPos file (st₁.seekPos file), os := os' } := by
      rw [Function.update_eq_self]
    dsimp only
    rw [hsame]
    have hdata : (view os').data = (k.setData f.inode (Kernel.resize (k.data f.inode) size.toNat)).data := by
      rw [hview]
      show Function.update (view st₁.os).data f.inode _ = Function.update k.data f.inode _
      rw [h₁.data]
    have hsizes : ∀ inode,
        ((k.setData f.inode (Kernel.resize (k.data f.inode) size.toNat)).data inode).length ≤ maxOffset := by
      apply Kernel.setData_length _ h₁.sizes
      rw [resize_length]
      omega
    exact h₁.move hf hd htable (update_same hf).symm hdir rfl hdata hnext hsizes rfl rfl rfl hle hplace hwatch

omit hos hQ hlenient in
theorem advance_eq {count p : Nat} (hplace : st.seekPos file = p) (hle : 0 < count → p + count ≤ maxOffset) :
    ∃ q : Int, st.advance file count = { st with seekPos := Function.update st.seekPos file q } ∧
      (q = ((p + count : Nat) : Int) ∨ q = FILE_UNKNOWN_POS) := by
  refine ⟨_, rfl, ?_⟩
  split
  · rename_i hcount
    left
    rw [hplace, ← Int.natCast_add, toLong_of_le (hle hcount)]
  · right
    rfl

/-- What the kernel reads is read, from the position that is in the slot. -/
theorem Tracks.fileRead {amount : Nat} {bytes : List UInt8} (hshort : os.Short)
    (h : Tracks view base Q st k none G) (hf : k.table file = some f) (hfpos : toInt f.pos ≠ -1)
    (hG : ¬ G file) (hplace : st.seekPos file = f.pos) (hread : k.read file amount = some (bytes, k')) :
    Ends allowed (fileRead os st file amount) fun r =>
      ¬ os.Serves view ∨ (r.1 = ((bytes.length : Int), bytes) ∧ Tracks view base Q r.2 k' none G) := by
  by_cases hserves : os.Serves view
  · obtain ⟨haccess, hbytes, rfl⟩ := Kernel.read_eq hf hread
    unfold Fd.fileRead
    rw [if_neg (not_not.mpr (h.valid hf))]
    apply Ends.bind (h.fileAccess hos hQ hlenient hshort hf hfpos fun hgiven => absurd hgiven hG)
    intro ⟨code, st₁⟩ ⟨h₁, hreached⟩
    obtain ⟨-, hopen, hseek⟩ := hreached.found.resolve_right fun hfails => hfails.1 hserves
    dsimp only at h₁ hopen hseek ⊢
    rw [← hseek] at hplace
    obtain ⟨g, d, hg, hd, hd', hle, -⟩ := h₁.open hopen
    obtain rfl := Option.some.inj (hf.symm.trans hg)
    apply Ends.bind (sys_ends fun _ => hlenient.osFailed)
    intro _ ⟨r, os', hcall, hr⟩
    subst hr
    have hwatch : Q os' G := hQ.read _ _ _ _ _ _ hcall h₁.watch
    rw [hd] at hcall
    obtain ⟨rfl, hview⟩ := hserves.read _ _ _ _ _ _ _ (Kernel.read_done hd' haccess) hcall
    rw [h₁.data, ← hbytes] at hview ⊢
    have hlen : 0 < bytes.length → f.pos + bytes.length ≤ maxOffset := by
      intro hlt
      have hsize := h.sizes f.inode
      rw [hbytes, List.length_take, List.length_drop] at hlt ⊢
      omega
    obtain ⟨q, hadvance, hq⟩ : ∃ q : Int, FdState.advance { st₁ with os := os' } file bytes.length =
        { st₁ with seekPos := Function.update st₁.seekPos file q, os := os' } ∧
        (q = ((f.pos + bytes.length : Nat) : Int) ∨ q = FILE_UNKNOWN_POS) := advance_eq hplace hlen
    refine .inr ⟨rfl, ?_⟩
    dsimp only
    rw [hadvance]
    have htable : (view os').table = Function.update (view st₁.os).table d
        (some { f with pos := f.pos + bytes.length }) := by
      rw [hview]
      rfl
    have hdir : (view os').directory = (view st₁.os).directory := by
      rw [hview]
      rfl
    have hdata : (view os').data = k.data := by
      rw [hview]
      exact h₁.data
    have hnext : (view os').nextInode = k.nextInode := by
      rw [hview]
      exact h₁.nextInode
    have hend : f.pos + bytes.length ≤ maxOffset := by
      rcases Nat.eq_zero_or_pos bytes.length with hzero | hlt
      · omega
      · exact hlen hlt
    exact h₁.move hf hd htable rfl hdir rfl hdata hnext h₁.sizes rfl rfl rfl hend hq hwatch
  · apply (ends_ran _).mono
    · intro e _
      exact hlenient.failed e hserves
    · intro _ _
      exact .inl hserves

/-! ## Opening -/

omit hos hQ hlenient in
/-- A slot that was allocated, and holds nothing yet. -/
theorem Tracks.allocate (h : Tracks view base Q st k none G) (hlinked : Linked st' (some file))
    (hkept : Kept st st') (hsmall : st'.sizeVfdCache < 2 ^ 31) :
    Tracks view base Q st' k (some file) G := by
  obtain ⟨pos, hsim, hpos⟩ := h.sim
  have hkept' : Kept (st.seen view pos) (st'.seen view pos) := by
    refine ⟨hkept.fd, hkept.filename, hkept.more, hkept.less, hkept.nFile, hkept.numAllocatedFiles,
      hkept.databasePath, hkept.enableFsync, congrArg view hkept.os, hkept.descriptor, hkept.log, hkept.size, ?_⟩
    intro i hi
    obtain ⟨hdirty, htemporary, -, hflags, hmode⟩ := hkept.slot i hi
    exact ⟨hdirty, htemporary, rfl, hflags, hmode⟩
  have hlinked' : Linked (st'.seen view pos) (some file) :=
    ⟨hlinked.ring, hlinked.open_iff, hlinked.nFile, hlinked.free, hlinked.within, hlinked.named⟩
  refine ⟨⟨pos, hsim.allocate hlinked' hkept' hsmall, ?_⟩, ?_, ?_⟩
  · intro i hname hi
    rw [hkept.filename] at hname
    rw [(hkept.slot i hname).2.2.1]
    exact hpos i hname hi
  · intro i hi
    obtain ⟨hname, hclosed, hunknown⟩ := h.givenUp i hi
    rw [hkept.filename, hkept.fd, (hkept.slot i hname).2.2.1]
    exact ⟨hname, hclosed, hunknown⟩
  · rw [hkept.os]
    exact h.watch

omit hos hQ hlenient in
/-- The slot goes back to the free list. -/
theorem Tracks.freeVfd (h : Tracks view base Q st k (some file) G) (hclosed : st.fd file = VFD_CLOSED)
    (hname : st.filename file = none) : Tracks view base Q (freeVfd (st.setFd file (-1)) file) k none G := by
  have hsame : (st.setFd file (-1)).fd = st.fd := update_same hclosed
  have hlinked : Linked (st.setFd file (-1)) (some file) :=
    h.linked.of_eq rfl hsame rfl rfl rfl rfl rfl rfl
  apply h.relink (hlinked.free_vfd ((congrFun hsame file).trans hclosed) (.inr rfl) _) hsame _ rfl rfl rfl rfl
  · intro i hi
    exact Option.some.inj hi
  · exact update_same hname

/-- A file is opened in a slot that was not in use, or nothing is opened. -/
theorem Tracks.fileNameOpenFile {filename : FileName} {flags : OpenFlags} {mode : Nat} (hshort : os.Short)
    (h : Tracks view base Q st k none G) (hroom : allocatedSize st < 2 ^ 31)
    (habsolute : filename.head? = some SEP_CHAR) :
    Ends allowed (fileNameOpenFile os st filename flags mode) fun r =>
      (∃ file k', r.1 = some file ∧ k.table file = none ∧ k.openFile file filename flags = .ok k' ∧
        ¬ G file ∧ Tracks view base Q r.2 k' none G) ∨
      (¬ os.Serves view ∧ r.1 = none ∧ Tracks view base Q r.2 k none G) := by
  have hnarrow : 2 ^ 32 ≤ allocatedSize st → allowed .narrowIndex := by
    intro hge
    omega
  unfold Fd.fileNameOpenFile filepath
  rw [if_neg (not_not.mpr habsolute)]
  refine Ends.bind (fileNameOpenFileAux_ends (I := fun file st => Tracks view base Q st k (some file) G)
    (fun _ _ _ _ => hlenient.osFailed) hnarrow (fun _ _ h => h.linked) (fun _ => tracks_evicts hos hQ hlenient)
    (fun _ => tracks_ignoresVictims) (fun _ => tracks_ignoresFailures hos hQ) hshort ?_ h.linked) ?_
  · intro file st' hlinked hkept hsize _ _
    exact h.allocate hlinked hkept (hsize ▸ hroom)
  · intro r ⟨file, st₀, _, hkept, hname, _, st', h', hw, hr⟩
    have hname' : st'.filename file = none := by
      rw [hw.filename, hkept.filename]
      exact hname
    rcases hr with ⟨rfl, hfails⟩ | ⟨d, os', hcall, hle, rfl⟩
    · refine .inr ⟨?_, rfl, h'.freeVfd hw.fd hname'⟩
      intro hserves
      obtain ⟨s, errno, s', hfail⟩ := hfails
      exact hserves.openFile _ _ _ _ _ _ hfail
    · obtain ⟨hfree, hopen⟩ := hos.openFile _ _ _ _ _ _ hcall
      obtain ⟨pos, hsim, hpos⟩ := h'.sim
      obtain ⟨k', hk', hsim'⟩ := hsim.openNew hw.fd hname' hle hfree hopen
      have hG : ¬ G file := fun hG => (h'.givenUp file hG).1 hname'
      refine .inl ⟨file, k', rfl, hsim.unused file hname', hk', hG, ⟨Function.update pos file 0, hsim', ?_⟩, ?_,
        ?_⟩
      · intro i hi hgiven
        show Function.update st'.seekPos file 0 i = Function.update pos file 0 i
        by_cases hif : i = file
        · simp [hif]
        · have hnamed : st'.filename i ≠ none := fun hn => hi ((Function.update_of_ne hif _ _).trans hn)
          simp [hif, hpos i hnamed hgiven]
      · intro i hi
        obtain ⟨hnamed, hclosed, hunknown⟩ := h'.givenUp i hi
        have hif : i ≠ file := by
          rintro rfl
          exact hG hi
        refine ⟨fun hn => hnamed ((Function.update_of_ne hif _ _).symm.trans hn), ?_, ?_⟩
        · exact (Function.update_of_ne hif _ _).trans hclosed
        · exact (Function.update_of_ne hif _ _).trans hunknown
      · exact hQ.openFile _ _ _ _ _ _ _ hcall h'.watch

end

end PostgresV7.Fd
