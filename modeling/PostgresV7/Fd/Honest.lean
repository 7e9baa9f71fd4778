import PostgresV7.Fd.Transfer

/-!
# An operating system whose calls may fail

A call does to the files what it is meant to do, or it fails and leaves them alone. The
slots still do what descriptors of their own would do, but for files that were given up: one
that could not be opened again is closed, and at no position.
-/

namespace PostgresV7.Fd

open Outcomes

variable {σ : Type}

/-- What the calls do to the files, which `view` shows. A `write` may stop early. -/
structure Os.Honest (os : Os σ) (view : σ → Kernel) : Prop where
  openFile : ∀ filename flags mode s d s', os.openFile filename flags mode s = some (.ok d, s') →
    (view s).table d = none ∧ (view s).openFile d filename flags = .ok (view s')
  openFails : ∀ filename flags mode s errno s',
    os.openFile filename flags mode s = some (.error errno, s') → view s' = view s
  close : ∀ fd s s', os.close fd s = some (true, s') →
    ∃ d : Nat, fd = d ∧ (view s).close d = some (view s')
  lseek : ∀ fd offset whence s pos s', os.lseek fd offset whence s = some (some pos, s') →
    ∃ d : Nat, fd = d ∧ (view s).lseek d offset whence = some (pos, view s')
  lseekFails : ∀ fd offset whence s s', os.lseek fd offset whence s = some (none, s') → view s' = view s
  write : ∀ fd buffer s n s', os.write fd buffer s = some (some n, s') →
    ∃ d : Nat, fd = d ∧ n ≤ buffer.length ∧ (view s).write d (buffer.take n) = some (n, view s')
  writeFails : ∀ fd buffer s s', os.write fd buffer s = some (none, s') → view s' = view s
  fsync : ∀ fd s done s', os.fsync fd s = some (done, s') → view s' = view s
  ftruncate : ∀ fd size s s', os.ftruncate fd size s = some (true, s') →
    ∃ d : Nat, fd = d ∧ (view s).ftruncate d size = some (view s')
  ftruncateFails : ∀ fd size s s', os.ftruncate fd size s = some (false, s') → view s' = view s

/-- The calls that do not change files succeed where they can. -/
structure Os.Serves (os : Os σ) (view : σ → Kernel) : Prop where
  openFile : ∀ filename flags mode s errno s', os.openFile filename flags mode s ≠ some (.error errno, s')
  close : ∀ (d : Nat) s s', (view s).table d ≠ none → os.close d s ≠ some (false, s')
  read : ∀ (d : Nat) amount s bytes k r s', (view s).read d amount = some (bytes, k) →
    os.read d amount s = some (r, s') → r = some bytes ∧ view s' = k
  lseek : ∀ (d : Nat) offset whence s r s', (view s).lseek d offset whence = some r →
    os.lseek d offset whence s ≠ some (none, s')
  fsync : ∀ (d : Nat) s s', (view s).table d ≠ none → os.fsync d s ≠ some (false, s')

/-- What holds of the calls and of the files that were given up. A file is given up when a
seek is asked of no descriptor. -/
structure Os.Watches (os : Os σ) (Q : σ → (File → Prop) → Prop) : Prop where
  openFile : ∀ filename flags mode s r s' G, os.openFile filename flags mode s = some (r, s') → Q s G → Q s' G
  close : ∀ fd s r s' G, os.close fd s = some (r, s') → Q s G → Q s' G
  read : ∀ fd amount s r s' G, os.read fd amount s = some (r, s') → Q s G → Q s' G
  write : ∀ fd buffer s r s' G, os.write fd buffer s = some (r, s') → Q s G → Q s' G
  lseek : ∀ fd offset whence s r s' G, fd ≠ VFD_CLOSED → os.lseek fd offset whence s = some (r, s') →
    Q s G → Q s' G
  fsync : ∀ fd s r s' G, os.fsync fd s = some (r, s') → Q s G → Q s' G
  ftruncate : ∀ fd size s r s' G, os.ftruncate fd size s = some (r, s') → Q s G → Q s' G
  givesUp : ∀ offset whence s r s' G G' i, G' i → os.lseek VFD_CLOSED offset whence s = some (r, s') →
    Q s G → Q s' G'

/-- The slots as they are, with positions of their own. -/
def FdState.seen (view : σ → Kernel) (st : FdState σ) (pos : File → Int) : FdState Kernel :=
  { st with os := view st.os, seekPos := pos }

/-- The slots do what descriptors of their own would do, but for the files that were given
up. -/
structure Tracks (view : σ → Kernel) (base : Nat → Prop) (Q : σ → (File → Prop) → Prop) (st : FdState σ)
    (k : Kernel) (limbo : Option File) (G : File → Prop) : Prop where
  sim : ∃ pos, Sim base (st.seen view pos) k limbo ∧
    ∀ i, st.filename i ≠ none → ¬ G i → st.seekPos i = pos i
  givenUp : ∀ i, G i → st.filename i ≠ none ∧ st.fd i = VFD_CLOSED ∧ st.seekPos i = FILE_UNKNOWN_POS
  watch : Q st.os G

/-- A run may end where a call does not return, and anywhere if calls fail that could be
done. -/
structure Lenient (os : Os σ) (view : σ → Kernel) (allowed : Fault → Prop) : Prop where
  osFailed : allowed .osFailed
  failed : ∀ e, ¬ os.Serves view → allowed e

variable {os : Os σ} {view : σ → Kernel} {base : Nat → Prop} {Q : σ → (File → Prop) → Prop}
  {st st' : FdState σ} {k k' : Kernel} {limbo : Option File} {G : File → Prop} {file : File}
  {f : OpenFile} {allowed : Fault → Prop}

/-! ## A system that does what it is asked to -/

theorem descriptor?_eq {fd : Int} {d : Nat} (h : Kernel.descriptor? fd = some d) : fd = d := by
  unfold Kernel.descriptor? at h
  obtain ⟨hle, heq⟩ := Option.ite_none_right_eq_some.mp h
  rw [← Option.some.inj heq, Int.toNat_of_nonneg hle]

/-- Less may be written than what was asked for. -/
theorem Kernel.os_write_take {pick : Kernel → Option Nat} {junk : Kernel → Int} {fd : Int} {buffer : List UInt8}
    {m n : Nat}
    (h : (Kernel.os pick junk).write fd (buffer.take m) k = some (some n, k')) :
    ∃ d : Nat, fd = d ∧ n ≤ buffer.length ∧ k.write d (buffer.take n) = some (n, k') := by
  obtain ⟨d, hd, hrest⟩ := Option.bind_eq_some_iff.mp h
  obtain ⟨⟨count, k₁⟩, hwrite, heq⟩ := Option.bind_eq_some_iff.mp hrest
  obtain ⟨hcount, rfl⟩ := Prod.mk.inj (Option.some.inj heq)
  obtain rfl := Option.some.inj hcount
  have hlength : count = (buffer.take m).length := by
    unfold Kernel.write at hwrite
    obtain ⟨f, -, hwrite⟩ := Option.bind_eq_some_iff.mp hwrite
    split at hwrite
    · cases hwrite
    · split at hwrite
      · rename_i hnil
        rw [← (Prod.mk.inj (Option.some.inj hwrite)).1, hnil, List.length_nil]
      · obtain ⟨-, heq⟩ := Option.ite_none_right_eq_some.mp hwrite
        exact (Prod.mk.inj (Option.some.inj heq)).1.symm
  have htake : buffer.take count = buffer.take m := by
    rw [hlength, List.length_take, ← List.take_eq_take_min]
  rw [htake]
  refine ⟨d, descriptor?_eq hd, ?_, hwrite⟩
  rw [hlength]
  exact List.length_take_le' m buffer

/-- A call of a descriptor that the kernel can do. -/
theorem descriptor_call {α β : Type} {call : Nat → Option α} {f : α → β} {fd : Int} {r : β}
    (h : (Kernel.descriptor? fd >>= fun d => call d >>= fun a => some (f a)) = some r) :
    ∃ (d : Nat) (a : α), fd = d ∧ call d = some a ∧ f a = r := by
  obtain ⟨d, hd, hrest⟩ := Option.bind_eq_some_iff.mp h
  obtain ⟨a, hcall, heq⟩ := Option.bind_eq_some_iff.mp hrest
  exact ⟨d, a, descriptor?_eq hd, hcall, Option.some.inj heq⟩

theorem Kernel.os_honest {pick : Kernel → Option Nat} {junk : Kernel → Int} (hpick : Kernel.Picks pick 32767) :
    (Kernel.os pick junk).Honest id where
  openFile filename flags mode s d s' h :=
    ⟨(hpick s d (Kernel.os_openFile h).1).1, (Kernel.os_openFile h).2⟩
  openFails filename flags mode s errno s' h := (Kernel.os_openFile_ne_error h).elim
  close fd s s' h := by
    obtain ⟨d, k₁, hd, hclose, heq⟩ := descriptor_call h
    obtain ⟨-, rfl⟩ := Prod.mk.inj heq
    exact ⟨d, hd, hclose⟩
  lseek fd offset whence s pos s' h := by
    obtain ⟨d, r, hd, hseek, heq⟩ := descriptor_call h
    obtain ⟨hpos, rfl⟩ := Prod.mk.inj heq
    obtain rfl := Option.some.inj hpos
    exact ⟨d, hd, hseek⟩
  lseekFails fd offset whence s s' h := by
    obtain ⟨d, r, -, -, heq⟩ := descriptor_call h
    cases (Prod.mk.inj heq).1
  write fd buffer s n s' h := by
    rw [← buffer.take_length] at h
    exact Kernel.os_write_take h
  writeFails fd buffer s s' h := by
    obtain ⟨d, r, -, -, heq⟩ := descriptor_call h
    cases (Prod.mk.inj heq).1
  fsync fd s done s' h := (Kernel.os_fsync h).2
  ftruncate fd size s s' h := by
    obtain ⟨d, k₁, hd, htruncate, heq⟩ := descriptor_call h
    obtain ⟨-, rfl⟩ := Prod.mk.inj heq
    exact ⟨d, hd, htruncate⟩
  ftruncateFails fd size s s' h := by
    obtain ⟨d, k₁, -, -, heq⟩ := descriptor_call h
    cases (Prod.mk.inj heq).1

theorem Kernel.os_serves {pick : Kernel → Option Nat} {junk : Kernel → Int} :
    (Kernel.os pick junk).Serves id where
  openFile filename flags mode s errno s' h := Kernel.os_openFile_ne_error h
  close d s s' _ h := by
    obtain ⟨d, k₁, -, -, heq⟩ := descriptor_call h
    cases (Prod.mk.inj heq).1
  read d amount s bytes k r s' hread h := by
    obtain ⟨hr, hk⟩ := Prod.mk.inj (Option.some.inj ((Kernel.os_read_done hread).symm.trans h))
    exact ⟨hr.symm, hk.symm⟩
  lseek d offset whence s r s' _ h := by
    obtain ⟨d, r, -, -, heq⟩ := descriptor_call h
    cases (Prod.mk.inj heq).1
  fsync d s s' _ h := by
    cases (Kernel.os_fsync h).1
/-! ## What is known of a slot -/

theorem Linked.of_seen {pos : File → Int} (h : Linked (st.seen view pos) limbo) : Linked st limbo :=
  ⟨h.ring, h.open_iff, h.nFile, h.free, h.within, h.named⟩

theorem Tracks.linked (h : Tracks view base Q st k limbo G) : Linked st limbo := by
  obtain ⟨pos, hsim, -⟩ := h.sim
  exact hsim.linked.of_seen

theorem Tracks.not_givenUp (h : Tracks view base Q st k limbo G) (hopen : st.fd file ≠ VFD_CLOSED) :
    ¬ G file := fun hG => hopen (h.givenUp file hG).2.1

/-- The descriptor of a file that is open. -/
theorem Tracks.open (h : Tracks view base Q st k limbo G) (hopen : st.fd file ≠ VFD_CLOSED) :
    ∃ (f : OpenFile) (d : Nat), k.table file = some f ∧ st.fd file = d ∧ (view st.os).table d = some f ∧
      f.pos ≤ maxOffset ∧ (st.seekPos file = f.pos ∨ st.seekPos file = FILE_UNKNOWN_POS) := by
  obtain ⟨pos, hsim, hpos⟩ := h.sim
  have hseen : (st.seen view pos).fd file ≠ VFD_CLOSED := hopen
  obtain ⟨f, d, hf, hheld, hd, hd', hplace⟩ := hsim.open hseen
  rw [hpos file (hsim.named file hseen) (h.not_givenUp hopen)]
  exact ⟨f, d, hf, hd, hd', hheld.pos_le, hplace⟩

theorem Tracks.valid (h : Tracks view base Q st k none G) (hf : k.table file = some f) :
    FileIsValid st file := by
  obtain ⟨pos, hsim, -⟩ := h.sim
  exact hsim.valid hf

theorem Tracks.data (h : Tracks view base Q st k limbo G) : (view st.os).data = k.data := by
  obtain ⟨pos, hsim, -⟩ := h.sim
  exact hsim.data

/-- Fields change that nothing is said about. -/
theorem Tracks.relink {limbo' : Option File} (h : Tracks view base Q st k limbo G) (hlinked : Linked st' limbo')
    (hfd : st'.fd = st.fd) (hname : st'.filename = st.filename) (hpos : st'.seekPos = st.seekPos)
    (hflags : st'.fileFlags = st.fileFlags) (hos : st'.os = st.os)
    (hsize : st'.sizeVfdCache = st.sizeVfdCache) : Tracks view base Q st' k limbo' G := by
  obtain ⟨pos, hsim, hpos'⟩ := h.sim
  constructor
  · refine ⟨pos, hsim.relink ?_ hfd hname rfl hflags (congrArg view hos) hsize, ?_⟩
    · exact ⟨hlinked.ring, hlinked.open_iff, hlinked.nFile, hlinked.free, hlinked.within, hlinked.named⟩
    · rw [hpos, hname]
      exact hpos'
  · rw [hname, hfd, hpos]
    exact h.givenUp
  · rw [hos]
    exact h.watch

/-! ## Evictions -/

section

variable (hos : os.Honest view) (hQ : os.Watches Q) (hlenient : Lenient os view allowed)

include hos

theorem honest_lseek_cur {d pos : Nat} {s s' : σ} (hf : (view s).table d = some f) (hle : f.pos ≤ maxOffset)
    (h : os.lseek d 0 .SEEK_CUR s = some (some pos, s')) : pos = f.pos ∧ view s' = view s := by
  obtain ⟨d', hd, hseek⟩ := hos.lseek _ _ _ _ _ _ h
  obtain rfl : d = d' := Int.ofNat.inj hd
  rw [Kernel.lseek_current hf hle] at hseek
  obtain ⟨hpos, hview⟩ := Prod.mk.inj (Option.some.inj hseek)
  exact ⟨hpos.symm, hview.symm⟩

theorem SyncedBy.view_eq {s s' : σ} (h : SyncedBy os st file s s') : view s' = view s := by
  unfold SyncedBy at h
  split at h
  · exact hos.fsync _ _ _ _ h
  · rw [h]

include hlenient

/-- A file in the ring can be closed. -/
theorem Tracks.deletes (h : Tracks view base Q st k limbo G) (hmem : file ∈ st.lru) :
    Deletes os allowed st file := by
  obtain ⟨f, d, -, hd, hf, hle, -⟩ := h.open ((h.linked.open_iff file).mp hmem)
  have hcur : (view st.os).lseek d 0 .SEEK_CUR = some (f.pos, view st.os) := Kernel.lseek_current hf hle
  constructor
  · refine ⟨fun _ => hlenient.osFailed, fun s hs => hlenient.failed _ fun hserves => ?_⟩
    rw [hd] at hs
    exact hserves.lseek _ _ _ _ _ _ hcur hs
  · intro pos s hs
    refine ⟨fun _ => hlenient.osFailed, fun s' hs' => hlenient.failed _ fun hserves => ?_⟩
    rw [hd] at hs hs'
    obtain ⟨-, hview⟩ := honest_lseek_cur hos hf hle hs
    refine hserves.fsync _ _ _ ?_ hs'
    simp [hview, hf]
  · intro pos s s' hs hsync
    refine ⟨fun _ => hlenient.osFailed, fun s'' hs'' => hlenient.failed _ fun hserves => ?_⟩
    rw [hd] at hs hs''
    obtain ⟨-, hview⟩ := honest_lseek_cur hos hf hle hs
    refine hserves.close _ _ _ ?_ hs''
    simp [hsync.view_eq hos, hview, hf]

include hQ

/-- A file that is closed behind its owner's back keeps its position. -/
theorem tracks_evicts : Evicts os allowed (Tracks view base Q · k limbo G) := by
  intro st file h hmem
  have hopen := (h.linked.open_iff file).mp hmem
  apply (lruDelete_ends (h.deletes hos hlenient hmem) (h.linked.ne_zero hmem)).mono (fun _ h => h)
  rintro _ ⟨p, os₁, os₂, os', hseek, hsync, hclose, rfl⟩
  have hne : st.fd file ≠ VFD_CLOSED := hopen
  have hwatch : Q os' G := by
    apply hQ.close _ _ _ _ _ hclose
    unfold SyncedBy at hsync
    split at hsync
    · exact hQ.fsync _ _ _ _ _ hsync (hQ.lseek _ _ _ _ _ _ _ hne hseek h.watch)
    · rw [hsync]
      exact hQ.lseek _ _ _ _ _ _ _ hne hseek h.watch
  obtain ⟨pos, hsim, hpos⟩ := h.sim
  have hseen : (st.seen view pos).fd file ≠ VFD_CLOSED := hopen
  obtain ⟨f, d, hf, hheld, hd, hd', -⟩ := hsim.open hseen
  have hd : st.fd file = d := hd
  have hd' : (view st.os).table d = some f := hd'
  rw [hd] at hseek hclose
  obtain ⟨rfl, hview₁⟩ := honest_lseek_cur hos hd' hheld.pos_le hseek
  have hview₂ : view os₂ = view st.os := (hsync.view_eq hos).trans hview₁
  obtain ⟨d', hdd, hclosed⟩ := hos.close _ _ _ hclose
  obtain rfl : d = d' := Int.ofNat.inj hdd
  have hview' : view os' = { view st.os with table := Function.update (view st.os).table d none } := by
    rw [hview₂] at hclosed
    obtain ⟨-, -, hk⟩ := Option.bind_eq_some_iff.mp hclosed
    exact (Option.some.inj hk).symm
  have hshut : Sim base ((st.seen view pos).shut file (Function.update pos file f.pos)
      (Function.update st.dirty file false)
      { view st.os with table := Function.update (view st.os).table d none } (syncEvents st file)) k limbo :=
    hsim.shut hmem hd hd'
  refine ⟨⟨Function.update pos file f.pos, ?_, ?_⟩, ?_, hwatch⟩
  · unfold FdState.seen
    rw [show (st.shut file (Function.update st.seekPos file (f.pos : Int))
      (Function.update st.dirty file false) os'
      (syncEvents st file)).os = os' from rfl, hview']
    exact hshut
  · intro i hname hi
    show Function.update st.seekPos file (f.pos : Int) i = _
    by_cases hif : i = file
    · simp [hif]
    · simp [hif, hpos i hname hi]
  · intro i hi
    obtain ⟨hname, hclosed', hunknown⟩ := h.givenUp i hi
    have hif : i ≠ file := by
      rintro rfl
      exact hne hclosed'
    exact ⟨hname, (Function.update_of_ne hif _ _).trans hclosed', (Function.update_of_ne hif _ _).trans hunknown⟩

end

/-! ## Reopening -/

theorem Tracks.slot (h : Tracks view base Q st k limbo G) (hf : k.table file = some f) :
    ∃ filename, st.filename file = some filename ∧ (view st.os).directory filename = some f.inode ∧
      st.fileFlags file = { access := f.access, append := f.append } ∧ f.pos ≤ maxOffset ∧
      (¬ G file → st.fd file = VFD_CLOSED → st.seekPos file = f.pos) := by
  obtain ⟨pos, hsim, hpos⟩ := h.sim
  obtain ⟨g, hg, hheld⟩ := hsim.held file (hsim.filename_ne_none hf)
  obtain rfl := Option.some.inj (hf.symm.trans hg)
  obtain ⟨filename, hname, hdir⟩ := hheld.named
  refine ⟨filename, hname, hdir, hheld.flags, hheld.pos_le, ?_⟩
  intro hG hclosed
  rw [hpos file (hsim.filename_ne_none hf) hG]
  exact hheld.placed.closed hclosed

theorem tracks_ignoresVictims : IgnoresVictims (Tracks view base Q · k limbo G) := by
  intro st file h _
  exact h.relink (h.linked.of_eq rfl rfl rfl rfl rfl rfl rfl rfl) rfl rfl rfl rfl rfl rfl

/-- The system may be in another state, with the same files. -/
theorem Tracks.viewed {os' : σ} (h : Tracks view base Q st k limbo G) (hview : view os' = view st.os)
    (hwatch : Q os' G) : Tracks view base Q { st with os := os' } k limbo G := by
  obtain ⟨pos, hsim, hpos⟩ := h.sim
  refine ⟨⟨pos, ?_, hpos⟩, h.givenUp, hwatch⟩
  unfold FdState.seen
  dsimp only
  rw [hview]
  exact hsim

section

variable (hos : os.Honest view) (hQ : os.Watches Q)

include hos

/-- What `open` does for a file that waits. -/
theorem Tracks.opens_again {s : σ} {d mode : Nat} (h : Tracks view base Q st' k limbo G)
    (hw : Waiting st file st') (hf : k.table file = some f)
    (hcall : os.openFile ((st.filename file).getD []) (st.fileFlags file) mode st'.os = some (.ok d, s)) :
    (view st'.os).table d = none ∧ view s = (view st'.os).setFile d ⟨f.inode, 0, f.access, f.append⟩ := by
  obtain ⟨filename, hname, hdir, hflags, -⟩ := h.slot hf
  rw [hw.filename] at hname
  rw [hw.fileFlags] at hflags
  obtain ⟨hfree, hopen⟩ := hos.openFile _ _ _ _ _ _ hcall
  rw [hname, hflags] at hopen
  exact ⟨hfree, Kernel.openFile_again hdir rfl rfl hopen⟩

include hQ

theorem tracks_ignoresFailures {filename : FileName} {flags : OpenFlags} {mode : Nat} :
    IgnoresFailures os (Tracks view base Q · k limbo G) filename flags mode := by
  intro st errno s h hcall
  exact h.viewed (hos.openFails _ _ _ _ _ _ hcall) (hQ.openFile _ _ _ _ _ _ _ hcall h.watch)

omit hQ in
/-- A file that was not given up can be opened again at its position. -/
theorem Tracks.reopens (hlenient : Lenient os view allowed) (h : Tracks view base Q st k none G)
    (hf : k.table file = some f) (hpos : toInt f.pos ≠ -1) (hG : G file → allowed .assertion)
    (hclosed : st.fd file = VFD_CLOSED) :
    Reopens os allowed (Tracks view base Q · k none G) st file := by
  obtain ⟨-, -, -, -, hle, hplace⟩ := h.slot hf
  refine ⟨fun _ _ _ => hlenient.osFailed, fun st' d s h' hw hcall => ?_⟩
  obtain ⟨hfree, hview⟩ := h'.opens_again hos hw hf hcall
  have htable : (view s).table d = some ⟨f.inode, 0, f.access, f.append⟩ := by
    rw [hview]
    exact Function.update_self _ _ _
  constructor
  · refine ⟨fun _ => hlenient.osFailed, fun s' hs' => ?_⟩
    by_cases hgiven : G file
    · exact hG hgiven
    · rw [hplace hgiven hclosed] at hs'
      apply hlenient.failed
      intro hserves
      exact hserves.lseek _ _ _ _ _ _ (Kernel.lseek_done htable rfl (Int.zero_add _).symm hle) hs'
  · intro p s' hs' hminus
    obtain ⟨d', hd, hseek⟩ := hos.lseek _ _ _ _ _ _ hs'
    obtain rfl : d = d' := Int.ofNat.inj hd
    obtain ⟨start, horigin, hp, -, -⟩ := Kernel.lseek_eq htable hseek
    obtain rfl : 0 = start := Option.some.inj horigin
    by_cases hgiven : G file
    · rw [(h.givenUp file hgiven).2.2, FILE_UNKNOWN_POS] at hp
      omega
    · rw [hplace hgiven hclosed, Int.natCast_zero, Int.zero_add] at hp
      rw [hp] at hminus
      exact absurd hminus hpos

/-- A file was reached: it is open, or calls fail that could be done. -/
structure Reached (os : Os σ) (view : σ → Kernel) (G : File → Prop) (st : FdState σ) (file : File)
    (st' : FdState σ) : Prop where
  filename : st'.filename = st.filename
  found : (¬ G file ∧ st'.fd file ≠ VFD_CLOSED ∧ st'.seekPos file = st.seekPos file) ∨
    (¬ os.Serves view ∧ st'.fd file = VFD_CLOSED)

theorem Tracks.reopened {s₁ s₂ : σ} {d mode : Nat} {ev : Event} (h : Tracks view base Q st' k none G)
    (hw : Waiting st file st') (hf : k.table file = some f) (hle : d ≤ 32767)
    (hplace : ¬ G file → st.seekPos file = f.pos)
    (hgiven : G file → st.seekPos file = FILE_UNKNOWN_POS)
    (hcall : os.openFile ((st.filename file).getD []) (st.fileFlags file) mode st'.os = some (.ok d, s₁))
    (hrestored : Restored os d (st.seekPos file) s₁ s₂) (hev : ev.use = some (.touch file)) :
    ¬ G file ∧ Tracks view base Q (st'.entered file d s₂ ev) k none G := by
  obtain ⟨hfree, hview⟩ := h.opens_again hos hw hf hcall
  have htable : (view s₁).table d = some ⟨f.inode, 0, f.access, f.append⟩ := by
    rw [hview]
    exact Function.update_self _ _ _
  have hwatch₁ : Q s₁ G := hQ.openFile _ _ _ _ _ _ _ hcall h.watch
  have hrest : ¬ G file ∧ view s₂ = (view st'.os).setFile d f ∧ Q s₂ G := by
    unfold Restored at hrestored
    split at hrestored
    · rename_i hzero
      have hG : ¬ G file := by
        intro hG
        rw [hgiven hG] at hzero
        cases hzero
      have hstart : f.pos = 0 := by
        rw [hplace hG] at hzero
        exact Int.ofNat.inj hzero
      refine ⟨hG, ?_, ?_⟩
      · rw [hrestored, hview, ← hstart]
      · rwa [hrestored]
    · obtain ⟨p, hseek⟩ := hrestored
      have hopen : (d : Int) ≠ VFD_CLOSED := natCast_ne_closed d
      obtain ⟨d', hd, hseek'⟩ := hos.lseek _ _ _ _ _ _ hseek
      obtain rfl : d = d' := Int.ofNat.inj hd
      obtain ⟨start, horigin, hp, -, hview₂⟩ := Kernel.lseek_eq htable hseek'
      obtain rfl : 0 = start := Option.some.inj horigin
      have hG : ¬ G file := by
        intro hG
        rw [hgiven hG, FILE_UNKNOWN_POS] at hp
        omega
      have hp' : p = f.pos := by
        rw [hplace hG] at hp
        omega
      refine ⟨hG, ?_, hQ.lseek _ _ _ _ _ _ _ hopen hseek hwatch₁⟩
      rw [hview₂, hview, hp']
      unfold Kernel.setFile
      rw [Function.update_idem]
  obtain ⟨hG, hview₂, hwatch₂⟩ := hrest
  obtain ⟨pos, hsim, hpos⟩ := h.sim
  refine ⟨hG, ⟨pos, ?_, hpos⟩, ?_, hwatch₂⟩
  · have hname : (st'.seen view pos).filename file ≠ none := hsim.filename_ne_none hf
    have hsim' : Sim base ((st'.seen view pos).entered file d ((view st'.os).setFile d f) ev) k none :=
      hsim.reopen hw.fd hname hf hle hfree hev
    unfold FdState.seen
    rw [show (st'.entered file d s₂ ev).os = s₂ from rfl, hview₂]
    exact hsim'
  · intro i hi
    have hif : i ≠ file := by
      rintro rfl
      exact hG hi
    obtain ⟨hname, hclosed, hunknown⟩ := h.givenUp i hi
    exact ⟨hname, (Function.update_of_ne hif _ _).trans hclosed, hunknown⟩

omit hos hQ in
theorem Tracks.touched (h : Tracks view base Q st k none G) (hopen : st.fd file ≠ VFD_CLOSED) :
    Tracks view base Q (st.touched file) k none G := by
  obtain ⟨hfd, hname, hseek, hflags, hos, hsize⟩ := touched_fields st file
  exact h.relink (h.linked.touch ((h.linked.open_iff file).mpr hopen)) hfd hname hseek hflags hos hsize

theorem Tracks.fileAccess (hlenient : Lenient os view allowed) (hshort : os.Short)
    (h : Tracks view base Q st k none G) (hf : k.table file = some f) (hpos : toInt f.pos ≠ -1)
    (hG : G file → allowed .assertion) :
    Ends allowed (fileAccess os st file) fun r => Tracks view base Q r.2 k none G ∧
      Reached os view G st file r.2 := by
  have hfile := (h.valid hf).ne_zero
  apply (fileAccess_ends (h.reopens hos hlenient hf hpos hG) (fun _ h => h.linked)
    (tracks_evicts hos hQ hlenient) tracks_ignoresVictims (tracks_ignoresFailures hos hQ) hshort hfile h).mono
    (fun _ h => h)
  rintro _ (⟨hopen, rfl⟩ | ⟨hclosed, st', h', hw, ⟨rfl, hfails⟩ | ⟨d, s₁, hcall, hle, s₂, hrestored, rfl⟩⟩)
  · obtain ⟨hfd, hname, hseek, -⟩ := touched_fields st file
    refine ⟨h.touched hopen, hname, .inl ⟨h.not_givenUp hopen, ?_, congrFun hseek file⟩⟩
    dsimp only
    rw [hfd]
    exact hopen
  · have hsame : (st'.setFd file (-1)).fd = st'.fd := update_same hw.fd
    refine ⟨h'.relink ?_ hsame rfl rfl rfl rfl rfl, hw.filename, .inr ⟨?_, ?_⟩⟩
    · exact h'.linked.of_eq rfl hsame rfl rfl rfl rfl rfl rfl
    · intro hserves
      obtain ⟨s, errno, s', hfail⟩ := hfails
      exact hserves.openFile _ _ _ _ _ _ hfail
    · exact (congrFun hsame file).trans hw.fd
  · obtain ⟨-, -, -, -, -, hplace⟩ := h.slot hf
    have hev : (Event.reopened file).use = some (.touch file) := rfl
    obtain ⟨hgiven, hentered⟩ := h'.reopened hos hQ hw hf hle (fun hG => hplace hG hclosed)
      (fun hG => (h.givenUp file hG).2.2) hcall hrestored hev
    refine ⟨hentered.relink ?_ rfl rfl rfl rfl rfl rfl, hw.filename, .inl ⟨hgiven, ?_, hw.seekPos⟩⟩
    · exact hentered.linked.note_accessed (lru_cons rfl rfl)
    · show Function.update st'.fd file (toShort d) file ≠ VFD_CLOSED
      rw [Function.update_self, toShort_of_le hle]
      exact natCast_ne_closed d

end

end PostgresV7.Fd
