import PostgresV7.Fd.Trace
import PostgresV7.Fd.Tracks
import PostgresV7.Smgr.ArrayRun

/-!
# What a failing `md_extend` leaves (`md.c`)

The whole blocks of every segment are the same when `md_extend` returns `SM_FAIL`. They are
found again as long as no segment was sought that could not be opened.
-/

namespace PostgresV7.Md

open Fd Smgr Outcomes Blocks

variable {σ : Type} {os : Os σ} {view : σ → Kernel} {base : Nat → Prop} {Q : σ → (File → Prop) → Prop}
  {room : Nat}
  {allowed : Fault → Prop} {st : FdState σ} {md md' : MdState σ} {k k' : Kernel} {rnode : RelFileNode}
  {refs refs' : List Ref} {G G' : File → Prop} {v : Ref} {vec : MdfdVec}

/-! ## Descriptors -/

/-- The files that were not given up are open. -/
def Tracked (view : σ → Kernel) (base : Nat → Prop) (Q : σ → (File → Prop) → Prop) (st : FdState σ) (k : Kernel)
    (G : File → Prop) : Prop :=
  Tracks view base Q st k none G

theorem allocatedSize_seen (pos : File → Int) : allocatedSize (st.seen view pos) = allocatedSize st := by
  unfold allocatedSize initVfdCache
  by_cases hzero : st.sizeVfdCache = 0
  · rw [if_pos hzero, if_pos (show (st.seen view pos).sizeVfdCache = 0 from hzero)]
    rfl
  · rw [if_neg hzero, if_neg (show ¬ (st.seen view pos).sizeVfdCache = 0 from hzero)]
    rfl

theorem Tracked.roomy (h : Tracked view base Q st k G) (hfew : Few room k 1) (hroom : room ≤ 2 ^ 30 - 1) :
    allocatedSize st < 2 ^ 31 := by
  obtain ⟨pos, hsim, -⟩ := Tracks.sim h
  rw [← allocatedSize_seen pos]
  exact roomy_of_few hsim hfew hroom

/-- What an honest system does is what a walk needs. -/
theorem tracked_files (hos : os.Honest view) (hQ : os.Watches Q) (hshort : os.Short) (hroom : room ≤ 2 ^ 30 - 1)
    (hosFailed : allowed (.fd .osFailed)) (hfailed : ¬ os.Serves view → ∀ e, allowed e) :
    Files os (Tracked view base Q) room (os.Serves view) allowed where
  named := by
    intro st k G file f h hf
    obtain ⟨filename, -, hdir, -⟩ := h.slot hf
    exact ⟨filename, h.directory ▸ hdir⟩
  openFile := by
    intro st k G path flags h hfew habsolute _
    have hlenient : Lenient os view fun e => allowed (.fd e) := ⟨hosFailed, fun e hserves => hfailed hserves _⟩
    apply (Tracks.fileNameOpenFile hos hQ hlenient hshort h (Tracked.roomy h hfew hroom) habsolute).mono
      (fun _ h => h)
    rintro r (⟨file, k', hr, hfree, hopen, hG, h'⟩ | hfails)
    · exact .inl ⟨file, k', hr, hfree, hopen, hG, h'⟩
    · exact .inr hfails
  seekEnd := by
    intro st k G file f h _ hf hpos hG
    have hlenient : Lenient os view fun e => allowed (.fd e) := ⟨hosFailed, fun e hserves => hfailed hserves _⟩
    apply (Tracks.fileSeek_end hos hQ hlenient hshort h hf hpos hG rfl).mono (fun _ h => h)
    rintro r (⟨hgiven, hr, -, -, h'⟩ | hfails)
    · exact .inl ⟨hgiven, hr, h'⟩
    · exact .inr hfails
  failed := hfailed

/-! ## One file -/

/-- The file of a segment is open, and its position is known. -/
structure Positioned (view : σ → Kernel) (base : Nat → Prop) (Q : σ → (File → Prop) → Prop) (room : Nat)
    (md : MdState σ) (k : Kernel) (rnode : RelFileNode) (refs : List Ref) (G : File → Prop) (vfd : File)
    (f : OpenFile) : Prop where
  rel : Rel (Tracked view base Q) room md k rnode refs G
  file : k.table vfd = some f
  opened : md.st.fd vfd ≠ VFD_CLOSED
  seekPos : md.st.seekPos vfd = f.pos
  append : f.append = false
  bounded : (k.data f.inode).length / BLCKSZ ≤ RELSEG_SIZE

theorem Positioned.not_givenUp {vfd : File} {f : OpenFile}
    (h : Positioned view base Q room md k rnode refs G vfd f) : ¬ G vfd :=
  Tracks.not_givenUp h.rel.files h.opened

theorem wholeEnd_le (data : List UInt8) : wholeEnd data ≤ data.length := Nat.div_mul_le_self _ _

theorem wholeEnd_eq (data : List UInt8) :
    (wholeEnd data : Int) = data.length - (data.length : Int) % BLCKSZ := by
  have hdiv := Nat.div_add_mod' data.length BLCKSZ
  unfold wholeEnd
  omega

/-- Positions move. -/
theorem Rel.moved (h : Rel (Tracked view base Q) room md k rnode refs G) (hk : Moved k k')
    (ht : Tracks view base Q st k' none G) :
    Rel (Tracked view base Q) room { md with st := st } k' rnode refs G :=
  h.call hk.keeps (sameBlocks_of_content hk.content) hk.few ht fun _ => .inl

section

variable (hos : os.Honest view) (hQ : os.Watches Q)

include hos hQ

/-- The seek to the end of a segment. -/
theorem Rel.seekEnd {i : Nat} (hshort : os.Short) (h : Rel (Tracked view base Q) room md k rnode refs G)
    (hv : refs[i]? = some v) (hvec : md.get v = .ok vec)
    (hfull : ∀ j < i, blocks k md.dataDir rnode j = RELSEG_SIZE) :
    Ends (fun _ => True) (md.call fun st => fileSeek os st vec.vfd 0 .SEEK_END) fun r => ∃ st,
      r.2 = { md with st := st } ∧
        ((∃ k' f, Moved k k' ∧ r.1 = (k'.data f.inode).length ∧ f.pos = (k'.data f.inode).length ∧
          Positioned view base Q room { md with st := st } k' rnode refs G vec.vfd f) ∨
        (r.1 = -1 ∧ ∃ G', Rel (Tracked view base Q) room { md with st := st } k rnode refs G')) := by
  obtain ⟨vec', hvec', hholds, -⟩ := h.chained.segment i v hv
  obtain rfl := Except.ok.inj (hvec.symm.trans hvec')
  obtain ⟨f, hf, -, -, happend, hpos⟩ := id hholds
  have hbound : (k.data f.inode).length / BLCKSZ ≤ RELSEG_SIZE := by
    rw [← hholds.content hf]
    exact h.bounded i
  have hlenient : Lenient os view fun _ => True := ⟨trivial, fun _ _ => trivial⟩
  apply (call_allowed (Tracks.fileSeek_end hos hQ hlenient hshort h.files hf (toInt_ne hpos) (fun _ => trivial)
    rfl)).mono (fun _ h => h)
  rintro r ⟨st, hsought, hst⟩
  refine ⟨st, hst, ?_⟩
  rcases hsought with ⟨-, hr, hopen, hseek, ht⟩ | ⟨-, hr, G', hG', ht⟩
  · have hmoved := moved_setFile hf (length_le_segEnd hbound)
    refine .inl ⟨_, { f with pos := (k.data f.inode).length }, hmoved, hr, rfl, h.moved hmoved ht, ?_, hopen,
      hseek,
      happend, hbound⟩
    exact Function.update_self _ _ _
  · refine .inr ⟨hr, G', h.call (.refl k) (fun _ => rfl) (fun h => h) ht fun file hfile => ?_⟩
    rcases hG' file hfile with hfile | rfl
    · exact .inl hfile
    · exact .inr ⟨i, v, vec, hv, hvec, rfl, hfull⟩

/-- A seek in a file that was not given up. -/
theorem Rel.seekSet {vfd : File} {f : OpenFile} {p : Nat} (hlenient : Lenient os view fun e => allowed (.fd e))
    (h : Rel (Tracked view base Q) room md k rnode refs G) (hf : k.table vfd = some f) (hG : ¬ G vfd)
    (hp : p ≤ segEnd) :
    Ends allowed (md.call fun st => fileSeek os st vfd p .SEEK_SET) fun r => ∃ st,
      r.2 = { md with st := st } ∧ (md.st.fd vfd ≠ VFD_CLOSED → st.fd vfd ≠ VFD_CLOSED) ∧
        ((r.1 = p ∧ st.seekPos vfd = p ∧
          Rel (Tracked view base Q) room { md with st := st } (k.setFile vfd { f with pos := p }) rnode refs G) ∨
        (¬ os.Serves view ∧ r.1 = -1 ∧ Rel (Tracked view base Q) room { md with st := st } k rnode refs G)) := by
  have hmax : p ≤ maxOffset := Nat.le_trans hp (by decide)
  apply (call_allowed (Tracks.fileSeek_set hos hQ hlenient h.files hf hG hmax)).mono (fun _ h => h)
  rintro r ⟨st, ⟨hopened, hsought⟩, hst⟩
  refine ⟨st, hst, hopened, ?_⟩
  rcases hsought with ⟨hr, hseek, ht⟩ | ⟨hfails, hr, ht⟩
  · exact .inl ⟨hr, hseek, h.moved (moved_setFile hf hp) ht⟩
  · exact .inr ⟨hfails, hr, h.moved (.refl k) ht⟩

/-- Less than a block is written behind the whole blocks, or nothing. -/
theorem Positioned.write {vfd : File} {f : OpenFile} (buffer : Block)
    (h : Positioned view base Q room md k rnode refs G vfd f) (hpos : f.pos = wholeEnd (k.data f.inode)) :
    Ends (fun _ => True) (md.call fun st => fileWrite os st vfd buffer.bytes) fun r =>
      r.1 = BLCKSZ ∨ ∃ st k' f', r.2 = { md with st := st } ∧ SameBlocks k k' ∧ st.fd vfd ≠ VFD_CLOSED ∧
        k'.table vfd = some f' ∧ f'.inode = f.inode ∧
          whole BLCKSZ (k'.data f.inode) = whole BLCKSZ (k.data f.inode) ∧
            Rel (Tracked view base Q) room { md with st := st } k' rnode refs G := by
  have hlenient : Lenient os view fun _ => True := ⟨trivial, fun _ _ => trivial⟩
  apply (call_allowed (Tracks.fileWrite hos hQ hlenient h.rel.files h.file h.append h.opened h.seekPos)).mono
    (fun _ h => h)
  rintro r ⟨st, ⟨hopen, ⟨n, k', hr, hn, hwrite, ht⟩ | ⟨-, ht⟩⟩, hst⟩
  · have hlength : buffer.bytes.length = BLCKSZ := buffer.length_eq
    rcases Nat.eq_or_lt_of_le hn with hall | hshort
    · left
      rw [hr, hall, hlength]
    right
    obtain ⟨-, -, -, hk'⟩ := Kernel.write_eq h.file h.append hwrite
    by_cases hnil : buffer.bytes.take n = []
    · rw [if_pos hnil] at hk'
      subst hk'
      exact ⟨st, k', f, hst, fun _ => rfl, hopen, h.file, rfl, rfl, h.rel.moved (.refl k') ht⟩
    · rw [if_neg hnil] at hk'
      subst hk'
      have htake : (buffer.bytes.take n).length < BLCKSZ := by
        rw [List.length_take]
        omega
      have hwhole : whole BLCKSZ (Kernel.overwrite (k.data f.inode) f.pos (buffer.bytes.take n)) =
          whole BLCKSZ (k.data f.inode) := by
        rw [hpos]
        exact whole_overwrite htake
      have hend : f.pos + (buffer.bytes.take n).length ≤ segEnd := by
        have hmul := Nat.mul_le_mul_right BLCKSZ h.bounded
        rw [hpos]
        unfold wholeEnd segEnd
        rw [Nat.succ_mul]
        omega
      have hfile : (k.setData f.inode (Kernel.overwrite (k.data f.inode) f.pos (buffer.bytes.take n))).table vfd =
          some f := h.file
      have hdata := sameBlocks_setData hwhole
      have hsame : SameBlocks k ((k.setData f.inode
          (Kernel.overwrite (k.data f.inode) f.pos (buffer.bytes.take n))).setFile vfd
            { f with pos := f.pos + (buffer.bytes.take n).length }) := hdata
      refine ⟨st, _, { f with pos := f.pos + (buffer.bytes.take n).length }, hst, hsame, hopen, ?_, rfl, ?_, ?_⟩
      · exact Function.update_self _ _ _
      · show whole BLCKSZ (Function.update k.data f.inode _ f.inode) = _
        rw [Function.update_self]
        exact hwhole
      · exact h.rel.call (keeps_setData.trans (keeps_setFile hfile hend)) hsame
          (fun hfew => few_setFile hfile (few_of_table hfew rfl)) ht fun _ => .inl
  · exact .inr ⟨st, k, f, hst, fun _ => rfl, hopen, h.file, rfl, rfl, h.rel.moved (.refl k) ht⟩

/-- What was written behind the whole blocks is cut off, or not. -/
theorem Rel.cutBack {vfd : File} {f : OpenFile} {data : List UInt8}
    (h : Rel (Tracked view base Q) room md k rnode refs G) (hf : k.table vfd = some f)
    (hopen : md.st.fd vfd ≠ VFD_CLOSED) (hdata : whole BLCKSZ (k.data f.inode) = whole BLCKSZ data) :
    Ends (fun _ => True) (md.call fun st => fileTruncate os st vfd (wholeEnd data)) fun r => ∃ st k',
      r.2 = { md with st := st } ∧ SameBlocks k k' ∧ st.fd vfd ≠ VFD_CLOSED ∧ k'.table vfd = some f ∧
        Rel (Tracked view base Q) room { md with st := st } k' rnode refs G := by
  have hlenient : Lenient os view fun _ => True := ⟨trivial, fun _ _ => trivial⟩
  apply (call_allowed (Tracks.fileTruncate hos hQ hlenient h.files hf hopen)).mono (fun _ h => h)
  rintro r ⟨st, ⟨hopen', k', hk' | htruncate, ht⟩, hst⟩
  · subst hk'
    exact ⟨st, k', hst, fun _ => rfl, hopen', hf, h.moved (.refl k') ht⟩
  · obtain ⟨-, -, -, rfl⟩ := Kernel.ftruncate_eq hf htruncate
    have hend : wholeEnd data = wholeEnd (k.data f.inode) := by
      unfold wholeEnd
      rw [div_eq_of_whole (by decide) hdata]
    have hsame : SameBlocks k (k.setData f.inode
        (Kernel.resize (k.data f.inode) (wholeEnd data : Int).toNat)) := by
      apply sameBlocks_setData
      rw [Int.toNat_natCast, hend]
      exact whole_resize
    exact ⟨st, _, hst, hsame, hopen', hf,
      h.call keeps_setData hsame (fun hfew => few_of_table hfew rfl) ht fun _ => .inl⟩

/-- The seek to where the whole blocks end. -/
theorem Positioned.seekWhole {vfd : File} {f : OpenFile} (h : Positioned view base Q room md k rnode refs G vfd f)
    (hpos : f.pos = (k.data f.inode).length) :
    Ends (fun _ => True) (seekWhole os md vfd (k.data f.inode).length) fun r => ∃ st, r.2 = { md with st := st } ∧
      ((∃ k' f', Moved k k' ∧ k'.data f'.inode = k.data f.inode ∧ r.1 = wholeEnd (k.data f.inode) ∧
          f'.pos = wholeEnd (k.data f.inode) ∧
            Positioned view base Q room { md with st := st } k' rnode refs G vfd f') ∨
        (r.1 = -1 ∧ Rel (Tracked view base Q) room { md with st := st } k rnode refs G)) := by
  have hle : wholeEnd (k.data f.inode) ≤ segEnd :=
    Nat.le_trans (wholeEnd_le _) (length_le_segEnd h.bounded)
  unfold Md.seekWhole
  by_cases hwhole : ((k.data f.inode).length : Int) % BLCKSZ ≠ 0
  · rw [if_pos hwhole, ← wholeEnd_eq]
    apply (h.rel.seekSet hos hQ ⟨trivial, fun _ _ => trivial⟩ h.file h.not_givenUp hle).mono (fun _ h => h)
    rintro r ⟨st, hst, hopen, ⟨hr, hseek, hrel⟩ | ⟨-, hfails⟩⟩
    · refine ⟨st, hst, .inl ⟨_, { f with pos := wholeEnd (k.data f.inode) }, moved_setFile h.file hle, rfl, hr,
        rfl,
        hrel, ?_, hopen h.opened, hseek, h.append, h.bounded⟩⟩
      exact Function.update_self _ _ _
    · exact ⟨st, hst, .inr hfails⟩
  · have hend : ((k.data f.inode).length : Int) = wholeEnd (k.data f.inode) := by
      rw [wholeEnd_eq, not_not.mp hwhole, Int.sub_zero]
    rw [if_neg hwhole]
    exact ⟨md.st, rfl, .inl ⟨k, f, .refl k, rfl, hend, hpos.trans (Int.ofNat.inj hend), h⟩⟩

omit hos hQ in
/-- No count leads behind the segments it went past. -/
theorem segment_le {n x : Nat} (hx : x < RELSEG_SIZE) :
    (Int.tdiv (toInt ((n * RELSEG_SIZE + x : Nat) : Int)) RELSEG_SIZE).toNat ≤ n := by
  have hle : toInt ((n * RELSEG_SIZE + x : Nat) : Int) ≤ (n * RELSEG_SIZE + x : Nat) := by
    unfold toInt
    rw [Int.bmod_def]
    split <;> omega
  by_cases hneg : toInt ((n * RELSEG_SIZE + x : Nat) : Int) < 0
  · obtain ⟨m, hm⟩ := Int.eq_ofNat_of_zero_le (Int.neg_nonneg_of_nonpos (Int.le_of_lt hneg))
    rw [← Int.neg_eq_comm.mp hm, Int.neg_tdiv, ← Int.ofNat_tdiv, Int.toNat_of_nonpos]
    · exact Nat.zero_le n
    · exact Int.neg_nonpos_of_nonneg (Int.natCast_nonneg _)
  · obtain ⟨m, hm⟩ := Int.eq_ofNat_of_zero_le (Int.not_lt.mp hneg)
    rw [hm] at hle ⊢
    rw [segment_toNat]
    have hdiv := Nat.div_le_div_right (c := RELSEG_SIZE) (Int.ofNat_le.mp hle)
    rwa [Nat.add_comm, Nat.add_mul_div_right _ _ (by decide), Nat.div_eq_of_lt hx, Nat.zero_add] at hdiv

/-! ## The whole call -/

/-- The relation is there with the blocks it had. -/
structure Left (view : σ → Kernel) (base : Nat → Prop) (Q : σ → (File → Prop) → Prop) (room : Nat)
    (md : MdState σ) (k : Kernel) (rnode : RelFileNode) (md' : MdState σ) (k' : Kernel) (refs' : List Ref)
    (G' : File → Prop) : Prop where
  blocks : SameBlocks k k'
  dataDir : md'.dataDir = md.dataDir
  rel : Rel (Tracked view base Q) room md' k' rnode refs' G'

omit hos hQ in
theorem Left.trans {md'' : MdState σ} {k'' : Kernel} {refs'' : List Ref} {G'' : File → Prop}
    (h : Left view base Q room md k rnode md' k' refs' G')
    (h' : Left view base Q room md' k' rnode md'' k'' refs'' G'') :
    Left view base Q room md k rnode md'' k'' refs'' G'' :=
  ⟨fun path => (h'.blocks path).trans (h.blocks path), h'.dataDir.trans h.dataDir, h'.rel⟩

omit hos hQ in
theorem Walked.left {serves : Prop} (h : Walked
    (Tracked view base Q) room serves rnode md k refs G md' k' refs' G') :
    Left view base Q room md k rnode md' k' refs' G' :=
  ⟨sameBlocks_of_content h.content, h.extends'.dataDir, h.rel⟩

/-- Where `md_extend` fails, the blocks are left as they were. -/
theorem Rel.mdExtend (hshort : os.Short) (hroom : room ≤ 2 ^ 30 - 1) (buffer : Block)
    (h : Rel (Tracked view base Q) room md k rnode refs G) :
    Ends (fun _ => True) (mdExtend os md rnode buffer) fun r =>
      r.1 = .SM_FAIL → ∃ k' refs' G', Left view base Q room md k rnode r.2 k' refs' G' := by
  have hfiles : Files os (Tracked view base Q) room (os.Serves view) fun _ => True :=
    tracked_files hos hQ hshort hroom trivial fun _ _ => trivial
  unfold Md.mdExtend
  apply Ends.bind (h.mdNblocks hfiles (fun _ _ => trivial) fun _ => .inr trivial)
  rintro ⟨nblocks, md₁⟩ ⟨k₁, refs₁, G₁, n, x, hwalked₁, hnblocks, hcounted⟩
  have hleft₁ := hwalked₁.left
  have hsegment : (Int.tdiv nblocks RELSEG_SIZE).toNat ≤ n := by
    rw [show nblocks = _ from hnblocks]
    exact segment_le hcounted.lt
  have hfull₁ : ∀ j < n, blocks k₁ md₁.dataDir rnode j = RELSEG_SIZE := hwalked₁.full hcounted.full
  dsimp only at hleft₁ ⊢
  apply Ends.bind (hwalked₁.rel.mdFdGetSeg hfiles rfl (fun j hj => hfull₁ j (by omega)) fun _ => .inr trivial)
  rintro ⟨vec, v, md₂⟩ ⟨k₂, refs₂, G₂, hwalked₂, hv, hvec⟩
  have hleft₂ := hleft₁.trans hwalked₂.left
  have hfull₂ : ∀ j < n, blocks k₂ md₂.dataDir rnode j = RELSEG_SIZE := hwalked₂.full hfull₁
  dsimp only at hleft₂ hv hvec ⊢
  apply Ends.bind (hleft₂.rel.seekEnd hos hQ hshort hv hvec fun j hj => hfull₂ j (by omega))
  rintro ⟨pos, md₃⟩ ⟨st₃, rfl, ⟨k₃, f₃, hmoved₃, rfl, hpos₃, hplaced₃⟩ | ⟨rfl, G₃, hrel₃⟩⟩
  · have hleft₃ : Left view base Q room md k rnode { md₂ with st := st₃ } k₃ refs₂ G₂ :=
      hleft₂.trans ⟨sameBlocks_of_content hmoved₃.content, rfl, hplaced₃.rel⟩
    have hnonneg₃ : ¬ ((k₃.data f₃.inode).length : Int) < 0 := by omega
    dsimp only
    rw [if_neg hnonneg₃]
    apply Ends.bind (hplaced₃.seekWhole hos hQ hpos₃)
    rintro ⟨sought, md₄⟩ ⟨st₄, rfl, ⟨k₄, f₄, hmoved₄, hdata₄, rfl, hpos₄, hplaced₄⟩ | ⟨rfl, hrel₄⟩⟩
    · have hleft₄ : Left view base Q room md k rnode { md₂ with st := st₄ } k₄ refs₂ G₂ :=
        hleft₃.trans ⟨sameBlocks_of_content hmoved₄.content, rfl, hplaced₄.rel⟩
      have hnonneg₄ : ¬ (wholeEnd (k₃.data f₃.inode) : Int) < 0 := by omega
      rw [← hdata₄] at hpos₄
      dsimp only
      rw [if_neg hnonneg₄]
      apply Ends.bind (hplaced₄.write hos hQ buffer hpos₄)
      rintro ⟨nbytes, md₅⟩ hwritten
      dsimp only at hwritten ⊢
      by_cases hall : nbytes = BLCKSZ
      · rw [if_neg (not_not.mpr hall)]
        apply Ends.bind (ends_ran _)
        rintro vec₆ -
        apply Ends.bind (ends_ran _)
        rintro md₆ - hfail
        cases hfail
      · obtain ⟨st₅, k₅, f₅, rfl, hblocks₅, hopen₅, hf₅, hinode₅, hwhole₅, hrel₅⟩ := hwritten.resolve_left hall
        have hleft₅ : Left view base Q room md k rnode { md₂ with st := st₅ } k₅ refs₂ G₂ :=
          hleft₄.trans ⟨hblocks₅, rfl, hrel₅⟩
        rw [if_pos hall]
        by_cases hsome : nbytes > 0
        · have hdata₅ : whole BLCKSZ (k₅.data f₅.inode) = whole BLCKSZ (k₃.data f₃.inode) := by
            rw [hinode₅, hwhole₅, hdata₄]
          have hle : wholeEnd (k₃.data f₃.inode) ≤ segEnd :=
            Nat.le_trans (wholeEnd_le _) (length_le_segEnd hplaced₃.bounded)
          rw [if_pos hsome, ← wholeEnd_eq]
          apply Ends.bind (hrel₅.cutBack hos hQ hf₅ hopen₅ hdata₅)
          rintro ⟨code, md₆⟩ ⟨st₆, k₆, rfl, hblocks₆, hopen₆, hf₆, hrel₆⟩
          have hleft₆ : Left view base Q room md k rnode { md₂ with st := st₆ } k₆ refs₂ G₂ :=
            hleft₅.trans ⟨hblocks₆, rfl, hrel₆⟩
          have hG₆ : ¬ G₂ vec.vfd := Tracks.not_givenUp hrel₆.files hopen₆
          apply Ends.bind (hrel₆.seekSet hos hQ ⟨trivial, fun _ _ => trivial⟩ hf₆ hG₆ hle)
          rintro ⟨pos, md₇⟩ ⟨st₇, rfl, -, ⟨-, -, hrel₇⟩ | ⟨-, -, hrel₇⟩⟩
          · exact fun _ => ⟨_, refs₂, G₂, hleft₆.trans
              ⟨sameBlocks_of_content (moved_setFile hf₆ hle).content, rfl, hrel₇⟩⟩
          · exact fun _ => ⟨k₆, refs₂, G₂, hleft₆.trans ⟨fun _ => rfl, rfl, hrel₇⟩⟩
        · rw [if_neg hsome]
          exact fun _ => ⟨k₅, refs₂, G₂, hleft₅⟩
    · exact fun _ => ⟨k₃, refs₂, G₂, hleft₃.trans ⟨fun _ => rfl, rfl, hrel₄⟩⟩
  · exact fun _ => ⟨k₂, refs₂, G₃, hleft₂.trans ⟨fun _ => rfl, rfl, hrel₃⟩⟩

end

end PostgresV7.Md
