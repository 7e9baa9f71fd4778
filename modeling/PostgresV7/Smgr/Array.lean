import PostgresV7.Fd.Drop
import PostgresV7.Smgr.Count

/-!
# A relation as an array of blocks (`md.c`)

The segments of a relation are windows of one array, and only the last of them is not full.
Every file has a descriptor of its own here, as `fd.c` makes believe.
-/

namespace PostgresV7.Md

open Fd Smgr Outcomes Blocks

variable {base : Nat → Prop} {pick : Kernel → Option Nat} {junk : Kernel → Int} {room : Nat}
  {allowed : Fault → Prop} {st : FdState Kernel} {md md' : MdState Kernel} {k k' : Kernel} {rnode : RelFileNode}
  {refs refs' : List Ref} {array : List Block}

/-! ## Descriptors -/

/-- Every file has a descriptor of its own, and none was given up. -/
def Descriptors (base : Nat → Prop) (st : FdState Kernel) (k : Kernel) (G : File → Prop) : Prop :=
  Sim base st k none ∧ ∀ file, ¬ G file

/-- The array of `fd.c` stays below `2 ^ 31` slots when one more is taken. -/
theorem roomy_of_few (h : Sim base st k none) (hfew : Few room k 1) (hroom : room ≤ 2 ^ 30 - 1) : Roomy st := by
  have hsmall := h.small
  unfold Roomy allocatedSize
  dsimp only
  by_cases hzero : st.sizeVfdCache = 0
  · have hinit : (initVfdCache st).sizeVfdCache = 1 := by
      unfold initVfdCache
      rw [if_pos hzero]
    unfold newCacheSize
    rw [hinit]
    split <;> decide
  · have hinit : initVfdCache st = st := by
      unfold initVfdCache
      rw [if_neg hzero]
    rw [hinit]
    split
    · rename_i hfull
      obtain ⟨l, hchain, hfree⟩ := h.linked.free
      have hnil : l = [] := by
        cases l with
        | nil => rfl
        | cons i l => exact absurd (hchain.1.symm.trans hfull) hchain.2.1
      obtain ⟨slots, hslots, hcard⟩ := hfew
      have hsub : Finset.Ioo 0 st.sizeVfdCache ⊆ slots := by
        intro i hi
        obtain ⟨hpos, hlt⟩ := Finset.mem_Ioo.mp hi
        have hname : st.filename i ≠ none := by
          intro hnone
          have hmem := (hfree i).mpr ⟨⟨hpos, hlt, hnone⟩, nofun⟩
          rw [hnil] at hmem
          cases hmem
        obtain ⟨f, hf, -⟩ := h.held i hname
        exact hslots i (by simp [hf])
      have hle := Finset.card_le_card hsub
      rw [Nat.card_Ioo] at hle
      unfold newCacheSize
      split
      · decide
      · omega
    · exact hsmall

theorem reopenable_of_le {file : File} {f : OpenFile} (h : Sim base st k none) (hf : k.table file = some f)
    (hpos : toInt f.pos ≠ -1) : Reopenable st file := by
  intro hclosed
  rwa [h.closed hf hclosed]

/-- `fd.c` does what a walk needs, as long as there are descriptors. -/
theorem descriptors_files (hpick : Kernel.Picks pick 32767) (hroom : room ≤ 2 ^ 30 - 1)
    (hfull : ∀ k, Few room k 0 → Exhausts pick (fun e => allowed (.fd e)) base k) :
    Files (Kernel.os pick junk) (Descriptors base) room True allowed where
  named := by
    rintro st k G file f ⟨hsim, -⟩ hf
    obtain ⟨g, hg, hheld⟩ := hsim.held file (hsim.filename_ne_none hf)
    obtain rfl := Option.some.inj (hf.symm.trans hg)
    obtain ⟨filename, -, hdir⟩ := hheld.named
    rw [hsim.directory] at hdir
    exact ⟨filename, hdir⟩
  openFile := by
    rintro st k G path flags ⟨hsim, hG⟩ hfew habsolute hcan
    refine (fileNameOpenFile_sim hpick (hfull k (hfew.mono (Nat.zero_le _))) ?_ hsim
      (roomy_of_few hsim hfew hroom)
      habsolute).mono (fun _ h => h) ?_
    · intro d errno herror
      exact hcan.resolve_left fun hopenable => hopenable d errno herror
    · rintro r ⟨file, k', hr, hfree, hopen, hsim'⟩
      exact .inl ⟨file, k', hr, hfree, hopen, hG file, hsim', hG⟩
  seekEnd := by
    rintro st k G file f ⟨hsim, hG⟩ hfew hf hpos -
    have hseek : k.lseek file 0 .SEEK_END =
        some ((k.data f.inode).length, k.setFile file { f with pos := (k.data f.inode).length }) :=
      Kernel.lseek_done hf rfl (Int.add_zero _).symm (hsim.sizes _)
    refine (fileSeek_sim hpick (hfull k hfew) hsim hseek fun _ => reopenable_of_le hsim hf hpos).mono
      (fun _ h => h) ?_
    rintro r ⟨hr, -, hsim', -⟩
    exact .inl ⟨hG file, hr, hsim', hG⟩
  failed := fun hfails => absurd trivial hfails

/-- The last segment whose first block has a number up to `2 ^ 31`. -/
def lastSegment : Nat := 2 ^ 31 / RELSEG_SIZE

theorem lastSegment_mul : lastSegment * RELSEG_SIZE = 2 ^ 31 := by decide

/-- `open` finds a descriptor, but where the run may end for the lack of one. -/
structure Provides (pick : Kernel → Option Nat) (base : Nat → Prop) (room : Nat)
    (allowed : Fault → Prop) : Prop where
  picks : Kernel.Picks pick 32767
  upper : room ≤ 2 ^ 30 - 1
  full : ∀ k, Few room k 0 → Exhausts pick (fun e => allowed (.fd e)) base k

theorem Provides.files (h : Provides pick base room allowed) :
    Files (Kernel.os pick junk) (Descriptors base) room True allowed :=
  descriptors_files h.picks h.upper h.full

/-! ## The array -/

/-- The blocks of an array are in the segments of a relation, which are open in its chain only. -/
structure Represents (base : Nat → Prop) (room : Nat) (md : MdState Kernel) (k : Kernel) (rnode : RelFileNode)
    (refs : List Ref) (array : List Block) : Prop where
  sim : Sim base md.st k none
  fresh : Fresh k
  separate : Separate k
  absolute : (relpath md.dataDir rnode).head? = some SEP_CHAR
  laid : ∀ i, content k (segpath md.dataDir rnode i) = (window RELSEG_SIZE array i).flatMap Block.bytes
  behind : ∀ i, k.directory (segpath md.dataDir rnode (i + 1)) ≠ none → (i + 1) * RELSEG_SIZE ≤ array.length
  length_le : array.length ≤ 2 ^ 31
  chained : Chained md k rnode refs
  owned : ∀ file f i, k.table file = some f → k.directory (segpath md.dataDir rnode i) = some f.inode →
    ∃ v vec, refs[i]? = some v ∧ md.get v = .ok vec ∧ vec.vfd = file
  unused : ∀ p, md.nextNode ≤ p → md.nodes p = none
  slots : refs = [] → ∃ freed used, Slots md freed used ∧ 1 < md.nfds
  few : Few room k (lastSegment + 1 - refs.length)

theorem length_bytes (block : Block) : block.bytes.length = BLCKSZ := block.length_eq

theorem Represents.blocks_eq (h : Represents base room md k rnode refs array) (i : Nat) :
    blocks k md.dataDir rnode i = min RELSEG_SIZE (array.length - i * RELSEG_SIZE) := by
  unfold blocks
  rw [h.laid, length_flatMap length_bytes, length_window, Nat.mul_div_cancel_left _ (by decide)]

theorem Represents.full (h : Represents base room md k rnode refs array) {i : Nat}
    (hi : (i + 1) * RELSEG_SIZE ≤ array.length) : blocks k md.dataDir rnode i = RELSEG_SIZE := by
  rw [h.blocks_eq]
  rw [Nat.succ_mul] at hi
  omega

/-- The files of a chain are there, so it is no longer than the array. -/
theorem Chained.length_le (h : Chained md k rnode refs)
    (hbehind : ∀ i, k.directory (segpath md.dataDir rnode (i + 1)) ≠ none →
      (i + 1) * RELSEG_SIZE ≤ array.length) :
    refs.length ≤ array.length / RELSEG_SIZE + 1 := by
  by_contra hlt
  have hi : array.length / RELSEG_SIZE + 1 < refs.length := Nat.not_le.mp hlt
  obtain ⟨vec, -, ⟨f, -, hdir, -⟩, -⟩ := h.segment _ _ (List.getElem?_eq_getElem hi)
  have hlen := hbehind (array.length / RELSEG_SIZE) (by simp [hdir])
  have hle := (Nat.le_div_iff_mul_le (by decide)).mpr hlen
  omega

theorem div_le_lastSegment (hle : array.length ≤ 2 ^ 31) : array.length / RELSEG_SIZE ≤ lastSegment :=
  Nat.div_le_div_right hle

theorem Represents.rel (h : Represents base room md k rnode refs array) :
    Rel (Descriptors base) room md k rnode refs fun _ => False := by
  refine ⟨⟨h.sim, fun _ => id⟩, h.fresh, h.absolute, fun i => ?_, ⟨lastSegment, by decide, ?_, ?_⟩,
    h.unused, h.slots,
    h.chained, fun _ => False.elim⟩
  · rw [h.blocks_eq]
    exact Nat.min_le_left _ _
  · rw [h.blocks_eq, lastSegment_mul, Nat.sub_eq_zero_of_le h.length_le, Nat.min_zero]
    decide
  · have hle := h.chained.length_le h.behind
    have hlast := div_le_lastSegment h.length_le
    exact h.few.mono (by omega)

theorem Represents.proper (h : Represents base room md k rnode refs array) : Proper md k rnode refs :=
  ⟨h.separate, h.owned, fun i hi => h.full (h.behind i hi)⟩

/-- A walk changes nothing of the array. -/
theorem Represents.walked {G G' : File → Prop} (h : Represents base room md k rnode refs array)
    (hw : Walked (Descriptors base) room True rnode md k refs G md' k' refs' G') :
    Represents base room md' k' rnode refs' array := by
  have hproper := hw.proper h.proper
  have hdataDir := hw.extends'.dataDir
  have hbehind : ∀ i, k'.directory (segpath md'.dataDir rnode (i + 1)) ≠ none →
      (i + 1) * RELSEG_SIZE ≤ array.length := by
    intro i hi
    have hfull := hproper.contiguous i hi
    rw [hw.blocks_eq, h.blocks_eq] at hfull
    have hsize : RELSEG_SIZE = 131072 := rfl
    rw [Nat.succ_mul]
    omega
  have hle := hw.rel.chained.length_le hbehind
  have hlast := div_le_lastSegment h.length_le
  refine ⟨hw.rel.files.1, hw.rel.fresh, hproper.separate, hw.rel.absolute, fun i => ?_, hbehind, h.length_le,
    hw.rel.chained, hproper.owned, hw.rel.unused, hw.rel.slots, hw.few _ (by omega) h.few⟩
  rw [hdataDir, hw.content]
  exact h.laid i

/-- Positions move, and nothing of the array changes. -/
theorem Represents.call (h : Represents base room md k rnode refs array) (hk : Moved k k')
    (hsim : Sim base st k' none) : Represents base room { md with st := st } k' rnode refs array := by
  have hrel := h.rel.call hk.keeps (sameBlocks_of_content hk.content) hk.few
    (show Descriptors base st k' fun _ => False from ⟨hsim, fun _ => id⟩) fun _ => .inl
  exact h.walked (hk.walked hrel fun _ => rfl)

/-- An `MdfdVec` of the chain is stored with its file and its link. -/
theorem Represents.stored {v : Ref} {old new : MdfdVec} (h : Represents base room md k rnode refs array)
    (hmem : v ∈ refs)
    (hv : md.get v = .ok old) (hs : Stored md v new md') (hvfd : new.vfd = old.vfd)
    (hchain : new.chain = old.chain) :
    Represents base room md' k rnode refs array := by
  have hextends : Extends md md' refs refs := hs.extends hv hvfd
  exact h.walked ⟨.refl k, fun _ => rfl, fun hp => hp.extends hextends, fun _ _ h => h,
    h.rel.store hmem hv hs hvfd hchain, hextends, fun _ => rfl⟩

/-- The file of a segment, in its slot. -/
theorem Represents.slot {v : Ref} {vec : MdfdVec} {s : Nat} (h : Represents base room md k rnode refs array)
    (hv : refs[s]? = some v) (hvec : md.get v = .ok vec) : ∃ f, k.table vec.vfd = some f ∧
      k.directory (segpath md.dataDir rnode s) = some f.inode ∧ f.access = .O_RDWR ∧ f.append = false ∧
      f.pos ≤ segEnd ∧ k.data f.inode = (window RELSEG_SIZE array s).flatMap Block.bytes := by
  obtain ⟨vec', hvec', hholds, -⟩ := h.chained.segment s v hv
  obtain rfl := Except.ok.inj (hvec.symm.trans hvec')
  obtain ⟨f, hf, hdir, haccess, happend, hle⟩ := id hholds
  refine ⟨f, hf, hdir, haccess, happend, hle, ?_⟩
  rw [← h.laid, hholds.content hf]

/-- The blocks of one segment change in its file. -/
theorem Represents.written {v : Ref} {vec : MdfdVec} {f : OpenFile} {s p : Nat} {bytes : List UInt8}
    {array' : List Block} (h : Represents base room md k rnode refs array) (hv : refs[s]? = some v)
    (hvec : md.get v = .ok vec) (hf : k.table vec.vfd = some f) (hp : p ≤ segEnd)
    (hsim : Sim base st ((k.setData f.inode bytes).setFile vec.vfd { f with pos := p }) none)
    (hself : bytes = (window RELSEG_SIZE array' s).flatMap Block.bytes)
    (hothers : ∀ i, i ≠ s → window RELSEG_SIZE array' i = window RELSEG_SIZE array i)
    (hlonger : array.length ≤ array'.length) (hle : array'.length ≤ 2 ^ 31) :
    Represents base room { md with st := st }
      ((k.setData f.inode bytes).setFile vec.vfd { f with pos := p }) rnode refs
      array' := by
  obtain ⟨g, hg, hdir, -⟩ := h.slot hv hvec
  obtain rfl := Option.some.inj (hg.symm.trans hf)
  have hkeeps : Keeps k ((k.setData g.inode bytes).setFile vec.vfd { g with pos := p }) :=
    keeps_setData.trans (keeps_setFile hf hp)
  refine ⟨hsim, h.fresh, h.separate, h.absolute, fun i => ?_,
    fun i hi => Nat.le_trans (h.behind i hi) hlonger, hle,
    h.chained.keeps hkeeps, fun file f' i hf' hdir' => ?_, h.unused, fun hnil => ?_, few_setFile hf ?_⟩
  · show content (k.setData g.inode bytes) (segpath md.dataDir rnode i) = _
    by_cases hi : i = s
    · subst hi
      unfold content
      simp [Kernel.setData, hdir, hself]
    · rw [hothers i hi, ← h.laid]
      unfold content
      cases hdir' : k.directory (segpath md.dataDir rnode i) with
      | none => simp [Kernel.setData, hdir']
      | some inode =>
        have hne : inode ≠ g.inode := by
          rintro rfl
          exact hi (segpath_inj (h.separate _ _ _ hdir' hdir)).2
        simp [Kernel.setData, hdir', hne]
  · have hf' : Function.update k.table vec.vfd (some { g with pos := p }) file = some f' := hf'
    by_cases hfile : file = vec.vfd
    · rw [hfile, Function.update_self] at hf'
      rw [hfile]
      apply h.owned vec.vfd g i hf
      rwa [← Option.some.inj hf'] at hdir'
    · rw [Function.update_of_ne hfile] at hf'
      exact h.owned file f' i hf' hdir'
  · rw [hnil] at hv
    cases hv
  · exact few_of_table h.few rfl

/-! ## Counting -/

/-- The first segment can be opened, if it is not. -/
def Reaches (allowed : Fault → Prop) (md : MdState Kernel) (k : Kernel) (rnode : RelFileNode)
    (refs : List Ref) : Prop :=
  refs = [] → k.directory (relpath md.dataDir rnode) ≠ none ∨ allowed (.fd .osFailed)

section

variable (hprovides : Provides pick base room allowed)

include hprovides

/-- `md_nblocks` opens all segments, and counts the blocks. -/
theorem Represents.nblocks (h : Represents base room md k rnode refs array)
    (hcan : Reaches allowed md k rnode refs) :
    Ends allowed (mdNblocks (Kernel.os pick junk) md rnode) fun r => r.1 = toInt array.length ∧ ∃ k' refs',
      Represents base room r.2 k' rnode refs' array ∧ array.length / RELSEG_SIZE < refs'.length := by
  apply (h.rel.mdNblocks hprovides.files (fun _ => False.elim) hcan).mono (fun _ h => h)
  rintro r ⟨k', refs', G', n, x, hwalked, hr, hcounted⟩
  have hx := hcounted.count trivial
  have hlt := hcounted.lt
  have hfull : n * RELSEG_SIZE ≤ array.length := by
    cases n with
    | zero => omega
    | succ n =>
      have hn := hcounted.full n (Nat.lt_succ_self n)
      rw [h.blocks_eq] at hn
      have hsize : RELSEG_SIZE = 131072 := rfl
      rw [Nat.succ_mul]
      omega
  rw [h.blocks_eq] at hx
  have hlength : array.length = n * RELSEG_SIZE + x := by omega
  have hdiv : array.length / RELSEG_SIZE = n := by
    rw [hlength, Nat.add_comm, Nat.add_mul_div_right _ _ (by decide), Nat.div_eq_of_lt hlt, Nat.zero_add]
  refine ⟨by rw [hr, hlength], k', refs', h.walked hwalked, ?_⟩
  rw [hdiv]
  exact hcounted.reached

omit hprovides in
theorem segment_toNat {b : Nat} : (Int.tdiv (b : Int) RELSEG_SIZE).toNat = b / RELSEG_SIZE := by
  rw [← Int.ofNat_tdiv, Int.toNat_natCast]

theorem Represents.getRelnFd (h : Represents base room md k rnode refs array)
    (hcan : Reaches allowed md k rnode refs) :
    Ends allowed (mdFdGetRelnFd (Kernel.os pick junk) md rnode) fun r => ∃ k' refs',
      Represents base room r.2 k' rnode refs' array ∧ refs.length ≤ refs'.length ∧
        refs'[0]? = some (.slot r.1) := by
  apply (h.rel.getRelnFd hprovides.files hcan).mono (fun _ h => h)
  rintro r ⟨k', refs', G', hwalked, hv⟩
  exact ⟨k', refs', h.walked hwalked, hwalked.extends'.length_le, hv⟩

/-- `md_fd_get_seg` of a block of the array, or of the next one. -/
theorem Represents.getSeg {b : Nat} (h : Represents base room md k rnode refs array)
    (hcan : Reaches allowed md k rnode refs) (hb : b ≤ array.length) :
    Ends allowed (mdFdGetSeg (Kernel.os pick junk) md rnode b) fun r => ∃ k' refs',
      Represents base room r.2.2 k' rnode refs' array ∧ refs'[b / RELSEG_SIZE]? = some r.2.1 ∧
        r.2.2.get r.2.1 = .ok r.1 := by
  have hfull : ∀ j < b / RELSEG_SIZE, blocks k md.dataDir rnode j = RELSEG_SIZE := by
    intro j hj
    have hmul := Nat.mul_le_mul_right RELSEG_SIZE (Nat.succ_le_of_lt hj)
    exact h.full (Nat.le_trans hmul (Nat.le_trans (Nat.div_mul_le_self _ _) hb))
  apply (h.rel.mdFdGetSeg hprovides.files segment_toNat hfull hcan).mono (fun _ h => h)
  rintro r ⟨k', refs', G', hwalked, hv, hvec⟩
  exact ⟨k', refs', h.walked hwalked, hv, hvec⟩

/-! ## Positions -/

/-- A seek of a segment's file. -/
theorem Represents.seek {v : Ref} {vec : MdfdVec} {f : OpenFile} {s pos start : Nat} {offset : Int}
    (whence : Whence)
    (h : Represents base room md k rnode refs array) (hv : refs[s]? = some v) (hvec : md.get v = .ok vec)
    (hf : k.table vec.vfd = some f) (hstart : k.origin f whence = some start)
    (hpos : (pos : Int) = start + offset)
    (hle : pos ≤ segEnd) :
    Ends allowed (md.call fun st => fileSeek (Kernel.os pick junk) st vec.vfd offset whence) fun r =>
      r.1 = pos ∧ ∃ st, r.2 = { md with st := st } ∧ st.seekPos vec.vfd = pos ∧
        Represents base room { md with st := st } (k.setFile vec.vfd { f with pos := pos }) rnode refs array := by
  obtain ⟨g, hg, -, -, -, hfpos, -⟩ := h.slot hv hvec
  obtain rfl := Option.some.inj (hg.symm.trans hf)
  have hmax : pos ≤ maxOffset := Nat.le_trans hle (by decide)
  have hfew : Few room k 0 := h.few.mono (Nat.zero_le _)
  apply (call_allowed (fileSeek_sim hprovides.picks (hprovides.full k hfew) h.sim
    (Kernel.lseek_done hf hstart hpos hmax) fun _ => reopenable_of_le h.sim hf (toInt_ne hfpos))).mono
    (fun _ h => h)
  rintro r ⟨st, ⟨hr, hseek, hsim, -⟩, hst⟩
  exact ⟨hr, st, hst, hseek, h.call (moved_setFile hf hle) hsim⟩

omit hprovides in
/-- The block of a segment. -/
theorem getElem?_window_of {b : Nat} {block : Block} (hb : array[b]? = some block) :
    (window RELSEG_SIZE array (b / RELSEG_SIZE))[b % RELSEG_SIZE]? = some block := by
  rw [getElem?_window (Nat.mod_lt _ (by decide)), Nat.div_add_mod']
  exact hb

omit hprovides in
theorem toInt_of_lt {b : Nat} (hb : b < 2 ^ 31) : toInt (b : Int) = b := by
  unfold toInt
  rw [Int.bmod_def]
  split <;> omega

omit hprovides in
theorem seekPos_le (blockNum : BlockNumber) : seekPos blockNum + BLCKSZ ≤ segEnd := by
  have hlt := Nat.mod_lt blockNum.toNat (show 0 < RELSEG_SIZE by decide)
  unfold seekPos segEnd RELSEG_SIZE BLCKSZ
  unfold RELSEG_SIZE at hlt
  omega

/-! ## Reading and writing -/

/-- The place of a block was found, and it was sought there. -/
structure Sought (base : Nat → Prop) (room : Nat) (rnode : RelFileNode) (array : List Block)
    (blockNum : BlockNumber)
    (vec : MdfdVec) (v : Ref) (f : OpenFile) (st : FdState Kernel) (md : MdState Kernel) (k : Kernel)
    (refs : List Ref) : Prop where
  represents : Represents base room { md with st := st }
    (k.setFile vec.vfd { f with pos := seekPos blockNum }) rnode
    refs array
  ref : refs[blockNum.toNat / RELSEG_SIZE]? = some v
  get : md.get v = .ok vec
  file : k.table vec.vfd = some f
  access : f.access = .O_RDWR
  append : f.append = false
  data : k.data f.inode = (window RELSEG_SIZE array (blockNum.toNat / RELSEG_SIZE)).flatMap Block.bytes
  seekPos : st.seekPos vec.vfd = seekPos blockNum

theorem Represents.seekBlock {blockNum : BlockNumber} {v : Ref} {vec : MdfdVec}
    (h : Represents base room md k rnode refs array) (hv : refs[blockNum.toNat / RELSEG_SIZE]? = some v)
    (hvec : md.get v = .ok vec) :
    Ends allowed (md.call fun st => fileSeek (Kernel.os pick junk) st vec.vfd (Smgr.seekPos blockNum) .SEEK_SET)
      fun r => r.1 = Smgr.seekPos blockNum ∧ ∃ f st, r.2 = { md with st := st } ∧
        Sought base room rnode array blockNum vec v f st md k refs := by
  obtain ⟨f, hf, -, haccess, happend, -, hdata⟩ := h.slot hv hvec
  have hle : Smgr.seekPos blockNum ≤ segEnd := Nat.le_trans (Nat.le_add_right _ _) (seekPos_le blockNum)
  apply (h.seek hprovides .SEEK_SET hv hvec hf rfl (Int.zero_add _).symm hle).mono (fun _ h => h)
  rintro r ⟨hpos, st, hst, hseek, h'⟩
  exact ⟨hpos, f, st, hst, h', hv, hvec, hf, haccess, happend, hdata, hseek⟩

omit hprovides in
theorem known_of_seekPos {file : File} {count pos : Nat} (h : st.seekPos file = pos) : Known st file count := by
  intro _ hunknown
  rw [h] at hunknown
  exact absurd hunknown (natCast_ne_closed pos)

/-- `md_read` returns the block of the array. -/
theorem Represents.read {blockNum : BlockNumber} {block : Block} (h : Represents base room md k rnode refs array)
    (hcan : Reaches allowed md k rnode refs) (hb : array[blockNum.toNat]? = some block) :
    Ends allowed (mdRead (Kernel.os pick junk) md rnode blockNum) fun r => r.1 = (.SM_SUCCESS, block.bytes) ∧
      ∃ k' refs', Represents base room r.2 k' rnode refs' array ∧ refs' ≠ [] := by
  have hlt := (List.getElem?_eq_some_iff.mp hb).1
  unfold mdRead
  rw [toInt_of_lt (Nat.lt_of_lt_of_le hlt h.length_le)]
  apply Ends.bind (h.getSeg hprovides hcan (Nat.le_of_lt hlt))
  rintro ⟨vec, v, md₁⟩ ⟨k₁, refs₁, h₁, hv, hvec⟩
  dsimp only at h₁ hv hvec ⊢
  apply Ends.bind (h₁.seekBlock hprovides hv hvec)
  rintro ⟨pos, md₂⟩ ⟨rfl, f, st, hst, hs⟩
  dsimp only at hst ⊢
  subst hst
  rw [if_neg (not_not.mpr rfl)]
  have hpos := seekPos_le blockNum
  have hf : (k₁.setFile vec.vfd { f with pos := Smgr.seekPos blockNum }).table vec.vfd =
      some { f with pos := Smgr.seekPos blockNum } := Function.update_self _ _ _
  have haccess : f.access ≠ .O_WRONLY := by
    rw [hs.access]
    exact nofun
  have hread : (k₁.setFile vec.vfd { f with pos := Smgr.seekPos blockNum }).read vec.vfd BLCKSZ = _ :=
    Kernel.read_done hf haccess
  have hbytes : ((k₁.data f.inode).drop (Smgr.seekPos blockNum)).take BLCKSZ = block.bytes := by
    rw [hs.data]
    exact slice_flatMap length_bytes (getElem?_window_of hb)
  dsimp only [Kernel.setFile] at hread
  rw [hbytes] at hread
  have hlen : block.bytes.length = BLCKSZ := block.length_eq
  have hfew : Few room (k₁.setFile vec.vfd { f with pos := Smgr.seekPos blockNum }) 0 :=
    hs.represents.few.mono (Nat.zero_le _)
  have hreopen : toInt (Smgr.seekPos blockNum : Nat) ≠ -1 :=
    toInt_ne (f := { f with pos := Smgr.seekPos blockNum }) (Nat.le_trans (Nat.le_add_right _ _) hpos)
  apply Ends.bind (call_allowed (fileRead_sim hprovides.picks (hprovides.full _ hfew) hs.represents.sim hread
    (reopenable_of_le hs.represents.sim hf hreopen) (known_of_seekPos hs.seekPos)))
  rintro ⟨⟨nbytes, bytes⟩, md₂⟩ ⟨st', ⟨hr, hsim, -⟩, hst⟩
  obtain ⟨rfl, rfl⟩ := Prod.mk.inj hr
  dsimp only at hst hsim ⊢
  rw [hlen, if_neg (not_not.mpr rfl)]
  subst hst
  have hend : Smgr.seekPos blockNum + block.bytes.length ≤ segEnd := by
    rw [hlen]
    exact hpos
  have hrepresents := hs.represents.call (moved_setFile hf hend) hsim
  refine ⟨rfl, _, refs₁, hrepresents, ?_⟩
  rintro rfl
  cases hs.ref

/-- The bytes of a block go where the position of the file is. -/
theorem Represents.writeBytes (md : MdState Kernel) {v : Ref} {vec : MdfdVec} {f : OpenFile} {s : Nat}
    {buffer : Block}
    (h : Represents base room md k rnode refs array) (hv : refs[s]? = some v) (hvec : md.get v = .ok vec)
    (hf : k.table vec.vfd = some f) (hknown : md.st.seekPos vec.vfd = f.pos) (hend : f.pos + BLCKSZ ≤ maxOffset) :
    Ends allowed (md.call fun st => fileWrite (Kernel.os pick junk) st vec.vfd buffer.bytes) fun r =>
      r.1 = BLCKSZ ∧ ∃ st, r.2 = { md with st := st } ∧
        Sim base st ((k.setData f.inode (Kernel.overwrite (k.data f.inode) f.pos buffer.bytes)).setFile vec.vfd
          { f with pos := f.pos + BLCKSZ }) none := by
  obtain ⟨g, hg, -, haccess, happend, hpos, -⟩ := h.slot hv hvec
  obtain rfl := Option.some.inj (hg.symm.trans hf)
  have hlen : buffer.bytes.length = BLCKSZ := buffer.length_eq
  have hne : buffer.bytes ≠ [] := by
    intro hnil
    rw [hnil] at hlen
    cases hlen
  have hwritable : g.access ≠ .O_RDONLY := by
    rw [haccess]
    exact nofun
  have hmax : buffer.bytes ≠ [] → g.pos + buffer.bytes.length ≤ maxOffset := by
    intro _
    rw [hlen]
    exact hend
  have hwrite := Kernel.write_done hf happend hwritable hmax
  rw [if_neg hne] at hwrite
  apply (call_allowed (fileWrite_sim hprovides.picks
    (hprovides.full k (h.few.mono (Nat.zero_le _))) h.sim hf happend
    hwrite (reopenable_of_le h.sim hf (toInt_ne hpos)) (known_of_seekPos hknown))).mono (fun _ h => h)
  rintro r ⟨st, ⟨hr, hsim, -⟩, hst⟩
  rw [hlen] at hr hsim
  exact ⟨hr, st, hst, hsim⟩

/-- A block is written where the position of the file is. -/
theorem Represents.put (md : MdState Kernel) {v : Ref} {vec : MdfdVec} {f : OpenFile} {s : Nat}
    {array' : List Block}
    {buffer : Block} (h : Represents base room md k rnode refs array) (hv : refs[s]? = some v)
    (hvec : md.get v = .ok vec) (hf : k.table vec.vfd = some f) (hknown : md.st.seekPos vec.vfd = f.pos)
    (hend : f.pos + BLCKSZ ≤ segEnd)
    (hself : Kernel.overwrite (k.data f.inode) f.pos buffer.bytes =
      (window RELSEG_SIZE array' s).flatMap Block.bytes)
    (hothers : ∀ i, i ≠ s → window RELSEG_SIZE array' i = window RELSEG_SIZE array i)
    (hlonger : array.length ≤ array'.length) (hle : array'.length ≤ 2 ^ 31) :
    Ends allowed (md.call fun st => fileWrite (Kernel.os pick junk) st vec.vfd buffer.bytes) fun r =>
      r.1 = BLCKSZ ∧ ∃ k' st, r.2 = { md with st := st } ∧
        Represents base room { md with st := st } k' rnode refs array' := by
  have hmax : f.pos + BLCKSZ ≤ maxOffset := Nat.le_trans hend (by decide)
  apply (h.writeBytes hprovides md hv hvec hf hknown hmax).mono (fun _ h => h)
  rintro r ⟨hr, st, hst, hsim⟩
  exact ⟨hr, _, st, hst, h.written hv hvec hf hend hsim hself hothers hlonger hle⟩

omit hprovides in
/-- A block of a segment is written over. -/
theorem overwrite_set {l : List Block} {n : Nat} (hn : n < l.length) (buffer : Block) :
    Kernel.overwrite (l.flatMap Block.bytes) (BLCKSZ * n) buffer.bytes =
      (l.set n buffer).flatMap Block.bytes := by
  have hle : BLCKSZ * n ≤ BLCKSZ * l.length := Nat.mul_le_mul_left _ (Nat.le_of_lt hn)
  rw [set_flatMap length_bytes hn]
  unfold Kernel.overwrite
  rw [length_flatMap length_bytes, Nat.sub_eq_zero_of_le hle, List.replicate_zero, List.append_nil, length_bytes]

omit hprovides in
/-- A block is written behind the last one. -/
theorem overwrite_append {l : List Block} (buffer : Block) :
    Kernel.overwrite (l.flatMap Block.bytes) (l.flatMap Block.bytes).length buffer.bytes =
      (l ++ [buffer]).flatMap Block.bytes := by
  unfold Kernel.overwrite
  rw [Nat.sub_self, List.replicate_zero, List.append_nil, List.take_length,
    List.drop_eq_nil_of_le (Nat.le_add_right _ _),
    List.append_nil, List.flatMap_append, List.flatMap_singleton]

omit hprovides in
theorem set_div_mod {b : Nat} {buffer : Block} :
    array.set b buffer = array.set (b / RELSEG_SIZE * RELSEG_SIZE + b % RELSEG_SIZE) buffer := by
  rw [Nat.div_add_mod']

theorem Represents.writeBlock {blockNum : BlockNumber} {buffer : Block}
    (h : Represents base room md k rnode refs array)
    (hcan : Reaches allowed md k rnode refs) (hlt : blockNum.toNat < array.length) :
    Ends allowed (writeBlock (Kernel.os pick junk) md rnode blockNum buffer) fun r => r.1.1 = true ∧
      ∃ k' refs', Represents base room r.2 k' rnode refs' (array.set blockNum.toNat buffer) ∧ refs' ≠ [] := by
  unfold Md.writeBlock
  rw [toInt_of_lt (Nat.lt_of_lt_of_le hlt h.length_le)]
  apply Ends.bind (h.getSeg hprovides hcan (Nat.le_of_lt hlt))
  rintro ⟨vec, v, md₁⟩ ⟨k₁, refs₁, h₁, hv, hvec⟩
  dsimp only at h₁ hv hvec ⊢
  apply Ends.bind (h₁.seekBlock hprovides hv hvec)
  rintro ⟨pos, md₂⟩ ⟨rfl, f, st, hst, hs⟩
  dsimp only at hst ⊢
  subst hst
  rw [if_neg (not_not.mpr rfl)]
  have hf : (k₁.setFile vec.vfd { f with pos := Smgr.seekPos blockNum }).table vec.vfd =
      some { f with pos := Smgr.seekPos blockNum } := Function.update_self _ _ _
  have hmod : blockNum.toNat % RELSEG_SIZE < RELSEG_SIZE := Nat.mod_lt _ (by decide)
  have hwindow : blockNum.toNat % RELSEG_SIZE <
      (window RELSEG_SIZE array (blockNum.toNat / RELSEG_SIZE)).length := by
    rw [length_window]
    have hdiv := Nat.div_add_mod' blockNum.toNat RELSEG_SIZE
    omega
  have hself : Kernel.overwrite (k₁.data f.inode) (Smgr.seekPos blockNum) buffer.bytes =
      (window RELSEG_SIZE (array.set blockNum.toNat buffer)
        (blockNum.toNat / RELSEG_SIZE)).flatMap Block.bytes := by
    rw [hs.data, set_div_mod, window_set]
    exact overwrite_set hwindow buffer
  have hothers : ∀ i, i ≠ blockNum.toNat / RELSEG_SIZE →
      window RELSEG_SIZE (array.set blockNum.toNat buffer) i = window RELSEG_SIZE array i := by
    intro i hi
    rw [set_div_mod, window_set_of_ne hmod hi]
  have hlength : (array.set blockNum.toNat buffer).length = array.length := List.length_set
  have hle := h.length_le
  apply Ends.bind (hs.represents.put hprovides { md₁ with st := st } hv ((get_call v).trans hvec) hf hs.seekPos
    (seekPos_le blockNum) hself hothers (Nat.le_of_eq hlength.symm) (Nat.le_trans (Nat.le_of_eq hlength) hle))
  rintro ⟨nbytes, md₃⟩ ⟨rfl, k', st', hst', h'⟩
  dsimp only at hst' ⊢
  subst hst'
  refine ⟨rfl, k', refs₁, h', ?_⟩
  rintro rfl
  cases hv

/-- `md_write` replaces the block of the array. -/
theorem Represents.write {blockNum : BlockNumber} {buffer : Block}
    (h : Represents base room md k rnode refs array)
    (hcan : Reaches allowed md k rnode refs) (hlt : blockNum.toNat < array.length) :
    Ends allowed (mdWrite (Kernel.os pick junk) md rnode blockNum buffer) fun r => r.1 = .SM_SUCCESS ∧
      ∃ k' refs', Represents base room r.2 k' rnode refs' (array.set blockNum.toNat buffer) ∧ refs' ≠ [] := by
  unfold mdWrite
  apply Ends.bind (h.writeBlock hprovides hcan hlt)
  rintro ⟨⟨written, vfd⟩, md'⟩ ⟨hwritten, hrepresents⟩
  exact ⟨if_pos hwritten, hrepresents⟩

/-- `md_extend` puts the block behind the array. -/
theorem Represents.extend {buffer : Block} (h : Represents base room md k rnode refs array)
    (hcan : Reaches allowed md k rnode refs) (hlt : array.length < 2 ^ 31) :
    Ends allowed (mdExtend (Kernel.os pick junk) md rnode buffer) fun r => r.1 = .SM_SUCCESS ∧
      ∃ k' refs', Represents base room r.2 k' rnode refs' (array ++ [buffer]) ∧ refs' ≠ [] := by
  unfold mdExtend
  apply Ends.bind (h.nblocks hprovides hcan)
  rintro ⟨nblocks, md₁⟩ ⟨hnblocks, k₁, refs₁, h₁, hreached⟩
  dsimp only at hnblocks h₁ ⊢
  rw [toInt_of_lt hlt] at hnblocks
  subst hnblocks
  have hcan₁ : Reaches allowed md₁ k₁ rnode refs₁ := by
    rintro rfl
    cases hreached
  apply Ends.bind (h₁.getSeg hprovides hcan₁ (Nat.le_refl _))
  rintro ⟨vec, v, md₂⟩ ⟨k₂, refs₂, h₂, hv, hvec⟩
  dsimp only at h₂ hv hvec ⊢
  obtain ⟨f, hf, -, -, -, -, hdata⟩ := h₂.slot hv hvec
  have hmod : array.length % RELSEG_SIZE < RELSEG_SIZE := Nat.mod_lt _ (by decide)
  have hdiv := Nat.div_add_mod' array.length RELSEG_SIZE
  have hwindow : (window RELSEG_SIZE array (array.length / RELSEG_SIZE)).length = array.length % RELSEG_SIZE := by
    rw [length_window]
    omega
  have hlength : (k₂.data f.inode).length = BLCKSZ * (array.length % RELSEG_SIZE) := by
    rw [hdata, length_flatMap length_bytes, hwindow]
  have hend : (k₂.data f.inode).length + BLCKSZ ≤ segEnd := by
    rw [hlength]
    unfold segEnd
    rw [Nat.succ_mul, Nat.mul_comm BLCKSZ]
    exact Nat.add_le_add_right (Nat.mul_le_mul_right _ (Nat.le_of_lt hmod)) _
  apply Ends.bind (h₂.seek hprovides .SEEK_END hv hvec hf rfl (Int.add_zero _).symm
    (Nat.le_trans (Nat.le_add_right _ _) hend))
  rintro ⟨pos, md₃⟩ ⟨rfl, st, hst, hseek, h₃⟩
  dsimp only at hst ⊢
  subst hst
  have hnonneg : ¬ ((k₂.data f.inode).length : Int) < 0 := by omega
  have hwhole : ((k₂.data f.inode).length : Int) % BLCKSZ = 0 := by
    rw [hlength]
    push_cast
    exact Int.mul_emod_right _ _
  have hsought : Ends allowed
      (seekWhole (Kernel.os pick junk) { md₂ with st := st } vec.vfd (k₂.data f.inode).length)
      fun r => r = (((k₂.data f.inode).length : Int), { md₂ with st := st }) := by
    unfold seekWhole
    rw [if_neg (not_not.mpr hwhole)]
    exact rfl
  rw [if_neg hnonneg]
  apply Ends.bind hsought
  rintro _ rfl
  dsimp only
  rw [if_neg hnonneg]
  have hf₃ : (k₂.setFile vec.vfd { f with pos := (k₂.data f.inode).length }).table vec.vfd =
      some { f with pos := (k₂.data f.inode).length } := Function.update_self _ _ _
  have hself : Kernel.overwrite (k₂.data f.inode) (k₂.data f.inode).length buffer.bytes =
      (window RELSEG_SIZE (array ++ [buffer]) (array.length / RELSEG_SIZE)).flatMap Block.bytes := by
    rw [hdata, window_append (Nat.div_mul_le_self _ _) (by rw [Nat.succ_mul]; omega)]
    exact overwrite_append buffer
  have hothers : ∀ i, i ≠ array.length / RELSEG_SIZE →
      window RELSEG_SIZE (array ++ [buffer]) i = window RELSEG_SIZE array i := by
    intro i hi
    rcases Nat.lt_or_gt_of_ne hi with hi | hi
    · exact window_append_of_le (Nat.le_trans (Nat.mul_le_mul_right _ hi) (Nat.div_mul_le_self _ _)) _
    · have hmul := Nat.mul_le_mul_right RELSEG_SIZE (Nat.succ_le_of_lt hi)
      rw [Nat.succ_mul] at hmul
      have hlong : (array ++ [buffer]).length ≤ i * RELSEG_SIZE := by
        rw [List.length_append, List.length_singleton]
        omega
      have hshort : array.length ≤ i * RELSEG_SIZE := by omega
      rw [window_of_le hlong, window_of_le hshort]
  have hlonger : array.length ≤ (array ++ [buffer]).length := by
    rw [List.length_append]
    exact Nat.le_add_right _ _
  have hle : (array ++ [buffer]).length ≤ 2 ^ 31 := by
    rw [List.length_append, List.length_singleton]
    exact hlt
  apply Ends.bind (h₃.put hprovides { md₂ with st := st } hv ((get_call v).trans hvec) hf₃ hseek hend hself
    hothers hlonger hle)
  rintro ⟨nbytes, md₄⟩ ⟨rfl, k₄, st₄, hst₄, h₄⟩
  dsimp only at hst₄ ⊢
  subst hst₄
  rw [if_neg (not_not.mpr rfl)]
  have hget : ({ md₂ with st := st₄ } : MdState Kernel).get v = .ok vec := (get_call v).trans hvec
  obtain ⟨md₅, hset, hstored⟩ := set_stored hget { vec with
    lstBcnt := if Int.tmod (toInt (array.length + 1)) RELSEG_SIZE = 0 then RELSEG_SIZE
      else Int.tmod (toInt (array.length + 1)) RELSEG_SIZE }
  have hmem : v ∈ refs₂ := List.mem_iff_getElem?.mpr ⟨_, hv⟩
  rw [hget]
  dsimp only [bind, Except.bind]
  rw [hset]
  refine ⟨rfl, k₄, refs₂, h₄.stored hmem hget hstored rfl rfl, ?_⟩
  rintro rfl
  cases hv

end

end PostgresV7.Md
