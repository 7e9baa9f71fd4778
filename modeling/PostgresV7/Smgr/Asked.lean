import PostgresV7.Smgr.Failing

/-!
# What a relation is asked (`md.c`)

The number of blocks and what is in them, where the calls of the system succeed. Both are
found in the whole blocks of the files.
-/

namespace PostgresV7.Md

open Fd Smgr Outcomes Blocks

variable {σ : Type} {os : Os σ} {view : σ → Kernel} {base : Nat → Prop} {Q : σ → (File → Prop) → Prop}
  {room : Nat}
  {allowed : Fault → Prop} {st : FdState σ} {md md' : MdState σ} {k k' : Kernel} {rnode : RelFileNode}
  {refs refs' : List Ref} {G G' : File → Prop} {dataDir : FileName} {blockNum : BlockNumber}

/-! ## Blocks -/

/-- The bytes of a block. -/
def blockBytes (k : Kernel) (dataDir : FileName) (rnode : RelFileNode) (blockNum : BlockNumber) : List UInt8 :=
  window BLCKSZ (content k (segpath dataDir rnode (segmentOf blockNum).toNat)) (blockNum.toNat % RELSEG_SIZE)

/-- A block is there if it is whole, and the segments before its own are full. -/
def Existing (k : Kernel) (dataDir : FileName) (rnode : RelFileNode) (blockNum : BlockNumber) : Prop :=
  (∀ j < blockNum.toNat / RELSEG_SIZE, blocks k dataDir rnode j = RELSEG_SIZE) ∧
    blockNum.toNat % RELSEG_SIZE < blocks k dataDir rnode (blockNum.toNat / RELSEG_SIZE)

theorem segmentOf_toNat_le (blockNum : BlockNumber) :
    (segmentOf blockNum).toNat ≤ blockNum.toNat / RELSEG_SIZE := by
  have hlt := Nat.mod_lt blockNum.toNat (show 0 < RELSEG_SIZE by decide)
  have hle := segment_le (n := blockNum.toNat / RELSEG_SIZE) hlt
  rwa [Nat.div_add_mod'] at hle

theorem Existing.before (h : Existing k dataDir rnode blockNum) :
    ∀ j < (segmentOf blockNum).toNat, blocks k dataDir rnode j = RELSEG_SIZE :=
  fun j hj => h.1 j (Nat.lt_of_lt_of_le hj (segmentOf_toNat_le blockNum))

theorem Existing.within (h : Existing k dataDir rnode blockNum) :
    blockNum.toNat % RELSEG_SIZE < blocks k dataDir rnode (segmentOf blockNum).toNat := by
  rcases Nat.eq_or_lt_of_le (segmentOf_toNat_le blockNum) with hsegment | hsegment
  · rw [hsegment]
    exact h.2
  · rw [h.1 _ hsegment]
    exact Nat.mod_lt _ (by decide)

theorem Existing.sameBlocks (h : Existing k dataDir rnode blockNum) (hk : SameBlocks k k') :
    Existing k' dataDir rnode blockNum := by
  constructor
  · intro j hj
    rw [hk.blocks_eq]
    exact h.1 j hj
  · rw [hk.blocks_eq]
    exact h.2

theorem Existing.length_eq (h : Existing k dataDir rnode blockNum) :
    (blockBytes k dataDir rnode blockNum).length = BLCKSZ := by
  have hlt := h.within
  have hmul := Nat.mul_le_mul_right BLCKSZ (Nat.succ_le_of_lt hlt)
  have hle : blocks k dataDir rnode (segmentOf blockNum).toNat * BLCKSZ ≤ _ := Nat.div_mul_le_self _ _
  unfold blockBytes
  rw [length_window]
  rw [Nat.succ_mul] at hmul
  omega

/-- What is in a block is found in the whole blocks. -/
theorem Existing.bytes_eq (h : Existing k dataDir rnode blockNum) (hk : SameBlocks k k') :
    blockBytes k' dataDir rnode blockNum = blockBytes k dataDir rnode blockNum := by
  have hlt := h.within
  have hlt' := (h.sameBlocks hk).within
  unfold blockBytes
  rw [← window_whole hlt, ← window_whole hlt', hk]

/-- What reads of these blocks return. -/
def readResults (k : Kernel) (dataDir : FileName) (rnode : RelFileNode) (bs : List BlockNumber) : List Result :=
  bs.map fun b => .buffer .SM_SUCCESS (blockBytes k dataDir rnode b)

theorem readResults_eq {bs : List BlockNumber} (hbs : ∀ b ∈ bs, Existing k dataDir rnode b)
    (hk : SameBlocks k k') :
    readResults k' dataDir rnode bs = readResults k dataDir rnode bs :=
  List.map_congr_left fun b hb => by rw [(hbs b hb).bytes_eq hk]

theorem Left.existing {bs : List BlockNumber} (h : Left view base Q room md k rnode md' k' refs' G')
    (hbs : ∀ b ∈ bs, Existing k md.dataDir rnode b) : ∀ b ∈ bs, Existing k' md'.dataDir rnode b := by
  rw [h.dataDir]
  exact fun b hb => (hbs b hb).sameBlocks h.blocks

theorem Left.readResults_eq {bs : List BlockNumber} (h : Left view base Q room md k rnode md' k' refs' G')
    (hbs : ∀ b ∈ bs, Existing k md.dataDir rnode b) :
    readResults k' md'.dataDir rnode bs = readResults k md.dataDir rnode bs := by
  rw [h.dataDir]
  exact Md.readResults_eq hbs h.blocks

/-! ## Counting -/

/-- The number of blocks: there is no full segment behind the first one that is not full. -/
def Counts (k : Kernel) (dataDir : FileName) (rnode : RelFileNode) (n x : Nat) : Prop :=
  x < RELSEG_SIZE ∧ (∀ j < n, blocks k dataDir rnode j = RELSEG_SIZE) ∧ x = blocks k dataDir rnode n

theorem Counts.sameBlocks {n x : Nat} (h : Counts k dataDir rnode n x) (hk : SameBlocks k k') :
    Counts k' dataDir rnode n x := by
  refine ⟨h.1, fun j hj => ?_, ?_⟩
  · rw [hk.blocks_eq]
    exact h.2.1 j hj
  · rw [hk.blocks_eq]
    exact h.2.2

/-- A count comes out in one way. -/
theorem Counts.unique {n x m y : Nat} (h : Counts k dataDir rnode n x) (h' : Counts k dataDir rnode m y) :
    n = m ∧ x = y := by
  have hlt : ∀ {n x m y : Nat}, Counts k dataDir rnode n x → Counts k dataDir rnode m y → ¬ n < m := by
    intro n x m y h h' hnm
    have hfull := h'.2.1 n hnm
    rw [← h.2.2] at hfull
    exact Nat.ne_of_lt h.1 hfull
  have hnm : n = m := Nat.le_antisymm (Nat.not_lt.mp (hlt h' h)) (Nat.not_lt.mp (hlt h h'))
  subst hnm
  exact ⟨rfl, h.2.2.trans h'.2.2.symm⟩

/-- The number of blocks and some blocks of a relation. -/
def asks (rnode : RelFileNode) (bs : List BlockNumber) : List Op := .nblocks rnode :: bs.map (.read rnode)

/-- What is to be answered. -/
def Answers (k : Kernel) (dataDir : FileName) (rnode : RelFileNode) (bs : List BlockNumber)
    (results : List Result) : Prop :=
  ∃ n x, Counts k dataDir rnode n x ∧
    results = .blocks (toInt ((n * RELSEG_SIZE + x : Nat) : Int)) :: readResults k dataDir rnode bs

/-- The same blocks give the same answers. -/
theorem Answers.unique {bs : List BlockNumber} {results results' : List Result}
    (h : Answers k dataDir rnode bs results) (h' : Answers k' dataDir rnode bs results') (hk : SameBlocks k k')
    (hbs : ∀ b ∈ bs, Existing k dataDir rnode b) : results' = results := by
  obtain ⟨n, x, hcounts, rfl⟩ := h
  obtain ⟨m, y, hcounts', rfl⟩ := h'
  obtain ⟨rfl, rfl⟩ := (hcounts.sameBlocks hk).unique hcounts'
  exact congrArg _ (readResults_eq hbs hk)

/-! ## Asking -/

/-- The calls do what they are meant to do, and succeed where they can. -/
structure Serving (os : Os σ) (view : σ → Kernel) : Prop where
  honest : os.Honest view
  serves : os.Serves view
  short : os.Short

section

variable (hos : Serving os view) (hQ : os.Watches Q) (hosFailed : allowed (.fd .osFailed))

include hos hosFailed

omit hosFailed in
theorem Serving.lenient {allowed : Fd.Fault → Prop} (hosFailed : allowed .osFailed) : Lenient os view allowed :=
  ⟨hosFailed, fun _ hfails => absurd hos.serves hfails⟩

include hQ

theorem Serving.files (hroom : room ≤ 2 ^ 30 - 1) : Files os (Tracked view base Q) room
    (os.Serves view) allowed :=
  tracked_files hos.honest hQ hos.short hroom hosFailed fun hfails => absurd hos.serves hfails

/-- `md_read` of a block that is there. -/
theorem Rel.mdRead (hroom : room ≤ 2 ^ 30 - 1) (h : Rel (Tracked view base Q) room md k rnode refs G)
    (hG : ∀ file, ¬ G file) (hb : Existing k md.dataDir rnode blockNum) :
    Ends allowed (mdRead os md rnode blockNum) fun r =>
      r.1 = (.SM_SUCCESS, blockBytes k md.dataDir rnode blockNum) ∧ ∃ k' refs',
        Left view base Q room md k rnode r.2 k' refs' G := by
  unfold Md.mdRead
  apply Ends.bind (h.mdFdGetSeg (hos.files hQ hosFailed hroom) rfl hb.before fun _ => .inr hosFailed)
  rintro ⟨vec, v, md₁⟩ ⟨k₁, refs₁, G₁, hwalked, hv, hvec⟩
  obtain rfl := hwalked.served hos.serves
  have hleft := hwalked.left
  dsimp only at hleft hv hvec ⊢
  obtain ⟨vec', hvec', hholds, -⟩ := hleft.rel.chained.segment _ v hv
  obtain rfl := Except.ok.inj (hvec.symm.trans hvec')
  obtain ⟨f, hf, hdir, haccess, happend, hpos⟩ := id hholds
  have hend := seekPos_le blockNum
  have hlenient : Lenient os view fun e => allowed (.fd e) := hos.lenient hosFailed
  apply Ends.bind (hleft.rel.seekSet hos.honest hQ hlenient hf (hG _) (by omega))
  rintro ⟨pos, md₂⟩ ⟨st₂, rfl, -, ⟨rfl, hseek, hrel₂⟩ | ⟨hfails, -⟩⟩
  · have hbytes : ((k₁.data f.inode).drop (seekPos blockNum)).take BLCKSZ =
        blockBytes k md.dataDir rnode blockNum := by
      unfold blockBytes window seekPos
      rw [← hholds.content hf, hwalked.content, hleft.dataDir, Nat.mul_comm]
      rfl
    have hlength := hb.length_eq
    have hplaced : (k₁.setFile vec.vfd { f with pos := seekPos blockNum }).table vec.vfd =
        some { f with pos := seekPos blockNum } := Function.update_self _ _ _
    have hwronly : f.access ≠ .O_WRONLY := by
      rw [haccess]
      exact nofun
    have hread : Kernel.read _ vec.vfd BLCKSZ = _ := Kernel.read_done hplaced hwronly
    have hnot : toInt (seekPos blockNum) ≠ -1 := by
      rw [toInt_of_le (by omega)]
      omega
    rw [show (k₁.setFile vec.vfd { f with pos := seekPos blockNum }).data = k₁.data from rfl] at hread
    dsimp only at hread ⊢
    rw [hbytes, hlength] at hread
    rw [if_neg (not_not.mpr rfl)]
    apply Ends.bind (call_allowed (Tracks.fileRead hos.honest hQ hlenient hos.short hrel₂.files hplaced hnot
      (hG _)
      hseek hread))
    rintro ⟨⟨nbytes, bytes⟩, md₃⟩ ⟨st₃, hdone, rfl⟩
    obtain ⟨hr, ht₃⟩ := hdone.resolve_left fun hfails => hfails hos.serves
    obtain ⟨rfl, rfl⟩ := Prod.mk.inj hr
    dsimp only
    rw [hlength, if_neg (not_not.mpr rfl)]
    have hsought := moved_setFile hf (show seekPos blockNum ≤ segEnd by omega)
    have hmoved := moved_setFile hplaced hend
    exact ⟨rfl, _, refs₁,
      hleft.trans ⟨sameBlocks_of_content (hsought.trans hmoved).content, rfl, hrel₂.moved hmoved ht₃⟩⟩
  · exact absurd hos.serves hfails

/-- `md_nblocks` says how many blocks there are, if no file was given up. -/
theorem Rel.counted (hroom : room ≤ 2 ^ 30 - 1) (h : Rel (Tracked view base Q) room md k rnode refs G)
    (hG : ∀ file, G file → allowed (.fd .assertion)) :
    Ends allowed (Md.mdNblocks os md rnode) fun r => (∀ file, ¬ G file) ∧ ∃ n x k' refs',
      Counts k md.dataDir rnode n x ∧ r.1 = toInt ((n * RELSEG_SIZE + x : Nat) : Int) ∧
        Left view base Q room md k rnode r.2 k' refs' G := by
  apply (h.mdNblocks (hos.files hQ hosFailed hroom) hG fun _ => .inr hosFailed).mono (fun _ h => h)
  rintro r ⟨k', refs', G', n, x, hwalked, hr, hcounted⟩
  obtain rfl := hwalked.served hos.serves
  refine ⟨hcounted.none_givenUp h hos.serves, n, x, k', refs', ⟨hcounted.lt, hcounted.full, ?_⟩, hr, hwalked.left⟩
  exact hcounted.count hos.serves

/-- The blocks are read one after another. -/
theorem Rel.reads {bs : List BlockNumber} (hroom : room ≤ 2 ^ 30 - 1)
    (h : Rel (Tracked view base Q) room md k rnode refs G) (hG : ∀ file, ¬ G file)
    (hbs : ∀ b ∈ bs, Existing k md.dataDir rnode b) :
    Ends allowed (run os (bs.map (.read rnode)) md) fun r => r.1 = readResults k md.dataDir rnode bs := by
  induction bs generalizing md k refs with
  | nil => exact rfl
  | cons b bs ih =>
    obtain ⟨hb, hbs⟩ := List.forall_mem_cons.mp hbs
    have hstep : Ends allowed (step os md (.read rnode b)) fun r =>
        r.1 = .buffer .SM_SUCCESS (blockBytes k md.dataDir rnode b) ∧ ∃ k' refs',
          Left view base Q room md k rnode r.2 k' refs' G := by
      apply Ends.bind (h.mdRead hos hQ hosFailed hroom hG hb)
      rintro ⟨⟨status, buffer⟩, md₁⟩ ⟨hr, hleft⟩
      obtain ⟨rfl, rfl⟩ := Prod.mk.inj hr
      exact ⟨rfl, hleft⟩
    apply Ends.bind hstep
    rintro ⟨result, md₁⟩ ⟨rfl, k₁, refs₁, hleft⟩
    apply Ends.bind (ih hleft.rel (hleft.existing hbs))
    rintro ⟨results, md₂⟩ hresults
    have hsame : results = readResults k md.dataDir rnode bs := hresults.trans (hleft.readResults_eq hbs)
    exact congrArg _ hsame

/-- A run that asks ends in the answers, and then no file was given up. -/
theorem Rel.asked {bs : List BlockNumber} (hroom : room ≤ 2 ^ 30 - 1)
    (h : Rel (Tracked view base Q) room md k rnode refs G) (hG : ∀ file, G file → allowed (.fd .assertion))
    (hbs : ∀ b ∈ bs, Existing k md.dataDir rnode b) :
    Ends allowed (run os (asks rnode bs) md) fun r =>
      (∀ file, ¬ G file) ∧ Answers k md.dataDir rnode bs r.1 := by
  have hstep : Ends allowed (step os md (.nblocks rnode)) fun r => (∀ file, ¬ G file) ∧ ∃ n x k' refs',
      Counts k md.dataDir rnode n x ∧ r.1 = .blocks (toInt ((n * RELSEG_SIZE + x : Nat) : Int)) ∧
        Left view base Q room md k rnode r.2 k' refs' G := by
    apply Ends.bind (h.counted hos hQ hosFailed hroom hG)
    rintro ⟨count, md₁⟩ ⟨hnone, n, x, k₁, refs₁, hcounts, hcount, hleft⟩
    exact ⟨hnone, n, x, k₁, refs₁, hcounts, congrArg _ hcount, hleft⟩
  apply Ends.bind hstep
  rintro ⟨result, md₁⟩ ⟨hnone, n, x, k₁, refs₁, hcounts, hresult, hleft⟩
  apply Ends.bind (hleft.rel.reads hos hQ hosFailed hroom hnone (hleft.existing hbs))
  rintro ⟨results, md₂⟩ hresults
  have hsame : results = readResults k md.dataDir rnode bs := hresults.trans (hleft.readResults_eq hbs)
  exact ⟨hnone, n, x, hcounts, congrArg₂ _ hresult hsame⟩

end

end PostgresV7.Md
