import PostgresV7.Dynahash.Frame
import PostgresV7.Lib.Spending

/-!
# What a table will need (`hash_estimate_size`)

The estimate, the choice of a directory and the code that allocates do the same
arithmetic in three places. What the buckets, the segments and the groups of elements
can come to is kept here as an account of the table, call by call.
-/

namespace PostgresV7.Dynahash

open Align Regions Chains Outcomes

/-- The buckets for so many entries, with the default fill factor. -/
def bucketsFor (numEntries : Int) : Nat := 2 ^ myLog2 (Int.tdiv (numEntries - 1) DEF_FFACTOR + 1)

/-- The segments for so many buckets, with the default segment size. -/
def segmentsFor (nbuckets : Nat) : Nat := 2 ^ myLog2 (((nbuckets - 1) / DEF_SEGSIZE + 1 : Nat) : Int)

/-- `hash_estimate_size`. All of it is a `long`; what exceeds one is undefined. -/
def hashEstimateSize (numEntries : Int) (keysize datasize : Nat) : Except Fault Int :=
  let nbuckets := bucketsFor numEntries
  let nsegments := segmentsFor nbuckets
  let ndirEntries := selectDirsizeFrom nsegments 63 DEF_DIRSIZE
  let size := maxAlign SIZEOF_HASH_HEADER
  let size := size + maxAlign (ndirEntries * SIZEOF_SEG_OFFSET)
  let size := size + nsegments * maxAlign (DEF_SEGSIZE * SIZEOF_BUCKET_INDEX)
  if 2 ^ 63 ≤ SIZEOF_BUCKET_INDEX + keysize + datasize then .error .undefined
  else
    let recordSize := maxAlign (SIZEOF_BUCKET_INDEX + keysize + datasize)
    let nrecordAllocs := Int.tdiv (numEntries - 1) BUCKET_ALLOC_INCR + 1
    let records := nrecordAllocs * BUCKET_ALLOC_INCR * recordSize
    if -2 ^ 63 ≤ records ∧ size + records < 2 ^ 63 then .ok (size + records) else .error .undefined

/-- The groups that hold so many elements. -/
def groupsFor (numEntries : Nat) : Nat := (numEntries - 1) / BUCKET_ALLOC_INCR + 1

/-- The sum `hash_estimate_size` forms, however large it gets. -/
def estimateOf (numEntries keysize datasize : Nat) : Nat :=
  maxAlign SIZEOF_HASH_HEADER + maxAlign (hashSelectDirsize numEntries * SIZEOF_SEG_OFFSET) +
    segmentsFor (bucketsFor numEntries) * maxAlign (DEF_SEGSIZE * SIZEOF_BUCKET_INDEX) +
    groupsFor numEntries * BUCKET_ALLOC_INCR * alignUp 16 (SIZEOF_BUCKET_INDEX + keysize + datasize)

/-! ## The arithmetic -/

theorem le_myLog2From_start (num : Int) (k i : Nat) (limit : Int) : i ≤ myLog2From num k i limit := by
  induction k generalizing i limit with
  | zero => exact Nat.le_refl i
  | succ k ih =>
    unfold myLog2From
    split
    · exact Nat.le_trans (Nat.le_succ i) (ih (i + 1) (limit * 2))
    · exact Nat.le_refl i

theorem myLog2From_mono {k i : Nat} {limit num num' : Int} (h : num ≤ num') :
    myLog2From num k i limit ≤ myLog2From num' k i limit := by
  induction k generalizing i limit with
  | zero => exact Nat.le_refl i
  | succ k ih =>
    unfold myLog2From
    by_cases hlt : limit < num
    · rw [if_pos hlt, if_pos (lt_of_lt_of_le hlt h)]
      exact ih
    · rw [if_neg hlt]
      split
      · exact Nat.le_trans (Nat.le_succ i) (le_myLog2From_start _ _ _ _)
      · exact Nat.le_refl i

theorem myLog2_mono {num num' : Int} (h : num ≤ num') : myLog2 num ≤ myLog2 num' := myLog2From_mono h

theorem myLog2_le {num : Int} {n : Nat} (hn : n ≤ 63) (h : num ≤ 2 ^ n) : myLog2 num ≤ n := by
  have hpow := myLog2_pow hn
  calc myLog2 num ≤ myLog2 ((2 ^ n : Nat) : Int) := myLog2_mono (by exact_mod_cast h)
    _ = n := hpow

variable {n m nbuckets : Nat}

theorem ffactor_quot (n : Nat) : Int.tdiv ((n : Int) - 1) DEF_FFACTOR + 1 = n := by
  unfold DEF_FFACTOR
  rw [Int.tdiv_one]
  omega

theorem bucketsFor_eq (n : Nat) : bucketsFor n = 2 ^ myLog2 n := by
  unfold bucketsFor
  rw [ffactor_quot]

theorem bucketsFor_mono (h : n ≤ m) : bucketsFor n ≤ bucketsFor m := by
  rw [bucketsFor_eq, bucketsFor_eq]
  exact Nat.pow_le_pow_right (by decide) (myLog2_mono (by exact_mod_cast h))

theorem le_bucketsFor (hn : n ≤ 2 ^ 63) : n ≤ bucketsFor n := by
  rw [bucketsFor_eq]
  exact_mod_cast le_myLog2 n (by exact_mod_cast hn)

theorem bucketsFor_le (hn : n ≤ 2 ^ 30) : bucketsFor n ≤ 2 ^ 30 := by
  rw [bucketsFor_eq]
  exact Nat.pow_le_pow_right (by decide) (myLog2_le (by decide) (by exact_mod_cast hn))

theorem segmentsFor_mono (h : n ≤ m) : segmentsFor n ≤ segmentsFor m := by
  unfold segmentsFor
  apply Nat.pow_le_pow_right (by decide)
  apply myLog2_mono
  exact_mod_cast Nat.succ_le_succ (Nat.div_le_div_right (Nat.sub_le_sub_right h 1))

/-- The segments cover the buckets. -/
theorem div_lt_segmentsFor (h : nbuckets ≤ 2 ^ 30) : (nbuckets - 1) / DEF_SEGSIZE < segmentsFor nbuckets := by
  have hquot : (nbuckets - 1) / DEF_SEGSIZE ≤ nbuckets - 1 := Nat.div_le_self _ _
  have hle := le_myLog2 (((nbuckets - 1) / DEF_SEGSIZE + 1 : Nat) : Int) (by norm_cast; omega)
  unfold segmentsFor
  exact_mod_cast hle

theorem segmentsFor_le (h : nbuckets ≤ 2 ^ 30) : segmentsFor nbuckets ≤ 2 ^ 22 := by
  unfold segmentsFor
  apply Nat.pow_le_pow_right (by decide)
  apply myLog2_le (by decide)
  unfold DEF_SEGSIZE
  norm_cast
  omega

theorem selectDirsizeFrom_spec {nsegments k d : Nat} (h : nsegments ≤ d * 2 ^ k) :
    nsegments ≤ selectDirsizeFrom nsegments k d ∧
      (selectDirsizeFrom nsegments k d = d ∨ selectDirsizeFrom nsegments k d < 2 * nsegments) ∧
      d ∣ selectDirsizeFrom nsegments k d := by
  induction k generalizing d with
  | zero => exact ⟨by simpa [selectDirsizeFrom] using h, Or.inl rfl, Nat.dvd_refl d⟩
  | succ k ih =>
    unfold selectDirsizeFrom
    split
    · rename_i hlt
      rw [pow_succ, Nat.mul_comm (2 ^ k), ← Nat.mul_assoc] at h
      obtain ⟨hle, hsize, hdvd⟩ := ih h
      refine ⟨hle, Or.inr ?_, Nat.dvd_trans (Nat.dvd_mul_right d 2) hdvd⟩
      omega
    · exact ⟨by omega, Or.inl rfl, Nat.dvd_refl d⟩

theorem hashSelectDirsize_eq (numEntries : Int) : hashSelectDirsize numEntries =
    selectDirsizeFrom (segmentsFor (bucketsFor numEntries)) 63 DEF_DIRSIZE := rfl

/-- The directory has an entry for each segment. -/
theorem segmentsFor_le_dirsize (hn : n ≤ 2 ^ 30) :
    segmentsFor (bucketsFor n) ≤ hashSelectDirsize n := by
  have hle := segmentsFor_le (bucketsFor_le hn)
  rw [hashSelectDirsize_eq]
  apply (selectDirsizeFrom_spec _).1
  unfold DEF_DIRSIZE
  omega

/-- Without an overflow the estimate is the sum. -/
theorem hashEstimateSize_eq (h : 1 ≤ n) (keysize datasize : Nat) :
    hashEstimateSize n keysize datasize =
      if estimateOf n keysize datasize < 2 ^ 63 then .ok (estimateOf n keysize datasize : Int)
      else .error .undefined := by
  have hgroups : Int.tdiv ((n : Int) - 1) BUCKET_ALLOC_INCR + 1 = groupsFor n := by
    have hsub : (n : Int) - 1 = ((n - 1 : Nat) : Int) := by omega
    rw [hsub, ← Int.ofNat_tdiv]
    rfl
  have hrecord : SIZEOF_BUCKET_INDEX + keysize + datasize ≤
      groupsFor n * BUCKET_ALLOC_INCR * alignUp 16 (SIZEOF_BUCKET_INDEX + keysize + datasize) := by
    have hpos : 0 < groupsFor n * BUCKET_ALLOC_INCR := Nat.mul_pos (Nat.succ_pos _) (by decide)
    exact Nat.le_trans (le_alignUp (by decide) _) (Nat.le_mul_of_pos_left _ hpos)
  unfold hashEstimateSize
  dsimp only
  split
  · rename_i hge
    rw [if_neg]
    unfold estimateOf
    omega
  · rename_i hlt
    rw [hgroups, maxAlign_eq (Nat.not_le.mp hlt), ← hashSelectDirsize_eq]
    have hsum : ((maxAlign SIZEOF_HASH_HEADER + maxAlign (hashSelectDirsize n * SIZEOF_SEG_OFFSET) +
        segmentsFor (bucketsFor n) * maxAlign (DEF_SEGSIZE * SIZEOF_BUCKET_INDEX) : Nat) : Int) +
        (groupsFor n : Int) * BUCKET_ALLOC_INCR * alignUp 16 (SIZEOF_BUCKET_INDEX + keysize + datasize) =
        estimateOf n keysize datasize := by
      unfold estimateOf
      push_cast
      rfl
    have hpos : 0 ≤ (groupsFor n : Int) * BUCKET_ALLOC_INCR *
        alignUp 16 (SIZEOF_BUCKET_INDEX + keysize + datasize) :=
      Int.mul_nonneg (Int.mul_nonneg (Int.natCast_nonneg _) (Int.natCast_nonneg _)) (Int.natCast_nonneg _)
    rw [hsum]
    by_cases hfit : estimateOf n keysize datasize < 2 ^ 63
    · rw [if_pos hfit, if_pos ⟨le_trans (by decide) hpos, by exact_mod_cast hfit⟩]
    · rw [if_neg hfit, if_neg]
      intro hboth
      exact hfit (by exact_mod_cast hboth.2)

/-! ## What the calls take -/

variable {Key : Type} {hash : Key → Int} {A : Allocator} {hashp : HashTable} {w w' : World Key}
  {chains : Nat → List Nat} {free : List Nat}

def segmentBytes (hctl : HashHeader) : Nat := maxAlign (SIZEOF_BUCKET_INDEX * hctl.ssize)

def groupBytes (hctl : HashHeader) : Nat := maxAlign (BUCKET_ALLOC_INCR * hctl.bucketSize)

theorem segAlloc_account :
    Ends (Allowed hashp (Fits hashp (SIZEOF_BUCKET_INDEX * w.hctl.ssize))) (segAlloc A hashp w) fun r =>
      r.2.hctl = w.hctl ∧ ((r.1 = 0 ∧ Spent maxAlign w.heap r.2.heap 0) ∨
        (r.1 ≠ 0 ∧ Spent maxAlign w.heap r.2.heap (segmentBytes w.hctl))) := by
  apply (segAlloc_spec A hashp w).mono (fun _ h => h)
  intro r hr
  rcases hr with ⟨hnull, heap, hheap, hw'⟩ | ⟨heap, hg, -, hw'⟩
  · rw [hw']
    exact ⟨rfl, Or.inl ⟨hnull, .of_regions hheap⟩⟩
  · rw [hw']
    exact ⟨rfl, Or.inr ⟨Nat.ne_of_gt hg.pos, .cons hg.regions⟩⟩

/-- At most a bucket and `segs` segments more. -/
structure Expanded (w w' : World Key) (segs : Nat) : Prop where
  header : ∃ maxBucket lowMask highMask, maxBucket ≤ w.hctl.maxBucket + 1 ∧
    w'.hctl = { w.hctl with
      maxBucket := maxBucket
      lowMask := lowMask
      highMask := highMask
      nsegs := w.hctl.nsegs + segs }
  needed : segs = 0 ∨ (segs = 1 ∧ w.hctl.nsegs ≤ newSegnum w.hctl)
  spent : Spent maxAlign w.heap w'.heap (segs * segmentBytes w.hctl)

/-- Segments without a bucket. -/
theorem Expanded.of_segments {segs : Nat}
    (hctl : w'.hctl = { w.hctl with nsegs := w.hctl.nsegs + segs })
    (hneeded : segs = 0 ∨ (segs = 1 ∧ w.hctl.nsegs ≤ newSegnum w.hctl))
    (hspent : Spent maxAlign w.heap w'.heap (segs * segmentBytes w.hctl)) : Expanded w w' segs :=
  ⟨⟨w.hctl.maxBucket, w.hctl.lowMask, w.hctl.highMask, Nat.le_succ _, hctl⟩, hneeded, hspent⟩

theorem Expanded.refl (w : World Key) : Expanded w w 0 :=
  .of_segments rfl (Or.inl rfl) (by simpa using Spent.of_regions rfl)

/-- A directory that is fixed is not replaced. -/
theorem newSegment_account (hmax : w.hctl.maxDsize ≠ NO_MAX_DSIZE) :
    Ends (fun _ => True) (newSegment A hashp w) fun r => ∃ segs, Expanded w r.2.2 segs ∧
      r.2.2.hctl = { w.hctl with nsegs := w.hctl.nsegs + segs } := by
  unfold newSegment
  split
  · rename_i hge
    have hdir : ensureDirectory A hashp w (newSegnum w.hctl) =
        .ok (decide (newSegnum w.hctl < w.hctl.dsize), hashp, w) := by
      unfold ensureDirectory dirRealloc
      by_cases hlt : newSegnum w.hctl < w.hctl.dsize
      · simp [Nat.not_le.mpr hlt, hlt]
      · simp [Nat.not_lt.mp hlt, hmax, hlt]
    rw [hdir]
    dsimp only [bind, Except.bind]
    split
    · exact ⟨0, .refl w, rfl⟩
    · unfold addSegment
      apply (segAlloc_account.mono (fun _ _ => trivial) fun _ h => h).bind
      intro r hr
      obtain ⟨hctl, hseg⟩ := hr
      dsimp only
      split
      · rename_i hnull
        have hspent := (hseg.resolve_right fun hf => hf.1 hnull).2
        exact ⟨0, .of_segments hctl (Or.inl rfl) (by simpa [World.setDir] using hspent), hctl⟩
      · rename_i hseg_ne
        have hspent := (hseg.resolve_left fun hf => hseg_ne hf.1).2
        have hadd : ({ (r.2.setDir hashp (newSegnum w.hctl) r.1).hctl with
            nsegs := (r.2.setDir hashp (newSegnum w.hctl) r.1).hctl.nsegs + 1 } : HashHeader) =
            { w.hctl with nsegs := w.hctl.nsegs + 1 } := by
          simp [World.setDir, hctl]
        exact ⟨1, .of_segments hadd (Or.inr ⟨rfl, hge⟩) (by simpa [World.setDir] using hspent), hadd⟩
  · exact ⟨0, .refl w, rfl⟩

theorem expandTable_account (hmax : w.hctl.maxDsize ≠ NO_MAX_DSIZE) :
    Ends (fun _ => True) (expandTable hash A hashp w) fun r => ∃ segs, Expanded w r.2 segs := by
  unfold expandTable
  apply (newSegment_account hmax).bind
  intro r hr
  obtain ⟨segs, hexp, hctl⟩ := hr
  dsimp only
  split
  · exact ⟨segs, hexp⟩
  · obtain ⟨low, high, hgm⟩ := growMasks_eq r.2.2.hctl
    apply Ends.bind (P := fun _ => True)
    · cases splitChain hash _ r.2.2.keys _ _ _ _ _ r.2.2.cells <;> exact trivial
    · intro cells _
      refine ⟨segs, ⟨_, low, high, Nat.le_refl _, ?_⟩, hexp.needed, hexp.spent⟩
      dsimp only
      rw [hgm, hctl]

variable {maxSize keysize datasize groups : Nat} {heap₀ : Heap}

/-- A group of elements when the free list is empty, and none otherwise. -/
theorem ensureElement_account (h : Table hash hashp w chains free) (hm : hashp.memAlloc = false)
    (hfit : ElementsFit hashp w.hctl) :
    Ends (fun _ => True) (ensureElement A hashp w) fun r => ∃ groups,
      Spent maxAlign w.heap r.2.heap (groups * groupBytes w.hctl) ∧
      ((r.1 = false ∧ groups = 0 ∧ ∃ heap, heap.regions = w.heap.regions ∧ r.2 = { w with heap := heap }) ∨
        (r.1 = true ∧ (groups = 0 ∨ (groups = 1 ∧ free = [])) ∧ ∃ e fr heap cells,
          r.2 = { w with hctl := { w.hctl with freeBucketIndex := e }, cells := cells, heap := heap } ∧
          fr.length + 1 = free.length + BUCKET_ALLOC_INCR * groups ∧
          Table hash hashp r.2 chains (e :: fr))) := by
  have hsize : BUCKET_ALLOC_INCR * w.hctl.bucketSize % 2 ^ 64 = BUCKET_ALLOC_INCR * w.hctl.bucketSize := by
    have hlt := hfit.2
    unfold Fits at hlt
    rw [hm, if_neg Bool.false_ne_true] at hlt
    exact Nat.mod_eq_of_lt hlt
  apply ((ensureElement_spec (A := A) h).mono (fun _ _ => trivial) fun _ h => h).and
    (ensureElement_heap (A := A) hm) |>.mono (fun _ _ => trivial)
  intro r hr
  obtain ⟨hspec, hheap, hroom, -⟩ := hr
  unfold elementHeap at hheap
  rw [hsize] at hheap
  rcases hspec with ⟨hfalse, -, heap, hregions, hw'⟩ | ⟨htrue, href, e, fr, heap, cells, hw', hlen, ht⟩
  · refine ⟨0, ?_, Or.inl ⟨hfalse, rfl, heap, hregions, hw'⟩⟩
    rw [hw', Nat.zero_mul]
    exact .of_regions hregions
  · by_cases hnil : free = []
    · subst hnil
      have hfree : w.hctl.freeBucketIndex = INVALID_INDEX := h.linked
      refine ⟨1, ?_, Or.inr ⟨htrue, Or.inr ⟨rfl, rfl⟩, e, fr, heap, cells, hw', ?_, ht⟩⟩
      · rw [hheap, if_pos hfree, Nat.one_mul]
        rcases spent_alloc maxAlign A w.heap (BUCKET_ALLOC_INCR * w.hctl.bucketSize) with
          ⟨hnone, -⟩ | ⟨-, hspent⟩
        · exact absurd ⟨hfree, hm, by rw [hsize]; exact hnone⟩ href
        · exact hspent
      · simpa using hlen
    · have hfree : w.hctl.freeBucketIndex ≠ INVALID_INDEX := fun hz => hnil (h.linked.eq_nil_iff.mp hz)
      refine ⟨0, ?_, Or.inr ⟨htrue, Or.inl rfl, e, fr, heap, cells, hw', ?_, ht⟩⟩
      · rw [hheap, if_neg hfree, Nat.zero_mul]
        exact .of_regions rfl
      · simpa [hnil] using hlen

/-- The parameters of a table in shared memory, which are the default ones. -/
structure Defaults (maxSize keysize datasize : Nat) (hctl : HashHeader) : Prop where
  ssize : hctl.ssize = DEF_SEGSIZE
  sshift : hctl.sshift = DEF_SEGSIZE_SHIFT
  ffactor : hctl.ffactor = DEF_FFACTOR
  dsize : hctl.dsize = hashSelectDirsize maxSize
  maxDsize : hctl.maxDsize = hashSelectDirsize maxSize
  keysize : hctl.keysize = keysize
  datasize : hctl.datasize = datasize

/-- Every element is in use or free, and the buckets, segments and groups are no more than
`maxSize` entries need. -/
structure Account (maxSize keysize datasize : Nat) (heap₀ : Heap) (w : World Key) (free : List Nat)
    (groups : Nat) : Prop where
  defaults : Defaults maxSize keysize datasize w.hctl
  elements : w.hctl.nkeys + free.length = BUCKET_ALLOC_INCR * groups
  buckets : w.hctl.maxBucket < bucketsFor maxSize
  segments : w.hctl.nsegs ≤ segmentsFor (bucketsFor maxSize)
  groups_le : groups ≤ groupsFor maxSize
  spent : Spent maxAlign heap₀ w.heap (w.hctl.nsegs * segmentBytes w.hctl + groups * groupBytes w.hctl)

namespace Account

theorem maxDsize_ne (h : Account maxSize keysize datasize heap₀ w free groups) :
    w.hctl.maxDsize ≠ NO_MAX_DSIZE := by
  rw [h.defaults.maxDsize]
  unfold NO_MAX_DSIZE
  omega

theorem remove (h : Account maxSize keysize datasize heap₀ w free groups) (hpos : 0 < w.hctl.nkeys)
    (prev : Cell) (e : Nat) :
    Account maxSize keysize datasize heap₀ (removeElement w prev e) (e :: free) groups := by
  obtain ⟨⟨h1, h2, h3, h4, h5, h6, h7⟩, helements, hbuckets, hsegments, hgroups, hspent⟩ := h
  refine ⟨⟨h1, h2, h3, h4, h5, h6, h7⟩, ?_, hbuckets, hsegments, hgroups, hspent⟩
  simp only [removeElement, List.length_cons]
  omega

/-- A refused request is not counted. -/
theorem enlarge (h : Account maxSize keysize datasize heap₀ w free groups) {heap : Heap}
    (hheap : heap.regions = w.heap.regions) :
    Account maxSize keysize datasize heap₀ { w with heap := heap } free groups := by
  obtain ⟨⟨h1, h2, h3, h4, h5, h6, h7⟩, helements, hbuckets, hsegments, hgroups, hspent⟩ := h
  have hsame : Spent maxAlign w.heap heap 0 := .of_regions hheap
  exact ⟨⟨h1, h2, h3, h4, h5, h6, h7⟩, helements, hbuckets, hsegments, hgroups, hspent.trans hsame⟩

/-- A new group is made only when all elements are in use, which are fewer than
`maxSize` then. -/
theorem insert (h : Account maxSize keysize datasize heap₀ w free groups) {e n : Nat} {fr : List Nat}
    {heap : Heap} {cells : Cell → Nat} (hn : n = 0 ∨ (n = 1 ∧ free = []))
    (hspent : Spent maxAlign w.heap heap (n * groupBytes w.hctl))
    (hlen : fr.length + 1 = free.length + BUCKET_ALLOC_INCR * n) (hkeys : w.hctl.nkeys + 1 ≤ maxSize)
    (prev : Cell) (key : Key) :
    Account maxSize keysize datasize heap₀ (insertElement { w with
      hctl := { w.hctl with freeBucketIndex := e }, cells := cells, heap := heap } prev key)
      fr (groups + n) := by
  obtain ⟨⟨h1, h2, h3, h4, h5, h6, h7⟩, helements, hbuckets, hsegments, hgroups, hspent₀⟩ := h
  refine ⟨⟨h1, h2, h3, h4, h5, h6, h7⟩, ?_, hbuckets, hsegments, ?_, ?_⟩
  · simp only [insertElement]
    rw [Nat.mul_add]
    omega
  · unfold groupsFor
    rcases hn with rfl | ⟨rfl, rfl⟩
    · exact hgroups
    · unfold BUCKET_ALLOC_INCR at *
      simp only [List.length_nil] at helements
      omega
  · have htotal := hspent₀.trans hspent
    rw [Nat.add_assoc, ← Nat.add_mul] at htotal
    exact htotal

/-- The bucket a full table gets next is among those for `maxSize` entries. -/
theorem newBucket_lt (h : Account maxSize keysize datasize heap₀ w free groups)
    (hfull : (w.hctl.maxBucket + 1) * 2 ≤ maxSize) (hmax : maxSize ≤ 2 ^ 30) :
    w.hctl.maxBucket + 1 < bucketsFor maxSize ∧ newSegnum w.hctl < segmentsFor (bucketsFor maxSize) := by
  have hle : maxSize ≤ bucketsFor maxSize := le_bucketsFor (by omega)
  have hlt : w.hctl.maxBucket + 1 < bucketsFor maxSize := by omega
  refine ⟨hlt, ?_⟩
  have hcover := div_lt_segmentsFor (bucketsFor_le hmax)
  have hdiv : (w.hctl.maxBucket + 1) / DEF_SEGSIZE ≤ (bucketsFor maxSize - 1) / DEF_SEGSIZE :=
    Nat.div_le_div_right (by omega)
  unfold newSegnum
  rw [h.defaults.sshift, Nat.shiftRight_eq_div_pow]
  exact Nat.lt_of_le_of_lt hdiv hcover

/-- Twice as many keys as buckets make a table full. -/
theorem full_iff (h : Account maxSize keysize datasize heap₀ w free groups) {nkeys : Nat} :
    Full { w.hctl with nkeys := nkeys } ↔ (w.hctl.maxBucket + 1) * 2 ≤ nkeys := by
  unfold Full
  simp only [h.defaults.ffactor, DEF_FFACTOR]
  have hpos : 0 < w.hctl.maxBucket + 1 := Nat.succ_pos _
  rw [Nat.mul_comm, ← Nat.le_div_iff_mul_le hpos]
  omega

theorem expand (h : Account maxSize keysize datasize heap₀ w free groups) {segs : Nat}
    (hexp : Expanded w w' segs) (hfull : Full w.hctl) (hkeys : w.hctl.nkeys ≤ maxSize)
    (hmax : maxSize ≤ 2 ^ 30) : Account maxSize keysize datasize heap₀ w' free groups := by
  have hdouble : (w.hctl.maxBucket + 1) * 2 ≤ w.hctl.nkeys := h.full_iff.mp hfull
  obtain ⟨hbucket, hsegment⟩ := h.newBucket_lt (Nat.le_trans hdouble hkeys) hmax
  obtain ⟨maxBucket, low, high, hle, hctl⟩ := hexp.header
  have htotal := h.spent.trans hexp.spent
  obtain ⟨⟨h1, h2, h3, h4, h5, h6, h7⟩, helements, hbuckets, hsegments, hgroups, -⟩ := h
  refine ⟨?_, ?_, ?_, ?_, hgroups, ?_⟩
  · rw [hctl]
    exact ⟨h1, h2, h3, h4, h5, h6, h7⟩
  · rw [hctl]
    exact helements
  · rw [hctl]
    dsimp only
    omega
  · rw [hctl]
    dsimp only
    rcases hexp.needed with rfl | ⟨rfl, hneed⟩ <;> omega
  · have hsame : segmentBytes w'.hctl = segmentBytes w.hctl ∧ groupBytes w'.hctl = groupBytes w.hctl := by
      rw [hctl]
      exact ⟨rfl, rfl⟩
    have hnsegs : w'.hctl.nsegs = w.hctl.nsegs + segs := by rw [hctl]
    rw [hsame.1, hsame.2, hnsegs, Nat.add_mul, Nat.add_right_comm]
    exact htotal

end Account

/-! ## What is left -/

/-- What entering a key asks for. -/
def enterBytes (hctl : HashHeader) : Nat :=
  (if hctl.freeBucketIndex = INVALID_INDEX then groupBytes hctl else 0) +
    (if GrowsSegment hctl then segmentBytes hctl else 0)

namespace Account

theorem total_le (h : Account maxSize keysize datasize heap₀ w free groups) :
    w.hctl.nsegs * segmentBytes w.hctl + groups * groupBytes w.hctl ≤
      segmentsFor (bucketsFor maxSize) * segmentBytes w.hctl + groupsFor maxSize * groupBytes w.hctl :=
  Nat.add_le_add (Nat.mul_le_mul_right _ h.segments) (Nat.mul_le_mul_right _ h.groups_le)

/-- There is enough for one key more, as long as there may be one. -/
theorem enterBytes_le (h : Account maxSize keysize datasize heap₀ w free groups)
    (ht : Table hash hashp w chains free) (hkeys : w.hctl.nkeys + 1 ≤ maxSize) (hmax : maxSize ≤ 2 ^ 30) :
    w.hctl.nsegs * segmentBytes w.hctl + groups * groupBytes w.hctl + enterBytes w.hctl ≤
      segmentsFor (bucketsFor maxSize) * segmentBytes w.hctl + groupsFor maxSize * groupBytes w.hctl := by
  have hgroup : groups * groupBytes w.hctl +
      (if w.hctl.freeBucketIndex = INVALID_INDEX then groupBytes w.hctl else 0) ≤
        groupsFor maxSize * groupBytes w.hctl := by
    split
    · rename_i hnil
      obtain rfl : free = [] := ht.linked.eq_nil_iff.mp hnil
      have hmore : groups + 1 ≤ groupsFor maxSize := by
        have helements := h.elements
        unfold groupsFor BUCKET_ALLOC_INCR at *
        simp only [List.length_nil] at helements
        omega
      rw [← Nat.succ_mul]
      exact Nat.mul_le_mul_right _ hmore
    · exact Nat.mul_le_mul_right _ h.groups_le
  have hsegment : w.hctl.nsegs * segmentBytes w.hctl +
      (if GrowsSegment w.hctl then segmentBytes w.hctl else 0) ≤
        segmentsFor (bucketsFor maxSize) * segmentBytes w.hctl := by
    split
    · rename_i hgrows
      have hdouble := h.full_iff.mp hgrows.1
      have hlt := (h.newBucket_lt (Nat.le_trans hdouble hkeys) hmax).2
      have hmore : w.hctl.nsegs + 1 ≤ segmentsFor (bucketsFor maxSize) :=
        Nat.lt_of_le_of_lt hgrows.2.1 hlt
      rw [← Nat.succ_mul]
      exact Nat.mul_le_mul_right _ hmore
    · exact Nat.mul_le_mul_right _ h.segments
  unfold enterBytes
  omega

end Account

/-! ## `hash_search` -/

variable [DecidableEq Key] {m : Dict Key} {key : Key} {action : HashAction}

/-- A new key, with the elements and the bucket it may take. -/
theorem enterElement_account (hr : Represents hash hashp w m) (ht : Table hash hashp w chains free)
    (h : Account maxSize keysize datasize heap₀ w free groups) (hm : hashp.memAlloc = false)
    (hfit : ElementsFit hashp w.hctl) (hmax : maxSize ≤ 2 ^ 30)
    (hmiss : ∀ e ∈ chains (callHash w.hctl (hash key)), w.keys e ≠ key) :
    Ends (fun _ => True) (enterElement hash A hashp w (lastCell Cell.next (bucketCell hashp w
        (callHash w.hctl (hash key))) (chains (callHash w.hctl (hash key)))) key) fun r =>
      r.2.2.hctl.nkeys ≤ maxSize → ∃ chains' free' groups', Table hash r.2.1 r.2.2 chains' free' ∧
        Account maxSize keysize datasize heap₀ r.2.2 free' groups' := by
  unfold enterElement
  apply (ensureElement_account (A := A) ht hm hfit).bind
  intro r hroom
  obtain ⟨room, w₁⟩ := r
  obtain ⟨n, hspent, ⟨rfl, rfl, heap, hheap, rfl⟩ | ⟨rfl, hn, e, fr, heap, cells, rfl, hlen, ht₁⟩⟩ := hroom
  · intro _
    have hmem : ∀ r ∈ w.heap.regions, r ∈ heap.regions := fun r hin => hheap ▸ hin
    exact ⟨chains, free, groups, ht.enlarge hmem, h.enlarge hheap⟩
  · obtain ⟨hholds, hcard⟩ := hr.holds ht
    obtain ⟨-, -, hins⟩ := Represents.insert ht₁ hholds hcard hmiss
    have hinserted := ht₁.insert hmiss
    dsimp only
    rw [if_neg Bool.true_eq_false_eq_False]
    apply Ends.bind (P := fun r : HashTable × World Key => r.2.hctl.nkeys ≤ maxSize → ∃ chains' free' groups',
      Table hash r.1 r.2 chains' free' ∧ Account maxSize keysize datasize heap₀ r.2 free' groups')
    · unfold expandIfFull
      split
      · rename_i hfull
        apply ((expandTable_spec (A := A) hinserted fun b hb => hins.length_le hinserted hb).mono
          (fun _ _ => trivial) fun _ h => h).and (expandTable_account (A := A) h.maxDsize_ne)
          |>.mono (fun _ _ => trivial)
        intro r hr hkeys
        obtain ⟨⟨-, -, hnkeys, chains', ht', -⟩, segs, hexp⟩ := hr
        rw [hnkeys] at hkeys
        exact ⟨chains', fr, groups + n, ht',
          (h.insert hn hspent hlen hkeys _ _).expand hexp hfull hkeys hmax⟩
      · intro hkeys
        exact ⟨_, fr, groups + n, hinserted, h.insert hn hspent hlen hkeys _ _⟩
    · exact fun r hr => hr

/-- After any call the table is accounted for, if it has no more than `maxSize` entries. -/
theorem hashSearch_account (hr : Represents hash hashp w m) (ht : Table hash hashp w chains free)
    (h : Account maxSize keysize datasize heap₀ w free groups) (hm : hashp.memAlloc = false)
    (hfit : ElementsFit hashp w.hctl) (hmax : maxSize ≤ 2 ^ 30) :
    Ends (fun _ => True) (hashSearch hash A hashp w key action) fun r =>
      r.2.2.2.hctl.nkeys ≤ maxSize → ∃ chains' free' groups',
        Table hash r.2.2.1 r.2.2.2 chains' free' ∧
        Account maxSize keysize datasize heap₀ r.2.2.2 free' groups' := by
  have hb := ht.hash_le (hash key)
  obtain ⟨⟨prev, currIndex⟩, hfollow, hres⟩ := followChain_spec key (ht.chain _ hb)
    (hr.length_le ht hb)
  unfold hashSearch
  dsimp only
  rw [hfollow, ok_bind]
  dsimp only
  cases hres with
  | miss hmiss =>
    cases action with
    | HASH_FIND => exact fun _ => ⟨chains, free, groups, ht, h⟩
    | HASH_REMOVE => exact fun _ => ⟨chains, free, groups, ht, h⟩
    | HASH_ENTER => exact (enterElement_account hr ht h hm hfit hmax hmiss).bind fun r hr => hr
  | @hit l₁ l₂ _ hl hne hkey =>
    have hfound : (currIndex != INVALID_INDEX) = true := bne_iff_ne.mpr hne
    rw [hfound]
    cases action with
    | HASH_FIND => exact fun _ => ⟨chains, free, groups, ht, h⟩
    | HASH_ENTER => exact fun _ => ⟨chains, free, groups, ht, h⟩
    | HASH_REMOVE =>
      have hpos : 0 < w.hctl.nkeys := by
        have hlen := hr.length_le ht hb
        rw [hl, List.length_append, List.length_cons] at hlen
        omega
      exact fun _ => ⟨_, _, groups, ht.remove hb hl, h.remove hpos _ _⟩

/-! ## A new table -/

omit [DecidableEq Key] in
theorem initSegments_account {k : Nat} (hm : hashp.memAlloc = false)
    (hfits : Fits hashp (SIZEOF_BUCKET_INDEX * w.hctl.ssize)) :
    Ends (fun _ => False) (initSegments A hashp k w) fun r => r.1 = true →
      r.2.hctl = { w.hctl with nsegs := w.hctl.nsegs + k } ∧
        Spent maxAlign w.heap r.2.heap (k * segmentBytes w.hctl) := by
  induction k generalizing w with
  | zero =>
    intro _
    refine ⟨rfl, ?_⟩
    rw [Nat.zero_mul]
    exact .of_regions rfl
  | succ k ih =>
    unfold initSegments
    apply (segAlloc_account.mono (fun e he => ?_) fun _ h => h).bind
    · intro r hr
      obtain ⟨seg, w₁⟩ := r
      obtain ⟨hctl, hseg⟩ := hr
      dsimp only at hctl hseg ⊢
      split
      · intro hf
        exact absurd hf Bool.false_ne_true
      · rename_i hne
        have hspent := (hseg.resolve_left fun hf => hne hf.1).2
        apply (ih _).mono (fun _ h => h)
        · intro r hr hdone
          obtain ⟨hctl', hspent'⟩ := hr hdone
          refine ⟨?_, ?_⟩
          · rw [hctl']
            simp only [World.setDir, hctl, Nat.add_assoc, Nat.add_comm 1 k]
          · have htotal := hspent.trans hspent'
            simp only [World.setDir, hctl, segmentBytes] at htotal ⊢
            rw [Nat.succ_mul, Nat.add_comm]
            exact htotal
        · simp only [World.setDir, hctl]
          exact hfits
    · rcases he with ⟨-, hf⟩ | hf
      · rw [hm] at hf
        cases hf
      · exact hf hfits

end PostgresV7.Dynahash
