import PostgresV7.Dynahash.Estimate
import PostgresV7.Shmem.ShmemHash

/-!
# How much shared memory a hash table takes

The postmaster sizes the segment by `hash_estimate_size`. A table in shared memory that
never has more entries than it was estimated for keeps within the estimate and within
its directory, as long as the sizes can be reckoned with at all.
-/

namespace PostgresV7.Shmem

open Align Dynahash Regions Outcomes Runs

/-- What `shmem_init_hash` asks of `hash_create`. -/
def sharedFlags : HashFlags := { elem := true, sharedMem := true, dirsize := true }

def sharedInfo (location maxSize keysize datasize : Nat) : HashCtrl where
  dsize := hashSelectDirsize maxSize
  keysize := keysize
  datasize := datasize
  maxDsize := hashSelectDirsize maxSize
  dir := location + SIZEOF_HASH_HEADER

/-- A step after which there are at most `maxSize` entries. -/
def BoundedStep {Key : Type} [DecidableEq Key] (hash : Key → Int) (A : Allocator)
    (location maxSize keysize datasize : Nat) (s : Dynahash.System Key) (event : Event Key)
    (s' : Dynahash.System Key) : Prop :=
  Dynahash.Step hash A sharedFlags (sharedInfo location maxSize keysize datasize) s event s' ∧
    s'.world.hctl.nkeys ≤ maxSize

/-- What was asked for since `heap₀`, with the header and the directory, is within `size`; so
are the requests of the next new key, and its bucket has a place in the directory. -/
structure InBudget {Key : Type} (heap₀ : Heap) (maxSize : Nat) (size : Int) (w : World Key) : Prop where
  spent : ∃ n, Spent maxAlign heap₀ w.heap n ∧
    ((maxAlign (SIZEOF_HASH_HEADER + hashSelectDirsize maxSize * SIZEOF_SEG_OFFSET) + n : Nat) : Int) ≤ size ∧
    (w.hctl.nkeys < maxSize →
      ((maxAlign (SIZEOF_HASH_HEADER + hashSelectDirsize maxSize * SIZEOF_SEG_OFFSET) + n +
        enterBytes w.hctl : Nat) : Int) ≤ size)
  directory : w.hctl.nkeys < maxSize → Full { w.hctl with nkeys := w.hctl.nkeys + 1 } →
    newSegnum w.hctl < w.hctl.dsize

/-- A table made for `initSize` entries that never has more than `maxSize` keeps within the
estimate, whatever the allocator answers. -/
def WithinEstimate (initSize maxSize keysize datasize : Nat) : Prop :=
  ∃ size, hashEstimateSize maxSize keysize datasize = .ok size ∧
  ∀ (Key : Type) [DecidableEq Key] (hash : Key → Int) (A : Allocator) (w₀ : World Key) (location : Nat),
    directoryRegion location maxSize ∈ w₀.heap.regions →
    segmentsFor (bucketsFor initSize) ≤ hashSelectDirsize maxSize ∧
    (∃ created, shmemInitHash A w₀ location initSize maxSize { keysize := keysize, datasize := datasize }
      { elem := true } = .ok created) ∧
    ∀ hashp w l s, shmemInitHash A w₀ location initSize maxSize
        { keysize := keysize, datasize := datasize } { elem := true } = .ok (some (hashp, w)) →
      Run (BoundedStep hash A location maxSize keysize datasize) ⟨w, [hashp]⟩ l s →
      InBudget w₀.heap maxSize size s.world ∧ ∀ h ∈ s.handles, ∀ key action,
        Safe hash h s.world key action ∧ ∃ r, hashSearch hash A h s.world key action = .ok r

variable {Key : Type} {A : Allocator} {hashp : HashTable} {w w' : World Key}
  {initSize maxSize keysize datasize location : Nat}

/-! ## The new table -/

theorem shmemInitHash_eq (A : Allocator) (w : World Key) (location initSize maxSize keysize datasize : Nat) :
    shmemInitHash A w location initSize maxSize { keysize := keysize, datasize := datasize } { elem := true } =
      hashCreate A w initSize (sharedInfo location maxSize keysize datasize) sharedFlags := rfl

/-- The header before `init_htab`. -/
def sharedHeader (maxSize keysize datasize : Nat) : HashHeader :=
  { hdefault with
    maxDsize := hashSelectDirsize maxSize
    dsize := hashSelectDirsize maxSize
    keysize := keysize
    datasize := datasize }

/-- The header once `init_htab` has chosen the buckets. -/
def sizedHeader (initSize maxSize keysize datasize : Nat) : HashHeader :=
  sizeHeader (sharedHeader maxSize keysize datasize) (bucketsFor initSize)
    (segmentsFor (bucketsFor initSize))

theorem bmod_initSize (h : initSize ≤ 2 ^ 30) :
    Int.bmod (Int.tdiv ((initSize : Int) - 1) DEF_FFACTOR + 1) (2 ^ 32) = initSize := by
  rw [ffactor_quot, Int.bmod_eq_of_le (by omega) (by omega)]

/-- `init_htab` with the directory in place. -/
theorem initHtab_shared (A : Allocator) (w : World Key) (hdir : hashp.dir ≠ 0) (hle : initSize ≤ 2 ^ 30) :
    initHtab A hashp { w with hctl := sharedHeader maxSize keysize datasize } initSize =
      if 29 < myLog2 initSize then .error .undefined
      else if hashSelectDirsize maxSize < segmentsFor (bucketsFor initSize) then
        .ok (false, hashp, { w with hctl := sharedHeader maxSize keysize datasize })
      else initSegments A hashp (segmentsFor (bucketsFor initSize))
          { w with hctl := sizedHeader initSize maxSize keysize datasize } >>=
        fun r => .ok (r.1, hashp, r.2) := by
  have hfactor : DEF_FFACTOR ≠ 0 := by decide
  unfold initHtab initDirectory
  simp only [sizedHeader, sharedHeader, hdefault, hfactor, bmod_initSize hle, ↓reduceIte, hdir, ne_eq,
    not_false_eq_true, and_true, bucketsFor_eq, segmentsFor, gt_iff_lt]

/-- The handle on the directory behind the header. -/
def sharedHandle (location : Nat) : HashTable := ⟨location + SIZEOF_HASH_HEADER, false⟩

theorem hashCreate_shared (A : Allocator) (w : World Key) (location initSize maxSize keysize datasize : Nat) :
    hashCreate A w initSize (sharedInfo location maxSize keysize datasize) sharedFlags =
      initHtab A (sharedHandle location) { w with hctl := sharedHeader maxSize keysize datasize } initSize >>=
        fun r => .ok (if r.1 then some (r.2.1, r.2.2) else none) := rfl

theorem sharedHandle_dir (location : Nat) : (sharedHandle location).dir ≠ 0 := by
  show location + 120 ≠ 0
  omega

/-- Twice the buckets for more than `2 ^ 29` entries are no `int`. -/
theorem shmemInitHash_undefined (hlt : 2 ^ 29 < initSize) (hle : initSize ≤ 2 ^ 30) :
    shmemInitHash A w location initSize maxSize { keysize := keysize, datasize := datasize }
      { elem := true } = .error .undefined := by
  have hlog : 29 < myLog2 initSize := by
    by_contra hsmall
    have hpow : initSize ≤ bucketsFor initSize := le_bucketsFor (by omega)
    have hmono : 2 ^ myLog2 initSize ≤ 2 ^ 29 := Nat.pow_le_pow_right (by decide) (Nat.not_lt.mp hsmall)
    rw [bucketsFor_eq] at hpow
    omega
  rw [shmemInitHash_eq, hashCreate_shared, initHtab_shared A w (sharedHandle_dir location) hle, if_pos hlog]
  rfl

/-- A new table takes its segments and no elements. -/
theorem shmemInitHash_account (hsmall : initSize ≤ 2 ^ 29) (hle : initSize ≤ maxSize)
    (hmax : maxSize ≤ 2 ^ 30) (keysize datasize : Nat) (A : Allocator) (w : World Key) (location : Nat) :
    ∃ created, shmemInitHash A w location initSize maxSize { keysize := keysize, datasize := datasize }
      { elem := true } = .ok created ∧ ∀ hashp w', created = some (hashp, w') →
        hashp = sharedHandle location ∧ w'.hctl.nkeys = 0 ∧
        Account maxSize keysize datasize w.heap w' [] 0 := by
  have hlog : ¬ 29 < myLog2 initSize :=
    Nat.not_lt.mpr (myLog2_le (by decide) (by exact_mod_cast hsmall))
  have hbuckets : bucketsFor initSize ≤ bucketsFor maxSize := bucketsFor_mono hle
  have hsegments : segmentsFor (bucketsFor initSize) ≤ segmentsFor (bucketsFor maxSize) :=
    segmentsFor_mono hbuckets
  have hdir : ¬ hashSelectDirsize maxSize < segmentsFor (bucketsFor initSize) :=
    Nat.not_lt.mpr (Nat.le_trans hsegments (segmentsFor_le_dirsize hmax))
  have hfits : Dynahash.Fits (sharedHandle location)
      (SIZEOF_BUCKET_INDEX * (sizedHeader initSize maxSize keysize datasize).ssize) := by
    show SIZEOF_BUCKET_INDEX * DEF_SEGSIZE < 2 ^ 64
    decide
  have hinit := initSegments_account (A := A) (k := segmentsFor (bucketsFor initSize))
    (w := { w with hctl := sizedHeader initSize maxSize keysize datasize }) rfl hfits
  rw [shmemInitHash_eq, hashCreate_shared, initHtab_shared A w (sharedHandle_dir location) (by omega),
    if_neg hlog, if_neg hdir]
  cases hrun : initSegments A (sharedHandle location) (segmentsFor (bucketsFor initSize))
      { w with hctl := sizedHeader initSize maxSize keysize datasize } with
  | error e => exact (hinit.of_error hrun).elim
  | ok r =>
    obtain ⟨done, w₁⟩ := r
    refine ⟨_, rfl, ?_⟩
    intro hashp w' heq
    cases done with
    | false => cases heq
    | true =>
      obtain ⟨rfl, rfl⟩ := Prod.mk.inj (Option.some.inj heq)
      obtain ⟨hctl, hspent⟩ := hinit.of_ok hrun rfl
      have hpos : 0 < bucketsFor initSize := by
        rw [bucketsFor_eq]
        exact Nat.two_pow_pos _
      dsimp only at hctl hspent
      refine ⟨rfl, by rw [hctl]; rfl, ⟨?_, ?_, ?_, ?_, Nat.zero_le _, ?_⟩⟩
      · rw [hctl]
        exact ⟨rfl, rfl, rfl, if_neg hdir, rfl, rfl, rfl⟩
      · rw [hctl]
        rfl
      · rw [hctl]
        show bucketsFor initSize - 1 < bucketsFor maxSize
        omega
      · rw [hctl]
        show 0 + segmentsFor (bucketsFor initSize) ≤ _
        omega
      · rw [hctl, Nat.zero_mul, Nat.add_zero]
        show Spent maxAlign w.heap w₁.heap ((0 + segmentsFor (bucketsFor initSize)) * _)
        rw [Nat.zero_add]
        exact hspent

/-! ## The sum -/

theorem maxAlign_add_le {a b : Nat} (h : a + b < 2 ^ 63) : maxAlign (a + b) ≤ maxAlign a + maxAlign b := by
  have ha : a ≤ maxAlign a := le_maxAlign (by omega)
  have hb : b ≤ maxAlign b := le_maxAlign (by omega)
  rw [maxAlign_eq h]
  apply alignUp_le (by decide) (Nat.dvd_add (dvd_maxAlign a) (dvd_maxAlign b))
  omega

theorem dirsize_le (hmax : maxSize ≤ 2 ^ 30) : hashSelectDirsize maxSize ≤ 2 ^ 23 := by
  have hsegs := segmentsFor_le (bucketsFor_le hmax)
  have hspec : segmentsFor (bucketsFor maxSize) ≤ DEF_DIRSIZE * 2 ^ 63 := by
    unfold DEF_DIRSIZE
    omega
  rw [hashSelectDirsize_eq]
  rcases (selectDirsizeFrom_spec hspec).2.1 with heq | hlt
  · rw [heq]
    decide
  · omega

variable {hash : Key → Int} {chains : Nat → List Nat} {free : List Nat} {groups : Nat} {heap₀ : Heap}

/-- A group is thirty elements without a gap. -/
theorem groupBytes_eq (hd : Defaults maxSize keysize datasize w.hctl)
    (hest : estimateOf maxSize keysize datasize < 2 ^ 63) (location : Nat) :
    groupBytes w.hctl = BUCKET_ALLOC_INCR * alignUp 16 (SIZEOF_BUCKET_INDEX + keysize + datasize) ∧
      ElementsFit (sharedHandle location) w.hctl := by
  have hgroup : BUCKET_ALLOC_INCR * alignUp 16 (SIZEOF_BUCKET_INDEX + keysize + datasize) < 2 ^ 63 := by
    have hle : BUCKET_ALLOC_INCR * alignUp 16 (SIZEOF_BUCKET_INDEX + keysize + datasize) ≤
        groupsFor maxSize * (BUCKET_ALLOC_INCR * alignUp 16 (SIZEOF_BUCKET_INDEX + keysize + datasize)) :=
      Nat.le_mul_of_pos_left _ (Nat.succ_pos _)
    unfold estimateOf at hest
    rw [Nat.mul_assoc] at hest
    omega
  have hrecord : SIZEOF_BUCKET_INDEX + keysize + datasize < 2 ^ 63 := by
    have hle : SIZEOF_BUCKET_INDEX + keysize + datasize ≤
        alignUp 16 (SIZEOF_BUCKET_INDEX + keysize + datasize) := le_alignUp (by decide) _
    unfold BUCKET_ALLOC_INCR at hgroup
    omega
  have hsize : w.hctl.bucketSize = alignUp 16 (SIZEOF_BUCKET_INDEX + keysize + datasize) := by
    unfold HashHeader.bucketSize
    rw [hd.keysize, hd.datasize, maxAlign_eq hrecord]
  constructor
  · unfold groupBytes
    rw [hsize, maxAlign_eq hgroup]
    exact alignUp_of_dvd (by decide) (Nat.dvd_mul_left_of_dvd (dvd_alignUp 16 _) _)
  · constructor
    · rw [hd.keysize, hd.datasize]
      exact hrecord
    · rw [hsize]
      show BUCKET_ALLOC_INCR * alignUp 16 (SIZEOF_BUCKET_INDEX + keysize + datasize) < 2 ^ 64
      omega

/-- All that the account allows is in the estimate. -/
theorem estimateOf_covers (hd : Defaults maxSize keysize datasize w.hctl)
    (hest : estimateOf maxSize keysize datasize < 2 ^ 63) (hmax : maxSize ≤ 2 ^ 30) :
    maxAlign (SIZEOF_HASH_HEADER + hashSelectDirsize maxSize * SIZEOF_SEG_OFFSET) +
      (segmentsFor (bucketsFor maxSize) * segmentBytes w.hctl + groupsFor maxSize * groupBytes w.hctl) ≤
        estimateOf maxSize keysize datasize := by
  have hdir := dirsize_le hmax
  have hheader : maxAlign (SIZEOF_HASH_HEADER + hashSelectDirsize maxSize * SIZEOF_SEG_OFFSET) ≤
      maxAlign SIZEOF_HASH_HEADER + maxAlign (hashSelectDirsize maxSize * SIZEOF_SEG_OFFSET) := by
    apply maxAlign_add_le
    unfold SIZEOF_HASH_HEADER SIZEOF_SEG_OFFSET
    omega
  have hsegment : segmentBytes w.hctl = maxAlign (DEF_SEGSIZE * SIZEOF_BUCKET_INDEX) := by
    unfold segmentBytes
    rw [hd.ssize, Nat.mul_comm]
  have hgroup := (groupBytes_eq hd hest 0).1
  rw [hsegment, hgroup, ← Nat.mul_assoc]
  unfold estimateOf
  omega

theorem inBudget (ht : Table hash hashp w chains free)
    (h : Account maxSize keysize datasize heap₀ w free groups)
    (hest : estimateOf maxSize keysize datasize < 2 ^ 63) (hmax : maxSize ≤ 2 ^ 30) :
    InBudget heap₀ maxSize (estimateOf maxSize keysize datasize) w := by
  have hcovers := estimateOf_covers h.defaults hest hmax
  refine ⟨⟨_, h.spent, ?_, ?_⟩, ?_⟩
  · have htotal := h.total_le
    norm_cast
    omega
  · intro hlt
    have hnext := h.enterBytes_le ht hlt hmax
    norm_cast
    omega
  · intro hlt hfull
    have hdouble := h.full_iff.mp hfull
    have hsegment := (h.newBucket_lt (Nat.le_trans hdouble hlt) hmax).2
    rw [h.defaults.dsize]
    exact Nat.lt_of_lt_of_le hsegment (segmentsFor_le_dirsize hmax)

/-! ## Runs -/

variable [DecidableEq Key] {s s' : Dynahash.System Key} {m : Dict Key}

/-- The table is in order and accounted for. -/
def Accounted (hash : Key → Int) (location maxSize keysize datasize : Nat) (heap₀ : Heap)
    (s : Dynahash.System Key) : Prop :=
  ∃ m chains free groups,
    Shared hash sharedFlags (sharedInfo location maxSize keysize datasize) s m (sharedHandle location) ∧
    Table hash (sharedHandle location) s.world chains free ∧
    Account maxSize keysize datasize heap₀ s.world free groups

theorem Accounted.created {hash : Key → Int} {w₀ : World Key}
    (hdir : directoryRegion location maxSize ∈ w₀.heap.regions)
    (hcreate : hashCreate A w₀ initSize (sharedInfo location maxSize keysize datasize) sharedFlags =
      .ok (some (sharedHandle location, w)))
    (hacc : Account maxSize keysize datasize heap₀ w [] 0) :
    Accounted hash location maxSize keysize datasize heap₀ ⟨w, [sharedHandle location]⟩ := by
  have hasked : Asked sharedFlags (sharedInfo location maxSize keysize datasize) w₀ := by
    constructor
    · intro hsegment
      cases hsegment
    · intro _ _
      exact hdir
  have ht := (hashCreate_table hash hasked hcreate).1
  exact ⟨∅, fun _ => [], [], 0, Shared.create hasked hcreate, ht, hacc⟩

theorem Accounted.inShmem (h : Accounted hash location maxSize keysize datasize heap₀ s)
    (hest : estimateOf maxSize keysize datasize < 2 ^ 63) : InShmem (sharedHandle location) s.world := by
  obtain ⟨m, chains, free, groups, hshared, ht, hacc⟩ := h
  exact ⟨rfl, hacc.maxDsize_ne, (groupBytes_eq hacc.defaults hest location).2⟩

theorem Accounted.step {event : Event Key} (h : Accounted hash location maxSize keysize datasize heap₀ s)
    (hest : estimateOf maxSize keysize datasize < 2 ^ 63) (hmax : maxSize ≤ 2 ^ 30)
    (hs : BoundedStep hash A location maxSize keysize datasize s event s') :
    Accounted hash location maxSize keysize datasize heap₀ s' := by
  obtain ⟨m, chains, free, groups, hshared, ht, hacc⟩ := h
  obtain ⟨hstep, hkeys⟩ := hs
  obtain ⟨m', -, hashp', hshared'⟩ := hshared.step hstep
  obtain rfl : hashp' = sharedHandle location := hshared'.shared rfl (sharedHandle_dir location)
  cases hstep with
  | attach _ _ => exact ⟨m', chains, free, groups, hshared', ht, hacc⟩
  | @search i hashp₀ hashp₁ w' key action result found hi hsafe hcall =>
    obtain rfl : hashp₀ = sharedHandle location := hshared.same _ (List.mem_of_getElem? hi)
    have hin : hashp₁ ∈ s.handles.set i hashp₁ :=
      List.mem_set (List.getElem?_eq_some_iff.mp hi).1 hashp₁
    obtain rfl : hashp₁ = sharedHandle location := hshared'.same _ hin
    have hfit : ElementsFit (sharedHandle location) s.world.hctl := (groupBytes_eq hacc.defaults hest location).2
    obtain ⟨chains', free', groups', ht', hacc'⟩ :=
      (hashSearch_account hshared.represents ht hacc rfl hfit hmax).of_ok hcall hkeys
    exact ⟨m', chains', free', groups', hshared', ht', hacc'⟩

/-- The estimate holds for every run if and only if at most `2 ^ 29` entries are asked for
at first and the sum that is to bound the requests is a `long`. -/
theorem within_estimate_iff (h : 1 ≤ initSize) (hle : initSize ≤ maxSize) (hmax : maxSize ≤ 2 ^ 30) :
    WithinEstimate initSize maxSize keysize datasize ↔
      initSize ≤ 2 ^ 29 ∧ estimateOf maxSize keysize datasize < 2 ^ 63 := by
  have hestimate := hashEstimateSize_eq (Nat.le_trans h hle) keysize datasize
  constructor
  · intro ⟨size, hsize, hwithin⟩
    constructor
    · by_contra hlarge
      have hin : directoryRegion 0 maxSize ∈ [directoryRegion 0 maxSize] := List.mem_singleton_self _
      obtain ⟨-, ⟨created, hcreated⟩, -⟩ := hwithin Unit (fun _ => 0) bumpAllocator
        { freshWorld () with heap := ⟨0, [directoryRegion 0 maxSize]⟩ } 0 hin
      rw [shmemInitHash_undefined (Nat.not_le.mp hlarge) (Nat.le_trans hle hmax)] at hcreated
      cases hcreated
    · by_contra hlarge
      rw [hestimate, if_neg hlarge] at hsize
      cases hsize
  · intro ⟨hsmall, hest⟩
    refine ⟨estimateOf maxSize keysize datasize, by rw [hestimate, if_pos hest], ?_⟩
    intro Key _ hash A w₀ location hdir
    have hsegments : segmentsFor (bucketsFor initSize) ≤ hashSelectDirsize maxSize :=
      Nat.le_trans (segmentsFor_mono (bucketsFor_mono hle)) (segmentsFor_le_dirsize hmax)
    obtain ⟨created, hcreated, hnew⟩ := shmemInitHash_account hsmall hle hmax
      keysize datasize A w₀ location
    refine ⟨hsegments, ⟨created, hcreated⟩, ?_⟩
    intro hashp w l s hinit hrun
    rw [hcreated] at hinit
    have hsome := Except.ok.inj hinit
    obtain ⟨rfl, hnkeys, hacc⟩ := hnew hashp w hsome
    have hcreate : hashCreate A w₀ initSize (sharedInfo location maxSize keysize datasize) sharedFlags =
        .ok (some (sharedHandle location, w)) := by
      rw [← hsome]
      exact hcreated
    have hstart : Accounted hash location maxSize keysize datasize w₀.heap ⟨w, [sharedHandle location]⟩ :=
      Accounted.created hdir hcreate hacc
    have hreached : Accounted hash location maxSize keysize datasize w₀.heap s :=
      hrun.invariant (fun _ _ _ hi hs => hi.step hest hmax hs) hstart
    have hshmem := hreached.inShmem hest
    obtain ⟨m, chains, free, groups, hshared, ht, hacc'⟩ := hreached
    refine ⟨inBudget ht hacc' hest hmax, ?_⟩
    intro handle hin key action
    obtain rfl := hshared.same handle hin
    obtain ⟨result, found, w', m', hcall, -⟩ := hshmem.search (A := A) hshared.represents key action
    exact ⟨hshmem.safe key action, _, hcall⟩

theorem within_estimate_iff_example : WithinEstimate 100 1000 50 22 :=
  (within_estimate_iff (by decide) (by decide) (by decide)).mpr ⟨by decide, by decide +kernel⟩

/-- With `init_size` above `2 ^ 29`, `nbuckets << 1` is no `int`. -/
theorem within_estimate_fails : ¬ WithinEstimate (2 ^ 29 + 1) (2 ^ 30) 8 8 := by
  intro ⟨size, _, hwithin⟩
  have hin : directoryRegion 0 ((2 ^ 30 : Nat) : Int) ∈ [directoryRegion 0 ((2 ^ 30 : Nat) : Int)] :=
    List.mem_singleton_self _
  obtain ⟨-, ⟨created, hcreated⟩, -⟩ := hwithin Unit (fun _ => 0) bumpAllocator
    { freshWorld () with heap := ⟨0, [directoryRegion 0 ((2 ^ 30 : Nat) : Int)]⟩ } 0 hin
  rw [shmemInitHash_undefined (by decide) (by decide)] at hcreated
  cases hcreated

end PostgresV7.Shmem
