import PostgresV7.Shmem.ShmemStruct

/-!
# Runs of `shmem_init_struct`

The index that `init_shmem_allocation` sets up knows itself. From there on the calls of
all processes refine a catalog that only ever grows.
-/

namespace PostgresV7.Shmem

open Align Dynahash Regions Outcomes Runs

variable {hash : IndexKey → Int} {A : Allocator} {s s' : ShmemIndex} {M : Catalog}

/-! ## A new index -/

/-- What `hash_create` is asked for. -/
def indexHeader : HashHeader :=
  headerOf { elem := true, sharedMem := true, dirsize := true }
    { keysize := SHMEM_INDEX_KEY_SIZE, datasize := SHMEM_INDEX_DATA_SIZE, dsize := 256,
      maxDsize := 256 }

/-- The index begins with 128 buckets in one segment. -/
theorem initHtab_index (w : World IndexKey) :
    initHtab A ⟨136, false⟩ { w with hctl := indexHeader } SHMEM_INDEX_SIZE =
      initDirectory A ⟨136, false⟩ { w with hctl := sizeHeader indexHeader 128 1 } 1 := by
  have hfactor : ¬ indexHeader.ffactor = 0 := by decide
  have hbuckets : myLog2 (Int.bmod (Int.tdiv ((SHMEM_INDEX_SIZE : Int) - 1) indexHeader.ffactor + 1)
      (2 ^ 32)) = 7 := by decide
  have hsegs : myLog2 (((2 ^ 7 - 1) / indexHeader.ssize + 1 : Nat) : Int) = 0 := by decide
  unfold initHtab
  dsimp only
  rw [if_neg hfactor, hbuckets, hsegs, if_neg (by decide), if_neg (by decide)]
  rfl

/-- The table of the index, and its one request. -/
theorem shmemInitHash_index {w w' : World IndexKey} {hashp : HashTable}
    (hinit : shmemInitHash A w 16 SHMEM_INDEX_SIZE SHMEM_INDEX_SIZE
      { keysize := SHMEM_INDEX_KEY_SIZE, datasize := SHMEM_INDEX_DATA_SIZE } { elem := true } =
        .ok (some (hashp, w'))) :
    w'.heap = (w.heap.alloc A 2048).2 ∧
      w'.hctl = { sizeHeader indexHeader 128 1 with nsegs := 1 } := by
  have hcreate : shmemInitHash A w 16 SHMEM_INDEX_SIZE SHMEM_INDEX_SIZE
      { keysize := SHMEM_INDEX_KEY_SIZE, datasize := SHMEM_INDEX_DATA_SIZE } { elem := true } =
      (initHtab A ⟨136, false⟩ { w with hctl := indexHeader } SHMEM_INDEX_SIZE >>= fun r =>
        .ok (if r.1 then some (r.2.1, r.2.2) else none)) := rfl
  rw [hcreate, initHtab_index] at hinit
  unfold initDirectory initSegments at hinit
  rw [if_pos (by decide)] at hinit
  cases hseg : segAlloc A ⟨136, false⟩ { w with hctl := sizeHeader indexHeader 128 1 } with
  | error e =>
    rw [hseg] at hinit
    cases hinit
  | ok r =>
    obtain ⟨seg, w₁⟩ := r
    have hheap := (segAlloc_heap rfl).of_ok hseg
    have hctl : w₁.hctl = sizeHeader indexHeader 128 1 := by
      rcases (segAlloc_spec A _ _).of_ok hseg with ⟨-, heap, -, hw⟩ | ⟨heap, -, -, hw⟩
      · exact congrArg World.hctl hw
      · exact congrArg World.hctl hw
    rw [hseg] at hinit
    dsimp only [bind, Except.bind] at hinit
    by_cases hnone : seg = 0
    · rw [if_pos hnone] at hinit
      cases hinit
    · rw [if_neg hnone] at hinit
      obtain ⟨-, rfl⟩ := Prod.mk.inj (Option.some.inj (Except.ok.inj hinit))
      refine ⟨hheap, ?_⟩
      show { w₁.hctl with nsegs := w₁.hctl.nsegs + 1 } = _
      rw [hctl]
      rfl

/-- The index knows itself, at the start of the segment. -/
def initialCatalog : Catalog :=
  Function.update (fun _ => none) shmemIndexName
    (some (maxAlign SIZEOF_PG_SHMEM_HEADER, UInt64.ofNat SHMEM_INDEX_SIZE))

/-- The index before it is entered under its own name. -/
structure Bootstrapped (hash : IndexKey → Int) (s : ShmemIndex) : Prop where
  known : Known hash { s with locked := false } ∅ fun _ => none
  hctl : s.world.hctl = { sizeHeader indexHeader 128 1 with nsegs := 1 }
  free_le : s.hdr.freeOffset ≤ 4240
  locked : s.locked = true

/-- The memory `hash_create` gets: a directory, and the header before it. -/
def bootWorld : World IndexKey :=
  let blank : IndexKey := fun _ => 0
  { freshWorld blank with
    heap := ⟨0, [directoryRegion 16 SHMEM_INDEX_SIZE, ⟨16, SIZEOF_HASH_HEADER⟩]⟩ }

theorem bootstrapped (hash : IndexKey → Int) {hdr : PGShmemHeader} {hashp : HashTable} {w : World IndexKey}
    (hvalid : hdr.Valid) (hfree : hdr.freeOffset = 2192)
    (hinit : shmemInitHash (segment hdr.totalSize) bootWorld 16 SHMEM_INDEX_SIZE SHMEM_INDEX_SIZE
      { keysize := SHMEM_INDEX_KEY_SIZE, datasize := SHMEM_INDEX_DATA_SIZE } { elem := true } =
        .ok (some (hashp, w))) :
    Bootstrapped hash
      { hdr := { hdr with freeOffset := endOf w.heap.regions }, hashp := hashp, world := w,
        location := fun _ => 0, size := fun _ => 0, locked := true } := by
  obtain ⟨hin, hrep, -⟩ := shmemInitHash_spec hash (by decide) List.mem_cons_self hinit
  obtain ⟨hheap, hctl⟩ := shmemInitHash_index hinit
  have hcoh : Coherent hdr bootWorld.heap := ⟨hvalid, hfree⟩
  have hfits : Fits hdr 2048 := .inl (by rw [hfree]; decide)
  obtain ⟨-, hcoh', htotal⟩ := hcoh.alloc hfits
  have hsize : (2048 : UInt64).toNat = 2048 := rfl
  rw [hsize, ← hheap] at hcoh'
  have hhdr : { hdr with freeOffset := endOf w.heap.regions } = (shmemAlloc hdr 2048).2 := by
    rw [← hcoh'.end_eq]
    show PGShmemHeader.mk hdr.totalSize _ = _
    rw [← htotal]
  refine ⟨⟨hin, hrep, fun name _ => ?_, ?_, fun key e he => ?_, rfl⟩, hctl, ?_, rfl⟩
  · rw [Finmap.lookup_empty]
    rfl
  · show Coherent { hdr with freeOffset := endOf w.heap.regions } w.heap
    rw [hhdr]
    exact hcoh'
  · rw [Finmap.lookup_empty] at he
    cases he
  · show endOf w.heap.regions ≤ 4240
    rw [← hcoh'.end_eq]
    rcases halloc : shmemAlloc hdr 2048 with ⟨r, hdr'⟩
    rcases shmemAlloc_cases hvalid hfits halloc with ⟨-, rfl, -⟩ | ⟨-, rfl, -⟩
    · rw [hfree]
      decide
    · dsimp only
      rw [hfree]
      decide

theorem Bootstrapped.elementsSize (h : Bootstrapped hash s) : elementsSize s = 2400 := by
  unfold Shmem.elementsSize
  rw [h.hctl]
  decide

/-- The request for the first elements is small, and the table does not grow yet. -/
theorem Bootstrapped.indexFits (h : Bootstrapped hash s) :
    IndexFits s ∧ ¬ GrowsSegment s.world.hctl := by
  have hfree := h.free_le
  have hgrows : ¬ GrowsSegment s.world.hctl := by
    rw [h.hctl]
    decide
  refine ⟨⟨fun _ => .inl ?_, fun _ hg => absurd hg hgrows⟩, hgrows⟩
  have hsize : alignUp 16 (2400 : UInt64).toNat = 2400 := by decide
  rw [h.elementsSize, hsize]
  omega

/-- The index is entered under its own name. -/
theorem Bootstrapped.self {e : Nat} {found : Bool} (h : Bootstrapped hash s)
    (hrun : s.search hash (strncpy shmemIndexName) .HASH_ENTER = .ok (.element e, found, s')) :
    s'.locked = true ∧ s'.hdr.freeOffset ≤ 6640 ∧ (16 < s.hdr.totalSize → ∃ m, Known hash { s' with
        location := Function.update s'.location e 16
        size := Function.update s'.size e (UInt64.ofNat SHMEM_INDEX_SIZE)
        locked := false } m initialCatalog) := by
  obtain ⟨hf, hgrows⟩ := h.indexFits
  have hm : s.hashp.memAlloc = false := h.known.inShmem.memAlloc
  have hcoh₀ : Coherent s.hdr s.world.heap := h.known.coherent
  obtain ⟨result, found', w', m', hrun', hkept, hrep, hans, hheap⟩ :=
    search_spec hash s h.known.inShmem h.known.represents hcoh₀ (strncpy shmemIndexName)
      .HASH_ENTER
  rw [hrun'] at hrun
  obtain ⟨rfl, hrest⟩ := Prod.mk.inj (Except.ok.inj hrun)
  obtain ⟨-, rfl⟩ := Prod.mk.inj hrest
  generalize href : decide (Refuses (segment s.hdr.totalSize) s.hashp s.world) = refused at hans
  cases hans with
  | hit hlook =>
    rw [Finmap.lookup_empty] at hlook
    cases hlook
  | enter hnot hfresh hne =>
    have henters : Enters s := by
      by_contra hno
      exact of_decide_eq_false href ((refuses_iff hcoh₀ hm hf).mpr hno)
    obtain ⟨hcoh, htotal⟩ := coherent_index hcoh₀ hm hf henters
    have hsame : w'.heap = enterHeap (segment s.hdr.totalSize) s.hashp s.world := hheap
    rw [← hsame] at hcoh
    have hhdr : { s.hdr with freeOffset := endOf w'.heap.regions } = hdrAfterIndex s := by
      rw [← hcoh.end_eq]
      show PGShmemHeader.mk s.hdr.totalSize _ = _
      rw [← htotal]
    refine ⟨h.locked, ?_, fun hsmall => ⟨(∅ : Dict IndexKey).insert (strncpy shmemIndexName) e, ?_⟩⟩
    · show endOf w'.heap.regions ≤ 6640
      rw [← hcoh.end_eq, hdrAfterIndex, if_neg hgrows, hdrAfterElements]
      have hfree := h.free_le
      split
      · rename_i hneeds
        rcases halloc : shmemAlloc s.hdr (Shmem.elementsSize s) with ⟨r, hdr'⟩
        have hsize : alignUp 16 (2400 : UInt64).toNat = 2400 := by decide
        have hfit := hf.elements hneeds
        rw [h.elementsSize] at halloc hfit
        rcases shmemAlloc_cases hcoh₀.valid hfit halloc with ⟨-, rfl, -⟩ | ⟨-, rfl, -⟩
        · exact Nat.le_trans hfree (by decide)
        · rw [hsize]
          exact Nat.add_le_add_right hfree 2400
      · exact Nat.le_trans hfree (by decide)
    · have hcoh' : Coherent { s.hdr with freeOffset := endOf w'.heap.regions } w'.heap := by
        rw [hhdr]
        exact hcoh
      exact h.known.addEntry (by decide) w' hfresh hkept hrep hcoh' rfl hsmall _

/-- A request of the segment's own. -/
theorem Known.alloc {m : Dict IndexKey} {size : UInt64} {r : Option Nat} (h : Known hash s m M)
    (hf : Fits s.hdr size) (hrun : s.alloc size = (r, s')) : Known hash s' m M := by
  unfold ShmemIndex.alloc at hrun
  rcases halloc : shmemAlloc s.hdr size with ⟨r', hdr'⟩
  rw [halloc] at hrun
  obtain ⟨rfl, rfl⟩ := Prod.mk.inj hrun
  have hregions : ∀ x ∈ s.world.heap.regions, x ∈ granted size r' ++ s.world.heap.regions :=
    fun x hx => List.mem_append_right _ hx
  have htotal := (h.coherent.alloc hf).2.2
  rw [halloc] at htotal
  have hvalid := h.coherent.valid.alloc hf halloc
  refine ⟨h.inShmem.kept ⟨rfl, rfl, rfl, hregions⟩, h.represents.enlarge hregions, h.entry,
    ⟨hvalid, ?_⟩, fun k e he => ?_, h.unlocked⟩
  · show hdr'.freeOffset = endOf (granted size r' ++ s.world.heap.regions)
    rcases shmemAlloc_cases h.coherent.valid hf halloc with ⟨rfl, rfl, -⟩ | ⟨rfl, rfl, -⟩
    · exact h.coherent.end_eq
    · dsimp only
      rw [h.coherent.end_eq]
      exact (endOf_cons _ _).symm
  · show s.location e < hdr'.totalSize
    rw [show hdr'.totalSize = s.hdr.totalSize from htotal]
    exact h.inside k e he

/-- `init_shmem_allocation` leaves an index that is this catalog. -/
theorem initShmemAllocation_known {total : UInt32} {hdr : PGShmemHeader}
    (hcreate : ipcMemoryCreate total = some hdr)
    (hinit : initShmemAllocation hash hdr = .ok (some s)) :
    ∃ m, Known hash s m initialCatalog := by
  have hvalid := valid_create hcreate
  have hfree : hdr.freeOffset = 16 := by
    unfold ipcMemoryCreate at hcreate
    split at hcreate
    · exact congrArg PGShmemHeader.freeOffset (Option.some.inj hcreate).symm
    · cases hcreate
  have hsize : UInt64.ofNat (SIZEOF_HASH_HEADER +
      hashSelectDirsize SHMEM_INDEX_SIZE * SIZEOF_SEG_OFFSET) = 2168 := by decide
  have hfits : Fits hdr 2168 := .inl (by rw [hfree]; decide)
  unfold initShmemAllocation at hinit
  dsimp only at hinit
  rw [hsize] at hinit
  rcases halloc : shmemAlloc hdr 2168 with ⟨r, hdr₁⟩
  have hvalid₁ := hvalid.alloc hfits halloc
  rcases shmemAlloc_cases hvalid hfits halloc with ⟨rfl, -, -⟩ | ⟨rfl, hhdr₁, hle₁⟩
  · rw [halloc] at hinit
    cases hinit
  rw [halloc, hfree] at hinit
  have hfree₁ : hdr₁.freeOffset = 2192 := by
    rw [hhdr₁, hfree]
    rfl
  have hsmall : 16 < hdr₁.totalSize := Nat.lt_of_lt_of_le (by decide) (hfree₁ ▸ hvalid₁.bounded)
  dsimp only at hinit
  rcases htable : shmemInitHash (segment hdr₁.totalSize) bootWorld 16 SHMEM_INDEX_SIZE SHMEM_INDEX_SIZE
      { keysize := SHMEM_INDEX_KEY_SIZE, datasize := SHMEM_INDEX_DATA_SIZE }
      { elem := true } with e | _ | ⟨hashp, w⟩
  · change ((shmemInitHash _ bootWorld 16 _ _ _ _).mapError IndexFault.dynahash >>= _) = _ at hinit
    rw [htable] at hinit
    cases hinit
  · change ((shmemInitHash _ bootWorld 16 _ _ _ _).mapError IndexFault.dynahash >>= _) = _ at hinit
    rw [htable] at hinit
    cases hinit
  change ((shmemInitHash _ bootWorld 16 _ _ _ _).mapError IndexFault.dynahash >>= _) = _ at hinit
  rw [htable] at hinit
  have hboot := bootstrapped hash hvalid₁ hfree₁ htable
  have hsmall₀ : 16 < (ShmemIndex.mk ⟨hdr₁.totalSize, endOf w.heap.regions⟩ hashp w (fun _ => 0)
    (fun _ => 0) true).hdr.totalSize := hsmall
  simp only [Except.mapError, bind, Except.bind] at hinit
  generalize ShmemIndex.mk ⟨hdr₁.totalSize, endOf w.heap.regions⟩ hashp w (fun _ => 0) (fun _ => 0)
    true = s₀ at hboot hinit hsmall₀
  rcases hsearch : s₀.search hash (strncpy shmemIndexName) .HASH_ENTER with e | ⟨result, found, s₁⟩
  · rw [hsearch] at hinit
    cases hinit
  rw [hsearch] at hinit
  cases result with
  | null => cases hinit
  | yes => cases hinit
  | element e =>
    obtain ⟨hlocked, hfree₂, hself⟩ := hboot.self hsearch
    obtain ⟨m, hknown⟩ := hself hsmall₀
    dsimp only at hinit
    split at hinit
    · cases hinit
    · unfold ShmemIndex.spinRelease at hinit
      rw [if_pos hlocked] at hinit
      dsimp only at hinit
      rcases hcache : ShmemIndex.alloc { s₁ with
          location := Function.update s₁.location e 16
          size := Function.update s₁.size e (UInt64.ofNat SHMEM_INDEX_SIZE)
          locked := false } (UInt64.ofNat SIZEOF_VARIABLE_CACHE) with ⟨_ | p, s₂⟩
      · rw [hcache] at hinit
        cases hinit
      · rw [hcache] at hinit
        obtain rfl := Option.some.inj (Except.ok.inj hinit)
        refine ⟨m, hknown.alloc (.inl ?_) hcache⟩
        have hcut : alignUp 16 (UInt64.ofNat SIZEOF_VARIABLE_CACHE).toNat = 16 := by decide
        rw [hcut]
        show s₁.hdr.freeOffset + 16 < 2 ^ 32
        omega

/-! ## Runs -/

/-- What a catalog does: a name is created once, and then it stays. -/
inductive Catalog.Step : Catalog → Call → Catalog → Prop where
  | create {M : Catalog} {name : List UInt8} {size : UInt64} {p : Nat} : M name = none →
      Step M ⟨name, size, some p, false⟩ (Function.update M name (some (p, size)))
  | attach {M : Catalog} {name : List UInt8} {size : UInt64} {p : Nat} :
      M name = some (p, size) → Step M ⟨name, size, some p, true⟩ M
  | mismatch {M : Catalog} {name : List UInt8} {size size' : UInt64} {p : Nat} :
      M name = some (p, size') → size' ≠ size → Step M ⟨name, size, none, true⟩ M
  | noMemory {M : Catalog} {name : List UInt8} {size : UInt64} : M name = none →
      Step M ⟨name, size, none, false⟩ M

theorem Call.Right.step {c : Call} (h : c.Right s s' M) : Catalog.Step M c (c.apply M) := by
  cases h with
  | create hM => exact .create hM
  | attach hM => exact .attach hM
  | mismatch hM hne => exact .mismatch hM hne
  | noMemory hM => exact .noMemory hM

/-- A harmless call that returns. -/
inductive IndexStep (hash : IndexKey → Int) : ShmemIndex → Call → ShmemIndex → Prop where
  | call {s s' : ShmemIndex} {name : List UInt8} {size : UInt64} {result : Option Nat}
      {found : Bool} : ValidName name → Harmless hash s name size →
      shmemInitStruct hash name size s = .ok (result, found, s') →
      IndexStep hash s ⟨name, size, result, found⟩ s'

/-- In every run of calls none of whose requests is cut to a small one, the calls answer as
a catalog does and the index is that catalog, with the lock free; and the next call
answers right, on space no one has, exactly when its request is not cut either. -/
theorem shmem_index_run {total : UInt32} {hdr : PGShmemHeader} {s₀ : ShmemIndex}
    (hcreate : ipcMemoryCreate total = some hdr)
    (hinit : initShmemAllocation hash hdr = .ok (some s₀)) {l : List Call}
    (hrun : Run (IndexStep hash) s₀ l s) :
    ∃ M, Run Catalog.Step initialCatalog l M ∧ Maps hash s M ∧ s.locked = false ∧
      ∀ name size, ValidName name → (Absent hash s name → IndexFits s) →
        (Good hash s M name size ↔ Harmless hash s name size) := by
  have hsim : ∃ M, Run Catalog.Step initialCatalog l M ∧ ∃ m, Known hash s m M := by
    refine hrun.simulation (fun s M => ∃ m, Known hash s m M) Catalog.Step ?_
      (initShmemAllocation_known hcreate hinit)
    rintro s M c s' ⟨m, hknown⟩ hs
    cases hs with
    | call hname hharm hcall =>
      obtain ⟨hright, -, hnext⟩ := (hknown.call hname hharm).of_ok hcall
      exact ⟨_, hright.step, hnext⟩
  obtain ⟨M, hM, m, hknown⟩ := hsim
  refine ⟨M, hM, hknown.maps, hknown.unlocked, fun name size hname hindex => ?_⟩
  exact ⟨hknown.harmless_of_good hname hindex, hknown.good hname⟩

/-- The index of a segment of 8 kB, and a structure of 100 bytes in it. -/
theorem smallSegment : ∃ hdr s₀ s, ipcMemoryCreate 8192 = some hdr ∧
    initShmemAllocation (fun _ => 0) hdr = .ok (some s₀) ∧ s₀.hdr = ⟨8192, 6656⟩ ∧
    ¬ NeedsElements s₀ ∧ ¬ GrowsSegment s₀.world.hctl ∧
    shmemInitStruct (fun _ => 0) [1] 100 s₀ = .ok (some 6656, false, s) := by
  have hrun : (ipcMemoryCreate 8192).any (fun hdr => okAnd (initShmemAllocation (fun _ => 0) hdr) fun r =>
      r.any fun s₀ => okAnd (shmemInitStruct (fun _ => 0) [1] 100 s₀) fun t =>
        decide (s₀.hdr = ⟨8192, 6656⟩ ∧ ¬ NeedsElements s₀ ∧ ¬ GrowsSegment s₀.world.hctl ∧
          t.1 = some 6656 ∧ t.2.1 = false)) = true := by decide +kernel
  obtain ⟨hdr, hcreate, hinits⟩ := (Option.any_eq_true _ _).mp hrun
  obtain ⟨r, hinit, hsome⟩ := okAnd_iff.mp hinits
  obtain ⟨s₀, rfl, hcalls⟩ := (Option.any_eq_true _ _).mp hsome
  obtain ⟨⟨_, _, s⟩, hstruct, htest⟩ := okAnd_iff.mp hcalls
  obtain ⟨hhdr, hneeds, hgrows, rfl, rfl⟩ := of_decide_eq_true htest
  exact ⟨hdr, s₀, s, hcreate, hinit, hhdr, hneeds, hgrows, hstruct⟩

/-- Without a request of the index, only the structure's own request counts. -/
theorem indexFits_of_free (hneeds : ¬ NeedsElements s)
    (hgrows : ¬ GrowsSegment s.world.hctl) :
    IndexFits s ∧ hdrAfterIndex s = s.hdr ∧ Enters s := by
  refine ⟨⟨fun h => absurd h hneeds, fun _ h => absurd h hgrows⟩, ?_, fun h => absurd h hneeds⟩
  rw [hdrAfterIndex, if_neg hgrows, hdrAfterElements, if_neg hneeds]

/-- A structure of 100 bytes is created, and the next structure of 100 bytes as well. -/
theorem shmem_index_run_example : ∃ hdr s₀ s, ipcMemoryCreate 8192 = some hdr ∧
    initShmemAllocation (fun _ => 0) hdr = .ok (some s₀) ∧
    Run (IndexStep fun _ => 0) s₀ [⟨[1], 100, some 6656, false⟩] s ∧
    ∃ M, Run Catalog.Step initialCatalog [⟨[1], 100, some 6656, false⟩] M ∧
      Maps (fun _ => 0) s M := by
  obtain ⟨hdr, s₀, s, hcreate, hinit, hhdr, hneeds, hgrows, hcall⟩ := smallSegment
  obtain ⟨hf, hafter, -⟩ := indexFits_of_free hneeds hgrows
  have hharm : Harmless (fun _ => 0) s₀ [1] 100 := fun _ => ⟨hf, fun _ => .inl (by
    rw [hafter, hhdr]
    decide)⟩
  have hrun : Run (IndexStep fun _ => 0) s₀ [⟨[1], 100, some 6656, false⟩] s :=
    .cons (.call (by decide) hharm hcall) (.nil s)
  obtain ⟨M, hM, hmaps, -⟩ := shmem_index_run hcreate hinit hrun
  exact ⟨hdr, s₀, s, hcreate, hinit, hrun, M, hM, hmaps⟩

/-- A structure of 4 GB is created in a segment of 8 kB, and the next one where it is. -/
theorem smallSegment_wraps : ∃ hdr s₀ s₁ s₂, ipcMemoryCreate 8192 = some hdr ∧
    initShmemAllocation (fun _ => 0) hdr = .ok (some s₀) ∧
    shmemInitStruct (fun _ => 0) [1] 0x100000000 s₀ = .ok (some 6656, false, s₁) ∧
    shmemInitStruct (fun _ => 0) [2] 16 s₁ = .ok (some 6656, false, s₂) := by
  have hrun : (ipcMemoryCreate 8192).any (fun hdr => okAnd (initShmemAllocation (fun _ => 0) hdr) fun r =>
      r.any fun s₀ => okAnd (shmemInitStruct (fun _ => 0) [1] 0x100000000 s₀) fun t =>
        okAnd (shmemInitStruct (fun _ => 0) [2] 16 t.2.2) fun t' =>
          decide (t.1 = some 6656 ∧ t.2.1 = false ∧ t'.1 = some 6656 ∧ t'.2.1 = false)) = true := by
    decide +kernel
  obtain ⟨hdr, hcreate, hinits⟩ := (Option.any_eq_true _ _).mp hrun
  obtain ⟨r, hinit, hsome⟩ := okAnd_iff.mp hinits
  obtain ⟨s₀, rfl, hfirst⟩ := (Option.any_eq_true _ _).mp hsome
  obtain ⟨⟨_, _, s₁⟩, hcall₁, hsecond⟩ := okAnd_iff.mp hfirst
  obtain ⟨⟨_, _, s₂⟩, hcall₂, htest⟩ := okAnd_iff.mp hsecond
  obtain ⟨rfl, rfl, rfl, rfl⟩ := of_decide_eq_true htest
  exact ⟨hdr, s₀, s₁, s₂, hcreate, hinit, hcall₁, hcall₂⟩

/-- The first of these calls is not a right one. -/
theorem shmemInitStruct_wraps : ∃ hdr s₀ s₁ s₂, ipcMemoryCreate 8192 = some hdr ∧
    initShmemAllocation (fun _ => 0) hdr = .ok (some s₀) ∧
    shmemInitStruct (fun _ => 0) [1] 0x100000000 s₀ = .ok (some 6656, false, s₁) ∧
    shmemInitStruct (fun _ => 0) [2] 16 s₁ = .ok (some 6656, false, s₂) ∧
    ¬ Good (fun _ => 0) s₀ initialCatalog [1] 0x100000000 := by
  obtain ⟨hdr, s₀, s₁, s₂, hcreate, hinit, hcall₁, hcall₂⟩ := smallSegment_wraps
  refine ⟨hdr, s₀, s₁, s₂, hcreate, hinit, hcall₁, hcall₂, fun hgood => ?_⟩
  obtain ⟨hright, -⟩ := hgood.of_ok hcall₁
  have hend : s₀.hdr.totalSize = 8192 := by
    obtain ⟨hdr', s₀', -, hcreate', hinit', hhdr, -⟩ := smallSegment
    obtain rfl := Option.some.inj (hcreate'.symm.trans hcreate)
    obtain rfl := Option.some.inj (Except.ok.inj (hinit'.symm.trans hinit))
    rw [hhdr]
  cases hright with
  | create _ _ hfree hle _ _ =>
    rw [hend] at hle
    exact absurd (Nat.le_trans hfree hle) (by decide)

end PostgresV7.Shmem
