import PostgresV7.Dynahash.Frame

/-!
# Hash tables in shared memory (`shmem_init_hash`)

The directory is fixed, since the other processes could not find a new one, and the
memory comes from `shmem_alloc`. So no request of such a table is cut short.
-/

namespace PostgresV7.Shmem

open Dynahash Regions Outcomes

variable {Key : Type} [DecidableEq Key] {hash : Key → Int} {A : Allocator} {hashp : HashTable}
  {w w' : World Key}

/-- `shmem_init_hash` in the process that creates the table; `location` is what
`shmem_init_struct` returned. -/
def shmemInitHash (A : Allocator) (w : World Key) (location : Nat) (initSize maxSize : Int)
    (infop : HashCtrl) (flags : HashFlags) : Except Fault (Option (HashTable × World Key)) :=
  let dsize := hashSelectDirsize maxSize
  let infop := { infop with
    dsize := dsize
    maxDsize := dsize
    dir := location + SIZEOF_HASH_HEADER }
  hashCreate A w initSize infop { flags with sharedMem := true, dirsize := true }

/-- The directory behind the header. -/
def directoryRegion (location : Nat) (maxSize : Int) : Region :=
  ⟨location + SIZEOF_HASH_HEADER, hashSelectDirsize maxSize * SIZEOF_SEG_OFFSET⟩

/-- A table whose directory is fixed and whose elements fit a request. -/
structure InShmem (hashp : HashTable) (w : World Key) : Prop where
  memAlloc : hashp.memAlloc = false
  maxDsize : w.hctl.maxDsize ≠ NO_MAX_DSIZE
  elements : ElementsFit hashp w.hctl

omit [DecidableEq Key] in
theorem InShmem.safe (h : InShmem hashp w) (key : Key) (action : HashAction) :
    Safe hash hashp w key action :=
  fun _ _ => ⟨fun _ => h.elements, fun _ _ hmax => absurd hmax h.maxDsize⟩

omit [DecidableEq Key] in
theorem InShmem.kept (h : InShmem hashp w) (hk : Kept w w') : InShmem hashp w' := by
  refine ⟨h.memAlloc, hk.maxDsize ▸ h.maxDsize, ?_⟩
  have hsize : w'.hctl.bucketSize = w.hctl.bucketSize := by
    unfold HashHeader.bucketSize
    rw [hk.keysize, hk.datasize]
  have hfit := h.elements
  unfold ElementsFit at hfit ⊢
  rw [hk.keysize, hk.datasize, hsize]
  exact hfit

/-- Every call on such a table returns what the map answers. -/
theorem InShmem.search {m : Dict Key} (h : InShmem hashp w) (hrep : Represents hash hashp w m)
    (key : Key) (action : HashAction) : ∃ result found w' m',
      hashSearch hash A hashp w key action = .ok (result, found, hashp, w') ∧
      Kept w w' ∧ Represents hash hashp w' m' ∧
      m.Answers ⟨key, action, decide (Refuses A hashp w), result, found⟩ m' := by
  have hspec := hashSearch_spec (A := A) hrep key action
  have hkeeps : Keeps w (hashSearch hash A hashp w key action) fun r => r.2.2.2 :=
    hashSearch_keeps h.memAlloc key action
  cases hq : hashSearch hash A hashp w key action with
  | error f =>
    rcases hspec.of_error hq with ⟨-, hmem⟩ | hn
    · rw [h.memAlloc] at hmem
      cases hmem
    · exact absurd (h.safe key action) hn
  | ok r =>
    obtain ⟨result, found, hashp', w'⟩ := r
    obtain ⟨hsame, m', hrep', hans⟩ := hspec.of_ok hq
    obtain rfl : hashp' = hashp := hsame.2 h.memAlloc
    exact ⟨result, found, w', m', rfl, hkeeps.of_ok hq, hrep', hans⟩

/-- A new table is empty. -/
theorem shmemInitHash_spec (hash : Key → Int) {location : Nat} {initSize maxSize : Int} {keysize datasize : Nat}
    (hsize : keysize + datasize < 2 ^ 32)
    (hdir : directoryRegion location maxSize ∈ w.heap.regions)
    (hinit : shmemInitHash A w location initSize maxSize { keysize := keysize, datasize := datasize }
      { elem := true } = .ok (some (hashp, w'))) :
    InShmem hashp w' ∧ Represents hash hashp w' ∅ ∧ (∀ r ∈ w.heap.regions, r ∈ w'.heap.regions) ∧
      w'.hctl.keysize = keysize ∧ w'.hctl.datasize = datasize := by
  unfold shmemInitHash at hinit
  have hne : location + SIZEOF_HASH_HEADER ≠ 0 := by
    unfold SIZEOF_HASH_HEADER
    omega
  obtain ⟨ht, hnkeys, hshared⟩ := hashCreate_table hash ⟨(fun h => absurd h Bool.false_ne_true), fun _ _ => hdir⟩ hinit
  have hkeep := hashCreate_keeps hinit
  have hhandle := hshared rfl hne
  have hkeysize : w'.hctl.keysize = keysize := hkeep.keysize
  have hdatasize : w'.hctl.datasize = datasize := hkeep.datasize
  have hmax : w'.hctl.maxDsize = hashSelectDirsize maxSize := hkeep.maxDsize
  refine ⟨⟨by rw [hhandle]; rfl, ?_, ?_, ?_⟩, ⟨_, _, ht, fun k e => ?_, ?_⟩, hkeep.regions,
    hkeysize, hdatasize⟩
  · rw [hmax]
    unfold NO_MAX_DSIZE
    omega
  · rw [hkeysize, hdatasize]
    unfold SIZEOF_BUCKET_INDEX
    omega
  · unfold Dynahash.Fits HashHeader.bucketSize
    rw [hkeysize, hdatasize, hhandle]
    have hlt := maxAlign_lt (n := SIZEOF_BUCKET_INDEX + keysize + datasize) (by
      unfold SIZEOF_BUCKET_INDEX
      omega)
    unfold hashAttach
    rw [if_neg Bool.false_ne_true]
    unfold SIZEOF_BUCKET_INDEX BUCKET_ALLOC_INCR at *
    omega
  · rw [Finmap.lookup_empty]
    refine iff_of_false (fun hf => nomatch hf) ?_
    rintro ⟨⟨b, -, he⟩, -⟩
    exact List.not_mem_nil he
  · rw [hnkeys, Finmap.keys_empty, Finset.card_empty]

end PostgresV7.Shmem
