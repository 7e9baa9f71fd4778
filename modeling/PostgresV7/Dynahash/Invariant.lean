import PostgresV7.Dynahash.Masks
import PostgresV7.Lib.Outcomes

/-!
# The shape of a table

The directory and every segment are regions of their own, elements lie in other
regions still in use. Each bucket starts a chain through the elements whose keys
hash to it, and the free list goes through elements in no chain.
-/

namespace PostgresV7.Dynahash

open Regions Chains Outcomes

/-! ## Requests -/

/-- Requests the allocator of the handle gets in full. -/
def Fits (hashp : HashTable) (size : Nat) : Prop :=
  size < if hashp.memAlloc then 2 ^ 32 else 2 ^ 64

instance (hashp : HashTable) (size : Nat) : Decidable (Fits hashp size) :=
  inferInstanceAs (Decidable (_ < _))

/-- How a call may fail: `elog` for the allocator that has it, anything when a
request does not fit. -/
def Allowed (hashp : HashTable) (fits : Prop) (e : Fault) : Prop :=
  (e = .elog ∧ hashp.memAlloc = true) ∨ ¬ fits

/-- A new region was handed out. -/
structure Granted (heap heap' : Heap) (p room : Nat) : Prop where
  regions : heap'.regions = ⟨p, room⟩ :: heap.regions
  pos : 0 < p
  fresh : ∀ r ∈ heap.regions, Region.Apart ⟨p, room⟩ r

/-- What a request may come to. -/
def Answered (A : Allocator) (hashp : HashTable) (size : Nat) (heap heap' : Heap) :
    Option (Nat × Nat) → Prop
  | none => hashp.memAlloc = false ∧ A.answer heap.calls heap.regions size = none ∧
      heap'.regions = heap.regions
  | some (p, room) => Granted heap heap' p room ∧ room ≤ size ∧ (Fits hashp size → room = size) ∧
      (hashp.memAlloc = true ∨ A.answer heap.calls heap.regions size ≠ none) ∧ Fits hashp room

variable {Key : Type} {hash : Key → Int} {A : Allocator}
  {hashp hashp' : HashTable} {w w' : World Key}

theorem alloc_granted {heap heap' : Heap} {size p : Nat} (h : heap.alloc A size = (some p, heap')) :
    Granted heap heap' p size ∧ A.answer heap.calls heap.regions size ≠ none ∧ size < 2 ^ 64 := by
  obtain ⟨h1, h2, -, h3, h4⟩ := Heap.alloc_some h
  refine ⟨⟨h1, h2, h4⟩, fun hnone => ?_, by omega⟩
  unfold Heap.alloc at h
  rw [hnone] at h
  cases h

theorem alloc_refused {heap heap' : Heap} {size : Nat} (h : heap.alloc A size = (none, heap')) :
    A.answer heap.calls heap.regions size = none ∧ heap'.regions = heap.regions := by
  refine ⟨?_, Heap.alloc_none h⟩
  unfold Heap.alloc at h
  cases hq : A.answer heap.calls heap.regions size with
  | none => rfl
  | some q => rw [hq] at h; cases h

theorem hashAlloc_spec (A : Allocator) (hashp : HashTable) (heap : Heap) (size : Nat) :
    Ends (Allowed hashp True) (hashAlloc A hashp heap size)
      fun r => Answered A hashp size heap r.2 r.1 := by
  unfold hashAlloc
  cases hm : hashp.memAlloc with
  | true =>
    rw [if_pos rfl]
    dsimp only
    split
    · rcases ha : heap.alloc A (size % 2 ^ 32) with ⟨_ | p, heap'⟩
      · exact Or.inl ⟨rfl, hm⟩
      · obtain ⟨hg, -, -⟩ := alloc_granted ha
        refine ⟨hg, Nat.mod_le _ _, fun hf => ?_, Or.inl hm, ?_⟩
        · unfold Fits at hf
          rw [hm, if_pos rfl] at hf
          exact Nat.mod_eq_of_lt hf
        · unfold Fits
          rw [hm, if_pos rfl]
          exact Nat.mod_lt _ (by decide)
    · exact Or.inl ⟨rfl, hm⟩
  | false =>
    rw [if_neg Bool.false_ne_true]
    rcases ha : heap.alloc A size with ⟨_ | p, heap'⟩
    · exact ⟨hm, alloc_refused ha⟩
    · obtain ⟨hg, hans, hlt⟩ := alloc_granted ha
      refine ⟨hg, Nat.le_refl _, fun _ => rfl, Or.inr hans, ?_⟩
      unfold Fits
      rw [hm, if_neg Bool.false_ne_true]
      exact hlt

/-- A region apart from one that has bytes is another one. -/
theorem Granted.ne {heap heap' : Heap} {p room : Nat} (h : Granted heap heap' p room)
    (hroom : 0 < room) {r : Region} (hr : r ∈ heap.regions) : r ≠ ⟨p, room⟩ := by
  rintro rfl
  rcases h.fresh _ hr with hle | hle <;> dsimp only at hle <;> omega

/-! ## Segments -/

def dirRegion (hashp : HashTable) (w : World Key) : Region :=
  ⟨hashp.dir, w.hctl.dsize * SIZEOF_SEG_OFFSET⟩

def segRegion (hashp : HashTable) (w : World Key) (i : Nat) : Region :=
  ⟨w.dirs hashp.dir i, SIZEOF_BUCKET_INDEX * w.hctl.ssize⟩

/-- Allocated, and not the directory, which may be given back. -/
def InUse (hashp : HashTable) (w : World Key) (r : Region) : Prop :=
  r ∈ w.heap.regions ∧ r ≠ dirRegion hashp w

/-- The segments are regions of their own. -/
structure Segments (hashp : HashTable) (w : World Key) : Prop where
  ssize : w.hctl.ssize = 2 ^ w.hctl.sshift
  nsegs_le : w.hctl.nsegs ≤ w.hctl.dsize
  dir_mem : dirRegion hashp w ∈ w.heap.regions
  seg_mem : ∀ i < w.hctl.nsegs, InUse hashp w (segRegion hashp w i)
  seg_inj : ∀ i < w.hctl.nsegs, ∀ j < w.hctl.nsegs,
    w.dirs hashp.dir i = w.dirs hashp.dir j → i = j

theorem Segments.ssize_pos (h : Segments hashp w) : 0 < SIZEOF_BUCKET_INDEX * w.hctl.ssize := by
  rw [h.ssize]
  exact Nat.mul_pos (by decide) (Nat.two_pow_pos _)

/-- The cells of a segment before and after it is cleared. -/
def clearSegment (segp : Nat) (cells : Cell → Nat) (c : Cell) : Nat :=
  match c with
  | .bucket seg ndx => if seg = segp then 0 else cells (.bucket seg ndx)
  | .next elem => cells (.next elem)

theorem segAlloc_spec (A : Allocator) (hashp : HashTable) (w : World Key) :
    Ends (Allowed hashp (Fits hashp (SIZEOF_BUCKET_INDEX * w.hctl.ssize))) (segAlloc A hashp w)
      fun r =>
        (r.1 = 0 ∧ ∃ heap, heap.regions = w.heap.regions ∧ r.2 = { w with heap := heap }) ∨
        ∃ heap, Granted w.heap heap r.1 (SIZEOF_BUCKET_INDEX * w.hctl.ssize) ∧
          Fits hashp (SIZEOF_BUCKET_INDEX * w.hctl.ssize) ∧
          r.2 = { w with cells := clearSegment r.1 w.cells, heap := heap } := by
  unfold segAlloc
  have hspec := hashAlloc_spec A hashp w.heap (SIZEOF_BUCKET_INDEX * w.hctl.ssize % 2 ^ 64)
  dsimp only
  refine (hspec.mono (fun e he => ?_) (fun a ha => ha)).bind ?_
  · exact Or.inl (he.resolve_right (fun h => h trivial))
  · rintro ⟨_ | ⟨segp, room⟩, heap⟩ ha
    · exact Or.inl ⟨rfl, heap, ha.2.2, rfl⟩
    · obtain ⟨hg, hle, hfull, -, hfits⟩ := ha
      dsimp only
      split
      · rename_i hlt
        refine Or.inr fun hf => ?_
        have hmod : SIZEOF_BUCKET_INDEX * w.hctl.ssize % 2 ^ 64 = SIZEOF_BUCKET_INDEX * w.hctl.ssize := by
          unfold Fits at hf
          split at hf <;> exact Nat.mod_eq_of_lt (by omega)
        rw [hmod] at hfull
        exact absurd (hfull hf) (by omega)
      · rename_i hge
        have hroom : room = SIZEOF_BUCKET_INDEX * w.hctl.ssize := by
          have hmod := Nat.mod_le (SIZEOF_BUCKET_INDEX * w.hctl.ssize) (2 ^ 64)
          omega
        subst hroom
        exact Or.inr ⟨heap, hg, hfits, rfl⟩

/-- The segments are not touched by what goes on in the rest of the memory. -/
theorem Segments.move (h : Segments hashp w) (hhctl : w'.hctl.ssize = w.hctl.ssize ∧
      w'.hctl.sshift = w.hctl.sshift ∧ w'.hctl.nsegs = w.hctl.nsegs ∧ w'.hctl.dsize = w.hctl.dsize)
    (hdirs : ∀ i < w.hctl.nsegs, w'.dirs hashp.dir i = w.dirs hashp.dir i)
    (hheap : ∀ r ∈ w.heap.regions, r ∈ w'.heap.regions) : Segments hashp w' := by
  obtain ⟨h1, h2, h3, h4⟩ := hhctl
  have hdir : dirRegion hashp w' = dirRegion hashp w := by
    unfold dirRegion
    rw [h4]
  constructor
  · rw [h1, h2, h.ssize]
  · rw [h3, h4]
    exact h.nsegs_le
  · rw [hdir]
    exact hheap _ h.dir_mem
  · intro i hi
    rw [h3] at hi
    have hseg : segRegion hashp w' i = segRegion hashp w i := by
      unfold segRegion
      rw [hdirs i hi, h1]
    unfold InUse
    rw [hseg, hdir]
    exact ⟨hheap _ (h.seg_mem i hi).1, (h.seg_mem i hi).2⟩
  · intro i hi j hj heq
    rw [h3] at hi hj
    rw [hdirs i hi, hdirs j hj] at heq
    exact h.seg_inj i hi j hj heq

/-- One segment more. -/
theorem Segments.add (h : Segments hashp w) (w' : World Key) (hlt : w.hctl.nsegs < w.hctl.dsize)
    {heap : Heap} {segp : Nat} (hg : Granted w.heap heap segp (SIZEOF_BUCKET_INDEX * w.hctl.ssize))
    (hw : w'.hctl = { w.hctl with nsegs := w.hctl.nsegs + 1 })
    (hdirs : w'.dirs hashp.dir = Function.update (w.dirs hashp.dir) w.hctl.nsegs segp)
    (hheap : w'.heap = heap) : Segments hashp w' := by
  have hdir : dirRegion hashp w' = dirRegion hashp w := by
    unfold dirRegion
    rw [hw]
  have hold : ∀ i < w.hctl.nsegs, w'.dirs hashp.dir i = w.dirs hashp.dir i := by
    intro i hi
    rw [hdirs, Function.update_of_ne (Nat.ne_of_lt hi)]
  have hnew : w'.dirs hashp.dir w.hctl.nsegs = segp := by rw [hdirs, Function.update_self]
  have hne : ∀ i < w.hctl.nsegs, w.dirs hashp.dir i ≠ segp := by
    intro i hi heq
    refine hg.ne h.ssize_pos (h.seg_mem i hi).1 ?_
    unfold segRegion
    rw [heq]
  have hnsegs : ∀ i, i < w'.hctl.nsegs → i < w.hctl.nsegs ∨ i = w.hctl.nsegs := by
    intro i hi
    rw [hw] at hi
    exact Nat.lt_or_eq_of_le (Nat.le_of_lt_succ hi)
  constructor
  · rw [hw]
    exact h.ssize
  · rw [hw]
    exact hlt
  · rw [hdir, hheap, hg.regions]
    exact List.mem_cons_of_mem _ h.dir_mem
  · intro i hi
    unfold InUse
    rw [hdir, hheap, hg.regions]
    rcases hnsegs i hi with hi | rfl
    · have hseg : segRegion hashp w' i = segRegion hashp w i := by
        unfold segRegion
        rw [hold i hi, hw]
      rw [hseg]
      exact ⟨List.mem_cons_of_mem _ (h.seg_mem i hi).1, (h.seg_mem i hi).2⟩
    · have hseg : segRegion hashp w' w.hctl.nsegs = ⟨segp, SIZEOF_BUCKET_INDEX * w.hctl.ssize⟩ := by
        unfold segRegion
        rw [hnew, hw]
      rw [hseg]
      exact ⟨List.mem_cons_self, (hg.ne h.ssize_pos h.dir_mem).symm⟩
  · intro i hi j hj heq
    rcases hnsegs i hi with hi | rfl <;> rcases hnsegs j hj with hj | rfl
    · rw [hold i hi, hold j hj] at heq
      exact h.seg_inj i hi j hj heq
    · rw [hold i hi, hnew] at heq
      exact absurd heq (hne i hi)
    · rw [hold j hj, hnew] at heq
      exact absurd heq.symm (hne j hj)
    · rfl

/-- Different buckets are different cells. -/
theorem Segments.bucketCell_inj (h : Segments hashp w) {b b' : Nat}
    (hb : b >>> w.hctl.sshift < w.hctl.nsegs) (hb' : b' >>> w.hctl.sshift < w.hctl.nsegs)
    (heq : bucketCell hashp w b = bucketCell hashp w b') : b = b' := by
  unfold bucketCell at heq
  obtain ⟨hseg, hndx⟩ := Cell.bucket.inj heq
  have hdiv := h.seg_inj _ hb _ hb' hseg
  rw [h.ssize, Nat.and_two_pow_sub_one_eq_mod, Nat.and_two_pow_sub_one_eq_mod] at hndx
  rw [Nat.shiftRight_eq_div_pow, Nat.shiftRight_eq_div_pow] at hdiv
  rw [← Nat.div_add_mod b (2 ^ w.hctl.sshift), hdiv, hndx, Nat.div_add_mod]

/-! ## Tables -/

/-- The elements on a chain or on the free list. -/
def Element (w : World Key) (chains : Nat → List Nat) (free : List Nat) (e : Nat) : Prop :=
  e ∈ free ∨ ∃ b ≤ w.hctl.maxBucket, e ∈ chains b

/-- A table whose bucket `b` starts the chain `chains b`. -/
structure Table (hash : Key → Int) (hashp : HashTable) (w : World Key) (chains : Nat → List Nat)
    (free : List Nat) : Prop where
  segments : Segments hashp w
  fits : Fits hashp (SIZEOF_BUCKET_INDEX * w.hctl.ssize)
  masked : ∃ j, w.hctl.Masked j
  covered : w.hctl.maxBucket >>> w.hctl.sshift < w.hctl.nsegs
  chain : ∀ b ≤ w.hctl.maxBucket, Chain Cell.next 0 w.cells (bucketCell hashp w b) (chains b)
  linked : Linked Cell.next 0 w.cells w.hctl.freeBucketIndex free
  home : ∀ b ≤ w.hctl.maxBucket, ∀ e ∈ chains b, callHash w.hctl (hash (w.keys e)) = b
  keys_inj : ∀ b ≤ w.hctl.maxBucket, ∀ e ∈ chains b, ∀ e' ∈ chains b, w.keys e = w.keys e' → e = e'
  apart : ∀ e ∈ free, ∀ b ≤ w.hctl.maxBucket, e ∉ chains b
  held : ∀ e, Element w chains free e → ∃ r, InUse hashp w r ∧ r.Holds e

variable {chains : Nat → List Nat} {free : List Nat}

namespace Table

theorem hash_le (h : Table hash hashp w chains free) (hashVal : Int) :
    callHash w.hctl hashVal ≤ w.hctl.maxBucket := by
  obtain ⟨j, hj⟩ := h.masked
  exact callHash_le hj hashVal

theorem covered_le (h : Table hash hashp w chains free) {b : Nat} (hb : b ≤ w.hctl.maxBucket) :
    b >>> w.hctl.sshift < w.hctl.nsegs := by
  refine Nat.lt_of_le_of_lt ?_ h.covered
  rw [Nat.shiftRight_eq_div_pow, Nat.shiftRight_eq_div_pow]
  exact Nat.div_le_div_right hb

theorem bucket_inj (h : Table hash hashp w chains free) {b b' : Nat} (hb : b ≤ w.hctl.maxBucket)
    (hb' : b' ≤ w.hctl.maxBucket) (heq : bucketCell hashp w b = bucketCell hashp w b') : b = b' :=
  h.segments.bucketCell_inj (h.covered_le hb) (h.covered_le hb') heq

/-- An element is on one chain only. -/
theorem chain_inj (h : Table hash hashp w chains free) {b b' e : Nat} (hb : b ≤ w.hctl.maxBucket)
    (hb' : b' ≤ w.hctl.maxBucket) (he : e ∈ chains b) (he' : e ∈ chains b') : b = b' :=
  (h.home b hb e he).symm.trans (h.home b' hb' e he')

/-- The cells of a chain. -/
theorem cells_nodup (h : Table hash hashp w chains free) {b : Nat} (hb : b ≤ w.hctl.maxBucket) :
    (bucketCell hashp w b :: (chains b).map Cell.next).Nodup :=
  (h.chain b hb).cells_nodup (fun _ _ => Cell.next.inj) fun _ _ => Cell.noConfusion

/-- The table is where it was when nothing it consists of was written to. -/
theorem move (h : Table hash hashp w chains free) (hseg : Segments hashp' w')
    (hfits : Fits hashp' (SIZEOF_BUCKET_INDEX * w'.hctl.ssize))
    (hmasks : w'.hctl.maxBucket = w.hctl.maxBucket ∧ w'.hctl.lowMask = w.hctl.lowMask ∧
      w'.hctl.highMask = w.hctl.highMask)
    (hfree : w'.hctl.freeBucketIndex = w.hctl.freeBucketIndex)
    (hcovered : w'.hctl.maxBucket >>> w'.hctl.sshift < w'.hctl.nsegs) (hkeys : w'.keys = w.keys)
    (hbucket : ∀ b ≤ w.hctl.maxBucket, w'.cells (bucketCell hashp' w' b) = w.cells (bucketCell hashp w b))
    (hnext : ∀ e, Element w chains free e → w'.cells (.next e) = w.cells (.next e))
    (huse : ∀ r, InUse hashp w r → InUse hashp' w' r) : Table hash hashp' w' chains free := by
  obtain ⟨hmax, hlow, hhigh⟩ := hmasks
  have hcall : ∀ v, callHash w'.hctl v = callHash w.hctl v := by
    intro v
    unfold callHash
    rw [hmax, hlow, hhigh]
  refine ⟨hseg, hfits, ?_, hcovered, ?_, ?_, ?_, ?_, ?_, ?_⟩
  · obtain ⟨j, hj⟩ := h.masked
    refine ⟨j, ?_⟩
    unfold HashHeader.Masked
    rw [hmax, hlow, hhigh]
    exact hj
  · intro b hb
    rw [hmax] at hb
    exact (h.chain b hb).move (hbucket b hb) fun e he => hnext e (Or.inr ⟨b, hb, he⟩)
  · rw [hfree]
    exact h.linked.move fun e he => hnext e (Or.inl he)
  · rw [hmax, hkeys]
    intro b hb e he
    rw [hcall]
    exact h.home b hb e he
  · rw [hmax, hkeys]
    exact h.keys_inj
  · rw [hmax]
    exact h.apart
  · intro e he
    unfold Element at he
    rw [hmax] at he
    obtain ⟨r, hr, hin⟩ := h.held e he
    exact ⟨r, huse r hr, hin⟩

end Table

end PostgresV7.Dynahash
