import PostgresV7.Dynahash.Refine

/-!
# What a call leaves alone

A table whose memory comes from another allocator, such as a shared one, never
gives memory back and never changes the sizes of its elements or the limit of its
directory.
-/

namespace PostgresV7.Dynahash

open Regions Outcomes

variable {Key : Type} [DecidableEq Key] {hash : Key → Int} {A : Allocator} {hashp : HashTable}
  {w w' w'' : World Key}

/-- The sizes are the same, and what was allocated still is. -/
structure Kept (w w' : World Key) : Prop where
  keysize : w'.hctl.keysize = w.hctl.keysize
  datasize : w'.hctl.datasize = w.hctl.datasize
  maxDsize : w'.hctl.maxDsize = w.hctl.maxDsize
  regions : ∀ r ∈ w.heap.regions, r ∈ w'.heap.regions

omit [DecidableEq Key] in
theorem Kept.refl (w : World Key) : Kept w w := ⟨rfl, rfl, rfl, fun _ hr => hr⟩

omit [DecidableEq Key] in
theorem Kept.trans (h : Kept w w') (h' : Kept w' w'') : Kept w w'' :=
  ⟨h'.keysize.trans h.keysize, h'.datasize.trans h.datasize, h'.maxDsize.trans h.maxDsize,
    fun r hr => h'.regions r (h.regions r hr)⟩

/-- Any outcome, as long as a table that comes out is kept. -/
def Keeps {β : Type} (w : World Key) (x : Except Fault β) (world : β → World Key) : Prop :=
  Ends (fun _ => True) x fun r => Kept w (world r)

theorem hashAlloc_keeps (A : Allocator) (hashp : HashTable) (heap : Heap) (size : Nat) :
    Ends (fun _ => True) (hashAlloc A hashp heap size) fun r =>
      ∀ s ∈ heap.regions, s ∈ r.2.regions := by
  refine (hashAlloc_spec A hashp heap size).mono (fun _ _ => trivial) ?_
  rintro ⟨_ | ⟨p, room⟩, heap'⟩ ha s hs
  · have hheap : heap'.regions = heap.regions := ha.2.2
    exact hheap ▸ hs
  · have hheap : heap'.regions = ⟨p, room⟩ :: heap.regions := ha.1.regions
    exact hheap ▸ List.mem_cons_of_mem _ hs

omit [DecidableEq Key] in
theorem segAlloc_keeps :
    Keeps w (segAlloc A hashp w) fun r => r.2 := by
  unfold segAlloc
  refine (hashAlloc_keeps A hashp w.heap _).bind ?_
  rintro ⟨_ | ⟨p, room⟩, heap⟩ hheap
  · exact ⟨rfl, rfl, rfl, hheap⟩
  · dsimp only
    split
    · exact trivial
    · exact ⟨rfl, rfl, rfl, hheap⟩

omit [DecidableEq Key] in
theorem bucketAlloc_keeps :
    Keeps w (bucketAlloc A hashp w) fun r => r.2 := by
  unfold bucketAlloc
  split
  · exact trivial
  · refine (hashAlloc_keeps A hashp w.heap _).bind ?_
    rintro ⟨_ | ⟨p, room⟩, heap⟩ hheap
    · exact ⟨rfl, rfl, rfl, hheap⟩
    · dsimp only
      split
      · exact trivial
      · exact ⟨rfl, rfl, rfl, hheap⟩

omit [DecidableEq Key] in
/-- A directory of another allocator's is not given back. -/
theorem ensureDirectory_keeps (hm : hashp.memAlloc = false) (n : Nat) :
    Ends (fun _ => True) (ensureDirectory A hashp w n) fun r => Kept w r.2.2 ∧ r.2.1 = hashp := by
  unfold ensureDirectory
  split
  · unfold dirRealloc
    split
    · exact ⟨.refl w, rfl⟩
    · refine (hashAlloc_keeps A hashp w.heap _).bind ?_
      rintro ⟨_ | ⟨p, room⟩, heap⟩ hheap
      · exact ⟨⟨rfl, rfl, rfl, hheap⟩, rfl⟩
      · dsimp only
        split
        · exact trivial
        · exact trivial
  · exact ⟨.refl w, rfl⟩

omit [DecidableEq Key] in
theorem newSegment_keeps (hm : hashp.memAlloc = false) :
    Keeps w (newSegment A hashp w) fun r => r.2.2 := by
  unfold newSegment
  split
  · refine (ensureDirectory_keeps hm _).bind ?_
    rintro ⟨room, hashp', w'⟩ ⟨hkept, hsame⟩
    dsimp only at hkept hsame ⊢
    split
    · exact hkept
    · unfold addSegment
      refine segAlloc_keeps.bind ?_
      rintro ⟨seg, w''⟩ hkept'
      dsimp only at hkept' ⊢
      have hboth := hkept.trans hkept'
      split
      · exact ⟨hboth.keysize, hboth.datasize, hboth.maxDsize, hboth.regions⟩
      · exact ⟨hboth.keysize, hboth.datasize, hboth.maxDsize, hboth.regions⟩
  · exact .refl w

omit [DecidableEq Key] in
theorem expandIfFull_keeps (hm : hashp.memAlloc = false) :
    Keeps w (expandIfFull hash A hashp w) fun r => r.2 := by
  unfold expandIfFull
  split
  · unfold expandTable
    refine (newSegment_keeps hm).bind ?_
    rintro ⟨room, hashp', w'⟩ hkept
    dsimp only at hkept ⊢
    split
    · exact hkept
    · obtain ⟨low, high, hgm⟩ := growMasks_eq w'.hctl
      rw [hgm]
      refine Ends.bind (P := fun _ => True) ?_ fun cells _ => ?_
      · cases splitChain hash _ w'.keys _ _ _ _ _ w'.cells <;> exact trivial
      · exact ⟨hkept.keysize, hkept.datasize, hkept.maxDsize, hkept.regions⟩
  · exact .refl w

omit [DecidableEq Key] in
theorem enterElement_keeps (hm : hashp.memAlloc = false) (prev : Cell) (key : Key) :
    Keeps w (enterElement hash A hashp w prev key) fun r => r.2.2 := by
  unfold enterElement
  have hroom : Keeps w (ensureElement A hashp w) fun r => r.2 := by
    unfold ensureElement
    split
    · exact bucketAlloc_keeps
    · exact .refl w
  refine hroom.bind ?_
  rintro ⟨room, w'⟩ hkept
  dsimp only at hkept ⊢
  split
  · exact hkept
  · have hins : Kept w (insertElement w' prev key) :=
      ⟨hkept.keysize, hkept.datasize, hkept.maxDsize, hkept.regions⟩
    exact (expandIfFull_keeps hm).bind fun r hr => hins.trans hr

theorem hashSearch_keeps (hm : hashp.memAlloc = false) (key : Key) (action : HashAction) :
    Keeps w (hashSearch hash A hashp w key action) fun r => r.2.2.2 := by
  unfold hashSearch
  refine Ends.bind (P := fun _ => True) ?_ ?_
  · cases followChain w key _ _ <;> exact trivial
  rintro ⟨prev, currIndex⟩ -
  cases action with
  | HASH_FIND => exact .refl w
  | HASH_REMOVE =>
    dsimp only
    split
    · exact ⟨rfl, rfl, rfl, fun _ hr => hr⟩
    · exact .refl w
  | HASH_ENTER =>
    dsimp only
    split
    · exact .refl w
    · exact (enterElement_keeps hm prev key).bind fun r hr => hr

/-! ## A new table -/

omit [DecidableEq Key] in
theorem initSegments_keeps (k : Nat) :
    Keeps w (initSegments A hashp k w) fun r => r.2 := by
  induction k generalizing w with
  | zero => exact .refl w
  | succ k ih =>
    unfold initSegments
    refine segAlloc_keeps.bind ?_
    rintro ⟨seg, w₁⟩ hkept
    dsimp only at hkept ⊢
    have hset : Kept w (w₁.setDir hashp w₁.hctl.nsegs seg) :=
      ⟨hkept.keysize, hkept.datasize, hkept.maxDsize, hkept.regions⟩
    split
    · exact hset
    · refine (ih (w := { w₁.setDir hashp w₁.hctl.nsegs seg with
        hctl := { w₁.hctl with nsegs := w₁.hctl.nsegs + 1 } })).mono (fun _ h => h) fun r hr => ?_
      exact hset.trans ⟨hr.keysize, hr.datasize, hr.maxDsize, hr.regions⟩

omit [DecidableEq Key] in
theorem initHtab_keeps (nelem : Int) :
    Keeps w (initHtab A hashp w nelem) fun r => r.2.2 := by
  unfold initHtab
  split
  · exact trivial
  dsimp only
  split
  · exact trivial
  split
  · exact .refl w
  unfold initDirectory
  split
  · refine (initSegments_keeps _).bind fun r hr => ?_
    exact ⟨hr.keysize, hr.datasize, hr.maxDsize, hr.regions⟩
  · refine (hashAlloc_keeps A hashp w.heap _).bind ?_
    rintro ⟨_ | ⟨dir, room⟩, heap⟩ hheap
    · exact ⟨rfl, rfl, rfl, hheap⟩
    · dsimp only
      split
      · exact trivial
      · refine (initSegments_keeps _).bind fun r hr => ?_
        exact ⟨hr.keysize, hr.datasize, hr.maxDsize, fun s hs => hr.regions s (hheap s hs)⟩

omit [DecidableEq Key] in
/-- The sizes are those the caller asked for. -/
theorem hashCreate_keeps {nelem : Int} {info : HashCtrl} {flags : HashFlags}
    (hcreate : hashCreate A w nelem info flags = .ok (some (hashp, w'))) :
    Kept { w with hctl := headerOf flags info } w' := by
  have hspec : Ends (fun _ => True) (hashCreate A w nelem info flags) fun r =>
      r = some (hashp, w') → Kept { w with hctl := headerOf flags info } w' := by
    unfold hashCreate
    refine (initHtab_keeps nelem).bind ?_
    rintro ⟨done, hashp₁, w₁⟩ hkept heq
    cases done with
    | true =>
      obtain ⟨rfl, rfl⟩ := Prod.mk.inj (Option.some.inj heq)
      exact hkept
    | false => cases heq
  exact hspec.of_ok hcreate rfl

/-! ## The requests of a call -/

/-- The new bucket begins a segment there is room for in the directory. -/
def GrowsSegment (hctl : HashHeader) : Prop :=
  Full { hctl with nkeys := hctl.nkeys + 1 } ∧ newSegnum hctl ≥ hctl.nsegs ∧
    ¬ newSegnum hctl ≥ hctl.dsize

instance (hctl : HashHeader) : Decidable (GrowsSegment hctl) := inferInstanceAs (Decidable (_ ∧ _ ∧ _))

/-- The heap once there is an element for a new key. -/
def elementHeap (A : Allocator) (w : World Key) : Heap :=
  if w.hctl.freeBucketIndex = INVALID_INDEX then
    (w.heap.alloc A (BUCKET_ALLOC_INCR * w.hctl.bucketSize % 2 ^ 64)).2
  else w.heap

/-- The heap after a new key has been entered, or refused. -/
def enterHeap (A : Allocator) (hashp : HashTable) (w : World Key) : Heap :=
  if Refuses A hashp w then elementHeap A w
  else if GrowsSegment w.hctl then
    ((elementHeap A w).alloc A (SIZEOF_BUCKET_INDEX * w.hctl.ssize % 2 ^ 64)).2
  else elementHeap A w

theorem hashAlloc_heap (hm : hashp.memAlloc = false) (heap : Heap) (size : Nat) :
    ∃ r, hashAlloc A hashp heap size = .ok (r, (heap.alloc A size).2) ∧
      (r = none ↔ A.answer heap.calls heap.regions size = none) := by
  unfold hashAlloc
  rw [hm, if_neg Bool.false_ne_true]
  unfold Heap.alloc
  cases A.answer heap.calls heap.regions size with
  | none => exact ⟨none, rfl, iff_of_true rfl rfl⟩
  | some p => exact ⟨some (p, size), rfl, iff_of_false (fun h => nomatch h) fun h => nomatch h⟩

omit [DecidableEq Key] in
theorem ensureElement_heap (hm : hashp.memAlloc = false) :
    Ends (fun _ => True) (ensureElement A hashp w) fun r =>
      r.2.heap = elementHeap A w ∧ (r.1 = false ↔ Refuses A hashp w) ∧
      r.2.hctl = { w.hctl with freeBucketIndex := r.2.hctl.freeBucketIndex } := by
  unfold ensureElement elementHeap
  by_cases hfree : w.hctl.freeBucketIndex = INVALID_INDEX
  · rw [if_pos hfree, if_pos hfree]
    unfold bucketAlloc
    split
    · exact trivial
    · obtain ⟨r, hrun, hr⟩ := hashAlloc_heap (A := A) hm w.heap
        (BUCKET_ALLOC_INCR * w.hctl.bucketSize % 2 ^ 64)
      dsimp only
      rw [hrun]
      cases r with
      | none => exact ⟨rfl, iff_of_true rfl ⟨hfree, hm, hr.mp rfl⟩, rfl⟩
      | some q =>
        dsimp only [bind, Except.bind]
        split
        · exact trivial
        · refine ⟨rfl, iff_of_false (fun h => nomatch h) fun hq => ?_, rfl⟩
          exact nomatch hr.mpr hq.2.2
  · rw [if_neg hfree, if_neg hfree]
    exact ⟨rfl, iff_of_false (fun h => nomatch h) fun hq => hfree hq.1, rfl⟩

omit [DecidableEq Key] in
theorem segAlloc_heap (hm : hashp.memAlloc = false) :
    Ends (fun _ => True) (segAlloc A hashp w) fun r =>
      r.2.heap = (w.heap.alloc A (SIZEOF_BUCKET_INDEX * w.hctl.ssize % 2 ^ 64)).2 := by
  unfold segAlloc
  obtain ⟨r, hrun, -⟩ := hashAlloc_heap (A := A) hm w.heap
    (SIZEOF_BUCKET_INDEX * w.hctl.ssize % 2 ^ 64)
  dsimp only
  rw [hrun]
  cases r with
  | none => exact rfl
  | some q =>
    dsimp only [bind, Except.bind]
    split
    · exact trivial
    · exact rfl

omit [DecidableEq Key] in
theorem newSegment_heap (hm : hashp.memAlloc = false) (hmax : w.hctl.maxDsize ≠ NO_MAX_DSIZE) :
    Ends (fun _ => True) (newSegment A hashp w) fun r =>
      r.2.2.heap = if newSegnum w.hctl ≥ w.hctl.nsegs ∧ ¬ newSegnum w.hctl ≥ w.hctl.dsize then
        (w.heap.alloc A (SIZEOF_BUCKET_INDEX * w.hctl.ssize % 2 ^ 64)).2 else w.heap := by
  unfold newSegment
  by_cases hseg : newSegnum w.hctl ≥ w.hctl.nsegs
  · rw [if_pos hseg]
    unfold ensureDirectory dirRealloc
    by_cases hdir : newSegnum w.hctl ≥ w.hctl.dsize
    · rw [if_pos hdir, if_pos hmax, if_neg fun h => h.2 hdir]
      exact rfl
    · rw [if_neg hdir, if_pos ⟨hseg, hdir⟩]
      dsimp only [bind, Except.bind]
      rw [if_neg Bool.true_eq_false_eq_False]
      unfold addSegment
      refine (segAlloc_heap hm).bind ?_
      rintro ⟨seg, w'⟩ hheap
      dsimp only at hheap ⊢
      split <;> exact hheap
  · rw [if_neg hseg, if_neg fun h => hseg h.1]
    exact rfl

omit [DecidableEq Key] in
theorem expandIfFull_heap (hm : hashp.memAlloc = false) (hmax : w.hctl.maxDsize ≠ NO_MAX_DSIZE) :
    Ends (fun _ => True) (expandIfFull hash A hashp w) fun r =>
      r.2.heap = if Full w.hctl ∧ newSegnum w.hctl ≥ w.hctl.nsegs ∧ ¬ newSegnum w.hctl ≥ w.hctl.dsize then
        (w.heap.alloc A (SIZEOF_BUCKET_INDEX * w.hctl.ssize % 2 ^ 64)).2 else w.heap := by
  unfold expandIfFull
  by_cases hfull : Full w.hctl
  · rw [if_pos hfull]
    simp only [hfull, true_and]
    unfold expandTable
    refine (newSegment_heap hm hmax).bind ?_
    rintro ⟨room, hashp', w'⟩ hheap
    dsimp only at hheap ⊢
    split
    · exact hheap
    · refine Ends.bind (P := fun _ => True) ?_ fun cells _ => hheap
      cases splitChain hash _ w'.keys _ _ _ _ _ w'.cells <;> exact trivial
  · rw [if_neg hfull, if_neg fun h => hfull h.1]
    exact rfl

omit [DecidableEq Key] in
theorem enterElement_heap (hm : hashp.memAlloc = false) (hmax : w.hctl.maxDsize ≠ NO_MAX_DSIZE)
    (prev : Cell) (key : Key) :
    Ends (fun _ => True) (enterElement hash A hashp w prev key) fun r =>
      r.2.2.heap = enterHeap A hashp w := by
  unfold enterElement enterHeap
  refine (ensureElement_heap hm).bind ?_
  rintro ⟨room, w'⟩ ⟨hheap, hroom, hctl⟩
  dsimp only at hheap hroom hctl ⊢
  by_cases href : Refuses A hashp w
  · rw [if_pos (hroom.mpr href), if_pos href]
    exact hheap
  · rw [if_neg (fun h => href (hroom.mp h)), if_neg href]
    have hmax' : (insertElement w' prev key).hctl.maxDsize ≠ NO_MAX_DSIZE := by
      show w'.hctl.maxDsize ≠ NO_MAX_DSIZE
      rw [hctl]
      exact hmax
    refine (expandIfFull_heap hm hmax').bind ?_
    rintro ⟨hashp'', w''⟩ hw''
    have hgrows : (Full (insertElement w' prev key).hctl ∧
        newSegnum (insertElement w' prev key).hctl ≥ (insertElement w' prev key).hctl.nsegs ∧
        ¬ newSegnum (insertElement w' prev key).hctl ≥ (insertElement w' prev key).hctl.dsize) ↔
        GrowsSegment w.hctl := by
      unfold GrowsSegment insertElement newSegnum Full
      dsimp only
      rw [hctl]
    have hssize : (insertElement w' prev key).hctl.ssize = w.hctl.ssize := by
      show w'.hctl.ssize = w.hctl.ssize
      rw [hctl]
    have hsame : (insertElement w' prev key).heap = elementHeap A w := hheap
    simp only [hgrows, hssize, hsame] at hw''
    exact hw''

/-- What a call asks for: nothing, unless it enters a new key. -/
theorem hashSearch_heap (hm : hashp.memAlloc = false) (hmax : w.hctl.maxDsize ≠ NO_MAX_DSIZE)
    (key : Key) (action : HashAction) :
    Ends (fun _ => True) (hashSearch hash A hashp w key action) fun r =>
      r.2.2.2.heap = if action = .HASH_ENTER ∧ r.2.1 = false then enterHeap A hashp w else w.heap := by
  unfold hashSearch
  refine Ends.bind (P := fun _ => True) ?_ ?_
  · cases followChain w key _ _ <;> exact trivial
  rintro ⟨prev, currIndex⟩ -
  cases action with
  | HASH_FIND => exact rfl
  | HASH_REMOVE =>
    dsimp only
    split <;> exact rfl
  | HASH_ENTER =>
    dsimp only
    split
    · rename_i hfound
      rw [hfound]
      exact rfl
    · rename_i hfound
      refine (enterElement_heap hm hmax prev key).bind ?_
      rintro ⟨result, hashp', w'⟩ hheap
      rw [Bool.eq_false_iff.mpr hfound]
      show w'.heap = if HashAction.HASH_ENTER = .HASH_ENTER ∧ false = false then _ else _
      rw [if_pos ⟨rfl, rfl⟩]
      exact hheap

end PostgresV7.Dynahash
