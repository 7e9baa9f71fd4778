import Mathlib.Data.List.GetD
import PostgresV7.Shmem.ShmemIndex

/-!
# Structures in shared memory

What the index is for: a catalog of names with a location and a size. A call asks for
space up to three times, twice for the index and then for the structure, and the
catalog is right as long as no sum of `shmem_alloc` passes 4 GB and is cut to a small one.
-/

namespace PostgresV7.Shmem

open Align Dynahash Regions Outcomes Runs

variable {hash : IndexKey → Int} {s s' : ShmemIndex} {name : List UInt8} {size : UInt64}

/-! ## Names -/

theorem getD_ne_zero {l : List UInt8} (h : 0 ∉ l) {i : Nat} (hi : i < l.length) : l.getD i 0 ≠ 0 := by
  rw [List.getD_eq_getElem l 0 hi]
  exact fun e => h (e ▸ List.getElem_mem hi)

/-- Names that fit into a key have a key of their own. -/
theorem strncpy_inj {a b : List UInt8} (ha : ValidName a) (hb : ValidName b)
    (h : strncpy a = strncpy b) : a = b := by
  have hget : ∀ i < SHMEM_INDEX_KEY_SIZE, a.getD i 0 = b.getD i 0 := fun i hi =>
    congrFun h (⟨i, hi⟩ : Fin SHMEM_INDEX_KEY_SIZE)
  have hlen : a.length = b.length := by
    rcases Nat.lt_trichotomy a.length b.length with hlt | heq | hgt
    · have hne := getD_ne_zero hb.2 hlt
      rw [← hget _ ha.1, List.getD_eq_default a 0 (Nat.le_refl _)] at hne
      exact absurd rfl hne
    · exact heq
    · have hne := getD_ne_zero ha.2 hgt
      rw [hget _ hb.1, List.getD_eq_default b 0 (Nat.le_refl _)] at hne
      exact absurd rfl hne
  refine List.ext_getElem hlen fun i hia hib => ?_
  have hi := hget i (Nat.lt_trans hia ha.1)
  rwa [List.getD_eq_getElem a 0 hia, List.getD_eq_getElem b 0 hib] at hi

/-! ## The segment and its regions -/

/-- The free space begins where the regions end. -/
structure Coherent (hdr : PGShmemHeader) (heap : Heap) : Prop where
  valid : hdr.Valid
  end_eq : hdr.freeOffset = endOf heap.regions

/-- A request that fits is answered by `shmem_alloc` as by the allocator. -/
theorem Coherent.alloc {hdr : PGShmemHeader} {heap : Heap} (h : Coherent hdr heap)
    (hf : Fits hdr size) :
    (shmemAlloc hdr size).1 = (segment hdr.totalSize).answer heap.calls heap.regions size.toNat ∧
      Coherent (shmemAlloc hdr size).2 (heap.alloc (segment hdr.totalSize) size.toNat).2 ∧
      (shmemAlloc hdr size).2.totalSize = hdr.totalSize := by
  have htotal : hdr.totalSize % 2 ^ 32 = hdr.totalSize := Nat.mod_eq_of_lt h.valid.total_lt
  have hanswer : (segment hdr.totalSize).answer heap.calls heap.regions size.toNat =
      if hdr.freeOffset + alignUp 16 size.toNat ≤ hdr.totalSize then some hdr.freeOffset else none := by
    rw [h.end_eq]
    exact congrArg (fun n => if endOf heap.regions + alignUp 16 size.toNat ≤ n then
      some (endOf heap.regions) else none) htotal
  unfold Heap.alloc
  rcases hrun : shmemAlloc hdr size with ⟨r, hdr'⟩
  have hvalid := h.valid.alloc hf hrun
  rcases shmemAlloc_cases h.valid hf hrun with ⟨rfl, rfl, hlt⟩ | ⟨rfl, rfl, hle⟩
  · rw [hanswer, if_neg (Nat.not_le.mpr hlt)]
    exact ⟨rfl, ⟨hvalid, h.end_eq⟩, rfl⟩
  · rw [hanswer, if_pos hle]
    refine ⟨rfl, ⟨hvalid, ?_⟩, rfl⟩
    dsimp only
    rw [h.end_eq, endOf_cons]

/-! ## What the index asks for -/

/-- The request for elements, when none is free. -/
def elementsSize (s : ShmemIndex) : UInt64 :=
  UInt64.ofNat (BUCKET_ALLOC_INCR * s.world.hctl.bucketSize)

/-- The request for a segment of the table, when it grows into one. -/
def segmentSize (s : ShmemIndex) : UInt64 :=
  UInt64.ofNat (SIZEOF_BUCKET_INDEX * s.world.hctl.ssize)

def NeedsElements (s : ShmemIndex) : Prop := s.world.hctl.freeBucketIndex = INVALID_INDEX

instance (s : ShmemIndex) : Decidable (NeedsElements s) := inferInstanceAs (Decidable (_ = _))

/-- There is an element for a new name. -/
def Enters (s : ShmemIndex) : Prop :=
  NeedsElements s → (shmemAlloc s.hdr (elementsSize s)).1 ≠ none

instance (s : ShmemIndex) : Decidable (Enters s) := inferInstanceAs (Decidable (_ → _))

def hdrAfterElements (s : ShmemIndex) : PGShmemHeader :=
  if NeedsElements s then (shmemAlloc s.hdr (elementsSize s)).2 else s.hdr

/-- The header once a new name has been entered. -/
def hdrAfterIndex (s : ShmemIndex) : PGShmemHeader :=
  if GrowsSegment s.world.hctl then (shmemAlloc (hdrAfterElements s) (segmentSize s)).2
  else hdrAfterElements s

/-- The requests of the index fit. -/
structure IndexFits (s : ShmemIndex) : Prop where
  elements : NeedsElements s → Fits s.hdr (elementsSize s)
  segment : Enters s → GrowsSegment s.world.hctl → Fits (hdrAfterElements s) (segmentSize s)

theorem refuses_iff (h : Coherent s.hdr s.world.heap) (hm : s.hashp.memAlloc = false)
    (hf : IndexFits s) : Refuses (segment s.hdr.totalSize) s.hashp s.world ↔ ¬ Enters s := by
  have hsize : (elementsSize s).toNat = BUCKET_ALLOC_INCR * s.world.hctl.bucketSize % 2 ^ 64 := rfl
  constructor
  · rintro ⟨hfree, -, hnone⟩ henters
    rw [← hsize, ← (h.alloc (hf.elements hfree)).1] at hnone
    exact henters hfree hnone
  · intro hno
    obtain ⟨hfree, hnone⟩ := Classical.not_imp.mp hno
    refine ⟨hfree, hm, ?_⟩
    rw [← hsize, ← (h.alloc (hf.elements hfree)).1]
    exact not_not.mp hnone

theorem coherent_elements (h : Coherent s.hdr s.world.heap) (hf : IndexFits s) :
    Coherent (hdrAfterElements s) (elementHeap (segment s.hdr.totalSize) s.world) ∧
      (hdrAfterElements s).totalSize = s.hdr.totalSize := by
  have hheap : elementHeap (segment s.hdr.totalSize) s.world = if NeedsElements s then
      (s.world.heap.alloc (segment s.hdr.totalSize) (elementsSize s).toNat).2
    else s.world.heap := rfl
  rw [hdrAfterElements, hheap]
  by_cases hfree : NeedsElements s
  · rw [if_pos hfree, if_pos hfree]
    exact (h.alloc (hf.elements hfree)).2
  · rw [if_neg hfree, if_neg hfree]
    exact ⟨h, rfl⟩

/-- The header follows the heap of the index through an entered name. -/
theorem coherent_index (h : Coherent s.hdr s.world.heap) (hm : s.hashp.memAlloc = false)
    (hf : IndexFits s) (henters : Enters s) :
    Coherent (hdrAfterIndex s) (enterHeap (segment s.hdr.totalSize) s.hashp s.world) ∧
      (hdrAfterIndex s).totalSize = s.hdr.totalSize := by
  obtain ⟨hcoh, htotal⟩ := coherent_elements h hf
  unfold hdrAfterIndex enterHeap
  rw [if_neg fun hr => (refuses_iff h hm hf).mp hr henters]
  by_cases hgrows : GrowsSegment s.world.hctl
  · rw [if_pos hgrows, if_pos hgrows]
    have halloc := hcoh.alloc (hf.segment henters hgrows)
    rw [htotal] at halloc
    exact halloc.2
  · rw [if_neg hgrows, if_neg hgrows]
    exact ⟨hcoh, htotal⟩

/-- A name that cannot be entered leaves the end of the regions where it was. -/
theorem endOf_refused (h : Coherent s.hdr s.world.heap) (hm : s.hashp.memAlloc = false)
    (hf : IndexFits s) (hno : ¬ Enters s) :
    endOf (enterHeap (segment s.hdr.totalSize) s.hashp s.world).regions = s.hdr.freeOffset := by
  have hrefuses := (refuses_iff h hm hf).mpr hno
  obtain ⟨hfree, -, hnone⟩ := id hrefuses
  unfold enterHeap elementHeap Heap.alloc
  rw [if_pos hrefuses, if_pos hfree, hnone]
  exact h.end_eq.symm

/-! ## The catalog -/

/-- Names with their locations and sizes. -/
abbrev Catalog := List UInt8 → Option (Nat × UInt64)

/-- A call of `shmem_init_struct` with what it returned. -/
structure Call where
  name : List UInt8
  size : UInt64
  result : Option Nat
  found : Bool

/-- The catalog after a call. -/
def Call.apply (M : Catalog) (c : Call) : Catalog :=
  match c.result, c.found with
  | some p, false => Function.update M c.name (some (p, c.size))
  | _, _ => M

/-- The index leads from the name to a location and a size. -/
def Leads (hash : IndexKey → Int) (s : ShmemIndex) (name : List UInt8) (entry : Nat × UInt64) : Prop :=
  ∃ e, Reached hash s.hashp s.world (strncpy name) e ∧ (s.location e, s.size e) = entry

/-- The index is this catalog. -/
def Maps (hash : IndexKey → Int) (s : ShmemIndex) (M : Catalog) : Prop :=
  ∀ name, ValidName name → ∀ entry, Leads hash s name entry ↔ M name = some entry

/-- What a call may come to: space apart from all there was, at or above which nothing
is free any more; the space there is; or `NULL`, for another size or no memory. -/
inductive Call.Right (s s' : ShmemIndex) (M : Catalog) : Call → Prop where
  | create {name : List UInt8} {size : UInt64} {p : Nat} : M name = none →
      maxAlign SIZEOF_PG_SHMEM_HEADER ≤ p → p + size.toNat ≤ s'.hdr.freeOffset →
      s'.hdr.freeOffset ≤ s.hdr.totalSize →
      (∀ r ∈ s.world.heap.regions, Region.Apart ⟨p, size.toNat⟩ r) →
      ⟨p, size.toNat⟩ ∈ s'.world.heap.regions → Right s s' M ⟨name, size, some p, false⟩
  | attach {name : List UInt8} {size : UInt64} {p : Nat} : M name = some (p, size) →
      Right s s' M ⟨name, size, some p, true⟩
  | mismatch {name : List UInt8} {size size' : UInt64} {p : Nat} : M name = some (p, size') →
      size' ≠ size → Right s s' M ⟨name, size, none, true⟩
  | noMemory {name : List UInt8} {size : UInt64} : M name = none →
      Right s s' M ⟨name, size, none, false⟩

/-- The call answers as the catalog does, gives the lock back and keeps the index in step.
A structure without bytes fails the last assertion at the end of the segment. -/
def Good (hash : IndexKey → Int) (s : ShmemIndex) (M : Catalog) (name : List UInt8)
    (size : UInt64) : Prop :=
  Ends (fun e => e = .assertion ∧ size = 0) (shmemInitStruct hash name size s) fun r =>
    Call.Right s r.2.2 M ⟨name, size, r.1, r.2.1⟩ ∧ r.2.2.locked = false ∧
      (∀ r' ∈ s.world.heap.regions, r' ∈ r.2.2.world.heap.regions) ∧
      Maps hash r.2.2 (Call.apply M ⟨name, size, r.1, r.2.1⟩)

/-- The name is not in the index. -/
def Absent (hash : IndexKey → Int) (s : ShmemIndex) (name : List UInt8) : Prop :=
  ∀ e, ¬ Reached hash s.hashp s.world (strncpy name) e

/-- No sum of `shmem_alloc` is cut to one inside the segment. -/
def Harmless (hash : IndexKey → Int) (s : ShmemIndex) (name : List UInt8) (size : UInt64) : Prop :=
  Absent hash s name → IndexFits s ∧ (Enters s → Fits (hdrAfterIndex s) size)

/-! ## One call -/

/-- The table stands for the catalog, and the segment is in order. -/
structure Known (hash : IndexKey → Int) (s : ShmemIndex) (m : Dict IndexKey) (M : Catalog) : Prop where
  inShmem : InShmem s.hashp s.world
  represents : Represents hash s.hashp s.world m
  entry : ∀ name, ValidName name →
    M name = (m.lookup (strncpy name)).map fun e => (s.location e, s.size e)
  coherent : Coherent s.hdr s.world.heap
  inside : ∀ key e, m.lookup key = some e → s.location e < s.hdr.totalSize
  unlocked : s.locked = false

variable {m : Dict IndexKey} {M : Catalog}

theorem Known.maps (h : Known hash s m M) : Maps hash s M := by
  intro name hname entry
  rw [h.entry name hname]
  constructor
  · rintro ⟨e, hreach, rfl⟩
    rw [h.represents.reached_iff.mp hreach]
    rfl
  · intro hm
    obtain ⟨e, he, rfl⟩ := Option.map_eq_some_iff.mp hm
    exact ⟨e, h.represents.reached_iff.mpr he, rfl⟩

theorem Known.absent_iff (h : Known hash s m M) (hname : ValidName name) :
    Absent hash s name ↔ M name = none := by
  rw [h.entry name hname, Option.map_eq_none_iff, Option.eq_none_iff_forall_ne_some]
  exact forall_congr' fun e => not_congr h.represents.reached_iff

/-- `hash_search` of the index answers as the map does. -/
theorem search_spec (hash : IndexKey → Int) (s : ShmemIndex) (hin : InShmem s.hashp s.world)
    (hrep : Represents hash s.hashp s.world m) (hcoh : Coherent s.hdr s.world.heap) (key : IndexKey) (action : HashAction) :
    ∃ result found w' m', s.search hash key action = .ok (result, found, { s with
        world := w'
        hdr := { s.hdr with freeOffset := endOf w'.heap.regions } }) ∧
      Kept s.world w' ∧ Represents hash s.hashp w' m' ∧
      m.Answers ⟨key, action, decide (Refuses (segment s.hdr.totalSize) s.hashp s.world), result,
        found⟩ m' ∧
      w'.heap = if action = .HASH_ENTER ∧ found = false then
        enterHeap (segment s.hdr.totalSize) s.hashp s.world else s.world.heap := by
  obtain ⟨result, found, w', m', hrun, hkept, hrep', hans⟩ :=
    hin.search (A := segment s.hdr.totalSize) hrep key action
  have hheap := Ends.of_ok (hashSearch_heap hin.memAlloc hin.maxDsize key action) hrun
  refine ⟨result, found, w', m', ?_, hkept, hrep', hans, hheap⟩
  have hfree : s.hdr.freeOffset + (endOf w'.heap.regions - endOf s.world.heap.regions) =
      endOf w'.heap.regions := by
    rw [hcoh.end_eq, Nat.add_sub_cancel' (endOf_mono hkept.regions)]
  unfold ShmemIndex.search
  rw [hrun]
  simp only [Except.mapError, bind, Except.bind, hfree]

/-- Another memory and another header for the same table. -/
theorem Known.move (h : Known hash s m M) {w' : World IndexKey} {hdr' : PGShmemHeader}
    (hkept : Kept s.world w') (hrep : Represents hash s.hashp w' m) (hcoh : Coherent hdr' w'.heap)
    (htotal : hdr'.totalSize = s.hdr.totalSize) :
    Known hash { s with world := w', hdr := hdr', locked := false } m M where
  inShmem := h.inShmem.kept hkept
  represents := hrep
  entry := h.entry
  coherent := hcoh
  inside key e he := by
    show s.location e < hdr'.totalSize
    rw [htotal]
    exact h.inside key e he
  unlocked := rfl

/-- One more entry, on an element of its own. -/
theorem Known.addEntry (h : Known hash s m M) (hname : ValidName name) (w' : World IndexKey)
    {hdr' : PGShmemHeader} {e p : Nat} (hfresh : ∀ k, m.lookup k ≠ some e) (hkept : Kept s.world w')
    (hrep : Represents hash s.hashp w' (m.insert (strncpy name) e)) (hcoh : Coherent hdr' w'.heap)
    (htotal : hdr'.totalSize = s.hdr.totalSize) (hp : p < s.hdr.totalSize) (size : UInt64) :
    Known hash { s with
        world := w'
        hdr := hdr'
        location := Function.update s.location e p
        size := Function.update s.size e size
        locked := false } (m.insert (strncpy name) e)
      (Function.update M name (some (p, size))) where
  inShmem := h.inShmem.kept hkept
  represents := hrep
  entry n hn := by
    by_cases hnn : n = name
    · rw [hnn, Function.update_self, Finmap.lookup_insert]
      dsimp only [Option.map]
      rw [Function.update_self, Function.update_self]
    · have hkey : strncpy n ≠ strncpy name := fun heq => hnn (strncpy_inj hn hname heq)
      rw [Function.update_of_ne hnn, Finmap.lookup_insert_of_ne _ hkey, h.entry n hn]
      refine Option.map_congr fun e' he' => ?_
      have hne : e' ≠ e := fun heq => hfresh _ (heq ▸ he')
      dsimp only
      rw [Function.update_of_ne hne, Function.update_of_ne hne]
  coherent := hcoh
  inside k e' he' := by
    show Function.update s.location e p e' < hdr'.totalSize
    rw [htotal]
    by_cases hee : e' = e
    · rw [hee, Function.update_self]
      exact hp
    · have hk : k ≠ strncpy name := by
        rintro rfl
        rw [Finmap.lookup_insert] at he'
        exact hee (Option.some.inj he').symm
      rw [Finmap.lookup_insert_of_ne _ hk] at he'
      rw [Function.update_of_ne hee]
      exact h.inside k e' he'
  unlocked := rfl

/-- A name that is in the index. -/
theorem Known.call_found (h : Known hash s m M) (hname : ValidName name) {p : Nat} {size' : UInt64}
    (hentry : M name = some (p, size')) (size : UInt64) :
    ∃ s', shmemInitStruct hash name size s =
        .ok (if size' = size then some p else none, true, s') ∧
      Known hash s' m M ∧ ∀ r ∈ s.world.heap.regions, r ∈ s'.world.heap.regions := by
  rw [h.entry name hname] at hentry
  obtain ⟨e, he, hloc⟩ := Option.map_eq_some_iff.mp hentry
  obtain ⟨hp, hs⟩ := Prod.mk.inj hloc
  obtain ⟨result, found, w', m', hrun, hkept, hrep, hans, hheap⟩ :=
    search_spec hash { s with locked := true } h.inShmem h.represents h.coherent
      (strncpy name) .HASH_ENTER
  have hmem : strncpy name ∈ m := Finmap.mem_iff.mpr ⟨e, he⟩
  generalize hr : decide (Refuses _ _ _) = refused at hans
  cases hans with
  | miss hnot => exact absurd hmem hnot
  | enter hnot => exact absurd hmem hnot
  | refused hnot => exact absurd hmem hnot
  | hit hlook hne =>
    obtain rfl : e = _ := Option.some.inj (he.symm.trans hlook)
    have hsame : w'.heap = s.world.heap := hheap
    have hhdr : { s.hdr with freeOffset := endOf w'.heap.regions } = s.hdr := by
      rw [hsame, ← h.coherent.end_eq]
    have hcoh : Coherent { s.hdr with freeOffset := endOf w'.heap.regions } w'.heap := by
      rw [hhdr, hsame]
      exact h.coherent
    refine ⟨_, ?_, h.move hkept hrep hcoh rfl, fun r hr => hkept.regions r hr⟩
    unfold shmemInitStruct ShmemIndex.spinAcquire
    rw [h.unlocked, if_neg Bool.false_ne_true]
    dsimp only [bind, Except.bind]
    rw [hrun]
    dsimp only
    rw [if_pos rfl]
    by_cases hsize : size' = size
    · rw [if_neg (not_not.mpr (hs.trans hsize)), if_pos hsize, ← hp]
      have hvalid : s.location e < s.hdr.totalSize := h.inside _ e he
      unfold ShmemIndex.finish ShmemIndex.isValid
      dsimp only
      rw [if_pos (decide_eq_true hvalid)]
      rfl
    · rw [if_pos (hs.trans_ne hsize), if_neg hsize]
      rfl

/-- A new name that cannot be entered. -/
theorem Known.call_refused (h : Known hash s m M) (hname : ValidName name) (habsent : M name = none)
    (hf : IndexFits s) (hno : ¬ Enters s) (size : UInt64) :
    ∃ s', shmemInitStruct hash name size s = .ok (none, false, s') ∧ Known hash s' m M ∧
      ∀ r ∈ s.world.heap.regions, r ∈ s'.world.heap.regions := by
  rw [h.entry name hname, Option.map_eq_none_iff] at habsent
  have hnot : strncpy name ∉ m := Finmap.lookup_eq_none.mp habsent
  obtain ⟨result, found, w', m', hrun, hkept, hrep, hans, hheap⟩ :=
    search_spec hash { s with locked := true } h.inShmem h.represents h.coherent
      (strncpy name) .HASH_ENTER
  have hrefuses := (refuses_iff h.coherent h.inShmem.memAlloc hf).mpr hno
  dsimp only at hans
  rw [decide_eq_true hrefuses] at hans
  cases hans with
  | hit hlook => exact absurd (Finmap.mem_iff.mpr ⟨_, hlook⟩) hnot
  | miss _ hne => exact absurd rfl hne
  | refused _ =>
    have hsame : w'.heap = enterHeap (segment s.hdr.totalSize) s.hashp s.world := hheap
    have hend : endOf w'.heap.regions = s.hdr.freeOffset := by
      rw [hsame, endOf_refused h.coherent h.inShmem.memAlloc hf hno]
    have hcoh : Coherent { s.hdr with freeOffset := endOf w'.heap.regions } w'.heap := by
      refine ⟨?_, rfl⟩
      rw [hend]
      exact h.coherent.valid
    refine ⟨_, ?_, h.move hkept hrep hcoh rfl, hkept.regions⟩
    unfold shmemInitStruct ShmemIndex.spinAcquire
    rw [h.unlocked, if_neg Bool.false_ne_true]
    dsimp only [bind, Except.bind]
    rw [hrun]
    rfl

/-- A new name is entered; what is left to do is to find space for the structure. -/
theorem Known.enter (h : Known hash s m M) (hname : ValidName name) (habsent : M name = none)
    (hf : IndexFits s) (henters : Enters s) (size : UInt64) :
    ∃ w' e, Kept s.world w' ∧ Represents hash s.hashp w' (m.insert (strncpy name) e) ∧
      (∀ k, m.lookup k ≠ some e) ∧ Coherent (hdrAfterIndex s) w'.heap ∧
      (hdrAfterIndex s).totalSize = s.hdr.totalSize ∧
      shmemInitStruct hash name size s =
        match ShmemIndex.alloc { s with locked := true, world := w', hdr := hdrAfterIndex s } size with
        | (none, s) => do
          let (_, _, s) ← s.search hash (strncpy name) .HASH_REMOVE
          let s ← s.spinRelease
          .ok (none, false, s)
        | (some structPtr, s) =>
          let s := { s with
            size := Function.update s.size e size
            location := Function.update s.location e structPtr }
          s.finish structPtr false := by
  rw [h.entry name hname, Option.map_eq_none_iff] at habsent
  have hnot : strncpy name ∉ m := Finmap.lookup_eq_none.mp habsent
  obtain ⟨result, found, w', m', hrun, hkept, hrep, hans, hheap⟩ :=
    search_spec hash { s with locked := true } h.inShmem h.represents h.coherent
      (strncpy name) .HASH_ENTER
  have hrefuses : ¬ Refuses (segment s.hdr.totalSize) s.hashp s.world := fun hr =>
    (refuses_iff h.coherent h.inShmem.memAlloc hf).mp hr henters
  dsimp only at hans
  rw [decide_eq_false hrefuses] at hans
  cases hans with
  | hit hlook => exact absurd (Finmap.mem_iff.mpr ⟨_, hlook⟩) hnot
  | miss _ hne => exact absurd rfl hne
  | @enter _ e _ hfresh hne =>
    have hsame : w'.heap = enterHeap (segment s.hdr.totalSize) s.hashp s.world := hheap
    obtain ⟨hcoh, htotal⟩ := coherent_index h.coherent h.inShmem.memAlloc hf henters
    have hhdr : { s.hdr with freeOffset := endOf w'.heap.regions } = hdrAfterIndex s := by
      rw [hsame, ← hcoh.end_eq]
      show PGShmemHeader.mk s.hdr.totalSize _ = _
      rw [← htotal]
    refine ⟨w', e, hkept, hrep, hfresh, hsame ▸ hcoh, htotal, ?_⟩
    unfold shmemInitStruct ShmemIndex.spinAcquire
    rw [h.unlocked, if_neg Bool.false_ne_true]
    dsimp only [bind, Except.bind]
    rw [hrun]
    dsimp only
    rw [hhdr]
    exact if_neg Bool.false_ne_true

/-- The name is taken out again when there is no space for the structure. -/
theorem Known.call_noMemory (h : Known hash s m M) (hname : ValidName name)
    (habsent : M name = none) (hf : IndexFits s) (henters : Enters s)
    (hnone : shmemAlloc (hdrAfterIndex s) size = (none, hdrAfterIndex s)) :
    ∃ s' m', shmemInitStruct hash name size s = .ok (none, false, s') ∧ Known hash s' m' M ∧
      ∀ r ∈ s.world.heap.regions, r ∈ s'.world.heap.regions := by
  obtain ⟨w', e, hkept, hrep, hfresh, hcoh, htotal, hrun⟩ := h.enter hname habsent hf henters size
  rw [h.entry name hname, Option.map_eq_none_iff] at habsent
  have halloc : ShmemIndex.alloc { s with locked := true, world := w', hdr := hdrAfterIndex s } size =
      (none, { s with locked := true, world := w', hdr := hdrAfterIndex s }) := by
    unfold ShmemIndex.alloc
    rw [hnone]
    rfl
  rw [halloc] at hrun
  obtain ⟨result, found, w'', m'', hrun', hkept', hrep', hans, hheap⟩ :=
    search_spec hash { s with locked := true, world := w', hdr := hdrAfterIndex s }
      (h.inShmem.kept hkept) hrep hcoh (strncpy name) .HASH_REMOVE
  dsimp only at hrun
  rw [hrun'] at hrun
  have hsame : w''.heap = w'.heap := hheap
  have hcoh' : Coherent { hdrAfterIndex s with freeOffset := endOf w''.heap.regions } w''.heap := by
    refine ⟨?_, rfl⟩
    rw [hsame, ← hcoh.end_eq]
    exact hcoh.valid
  have hlook : ∀ k, ((m.insert (strncpy name) e).erase (strncpy name)).lookup k = m.lookup k := by
    intro k
    by_cases hk : k = strncpy name
    · rw [hk, Finmap.lookup_erase, habsent]
    · rw [Finmap.lookup_erase_ne hk, Finmap.lookup_insert_of_ne _ hk]
  have hmem : strncpy name ∈ m.insert (strncpy name) e := Finmap.mem_iff.mpr ⟨e, Finmap.lookup_insert m⟩
  generalize hr : decide (Refuses _ _ _) = refused at hans
  cases hans with
  | hit _ hne => exact absurd rfl hne
  | miss hnot => exact absurd hmem hnot
  | remove _ =>
    have hboth := hkept.trans hkept'
    refine ⟨_, _, hrun, ⟨h.inShmem.kept hboth, hrep', fun n hn => ?_, hcoh', fun k e' he' => ?_, rfl⟩,
      hboth.regions⟩
    · rw [hlook]
      exact h.entry n hn
    · rw [hlook] at he'
      show s.location e' < (hdrAfterIndex s).totalSize
      rw [htotal]
      exact h.inside k e' he'

/-- A structure is created where the free space began. -/
theorem Known.call_creates (h : Known hash s m M) (hname : ValidName name) (habsent : M name = none)
    (hf : IndexFits s) (henters : Enters s) {hdr' : PGShmemHeader}
    (hsome : shmemAlloc (hdrAfterIndex s) size = (some (hdrAfterIndex s).freeOffset, hdr')) :
    if (hdrAfterIndex s).freeOffset < hdr'.totalSize then
      ∃ s', shmemInitStruct hash name size s = .ok (some (hdrAfterIndex s).freeOffset, false, s') ∧
        s'.hdr = hdr' ∧ s'.locked = false ∧
        (∀ r ∈ s.world.heap.regions,
          r ∈ s'.world.heap.regions ∧ r.base + r.size ≤ (hdrAfterIndex s).freeOffset) ∧
        ⟨(hdrAfterIndex s).freeOffset, size.toNat⟩ ∈ s'.world.heap.regions ∧
        (Fits (hdrAfterIndex s) size → ∃ m', Known hash s' m'
          (Function.update M name (some ((hdrAfterIndex s).freeOffset, size))))
    else shmemInitStruct hash name size s = .error .assertion := by
  obtain ⟨w', e, hkept, hrep, hfresh, hcoh, htotal, hrun⟩ := h.enter hname habsent hf henters size
  generalize hdrAfterIndex s = hdr₁ at hsome hrun hcoh htotal ⊢
  have halloc : ShmemIndex.alloc { s with locked := true, world := w', hdr := hdr₁ } size =
      (some hdr₁.freeOffset, { s with
        locked := true
        world := { w' with heap := { w'.heap with
          regions := ⟨hdr₁.freeOffset, size.toNat⟩ :: w'.heap.regions } }
        hdr := hdr' }) := by
    unfold ShmemIndex.alloc
    rw [hsome]
    rfl
  rw [halloc] at hrun
  dsimp only at hrun
  rw [hrun]
  unfold ShmemIndex.finish ShmemIndex.isValid
  dsimp only
  split
  · rename_i hlt
    rw [if_pos (decide_eq_true hlt)]
    refine ⟨_, rfl, rfl, rfl, fun r hr => ⟨List.mem_cons_of_mem _ (hkept.regions r hr), ?_⟩,
      List.mem_cons_self, fun hfit => ⟨m.insert (strncpy name) e, ?_⟩⟩
    · rw [hcoh.end_eq]
      exact le_endOf (hkept.regions r hr)
    · have hnew := hcoh.alloc hfit
      rw [hsome] at hnew
      have hregions : ∀ r ∈ w'.heap.regions,
          r ∈ (⟨hdr₁.freeOffset, size.toNat⟩ :: w'.heap.regions : List Region) := fun r hr =>
        List.mem_cons_of_mem _ hr
      have hend : hdr'.freeOffset = endOf (⟨hdr₁.freeOffset, size.toNat⟩ :: w'.heap.regions) := by
        rcases shmemAlloc_cases hcoh.valid hfit hsome with ⟨hno, -⟩ | ⟨-, rfl, -⟩
        · cases hno
        · rw [hcoh.end_eq, endOf_cons]
      exact h.addEntry hname { w' with heap := { w'.heap with
          regions := ⟨hdr₁.freeOffset, size.toNat⟩ :: w'.heap.regions } } hfresh ⟨hkept.keysize, hkept.datasize, hkept.maxDsize,
        fun r hr => hregions r (hkept.regions r hr)⟩ (hrep.enlarge hregions) ⟨hnew.2.1.valid, hend⟩
        (hnew.2.2.trans htotal) (by rwa [hnew.2.2, htotal] at hlt) size
  · rename_i hge
    rw [if_neg fun hd => hge (of_decide_eq_true hd)]

/-- A harmless call answers as the catalog does, and leaves the index in step with it. -/
theorem Known.call (h : Known hash s m M) (hname : ValidName name)
    (hharm : Harmless hash s name size) :
    Ends (fun e => e = .assertion ∧ size = 0) (shmemInitStruct hash name size s) fun r =>
      Call.Right s r.2.2 M ⟨name, size, r.1, r.2.1⟩ ∧
      (∀ r' ∈ s.world.heap.regions, r' ∈ r.2.2.world.heap.regions) ∧
      ∃ m', Known hash r.2.2 m' (Call.apply M ⟨name, size, r.1, r.2.1⟩) := by
  cases hM : M name with
  | some entry =>
    obtain ⟨p, size'⟩ := entry
    obtain ⟨s', hrun, hs', hregions⟩ := h.call_found hname hM size
    rw [hrun]
    by_cases hsize : size' = size
    · rw [if_pos hsize]
      exact ⟨.attach (hsize ▸ hM), hregions, m, hs'⟩
    · rw [if_neg hsize]
      exact ⟨.mismatch hM hsize, hregions, m, hs'⟩
  | none =>
    obtain ⟨hf, hfit⟩ := hharm ((h.absent_iff hname).mpr hM)
    by_cases henters : Enters s
    · have hcoh := (coherent_index h.coherent h.inShmem.memAlloc hf henters).1
      have htotal := (coherent_index h.coherent h.inShmem.memAlloc hf henters).2
      have hfit := hfit henters
      have hle := le_alignUp (by decide : 0 < 16) size.toNat
      rcases halloc : shmemAlloc (hdrAfterIndex s) size with ⟨r, hdr'⟩
      rcases shmemAlloc_cases hcoh.valid hfit halloc with ⟨rfl, rfl, -⟩ | ⟨rfl, rfl, hend⟩
      · obtain ⟨s', m', hrun, hs', hregions⟩ := h.call_noMemory hname hM hf henters halloc
        rw [hrun]
        exact ⟨.noMemory hM, hregions, m', hs'⟩
      · have hcreates := h.call_creates hname hM hf henters halloc
        split at hcreates
        · obtain ⟨s', hrun, hhdr, -, hregions, hmem, hknown⟩ := hcreates
          obtain ⟨m', hs'⟩ := hknown hfit
          rw [hrun]
          refine ⟨.create hM hcoh.valid.start ?_ ?_ (fun r hr => Or.inr (hregions r hr).2) hmem,
            fun r hr => (hregions r hr).1, m', hs'⟩
          · rw [hhdr]
            exact Nat.add_le_add_left hle _
          · rw [hhdr, ← htotal]
            exact hend
        · rename_i hge
          rw [hcreates]
          refine ⟨rfl, UInt64.toNat_inj.mp ?_⟩
          show size.toNat = 0
          dsimp only at hge hend
          omega
    · obtain ⟨s', hrun, hs', hregions⟩ := h.call_refused hname hM hf henters size
      rw [hrun]
      exact ⟨.noMemory hM, hregions, m, hs'⟩

theorem Known.good (h : Known hash s m M) (hname : ValidName name)
    (hharm : Harmless hash s name size) : Good hash s M name size :=
  (h.call hname hharm).mono (fun _ he => he) fun _ ⟨hright, hregions, _, hs'⟩ =>
    ⟨hright, hs'.unlocked, hregions, hs'.maps⟩

/-- A sum that is cut to one inside the segment makes the call go wrong. -/
theorem Known.harmless_of_good (h : Known hash s m M) (hname : ValidName name)
    (hindex : Absent hash s name → IndexFits s) (hgood : Good hash s M name size) :
    Harmless hash s name size := by
  intro habsent
  have hf := hindex habsent
  refine ⟨hf, fun henters => ?_⟩
  by_contra hnot
  have hM := (h.absent_iff hname).mp habsent
  have hcoh := (coherent_index h.coherent h.inShmem.memAlloc hf henters).1
  have htotal := hcoh.valid.total_lt
  have hbounded := hcoh.valid.bounded
  obtain ⟨hge, hcut⟩ := not_or.mp hnot
  have halloc := shmemAlloc_eq (hdrAfterIndex s) size
  rw [if_pos (Nat.not_lt.mp hcut)] at halloc
  have hcreates := h.call_creates hname hM hf henters halloc
  unfold Good at hgood
  split at hcreates
  · obtain ⟨s', hrun, hhdr, -⟩ := hcreates
    rw [hrun] at hgood
    obtain ⟨hright, -⟩ := hgood
    cases hright with
    | create _ _ hend _ _ _ =>
      dsimp only at hend
      rw [hhdr] at hend
      dsimp only at hend
      have hlt := alignUp_lt (by decide : 0 < 16) size.toNat
      omega
  · rw [hcreates] at hgood
    obtain ⟨-, rfl⟩ := hgood
    refine hge ?_
    show (hdrAfterIndex s).freeOffset + 0 < 2 ^ 32
    omega

end PostgresV7.Shmem
