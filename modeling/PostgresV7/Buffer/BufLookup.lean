import PostgresV7.Buffer.BufTable

/-!
# Looking up a buffer (`buf_table.c`)

The table only saves a search: it gives the buffer that a scan of the descriptors would give.
-/

namespace PostgresV7.Buffer

open Dynahash Shmem Regions Outcomes Runs

/-- `P_NEW`. -/
def P_NEW : BlockNumber := INVALID_BLOCK_NUMBER

/-- `buf_table_lookup`: the index of the descriptor. -/
def bufTableLookup (hash : BufferTag → Int) (A : Allocator) (tagPtr : BufferTag) (t : BufTable) :
    Except Fault (Option Int × BufTable) := do
  if tagPtr.blockNum = P_NEW then .ok (none, t)
  else
    let (result, found, hashp, world) ← hashSearch hash A t.hashp t.world tagPtr .HASH_FIND
    let t := { t with hashp := hashp, world := world }
    match result with
    | .element e => if found then .ok (some (t.ids e), t) else .ok (none, t)
    | _ => .ok (none, t)

/-- The first of `n` descriptors that has the tag and is not marked as deleted. -/
def scanDescriptors (descs : Descriptors) (n : Nat) (tag : BufferTag) : Option Int :=
  ((List.range n).map Int.ofNat).find? fun i => (descs i).tag = tag ∧ ¬ Has (descs i).flags BM_DELETED

variable {hash : BufferTag → Int} {A : Allocator} {n : Nat} {t : BufTable} {m : Dict BufferTag}

/-- No two buffers the table knows have one tag, so any scan finds the same. -/
theorem Known.unique (h : Known hash n t m) {i j : Int} (hi0 : 0 ≤ i) (hi : i < n) (hj0 : 0 ≤ j) (hj : j < n)
    (htag : (t.descs i).tag = (t.descs j).tag) (hci : ¬ Has (t.descs i).flags BM_DELETED)
    (hcj : ¬ Has (t.descs j).flags BM_DELETED) : i = j := by
  obtain ⟨e, he, rfl⟩ := h.entry i hi0 hi hci
  obtain ⟨e', he', rfl⟩ := h.entry j hj0 hj hcj
  rw [htag, he'] at he
  rw [Option.some.inj he]

theorem Known.scan_some (h : Known hash n t m) {tag : BufferTag} {e : Nat} (he : m.lookup tag = some e) :
    scanDescriptors t.descs n tag = some (t.ids e) := by
  obtain ⟨h0, hlt, htag, hclear⟩ := h.owner tag e he
  have hmem : t.ids e ∈ (List.range n).map Int.ofNat :=
    List.mem_map.mpr ⟨(t.ids e).toNat, List.mem_range.mpr (by omega), Int.toNat_of_nonneg h0⟩
  cases hscan : scanDescriptors t.descs n tag with
  | none => exact absurd (decide_eq_true ⟨htag, hclear⟩) (List.find?_eq_none.mp hscan _ hmem)
  | some i =>
    obtain ⟨k, hk, rfl⟩ := List.mem_map.mp (List.mem_of_find?_eq_some hscan)
    have hfound := List.find?_some hscan
    obtain ⟨htag', hclear'⟩ := of_decide_eq_true hfound
    exact congrArg some (h.unique (Int.natCast_nonneg k) (Int.ofNat_lt.mpr (List.mem_range.mp hk)) h0 hlt
      (htag'.trans htag.symm) hclear' hclear)

theorem Known.scan_none (h : Known hash n t m) {tag : BufferTag} (htag : tag ∉ m) :
    scanDescriptors t.descs n tag = none := by
  refine List.find?_eq_none.mpr fun i hi hdec => ?_
  obtain ⟨k, hk, rfl⟩ := List.mem_map.mp hi
  obtain ⟨rfl, hclear⟩ := of_decide_eq_true hdec
  obtain ⟨e, he, -⟩ := h.entry _ (Int.natCast_nonneg k) (Int.ofNat_lt.mpr (List.mem_range.mp hk)) hclear
  exact htag (Finmap.mem_iff.mpr ⟨e, he⟩)

/-- Looking for a key changes nothing. -/
theorem hashSearch_find {hashp hashp' : HashTable} {w w' : World BufferTag} {tag : BufferTag} {result : Result}
    {found : Bool} (h : hashSearch hash A hashp w tag .HASH_FIND = .ok (result, found, hashp', w')) : w' = w := by
  obtain ⟨p, -, hp⟩ := bind_eq_ok h
  exact congrArg (fun r => r.2.2.2) (Except.ok.inj hp).symm

theorem Known.bufTableLookup (h : Known hash n t m) (A : Allocator) (tag : BufferTag) :
    bufTableLookup hash A tag t =
      .ok (if tag.blockNum = P_NEW then none else scanDescriptors t.descs n tag, t) := by
  unfold Buffer.bufTableLookup
  by_cases hnew : tag.blockNum = P_NEW
  · rw [if_pos hnew, if_pos hnew]
  · rw [if_neg hnew, if_neg hnew]
    obtain ⟨result, found, w', m', hrun, -, -, hans⟩ := h.inShmem.search (A := A) h.represents tag .HASH_FIND
    obtain rfl := hashSearch_find hrun
    rw [hrun]
    cases hans with
    | hit hlook hne =>
      rw [h.scan_some hlook]
      rfl
    | miss hnot hne =>
      rw [h.scan_none hnot]
      rfl

/-- The first of two buffers can be entered. -/
theorem twoBuffers_run : ∃ hashp world t,
    initBufTable bumpAllocator directoryWorld 0 2 = .ok (some (hashp, world)) ∧
    Run (BufStep (fun _ => 0) bumpAllocator 2) ⟨twoBuffers, hashp, world, fun _ => 0⟩ [.insert 0 true] t := by
  obtain ⟨hashp, world, t, hinit, hinsert, -⟩ := twoBuffers_insert
  have hknown : Known (fun _ => 0) 2 ⟨twoBuffers, hashp, world, fun _ => 0⟩ ∅ :=
    Known.init (by decide) hinit _ _
  have hdel : Has (twoBuffers 0).flags BM_DELETED := by decide
  have hent : Enterable (fun _ => 0) bumpAllocator ⟨twoBuffers, hashp, world, fun _ => 0⟩ 0 := by
    by_contra hno
    obtain ⟨done, t', hinsert', -, hfails⟩ :=
      hknown.insert (A := bumpAllocator) (i := 0) (by decide) (by decide) hdel
    rw [hinsert] at hinsert'
    obtain ⟨rfl, -⟩ := Prod.mk.inj (Except.ok.inj hinsert')
    exact absurd (hfails hno).1 (by decide)
  exact ⟨hashp, world, t, hinit, .cons (.insert (by decide) (by decide) hdel hent hinsert) (.nil t)⟩

end PostgresV7.Buffer
