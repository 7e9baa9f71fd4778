import PostgresV7.Aset.Run

/-!
# What allocation sets do to the heap

The calls of a set change the heap by requests and by giving blocks back, so what
holds of every answer of the allocator goes on to hold of every region.
-/

namespace PostgresV7.Aset

open Regions Chains

variable {A : Allocator} {I : Region → Prop} {st st' : State}

/-- A property of all regions of the heap. -/
def Regional (I : Region → Prop) (st : State) : Prop := ∀ r ∈ st.mem.heap.regions, I r

section Requests

variable (hA : ∀ n rs size p, A.answer n rs size = some p → I ⟨p, size⟩)

include hA

theorem mallocBlock_regions (required k blkSize : Nat) {heap : Heap}
    (hI : ∀ r ∈ heap.regions, I r) :
    ∀ r ∈ (mallocBlock A required k blkSize heap).2.regions, I r := by
  induction k generalizing blkSize heap with
  | zero =>
    have halloc := Heap.alloc_all hA hI blkSize
    unfold mallocBlock
    cases ha : heap.alloc A blkSize with
    | mk r heap' =>
      rw [ha] at halloc
      cases r <;> exact halloc
  | succ k ih =>
    have halloc := Heap.alloc_all hA hI blkSize
    unfold mallocBlock
    cases ha : heap.alloc A blkSize with
    | mk r heap' =>
      rw [ha] at halloc
      cases r with
      | some p => exact halloc
      | none =>
        dsimp only
        split
        · split
          · exact halloc
          · exact ih _ halloc
        · exact halloc

theorem newBlock_regions {chunkSize : Nat} (hI : Regional I st)
    (hnew : newBlock A st chunkSize = .ok st') : Regional I st' := by
  unfold newBlock at hnew
  dsimp only at hnew
  generalize (if newBlockSize st < chunkSize + ALLOC_BLOCK_HDR_SZ + ALLOC_CHUNK_HDR_SZ then
    chunkSize + ALLOC_BLOCK_HDR_SZ + ALLOC_CHUNK_HDR_SZ else newBlockSize st) = blkSize at hnew
  have hmalloc := mallocBlock_regions hA (chunkSize + ALLOC_BLOCK_HDR_SZ + ALLOC_CHUNK_HDR_SZ) 64
    blkSize hI
  rcases hm : mallocBlock A (chunkSize + ALLOC_BLOCK_HDR_SZ + ALLOC_CHUNK_HDR_SZ) 64 blkSize
    st.mem.heap with ⟨_ | ⟨p, n⟩, heap⟩
  · rw [hm] at hnew
    cases hnew
  · rw [hm] at hnew hmalloc
    obtain rfl := Except.ok.inj hnew
    exact hmalloc

end Requests

theorem carveBlock_heap (block k avail : Nat) (st : State) :
    (carveBlock block k avail st).mem.heap = st.mem.heap := by
  induction k generalizing avail st with
  | zero => rfl
  | succ k ih =>
    unfold carveBlock
    split
    · exact ih _ _
    · rfl

section Requests

variable (hA : ∀ n rs size p, A.answer n rs size = some p → I ⟨p, size⟩)

include hA

theorem allocFresh_regions {chunkSize p : Nat} (hI : Regional I st)
    (hrun : allocFresh A st chunkSize = .ok (p, st')) : Regional I st' := by
  have hplace : ∀ st₀ : State, Regional I st₀ →
      (.ok (placeChunk st₀ chunkSize) : Except Fault (Nat × State)) = .ok (p, st') → Regional I st' := by
    intro st₀ h₀ he
    rw [← (Prod.mk.inj (Except.ok.inj he)).2]
    exact h₀
  have hnew : ∀ st₀ : State, Regional I st₀ →
      (newBlock A st₀ chunkSize >>= fun st₁ => .ok (placeChunk st₁ chunkSize)) =
        Except.ok (p, st') → Regional I st' := by
    intro st₀ h₀ he
    cases hn : newBlock A st₀ chunkSize with
    | error e =>
      rw [hn] at he
      cases he
    | ok st₁ =>
      rw [hn] at he
      exact hplace st₁ (newBlock_regions hA h₀ hn) he
  unfold allocFresh at hrun
  split at hrun
  · exact hnew st hI hrun
  · dsimp only at hrun
    split at hrun
    · refine hnew _ ?_ hrun
      unfold Regional
      rw [carveBlock_heap]
      exact hI
    · exact hplace st hI hrun

theorem allocLarge_regions {size p : Nat} (hI : Regional I st)
    (hrun : allocLarge A st size = .ok (p, st')) : Regional I st' := by
  unfold allocLarge at hrun
  dsimp only at hrun
  have halloc := Heap.alloc_all hA hI (maxAlign size + ALLOC_BLOCK_HDR_SZ + ALLOC_CHUNK_HDR_SZ)
  rcases ha : st.mem.heap.alloc A (maxAlign size + ALLOC_BLOCK_HDR_SZ + ALLOC_CHUNK_HDR_SZ) with
    ⟨_ | b, heap⟩
  · rw [ha] at hrun
    cases hrun
  · rw [ha] at hrun halloc
    rw [← (Prod.mk.inj (Except.ok.inj hrun)).2]
    unfold State.tuckBlock
    split <;> exact halloc

theorem allocSetAlloc_regions {size p : Nat} (hI : Regional I st)
    (hrun : allocSetAlloc A st size = .ok (p, st')) : Regional I st' := by
  unfold allocSetAlloc at hrun
  split at hrun
  · exact allocLarge_regions hA hI hrun
  · dsimp only at hrun
    cases hf : findChunk st.mem size FUEL 0 (st.set.freelist (allocSetFreeIndex size)) with
    | error e =>
      rw [hf] at hrun
      cases hrun
    | ok r =>
      rw [hf] at hrun
      obtain ⟨priorFree, chunk⟩ := r
      dsimp only [bind, Except.bind] at hrun
      split at hrun
      · rw [← (Prod.mk.inj (Except.ok.inj hrun)).2]
        unfold takeChunk
        split <;> exact hI
      · exact allocFresh_regions hA hI hrun

theorem allocSetContextCreate_regions {mem : Memory} {self minContextSize initBlockSize maxBlockSize : Nat}
    (hI : ∀ r ∈ mem.heap.regions, I r)
    (hcreate : allocSetContextCreate A mem self minContextSize initBlockSize maxBlockSize = .ok st) :
    Regional I st := by
  unfold allocSetContextCreate at hcreate
  dsimp only at hcreate
  split at hcreate
  · have halloc := Heap.alloc_all hA hI (maxAlign minContextSize)
    rcases ha : mem.heap.alloc A (maxAlign minContextSize) with ⟨_ | p, heap⟩
    · rw [ha] at hcreate
      cases hcreate
    · rw [ha] at hcreate halloc
      obtain rfl := Except.ok.inj hcreate
      exact halloc
  · obtain rfl := Except.ok.inj hcreate
    exact hI

end Requests

theorem allocSetFree_regions {pointer : Nat} (hI : Regional I st)
    (hfree : allocSetFree st pointer = .ok st') : Regional I st' := by
  unfold allocSetFree at hfree
  dsimp only at hfree
  split at hfree
  · cases hf : findBlock st.mem (pointer - ALLOC_CHUNK_HDR_SZ) FUEL 0 st.set.blocks with
    | error e =>
      rw [hf] at hfree
      cases hfree
    | ok r =>
      rw [hf] at hfree
      obtain ⟨prevBlock, block⟩ := r
      obtain rfl := Except.ok.inj hfree
      refine Heap.release_all (h := (st.setNext prevBlock (st.mem.next block)).mem.heap) ?_ block
      unfold State.setNext
      split <;> exact hI
  · obtain rfl := Except.ok.inj hfree
    exact hI

theorem resetBlocks_regions (st : State) {k block : Nat} (hI : Regional I st)
    (hreset : resetBlocks k block st = .ok st') : Regional I st' := by
  induction k generalizing block st with
  | zero =>
    unfold resetBlocks at hreset
    split at hreset
    · obtain rfl := Except.ok.inj hreset
      exact hI
    · cases hreset
  | succ k ih =>
    unfold resetBlocks at hreset
    split at hreset
    · obtain rfl := Except.ok.inj hreset
      exact hI
    · dsimp only at hreset
      split at hreset
      · refine ih _ ?_ hreset
        exact hI
      · exact ih (st.freeBlock block) (Heap.release_all hI block) hreset

theorem allocSetReset_regions (hI : Regional I st) (hreset : allocSetReset st = .ok st') :
    Regional I st' :=
  resetBlocks_regions
    { st with set := { st.set with freelist := fun _ => 0, blocks := st.set.keeper } } hI hreset

/-! ## The list of blocks -/

/-- The blocks are on a list that ends. -/
def Listed (st : State) : Prop :=
  ∃ bs, Linked id 0 st.mem.next st.set.blocks bs ∧ bs.length ≤ FUEL

theorem Shape.listed {L : Layout} (h : Shape st L) : Listed st := ⟨L.blocks, h.linked, h.length_le⟩

theorem deleteBlocks_ok (st : State) {k x : Nat} {bs : List Nat} (h : Linked id 0 st.mem.next x bs)
    (hk : bs.length ≤ k) : ∃ st', deleteBlocks k x st = .ok st' := by
  induction bs generalizing k x st with
  | nil =>
    refine ⟨st, ?_⟩
    unfold deleteBlocks
    exact if_pos h
  | cons b bs ih =>
    obtain ⟨rfl, hx, hrest⟩ := h
    cases k with
    | zero => exact absurd hk (Nat.not_succ_le_zero _)
    | succ k =>
      unfold deleteBlocks
      rw [if_neg hx]
      exact ih (st.freeBlock x) (chain_iff_linked.mp hrest) (Nat.le_of_succ_le_succ hk)

/-- Deleting what a set has always ends. -/
theorem allocSetDelete_ok (h : Listed st) : ∃ st', allocSetDelete st = .ok st' := by
  obtain ⟨bs, hlinked, hlen⟩ := h
  exact deleteBlocks_ok { st with
    set := { st.set with freelist := fun _ => 0, blocks := 0, keeper := 0 } } hlinked hlen

/-- A set without blocks, or with its keeper alone. -/
def Fresh (st : State) : Prop :=
  st.set.blocks = st.set.keeper ∧ (st.set.keeper ≠ 0 → st.mem.next st.set.keeper = 0)

theorem Fresh.listed (h : Fresh st) : Listed st := by
  by_cases hk : st.set.keeper = 0
  · exact ⟨[], h.1.trans hk, Nat.zero_le _⟩
  · refine ⟨[st.set.keeper], ?_, Nat.one_le_two_pow⟩
    rw [h.1]
    refine Linked.cons ?_ hk
    exact h.2 hk

theorem allocSetContextCreate_fresh {mem : Memory} {self minContextSize initBlockSize maxBlockSize : Nat}
    (hcreate : allocSetContextCreate A mem self minContextSize initBlockSize maxBlockSize = .ok st) :
    Fresh st := by
  unfold allocSetContextCreate at hcreate
  dsimp only at hcreate
  split at hcreate
  · rcases ha : mem.heap.alloc A (maxAlign minContextSize) with ⟨_ | p, heap⟩
    · rw [ha] at hcreate
      cases hcreate
    · rw [ha] at hcreate
      obtain rfl := Except.ok.inj hcreate
      exact ⟨rfl, fun _ => Function.update_self _ _ _⟩
  · obtain rfl := Except.ok.inj hcreate
    exact ⟨rfl, fun hk => absurd rfl hk⟩

/-- A reset ends, and leaves a fresh set fresh. -/
theorem allocSetReset_fresh (h : Fresh st) : ∃ st', allocSetReset st = .ok st' ∧ Fresh st' := by
  obtain ⟨bs, hlinked, hlen⟩ := h.listed
  obtain ⟨st', hreset, hset, -, hin, -, -⟩ := resetBlocks_spec
    ({ st with set := { st.set with freelist := fun _ => 0, blocks := st.set.keeper } })
    hlinked hlen
  refine ⟨st', hreset, by rw [hset], fun hk => ?_⟩
  rw [hset] at hk ⊢
  have hmem : st.set.keeper ∈ bs := by
    cases bs with
    | nil => exact absurd (h.1.symm.trans hlinked) hk
    | cons b bs =>
      obtain ⟨hb, -, -⟩ := hlinked
      rw [← h.1, hb]
      exact List.mem_cons_self
  exact (hin hmem).1

end PostgresV7.Aset
