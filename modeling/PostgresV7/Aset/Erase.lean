import PostgresV7.Aset.Debug
import PostgresV7.Lib.Outcomes

/-!
# Without the debug symbols

Requested sizes, bytes and notices decide nothing: what every call does to the headers
and returns is what the same call does without them.
-/

namespace PostgresV7.Aset.Debug

open Regions Outcomes

variable {M : Libc} {s s' : Image} {α β γ : Type}

/-- A result without what the debug symbols add. -/
def erase (f : α → β) : Result α → Except Fault β
  | .ok a => .ok (f a)
  | .error e => .error e.1

def headers (r : Nat × Image) : Nat × State := (r.1, r.2.st)

theorem erase_bind {f : α → β} {g : γ → β} {x : Result α} {k : α → Result γ} {k' : β → Except Fault β}
    (h : ∀ a, erase g (k a) = k' (f a)) : erase g (x >>= k) = erase f x >>= k' := by
  cases x with
  | ok a => exact h a
  | error e => rfl

/-- What holds of a result without the debug symbols holds with them. -/
theorem ends_of_erase {allowed : Fault → Prop} {f : α → β} {P : β → Prop} {x : Result α}
    (h : Ends allowed (erase f x) P) : Ends (fun e => allowed e.1) x fun a => P (f a) := by
  cases x with
  | ok a => exact h
  | error e => exact h

/-! ## Requests -/

theorem malloc_erase (s : Image) (n : Nat) :
    (s.malloc M n).1 = (s.st.mem.heap.alloc M.allocator n).1 ∧
      (s.malloc M n).2.st = { s.st with mem := { s.st.mem with
        heap := (s.st.mem.heap.alloc M.allocator n).2 } } := by
  unfold Image.malloc
  rcases s.st.mem.heap.alloc M.allocator n with ⟨_ | p, heap⟩
  · exact ⟨rfl, rfl⟩
  · exact ⟨rfl, rfl⟩

theorem mallocBlock_erase (required k blkSize : Nat) (s : Image) :
    (mallocBlock M required k blkSize s).1 =
        (Aset.mallocBlock M.allocator required k blkSize s.st.mem.heap).1 ∧
      (mallocBlock M required k blkSize s).2.st = { s.st with mem := { s.st.mem with
        heap := (Aset.mallocBlock M.allocator required k blkSize s.st.mem.heap).2 } } := by
  induction k generalizing blkSize s with
  | zero =>
    obtain ⟨h1, h2⟩ := malloc_erase (M := M) s blkSize
    unfold mallocBlock Aset.mallocBlock
    rcases ha : s.malloc M blkSize with ⟨_ | p, s₁⟩ <;>
      rcases hb : s.st.mem.heap.alloc M.allocator blkSize with ⟨_ | q, heap⟩ <;>
      rw [ha, hb] at h1 h2
    · exact ⟨rfl, h2⟩
    · cases h1
    · cases h1
    · obtain rfl := Option.some.inj h1
      exact ⟨rfl, h2⟩
  | succ k ih =>
    obtain ⟨h1, h2⟩ := malloc_erase (M := M) s blkSize
    unfold mallocBlock Aset.mallocBlock
    rcases ha : s.malloc M blkSize with ⟨_ | p, s₁⟩ <;>
      rcases hb : s.st.mem.heap.alloc M.allocator blkSize with ⟨_ | q, heap⟩ <;>
      rw [ha, hb] at h1 h2
    · obtain ⟨h3, h4⟩ := ih (blkSize >>> 1) s₁
      rw [h2] at h3 h4
      dsimp only
      split
      · split
        · exact ⟨rfl, h2⟩
        · exact ⟨h3, h4⟩
      · exact ⟨rfl, h2⟩
    · cases h1
    · cases h1
    · obtain rfl := Option.some.inj h1
      exact ⟨rfl, h2⟩

/-! ## `alloc_set_context_create` -/

theorem allocSetContextCreate_erase (s : Image) (self minContextSize initBlockSize maxBlockSize : Nat) :
    erase Image.st (allocSetContextCreate M s self minContextSize initBlockSize maxBlockSize) =
      Aset.allocSetContextCreate M.allocator s.st.mem self minContextSize initBlockSize maxBlockSize := by
  unfold allocSetContextCreate Aset.allocSetContextCreate
  dsimp only
  split
  · obtain ⟨h1, h2⟩ := malloc_erase (M := M) s (maxAlign minContextSize)
    rcases ha : s.malloc M (maxAlign minContextSize) with ⟨_ | p, s₁⟩ <;>
      rcases hb : s.st.mem.heap.alloc M.allocator (maxAlign minContextSize) with ⟨_ | q, heap⟩ <;>
      rw [ha, hb] at h1 h2
    · rfl
    · cases h1
    · cases h1
    · obtain rfl := Option.some.inj h1
      unfold Image.onSet erase
      dsimp only at h2 ⊢
      rw [h2]
      rfl
  · rfl

/-! ## `alloc_set_alloc` -/

theorem carveBlock_erase (b k avail : Nat) (s : Image) :
    (carveBlock b k avail s).st = Aset.carveBlock b k avail s.st := by
  induction k generalizing avail s with
  | zero => rfl
  | succ k ih =>
    unfold carveBlock Aset.carveBlock
    split
    · exact ih _ _
    · rfl

theorem newBlock_erase (s : Image) (chunkSize : Nat) :
    erase Image.st (newBlock M s chunkSize) = Aset.newBlock M.allocator s.st chunkSize := by
  unfold newBlock Aset.newBlock
  dsimp only
  generalize (if newBlockSize s.st < chunkSize + ALLOC_BLOCK_HDR_SZ + ALLOC_CHUNK_HDR_SZ then
    chunkSize + ALLOC_BLOCK_HDR_SZ + ALLOC_CHUNK_HDR_SZ else newBlockSize s.st) = blkSize
  generalize chunkSize + ALLOC_BLOCK_HDR_SZ + ALLOC_CHUNK_HDR_SZ = required
  obtain ⟨h1, h2⟩ := mallocBlock_erase (M := M) required 64 blkSize s
  rcases ha : mallocBlock M required 64 blkSize s with ⟨_ | ⟨p, n⟩, s₁⟩ <;>
    rcases hb : Aset.mallocBlock M.allocator required 64 blkSize s.st.mem.heap with ⟨_ | ⟨q, m⟩, heap⟩ <;>
    rw [ha, hb] at h1 h2
  · rfl
  · cases h1
  · cases h1
  · obtain ⟨rfl, rfl⟩ := Prod.mk.inj (Option.some.inj h1)
    unfold Image.onSet erase
    dsimp only at h2 ⊢
    rw [h2]
    rfl

theorem allocFresh_erase (s : Image) (size chunkSize : Nat) :
    erase headers (allocFresh M s size chunkSize) = Aset.allocFresh M.allocator s.st chunkSize := by
  have hnew : ∀ s : Image,
      erase headers (newBlock M s chunkSize >>= fun s => .ok (placeChunk s size chunkSize)) =
        Aset.newBlock M.allocator s.st chunkSize >>= fun st => .ok (Aset.placeChunk st chunkSize) := by
    intro s
    rw [← newBlock_erase]
    cases newBlock M s chunkSize with
    | ok s₁ => rfl
    | error e => rfl
  unfold allocFresh Aset.allocFresh
  split
  · exact hnew s
  · dsimp only
    split
    · refine (hnew _).trans ?_
      rw [carveBlock_erase]
    · rfl

theorem allocLarge_erase (s : Image) (size : Nat) :
    erase headers (allocLarge M s size) = Aset.allocLarge M.allocator s.st size := by
  unfold allocLarge Aset.allocLarge
  dsimp only
  generalize maxAlign size = n
  obtain ⟨h1, h2⟩ := malloc_erase (M := M) s (n + ALLOC_BLOCK_HDR_SZ + ALLOC_CHUNK_HDR_SZ)
  rcases ha : s.malloc M (n + ALLOC_BLOCK_HDR_SZ + ALLOC_CHUNK_HDR_SZ) with ⟨_ | p, s₁⟩ <;>
    rcases hb : s.st.mem.heap.alloc M.allocator (n + ALLOC_BLOCK_HDR_SZ + ALLOC_CHUNK_HDR_SZ) with
      ⟨_ | q, heap⟩ <;>
    rw [ha, hb] at h1 h2
  · rfl
  · cases h1
  · cases h1
  · obtain rfl := Option.some.inj h1
    unfold Image.onSet Image.mark erase headers
    dsimp only at h2 ⊢
    rw [h2]
    rfl

theorem allocSetAlloc_erase (s : Image) (size : Nat) :
    erase headers (allocSetAlloc M s size) = Aset.allocSetAlloc M.allocator s.st size := by
  unfold allocSetAlloc Aset.allocSetAlloc
  split
  · exact allocLarge_erase s size
  · dsimp only
    rcases findChunk s.st.mem size FUEL 0 (s.st.set.freelist (allocSetFreeIndex size)) with
      e | ⟨priorFree, chunk⟩
    · rfl
    · show erase headers (if chunk ≠ 0 then _ else _) = if chunk ≠ 0 then _ else _
      split
      · rfl
      · exact allocFresh_erase s size _

/-! ## `alloc_set_free` and `alloc_set_realloc` -/

theorem checkEnd_st (s : Image) (pointer : Nat) : (s.checkEnd pointer).st = s.st := by
  unfold Image.checkEnd
  dsimp only
  split <;> rfl

theorem allocSetFree_erase (s : Image) (pointer : Nat) :
    erase Image.st (allocSetFree s pointer) = Aset.allocSetFree s.st pointer := by
  unfold allocSetFree Aset.allocSetFree
  dsimp only
  rw [checkEnd_st]
  split
  · rcases findBlock s.st.mem (pointer - ALLOC_CHUNK_HDR_SZ) FUEL 0 s.st.set.blocks with
      e | ⟨prevBlock, block⟩
    · rfl
    · show Except.ok (((s.checkEnd pointer).st.setNext prevBlock
        ((s.checkEnd pointer).st.mem.next block)).freeBlock block) = _
      rw [checkEnd_st]
      rfl
  · show Except.ok (State.setFreelist { (s.checkEnd pointer).st with mem := { (s.checkEnd pointer).st.mem with
      aset := Function.update (s.checkEnd pointer).st.mem.aset _ _ } } _ _) = _
    rw [checkEnd_st]

theorem realloc_erase (s : Image) (p n : Nat) :
    (s.realloc M p n).1 = (s.st.mem.heap.realloc M.allocator p n).1 ∧
      (s.realloc M p n).2.st = { s.st with mem := { s.st.mem with
        heap := (s.st.mem.heap.realloc M.allocator p n).2 } } := by
  unfold Image.realloc
  rcases s.st.mem.heap.realloc M.allocator p n with ⟨_ | q, heap⟩
  · exact ⟨rfl, rfl⟩
  · exact ⟨rfl, rfl⟩

theorem reallocLarge_erase (s : Image) (chunk size : Nat) :
    erase headers (reallocLarge M s chunk size) = Aset.reallocLarge M.allocator s.st chunk size := by
  unfold reallocLarge Aset.reallocLarge
  rcases findBlock s.st.mem chunk FUEL 0 s.st.set.blocks with e | ⟨prevBlock, block⟩
  · rfl
  · have hsearch : search s (.ok (prevBlock, block)) = .ok (prevBlock, block) := rfl
    rw [hsearch, ok_bind, ok_bind]
    dsimp only
    generalize maxAlign size = n
    obtain ⟨h1, h2⟩ := realloc_erase (M := M) s block (n + ALLOC_BLOCK_HDR_SZ + ALLOC_CHUNK_HDR_SZ)
    rcases ha : s.realloc M block (n + ALLOC_BLOCK_HDR_SZ + ALLOC_CHUNK_HDR_SZ) with ⟨_ | p, s₁⟩ <;>
      rcases hb : s.st.mem.heap.realloc M.allocator block (n + ALLOC_BLOCK_HDR_SZ + ALLOC_CHUNK_HDR_SZ) with
        ⟨_ | q, heap⟩ <;>
      rw [ha, hb] at h1 h2
    · rfl
    · cases h1
    · cases h1
    · obtain rfl := Option.some.inj h1
      unfold Image.onSet Image.mark erase headers
      dsimp only at h2 ⊢
      rw [h2]
      rfl

theorem allocSetRealloc_erase (s : Image) (pointer size : Nat) :
    erase headers (allocSetRealloc M s pointer size) =
      Aset.allocSetRealloc M.allocator s.st pointer size := by
  have hst := checkEnd_st s pointer
  unfold allocSetRealloc Aset.allocSetRealloc
  dsimp only
  generalize s.checkEnd pointer = s₁ at hst ⊢
  rw [← hst]
  split
  · rfl
  · split
    · exact reallocLarge_erase s₁ _ size
    · cases growth s₁.st (pointer - ALLOC_CHUNK_HDR_SZ) size with
      | some delta => rfl
      | none =>
        dsimp only
        rw [← allocSetAlloc_erase]
        refine erase_bind fun r => ?_
        show _ = Aset.allocSetFree (r.2.memcpy r.1 pointer
          (s₁.st.mem.size (pointer - ALLOC_CHUNK_HDR_SZ))).st pointer >>= fun st => .ok (r.1, st)
        rw [← allocSetFree_erase]
        generalize allocSetFree (r.2.memcpy r.1 pointer (s₁.st.mem.size (pointer - ALLOC_CHUNK_HDR_SZ)))
          pointer = x
        cases x <;> rfl

/-! ## `alloc_set_reset` and `alloc_set_delete` -/

theorem resetBlocks_erase (k block : Nat) (s : Image) :
    erase Image.st (resetBlocks k block s) = Aset.resetBlocks k block s.st := by
  induction k generalizing block s with
  | zero =>
    unfold resetBlocks Aset.resetBlocks
    split <;> rfl
  | succ k ih =>
    unfold resetBlocks Aset.resetBlocks
    split
    · rfl
    · dsimp only
      split
      · exact ih _ _
      · exact ih _ _

theorem deleteBlocks_erase (k block : Nat) (s : Image) :
    erase Image.st (deleteBlocks k block s) = Aset.deleteBlocks k block s.st := by
  induction k generalizing block s with
  | zero =>
    unfold deleteBlocks Aset.deleteBlocks
    split <;> rfl
  | succ k ih =>
    unfold deleteBlocks Aset.deleteBlocks
    split
    · rfl
    · exact ih _ _

/-- Where the check of the set ends. -/
theorem allocSetReset_erase (s : Image) {notices : List Notice} (h : allocSetCheck s = .ok notices) :
    erase Image.st (allocSetReset s) = Aset.allocSetReset s.st := by
  unfold allocSetReset
  rw [h]
  exact resetBlocks_erase _ _ _

theorem allocSetDelete_erase (s : Image) {notices : List Notice} (h : allocSetCheck s = .ok notices) :
    erase Image.st (allocSetDelete s) = Aset.allocSetDelete s.st := by
  unfold allocSetDelete
  rw [h]
  exact deleteBlocks_erase _ _ _

end PostgresV7.Aset.Debug
