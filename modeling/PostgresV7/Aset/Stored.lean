import PostgresV7.Aset.Erase
import PostgresV7.Aset.Realloc

/-!
# The sizes in chunk headers

A small request gets a chunk no free list is too small for; a large one gets a chunk of
its own size, rounded up.
-/

namespace PostgresV7.Aset

open Regions Chains Tilings Outcomes

variable {A : Allocator} {st st' : State} {L : Layout} {b c : Nat}

/-- The size in the header of a chunk that was made for a request. -/
structure Stored (size stored : Nat) : Prop where
  small : size ≤ ALLOC_CHUNK_LIMIT → stored ≤ ALLOC_CHUNK_LIMIT
  large : ALLOC_CHUNK_LIMIT < size → stored = maxAlign size

theorem Stored.of_small {size stored : Nat} (h : size ≤ ALLOC_CHUNK_LIMIT) (hs : Small stored) :
    Stored size stored :=
  ⟨fun _ => hs.le.2.1, fun hbig => absurd h (Nat.not_le.mpr hbig)⟩

theorem Stored.of_large {size : Nat} (h : ALLOC_CHUNK_LIMIT < size) : Stored size (maxAlign size) :=
  ⟨fun hs => absurd hs (Nat.not_le.mpr h), fun _ => rfl⟩

/-- Rounding up twice is rounding up once. -/
theorem maxAlign_eq_of_le {m n : Nat} (hn : n ≤ MAX_ALLOC_SIZE) (hm : m ≤ n) (hle : n ≤ maxAlign m) :
    maxAlign n = maxAlign m := by
  unfold MAX_ALLOC_SIZE at hn
  have hlt := maxAlign_lt (n := m) (by omega)
  have hle' := le_maxAlign (n := n) (by omega)
  have hlt' := maxAlign_lt (n := n) (by omega)
  obtain ⟨k, hk⟩ := dvd_maxAlign m
  obtain ⟨l, hl⟩ := dvd_maxAlign n
  omega

/-- The size in the header is still that of the largest request after one that was within
the size there was. -/
theorem Stored.within {peak size stored : Nat} (h : Stored peak stored)
    (hv : size ≤ MAX_ALLOC_SIZE) (hs : size ≤ stored) : Stored (max peak size) stored := by
  constructor
  · intro hsmall
    exact h.small (Nat.le_trans (Nat.le_max_left peak size) hsmall)
  · intro hbig
    by_cases hpeak : ALLOC_CHUNK_LIMIT < peak
    · have hstored := h.large hpeak
      by_cases hps : peak ≤ size
      · rw [Nat.max_eq_right hps, hstored]
        exact (maxAlign_eq_of_le hv hps (hstored ▸ hs)).symm
      · rw [Nat.max_eq_left (by omega)]
        exact hstored
    · have hsmall := h.small (Nat.not_lt.mp hpeak)
      omega

/-- The size in the header of the chunk behind a pointer. -/
def State.chunkSize (st : State) (pointer : Nat) : Nat := st.mem.size (pointer - ALLOC_CHUNK_HDR_SZ)

theorem placeChunk_size (st : State) (n : Nat) : (placeChunk st n).2.chunkSize (placeChunk st n).1 = n := by
  unfold State.chunkSize placeChunk
  dsimp only
  rw [Nat.add_sub_cancel]
  exact Function.update_self _ _ _

theorem allocLarge_size (st : State) (size : Nat) :
    Ends (fun _ => True) (allocLarge A st size) fun r => r.2.chunkSize r.1 = maxAlign size := by
  unfold allocLarge
  dsimp only
  rcases st.mem.heap.alloc A (maxAlign size + ALLOC_BLOCK_HDR_SZ + ALLOC_CHUNK_HDR_SZ) with ⟨_ | p, heap⟩
  · trivial
  · obtain ⟨-, -, hsize, -⟩ := tuckBlock_fields (st.fillBlock p (maxAlign size) heap) p
    unfold State.chunkSize Ends
    dsimp only
    rw [Nat.add_sub_cancel, hsize]
    exact Function.update_self _ _ _

theorem allocFresh_size (st : State) (n : Nat) :
    Ends (fun _ => True) (allocFresh A st n) fun r => r.2.chunkSize r.1 = n := by
  have hnew : ∀ st₁, Ends (fun _ => True) (newBlock A st₁ n >>= fun st => .ok (placeChunk st n))
      fun r => r.2.chunkSize r.1 = n :=
    fun st₁ => (ends_ran (newBlock A st₁ n)).bind fun st₂ _ => placeChunk_size st₂ n
  unfold allocFresh
  split
  · exact hnew st
  · dsimp only
    split
    · exact hnew _
    · exact placeChunk_size st n

/-- A free list has chunks of one size, and whatever else is handed out is new. -/
theorem allocSetAlloc_stored (h : Shape st L) {size : Nat} (h0 : 0 < size) :
    Ends (fun _ => True) (allocSetAlloc A st size) fun r => Stored size (r.2.chunkSize r.1) := by
  unfold allocSetAlloc
  split
  · rename_i hbig
    refine (allocLarge_size st size).mono (fun _ _ => trivial) fun r hr => ?_
    rw [hr]
    exact .of_large hbig
  · rename_i hle
    have hle := Nat.not_lt.mp hle
    have hidx : allocSetFreeIndex size < ALLOC_SET_NUM_FREELISTS := freeIndex_lt size h0 hle
    have hfit := (freeIndex_spec size h0 (Nat.le_trans hle (by decide))).1
    dsimp only
    rcases findChunk_spec h hidx hfit FUEL with ⟨-, hfind⟩ | ⟨c, rest, hfree, hc0, hfind⟩
    · rw [hfind]
      refine (allocFresh_size st (1 <<< (allocSetFreeIndex size + ALLOC_MIN_BITS))).mono
        (fun _ _ => trivial) fun r hr => ?_
      rw [hr, Nat.one_shiftLeft]
      exact .of_small hle ⟨_, hidx, rfl⟩
    · rw [hfind]
      show Ends _ (if c ≠ 0 then _ else _) _
      rw [if_pos hc0]
      have hsize : (takeChunk st (allocSetFreeIndex size) 0 c).mem.size = st.mem.size := rfl
      unfold State.chunkSize Ends
      dsimp only
      rw [Nat.add_sub_cancel, hsize, h.sizes _ hidx c (hfree ▸ List.mem_cons_self)]
      exact .of_small hle ⟨_, hidx, rfl⟩

theorem setNext_size (st : State) (prev block : Nat) : (st.setNext prev block).mem.size = st.mem.size := by
  unfold State.setNext
  split <;> rfl

theorem allocSetFree_size (st : State) (pointer : Nat) :
    Ends (fun _ => True) (allocSetFree st pointer) fun st' => st'.mem.size = st.mem.size := by
  unfold allocSetFree
  dsimp only
  split
  · refine (ends_ran _).bind fun r _ => ?_
    exact setNext_size st r.1 (st.mem.next r.2)
  · rfl

theorem reallocLarge_size (st : State) (chunk size : Nat) :
    Ends (fun _ => True) (reallocLarge A st chunk size) fun r => r.2.chunkSize r.1 = maxAlign size := by
  unfold reallocLarge
  refine (ends_ran _).bind fun r _ => ?_
  dsimp only
  rcases st.mem.heap.realloc A r.2 (maxAlign size + ALLOC_BLOCK_HDR_SZ + ALLOC_CHUNK_HDR_SZ) with ⟨_ | q, heap⟩
  · trivial
  · unfold State.chunkSize Ends
    dsimp only
    rw [Nat.add_sub_cancel, setNext_size]
    exact Function.update_self _ _ _

/-- A chunk that is large enough keeps its size; otherwise what is handed out is made for
the new request. -/
theorem allocSetRealloc_stored (h : Shape st L) (hc : L.Used c) {size : Nat} (h0 : 0 < size) :
    Ends (fun _ => True) (allocSetRealloc A st (c + ALLOC_CHUNK_HDR_SZ) size) fun r =>
      size ≤ st.mem.size c ∧ r.2.chunkSize r.1 = st.mem.size c ∨
        st.mem.size c < size ∧ Stored size (r.2.chunkSize r.1) := by
  unfold allocSetRealloc
  dsimp only
  rw [Nat.add_sub_cancel]
  split
  · rename_i hge
    left
    refine ⟨hge, ?_⟩
    unfold State.chunkSize
    rw [Nat.add_sub_cancel]
  rename_i hgt
  have hgt := Nat.not_le.mp hgt
  split
  · rename_i hbig
    refine (reallocLarge_size st c size).mono (fun _ _ => trivial) fun r hr => Or.inr ⟨hgt, ?_⟩
    rw [hr]
    exact .of_large (Nat.lt_trans hbig hgt)
  split
  · rename_i delta hg
    obtain ⟨-, -, -, -, hsmall, -⟩ := growth_some h hc.1 hgt hg
    have hle : size ≤ ALLOC_CHUNK_LIMIT := by
      unfold growth at hg
      dsimp only at hg
      split at hg
      · rename_i hlast
        exact hlast.1
      · cases hg
    refine Or.inr ⟨hgt, ?_⟩
    unfold State.chunkSize
    dsimp only
    rw [Nat.add_sub_cancel, Function.update_self]
    exact .of_small hle hsmall
  · refine (allocSetAlloc_stored (A := A) h h0).bind fun r hr => ?_
    refine (allocSetFree_size r.2 (c + ALLOC_CHUNK_HDR_SZ)).bind fun st₂ h₂ => Or.inr ⟨hgt, ?_⟩
    unfold State.chunkSize at hr ⊢
    dsimp only
    rwa [h₂]

namespace Debug

variable {M : Libc} {s : Image} {size : Nat}

theorem allocSetAlloc_stored (h : Shape s.st L) (h0 : 0 < size) :
    Ends (fun _ => True) (allocSetAlloc M s size) fun r => Stored size (r.2.st.chunkSize r.1) := by
  have hbase := Aset.allocSetAlloc_stored (A := M.allocator) h h0
  rw [← allocSetAlloc_erase] at hbase
  exact ends_of_erase hbase

theorem allocSetRealloc_stored (h : Shape s.st L) (hc : L.Used c) (h0 : 0 < size) :
    Ends (fun _ => True) (allocSetRealloc M s (c + ALLOC_CHUNK_HDR_SZ) size) fun r =>
      size ≤ s.st.mem.size c ∧ r.2.st.chunkSize r.1 = s.st.mem.size c ∨
        s.st.mem.size c < size ∧ Stored size (r.2.st.chunkSize r.1) := by
  have hbase := Aset.allocSetRealloc_stored (A := M.allocator) h hc h0
  rw [← allocSetRealloc_erase] at hbase
  exact ends_of_erase hbase

end Debug

end PostgresV7.Aset
