import PostgresV7.Aset.MarkedRealloc

/-!
# `alloc_set_check` finds nothing

Every test of `alloc_set_check` is one part of the invariant, so between two calls the
walk over all chunks of all blocks ends without a notice.
-/

namespace PostgresV7.Aset.Debug

open Regions Chains Tilings

variable {s : Image} {L : Layout} {b c : Nat}

/-- The bytes of a block that are in use. -/
def blkUsed (s : Image) (b : Nat) : Int := s.st.mem.freeptr b - (b + ALLOC_BLOCK_HDR_SZ : Nat)

/-- A chunk passes all tests, in use or free. -/
theorem checkChunk_nil (h : Sane s L) (hb : b ∈ L.blocks) (hc : c ∈ L.chunks b) :
    checkChunk s b (blkUsed s b) c = [] := by
  have hshape := h.marked.shape
  have hblock := hshape.block b hb
  have hcases : s.requested c = 0 ∨ Intact s c := by
    by_cases hfree : ∃ k < ALLOC_SET_NUM_FREELISTS, c ∈ L.free k
    · obtain ⟨k, hk, hm⟩ := hfree
      exact Or.inl (h.marked.free k hk c hm)
    · exact Or.inr (h.marked.used c ⟨⟨b, hb, hc⟩, fun k hk hm => hfree ⟨k, hk, hm⟩⟩ List.not_mem_nil)
  have hlim : ALLOC_CHUNK_LIMIT = 8192 := rfl
  have hsize : 16 ≤ s.st.mem.size c := by
    rcases hshape.chunk_kind ⟨b, hb, hc⟩ with hbig | hsmall
    · omega
    · exact hsmall.le.1
  have hreq : ¬ s.requested c > s.st.mem.size c := by
    rcases hcases with h0 | hin
    · omega
    · exact Nat.not_lt.mpr hin.le
  have hsingle : ¬ (s.st.mem.size c > ALLOC_CHUNK_LIMIT ∧
      ((s.st.mem.size c + ALLOC_CHUNK_HDR_SZ : Nat) : Int) ≠ blkUsed s b) := by
    intro hbad
    refine hbad.2 ?_
    have htiled := hblock.tiled
    rcases hblock.kind with ⟨c', hcs, -, -, -⟩ | hall
    · rw [hcs] at hc htiled
      obtain rfl := List.mem_singleton.mp hc
      obtain ⟨hstart, hend⟩ := htiled
      have hend : s.st.mem.freeptr b = c + ALLOC_CHUNK_HDR_SZ + s.st.mem.size c := hend
      unfold blkUsed
      omega
    · have hle := (hall c hc).le.2.1
      omega
  have hlink : ¬ (s.requested c > 0 ∧ s.st.mem.aset c ≠ s.st.set.self) := by
    rcases hcases with h0 | hin
    · omega
    · exact fun hbad => hbad.2 hin.own
  have hmark : ¬ (s.requested c > 0 ∧ s.requested c < s.st.mem.size c ∧
      s.bytes (c + (ALLOC_CHUNK_HDR_SZ + s.requested c)) ≠ 0x7E) := by
    rcases hcases with h0 | hin
    · omega
    · intro hbad
      refine hbad.2.2 ?_
      rw [← Nat.add_assoc]
      exact hin.marked hbad.2.1
  have hmin : ¬ s.st.mem.size c < 1 <<< ALLOC_MIN_BITS := Nat.not_lt.mpr hsize
  unfold checkChunk
  dsimp only
  rw [if_neg hreq, if_neg hmin, if_neg hsingle, if_neg hlink, if_neg hmark]
  rfl

/-- The walk over the chunks of a block counts all bytes in use. -/
theorem checkChunks_nil {k a : Nat} {cs : List Nat}
    (htiled : Tiled ALLOC_CHUNK_HDR_SZ s.st.mem.size a cs (s.st.mem.freeptr b)) (hk : cs.length ≤ k)
    (hcs : ∀ c ∈ cs, checkChunk s b (blkUsed s b) c = []) (blkData nchunks : Nat) :
    ∃ data n, checkChunks s b (blkUsed s b) k a blkData nchunks =
        .ok ([], blkData + data, nchunks + n) ∧
      a + data + n * ALLOC_CHUNK_HDR_SZ = s.st.mem.freeptr b := by
  induction cs generalizing k a blkData nchunks with
  | nil =>
    have hend : s.st.mem.freeptr b = a := htiled
    refine ⟨0, 0, ?_, ?_⟩
    · unfold checkChunks
      exact if_neg (by omega)
    · omega
  | cons c cs ih =>
    obtain ⟨rfl, hrest⟩ := htiled
    have hlen := hrest.length_le
    cases k with
    | zero => exact absurd hk (Nat.not_succ_le_zero _)
    | succ k =>
      obtain ⟨data, n, hrun, hsum⟩ := ih hrest (Nat.le_of_succ_le_succ hk)
        (fun c' hc' => hcs c' (List.mem_cons_of_mem c hc')) (blkData + s.st.mem.size c) (nchunks + 1)
      refine ⟨s.st.mem.size c + data, n + 1, ?_, ?_⟩
      · unfold checkChunks
        have hlt : c < s.st.mem.freeptr b := by
          unfold ALLOC_CHUNK_HDR_SZ at hlen
          omega
        rw [if_pos hlt]
        dsimp only
        rw [← Nat.add_assoc, hrun, hcs c List.mem_cons_self, Nat.add_assoc, Nat.add_assoc,
          Nat.add_comm 1 n]
        rfl
      · rw [Nat.succ_mul]
        omega

theorem checkBlock_nil (h : Sane s L) (hb : b ∈ L.blocks) : checkBlock s b = .ok [] := by
  have hblock := h.marked.shape.block b hb
  have hlen := hblock.tiled.length_le
  have hbelow := hblock.below
  have hfree := hblock.free_le
  have hstart := hblock.start_le
  have hfuel : (L.chunks b).length ≤ FUEL := by
    unfold ALLOC_CHUNK_HDR_SZ at hlen
    unfold FUEL
    omega
  obtain ⟨data, n, hrun, hsum⟩ := checkChunks_nil hblock.tiled hfuel
    (fun c hc => checkChunk_nil h hb hc) 0 0
  have hempty : ¬ (blkUsed s b = 0 ∧ s.st.set.keeper ≠ b) := by
    intro hbad
    refine hbad.2 ?_
    have hnil : L.chunks b = [] := by
      have hused := hbad.1
      unfold blkUsed at hused
      refine List.eq_nil_of_length_eq_zero ?_
      unfold ALLOC_CHUNK_HDR_SZ at hlen
      omega
    exact ((h.filled b hb hnil).resolve_right List.not_mem_nil).symm
  have hsame : ¬ (((0 + data + (0 + n) * ALLOC_CHUNK_HDR_SZ : Nat) : Int) ≠ blkUsed s b) := by
    intro hbad
    refine hbad ?_
    unfold blkUsed
    rw [Nat.zero_add, Nat.zero_add]
    omega
  unfold checkBlock
  dsimp only
  unfold blkUsed at hrun hempty hsame
  rw [hrun]
  show Except.ok ((if _ then _ else _) ++ _ ++ if _ then _ else _) = _
  rw [if_neg hempty, if_neg hsame]
  rfl

theorem checkBlocks_nil (h : Sane s L) {k x : Nat} {bs : List Nat} (hl : Linked id 0 s.st.mem.next x bs)
    (hk : bs.length ≤ k) (hbs : ∀ b ∈ bs, b ∈ L.blocks) : checkBlocks s k x = .ok [] := by
  induction bs generalizing k x with
  | nil =>
    unfold checkBlocks
    exact if_pos hl
  | cons b bs ih =>
    obtain ⟨rfl, hx, hrest⟩ := hl
    cases k with
    | zero => exact absurd hk (Nat.not_succ_le_zero _)
    | succ k =>
      have hlater : checkBlocks s k (s.st.mem.next x) = .ok [] :=
        ih (chain_iff_linked.mp hrest) (Nat.le_of_succ_le_succ hk)
          fun b hb => hbs b (List.mem_cons_of_mem x hb)
      unfold checkBlocks
      rw [if_neg hx]
      dsimp only
      rw [checkBlock_nil h (hbs x List.mem_cons_self), hlater]
      rfl

/-- No notice between two calls. -/
theorem allocSetCheck_nil (h : Sane s L) : allocSetCheck s = .ok [] :=
  checkBlocks_nil h h.marked.shape.linked h.marked.shape.length_le fun _ hb => hb

end PostgresV7.Aset.Debug
