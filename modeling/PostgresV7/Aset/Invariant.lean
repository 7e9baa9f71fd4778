import Mathlib.Data.Finset.Card
import Mathlib.Tactic.Ring
import PostgresV7.Aset.Aset
import PostgresV7.Lib.Outcomes

/-!
# The shape of an allocation set

The blocks are regions of their own on one list. Chunks tile each block up to its
`freeptr`; free list `k` goes through chunks of `2 ^ (k + 4)` bytes.
-/

namespace PostgresV7.Aset

open Regions Chains Tilings

/-! ## `alloc_set_free_index` -/

theorem freeIndexLoop_spec {k : Nat} (idx size : Nat) (h : size < 2 ^ k) :
    ∃ j, freeIndexLoop k idx size = idx + j ∧ size < 2 ^ j ∧ (j = 0 ∨ 2 ^ j ≤ 2 * size) := by
  induction k generalizing idx size with
  | zero => exact ⟨0, rfl, h, Or.inl rfl⟩
  | succ k ih =>
    unfold freeIndexLoop
    by_cases h0 : size = 0
    · rw [if_neg (fun hn => hn h0)]
      exact ⟨0, rfl, by omega, Or.inl rfl⟩
    · rw [if_pos h0, Nat.shiftRight_one]
      rw [pow_succ] at h
      obtain ⟨j, hj, hlt, hle⟩ := ih (idx + 1) (size / 2) (by omega)
      refine ⟨j + 1, by rw [hj, Nat.add_right_comm, Nat.add_assoc], ?_, Or.inr ?_⟩
      · rw [pow_succ]
        omega
      · rw [pow_succ]
        rcases hle with rfl | hle <;> omega

/-- The least free list whose chunks are large enough. -/
theorem freeIndex_spec (size : Nat) (h0 : 0 < size) (h : size ≤ 2 ^ 64) :
    size ≤ 2 ^ (allocSetFreeIndex size + 4) ∧
      (allocSetFreeIndex size = 0 ∨ 2 ^ (allocSetFreeIndex size + 3) < size) := by
  unfold allocSetFreeIndex ALLOC_MIN_BITS
  rw [if_pos h0, Nat.shiftRight_eq_div_pow]
  obtain ⟨j, hj, hlt, hle⟩ := freeIndexLoop_spec (k := 64) 0 ((size - 1) / 2 ^ 4)
    (by omega)
  rw [hj, Nat.zero_add, pow_add, pow_add]
  omega

theorem freeIndex_lt (size : Nat) (h0 : 0 < size) (h : size ≤ ALLOC_CHUNK_LIMIT) :
    allocSetFreeIndex size < 10 := by
  have hlim : ALLOC_CHUNK_LIMIT = 2 ^ 13 := rfl
  rcases (freeIndex_spec size h0 (by omega)).2 with hz | hlt
  · omega
  · by_contra hge
    have hpow : 2 ^ 13 ≤ 2 ^ (allocSetFreeIndex size + 3) := Nat.pow_le_pow_right (by decide) (by omega)
    omega

theorem freeIndex_pow {k : Nat} (hk : k < 10) : allocSetFreeIndex (2 ^ (k + 4)) = k := by
  have hpos := Nat.two_pow_pos (k + 4)
  have hle : 2 ^ (k + 4) ≤ 2 ^ 64 := Nat.pow_le_pow_right (by decide) (by omega)
  obtain ⟨h1, h2⟩ := freeIndex_spec _ hpos hle
  have h3 := (Nat.pow_le_pow_iff_right (by decide)).mp h1
  rcases h2 with h2 | h2
  · omega
  · have h4 := (Nat.pow_lt_pow_iff_right (by decide)).mp h2
    omega

/-- What is carved off the rest of a block is a chunk for the free list it goes to,
and fits, but no larger one does. -/
theorem carveSize_spec (avail : Nat) (h : 48 ≤ avail) (hlt : avail ≤ ALLOC_CHUNK_LIMIT + 32) :
    ∃ k < 10, carveSize avail = (k, 2 ^ (k + 4)) ∧ 2 ^ (k + 4) + 32 ≤ avail ∧ avail < 2 ^ (k + 5) + 32 := by
  have hlim : ALLOC_CHUNK_LIMIT = 2 ^ 13 := rfl
  have hidx := freeIndex_lt (avail - 32) (by omega) (by omega)
  obtain ⟨h1, h2⟩ := freeIndex_spec (avail - 32) (by omega) (by omega)
  unfold carveSize ALLOC_MIN_BITS ALLOC_CHUNK_HDR_SZ
  dsimp only
  rw [Nat.one_shiftLeft, Nat.one_shiftLeft]
  generalize allocSetFreeIndex (avail - 32) = idx at hidx h1 h2
  split
  · rename_i hne
    have hpos : 0 < idx := by
      rcases Nat.eq_zero_or_pos idx with rfl | hpos
      · have h16 : (2 : Nat) ^ (0 + 4) = 16 := rfl
        rw [h16] at h1 hne
        omega
      · exact hpos
    have hpred : idx - 1 + 4 = idx + 3 := by omega
    have hpred' : idx - 1 + 5 = idx + 4 := by omega
    refine ⟨idx - 1, by omega, rfl, ?_, ?_⟩
    · rw [hpred]
      rcases h2 with rfl | h2 <;> omega
    · rw [hpred']
      omega
  · rename_i heq
    have heq := Decidable.not_not.mp heq
    refine ⟨idx, hidx, by rw [heq], by omega, ?_⟩
    rw [pow_succ 2 (idx + 4)]
    omega

/-! ## Blocks and chunks -/

/-- The blocks on their list, the chunks of each, and the chunks on each free list. -/
structure Layout where
  blocks : List Nat
  chunks : Nat → List Nat
  free : Nat → List Nat

/-- `c` is a chunk of some block. -/
def Layout.Chunk (L : Layout) (c : Nat) : Prop := ∃ b ∈ L.blocks, c ∈ L.chunks b

/-- A chunk a caller has. -/
def Layout.Used (L : Layout) (c : Nat) : Prop :=
  L.Chunk c ∧ ∀ k < ALLOC_SET_NUM_FREELISTS, c ∉ L.free k

/-- A chunk that fits one of the free lists. -/
def Small (size : Nat) : Prop := ∃ k < ALLOC_SET_NUM_FREELISTS, size = 2 ^ (k + 4)

theorem Small.le {size : Nat} (h : Small size) : 16 ≤ size ∧ size ≤ ALLOC_CHUNK_LIMIT ∧ 16 ∣ size := by
  obtain ⟨k, hk, rfl⟩ := h
  refine ⟨?_, ?_, ?_⟩
  · exact Nat.pow_le_pow_right (show 0 < 2 by decide) (show 4 ≤ k + 4 by omega)
  · exact Nat.pow_le_pow_right (show 0 < 2 by decide)
      (show k + 4 ≤ 13 by unfold ALLOC_SET_NUM_FREELISTS at hk; omega)
  · exact pow_dvd_pow 2 (show 4 ≤ k + 4 by omega)

def blockRegion (mem : Memory) (b : Nat) : Region := ⟨b, mem.endptr b - b⟩

/-- A block tiled by the chunks `cs`: one that is too large for the free lists, or
any number of small ones. -/
structure Block (mem : Memory) (b : Nat) (cs : List Nat) : Prop where
  pos : 0 < b
  dvd : 16 ∣ b
  tiled : Tiled ALLOC_CHUNK_HDR_SZ mem.size (b + ALLOC_BLOCK_HDR_SZ) cs (mem.freeptr b)
  free_le : mem.freeptr b ≤ mem.endptr b
  below : mem.endptr b < 2 ^ 63
  region : blockRegion mem b ∈ mem.heap.regions
  kind : (∃ c, cs = [c] ∧ ALLOC_CHUNK_LIMIT < mem.size c ∧ 16 ∣ mem.size c ∧
      mem.freeptr b = mem.endptr b) ∨ ∀ c ∈ cs, Small (mem.size c)

/-- The set has the layout `L`. -/
structure Shape (st : State) (L : Layout) : Prop where
  linked : Linked id 0 st.mem.next st.set.blocks L.blocks
  block : ∀ b ∈ L.blocks, Block st.mem b (L.chunks b)
  apart : ∀ b ∈ L.blocks, ∀ b' ∈ L.blocks, b ≠ b' →
    (blockRegion st.mem b).Apart (blockRegion st.mem b')
  keeper : st.set.keeper ≠ 0 → st.set.keeper ∈ L.blocks ∧
    ∀ c ∈ L.chunks st.set.keeper, Small (st.mem.size c)
  lists : ∀ k < ALLOC_SET_NUM_FREELISTS, Linked id 0 st.mem.aset (st.set.freelist k) (L.free k)
  sizes : ∀ k < ALLOC_SET_NUM_FREELISTS, ∀ c ∈ L.free k, st.mem.size c = 2 ^ (k + 4)
  member : ∀ k < ALLOC_SET_NUM_FREELISTS, ∀ c ∈ L.free k, L.Chunk c

variable {st : State} {L : Layout} {mem mem' : Memory} {b b' c c' : Nat} {cs : List Nat}

namespace Block

theorem inside (h : Block mem b cs) (hc : c ∈ cs) :
    b + 32 ≤ c ∧ c + 32 + mem.size c ≤ mem.freeptr b := h.tiled.inside hc

theorem start_le (h : Block mem b cs) : b + 32 ≤ mem.freeptr b := h.tiled.le

theorem size_dvd (h : Block mem b cs) (hc : c ∈ cs) : 16 ∣ mem.size c := by
  rcases h.kind with ⟨c', rfl, -, hdvd, -⟩ | hsmall
  · rw [List.mem_singleton.mp hc]
    exact hdvd
  · exact (hsmall c hc).le.2.2

theorem chunk_dvd (h : Block mem b cs) (hc : c ∈ cs) : 16 ∣ c :=
  (h.tiled.dvd (Nat.dvd_add h.dvd (by decide)) (by decide) fun _ hc' => h.size_dvd hc').1 c hc

/-- A block depends on its own headers and those of its chunks. -/
theorem move (h : Block mem b cs) (hf : mem'.freeptr b = mem.freeptr b)
    (he : mem'.endptr b = mem.endptr b) (hs : ∀ c ∈ cs, mem'.size c = mem.size c)
    (hr : blockRegion mem b ∈ mem'.heap.regions) : Block mem' b cs := by
  refine ⟨h.pos, h.dvd, ?_, ?_, ?_, ?_, ?_⟩
  · rw [hf]
    exact h.tiled.move _ hs
  · rw [hf, he]
    exact h.free_le
  · rw [he]
    exact h.below
  · unfold blockRegion
    rw [he]
    exact hr
  · rcases h.kind with ⟨c, rfl, hbig, hdvd, hfull⟩ | hsmall
    · have hsize := hs c List.mem_cons_self
      exact Or.inl ⟨c, rfl, hsize ▸ hbig, hsize ▸ hdvd, by rw [hf, he, hfull]⟩
    · right
      intro c hc
      rw [hs c hc]
      exact hsmall c hc

/-- A chunk more, at the free end. -/
theorem place (h : Block mem b cs) (mem' : Memory) {size : Nat} (hsize : Small size)
    (hroom : mem.freeptr b + (size + ALLOC_CHUNK_HDR_SZ) ≤ mem.endptr b)
    (hnew : mem'.size (mem.freeptr b) = size)
    (hf : mem'.freeptr b = mem.freeptr b + (size + ALLOC_CHUNK_HDR_SZ))
    (he : mem'.endptr b = mem.endptr b) (hs : ∀ c ∈ cs, mem'.size c = mem.size c)
    (hr : blockRegion mem b ∈ mem'.heap.regions) : Block mem' b (cs ++ [mem.freeptr b]) := by
  have hpos := hsize.le.1
  refine ⟨h.pos, h.dvd, ?_, ?_, ?_, ?_, Or.inr fun c hc => ?_⟩
  · have htiled := (h.tiled.move _ hs).snoc
    rw [hnew] at htiled
    rw [hf]
    convert htiled using 1
    omega
  · rw [hf, he]
    exact hroom
  · rw [he]
    exact h.below
  · unfold blockRegion
    rw [he]
    exact hr
  · rcases List.mem_append.mp hc with hc | hc
    · rcases h.kind with ⟨c', -, -, -, hfull⟩ | hsmall
      · omega
      · rw [hs c hc]
        exact hsmall c hc
    · rw [List.mem_singleton.mp hc, hnew]
      exact hsize

end Block

namespace Shape

theorem nodup (h : Shape st L) : L.blocks.Nodup := h.linked.nodup

theorem block_ne (h : Shape st L) (hb : b ∈ L.blocks) : b ≠ 0 := h.linked.ne_nil hb

/-- A block that starts inside another one is that one. -/
theorem block_unique (h : Shape st L) (hb : b ∈ L.blocks) (hb' : b' ∈ L.blocks)
    {x : Nat} (hx : b ≤ x ∧ x < st.mem.endptr b) (hx' : b' ≤ x ∧ x < st.mem.endptr b') : b = b' := by
  by_contra hne
  have hap := h.apart b hb b' hb' hne
  unfold blockRegion Region.Apart at hap
  dsimp only at hap
  omega

/-- A chunk's header and bytes are in its block. -/
theorem chunk_in (h : Shape st L) (hb : b ∈ L.blocks) (hc : c ∈ L.chunks b) :
    b + 32 ≤ c ∧ c + 32 + st.mem.size c ≤ st.mem.freeptr b ∧ st.mem.freeptr b ≤ st.mem.endptr b :=
  ⟨((h.block b hb).inside hc).1, ((h.block b hb).inside hc).2, (h.block b hb).free_le⟩

/-- A chunk is in one block only. -/
theorem owner (h : Shape st L) (hb : b ∈ L.blocks) (hb' : b' ∈ L.blocks) (hc : c ∈ L.chunks b)
    (hc' : c ∈ L.chunks b') : b = b' := by
  have h1 := h.chunk_in hb hc
  have h2 := h.chunk_in hb' hc'
  exact h.block_unique hb hb' (x := c) (by omega) (by omega)

/-- Two chunks have nothing in common. -/
theorem chunks_apart (h : Shape st L) (hc : L.Chunk c) (hc' : L.Chunk c') (hne : c ≠ c') :
    c + 32 + st.mem.size c ≤ c' ∨ c' + 32 + st.mem.size c' ≤ c := by
  obtain ⟨b, hb, hm⟩ := hc
  obtain ⟨b', hb', hm'⟩ := hc'
  by_cases hbb : b = b'
  · subst hbb
    exact (h.block b hb).tiled.apart hm hm' hne
  · have h1 := h.chunk_in hb hm
    have h2 := h.chunk_in hb' hm'
    have hap := h.apart b hb b' hb' hbb
    unfold blockRegion Region.Apart at hap
    dsimp only at hap
    omega

theorem chunk_kind (h : Shape st L) (hc : L.Chunk c) :
    ALLOC_CHUNK_LIMIT < st.mem.size c ∨ Small (st.mem.size c) := by
  obtain ⟨b, hb, hm⟩ := hc
  rcases (h.block b hb).kind with ⟨c', hcs, hbig, -, -⟩ | hsmall
  · rw [hcs] at hm
    rw [List.mem_singleton.mp hm]
    exact Or.inl hbig
  · exact Or.inr (hsmall c hm)

/-- Behind `freeptr` there are no chunks. -/
theorem not_chunk (h : Shape st L) (hb : b ∈ L.blocks) {x : Nat} (hx : st.mem.freeptr b ≤ x)
    (hx' : x < st.mem.endptr b) : ¬ L.Chunk x := by
  rintro ⟨b', hb', hm⟩
  have h1 := h.chunk_in hb' hm
  have h2 := (h.block b hb).start_le
  have hbb : b = b' := h.block_unique hb hb' (x := x) (by omega) (by omega)
  subst hbb
  omega

/-- Nor are there any in a region that is new. -/
theorem not_chunk_of_apart (h : Shape st L) {r : Region}
    (hr : ∀ r' ∈ st.mem.heap.regions, r.Apart r') {x : Nat} (hx : r.Holds x) : ¬ L.Chunk x := by
  rintro ⟨b, hb, hm⟩
  have h1 := h.chunk_in hb hm
  have hap := hr _ (h.block b hb).region
  refine hap.ne hx ?_ rfl
  unfold blockRegion Region.Holds
  dsimp only
  omega

theorem not_block_of_apart (h : Shape st L) {r : Region}
    (hr : ∀ r' ∈ st.mem.heap.regions, r.Apart r') {x : Nat} (hx : r.Holds x) : x ∉ L.blocks := by
  intro hm
  have h1 := (h.block x hm).start_le
  have h2 := (h.block x hm).free_le
  refine (hr _ (h.block x hm).region).ne hx ?_ rfl
  unfold blockRegion Region.Holds
  dsimp only
  omega

/-- No block list is longer than there are addresses. -/
theorem length_le (h : Shape st L) : L.blocks.length ≤ FUEL := by
  rw [← List.toFinset_card_of_nodup h.nodup]
  have hsub : L.blocks.toFinset ⊆ Finset.range FUEL := by
    intro b hb
    have hb := List.mem_toFinset.mp hb
    have h1 := (h.block b hb).start_le
    have h2 := (h.block b hb).free_le
    have h3 := (h.block b hb).below
    rw [Finset.mem_range]
    unfold FUEL
    omega
  calc L.blocks.toFinset.card ≤ (Finset.range FUEL).card := Finset.card_le_card hsub
    _ = FUEL := Finset.card_range FUEL

end Shape

/-! ## What an operation leaves alone -/

/-- The chunks in use stay in use with the size they have, but those in `gone`. -/
def Kept (gone : List Nat) (st : State) (L : Layout) (st' : State) (L' : Layout) : Prop :=
  ∀ c, L.Used c → c ∉ gone → L'.Used c ∧ st'.mem.size c = st.mem.size c

/-- `c` is in use now and is none of those in use before, but those in `gone`; there
is room for `size` bytes. -/
def New (gone : List Nat) (L : Layout) (st' : State) (L' : Layout) (c size : Nat) : Prop :=
  L'.Used c ∧ (∀ c', L.Used c' → c' ∉ gone → c' ≠ c) ∧ size ≤ st'.mem.size c

theorem Kept.refl (gone : List Nat) (st : State) (L : Layout) : Kept gone st L st L :=
  fun _ hc _ => ⟨hc, rfl⟩

theorem Kept.trans {gone : List Nat} {st' st'' : State} {L' L'' : Layout} (h : Kept gone st L st' L')
    (h' : Kept gone st' L' st'' L'') : Kept gone st L st'' L'' := by
  intro c hc hg
  obtain ⟨h1, h2⟩ := h c hc hg
  obtain ⟨h3, h4⟩ := h' c h1 hg
  exact ⟨h3, h4.trans h2⟩

end PostgresV7.Aset
