import PostgresV7.Aset.Invariant

/-!
# `alloc_set_alloc`

The three ways to a chunk: a block of its own, a free list, the free end of the
active block. Each adds one chunk to those in use and leaves all others alone.
-/

namespace PostgresV7.Aset

open Regions Chains Tilings Outcomes

variable {A : Allocator} {st st' : State} {L : Layout} {b c : Nat}

/-! ## Lists of free chunks -/

namespace Shape

/-- A free chunk is on one list only. -/
theorem free_inj (h : Shape st L) {j k : Nat} (hj : j < ALLOC_SET_NUM_FREELISTS)
    (hk : k < ALLOC_SET_NUM_FREELISTS) (hcj : c ∈ L.free j) (hck : c ∈ L.free k) : j = k := by
  have heq := (h.sizes j hj c hcj).symm.trans (h.sizes k hk c hck)
  have hpow := Nat.pow_right_injective (Nat.le_refl 2) heq
  omega

/-- The link of a chunk in use is nobody's. -/
theorem setAset (h : Shape st L) (hc : L.Used c) (a : Nat) :
    Shape { st with mem := { st.mem with aset := Function.update st.mem.aset c a } } L where
  linked := h.linked
  block b hb := (h.block b hb).move rfl rfl (fun _ _ => rfl) (h.block b hb).region
  apart := h.apart
  keeper := h.keeper
  lists k hk := (h.lists k hk).move fun c' hc' => by
    refine Function.update_of_ne ?_ _ _
    rintro rfl
    exact hc.2 k hk hc'
  sizes := h.sizes
  member := h.member

theorem mem_push {j k c' : Nat} (h : c' ∈ Function.update L.free k (c :: L.free k) j) :
    c' ∈ L.free j ∨ (c' = c ∧ j = k) := by
  by_cases hjk : j = k
  · subst hjk
    rw [Function.update_self] at h
    rcases List.mem_cons.mp h with rfl | hm
    · exact Or.inr ⟨rfl, rfl⟩
    · exact Or.inl hm
  · rw [Function.update_of_ne hjk] at h
    exact Or.inl h

/-- A chunk in use goes on the free list of its size. -/
theorem push (h : Shape st L) (hc : L.Used c) {k : Nat} (hk : k < ALLOC_SET_NUM_FREELISTS)
    (hsize : st.mem.size c = 2 ^ (k + 4)) (haset : st.mem.aset c = st.set.freelist k) :
    Shape (st.setFreelist k c) { L with free := Function.update L.free k (c :: L.free k) } where
  linked := h.linked
  block b hb := (h.block b hb).move rfl rfl (fun _ _ => rfl) (h.block b hb).region
  apart := h.apart
  keeper := h.keeper
  lists j hj := by
    show Linked id 0 st.mem.aset (Function.update st.set.freelist k c j)
      (Function.update L.free k (c :: L.free k) j)
    by_cases hjk : j = k
    · subst hjk
      rw [Function.update_self, Function.update_self]
      obtain ⟨b, hb, hm⟩ := hc.1
      have hin := h.chunk_in hb hm
      refine Linked.cons ?_ (by omega)
      rw [id_eq, haset]
      exact h.lists j hj
    · rw [Function.update_of_ne hjk, Function.update_of_ne hjk]
      exact h.lists j hj
  sizes j hj c' hc' := by
    show st.mem.size c' = _
    rcases mem_push hc' with hm | ⟨rfl, rfl⟩
    · exact h.sizes j hj c' hm
    · exact hsize
  member j hj c' hc' := by
    rcases mem_push hc' with hm | ⟨rfl, rfl⟩
    · exact h.member j hj c' hm
    · exact hc.1

theorem push_kept (st : State) (hc : L.Used c) (k : Nat) :
    Kept [c] st L (st.setFreelist k c) { L with free := Function.update L.free k (c :: L.free k) } := by
  intro c' hc' hne
  refine ⟨⟨hc'.1, fun j hj hm => ?_⟩, rfl⟩
  rcases mem_push hm with hm | ⟨rfl, -⟩
  · exact hc'.2 j hj hm
  · exact hne List.mem_cons_self

/-- The first chunk of a free list is taken off it. -/
theorem take (h : Shape st L) {k : Nat} (hk : k < ALLOC_SET_NUM_FREELISTS) {rest : List Nat}
    (hfree : L.free k = c :: rest) :
    Shape (takeChunk st k 0 c) { L with free := Function.update L.free k rest } ∧
      Kept [] st L (takeChunk st k 0 c) { L with free := Function.update L.free k rest } ∧
      New [] L (takeChunk st k 0 c) { L with free := Function.update L.free k rest } c
        (2 ^ (k + 4)) := by
  have hc : c ∈ L.free k := hfree ▸ List.mem_cons_self
  have hlist := h.lists k hk
  rw [hfree] at hlist
  have hnd := List.nodup_cons.mp hlist.nodup
  have hsub : ∀ j c', c' ∈ Function.update L.free k rest j → c' ∈ L.free j := by
    intro j c' hm
    by_cases hjk : j = k
    · subst hjk
      rw [Function.update_self] at hm
      exact hfree ▸ List.mem_cons_of_mem c hm
    · rwa [Function.update_of_ne hjk] at hm
  have hout : ∀ j < ALLOC_SET_NUM_FREELISTS, c ∉ Function.update L.free k rest j := by
    intro j hj hm
    obtain rfl := h.free_inj hj hk (hsub j c hm) hc
    rw [Function.update_self] at hm
    exact hnd.1 hm
  have hst : takeChunk st k 0 c = { st with
      set := { st.set with freelist := Function.update st.set.freelist k (st.mem.aset c) },
      mem := { st.mem with aset := Function.update st.mem.aset c st.set.self } } := rfl
  rw [hst]
  refine ⟨⟨h.linked, fun b hb => ?_, h.apart, h.keeper, fun j hj => ?_, ?_, ?_⟩, ?_, ?_⟩
  · exact (h.block b hb).move rfl rfl (fun _ _ => rfl) (h.block b hb).region
  · show Linked id 0 (Function.update st.mem.aset c st.set.self)
      (Function.update st.set.freelist k (st.mem.aset c) j) (Function.update L.free k rest j)
    have hmove : ∀ {x l}, Linked id 0 st.mem.aset x l → c ∉ l →
        Linked id 0 (Function.update st.mem.aset c st.set.self) x l := by
      intro x l hl hcl
      refine hl.move fun c' hc' => Function.update_of_ne ?_ _ _
      rintro rfl
      exact hcl hc'
    have hcj := hout j hj
    by_cases hjk : j = k
    · subst hjk
      rw [Function.update_self] at hcj ⊢
      rw [Function.update_self]
      exact hmove hlist.tail hcj
    · rw [Function.update_of_ne hjk] at hcj ⊢
      rw [Function.update_of_ne hjk]
      exact hmove (h.lists j hj) hcj
  · exact fun j hj c' hm => h.sizes j hj c' (hsub j c' hm)
  · exact fun j hj c' hm => h.member j hj c' (hsub j c' hm)
  · exact fun c' hc' _ => ⟨⟨hc'.1, fun j hj hm => hc'.2 j hj (hsub j c' hm)⟩, rfl⟩
  · refine ⟨⟨h.member k hk c hc, hout⟩, ?_, Nat.le_of_eq (h.sizes k hk c hc).symm⟩
    rintro c' hc' - rfl
    exact hc'.2 k hk hc

end Shape

/-! ## Chunks at the free end -/

/-- The layout with one chunk more in block `b`. -/
def Layout.place (L : Layout) (b c : Nat) : Layout :=
  { L with chunks := Function.update L.chunks b (L.chunks b ++ [c]) }

theorem Layout.chunk_place (hb : b ∈ L.blocks) {c' : Nat} :
    (L.place b c).Chunk c' ↔ L.Chunk c' ∨ c' = c := by
  unfold Layout.place Layout.Chunk
  dsimp only
  constructor
  · rintro ⟨b', hb', hm⟩
    by_cases hbb : b' = b
    · subst hbb
      rw [Function.update_self] at hm
      rcases List.mem_append.mp hm with hm | hm
      · exact Or.inl ⟨b', hb, hm⟩
      · exact Or.inr (List.mem_singleton.mp hm)
    · rw [Function.update_of_ne hbb] at hm
      exact Or.inl ⟨b', hb', hm⟩
  · rintro (⟨b', hb', hm⟩ | rfl)
    · refine ⟨b', hb', ?_⟩
      by_cases hbb : b' = b
      · subst hbb
        rw [Function.update_self]
        exact List.mem_append_left _ hm
      · rwa [Function.update_of_ne hbb]
    · refine ⟨b, hb, ?_⟩
      rw [Function.update_self]
      exact List.mem_append_right _ List.mem_cons_self

/-- The headers after a chunk was put at the free end of `b`. -/
def State.placed (st : State) (b size aset : Nat) : State :=
  let chunk := st.mem.freeptr b
  let mem := { st.mem with
    freeptr := Function.update st.mem.freeptr b (chunk + (size + ALLOC_CHUNK_HDR_SZ)) }
  { st with mem := mem.setChunk chunk aset size }

namespace Shape

theorem placed_spec (h : Shape st L) (hb : b ∈ L.blocks) {size : Nat} (aset : Nat) (hsize : Small size)
    (hroom : st.mem.freeptr b + (size + ALLOC_CHUNK_HDR_SZ) ≤ st.mem.endptr b) :
    Shape (st.placed b size aset) (L.place b (st.mem.freeptr b)) ∧
      Kept [] st L (st.placed b size aset) (L.place b (st.mem.freeptr b)) ∧
      New [] L (st.placed b size aset) (L.place b (st.mem.freeptr b)) (st.mem.freeptr b) size := by
  have hnot : ¬ L.Chunk (st.mem.freeptr b) :=
    h.not_chunk hb (Nat.le_refl _) (by unfold ALLOC_CHUNK_HDR_SZ at hroom; omega)
  generalize hfree : st.mem.freeptr b = c at hroom hnot
  have hsame : ∀ c', L.Chunk c' → c' ≠ c := by
    rintro c' hc' rfl
    exact hnot hc'
  have hmsize : (st.placed b size aset).mem.size = Function.update st.mem.size c size := by
    rw [← hfree]
    rfl
  have hmaset : (st.placed b size aset).mem.aset = Function.update st.mem.aset c aset := by
    rw [← hfree]
    rfl
  have hmfree : (st.placed b size aset).mem.freeptr =
      Function.update st.mem.freeptr b (c + (size + ALLOC_CHUNK_HDR_SZ)) := by
    rw [← hfree]
    rfl
  have hsz : ∀ c', L.Chunk c' → (st.placed b size aset).mem.size c' = st.mem.size c' := by
    intro c' hc'
    rw [hmsize, Function.update_of_ne (hsame c' hc')]
  have hused : ∀ {c'}, (L.place b c).Used c' ↔ L.Used c' ∨ c' = c := by
    intro c'
    unfold Layout.Used
    rw [Layout.chunk_place hb]
    constructor
    · rintro ⟨hc' | rfl, hf⟩
      · exact Or.inl ⟨hc', hf⟩
      · exact Or.inr rfl
    · rintro (⟨hc', hf⟩ | rfl)
      · exact ⟨Or.inl hc', hf⟩
      · exact ⟨Or.inr rfl, fun k hk hm => hnot (h.member k hk c' hm)⟩
  refine ⟨⟨h.linked, fun b' hb' => ?_, h.apart, fun hk => ?_, fun k hk => ?_, fun k hk c' hc' => ?_,
    fun k hk c' hc' => ?_⟩, fun c' hc' _ => ?_, ?_⟩
  · have hblock := h.block b' hb'
    by_cases hbb : b' = b
    · subst hbb
      have hplaced := hblock.place (st.placed b' size aset).mem hsize (by rw [hfree]; exact hroom)
        (by rw [hmsize, hfree, Function.update_self]) (by rw [hmfree, hfree, Function.update_self]) rfl
        (fun c' hc' => hsz c' ⟨b', hb, hc'⟩) hblock.region
      unfold Layout.place
      dsimp only
      rw [Function.update_self]
      rw [hfree] at hplaced
      exact hplaced
    · unfold Layout.place
      dsimp only
      rw [Function.update_of_ne hbb]
      exact hblock.move (by rw [hmfree, Function.update_of_ne hbb]) rfl
        (fun c' hc' => hsz c' ⟨b', hb', hc'⟩) hblock.region
  · obtain ⟨hmem, hsmall⟩ := h.keeper hk
    refine ⟨hmem, fun c' hc' => ?_⟩
    show Small ((st.placed b size aset).mem.size c')
    by_cases hbk : st.set.keeper = b
    · have hc'' : c' ∈ Function.update L.chunks b (L.chunks b ++ [c]) st.set.keeper := hc'
      rw [hbk, Function.update_self] at hc''
      rcases List.mem_append.mp hc'' with hm | hm
      · rw [hsz c' ⟨b, hb, hm⟩]
        exact hsmall c' (hbk ▸ hm)
      · rw [List.mem_singleton.mp hm, hmsize, Function.update_self]
        exact hsize
    · have hc'' : c' ∈ Function.update L.chunks b (L.chunks b ++ [c]) st.set.keeper := hc'
      rw [Function.update_of_ne hbk] at hc''
      rw [hsz c' ⟨_, hmem, hc''⟩]
      exact hsmall c' hc''
  · rw [hmaset]
    exact (h.lists k hk).move fun c' hc' => Function.update_of_ne (hsame c' (h.member k hk c' hc')) _ _
  · rw [hsz c' (h.member k hk c' hc')]
    exact h.sizes k hk c' hc'
  · exact (Layout.chunk_place hb).mpr (Or.inl (h.member k hk c' hc'))
  · exact ⟨hused.mpr (Or.inl hc'), hsz c' hc'.1⟩
  · refine ⟨hused.mpr (Or.inr rfl), fun c' hc' _ => hsame c' hc'.1, Nat.le_of_eq ?_⟩
    rw [hmsize, Function.update_self]

/-! ## New blocks -/

/-- A block in a new region, anywhere on the list. -/
theorem addBlock (h : Shape st L) (st' : State) {heap : Heap} {p n : Nat} {bs cs : List Nat}
    (hregions : heap.regions = ⟨p, n⟩ :: st.mem.heap.regions)
    (hfresh : ∀ r ∈ st.mem.heap.regions, Region.Apart ⟨p, n⟩ r)
    (hbs : ∀ x, x ∈ bs ↔ x = p ∨ x ∈ L.blocks)
    (hlinked : Linked id 0 st'.mem.next st'.set.blocks bs)
    (hblock : Block st'.mem p cs) (hend : st'.mem.endptr p = p + n)
    (hset : st'.set.keeper = st.set.keeper ∧ st'.set.freelist = st.set.freelist)
    (hheap : st'.mem.heap = heap)
    (hhdr : ∀ x, x ≠ p → st'.mem.freeptr x = st.mem.freeptr x ∧ st'.mem.endptr x = st.mem.endptr x)
    (hchunk : ∀ c, L.Chunk c → st'.mem.size c = st.mem.size c ∧ st'.mem.aset c = st.mem.aset c) :
    Shape st' { blocks := bs, chunks := Function.update L.chunks p cs, free := L.free } ∧
      Kept [] st L st' { blocks := bs, chunks := Function.update L.chunks p cs, free := L.free } := by
  have hpos := hblock.start_le
  have hle := hblock.free_le
  have hp : p ∉ L.blocks := h.not_block_of_apart hfresh (x := p) (by
    unfold Region.Holds
    dsimp only
    omega)
  have hne : ∀ b ∈ L.blocks, b ≠ p := by
    rintro b hb rfl
    exact hp hb
  have hreg : ∀ b ∈ L.blocks, blockRegion st'.mem b = blockRegion st.mem b := by
    intro b hb
    unfold blockRegion
    rw [(hhdr b (hne b hb)).2]
  have hregp : blockRegion st'.mem p = ⟨p, n⟩ := by
    unfold blockRegion
    rw [hend, Nat.add_sub_cancel_left]
  have hchunks : ∀ c, L.Chunk c → ∃ b ∈ bs, c ∈ Function.update L.chunks p cs b := by
    rintro c ⟨b, hb, hm⟩
    exact ⟨b, (hbs b).mpr (Or.inr hb), by rwa [Function.update_of_ne (hne b hb)]⟩
  have hold : ∀ b ∈ L.blocks, Block st'.mem b (L.chunks b) := by
    intro b hb
    refine (h.block b hb).move (hhdr b (hne b hb)).1 (hhdr b (hne b hb)).2
      (fun c hc => (hchunk c ⟨b, hb, hc⟩).1) ?_
    rw [hheap, hregions]
    exact List.mem_cons_of_mem _ (h.block b hb).region
  refine ⟨⟨hlinked, fun b hb => ?_, fun b hb b' hb' hbb => ?_, fun hk => ?_, fun k hk => ?_,
    fun k hk c hc => ?_, fun k hk c hc => hchunks c (h.member k hk c hc)⟩, fun c hc _ => ?_⟩
  · rcases (hbs b).mp hb with rfl | hb
    · dsimp only
      rw [Function.update_self]
      exact hblock
    · dsimp only
      rw [Function.update_of_ne (hne b hb)]
      exact hold b hb
  · rcases (hbs b).mp hb with rfl | hb₁ <;> rcases (hbs b').mp hb' with rfl | hb₂
    · exact absurd rfl hbb
    · rw [hregp, hreg b' hb₂]
      exact hfresh _ (h.block b' hb₂).region
    · rw [hregp, hreg b hb₁]
      exact (hfresh _ (h.block b hb₁).region).symm
    · rw [hreg b hb₁, hreg b' hb₂]
      exact h.apart b hb₁ b' hb₂ hbb
  · rw [hset.1] at hk ⊢
    obtain ⟨hmem, hsmall⟩ := h.keeper hk
    refine ⟨(hbs _).mpr (Or.inr hmem), fun c hc => ?_⟩
    dsimp only at hc
    rw [Function.update_of_ne (hne _ hmem)] at hc
    rw [(hchunk c ⟨_, hmem, hc⟩).1]
    exact hsmall c hc
  · rw [hset.2]
    exact (h.lists k hk).move fun c hc => (hchunk c (h.member k hk c hc)).2
  · rw [(hchunk c (h.member k hk c hc)).1]
    exact h.sizes k hk c hc
  · exact ⟨⟨hchunks c hc.1, hc.2⟩, (hchunk c hc.1).1⟩

/-- An empty block on top of the others. -/
theorem pushBlock (h : Shape st L) {heap : Heap} {p n : Nat} (hg : st.mem.heap.Grants heap p n)
    (hn : ALLOC_BLOCK_HDR_SZ + ALLOC_CHUNK_HDR_SZ ≤ n) :
    Shape (st.pushBlock p n heap)
        { blocks := p :: L.blocks, chunks := Function.update L.chunks p [], free := L.free } ∧
      Kept [] st L (st.pushBlock p n heap)
        { blocks := p :: L.blocks, chunks := Function.update L.chunks p [], free := L.free } := by
  unfold ALLOC_BLOCK_HDR_SZ ALLOC_CHUNK_HDR_SZ at hn
  have hp : p ∉ L.blocks := h.not_block_of_apart hg.fresh (x := p) (by
    unfold Region.Holds
    dsimp only
    omega)
  have hlinked : Linked id 0 (Function.update st.mem.next p st.set.blocks) p (p :: L.blocks) := by
    refine Linked.cons ?_ (Nat.ne_of_gt hg.pos)
    rw [id_eq, Function.update_self]
    refine h.linked.move fun b hb => Function.update_of_ne ?_ _ _
    rintro rfl
    exact hp hb
  have hfreeptr : (st.pushBlock p n heap).mem.freeptr p = p + ALLOC_BLOCK_HDR_SZ :=
    Function.update_self _ _ _
  have hendptr : (st.pushBlock p n heap).mem.endptr p = p + n := Function.update_self _ _ _
  have hblock : Block (st.pushBlock p n heap).mem p [] := by
    refine ⟨hg.pos, hg.aligned, ?_, ?_, ?_, ?_, Or.inr fun c hc => absurd hc List.not_mem_nil⟩
    · exact Function.update_self _ _ _
    · rw [hfreeptr, hendptr]
      unfold ALLOC_BLOCK_HDR_SZ
      omega
    · rw [hendptr]
      exact hg.inside
    · unfold blockRegion
      rw [hendptr, Nat.add_sub_cancel_left]
      show _ ∈ heap.regions
      rw [hg.regions]
      exact List.mem_cons_self
  exact h.addBlock (st.pushBlock p n heap) hg.regions hg.fresh (fun x => List.mem_cons)
    hlinked hblock (Function.update_self _ _ _) ⟨rfl, rfl⟩ rfl
    (fun x hx => ⟨Function.update_of_ne hx _ _, Function.update_of_ne hx _ _⟩) (fun c _ => ⟨rfl, rfl⟩)

end Shape

theorem mallocBlock_spec {required k blkSize : Nat} {heap : Heap} (hle : required ≤ blkSize) :
    ∀ block blkSize' heap', mallocBlock A required k blkSize heap = (some (block, blkSize'), heap') →
      required ≤ blkSize' ∧ heap.Grants heap' block blkSize' := by
  induction k generalizing blkSize heap with
  | zero =>
    intro block blkSize' heap' heq
    unfold mallocBlock at heq
    rcases ha : heap.alloc A blkSize with ⟨_ | p, heap₁⟩
    · rw [ha] at heq
      cases heq
    · rw [ha] at heq
      cases heq
      exact ⟨hle, Heap.grants_of_alloc ha⟩
  | succ k ih =>
    intro block blkSize' heap' heq
    unfold mallocBlock at heq
    rcases ha : heap.alloc A blkSize with ⟨_ | p, heap₁⟩
    · rw [ha] at heq
      dsimp only at heq
      split at heq
      · split at heq
        · cases heq
        · rename_i hhalf
          obtain ⟨hreq, hg⟩ := ih (Nat.not_lt.mp hhalf) block blkSize' heap' heq
          have hsame := Heap.alloc_none ha
          exact ⟨hreq, hsame ▸ hg.regions, hg.pos, hg.aligned, hg.inside, hsame ▸ hg.fresh⟩
      · cases heq
    · rw [ha] at heq
      cases heq
      exact ⟨hle, Heap.grants_of_alloc ha⟩

/-- A new block comes on top, with room for the chunk it is made for. -/
theorem newBlock_spec (h : Shape st L) {chunkSize : Nat} :
    Ends (· = .exhausted) (newBlock A st chunkSize) fun st' =>
      ∃ L', Shape st' L' ∧ Kept [] st L st' L' ∧ st'.set.blocks ∈ L'.blocks ∧
        st'.mem.freeptr st'.set.blocks + (chunkSize + ALLOC_CHUNK_HDR_SZ) ≤
          st'.mem.endptr st'.set.blocks := by
  unfold newBlock
  dsimp only
  generalize hblk : (if newBlockSize st < chunkSize + ALLOC_BLOCK_HDR_SZ + ALLOC_CHUNK_HDR_SZ then
    chunkSize + ALLOC_BLOCK_HDR_SZ + ALLOC_CHUNK_HDR_SZ else newBlockSize st) = blkSize
  have hle : chunkSize + ALLOC_BLOCK_HDR_SZ + ALLOC_CHUNK_HDR_SZ ≤ blkSize := by
    rw [← hblk]
    split
    · exact Nat.le_refl _
    · rename_i hge
      exact Nat.not_lt.mp hge
  rcases hm : mallocBlock A (chunkSize + ALLOC_BLOCK_HDR_SZ + ALLOC_CHUNK_HDR_SZ) 64 blkSize
    st.mem.heap with ⟨_ | ⟨p, n⟩, heap⟩
  · rfl
  · obtain ⟨hreq, hg⟩ := mallocBlock_spec hle p n heap hm
    unfold ALLOC_BLOCK_HDR_SZ ALLOC_CHUNK_HDR_SZ at hreq
    obtain ⟨hshape, hkept⟩ := h.pushBlock hg (by
      unfold ALLOC_BLOCK_HDR_SZ ALLOC_CHUNK_HDR_SZ
      omega)
    have hfreeptr : (st.pushBlock p n heap).mem.freeptr p = p + ALLOC_BLOCK_HDR_SZ :=
      Function.update_self _ _ _
    have hendptr : (st.pushBlock p n heap).mem.endptr p = p + n := Function.update_self _ _ _
    refine ⟨_, hshape, hkept, List.mem_cons_self, ?_⟩
    show (st.pushBlock p n heap).mem.freeptr p + _ ≤ (st.pushBlock p n heap).mem.endptr p
    rw [hfreeptr, hendptr]
    unfold ALLOC_BLOCK_HDR_SZ ALLOC_CHUNK_HDR_SZ
    omega

/-! ## The three ways -/

theorem Shape.top_mem (h : Shape st L) (hne : st.set.blocks ≠ 0) : st.set.blocks ∈ L.blocks := by
  have hlinked := h.linked
  cases hbs : L.blocks with
  | nil =>
    rw [hbs] at hlinked
    exact absurd hlinked hne
  | cons b bs =>
    rw [hbs] at hlinked
    rw [hlinked.1]
    exact List.mem_cons_self

/-- The result of an allocation: one more chunk in use. -/
def Allocated (st : State) (L : Layout) (size : Nat) (r : Nat × State) : Prop :=
  ∃ L' c, r.1 = c + ALLOC_CHUNK_HDR_SZ ∧ Shape r.2 L' ∧ Kept [] st L r.2 L' ∧ New [] L r.2 L' c size

theorem Allocated.of_kept {st₀ : State} {L₀ : Layout} {size : Nat} {r : Nat × State}
    (h : Allocated st L size r) (hkept : Kept [] st₀ L₀ st L) : Allocated st₀ L₀ size r := by
  obtain ⟨L', c, hr, hshape, hk, hused, hnew, hsize⟩ := h
  refine ⟨L', c, hr, hshape, hkept.trans hk, hused, fun c' hc' hg => ?_, hsize⟩
  exact hnew c' (hkept c' hc' hg).1 hg

/-- Carving up the free space of a block. -/
theorem carveBlock_spec {k : Nat} (avail : Nat) (h : Shape st L) (hb : b ∈ L.blocks)
    (havail : st.mem.freeptr b + avail = st.mem.endptr b) (hlt : avail ≤ ALLOC_CHUNK_LIMIT + 32) :
    ∃ L', Shape (carveBlock b k avail st) L' ∧ Kept [] st L (carveBlock b k avail st) L' ∧
      L'.blocks = L.blocks := by
  induction k generalizing avail st L with
  | zero => exact ⟨L, h, .refl [] st L, rfl⟩
  | succ k ih =>
    unfold carveBlock
    split
    · rename_i hge
      obtain ⟨j, hj, hcarve, hfit, -⟩ := carveSize_spec avail hge hlt
      rw [hcarve]
      dsimp only
      have hroom : st.mem.freeptr b + (2 ^ (j + 4) + ALLOC_CHUNK_HDR_SZ) ≤ st.mem.endptr b := by
        unfold ALLOC_CHUNK_HDR_SZ
        omega
      obtain ⟨hshape, hkept, hused, hnew, -⟩ := h.placed_spec hb (st.set.freelist j)
        ⟨j, hj, rfl⟩ hroom
      have hsize : (st.placed b (2 ^ (j + 4)) (st.set.freelist j)).mem.size (st.mem.freeptr b) =
          2 ^ (j + 4) := Function.update_self _ _ _
      have hpush := hshape.push hused hj hsize (Function.update_self _ _ _)
      have hkept' := Shape.push_kept (st.placed b (2 ^ (j + 4)) (st.set.freelist j)) hused j
      have hends : ((st.placed b (2 ^ (j + 4)) (st.set.freelist j)).setFreelist j
          (st.mem.freeptr b)).mem.freeptr b = st.mem.freeptr b + (2 ^ (j + 4) + ALLOC_CHUNK_HDR_SZ) :=
        Function.update_self _ _ _
      obtain ⟨L', hL', hk', hbs⟩ := ih (avail - (2 ^ (j + 4) + ALLOC_CHUNK_HDR_SZ)) hpush hb
        (by
          rw [hends]
          show _ = st.mem.endptr b
          unfold ALLOC_CHUNK_HDR_SZ at *
          omega) (by omega)
      refine ⟨L', hL', ?_, hbs⟩
      intro c hc hg
      obtain ⟨h1, h2⟩ := hkept c hc hg
      have hne := hnew c hc hg
      obtain ⟨h3, h4⟩ := hkept' c h1 (fun hm => hne (List.mem_singleton.mp hm))
      obtain ⟨h5, h6⟩ := hk' c h3 hg
      exact ⟨h5, h6.trans (h4.trans h2)⟩
    · exact ⟨L, h, .refl [] st L, rfl⟩

theorem placeChunk_spec (h : Shape st L) (hb : st.set.blocks ∈ L.blocks) {size chunkSize : Nat}
    (hsize : Small chunkSize) (hle : size ≤ chunkSize)
    (hroom : st.mem.freeptr st.set.blocks + (chunkSize + ALLOC_CHUNK_HDR_SZ) ≤
      st.mem.endptr st.set.blocks) : Allocated st L size (placeChunk st chunkSize) := by
  obtain ⟨hshape, hkept, hused, hnew, hfit⟩ := h.placed_spec hb st.set.self hsize hroom
  exact ⟨_, st.mem.freeptr st.set.blocks, rfl, hshape, hkept, hused, hnew, Nat.le_trans hle hfit⟩

theorem allocFresh_spec (h : Shape st L) {size chunkSize : Nat} (hsize : Small chunkSize)
    (hle : size ≤ chunkSize) :
    Ends (· = .exhausted) (allocFresh A st chunkSize) (Allocated st L size) := by
  have hnew : ∀ {st₁ L₁}, Shape st₁ L₁ → Kept [] st L st₁ L₁ →
      Ends (· = .exhausted) (newBlock A st₁ chunkSize >>= fun st => .ok (placeChunk st chunkSize))
        (Allocated st L size) := by
    intro st₁ L₁ h₁ hk₁
    refine (newBlock_spec h₁).bind ?_
    rintro st₂ ⟨L₂, h₂, hk₂, hb₂, hroom⟩
    exact (placeChunk_spec h₂ hb₂ hsize hle hroom).of_kept (hk₁.trans hk₂)
  unfold allocFresh
  split
  · exact hnew h (.refl [] st L)
  · rename_i hne
    have hb := h.top_mem hne
    have hfree := (h.block _ hb).free_le
    dsimp only
    split
    · rename_i hshort
      obtain ⟨L₁, h₁, hk₁, -⟩ := carveBlock_spec
        (k := st.mem.endptr st.set.blocks - st.mem.freeptr st.set.blocks) _ h hb
        (Nat.add_sub_cancel' hfree) (by
          have hlim := hsize.le.2.1
          unfold ALLOC_CHUNK_HDR_SZ at hshort
          omega)
      exact hnew h₁ hk₁
    · rename_i hroom
      exact placeChunk_spec h hb hsize hle (by omega)

theorem maxAlign_bounds {size : Nat} (h : size ≤ MAX_ALLOC_SIZE) :
    size ≤ maxAlign size ∧ 16 ∣ maxAlign size := by
  unfold MAX_ALLOC_SIZE at h
  exact ⟨le_maxAlign (by omega), dvd_maxAlign size⟩

/-- A block with one chunk that fills it. -/
theorem block_single {mem : Memory} {p n : Nat} (hpos : 0 < p) (hdvd : 16 ∣ p)
    (hbelow : p + (n + ALLOC_BLOCK_HDR_SZ + ALLOC_CHUNK_HDR_SZ) < 2 ^ 63)
    (hn : ALLOC_CHUNK_LIMIT < n ∧ 16 ∣ n)
    (hf : mem.freeptr p = p + (n + ALLOC_BLOCK_HDR_SZ + ALLOC_CHUNK_HDR_SZ))
    (he : mem.endptr p = p + (n + ALLOC_BLOCK_HDR_SZ + ALLOC_CHUNK_HDR_SZ))
    (hs : mem.size (p + ALLOC_BLOCK_HDR_SZ) = n)
    (hr : ⟨p, n + ALLOC_BLOCK_HDR_SZ + ALLOC_CHUNK_HDR_SZ⟩ ∈ mem.heap.regions) :
    Block mem p [p + ALLOC_BLOCK_HDR_SZ] := by
  refine ⟨hpos, hdvd, ⟨rfl, ?_⟩, by rw [hf, he], by rw [he]; exact hbelow, ?_, Or.inl ⟨_, rfl, ?_, ?_, ?_⟩⟩
  · show mem.freeptr p = _
    rw [hf, hs]
    omega
  · unfold blockRegion
    rw [he, Nat.add_sub_cancel_left]
    exact hr
  · rw [hs]
    exact hn.1
  · rw [hs]
    exact hn.2
  · rw [hf, he]

/-- Where a block is tucked in. -/
theorem tuckBlock_linked {p : Nat} {bs : List Nat} (h : Linked id 0 st.mem.next st.set.blocks bs)
    (hp : p ∉ bs) (hpos : p ≠ 0) :
    ∃ bs', (∀ x, x ∈ bs' ↔ x = p ∨ x ∈ bs) ∧
      Linked id 0 (st.tuckBlock p).mem.next (st.tuckBlock p).set.blocks bs' := by
  unfold State.tuckBlock
  cases bs with
  | nil =>
    have hnil : st.set.blocks = 0 := h
    rw [if_neg (fun hn => hn hnil)]
    refine ⟨[p], fun x => List.mem_cons, Linked.cons ?_ hpos⟩
    exact Function.update_self _ _ _
  | cons b bs =>
    obtain ⟨hb, hb0, hrest⟩ := h
    have hbp : b ≠ p := fun heq => hp (heq ▸ List.mem_cons_self)
    rw [if_pos (hb ▸ hb0), hb]
    refine ⟨b :: p :: bs, fun x => ?_, ?_⟩
    · rw [List.mem_cons, List.mem_cons, List.mem_cons]
      exact or_left_comm
    · dsimp only
      have hlink : Linked id 0 st.mem.next b (b :: bs) := ⟨rfl, hb0, hrest⟩
      have hnd := hlink.nodup
      refine Linked.cons ?_ hb0
      rw [id_eq, Function.update_self]
      refine Linked.cons ?_ hpos
      rw [id_eq, Function.update_of_ne hbp.symm, Function.update_self]
      refine (chain_iff_linked.mp hrest).move fun x hx => ?_
      rw [id_eq, Function.update_of_ne, Function.update_of_ne]
      · rintro rfl
        exact hp (List.mem_cons_of_mem b hx)
      · rintro rfl
        exact (List.nodup_cons.mp hnd).1 hx

theorem tuckBlock_fields (st : State) (block : Nat) :
    (st.tuckBlock block).mem.freeptr = st.mem.freeptr ∧
      (st.tuckBlock block).mem.endptr = st.mem.endptr ∧ (st.tuckBlock block).mem.size = st.mem.size ∧
      (st.tuckBlock block).mem.aset = st.mem.aset ∧ (st.tuckBlock block).mem.heap = st.mem.heap ∧
      (st.tuckBlock block).set.keeper = st.set.keeper ∧
      (st.tuckBlock block).set.freelist = st.set.freelist := by
  unfold State.tuckBlock
  split <;> exact ⟨rfl, rfl, rfl, rfl, rfl, rfl, rfl⟩

/-- A block filled by one large chunk, underneath the active one. -/
theorem Shape.tuckLarge (h : Shape st L) {heap : Heap} {p n : Nat}
    (hg : st.mem.heap.Grants heap p (n + ALLOC_BLOCK_HDR_SZ + ALLOC_CHUNK_HDR_SZ))
    (hn : ALLOC_CHUNK_LIMIT < n ∧ 16 ∣ n) :
    ∃ bs, (∀ x, x ∈ bs ↔ x = p ∨ x ∈ L.blocks) ∧
      Shape ((st.fillBlock p n heap).tuckBlock p)
        { blocks := bs, chunks := Function.update L.chunks p [p + ALLOC_BLOCK_HDR_SZ], free := L.free } ∧
      Kept [] st L ((st.fillBlock p n heap).tuckBlock p)
        { blocks := bs, chunks := Function.update L.chunks p [p + ALLOC_BLOCK_HDR_SZ], free := L.free } ∧
      ¬ L.Chunk (p + ALLOC_BLOCK_HDR_SZ) := by
  generalize hst₁ : st.fillBlock p n heap = st₁
  have hp : p ∉ L.blocks := h.not_block_of_apart hg.fresh (x := p) (by
    unfold Region.Holds ALLOC_BLOCK_HDR_SZ
    dsimp only
    omega)
  have hchunk : ¬ L.Chunk (p + ALLOC_BLOCK_HDR_SZ) := h.not_chunk_of_apart hg.fresh (by
    unfold Region.Holds ALLOC_BLOCK_HDR_SZ ALLOC_CHUNK_HDR_SZ
    dsimp only
    omega)
  have hlinked₁ : Linked id 0 st₁.mem.next st₁.set.blocks L.blocks := by
    rw [← hst₁]
    exact h.linked
  obtain ⟨bs, hbs, hlinked⟩ := tuckBlock_linked hlinked₁ hp (Nat.ne_of_gt hg.pos)
  obtain ⟨tf, te, ts, ta, th, tk, tl⟩ := tuckBlock_fields st₁ p
  have hblock : Block (st₁.tuckBlock p).mem p [p + ALLOC_BLOCK_HDR_SZ] := by
    refine block_single hg.pos hg.aligned hg.inside hn ?_ ?_ ?_ ?_
    · rw [tf, ← hst₁]
      exact Function.update_self _ _ _
    · rw [te, ← hst₁]
      exact Function.update_self _ _ _
    · rw [ts, ← hst₁]
      exact Function.update_self _ _ _
    · rw [th, ← hst₁]
      show _ ∈ heap.regions
      rw [hg.regions]
      exact List.mem_cons_self
  have hadd := h.addBlock (st₁.tuckBlock p) hg.regions hg.fresh hbs hlinked hblock
    (by rw [te, ← hst₁]; exact Function.update_self _ _ _)
    ⟨by rw [tk, ← hst₁]; rfl, by rw [tl, ← hst₁]; rfl⟩ (by rw [th, ← hst₁]; rfl)
    (fun x hx => by
      rw [tf, te, ← hst₁]
      exact ⟨Function.update_of_ne hx _ _, Function.update_of_ne hx _ _⟩)
    (fun c hc => by
      have hne : c ≠ p + ALLOC_BLOCK_HDR_SZ := by
        rintro rfl
        exact hchunk hc
      rw [ts, ta, ← hst₁]
      exact ⟨Function.update_of_ne hne _ _, Function.update_of_ne hne _ _⟩)
  exact ⟨bs, hbs, hadd.1, hadd.2, hchunk⟩

theorem allocLarge_spec (h : Shape st L) {size : Nat} (hbig : ALLOC_CHUNK_LIMIT < size)
    (hle : size ≤ MAX_ALLOC_SIZE) :
    Ends (· = .exhausted) (allocLarge A st size) (Allocated st L size) := by
  obtain ⟨hsize, hdvd⟩ := maxAlign_bounds hle
  unfold allocLarge
  dsimp only
  generalize maxAlign size = n at hsize hdvd
  rcases ha : st.mem.heap.alloc A (n + ALLOC_BLOCK_HDR_SZ + ALLOC_CHUNK_HDR_SZ) with ⟨_ | p, heap⟩
  · rfl
  · obtain ⟨bs, hbs, hshape, hkept, hchunk⟩ := h.tuckLarge (Heap.grants_of_alloc ha) ⟨by omega, hdvd⟩
    refine ⟨_, p + ALLOC_BLOCK_HDR_SZ, rfl, hshape, hkept, ⟨⟨p, (hbs p).mpr (Or.inl rfl), ?_⟩, ?_⟩, ?_, ?_⟩
    · dsimp only
      rw [Function.update_self]
      exact List.mem_cons_self
    · exact fun k hk hm => hchunk (h.member k hk _ hm)
    · rintro c' hc' - rfl
      exact hchunk hc'.1
    · obtain ⟨-, -, ts, -, -, -, -⟩ := tuckBlock_fields (st.fillBlock p n heap) p
      have hnew : (st.fillBlock p n heap).mem.size (p + ALLOC_BLOCK_HDR_SZ) = n :=
        Function.update_self _ _ _
      rw [ts, hnew]
      exact hsize

/-- The first chunk of a free list is large enough. -/
theorem findChunk_spec (h : Shape st L) {k size : Nat} (hk : k < ALLOC_SET_NUM_FREELISTS)
    (hsize : size ≤ 2 ^ (k + 4)) (fuel : Nat) :
    (L.free k = [] ∧ findChunk st.mem size fuel 0 (st.set.freelist k) = .ok (0, 0)) ∨
      ∃ c rest, L.free k = c :: rest ∧ c ≠ 0 ∧
        findChunk st.mem size fuel 0 (st.set.freelist k) = .ok (0, c) := by
  have hlist := h.lists k hk
  unfold findChunk
  cases hfree : L.free k with
  | nil =>
    rw [hfree] at hlist
    rw [show st.set.freelist k = 0 from hlist]
    exact Or.inl ⟨rfl, rfl⟩
  | cons c rest =>
    rw [hfree] at hlist
    obtain ⟨hc, hc0, -⟩ := hlist
    have hsz := h.sizes k hk c (hfree ▸ List.mem_cons_self)
    have hge : st.mem.size c ≥ size := by
      rw [hsz]
      exact hsize
    rw [hc, if_neg (show c ≠ 0 from hc0), if_pos hge]
    exact Or.inr ⟨c, rest, rfl, hc0, rfl⟩

/-- `alloc_set_alloc` returns a chunk nobody has, or memory is exhausted. -/
theorem allocSetAlloc_spec (h : Shape st L) {size : Nat} (h0 : 0 < size)
    (hle : size ≤ MAX_ALLOC_SIZE) :
    Ends (· = .exhausted) (allocSetAlloc A st size) (Allocated st L size) := by
  unfold allocSetAlloc
  split
  · rename_i hbig
    exact allocLarge_spec h hbig hle
  · rename_i hsmall
    have hsmall := Nat.not_lt.mp hsmall
    have hidx : allocSetFreeIndex size < ALLOC_SET_NUM_FREELISTS := freeIndex_lt size h0 hsmall
    have hfit := (freeIndex_spec size h0 (by unfold MAX_ALLOC_SIZE at hle; omega)).1
    dsimp only
    rcases findChunk_spec h hidx hfit FUEL with ⟨-, hfind⟩ | ⟨c, rest, hfree, hc0, hfind⟩
    · rw [hfind]
      refine allocFresh_spec h ⟨_, hidx, ?_⟩ ?_
      · rw [Nat.one_shiftLeft]
        rfl
      · rw [Nat.one_shiftLeft]
        exact hfit
    · rw [hfind]
      show Ends _ (if c ≠ 0 then _ else _) _
      rw [if_pos hc0]
      obtain ⟨hshape, hkept, hused, hnew, hsz⟩ := h.take hidx hfree
      exact ⟨_, c, rfl, hshape, hkept, hused, hnew, Nat.le_trans hfit hsz⟩

end PostgresV7.Aset
