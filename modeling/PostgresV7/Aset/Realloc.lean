import PostgresV7.Aset.Free

/-!
# `alloc_set_realloc`

A chunk is large enough already, grows with the block it fills, grows into the free
space behind it, or is exchanged for a new one.
-/

namespace PostgresV7.Aset

open Regions Chains Tilings Outcomes

variable {A : Allocator} {st st' : State} {L : Layout} {b c : Nat}

/-- The result of a reallocation: one chunk in use for another, or for itself. -/
def Reallocated (st : State) (L : Layout) (c size : Nat) (r : Nat × State) : Prop :=
  ∃ L' c', r.1 = c' + ALLOC_CHUNK_HDR_SZ ∧ Shape r.2 L' ∧ Kept [c] st L r.2 L' ∧
    New [c] L r.2 L' c' size

/-! ## With its block -/

/-- The block of a large chunk moves to a new region, and its chunk gets the size `n`. -/
theorem Shape.moveLarge (h : Shape st L) {l₁ l₂ : List Nat} {heap : Heap} {q n : Nat}
    (hbs : L.blocks = l₁ ++ b :: l₂) (hcs : L.chunks b = [c]) (hc : L.Used c) (hkeep : b ≠ st.set.keeper)
    (hg : (st.mem.heap.release b).Grants heap q (n + ALLOC_BLOCK_HDR_SZ + ALLOC_CHUNK_HDR_SZ))
    (hn : ALLOC_CHUNK_LIMIT < n ∧ 16 ∣ n) :
    Shape ((st.movedBlock b q n heap).setNext (lastOf l₁ 0) q)
        { blocks := l₁ ++ q :: l₂, chunks := Function.update L.chunks q [q + ALLOC_BLOCK_HDR_SZ],
          free := L.free } ∧
      Kept [c] st L ((st.movedBlock b q n heap).setNext (lastOf l₁ 0) q)
        { blocks := l₁ ++ q :: l₂, chunks := Function.update L.chunks q [q + ALLOC_BLOCK_HDR_SZ],
          free := L.free } ∧
      ∀ c', L.Chunk c' → c' ≠ c → c' ≠ q + ALLOC_BLOCK_HDR_SZ := by
  obtain ⟨h₁, hkept₁⟩ := h.removeBlock hbs hcs hc hkeep
  obtain ⟨hregions, hpos, hqd, hbelow, hfresh⟩ := hg
  obtain ⟨-, -, -, -, th₁, -, -⟩ := setNext_fields st (lastOf l₁ 0) (st.mem.next b)
  have hheap₁ : ((st.setNext (lastOf l₁ 0) (st.mem.next b)).freeBlock b).mem.heap =
      st.mem.heap.release b := by
    show (st.setNext (lastOf l₁ 0) (st.mem.next b)).mem.heap.release b = _
    rw [th₁]
  rw [← hheap₁] at hregions hfresh
  have hq : q ∉ l₁ ++ l₂ := h₁.not_block_of_apart hfresh (x := q) (by
    unfold Region.Holds ALLOC_BLOCK_HDR_SZ
    dsimp only
    omega)
  have hchunk : ¬ Layout.Chunk { L with blocks := l₁ ++ l₂ } (q + ALLOC_BLOCK_HDR_SZ) :=
    h₁.not_chunk_of_apart hfresh (by
      unfold Region.Holds ALLOC_BLOCK_HDR_SZ ALLOC_CHUNK_HDR_SZ
      dsimp only
      omega)
  generalize hst₂ : st.movedBlock b q n heap = st₂
  obtain ⟨tf, te, ts, ta, th, tk, tl⟩ := setNext_fields st₂ (lastOf l₁ 0) q
  have hnodup := h.nodup
  have hlinked := h.linked
  rw [hbs] at hlinked hnodup
  -- the link of the moved block is the old one's
  have hnext : st₂.mem.next = Function.update st.mem.next q (st.mem.next b) := by
    rw [← hst₂]
    rfl
  have hsame : ∀ x ∈ l₁ ++ b :: l₂, st₂.mem.next x = st.mem.next x := by
    intro x hx
    rw [hnext]
    by_cases hxq : x = q
    · subst hxq
      rw [Function.update_self]
      rcases List.mem_append.mp hx with hm | hm
      · exact absurd (List.mem_append_left _ hm) hq
      · rcases List.mem_cons.mp hm with rfl | hm
        · rfl
        · exact absurd (List.mem_append_right _ hm) hq
    · exact Function.update_of_ne hxq _ _
  have htail : Linked id 0 st.mem.next (st.mem.next b) l₂ := by
    have hrest : ∀ {x l}, Linked id 0 st.mem.next x (l ++ b :: l₂) →
        Linked id 0 st.mem.next (st.mem.next b) l₂ := by
      intro x l
      induction l generalizing x with
      | nil => exact fun hl => hl.tail
      | cons a l ih => exact fun hl => ih hl.tail
    exact hrest hlinked
  have hlinked₂ : Linked id 0 (st₂.setNext (lastOf l₁ 0) q).mem.next
      (st₂.setNext (lastOf l₁ 0) q).set.blocks (l₁ ++ q :: l₂) := by
    have hold : Linked id 0 st₂.mem.next st₂.set.blocks (l₁ ++ b :: l₂) := by
      have hblocks : st₂.set.blocks = st.set.blocks := by
        rw [← hst₂]
        rfl
      rw [hblocks]
      exact hlinked.move hsame
    refine setNext_linked hold (Linked.cons ?_ (Nat.ne_of_gt hpos)) fun x hx hm => ?_
    · have hqn : st₂.mem.next (id q) = st.mem.next b := by
        rw [hnext]
        exact Function.update_self _ _ _
      rw [hqn]
      exact htail.move fun x hx => hsame x (List.mem_append_right _ (List.mem_cons_of_mem b hx))
    · rcases List.mem_cons.mp hm with rfl | hm
      · exact hq (List.mem_append_left _ hx)
      · exact (List.nodup_append.mp hnodup).2.2 x hx x (List.mem_cons_of_mem b hm) rfl
  have hnew : st₂.mem.size (q + ALLOC_BLOCK_HDR_SZ) = n := by
    rw [← hst₂]
    exact Function.update_self _ _ _
  have hblock : Block (st₂.setNext (lastOf l₁ 0) q).mem q [q + ALLOC_BLOCK_HDR_SZ] := by
    refine block_single hpos hqd hbelow hn ?_ ?_ ?_ ?_
    · rw [tf, ← hst₂]
      exact Function.update_self _ _ _
    · rw [te, ← hst₂]
      exact Function.update_self _ _ _
    · rw [ts, hnew]
    · rw [th, ← hst₂]
      show _ ∈ heap.regions
      rw [hregions]
      exact List.mem_cons_self
  obtain ⟨tf₁, te₁, ts₁, ta₁, -, tk₁, tl₁⟩ := setNext_fields st (lastOf l₁ 0) (st.mem.next b)
  obtain ⟨hshape, hkept⟩ := h₁.addBlock (st₂.setNext (lastOf l₁ 0) q) hregions hfresh
    (fun x => by
      rw [List.mem_append, List.mem_append, List.mem_cons]
      exact or_left_comm)
    hlinked₂ hblock (by rw [te, ← hst₂]; exact Function.update_self _ _ _)
    ⟨by
      show _ = (st.setNext (lastOf l₁ 0) (st.mem.next b)).set.keeper
      rw [tk, tk₁, ← hst₂]
      rfl, by
      show _ = (st.setNext (lastOf l₁ 0) (st.mem.next b)).set.freelist
      rw [tl, tl₁, ← hst₂]
      rfl⟩
    (by
      rw [th, ← hst₂]
      rfl)
    (fun x hx => by
      show _ = (st.setNext (lastOf l₁ 0) (st.mem.next b)).mem.freeptr x ∧
        _ = (st.setNext (lastOf l₁ 0) (st.mem.next b)).mem.endptr x
      rw [tf, te, tf₁, te₁, ← hst₂]
      exact ⟨Function.update_of_ne hx _ _, Function.update_of_ne hx _ _⟩)
    (fun c' hc' => by
      have hne : c' ≠ q + ALLOC_BLOCK_HDR_SZ := by
        rintro rfl
        exact hchunk hc'
      show _ = (st.setNext (lastOf l₁ 0) (st.mem.next b)).mem.size c' ∧
        _ = (st.setNext (lastOf l₁ 0) (st.mem.next b)).mem.aset c'
      rw [ts, ta, ts₁, ta₁, ← hst₂]
      exact ⟨Function.update_of_ne hne _ _, Function.update_of_ne hne _ _⟩)
  refine ⟨hshape, fun c' hc' hgone => ?_, ?_⟩
  · obtain ⟨h2, h3⟩ := hkept₁ c' hc' hgone
    obtain ⟨h4, h5⟩ := hkept c' h2 List.not_mem_nil
    exact ⟨h4, h5.trans h3⟩
  · rintro c' ⟨b', hb', hm⟩ hne rfl
    rw [hbs] at hb'
    rcases List.mem_append.mp hb' with hb' | hb'
    · exact hchunk ⟨b', List.mem_append_left _ hb', hm⟩
    · rcases List.mem_cons.mp hb' with rfl | hb'
      · rw [hcs] at hm
        exact hne (List.mem_singleton.mp hm)
      · exact hchunk ⟨b', List.mem_append_right _ hb', hm⟩

theorem reallocLarge_spec (h : Shape st L) (hc : L.Used c) (hbig : ALLOC_CHUNK_LIMIT < st.mem.size c)
    {size : Nat} (hgt : st.mem.size c < size) (hle : size ≤ MAX_ALLOC_SIZE) :
    Ends (· = .exhausted) (reallocLarge A st c size) (Reallocated st L c size) := by
  obtain ⟨b, hb, hcb, hcs, hkeep⟩ := h.block_of_large hc.1 hbig
  obtain ⟨l₁, b', l₂, hbs, hcb', hfind⟩ := findBlock_spec 0 h.linked h.length_le ⟨b, hb, hcb⟩
  obtain rfl : b' = b := by omega
  obtain ⟨hsize, hdvd⟩ := maxAlign_bounds hle
  unfold reallocLarge
  rw [hfind, ok_bind]
  dsimp only
  generalize maxAlign size = n at hsize hdvd
  rcases ha : st.mem.heap.realloc A b' (n + ALLOC_BLOCK_HDR_SZ + ALLOC_CHUNK_HDR_SZ) with ⟨_ | q, heap⟩
  · rfl
  obtain ⟨hshape, hkept, hnew⟩ := h.moveLarge hbs hcs hc hkeep
    (Heap.grants_of_alloc (Heap.realloc_some ha)) ⟨by omega, hdvd⟩
  refine ⟨_, q + ALLOC_BLOCK_HDR_SZ, rfl, hshape, hkept, ⟨⟨q, ?_, ?_⟩, fun k hk hm => ?_⟩,
    fun c' hc' hg => hnew c' hc'.1 fun heq => hg (heq ▸ List.mem_cons_self), ?_⟩
  · exact List.mem_append_right _ List.mem_cons_self
  · dsimp only
    rw [Function.update_self]
    exact List.mem_cons_self
  · refine hnew _ (h.member k hk _ hm) ?_ rfl
    intro heq
    exact hc.2 k hk (heq ▸ hm)
  · obtain ⟨-, -, ts, -, -, -, -⟩ := setNext_fields (st.movedBlock b' q n heap) (lastOf l₁ 0) q
    have hsz : (st.movedBlock b' q n heap).mem.size (q + ALLOC_BLOCK_HDR_SZ) = n :=
      Function.update_self _ _ _
    rw [ts, hsz]
    exact hsize

/-! ## In place -/

/-- The headers after the last chunk of the top block has grown. -/
def State.grown (st : State) (c delta : Nat) : State :=
  { st with mem := { st.mem with
    freeptr := Function.update st.mem.freeptr st.set.blocks (st.mem.freeptr st.set.blocks + delta)
    size := Function.update st.mem.size c (st.mem.size c + delta) } }

/-- A chunk grows only at the end of the top block, into free space, and to a size some
free list is for. -/
theorem growth_some (h : Shape st L) (hc : L.Chunk c) {size delta : Nat} (hgt : st.mem.size c < size)
    (hg : growth st c size = some delta) :
    st.set.blocks ∈ L.blocks ∧ c ∈ L.chunks st.set.blocks ∧
      c + ALLOC_CHUNK_HDR_SZ + st.mem.size c = st.mem.freeptr st.set.blocks ∧
      st.mem.freeptr st.set.blocks + delta ≤ st.mem.endptr st.set.blocks ∧
      Small (st.mem.size c + delta) ∧ size ≤ st.mem.size c + delta := by
  unfold growth at hg
  dsimp only at hg
  split at hg
  · rename_i hlast
    obtain ⟨hlim, hend⟩ := hlast
    split at hg
    · rename_i hroom
      obtain rfl := Option.some.inj hg
      unfold ALLOC_CHUNK_HDR_SZ at hend ⊢
      have hidx := freeIndex_lt size (by omega) hlim
      have hfit := (freeIndex_spec size (by omega)
        (Nat.le_trans hlim (by decide))).1
      have hnewsize : st.mem.size c + (1 <<< (allocSetFreeIndex size + ALLOC_MIN_BITS) - st.mem.size c) =
          2 ^ (allocSetFreeIndex size + 4) := by
        rw [Nat.one_shiftLeft]
        unfold ALLOC_MIN_BITS
        omega
      generalize 1 <<< (allocSetFreeIndex size + ALLOC_MIN_BITS) - st.mem.size c = delta at hroom hnewsize ⊢
      obtain ⟨b, hb, hm⟩ := hc
      have htop : st.set.blocks ∈ L.blocks := by
        refine h.top_mem fun h0 => ?_
        rw [h.linked.eq_nil_iff.mp h0] at hb
        cases hb
      have hin := h.chunk_in hb hm
      have htop₁ := (h.block _ htop).start_le
      have htop₂ := (h.block _ htop).free_le
      obtain rfl : b = st.set.blocks :=
        h.block_unique hb htop (x := c + 32 + st.mem.size c - 1) (by omega) (by omega)
      exact ⟨htop, hm, by omega, by omega, ⟨_, hidx, hnewsize⟩, by omega⟩
    · cases hg
  · cases hg

/-- The last chunk of the top block grows into the free space behind it. -/
theorem Shape.grow (h : Shape st L) (hc : L.Used c) (hsmall : Small (st.mem.size c)) {delta : Nat}
    (htop : st.set.blocks ∈ L.blocks) (hm : c ∈ L.chunks st.set.blocks)
    (hend : c + ALLOC_CHUNK_HDR_SZ + st.mem.size c = st.mem.freeptr st.set.blocks)
    (hroom : st.mem.freeptr st.set.blocks + delta ≤ st.mem.endptr st.set.blocks)
    (hnew : Small (st.mem.size c + delta)) : Shape (st.grown c delta) L := by
  generalize hst' : st.grown c delta = st'
  have hsizes : ∀ c', c' ≠ c → st'.mem.size c' = st.mem.size c' := by
    intro c' hne
    rw [← hst']
    exact Function.update_of_ne hne _ _
  have hsize' : st'.mem.size c = st.mem.size c + delta := by
    rw [← hst']
    exact Function.update_self _ _ _
  have hgrown : Small (st'.mem.size c) := hsize' ▸ hnew
  have hfreeptr : st'.mem.freeptr st.set.blocks = st.mem.freeptr st.set.blocks + delta := by
    rw [← hst']
    exact Function.update_self _ _ _
  have hendptr : st'.mem.endptr = st.mem.endptr := by
    rw [← hst']
    rfl
  have hblocks : ∀ c' ∈ L.chunks st.set.blocks, Small (st'.mem.size c') := by
    intro c' hc'
    by_cases hcc : c' = c
    · rw [hcc]
      exact hgrown
    · rw [hsizes c' hcc]
      rcases (h.block _ htop).kind with ⟨c₀, hcs, hbig, -, -⟩ | hall
      · rw [hcs] at hc' hm
        exact absurd ((List.mem_singleton.mp hc').trans (List.mem_singleton.mp hm).symm) hcc
      · exact hall c' hc'
  have hblock : Block st'.mem st.set.blocks (L.chunks st.set.blocks) := by
    have hold := h.block _ htop
    refine ⟨hold.pos, hold.dvd, ?_, ?_, ?_, ?_, Or.inr hblocks⟩
    · obtain ⟨init, hinit, htiled⟩ := hold.tiled.eq_snoc (by decide) hm hend
      have hnd : (init ++ [c]).Nodup := by
        rw [← hinit]
        exact hold.tiled.pairwise.imp fun hle => by
          unfold ALLOC_CHUNK_HDR_SZ at hle
          omega
      have hmoved := (htiled.move st'.mem.size fun c' hc' => hsizes c' (by
        rintro rfl
        exact (List.nodup_append.mp hnd).2.2 c' hc' c' List.mem_cons_self rfl)).snoc
      rw [hinit, hfreeptr]
      convert hmoved using 1
      rw [hsize']
      omega
    · rw [hfreeptr, hendptr]
      exact hroom
    · rw [hendptr]
      exact hold.below
    · unfold blockRegion
      rw [hendptr, ← hst']
      exact hold.region
  refine ⟨by rw [← hst']; exact h.linked, fun b' hb' => ?_, fun b' hb' b'' hb'' hne => ?_,
    fun hk => ?_, fun k hk => by rw [← hst']; exact h.lists k hk, fun k hk c' hc' => ?_, h.member⟩
  · by_cases hbb : b' = st.set.blocks
    · rw [hbb]
      exact hblock
    · refine (h.block b' hb').move ?_ (by rw [hendptr]) (fun c' hc' => hsizes c' ?_) ?_
      · rw [← hst']
        exact Function.update_of_ne hbb _ _
      · rintro rfl
        exact hbb (h.owner hb' htop hc' hm)
      · rw [← hst']
        exact (h.block b' hb').region
  · unfold blockRegion
    rw [hendptr]
    exact h.apart b' hb' b'' hb'' hne
  · have hkeeper : st'.set.keeper = st.set.keeper := by
      rw [← hst']
      rfl
    rw [hkeeper] at hk ⊢
    refine ⟨(h.keeper hk).1, fun c' hc' => ?_⟩
    by_cases hcc : c' = c
    · rw [hcc]
      exact hgrown
    · rw [hsizes c' hcc]
      exact (h.keeper hk).2 c' hc'
  · rw [hsizes c' (by
      rintro rfl
      exact hc.2 k hk hc')]
    exact h.sizes k hk c' hc'

theorem grown_kept (st : State) (L : Layout) (c delta : Nat) : Kept [c] st L (st.grown c delta) L :=
  fun _ hc' hne => ⟨hc', Function.update_of_ne (fun heq => hne (List.mem_singleton.mpr heq)) _ _⟩

theorem growth_spec (h : Shape st L) (hc : L.Used c) (hsmall : Small (st.mem.size c)) {size delta : Nat}
    (hgt : st.mem.size c < size) (hg : growth st c size = some delta) :
    Reallocated st L c size (c + ALLOC_CHUNK_HDR_SZ, st.grown c delta) := by
  obtain ⟨htop, hm, hend, hroom, hnew, hfit⟩ := growth_some h hc.1 hgt hg
  refine ⟨L, c, rfl, h.grow hc hsmall htop hm hend hroom hnew, grown_kept st L c delta, hc,
    fun c' _ hne heq => hne (heq ▸ List.mem_cons_self), ?_⟩
  have hsize : (st.grown c delta).mem.size c = st.mem.size c + delta := Function.update_self _ _ _
  rw [hsize]
  exact hfit

/-! ## Altogether -/

theorem allocSetRealloc_spec (h : Shape st L) (hc : L.Used c) {size : Nat} (h0 : 0 < size)
    (hle : size ≤ MAX_ALLOC_SIZE) :
    Ends (· = .exhausted) (allocSetRealloc A st (c + ALLOC_CHUNK_HDR_SZ) size)
      (Reallocated st L c size) := by
  unfold allocSetRealloc
  dsimp only
  rw [Nat.add_sub_cancel]
  split
  · rename_i hge
    exact ⟨L, c, rfl, h, .refl [c] st L, hc, fun c' _ hne heq => hne (heq ▸ List.mem_cons_self), hge⟩
  rename_i hgt
  have hgt := Nat.not_le.mp hgt
  split
  · rename_i hbig
    exact reallocLarge_spec h hc hbig hgt hle
  rename_i hsmall
  have hsmall := (h.chunk_kind hc.1).resolve_left hsmall
  split
  · rename_i delta hg
    exact growth_spec h hc hsmall hgt hg
  · refine (allocSetAlloc_spec (A := A) h h0 hle).bind ?_
    rintro ⟨p, st₁⟩ ⟨L₁, c₁, rfl, h₁, hk₁, hused₁, hnew₁, hsize₁⟩
    obtain ⟨hc₁, hsame⟩ := hk₁ c hc List.not_mem_nil
    have hne := hnew₁ c hc List.not_mem_nil
    obtain ⟨st₂, L₂, hfree, h₂, hk₂⟩ := allocSetFree_spec h₁ hc₁
    dsimp only at hfree hsize₁ ⊢
    rw [hfree]
    obtain ⟨hused₂, hsize₂⟩ := hk₂ c₁ hused₁ fun hm => hne (List.mem_singleton.mp hm).symm
    refine ⟨L₂, c₁, rfl, h₂, fun c' hc' hg => ?_, hused₂, fun c' hc' _ => hnew₁ c' hc' List.not_mem_nil, ?_⟩
    · obtain ⟨h3, h4⟩ := hk₁ c' hc' List.not_mem_nil
      obtain ⟨h5, h6⟩ := hk₂ c' h3 hg
      exact ⟨h5, h6.trans h4⟩
    · show size ≤ st₂.mem.size c₁
      rw [hsize₂]
      exact hsize₁

end PostgresV7.Aset
