import PostgresV7.Aset.Realloc
import PostgresV7.Lib.Runs

/-!
# Runs of an allocation set

What callers have is a list of pointers with the sizes they asked for. It is part
of the state of a run, and every call keeps it in step with the set.
-/

namespace PostgresV7.Aset

open Regions Chains Tilings Outcomes Runs

variable {A : Allocator} {st st' : State} {L : Layout} {b c : Nat}

/-! ## `alloc_set_reset` and creation -/

/-- The loop ends with the keeper emptied and every region but the keeper's given
back. -/
theorem resetBlocks_spec (st : State) {k x : Nat} {bs : List Nat}
    (h : Linked id 0 st.mem.next x bs)
    (hk : bs.length ≤ k) :
    ∃ st', resetBlocks k x st = .ok st' ∧ st'.set = st.set ∧ st'.mem.endptr = st.mem.endptr ∧
      (st.set.keeper ∈ bs → st'.mem.next st.set.keeper = 0 ∧
        st'.mem.freeptr st.set.keeper = st.set.keeper + ALLOC_BLOCK_HDR_SZ) ∧
      (st.set.keeper ∉ bs → st'.mem.next st.set.keeper = st.mem.next st.set.keeper ∧
        st'.mem.freeptr st.set.keeper = st.mem.freeptr st.set.keeper) ∧
      ∀ r ∈ st.mem.heap.regions, r.base = st.set.keeper → r ∈ st'.mem.heap.regions := by
  induction bs generalizing k x st with
  | nil =>
    refine ⟨st, ?_, rfl, rfl, fun hm => absurd hm List.not_mem_nil, fun _ => ⟨rfl, rfl⟩, fun r hr _ => hr⟩
    unfold resetBlocks
    exact if_pos h
  | cons b bs ih =>
    have hnd := List.nodup_cons.mp h.nodup
    obtain ⟨rfl, hx, hrest⟩ := h
    cases k with
    | zero => exact absurd hk (Nat.not_succ_le_zero _)
    | succ k =>
      have hlen := Nat.le_of_succ_le_succ hk
      unfold resetBlocks
      rw [if_neg hx]
      dsimp only
      by_cases hkeep : x = st.set.keeper
      · rw [if_pos hkeep]
        generalize hst₁ : ({ st with mem := { st.mem with
          freeptr := Function.update st.mem.freeptr x (x + ALLOC_BLOCK_HDR_SZ)
          next := Function.update st.mem.next x 0 } } : State) = st₁
        have hlinked : Linked id 0 st₁.mem.next (st.mem.next x) bs := by
          refine (chain_iff_linked.mp hrest).move fun b hb => ?_
          rw [← hst₁]
          refine Function.update_of_ne ?_ _ _
          rintro rfl
          exact hnd.1 hb
        have hset : st₁.set = st.set := by rw [← hst₁]
        obtain ⟨st', hreset, h1, h2, -, h4, h5⟩ := ih st₁ hlinked hlen
        have hnot : st₁.set.keeper ∉ bs := by
          rw [hset, ← hkeep]
          exact hnd.1
        obtain ⟨h6, h7⟩ := h4 hnot
        refine ⟨st', hreset, h1.trans hset, h2.trans (by rw [← hst₁]), fun _ => ?_, fun hn => ?_, ?_⟩
        · rw [hset, ← hkeep] at h6 h7
          rw [← hkeep, h6, h7, ← hst₁]
          exact ⟨Function.update_self _ _ _, Function.update_self _ _ _⟩
        · exact absurd (hkeep ▸ List.mem_cons_self) hn
        · rw [hset, ← hst₁] at h5
          exact h5
      · rw [if_neg hkeep]
        obtain ⟨st', hreset, h1, h2, h3, h4, h5⟩ := ih (st.freeBlock x)
          (chain_iff_linked.mp hrest) hlen
        refine ⟨st', hreset, h1, h2, fun hm => h3 ?_, fun hn => h4 ?_, fun r hr hbase => h5 r ?_ hbase⟩
        · exact (List.mem_cons.mp hm).resolve_left fun heq => hkeep heq.symm
        · exact fun hm => hn (List.mem_cons_of_mem x hm)
        · exact Heap.mem_release.mpr ⟨hr, fun heq => hkeep (heq.symm.trans hbase)⟩

/-- The keeper, or nothing. -/
def Layout.empty (keeper : Nat) : Layout :=
  { blocks := if keeper = 0 then [] else [keeper], chunks := fun _ => [], free := fun _ => [] }

/-- A set with nothing in it but an empty keeper. -/
theorem shape_empty (hblocks : st.set.blocks = st.set.keeper)
    (hfree : st.set.freelist = fun _ => 0) (hnext : st.set.keeper ≠ 0 →
      st.mem.next st.set.keeper = 0 ∧ Block st.mem st.set.keeper []) :
    Shape st (Layout.empty st.set.keeper) := by
  have hmem : ∀ b ∈ (Layout.empty st.set.keeper).blocks, b = st.set.keeper ∧ st.set.keeper ≠ 0 := by
    intro b hb
    unfold Layout.empty at hb
    dsimp only at hb
    split at hb
    · cases hb
    · rename_i hne
      exact ⟨List.mem_singleton.mp hb, hne⟩
  refine ⟨?_, fun b hb => ?_, fun b hb b' hb' hne => ?_, fun hk => ⟨?_, fun c hc => absurd hc List.not_mem_nil⟩,
    fun k _ => ?_, fun k _ c hc => absurd hc List.not_mem_nil, fun k _ c hc => absurd hc List.not_mem_nil⟩
  · unfold Layout.empty
    dsimp only
    rw [hblocks]
    split
    · rename_i h0
      exact h0
    · rename_i hne
      refine Linked.cons ?_ hne
      exact (hnext hne).1
  · obtain ⟨rfl, hne⟩ := hmem b hb
    exact (hnext hne).2
  · exact absurd ((hmem b hb).1.trans (hmem b' hb').1.symm) hne
  · unfold Layout.empty
    dsimp only
    rw [if_neg hk]
    exact List.mem_cons_self
  · rw [hfree]
    rfl

theorem allocSetReset_spec (h : Shape st L) :
    ∃ st', allocSetReset st = .ok st' ∧ Shape st' (Layout.empty st'.set.keeper) := by
  obtain ⟨st', hreset, hset, hend, hin, -, hheap⟩ := resetBlocks_spec
    ({ st with set := { st.set with freelist := fun _ => 0, blocks := st.set.keeper } })
    h.linked h.length_le
  refine ⟨st', hreset, shape_empty (by rw [hset]) (by rw [hset]) fun hk => ?_⟩
  rw [hset] at hk ⊢
  dsimp only at hk hin hheap ⊢
  have hmem := (h.keeper hk).1
  obtain ⟨hnext, hfree⟩ := hin hmem
  have hblock := h.block _ hmem
  have hstart := hblock.start_le
  have hfle := hblock.free_le
  refine ⟨hnext, hblock.pos, hblock.dvd, hfree, ?_, ?_, ?_, Or.inr fun c hc => absurd hc List.not_mem_nil⟩
  · rw [hfree, hend]
    unfold ALLOC_BLOCK_HDR_SZ
    exact Nat.le_trans hstart hfle
  · rw [hend]
    exact hblock.below
  · refine hheap _ ?_ rfl
    unfold blockRegion
    rw [hend]
    exact hblock.region

/-- A new set is empty, where the size of its keeper does not wrap. -/
theorem allocSetContextCreate_spec {mem : Memory} {self minContextSize initBlockSize maxBlockSize : Nat}
    (hmin : minContextSize + 16 ≤ 2 ^ 64)
    (hcreate : allocSetContextCreate A mem self minContextSize initBlockSize maxBlockSize = .ok st) :
    Shape st (Layout.empty st.set.keeper) := by
  unfold allocSetContextCreate at hcreate
  dsimp only at hcreate
  split at hcreate
  · rename_i hgt
    rcases ha : mem.heap.alloc A (maxAlign minContextSize) with ⟨_ | p, heap⟩
    · rw [ha] at hcreate
      cases hcreate
    · rw [ha] at hcreate
      obtain ⟨hregions, hpos, hdvd, hbelow, -⟩ := Heap.alloc_some ha
      have hsize : minContextSize ≤ maxAlign minContextSize := by
        rw [show maxAlign minContextSize = _ from typeAlign_eq hmin (by decide)]
        exact Align.le_alignUp (by decide) minContextSize
      obtain rfl := Except.ok.inj hcreate
      refine shape_empty rfl rfl fun _ => ⟨Function.update_self _ _ _, ?_⟩
      have hfreeptr : Function.update mem.freeptr p (p + ALLOC_BLOCK_HDR_SZ) p = p + ALLOC_BLOCK_HDR_SZ :=
        Function.update_self _ _ _
      have hendptr : Function.update mem.endptr p (p + maxAlign minContextSize) p =
        p + maxAlign minContextSize := Function.update_self _ _ _
      refine ⟨hpos, hdvd, hfreeptr, ?_, ?_, ?_, Or.inr fun c hc => absurd hc List.not_mem_nil⟩
      · show Function.update mem.freeptr p (p + ALLOC_BLOCK_HDR_SZ) p ≤
          Function.update mem.endptr p (p + maxAlign minContextSize) p
        rw [hfreeptr, hendptr]
        unfold ALLOC_BLOCK_HDR_SZ ALLOC_CHUNK_HDR_SZ at *
        omega
      · show Function.update mem.endptr p (p + maxAlign minContextSize) p < 2 ^ 63
        rw [hendptr]
        exact hbelow
      · show (⟨p, Function.update mem.endptr p (p + maxAlign minContextSize) p - p⟩ : Region) ∈ heap.regions
        rw [hendptr, Nat.add_sub_cancel_left, hregions]
        exact List.mem_cons_self
  · obtain rfl := Except.ok.inj hcreate
    exact shape_empty rfl rfl fun hk => absurd rfl hk

/-! ## Callers -/

/-- The set, and the pointers callers have with the sizes they asked for. -/
structure System where
  st : State
  live : List (Nat × Nat)

inductive Event where
  | alloc (size pointer : Nat)
  | free (pointer : Nat)
  | realloc (pointer size newPointer : Nat)
  | reset
  deriving DecidableEq, Repr

/-- A request a caller may make. -/
def Valid (size : Nat) : Prop := 1 ≤ size ∧ size ≤ MAX_ALLOC_SIZE

/-- What is left when a pointer is given back. -/
def without (live : List (Nat × Nat)) (pointer : Nat) : List (Nat × Nat) :=
  live.filter fun x => x.1 ≠ pointer

/-- A call that returns. Only live pointers are given back. -/
inductive Step (A : Allocator) : System → Event → System → Prop where
  | alloc {s : System} {size p : Nat} {st' : State} : Valid size →
      allocSetAlloc A s.st size = .ok (p, st') →
      Step A s (.alloc size p) ⟨st', (p, size) :: s.live⟩
  | free {s : System} {p : Nat} {st' : State} : p ∈ s.live.map Prod.fst →
      allocSetFree s.st p = .ok st' → Step A s (.free p) ⟨st', without s.live p⟩
  | realloc {s : System} {p size p' : Nat} {st' : State} : p ∈ s.live.map Prod.fst → Valid size →
      allocSetRealloc A s.st p size = .ok (p', st') →
      Step A s (.realloc p size p') ⟨st', (p', size) :: without s.live p⟩
  | reset {s : System} {st' : State} : allocSetReset s.st = .ok st' → Step A s .reset ⟨st', []⟩

/-- The live pointers are chunks in use, each once, and large enough. -/
structure Backed (L : Layout) (s : System) : Prop where
  nodup : (s.live.map Prod.fst).Nodup
  used : ∀ x ∈ s.live, ∃ c, x.1 = c + ALLOC_CHUNK_HDR_SZ ∧ L.Used c ∧ x.2 ≤ s.st.mem.size c

theorem Backed.chunk {s : System} {p : Nat} (h : Backed L s) (hp : p ∈ s.live.map Prod.fst) :
    ∃ c, p = c + ALLOC_CHUNK_HDR_SZ ∧ L.Used c := by
  obtain ⟨x, hx, rfl⟩ := List.mem_map.mp hp
  obtain ⟨c, hc, hused, -⟩ := h.used x hx
  exact ⟨c, hc, hused⟩

/-- Pointers not given back stay backed. -/
theorem Backed.keep {s : System} {gone : List Nat} {L' : Layout} {live : List (Nat × Nat)}
    (h : Backed L s) (hkept : Kept gone s.st L st' L') (hsub : live.Sublist s.live)
    (hgone : ∀ x ∈ live, ∀ c ∈ gone, x.1 ≠ c + ALLOC_CHUNK_HDR_SZ) : Backed L' ⟨st', live⟩ := by
  refine ⟨h.nodup.sublist (hsub.map Prod.fst), fun x hx => ?_⟩
  obtain ⟨c, hc, hused, hle⟩ := h.used x (hsub.subset hx)
  obtain ⟨hused', hsize⟩ := hkept c hused fun hg => hgone x hx c hg hc
  refine ⟨c, hc, hused', ?_⟩
  show x.2 ≤ st'.mem.size c
  rw [hsize]
  exact hle

/-- One pointer more. -/
theorem Backed.cons {s : System} {gone : List Nat} {L' : Layout} {live : List (Nat × Nat)} {size : Nat}
    (h : Backed L s) (hkept : Kept gone s.st L st' L') (hsub : live.Sublist s.live)
    (hgone : ∀ x ∈ live, ∀ c ∈ gone, x.1 ≠ c + ALLOC_CHUNK_HDR_SZ)
    (hnew : New gone L st' L' c size) : Backed L' ⟨st', (c + ALLOC_CHUNK_HDR_SZ, size) :: live⟩ := by
  have hrest := h.keep hkept hsub hgone
  refine ⟨List.nodup_cons.mpr ⟨fun hm => ?_, hrest.nodup⟩, fun x hx => ?_⟩
  · obtain ⟨x, hx, heq⟩ := List.mem_map.mp hm
    obtain ⟨c', hc', hused, -⟩ := h.used x (hsub.subset hx)
    refine hnew.2.1 c' hused (fun hg => hgone x hx c' hg hc') ?_
    exact Nat.add_right_cancel (hc'.symm.trans heq)
  · rcases List.mem_cons.mp hx with rfl | hx
    · exact ⟨c, rfl, hnew.1, hnew.2.2⟩
    · exact hrest.used x hx

theorem without_gone (live : List (Nat × Nat)) (c : Nat) :
    ∀ x ∈ without live (c + ALLOC_CHUNK_HDR_SZ), ∀ c' ∈ [c], x.1 ≠ c' + ALLOC_CHUNK_HDR_SZ := by
  intro x hx c' hc'
  rw [List.mem_singleton.mp hc']
  exact of_decide_eq_true (List.mem_filter.mp hx).2

/-- The set has a layout that backs the live pointers. -/
def Sound (s : System) : Prop := ∃ L, Shape s.st L ∧ Backed L s

theorem Sound.step {s s' : System} {ev : Event} (h : Sound s) (hs : Step A s ev s') : Sound s' := by
  obtain ⟨L, hshape, hback⟩ := h
  cases hs with
  | alloc hv hrun =>
    obtain ⟨L', c, rfl, hshape', hkept, hnew⟩ := (allocSetAlloc_spec hshape hv.1 hv.2).of_ok hrun
    exact ⟨L', hshape', hback.cons hkept (List.Sublist.refl _) (fun _ _ _ hc => absurd hc List.not_mem_nil)
      hnew⟩
  | free hp hrun =>
    obtain ⟨c, rfl, hused⟩ := hback.chunk hp
    obtain ⟨st₁, L', hfree, hshape', hkept⟩ := allocSetFree_spec hshape hused
    obtain rfl := Except.ok.inj (hfree.symm.trans hrun)
    exact ⟨L', hshape', hback.keep hkept List.filter_sublist (without_gone s.live c)⟩
  | realloc hp hv hrun =>
    obtain ⟨c, rfl, hused⟩ := hback.chunk hp
    obtain ⟨L', c', rfl, hshape', hkept, hnew⟩ :=
      (allocSetRealloc_spec hshape hused hv.1 hv.2).of_ok hrun
    exact ⟨L', hshape', hback.cons hkept List.filter_sublist (without_gone s.live c) hnew⟩
  | reset hrun =>
    obtain ⟨st₁, hreset, hshape'⟩ := allocSetReset_spec hshape
    obtain rfl := Except.ok.inj (hreset.symm.trans hrun)
    exact ⟨_, hshape', List.nodup_nil, fun x hx => absurd hx List.not_mem_nil⟩

/-! ## What callers rely on -/

/-- The usable bytes behind a pointer. -/
def usable (s : System) (pointer : Nat) : Region :=
  ⟨pointer, s.st.mem.size (pointer - ALLOC_CHUNK_HDR_SZ)⟩

/-- Blocks are tiled by their chunks, free chunks are where they belong, and live
ones are aligned, large enough, and apart. -/
structure WellFormed (s : System) (L : Layout) : Prop where
  blocks : Linked id 0 s.st.mem.next s.st.set.blocks L.blocks
  tiled : ∀ b ∈ L.blocks, Tiled ALLOC_CHUNK_HDR_SZ s.st.mem.size (b + ALLOC_BLOCK_HDR_SZ) (L.chunks b)
    (s.st.mem.freeptr b)
  free_le : ∀ b ∈ L.blocks, s.st.mem.freeptr b ≤ s.st.mem.endptr b
  lists : ∀ k < ALLOC_SET_NUM_FREELISTS,
    Linked id 0 s.st.mem.aset (s.st.set.freelist k) (L.free k) ∧
    ∀ c ∈ L.free k, L.Chunk c ∧ s.st.mem.size c = 2 ^ (k + 4)
  once : ((List.range ALLOC_SET_NUM_FREELISTS).flatMap L.free).Nodup
  live : ∀ x ∈ s.live, 16 ∣ x.1 ∧ L.Chunk (x.1 - ALLOC_CHUNK_HDR_SZ) ∧ x.2 ≤ (usable s x.1).size ∧
    ∀ k < ALLOC_SET_NUM_FREELISTS, x.1 - ALLOC_CHUNK_HDR_SZ ∉ L.free k
  apart : s.live.Pairwise fun x y => (usable s x.1).Apart (usable s y.1)

/-- A call returns, or memory is exhausted. -/
def Returns {α : Type} (x : Except Fault α) : Prop := Ends (· = .exhausted) x fun _ => True

theorem Sound.wellFormed {s : System} (h : Sound s) : ∃ L, WellFormed s L := by
  obtain ⟨L, hshape, hback⟩ := h
  refine ⟨L, hshape.linked, fun b hb => (hshape.block b hb).tiled, fun b hb => (hshape.block b hb).free_le,
    fun k hk => ⟨hshape.lists k hk, fun c hc => ⟨hshape.member k hk c hc, hshape.sizes k hk c hc⟩⟩,
    ?_, fun x hx => ?_, ?_⟩
  · refine List.nodup_flatMap.mpr ⟨fun k hk => (hshape.lists k (List.mem_range.mp hk)).nodup, ?_⟩
    refine (List.nodup_range.imp_of_mem ?_)
    intro j k hj hk hne c hcj hck
    exact hne (hshape.free_inj (List.mem_range.mp hj) (List.mem_range.mp hk) hcj hck)
  · obtain ⟨c, hc, hused, hle⟩ := hback.used x hx
    unfold usable
    rw [hc, Nat.add_sub_cancel]
    obtain ⟨b, hb, hm⟩ := hused.1
    exact ⟨Nat.dvd_add ((hshape.block b hb).chunk_dvd hm) (by decide), hused.1, hle, hused.2⟩
  · have hnd : s.live.Pairwise fun x y => x.1 ≠ y.1 := List.pairwise_map.mp hback.nodup
    refine hnd.imp_of_mem fun {x y} hx hy hne => ?_
    obtain ⟨c, hc, hused, -⟩ := hback.used x hx
    obtain ⟨c', hc', hused', -⟩ := hback.used y hy
    unfold usable Region.Apart
    rw [hc, hc', Nat.add_sub_cancel, Nat.add_sub_cancel]
    rw [hc, hc'] at hne
    have hap := hshape.chunks_apart hused.1 hused'.1 (by
      rintro rfl
      exact hne rfl)
    unfold ALLOC_CHUNK_HDR_SZ
    dsimp only
    omega

/-- Headers no one has written yet, and nothing allocated. -/
def bareMemory : Memory :=
  { next := fun _ => 0, freeptr := fun _ => 0, endptr := fun _ => 0, aset := fun _ => 0,
    size := fun _ => 0, heap := ⟨0, []⟩ }

end PostgresV7.Aset
