import PostgresV7.Aset.Marks

/-!
# `alloc_set_alloc` keeps the marks

Every way to a chunk ends with its requested size and its mark. What memory a request
finds no use for, and what a failed one leaves, is in order as well.
-/

namespace PostgresV7.Aset.Debug

open Regions Chains Tilings Ledgers Outcomes

variable {M : Libc} {s s' s₁ : Image} {L L' : Layout} {b c p n : Nat}

/-! ## `malloc` -/

/-- `malloc` handed out `n` bytes at `p`. -/
structure Granted (s s' : Image) (p n : Nat) : Prop where
  grants : s.st.mem.heap.Grants s'.st.mem.heap p n
  st : s'.st = { s.st with mem := { s.st.mem with heap := s'.st.mem.heap } }
  requested : s'.requested = s.requested
  bytes : ∀ x, ¬ (p ≤ x ∧ x < p + n) → s'.bytes x = s.bytes x
  ledger : s'.ledger = .obtained p :: s.ledger
  notices : s'.notices = s.notices

/-- `malloc` refused. -/
def Refused (s s' : Image) : Prop :=
  ∃ heap, s' = s.withHeap heap ∧ heap.regions = s.st.mem.heap.regions

theorem malloc_some (h : s.malloc M n = (some p, s')) : Granted s s' p n := by
  unfold Image.malloc at h
  rcases ha : s.st.mem.heap.alloc M.allocator n with ⟨_ | q, heap⟩
  · rw [ha] at h
    cases h
  · rw [ha] at h
    obtain ⟨hp, rfl⟩ := Prod.mk.inj h
    obtain rfl := Option.some.inj hp
    exact ⟨Heap.grants_of_alloc ha, rfl, rfl, fun x hx => if_neg hx, rfl, rfl⟩

theorem malloc_none (h : s.malloc M n = (none, s')) : Refused s s' := by
  unfold Image.malloc at h
  rcases ha : s.st.mem.heap.alloc M.allocator n with ⟨_ | q, heap⟩
  · rw [ha] at h
    obtain ⟨-, rfl⟩ := Prod.mk.inj h
    exact ⟨heap, rfl, Heap.alloc_none ha⟩
  · rw [ha] at h
    cases h

theorem Refused.trans {s'' : Image} (h : Refused s s') (h' : Refused s' s'') : Refused s s'' := by
  obtain ⟨heap, rfl, hr⟩ := h
  obtain ⟨heap', rfl, hr'⟩ := h'
  exact ⟨heap', rfl, hr'.trans hr⟩

theorem Refused.granted {s'' : Image} (h : Refused s s') (h' : Granted s' s'' p n) :
    Granted s s'' p n := by
  obtain ⟨heap, rfl, hr⟩ := h
  obtain ⟨⟨hregions, hpos, haligned, hinside, hfresh⟩, hst, hreq, hbytes, hledger, hnotices⟩ := h'
  have hrr : (s.withHeap heap).st.mem.heap.regions = s.st.mem.heap.regions := hr
  rw [hrr] at hregions hfresh
  exact ⟨⟨hregions, hpos, haligned, hinside, hfresh⟩, hst, hreq, hbytes, hledger, hnotices⟩

theorem mallocBlock_some {required k blkSize : Nat} (hle : required ≤ blkSize)
    (h : mallocBlock M required k blkSize s = (some (p, n), s')) : required ≤ n ∧ Granted s s' p n := by
  induction k generalizing blkSize s with
  | zero =>
    unfold mallocBlock at h
    rcases ha : s.malloc M blkSize with ⟨_ | q, s₁⟩
    · rw [ha] at h
      cases h
    · rw [ha] at h
      cases h
      exact ⟨hle, malloc_some ha⟩
  | succ k ih =>
    unfold mallocBlock at h
    rcases ha : s.malloc M blkSize with ⟨_ | q, s₁⟩
    · rw [ha] at h
      dsimp only at h
      split at h
      · split at h
        · cases h
        · rename_i hhalf
          obtain ⟨hreq, hg⟩ := ih (Nat.not_lt.mp hhalf) h
          exact ⟨hreq, (malloc_none ha).granted hg⟩
      · cases h
    · rw [ha] at h
      cases h
      exact ⟨hle, malloc_some ha⟩

theorem mallocBlock_none {required k blkSize : Nat}
    (h : mallocBlock M required k blkSize s = (none, s')) : Refused s s' := by
  induction k generalizing blkSize s with
  | zero =>
    unfold mallocBlock at h
    rcases ha : s.malloc M blkSize with ⟨_ | q, s₁⟩
    · rw [ha] at h
      cases h
      exact malloc_none ha
    · rw [ha] at h
      cases h
  | succ k ih =>
    unfold mallocBlock at h
    rcases ha : s.malloc M blkSize with ⟨_ | q, s₁⟩
    · rw [ha] at h
      dsimp only at h
      split at h
      · split at h
        · cases h
          exact malloc_none ha
        · exact (malloc_none ha).trans (ih h)
      · cases h
        exact malloc_none ha
    · rw [ha] at h
      cases h

/-! ## Between two calls -/

/-- The state between two calls. -/
structure Sane (s : Image) (L : Layout) : Prop where
  marked : Marked [] s L
  filled : Filled [] s.st L

/-- What a call that fails leaves behind. -/
def Survives (s : Image) (L : Layout) (s' : Image) : Prop := ∃ L', Sane s' L' ∧ Turns [] s L s' L'

/-- A chunk more in use, with `size` bytes asked for. -/
def Allocates (s : Image) (L : Layout) (size : Nat) (r : Nat × Image) : Prop :=
  ∃ L' c, r.1 = c + ALLOC_CHUNK_HDR_SZ ∧ Sane r.2 L' ∧ Turns [] s L r.2 L' ∧
    New [] L r.2.st L' c size ∧ r.2.requested c = size

/-- How `alloc_set_alloc` ends. -/
def EndsAlloc (s : Image) (L : Layout) (size : Nat) (x : Result (Nat × Image)) : Prop :=
  Ends (fun e => e.1 = .exhausted ∧ Survives s L e.2) x (Allocates s L size)

theorem Turns.refl (gone : List Nat) (s : Image) (L : Layout) : Turns gone s L s L :=
  ⟨rfl, rfl, .refl gone s.st L, fun _ hr => hr, fun x => Or.inr (.refl s x), settles_none rfl rfl, rfl⟩

theorem Allocates.of_turns {s₀ : Image} {L₀ : Layout} {size : Nat} {r : Nat × Image}
    (h : Allocates s L size r) (ht : Turns [] s₀ L₀ s L) : Allocates s₀ L₀ size r := by
  obtain ⟨L', c, hr, hsane, ht', ⟨hused, hnew, hsize⟩, hreq⟩ := h
  exact ⟨L', c, hr, hsane, ht.trans ht' (List.Subset.refl _) fun _ hm _ => hm,
    ⟨hused, fun c' hc' hg => hnew c' (ht.kept c' hc' hg).1 hg, hsize⟩, hreq⟩

theorem Marked.refused {but : List Nat} (h : Marked but s L) (hr : Refused s s') :
    Marked but s' L ∧ Turns [] s L s' L := by
  obtain ⟨heap, rfl, hregions⟩ := hr
  have ht : Turns [] s L (s.withHeap heap) L :=
    ⟨rfl, rfl, .refl [] s.st L, fun r hr => foreign_of_same hr rfl (fun _ _ => rfl) hregions,
      fun x => Or.inr ⟨rfl, rfl, rfl, rfl, rfl, rfl, rfl⟩, settles_none rfl rfl, rfl⟩
  refine ⟨h.turn ht ⟨h.shape.linked, fun b hb => ?_, h.shape.apart, h.shape.keeper, h.shape.lists,
    h.shape.sizes, h.shape.member⟩ h.free fun c hc hn => ⟨hc, hn, List.not_mem_nil⟩, ht⟩
  refine (h.shape.block b hb).move rfl rfl (fun _ _ => rfl) ?_
  show _ ∈ heap.regions
  rw [hregions]
  exact (h.shape.block b hb).region

theorem Sane.refused (h : Sane s L) (hr : Refused s s') : Survives s L s' := by
  obtain ⟨hm, ht⟩ := h.marked.refused hr
  refine ⟨L, ⟨hm, fun b hb hc => ?_⟩, ht⟩
  rw [ht.keeper]
  exact h.filled b hb hc

/-! ## Free lists -/

/-- A chunk out of use, already linked to the chunks of its free list, goes on top of it. -/
theorem Marked.shelve (h : Marked [c] s L) (hc : L.Used c) {k : Nat} (hk : k < ALLOC_SET_NUM_FREELISTS)
    (hsize : s.st.mem.size c = 2 ^ (k + 4)) (haset : s.st.mem.aset c = s.st.set.freelist k) :
    Marked [] ({ s with requested := Function.update s.requested c 0 }.onSet (·.setFreelist k c))
        { L with free := Function.update L.free k (c :: L.free k) } ∧
      Turns [c] s L ({ s with requested := Function.update s.requested c 0 }.onSet (·.setFreelist k c))
        { L with free := Function.update L.free k (c :: L.free k) } := by
  generalize hs₁ : { s with requested := Function.update s.requested c 0 }.onSet (·.setFreelist k c) = s₁
  have hreq : s₁.requested = Function.update s.requested c 0 := by
    rw [← hs₁]
    rfl
  have hst : s₁.st = s.st.setFreelist k c := by
    rw [← hs₁]
    rfl
  have hshape := h.shape.push hc hk hsize haset
  rw [← hst] at hshape
  have ht : Turns [c] s L s₁ { L with free := Function.update L.free k (c :: L.free k) } := by
    refine ⟨by rw [hst]; rfl, by rw [hst]; rfl, by rw [hst]; exact Shape.push_kept s.st hc k,
      fun r hr => foreign_of_same hr rfl (fun _ _ => by rw [hst]; rfl) (by rw [hst]; rfl), fun x => ?_,
      settles_none (by rw [← hs₁]; rfl) rfl, by rw [← hs₁]; rfl⟩
    by_cases hx : x = c
    · exact Or.inl (spare_chunk h.shape hc.1 (fun _ => List.mem_cons_self) (hx ▸ holds_chunk _ _))
    · right
      refine ⟨by rw [hst]; rfl, by rw [hst]; rfl, by rw [hst]; rfl, by rw [hst]; rfl, by rw [hst]; rfl, ?_,
        by rw [← hs₁]; rfl⟩
      rw [hreq]
      exact Function.update_of_ne hx _ _
  refine ⟨h.turn ht hshape (fun j hj c' hc' => ?_) fun c' hc' _ => ?_, ht⟩
  · rw [hreq]
    rcases Shape.mem_push hc' with hm | ⟨rfl, -⟩
    · have hne : c' ≠ c := by
        rintro rfl
        exact hc.2 j hj hm
      rw [Function.update_of_ne hne]
      exact h.free j hj c' hm
    · exact Function.update_self _ _ _
  · have hne : c' ∉ [c] := by
      intro hm
      obtain rfl := List.mem_singleton.mp hm
      refine hc'.2 k hk ?_
      dsimp only
      rw [Function.update_self]
      exact List.mem_cons_self
    refine ⟨⟨hc'.1, fun j hj hm => hc'.2 j hj ?_⟩, hne, hne⟩
    by_cases hjk : j = k
    · subst hjk
      dsimp only
      rw [Function.update_self]
      exact List.mem_cons_of_mem c hm
    · dsimp only
      rwa [Function.update_of_ne hjk]

/-- The first chunk of a free list, in use again. -/
theorem Sane.take (h : Sane s L) {k : Nat} (hk : k < ALLOC_SET_NUM_FREELISTS) {rest : List Nat}
    (hfree : L.free k = c :: rest) {size : Nat} (h0 : 0 < size) (hle : size ≤ 2 ^ (k + 4)) :
    Allocates s L size
      (c + ALLOC_CHUNK_HDR_SZ, (s.onSet fun st => takeChunk st k 0 c).mark c size) := by
  have hshape := h.marked.shape
  obtain ⟨hshape₁, hkept, hused, hnew, hfit⟩ := hshape.take hk hfree
  have hmem : c ∈ L.free k := hfree ▸ List.mem_cons_self
  have hsub : ∀ j c', c' ∈ Function.update L.free k rest j → c' ∈ L.free j := by
    intro j c' hm
    by_cases hjk : j = k
    · subst hjk
      rw [Function.update_self] at hm
      exact hfree ▸ List.mem_cons_of_mem c hm
    · rwa [Function.update_of_ne hjk] at hm
  generalize hL₁ : { L with free := Function.update L.free k rest } = L₁ at hshape₁ hkept hused hnew
  have hfree₁ : L₁.free = Function.update L.free k rest := by rw [← hL₁]
  have ht : Turns [] s L (s.onSet fun st => takeChunk st k 0 c) L₁ := by
    refine ⟨rfl, rfl, hkept, fun r hr => foreign_of_same hr (by rw [← hL₁]) (fun _ _ => rfl) rfl,
      fun x => ?_, settles_none rfl (by rw [← hL₁]), rfl⟩
    by_cases hx : x = c
    · left
      exact spare_chunk hshape (hshape.member k hk c hmem) (fun hu => absurd hmem (hu.2 k hk))
        (hx ▸ holds_chunk _ _)
    · exact Or.inr ⟨rfl, rfl, rfl, Function.update_of_ne hx _ _, rfl, rfl, rfl⟩
  have hm₁ : Marked [c] (s.onSet fun st => takeChunk st k 0 c) L₁ := by
    refine h.marked.turn ht hshape₁ (fun j hj c' hc' => ?_) fun c' hc' hn => ?_
    · rw [hfree₁] at hc'
      exact h.marked.free j hj c' (hsub j c' hc')
    · refine ⟨⟨?_, fun j hj hm => ?_⟩, List.not_mem_nil, List.not_mem_nil⟩
      · have hchunk := hc'.1
        rw [← hL₁] at hchunk
        exact hchunk
      · by_cases hjk : j = k
        · subst hjk
          rw [hfree] at hm
          rcases List.mem_cons.mp hm with rfl | hm
          · exact hn List.mem_cons_self
          · refine hc'.2 j hj ?_
            rw [hfree₁, Function.update_self]
            exact hm
        · refine hc'.2 j hj ?_
          rw [hfree₁, Function.update_of_ne hjk]
          exact hm
  obtain ⟨hm₂, ht₂⟩ := hm₁.mark hused (Function.update_self _ _ _) h0 (Nat.le_trans hle hfit)
  refine ⟨L₁, c, rfl, ⟨hm₂, fun b hb hc => ?_⟩, ht.trans ht₂ (List.Subset.refl _) fun c' hc' hu => ?_,
    ⟨hused, hnew, Nat.le_trans hle hfit⟩, Function.update_self _ _ _⟩
  · rw [← hL₁] at hb hc
    exact h.filled b hb hc
  · obtain rfl := List.mem_singleton.mp hc'
    exact absurd hmem (hu.2 k hk)

/-! ## The free end of a block -/

/-- A chunk laid out at the free end of a block: it has no requested size yet. -/
theorem Marked.placed (h : Marked [] s L) (hb : b ∈ L.blocks) {size : Nat} (aset : Nat) (hsize : Small size)
    (hroom : s.st.mem.freeptr b + (size + ALLOC_CHUNK_HDR_SZ) ≤ s.st.mem.endptr b) :
    Marked [s.st.mem.freeptr b] (s.onSet (·.placed b size aset)) (L.place b (s.st.mem.freeptr b)) ∧
      Turns [] s L (s.onSet (·.placed b size aset)) (L.place b (s.st.mem.freeptr b)) ∧
      New [] L (s.st.placed b size aset) (L.place b (s.st.mem.freeptr b)) (s.st.mem.freeptr b) size := by
  obtain ⟨hshape, hkept, hnew⟩ := h.shape.placed_spec hb aset hsize hroom
  have hnot : ¬ L.Chunk (s.st.mem.freeptr b) :=
    h.shape.not_chunk hb (Nat.le_refl _) (by unfold ALLOC_CHUNK_HDR_SZ at hroom; omega)
  have ht : Turns [] s L (s.onSet (·.placed b size aset)) (L.place b (s.st.mem.freeptr b)) := by
    refine ⟨rfl, rfl, hkept, fun r hr => foreign_of_same hr rfl (fun _ _ => rfl) rfl, fun x => ?_,
      settles_none rfl rfl, rfl⟩
    by_cases hxb : x = b
    · subst hxb
      exact Or.inl (spare_block h.shape hb [])
    by_cases hxc : x = s.st.mem.freeptr b
    · left
      unfold ALLOC_CHUNK_HDR_SZ at hroom
      exact spare_rest h.shape hb (by omega) (by omega) []
    · exact Or.inr ⟨rfl, Function.update_of_ne hxb _ _, rfl, Function.update_of_ne hxc _ _,
        Function.update_of_ne hxc _ _, rfl, rfl⟩
  refine ⟨h.turn ht hshape h.free fun c hc hn => ?_, ht, hnew⟩
  have hne : c ≠ s.st.mem.freeptr b := fun heq => hn (List.mem_singleton.mpr heq)
  exact ⟨⟨((Layout.chunk_place hb).mp hc.1).resolve_right hne, hc.2⟩, List.not_mem_nil, List.not_mem_nil⟩

theorem Filled.place {but but' : List Nat} {st st' : State} {c : Nat} (h : Filled but st L)
    (hkeeper : st'.set.keeper = st.set.keeper) (hbut : ∀ b' ∈ but, b' = b ∨ b' ∈ but') :
    Filled but' st' (L.place b c) := by
  intro b' hb' hempty
  have hempty : Function.update L.chunks b (L.chunks b ++ [c]) b' = [] := hempty
  by_cases hbb : b' = b
  · rw [hbb, Function.update_self] at hempty
    simp at hempty
  · rw [Function.update_of_ne hbb] at hempty
    rw [hkeeper]
    rcases h b' hb' hempty with hk | hm
    · exact Or.inl hk
    · exact Or.inr ((hbut b' hm).resolve_left hbb)

/-- A chunk carved off the free end of a block for free list `j`. -/
def Image.carved (s : Image) (b j : Nat) : Image :=
  { s.onSet (·.placed b (2 ^ (j + 4)) (s.st.set.freelist j)) with
    requested := Function.update s.requested (s.st.mem.freeptr b) 0 }.onSet
      (·.setFreelist j (s.st.mem.freeptr b))

theorem Sane.carve (h : Sane s L) (hb : b ∈ L.blocks) {j : Nat} (hj : j < ALLOC_SET_NUM_FREELISTS)
    (hroom : s.st.mem.freeptr b + (2 ^ (j + 4) + ALLOC_CHUNK_HDR_SZ) ≤ s.st.mem.endptr b) :
    ∃ L', L'.blocks = L.blocks ∧ Sane (s.carved b j) L' ∧ Turns [] s L (s.carved b j) L' := by
  obtain ⟨hm₁, ht₁, hused, hnew, -⟩ := h.marked.placed hb (s.st.set.freelist j) ⟨j, hj, rfl⟩ hroom
  obtain ⟨hm₂, ht₂⟩ := hm₁.shelve hused hj (Function.update_self _ _ _) (Function.update_self _ _ _)
  refine ⟨_, ?_, ⟨hm₂, ?_⟩, ht₁.trans ht₂ (List.Subset.refl _) fun c hc hu => ?_⟩
  · rfl
  · exact h.filled.place (c := s.st.mem.freeptr b) rfl fun _ hm => Or.inr hm
  · exact absurd (List.mem_singleton.mp hc) (hnew c hu List.not_mem_nil)

theorem carveBlock_spec {k : Nat} (avail : Nat) (h : Sane s L) (hb : b ∈ L.blocks)
    (havail : s.st.mem.freeptr b + avail = s.st.mem.endptr b) (hlt : avail ≤ ALLOC_CHUNK_LIMIT + 32) :
    ∃ L', L'.blocks = L.blocks ∧ Sane (carveBlock b k avail s) L' ∧
      Turns [] s L (carveBlock b k avail s) L' := by
  induction k generalizing avail s L with
  | zero => exact ⟨L, rfl, h, .refl [] s L⟩
  | succ k ih =>
    unfold carveBlock
    split
    · rename_i hge
      obtain ⟨j, hj, hcarve, hfit, -⟩ := carveSize_spec avail hge hlt
      rw [hcarve]
      dsimp only
      obtain ⟨L₁, hbs, h₁, ht₁⟩ := h.carve hb hj (by
        unfold ALLOC_CHUNK_HDR_SZ
        omega)
      have hfreeptr : (s.carved b j).st.mem.freeptr b =
          s.st.mem.freeptr b + (2 ^ (j + 4) + ALLOC_CHUNK_HDR_SZ) := Function.update_self _ _ _
      have hendptr : (s.carved b j).st.mem.endptr b = s.st.mem.endptr b := rfl
      obtain ⟨L', hbs', h', ht'⟩ := ih (avail - (2 ^ (j + 4) + ALLOC_CHUNK_HDR_SZ)) h₁
        (by rw [hbs]; exact hb)
        (by
          rw [hfreeptr, hendptr]
          unfold ALLOC_CHUNK_HDR_SZ at *
          omega)
        (Nat.le_trans (Nat.sub_le _ _) hlt)
      exact ⟨L', hbs'.trans hbs, h', ht₁.trans ht' (List.Subset.refl _) fun _ hm _ => hm⟩
    · exact ⟨L, rfl, h, .refl [] s L⟩

/-- A chunk for a request at the free end of the top block. -/
theorem placeChunk_spec (h : Marked [] s L) (hfilled : Filled [s.st.set.blocks] s.st L)
    (hb : s.st.set.blocks ∈ L.blocks) {size chunkSize : Nat} (hsmall : Small chunkSize) (h0 : 0 < size)
    (hle : size ≤ chunkSize)
    (hroom : s.st.mem.freeptr s.st.set.blocks + (chunkSize + ALLOC_CHUNK_HDR_SZ) ≤
      s.st.mem.endptr s.st.set.blocks) : Allocates s L size (placeChunk s size chunkSize) := by
  obtain ⟨hm₁, ht₁, hused, hnew, hfit⟩ := h.placed hb s.st.set.self hsmall hroom
  obtain ⟨hm₂, ht₂⟩ := hm₁.mark hused (Function.update_self _ _ _) h0 (Nat.le_trans hle hfit)
  refine ⟨_, s.st.mem.freeptr s.st.set.blocks, rfl, ⟨hm₂, ?_⟩,
    ht₁.trans ht₂ (List.Subset.refl _) fun c hc hu => ?_, ⟨hused, hnew, Nat.le_trans hle hfit⟩,
    Function.update_self _ _ _⟩
  · exact hfilled.place (c := s.st.mem.freeptr s.st.set.blocks) rfl fun b' hm =>
      Or.inl (List.mem_singleton.mp hm)
  · exact absurd (List.mem_singleton.mp hc) (hnew c hu List.not_mem_nil)

/-! ## New blocks -/

/-- Foreign regions stay foreign when a block is added in memory nobody had. -/
theorem foreign_add {st st' : State} {r : Region} (hr : Foreign st L r)
    (hg : st.mem.heap.Grants st'.mem.heap p n) (hbs : ∀ x ∈ L'.blocks, x = p ∨ x ∈ L.blocks)
    (hend : st'.mem.endptr p = p + n) (hp : p ∉ L.blocks)
    (hsame : ∀ b, b ≠ p → st'.mem.endptr b = st.mem.endptr b) : Foreign st' L' r := by
  refine ⟨?_, hr.2.1, fun b hb => ?_⟩
  · rw [hg.regions]
    exact List.mem_cons_of_mem _ hr.1
  · unfold blockRegion
    rcases hbs b hb with rfl | hm
    · rw [hend, Nat.add_sub_cancel_left]
      exact hg.fresh r hr.1
    · have hne : b ≠ p := by
        rintro rfl
        exact hp hm
      rw [hsame b hne]
      exact hr.2.2 b hm

theorem not_block_of_grants (h : Marked [] s L) {heap : Heap} (hg : s.st.mem.heap.Grants heap p n)
    (hn : 0 < n) : p ∉ L.blocks :=
  h.shape.not_block_of_apart hg.fresh (x := p) (by
    unfold Region.Holds
    dsimp only
    omega)

/-- An empty block on top. -/
theorem Sane.push (h : Sane s L) (hg : Granted s s₁ p n) (hn : ALLOC_BLOCK_HDR_SZ + ALLOC_CHUNK_HDR_SZ ≤ n) :
    ∃ L', p ∈ L'.blocks ∧ Marked [] (s₁.onSet fun st => st.pushBlock p n st.mem.heap) L' ∧
      Filled [p] (s₁.onSet fun st => st.pushBlock p n st.mem.heap).st L' ∧
      Turns [] s L (s₁.onSet fun st => st.pushBlock p n st.mem.heap) L' := by
  generalize hs₂ : (s₁.onSet fun st => st.pushBlock p n st.mem.heap) = s₂
  have hst : s₂.st = s.st.pushBlock p n s₁.st.mem.heap := by
    rw [← hs₂]
    show s₁.st.pushBlock p n s₁.st.mem.heap = _
    rw [hg.st]
    rfl
  have hpos : 0 < n := by
    unfold ALLOC_BLOCK_HDR_SZ at hn
    omega
  have hp := not_block_of_grants h.marked hg.grants hpos
  have hne : ∀ b ∈ L.blocks, b ≠ p := by
    rintro b hb rfl
    exact hp hb
  obtain ⟨hshape, hkept⟩ := h.marked.shape.pushBlock hg.grants hn
  rw [← hst] at hshape hkept
  generalize hL' : (⟨p :: L.blocks, Function.update L.chunks p [], L.free⟩ : Layout) = L' at hshape hkept
  have hbs : L'.blocks = p :: L.blocks := by rw [← hL']
  have hreq : s₂.requested = s.requested := by
    rw [← hs₂]
    exact hg.requested
  have ht : Turns [] s L s₂ L' := by
    refine ⟨by rw [hst]; rfl, by rw [hst]; rfl, hkept, fun r hr => ?_, fun x => ?_,
      ⟨[.obtained p], by rw [← hs₂]; exact hg.ledger, .obtained hp (by rw [hbs])⟩, by
      rw [← hs₂]
      exact hg.notices⟩
    · rw [hst]
      refine foreign_add hr hg.grants (fun x hx => ?_) (Function.update_self _ _ _) hp
        fun b hb => Function.update_of_ne hb _ _
      rw [hbs] at hx
      exact List.mem_cons.mp hx
    · by_cases hx : p ≤ x ∧ x < p + n
      · exact Or.inl (spare_granted h.marked.shape hg.grants hx [])
      · right
        have hxp : x ≠ p := by
          rintro rfl
          omega
        refine ⟨?_, ?_, ?_, by rw [hst]; rfl, by rw [hst]; rfl, by rw [hreq], ?_⟩
        · rw [hst]
          exact Function.update_of_ne hxp _ _
        · rw [hst]
          exact Function.update_of_ne hxp _ _
        · rw [hst]
          exact Function.update_of_ne hxp _ _
        · rw [← hs₂]
          exact hg.bytes x hx
  refine ⟨L', by rw [hbs]; exact List.mem_cons_self, h.marked.turn ht hshape (fun k hk c hc => ?_)
    fun c hc _ => ?_, fun b hb hempty => ?_, ht⟩
  · rw [hreq]
    rw [← hL'] at hc
    exact h.marked.free k hk c hc
  · rw [← hL'] at hc
    obtain ⟨⟨b, hb, hm⟩, hf⟩ := hc
    refine ⟨⟨?_, hf⟩, List.not_mem_nil, List.not_mem_nil⟩
    rcases List.mem_cons.mp hb with rfl | hb
    · dsimp only at hm
      rw [Function.update_self] at hm
      cases hm
    · dsimp only at hm
      rw [Function.update_of_ne (hne b hb)] at hm
      exact ⟨b, hb, hm⟩
  · rw [← hL'] at hb hempty
    rcases List.mem_cons.mp hb with rfl | hb
    · exact Or.inr List.mem_cons_self
    · dsimp only at hempty
      rw [Function.update_of_ne (hne b hb)] at hempty
      rw [ht.keeper]
      exact Or.inl ((h.filled b hb hempty).resolve_right List.not_mem_nil)

/-- A new block comes on top, with room for the chunk it is made for. -/
theorem newBlock_spec (h : Sane s L) {chunkSize : Nat} :
    Ends (fun e => e.1 = .exhausted ∧ Survives s L e.2) (newBlock M s chunkSize) fun s' =>
      ∃ L', Marked [] s' L' ∧ Filled [s'.st.set.blocks] s'.st L' ∧ Turns [] s L s' L' ∧
        s'.st.set.blocks ∈ L'.blocks ∧
        s'.st.mem.freeptr s'.st.set.blocks + (chunkSize + ALLOC_CHUNK_HDR_SZ) ≤
          s'.st.mem.endptr s'.st.set.blocks := by
  unfold newBlock
  dsimp only
  generalize hblk : (if newBlockSize s.st < chunkSize + ALLOC_BLOCK_HDR_SZ + ALLOC_CHUNK_HDR_SZ then
    chunkSize + ALLOC_BLOCK_HDR_SZ + ALLOC_CHUNK_HDR_SZ else newBlockSize s.st) = blkSize
  have hle : chunkSize + ALLOC_BLOCK_HDR_SZ + ALLOC_CHUNK_HDR_SZ ≤ blkSize := by
    rw [← hblk]
    split
    · exact Nat.le_refl _
    · rename_i hge
      exact Nat.not_lt.mp hge
  rcases hm : mallocBlock M (chunkSize + ALLOC_BLOCK_HDR_SZ + ALLOC_CHUNK_HDR_SZ) 64 blkSize s with
    ⟨_ | ⟨p, n⟩, s₁⟩
  · exact ⟨rfl, h.refused (mallocBlock_none hm)⟩
  · obtain ⟨hreq, hg⟩ := mallocBlock_some hle hm
    obtain ⟨L', hp, hm', hf', ht'⟩ := h.push hg (by omega)
    refine ⟨L', hm', hf', ht', hp, ?_⟩
    have hfreeptr : (s₁.onSet fun st => st.pushBlock p n st.mem.heap).st.mem.freeptr p =
        p + ALLOC_BLOCK_HDR_SZ := Function.update_self _ _ _
    have hendptr : (s₁.onSet fun st => st.pushBlock p n st.mem.heap).st.mem.endptr p = p + n :=
      Function.update_self _ _ _
    show (s₁.onSet fun st => st.pushBlock p n st.mem.heap).st.mem.freeptr p + _ ≤
      (s₁.onSet fun st => st.pushBlock p n st.mem.heap).st.mem.endptr p
    rw [hfreeptr, hendptr]
    omega

/-! ## Blocks of one chunk -/

theorem mark_onSet (s : Image) (c size : Nat) (f : State → State)
    (hf : (f s.st).mem.size = s.st.mem.size) : (s.mark c size).onSet f = (s.onSet f).mark c size := by
  unfold Image.mark Image.onSet
  dsimp only
  rw [hf]

/-- A block that has come to `q` with one chunk; the rest is as it was, but for the chunks
in `gone`. -/
structure Housed (gone : List Nat) (s : Image) (L : Layout) (s' : Image) (L' : Layout) (q : Nat) : Prop where
  shape : Shape s'.st L'
  turns : Turns gone s L s' L'
  requested : s'.requested = s.requested
  free : L'.free = L.free
  mem : q ∈ L'.blocks
  chunks : L'.chunks q = [q + ALLOC_BLOCK_HDR_SZ]
  other : ∀ b ∈ L'.blocks, b ≠ q → b ∈ L.blocks ∧ L'.chunks b = L.chunks b ∧ ∀ c ∈ L.chunks b, c ∉ gone
  unlisted : ∀ k < ALLOC_SET_NUM_FREELISTS, q + ALLOC_BLOCK_HDR_SZ ∉ L.free k
  new : ∀ c, L.Used c → c ∉ gone → c ≠ q + ALLOC_BLOCK_HDR_SZ

namespace Housed

variable {gone : List Nat} {q : Nat}

theorem used (h : Housed gone s L s' L' q) : L'.Used (q + ALLOC_BLOCK_HDR_SZ) := by
  refine ⟨⟨q, h.mem, ?_⟩, fun k hk hm => ?_⟩
  · rw [h.chunks]
    exact List.mem_cons_self
  · rw [h.free] at hm
    exact h.unlisted k hk hm

theorem marked (h : Housed gone s L s' L' q) (hs : Sane s L) :
    Marked [q + ALLOC_BLOCK_HDR_SZ] s' L' := by
  refine hs.marked.turn h.turns h.shape (fun k hk c hc => ?_) fun c hc hn => ?_
  · rw [h.requested]
    rw [h.free] at hc
    exact hs.marked.free k hk c hc
  · obtain ⟨⟨b, hb, hm⟩, hfree⟩ := hc
    have hne : b ≠ q := by
      rintro rfl
      rw [h.chunks] at hm
      exact hn hm
    obtain ⟨hb', hcs, hgone⟩ := h.other b hb hne
    rw [hcs] at hm
    rw [h.free] at hfree
    exact ⟨⟨⟨b, hb', hm⟩, hfree⟩, List.not_mem_nil, hgone c hm⟩

theorem filled (h : Housed gone s L s' L' q) (hs : Sane s L) : Filled [] s'.st L' := by
  intro b hb hempty
  have hne : b ≠ q := by
    rintro rfl
    rw [h.chunks] at hempty
    cases hempty
  obtain ⟨hb', hcs, -⟩ := h.other b hb hne
  rw [h.turns.keeper]
  exact hs.filled b hb' (hcs ▸ hempty)

/-- The chunk gets its requested size and its mark. -/
theorem mark (h : Housed gone s L s' L' q) (hs : Sane s L) {size : Nat} (h0 : 0 < size)
    (hown : s'.st.mem.aset (q + ALLOC_BLOCK_HDR_SZ) = s'.st.set.self)
    (hle : size ≤ s'.st.mem.size (q + ALLOC_BLOCK_HDR_SZ)) :
    Sane (s'.mark (q + ALLOC_BLOCK_HDR_SZ) size) L' ∧
      Turns gone s L (s'.mark (q + ALLOC_BLOCK_HDR_SZ) size) L' ∧
      New gone L (s'.mark (q + ALLOC_BLOCK_HDR_SZ) size).st L' (q + ALLOC_BLOCK_HDR_SZ) size := by
  obtain ⟨hm, ht⟩ := (h.marked hs).mark h.used hown h0 hle
  refine ⟨⟨hm, h.filled hs⟩, h.turns.trans ht (List.Subset.refl _) fun c hc hu => ?_,
    h.used, h.new, hle⟩
  obtain rfl := List.mem_singleton.mp hc
  by_contra hn
  exact h.new _ hu hn rfl

end Housed

/-- The state with a block of one chunk tucked in. -/
def Image.tucked (s : Image) (p n : Nat) : Image :=
  s.onSet fun st => (st.fillBlock p n st.mem.heap).tuckBlock p

/-- Tucking a block in changes one link, in the header of a block. -/
theorem tuckBlock_next (h : Shape s.st L) (n : Nat) (heap : Heap) {x : Nat} (hx : x ≠ p) (hxb : x ∉ L.blocks) :
    ((s.st.fillBlock p n heap).tuckBlock p).mem.next x = s.st.mem.next x := by
  unfold State.tuckBlock
  split
  · rename_i htop
    have hxt : x ≠ s.st.set.blocks := by
      rintro rfl
      exact hxb (h.top_mem htop)
    exact (Function.update_of_ne hxt _ _).trans (Function.update_of_ne hx _ _)
  · exact Function.update_of_ne hx _ _

theorem tuckBlock_self (st : State) (block : Nat) : (st.tuckBlock block).set.self = st.set.self := by
  unfold State.tuckBlock
  split <;> rfl

theorem Sane.tucked (h : Sane s L) (hg : Granted s s₁ p (n + ALLOC_BLOCK_HDR_SZ + ALLOC_CHUNK_HDR_SZ))
    (hn : ALLOC_CHUNK_LIMIT < n ∧ 16 ∣ n) : ∃ L', Housed [] s L (s₁.tucked p n) L' p := by
  have hshape := h.marked.shape
  have hp : p ∉ L.blocks := not_block_of_grants h.marked hg.grants (by omega)
  have hne : ∀ b ∈ L.blocks, b ≠ p := by
    rintro b hb rfl
    exact hp hb
  have hst : (s₁.tucked p n).st = (s.st.fillBlock p n s₁.st.mem.heap).tuckBlock p := by
    show (s₁.st.fillBlock p n s₁.st.mem.heap).tuckBlock p = _
    rw [hg.st]
    rfl
  obtain ⟨bs, hbs, hshape₂, hkept, hchunk⟩ := hshape.tuckLarge hg.grants hn
  obtain ⟨tf, te, ts, ta, th, tk, -⟩ := tuckBlock_fields (s.st.fillBlock p n s₁.st.mem.heap) p
  have hself := tuckBlock_self (s.st.fillBlock p n s₁.st.mem.heap) p
  rw [← hst] at hshape₂ hkept tf te ts ta th tk hself
  refine ⟨_, hshape₂, ⟨hself, tk, hkept, fun r hr => ?_, fun x => ?_,
    ⟨[.obtained p], hg.ledger, .obtained hp ?_⟩, hg.notices⟩, hg.requested, rfl, (hbs p).mpr (Or.inl rfl),
    Function.update_self _ _ _, fun b hb hbp => ?_, fun k hk hm => hchunk (hshape.member k hk _ hm), ?_⟩
  · have hg' : s.st.mem.heap.Grants (s₁.tucked p n).st.mem.heap p
        (n + ALLOC_BLOCK_HDR_SZ + ALLOC_CHUNK_HDR_SZ) := by
      rw [th]
      exact hg.grants
    refine foreign_add hr hg' (fun x hx => (hbs x).mp hx) ?_ hp fun b hb => ?_
    · rw [te]
      exact Function.update_self _ _ _
    · rw [te]
      exact Function.update_of_ne hb _ _
  · by_cases hx : p ≤ x ∧ x < p + (n + ALLOC_BLOCK_HDR_SZ + ALLOC_CHUNK_HDR_SZ)
    · exact Or.inl (spare_granted hshape hg.grants hx [])
    by_cases hxb : x ∈ L.blocks
    · exact Or.inl (spare_block hshape hxb [])
    right
    have hxp : x ≠ p := by
      rintro rfl
      omega
    have hxc : x ≠ p + ALLOC_BLOCK_HDR_SZ := by
      rintro rfl
      unfold ALLOC_CHUNK_HDR_SZ at hx
      omega
    refine ⟨?_, ?_, ?_, ?_, ?_, congrFun hg.requested x, hg.bytes x hx⟩
    · rw [hst]
      exact tuckBlock_next hshape n s₁.st.mem.heap hxp hxb
    · rw [tf]
      exact Function.update_of_ne hxp _ _
    · rw [te]
      exact Function.update_of_ne hxp _ _
    · rw [ta]
      exact Function.update_of_ne hxc _ _
    · rw [ts]
      exact Function.update_of_ne hxc _ _
  · refine (List.perm_ext_iff_of_nodup (List.nodup_cons.mpr ⟨hp, hshape.nodup⟩) hshape₂.nodup).mpr
      fun x => ?_
    rw [List.mem_cons, hbs]
  · have hb' := ((hbs b).mp hb).resolve_left hbp
    exact ⟨hb', Function.update_of_ne (hne b hb') _ _, fun _ _ => List.not_mem_nil⟩
  · rintro c hc - rfl
    exact hchunk hc.1

theorem Sane.tuckLarge (h : Sane s L) {size n : Nat}
    (hg : Granted s s₁ p (n + ALLOC_BLOCK_HDR_SZ + ALLOC_CHUNK_HDR_SZ))
    (hn : ALLOC_CHUNK_LIMIT < n ∧ 16 ∣ n) (h0 : 0 < size) (hle : size ≤ n) :
    Allocates s L size (p + ALLOC_BLOCK_HDR_SZ + ALLOC_CHUNK_HDR_SZ,
      (s₁.onSet fun st => (st.fillBlock p n st.mem.heap).tuckBlock p).mark (p + ALLOC_BLOCK_HDR_SZ) size) := by
  obtain ⟨L', hh⟩ := h.tucked hg hn
  obtain ⟨-, -, ts, ta, -, -, -⟩ := tuckBlock_fields (s₁.st.fillBlock p n s₁.st.mem.heap) p
  have hsize : (s₁.tucked p n).st.mem.size (p + ALLOC_BLOCK_HDR_SZ) = n :=
    (congrFun ts _).trans (Function.update_self _ _ _)
  have hown : (s₁.tucked p n).st.mem.aset (p + ALLOC_BLOCK_HDR_SZ) = (s₁.tucked p n).st.set.self :=
    (congrFun ta _).trans ((Function.update_self _ _ _).trans
      (tuckBlock_self (s₁.st.fillBlock p n s₁.st.mem.heap) p).symm)
  obtain ⟨hsane, ht, hnew⟩ := hh.mark h h0 hown (by rwa [hsize])
  exact ⟨L', p + ALLOC_BLOCK_HDR_SZ, rfl, hsane, ht, hnew, Function.update_self _ _ _⟩

theorem allocLarge_spec (h : Sane s L) {size : Nat} (hbig : ALLOC_CHUNK_LIMIT < size)
    (hle : size ≤ MAX_ALLOC_SIZE) : EndsAlloc s L size (allocLarge M s size) := by
  obtain ⟨hsize, hdvd⟩ := maxAlign_bounds hle
  unfold allocLarge
  dsimp only
  generalize maxAlign size = n at hsize hdvd
  rcases ha : s.malloc M (n + ALLOC_BLOCK_HDR_SZ + ALLOC_CHUNK_HDR_SZ) with ⟨_ | p, s₁⟩
  · exact ⟨rfl, h.refused (malloc_none ha)⟩
  · dsimp only
    rw [mark_onSet _ _ _ _ (tuckBlock_fields _ p).2.2.1]
    exact h.tuckLarge (malloc_some ha) ⟨by omega, hdvd⟩ (by omega) hsize

/-! ## Altogether -/

theorem allocFresh_spec (h : Sane s L) {size chunkSize : Nat} (hsmall : Small chunkSize) (h0 : 0 < size)
    (hle : size ≤ chunkSize) : EndsAlloc s L size (allocFresh M s size chunkSize) := by
  have hnew : ∀ {s₁ L₁}, Sane s₁ L₁ → Turns [] s L s₁ L₁ →
      EndsAlloc s L size (newBlock M s₁ chunkSize >>= fun s => .ok (placeChunk s size chunkSize)) := by
    intro s₁ L₁ h₁ ht₁
    have hfail : ∀ e : Fault × Image, e.1 = .exhausted ∧ Survives s₁ L₁ e.2 →
        e.1 = .exhausted ∧ Survives s L e.2 := by
      intro e ⟨he, L', hs', ht'⟩
      exact ⟨he, L', hs', ht₁.trans ht' (List.Subset.refl _) fun _ hm _ => hm⟩
    refine ((newBlock_spec h₁).mono hfail fun _ hP => hP).bind fun s₂ hs₂ => ?_
    obtain ⟨L₂, hm₂, hf₂, ht₂, hb₂, hroom⟩ := hs₂
    exact (placeChunk_spec hm₂ hf₂ hb₂ hsmall h0 hle hroom).of_turns
      (ht₁.trans ht₂ (List.Subset.refl _) fun _ hm _ => hm)
  unfold allocFresh
  split
  · exact hnew h (.refl [] s L)
  · rename_i hne
    have hb := h.marked.shape.top_mem hne
    have hfree := (h.marked.shape.block _ hb).free_le
    dsimp only
    split
    · rename_i hshort
      obtain ⟨L₁, -, h₁, ht₁⟩ := carveBlock_spec
        (k := s.st.mem.endptr s.st.set.blocks - s.st.mem.freeptr s.st.set.blocks) _ h hb
        (Nat.add_sub_cancel' hfree) (by
          have hlim := hsmall.le.2.1
          unfold ALLOC_CHUNK_HDR_SZ at hshort
          omega)
      exact hnew h₁ ht₁
    · rename_i hroom
      refine placeChunk_spec h.marked (fun b hb' hempty => ?_) hb hsmall h0 hle (by omega)
      exact Or.inl ((h.filled b hb' hempty).resolve_right List.not_mem_nil)

/-- `alloc_set_alloc` returns a marked chunk nobody has, or memory is exhausted and the
set in order. -/
theorem allocSetAlloc_spec (h : Sane s L) {size : Nat} (h0 : 0 < size) (hle : size ≤ MAX_ALLOC_SIZE) :
    EndsAlloc s L size (allocSetAlloc M s size) := by
  unfold allocSetAlloc
  split
  · rename_i hbig
    exact allocLarge_spec h hbig hle
  · rename_i hsmall
    have hsmall := Nat.not_lt.mp hsmall
    have hidx : allocSetFreeIndex size < ALLOC_SET_NUM_FREELISTS := freeIndex_lt size h0 hsmall
    have hfit := (freeIndex_spec size h0 (by unfold MAX_ALLOC_SIZE at hle; omega)).1
    dsimp only
    rcases findChunk_spec h.marked.shape hidx hfit FUEL with ⟨-, hfind⟩ | ⟨c, rest, hfree, hc0, hfind⟩
    · rw [hfind]
      refine allocFresh_spec h ⟨_, hidx, ?_⟩ h0 ?_
      · rw [Nat.one_shiftLeft]
        rfl
      · rw [Nat.one_shiftLeft]
        exact hfit
    · rw [hfind]
      show EndsAlloc s L size (if c ≠ 0 then _ else _)
      rw [if_pos hc0]
      exact h.take hidx hfree h0 hfit

end PostgresV7.Aset.Debug
