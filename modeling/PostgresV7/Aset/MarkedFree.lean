import PostgresV7.Aset.MarkedAlloc

/-!
# `alloc_set_free` keeps the marks

The chunk given back is wiped and has no requested size any more, or its block is wiped
and goes back to `malloc`. The test for writes past its end finds nothing.
-/

namespace PostgresV7.Aset.Debug

open Regions Chains Tilings Ledgers Outcomes

variable {s s' : Image} {L L' : Layout} {b c x : Nat} {r : Region}

/-- The test for scribbling passes on an intact chunk. -/
theorem checkEnd_intact (h : Intact s c) : s.checkEnd (c + ALLOC_CHUNK_HDR_SZ) = s := by
  unfold Image.checkEnd
  dsimp only
  rw [Nat.add_sub_cancel]
  refine if_neg fun hbad => ?_
  exact hbad.2 (h.marked hbad.1)

/-! ## Blocks of one chunk -/

/-- A block with one chunk that is taken back is spare as a whole. -/
theorem spare_single (h : Shape s.st L) (hb : b ∈ L.blocks) (hcs : L.chunks b = [c]) (h1 : b ≤ x)
    (h2 : x < s.st.mem.endptr b) : Spare [c] s.st L x := by
  refine ⟨fun c' hc' hn hx => ?_, not_foreign hb h1 h2⟩
  obtain ⟨b', hb', hm⟩ := hc'.1
  have hin := h.chunk_in hb' hm
  unfold chunkRegion ALLOC_CHUNK_HDR_SZ Region.Holds at hx
  dsimp only at hx
  obtain rfl : b' = b := h.block_unique hb' hb (x := x) (by omega) ⟨h1, h2⟩
  rw [hcs] at hm
  exact hn hm

theorem setNext_next {st : State} {l : List Nat} (y : Nat) (hx : x ∉ l) :
    (st.setNext (lastOf l 0) y).mem.next x = st.mem.next x := by
  have hlast : lastOf l 0 = 0 ∨ lastOf l 0 ∈ l := by
    rcases List.eq_nil_or_concat l with rfl | ⟨init, e, rfl⟩
    · exact Or.inl rfl
    · right
      rw [List.concat_eq_append, lastOf_append]
      simp
  unfold State.setNext
  split
  · rfl
  · rename_i hne
    refine Function.update_of_ne ?_ _ _
    rintro rfl
    exact hx (hlast.resolve_left hne)

/-- A foreign region starts somewhere else. -/
theorem foreign_base_ne (h : Shape s.st L) (hb : b ∈ L.blocks) (hr : Foreign s.st L r) : r.base ≠ b := by
  rintro rfl
  have hap := hr.2.2 _ hb
  have hstart := (h.block _ hb).start_le
  have hfree := (h.block _ hb).free_le
  have hpos := hr.2.1
  unfold blockRegion Region.Apart at hap
  dsimp only at hap
  omega

theorem erase_middle {l₁ l₂ : List Nat} (hbs : L.blocks = l₁ ++ b :: l₂) :
    (L.blocks.erase b).Perm (l₁ ++ l₂) := by
  have hmem : b ∈ L.blocks := by
    rw [hbs]
    simp
  have h1 := (List.perm_cons_erase hmem).symm
  rw [hbs] at h1 ⊢
  exact (h1.trans List.perm_middle).cons_inv

theorem setNext_self (st : State) (prev block : Nat) : (st.setNext prev block).set.self = st.set.self := by
  unfold State.setNext
  split <;> rfl

/-- Of the list of blocks, all but one. -/
theorem middle_of_blocks {l₁ l₂ : List Nat} (hnd : (l₁ ++ b :: l₂).Nodup) {x : Nat} :
    (x ∈ l₁ ++ l₂ ↔ x ∈ l₁ ++ b :: l₂ ∧ x ≠ b) := by
  have hb := (List.nodup_middle.mp hnd).notMem
  constructor
  · intro hx
    refine ⟨?_, ?_⟩
    · simp only [List.mem_append, List.mem_cons] at hx ⊢
      exact hx.imp_right Or.inr
    · rintro rfl
      exact hb hx
  · intro ⟨hx, hne⟩
    simp only [List.mem_append, List.mem_cons] at hx ⊢
    exact hx.imp_right fun hx => hx.resolve_left hne

theorem Sane.removeBlock (h : Sane s L) {l₁ l₂ : List Nat} (hbs : L.blocks = l₁ ++ b :: l₂)
    (hcs : L.chunks b = [c]) (hc : L.Used c) (hkeep : b ≠ s.st.set.keeper) :
    ∃ L', Sane (((s.onSet fun st => st.setNext (lastOf l₁ 0) (st.mem.next b)).wipe b
        (s.st.mem.freeptr b - b)).free b) L' ∧
      Turns [c] s L (((s.onSet fun st => st.setNext (lastOf l₁ 0) (st.mem.next b)).wipe b
        (s.st.mem.freeptr b - b)).free b) L' := by
  have hshape := h.marked.shape
  have hb : b ∈ L.blocks := by
    rw [hbs]
    simp
  have hfle := (hshape.block b hb).free_le
  have hmid : ∀ x, x ∈ l₁ ++ l₂ ↔ x ∈ L.blocks ∧ x ≠ b := by
    intro x
    have hnd := hshape.nodup
    rw [hbs] at hnd ⊢
    exact middle_of_blocks hnd
  have hmem : ∀ x ∈ l₁ ++ l₂, x ∈ L.blocks := fun x hx => ((hmid x).mp hx).1
  have hnb : b ∉ l₁ ++ l₂ := fun hx => ((hmid b).mp hx).2 rfl
  obtain ⟨hshape', hkept⟩ := hshape.removeBlock hbs hcs hc hkeep
  obtain ⟨tf, te, ts, ta, th, tk, -⟩ := setNext_fields s.st (lastOf l₁ 0) (s.st.mem.next b)
  generalize hs₁ : ((s.onSet fun st => st.setNext (lastOf l₁ 0) (st.mem.next b)).wipe b
    (s.st.mem.freeptr b - b)).free b = s₁
  have hst : s₁.st = (s.st.setNext (lastOf l₁ 0) (s.st.mem.next b)).freeBlock b := by
    rw [← hs₁]
    rfl
  have hreq : s₁.requested = s.requested := by
    rw [← hs₁]
    rfl
  rw [← hst] at hshape' hkept
  have hself : s₁.st.set.self = s.st.set.self := by
    rw [hst]
    exact setNext_self s.st _ _
  have ht : Turns [c] s L s₁ { L with blocks := l₁ ++ l₂ } := by
    refine ⟨hself, by rw [hst]; exact tk, hkept, fun r hr => ?_, fun x => ?_,
      ⟨[.returned b], by rw [← hs₁]; rfl, .returned hb (erase_middle hbs)⟩, by rw [← hs₁]; rfl⟩
    · have hheap : s₁.st.mem.heap = s.st.mem.heap.release b := by
        rw [hst]
        show (s.st.setNext _ _).mem.heap.release b = _
        rw [th]
      refine ⟨?_, hr.2.1, fun b' hb' => ?_⟩
      · rw [hheap]
        exact Heap.mem_release.mpr ⟨hr.1, foreign_base_ne hshape hb hr⟩
      · have hend : s₁.st.mem.endptr b' = s.st.mem.endptr b' := by
          rw [hst]
          exact congrFun te b'
        unfold blockRegion
        rw [hend]
        exact hr.2.2 b' (hmem b' hb')
    · by_cases hxb : x ∈ L.blocks
      · exact Or.inl (spare_block hshape hxb [c])
      by_cases hx : b ≤ x ∧ x < s.st.mem.endptr b
      · exact Or.inl (spare_single hshape hb hcs hx.1 hx.2)
      right
      refine ⟨?_, ?_, ?_, ?_, ?_, by rw [hreq], ?_⟩
      · rw [hst]
        exact setNext_next _ fun hm => hxb (hmem x (List.mem_append_left _ hm))
      · rw [hst]
        exact congrFun tf x
      · rw [hst]
        exact congrFun te x
      · rw [hst]
        exact congrFun ta x
      · rw [hst]
        exact congrFun ts x
      · rw [← hs₁]
        refine if_neg fun hin => hx ?_
        omega
  refine ⟨_, ⟨h.marked.turn ht hshape' (fun k hk c' hc' => ?_) fun c' hc' _ => ?_, fun b' hb' hempty => ?_⟩,
    ht⟩
  · rw [hreq]
    exact h.marked.free k hk c' hc'
  · obtain ⟨⟨b', hb', hm⟩, hfree⟩ := hc'
    refine ⟨⟨⟨b', hmem b' hb', hm⟩, hfree⟩, List.not_mem_nil, fun hg => hnb ?_⟩
    obtain rfl := List.mem_singleton.mp hg
    have hcb : c' ∈ L.chunks b := by
      rw [hcs]
      exact List.mem_cons_self
    exact hshape.owner (hmem b' hb') hb hm hcb ▸ hb'
  · rw [ht.keeper]
    exact h.filled b' (hmem b' hb') hempty

/-! ## Free lists -/

/-- A small chunk is linked to its free list and wiped. -/
theorem Marked.unlinked (h : Marked [] s L) (hc : L.Used c) (a : Nat) :
    Marked [c] ((s.onSet fun st => { st with mem := { st.mem with
        aset := Function.update st.mem.aset c a } }).wipe (c + ALLOC_CHUNK_HDR_SZ) (s.st.mem.size c)) L ∧
      Turns [c] s L ((s.onSet fun st => { st with mem := { st.mem with
        aset := Function.update st.mem.aset c a } }).wipe (c + ALLOC_CHUNK_HDR_SZ) (s.st.mem.size c)) L := by
  generalize hs₁ : ((s.onSet fun st => { st with mem := { st.mem with
    aset := Function.update st.mem.aset c a } }).wipe (c + ALLOC_CHUNK_HDR_SZ) (s.st.mem.size c)) = s₁
  have hst : s₁.st = { s.st with mem := { s.st.mem with aset := Function.update s.st.mem.aset c a } } := by
    rw [← hs₁]
    rfl
  have hreq : s₁.requested = s.requested := by
    rw [← hs₁]
    rfl
  have ht : Turns [c] s L s₁ L := by
    refine ⟨by rw [hst], by rw [hst], fun c' hc' _ => ⟨hc', by rw [hst]⟩,
      fun r hr => foreign_of_same hr rfl (fun _ _ => by rw [hst]) (by rw [hst]), fun x => ?_,
      settles_none (by rw [← hs₁]; rfl) rfl, by rw [← hs₁]; rfl⟩
    by_cases hx : (chunkRegion s.st.mem c).Holds x
    · exact Or.inl (spare_chunk h.shape hc.1 (fun _ => List.mem_cons_self) hx)
    · right
      refine ⟨by rw [hst], by rw [hst], by rw [hst], ?_, by rw [hst], by rw [hreq], ?_⟩
      · rw [hst]
        refine Function.update_of_ne ?_ _ _
        rintro rfl
        exact hx (holds_chunk _ _)
      · rw [← hs₁]
        refine if_neg fun hin => hx ?_
        unfold chunkRegion Region.Holds
        dsimp only
        omega
  have hshape : Shape s₁.st L := by
    rw [hst]
    exact h.shape.setAset hc a
  refine ⟨h.turn ht hshape (fun k hk c' hc' => ?_) fun c' hc' hn => ?_, ht⟩
  · rw [hreq]
    exact h.free k hk c' hc'
  · exact ⟨hc', List.not_mem_nil, hn⟩

/-! ## Altogether -/

/-- `alloc_set_free` of a chunk in use. -/
theorem allocSetFree_spec (h : Sane s L) (hc : L.Used c) :
    ∃ s' L', allocSetFree s (c + ALLOC_CHUNK_HDR_SZ) = .ok s' ∧ Sane s' L' ∧ Turns [c] s L s' L' := by
  have hshape := h.marked.shape
  have hcheck := checkEnd_intact (h.marked.used c hc List.not_mem_nil)
  unfold allocSetFree
  dsimp only
  rw [hcheck, Nat.add_sub_cancel]
  split
  · rename_i hbig
    obtain ⟨b, hb, hcb, hcs, hkeep⟩ := hshape.block_of_large hc.1 hbig
    obtain ⟨l₁, b', l₂, hbs, hcb', hfind⟩ := findBlock_spec 0 hshape.linked hshape.length_le ⟨b, hb, hcb⟩
    obtain rfl : b' = b := by omega
    rw [hfind]
    obtain ⟨tf, -⟩ := setNext_fields s.st (lastOf l₁ 0) (s.st.mem.next b')
    obtain ⟨L', hs', ht'⟩ := h.removeBlock hbs hcs hc hkeep
    refine ⟨_, L', ?_, hs', ht'⟩
    show Except.ok (((s.onSet fun st => st.setNext (lastOf l₁ 0) (st.mem.next b')).wipe b'
      ((s.st.setNext (lastOf l₁ 0) (s.st.mem.next b')).mem.freeptr b' - b')).free b') = _
    rw [tf]
  · rename_i hsmall
    obtain ⟨k, hk, hsize⟩ := (hshape.chunk_kind hc.1).resolve_left hsmall
    have hidx : allocSetFreeIndex (s.st.mem.size c) = k := by
      rw [hsize]
      exact freeIndex_pow hk
    rw [hidx]
    obtain ⟨hm₁, ht₁⟩ := h.marked.unlinked hc (s.st.set.freelist k)
    obtain ⟨hm₂, ht₂⟩ := hm₁.shelve hc hk hsize (Function.update_self _ _ _)
    refine ⟨_, _, rfl, ⟨hm₂, ?_⟩, ht₁.trans ht₂ (List.Subset.refl _) fun c' hc' _ => hc'⟩
    exact h.filled

end PostgresV7.Aset.Debug
