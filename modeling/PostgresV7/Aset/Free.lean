import PostgresV7.Aset.Alloc

/-!
# `alloc_set_free` and `alloc_set_realloc`

A chunk given back goes on the free list of its size, or its block goes back to
`malloc`. A chunk grows where it is, or with its block, or by way of a new one.
-/

namespace PostgresV7.Aset

open Regions Chains Tilings Outcomes

variable {A : Allocator} {st st' : State} {L : Layout} {b c : Nat}

/-! ## The block of a large chunk -/

/-- The element before the rest of a list, `0` if there is none. -/
def lastOf : List Nat → Nat → Nat
  | [], prev => prev
  | b :: bs, _ => lastOf bs b

theorem lastOf_append (bs : List Nat) (b prev : Nat) : lastOf (bs ++ [b]) prev = b := by
  induction bs generalizing prev with
  | nil => rfl
  | cons b' bs ih => exact ih b'

theorem findBlock_spec {mem : Memory} {k x : Nat} (prev : Nat) {bs : List Nat}
    (h : Linked id 0 mem.next x bs) (hk : bs.length ≤ k) (hb : ∃ b ∈ bs, c = b + ALLOC_BLOCK_HDR_SZ) :
    ∃ l₁ b l₂, bs = l₁ ++ b :: l₂ ∧ c = b + ALLOC_BLOCK_HDR_SZ ∧
      findBlock mem c k prev x = .ok (lastOf l₁ prev, b) := by
  induction bs generalizing k prev x with
  | nil =>
    obtain ⟨b, hb, -⟩ := hb
    cases hb
  | cons b bs ih =>
    obtain ⟨hx, hb0, hrest⟩ := h
    unfold findBlock
    rw [hx, if_neg hb0]
    by_cases heq : c = b + ALLOC_BLOCK_HDR_SZ
    · rw [if_pos heq]
      exact ⟨[], b, bs, rfl, heq, rfl⟩
    · rw [if_neg heq]
      cases k with
      | zero => exact absurd hk (Nat.not_succ_le_zero _)
      | succ k =>
        obtain ⟨b', hb', hc⟩ := hb
        have hmem : b' ∈ bs := by
          rcases List.mem_cons.mp hb' with rfl | hm
          · exact absurd hc heq
          · exact hm
        obtain ⟨l₁, b'', l₂, hbs, hc'', hfind⟩ := ih b (chain_iff_linked.mp hrest)
          (Nat.le_of_succ_le_succ hk) ⟨b', hmem, hc⟩
        exact ⟨b :: l₁, b'', l₂, by rw [hbs]; rfl, hc'', hfind⟩

/-- Writing the link in front of the rest of a list. -/
theorem setNext_linked {l₁ l₂ l₃ : List Nat} {y : Nat}
    (h : Linked id 0 st.mem.next st.set.blocks (l₁ ++ l₂)) (hy : Linked id 0 st.mem.next y l₃)
    (hnd : ∀ b ∈ l₁, b ∉ l₃) :
    Linked id 0 (st.setNext (lastOf l₁ 0) y).mem.next (st.setNext (lastOf l₁ 0) y).set.blocks
      (l₁ ++ l₃) := by
  rcases List.eq_nil_or_concat l₁ with rfl | ⟨init, e, rfl⟩
  · exact hy
  · rw [List.concat_eq_append] at h hnd ⊢
    have he : e ≠ 0 := h.ne_nil (List.mem_append_left _ (List.mem_append_right _ List.mem_cons_self))
    rw [lastOf_append]
    unfold State.setNext
    rw [if_neg he, List.append_assoc]
    rw [List.append_assoc] at h
    exact h.graft hy hnd

theorem setNext_fields (st : State) (prev x : Nat) :
    (st.setNext prev x).mem.freeptr = st.mem.freeptr ∧ (st.setNext prev x).mem.endptr = st.mem.endptr ∧
      (st.setNext prev x).mem.size = st.mem.size ∧ (st.setNext prev x).mem.aset = st.mem.aset ∧
      (st.setNext prev x).mem.heap = st.mem.heap ∧
      (st.setNext prev x).set.keeper = st.set.keeper ∧
      (st.setNext prev x).set.freelist = st.set.freelist := by
  unfold State.setNext
  split <;> exact ⟨rfl, rfl, rfl, rfl, rfl, rfl, rfl⟩

namespace Shape

/-- A large chunk is all there is in its block. -/
theorem block_of_large (h : Shape st L) (hc : L.Chunk c) (hbig : ALLOC_CHUNK_LIMIT < st.mem.size c) :
    ∃ b ∈ L.blocks, c = b + ALLOC_BLOCK_HDR_SZ ∧ L.chunks b = [c] ∧ b ≠ st.set.keeper := by
  obtain ⟨b, hb, hm⟩ := hc
  rcases (h.block b hb).kind with ⟨c', hcs, -, -, -⟩ | hsmall
  · have htiled := (h.block b hb).tiled
    rw [hcs] at hm htiled
    obtain rfl := List.mem_singleton.mp hm
    refine ⟨b, hb, htiled.1, hcs, ?_⟩
    rintro rfl
    have hk := (h.keeper (h.block_ne hb)).2 c (hcs ▸ List.mem_cons_self)
    exact absurd hk.le.2.1 (Nat.not_le.mpr hbig)
  · exact absurd (hsmall c hm).le.2.1 (Nat.not_le.mpr hbig)

/-- The set without the block of a large chunk. -/
theorem removeBlock (h : Shape st L) {l₁ l₂ : List Nat} (hbs : L.blocks = l₁ ++ b :: l₂)
    (hcs : L.chunks b = [c]) (hused : L.Used c) (hkeep : b ≠ st.set.keeper) :
    Shape ((st.setNext (lastOf l₁ 0) (st.mem.next b)).freeBlock b) { L with blocks := l₁ ++ l₂ } ∧
      Kept [c] st L ((st.setNext (lastOf l₁ 0) (st.mem.next b)).freeBlock b)
        { L with blocks := l₁ ++ l₂ } := by
  have hlinked := h.linked
  have hnodup := h.nodup
  rw [hbs] at hlinked hnodup
  obtain ⟨-, hnd, hdisj⟩ := List.nodup_append.mp hnodup
  have hmem : ∀ x, x ∈ l₁ ++ l₂ → x ∈ L.blocks ∧ x ≠ b := by
    intro x hx
    rw [hbs]
    rcases List.mem_append.mp hx with hx | hx
    · exact ⟨List.mem_append_left _ hx, hdisj x hx b List.mem_cons_self⟩
    · refine ⟨List.mem_append_right _ (List.mem_cons_of_mem b hx), ?_⟩
      rintro rfl
      exact (List.nodup_cons.mp hnd).1 hx
  have hmem' : ∀ x ∈ L.blocks, x ≠ b → x ∈ l₁ ++ l₂ := by
    intro x hx hne
    rw [hbs] at hx
    rcases List.mem_append.mp hx with hx | hx
    · exact List.mem_append_left _ hx
    · exact List.mem_append_right _ ((List.mem_cons.mp hx).resolve_left hne)
  have hsplit : Linked id 0 st.mem.next (st.mem.next b) l₂ := by
    have htail : ∀ {x l}, Linked id 0 st.mem.next x (l ++ b :: l₂) →
        Linked id 0 st.mem.next (st.mem.next b) l₂ := by
      intro x l
      induction l generalizing x with
      | nil => exact fun hl => hl.tail
      | cons a l ih => exact fun hl => ih hl.tail
    exact htail hlinked
  obtain ⟨tf, te, ts, ta, th, tk, tl⟩ := setNext_fields st (lastOf l₁ 0) (st.mem.next b)
  have hother : ∀ c', L.Chunk c' → c' ≠ c → ∃ b' ∈ l₁ ++ l₂, c' ∈ L.chunks b' := by
    rintro c' ⟨b', hb', hm⟩ hne
    refine ⟨b', hmem' b' hb' ?_, hm⟩
    rintro rfl
    rw [hcs] at hm
    exact hne (List.mem_singleton.mp hm)
  refine ⟨⟨?_, fun b' hb' => ?_, fun b' hb' b'' hb'' hne => ?_, fun hk => ?_, fun k hk => ?_,
    fun k hk c' hc' => ?_, fun k hk c' hc' => ?_⟩, fun c' hc' hg => ?_⟩
  · exact setNext_linked hlinked hsplit fun x hx hx' => hdisj x hx x (List.mem_cons_of_mem b hx') rfl
  · obtain ⟨hb₁, hne⟩ := hmem b' hb'
    refine (h.block b' hb₁).move (congrFun tf b') (congrFun te b') (fun c' _ => congrFun ts c') ?_
    show blockRegion st.mem b' ∈ ((st.setNext (lastOf l₁ 0) (st.mem.next b)).mem.heap.release b).regions
    rw [th]
    exact Heap.mem_release.mpr ⟨(h.block b' hb₁).region, hne⟩
  · have hreg : ∀ x, blockRegion ((st.setNext (lastOf l₁ 0) (st.mem.next b)).freeBlock b).mem x =
        blockRegion st.mem x := by
      intro x
      unfold blockRegion
      exact congrArg (fun f : Nat → Nat => (⟨x, f x - x⟩ : Region)) te
    rw [hreg, hreg]
    exact h.apart b' (hmem b' hb').1 b'' (hmem b'' hb'').1 hne
  · have hkk : (st.setNext (lastOf l₁ 0) (st.mem.next b)).set.keeper ≠ 0 := hk
    show (st.setNext (lastOf l₁ 0) (st.mem.next b)).set.keeper ∈ l₁ ++ l₂ ∧
      ∀ c' ∈ L.chunks (st.setNext (lastOf l₁ 0) (st.mem.next b)).set.keeper,
        Small ((st.setNext (lastOf l₁ 0) (st.mem.next b)).mem.size c')
    rw [tk] at hkk ⊢
    rw [ts]
    exact ⟨hmem' _ (h.keeper hkk).1 hkeep.symm, (h.keeper hkk).2⟩
  · show Linked id 0 (st.setNext (lastOf l₁ 0) (st.mem.next b)).mem.aset
      ((st.setNext (lastOf l₁ 0) (st.mem.next b)).set.freelist k) (L.free k)
    rw [ta, tl]
    exact h.lists k hk
  · exact (congrFun ts c').trans (h.sizes k hk c' hc')
  · refine hother c' (h.member k hk c' hc') ?_
    rintro rfl
    exact hused.2 k hk hc'
  · exact ⟨⟨hother c' hc'.1 fun heq => hg (heq ▸ List.mem_cons_self), hc'.2⟩, congrFun ts c'⟩

end Shape

/-- `alloc_set_free` of a chunk in use leaves all others. -/
theorem allocSetFree_spec (h : Shape st L) (hc : L.Used c) :
    ∃ st' L', allocSetFree st (c + ALLOC_CHUNK_HDR_SZ) = .ok st' ∧ Shape st' L' ∧
      Kept [c] st L st' L' := by
  unfold allocSetFree
  dsimp only
  rw [Nat.add_sub_cancel]
  split
  · rename_i hbig
    obtain ⟨b, hb, hcb, hcs, hkeep⟩ := h.block_of_large hc.1 hbig
    obtain ⟨l₁, b', l₂, hbs, hcb', hfind⟩ := findBlock_spec 0 h.linked h.length_le ⟨b, hb, hcb⟩
    obtain rfl : b' = b := by omega
    rw [hfind]
    obtain ⟨hshape, hkept⟩ := h.removeBlock hbs hcs hc hkeep
    exact ⟨_, _, rfl, hshape, hkept⟩
  · rename_i hsmall
    obtain ⟨k, hk, hsize⟩ := (h.chunk_kind hc.1).resolve_left hsmall
    have hidx : allocSetFreeIndex (st.mem.size c) = k := by
      rw [hsize]
      exact freeIndex_pow hk
    rw [hidx]
    have hset := h.setAset hc (st.set.freelist k)
    exact ⟨_, _, rfl, hset.push hc hk hsize (Function.update_self _ _ _), Shape.push_kept _ hc k⟩

end PostgresV7.Aset
