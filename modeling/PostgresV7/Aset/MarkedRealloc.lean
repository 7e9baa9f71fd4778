import PostgresV7.Aset.MarkedFree

/-!
# `alloc_set_realloc` keeps the marks and the bytes

Whichever way a chunk gets its new size, it goes on with the bytes that were asked for
before, as far as the new size reaches.
-/

namespace PostgresV7.Aset.Debug

open Regions Chains Tilings Ledgers Outcomes

variable {M : Libc} {s s' s₁ : Image} {L L' : Layout} {b c q n x : Nat} {r : Region}

/-- The chunk at `c` became one with `size` bytes asked for, with the old bytes in it. -/
def Reallocates (s : Image) (L : Layout) (c size : Nat) (r : Nat × Image) : Prop :=
  ∃ L' c', r.1 = c' + ALLOC_CHUNK_HDR_SZ ∧ Sane r.2 L' ∧ Turns [c] s L r.2 L' ∧
    New [c] L r.2.st L' c' size ∧ r.2.requested c' = size ∧
    ∀ i < min (s.requested c) size,
      r.2.bytes (c' + ALLOC_CHUNK_HDR_SZ + i) = s.bytes (c + ALLOC_CHUNK_HDR_SZ + i)

/-- How `alloc_set_realloc` ends. -/
def EndsRealloc (s : Image) (L : Layout) (c size : Nat) (x : Result (Nat × Image)) : Prop :=
  Ends (fun e => e.1 = .exhausted ∧ Survives s L e.2) x (Reallocates s L c size)

/-- A mark changes no byte below it. -/
theorem mark_bytes (s : Image) (c : Nat) {size i : Nat} (hi : i < size) :
    (s.mark c size).bytes (c + ALLOC_CHUNK_HDR_SZ + i) = s.bytes (c + ALLOC_CHUNK_HDR_SZ + i) := by
  show (if size < s.st.mem.size c then _ else s.bytes) _ = _
  split
  · exact Function.update_of_ne (by omega) _ _
  · rfl

theorem Marked.weaken (h : Marked [] s L) (but : List Nat) : Marked but s L :=
  ⟨h.shape, h.free, fun c hc _ => h.used c hc List.not_mem_nil⟩

/-- All chunks stay where they are, one of them with other bytes asked for. -/
theorem Sane.remark (hm : Marked [c] s₁ L) (hfilled : Filled [] s₁.st L) (hc : L.Used c)
    (ht : Turns [c] s L s₁ L) (hown : s₁.st.mem.aset c = s₁.st.set.self) {size : Nat} (h0 : 0 < size)
    (hle : size ≤ s₁.st.mem.size c) (hbytes : s₁.bytes = s.bytes) :
    Reallocates s L c size (c + ALLOC_CHUNK_HDR_SZ, s₁.mark c size) := by
  obtain ⟨hm₂, ht₂⟩ := hm.mark hc hown h0 hle
  refine ⟨L, c, rfl, ⟨hm₂, hfilled⟩, ht.trans ht₂ (List.Subset.refl _) fun _ hm _ => hm,
    ⟨hc, fun c' _ hne heq => hne (heq ▸ List.mem_cons_self), hle⟩, Function.update_self _ _ _,
    fun i hi => ?_⟩
  dsimp only
  rw [mark_bytes s₁ c (by omega), hbytes]

/-! ## In place -/

theorem Sane.grow (h : Sane s L) (hc : L.Used c) (hsmall : Small (s.st.mem.size c)) {size delta : Nat}
    (h0 : 0 < size) (hgt : s.st.mem.size c < size) (hg : growth s.st c size = some delta) :
    Reallocates s L c size (c + ALLOC_CHUNK_HDR_SZ, (s.onSet (·.grown c delta)).mark c size) := by
  have hshape := h.marked.shape
  have hin := h.marked.used c hc List.not_mem_nil
  obtain ⟨htop, hm, hend, hroom, hnew, hfit⟩ := growth_some hshape hc.1 hgt hg
  have ht : Turns [c] s L (s.onSet (·.grown c delta)) L := by
    refine ⟨rfl, rfl, grown_kept s.st L c delta, fun r hr => foreign_of_same hr rfl (fun _ _ => rfl) rfl,
      fun x => ?_, settles_none rfl rfl, rfl⟩
    by_cases hxb : x = s.st.set.blocks
    · rw [hxb]
      exact Or.inl (spare_block hshape htop [c])
    by_cases hxc : x = c
    · rw [hxc]
      exact Or.inl (spare_chunk hshape hc.1 (fun _ => List.mem_cons_self) (holds_chunk _ _))
    · exact Or.inr ⟨rfl, Function.update_of_ne hxb _ _, rfl, rfl, Function.update_of_ne hxc _ _, rfl, rfl⟩
  have hsize : (s.onSet (·.grown c delta)).st.mem.size c = s.st.mem.size c + delta :=
    Function.update_self _ _ _
  have hm₁ : Marked [c] (s.onSet (·.grown c delta)) L :=
    h.marked.turn ht (hshape.grow hc hsmall htop hm hend hroom hnew) h.marked.free
      fun c' hc' hn => ⟨hc', List.not_mem_nil, hn⟩
  refine Sane.remark hm₁ h.filled hc ht hin.own h0 ?_ rfl
  rw [hsize]
  exact hfit

/-! ## With its block -/

/-- `realloc` gave `n` bytes at `q` for the region at `b`. -/
structure Moved (s s' : Image) (b q n : Nat) : Prop where
  grants : (s.st.mem.heap.release b).Grants s'.st.mem.heap q n
  st : s'.st = { s.st with mem := { s.st.mem with heap := s'.st.mem.heap } }
  requested : s'.requested = s.requested
  outside : ∀ x, ¬ (q ≤ x ∧ x < q + n) → s'.bytes x = s.bytes x
  inside : ∀ r ∈ s.st.mem.heap.regions, r.base = b → ∀ i < r.size, i < n →
    s'.bytes (q + i) = s.bytes (b + i)
  ledger : s'.ledger = .exchanged b q :: s.ledger
  notices : s'.notices = s.notices

theorem realloc_some (h : s.realloc M b n = (some q, s')) : Moved s s' b q n := by
  unfold Image.realloc at h
  rcases ha : s.st.mem.heap.realloc M.allocator b n with ⟨_ | q', heap⟩
  · rw [ha] at h
    cases h
  · rw [ha] at h
    obtain ⟨hp, rfl⟩ := Prod.mk.inj h
    obtain rfl := Option.some.inj hp
    refine ⟨Heap.grants_of_alloc (Heap.realloc_some ha), rfl, rfl, fun x hx => if_neg hx,
      fun r hr hbase i hi hn => ?_, rfl, rfl⟩
    have hany : (s.st.mem.heap.regions.any fun r => r.base = b ∧ q' + i - q' < r.size) = true := by
      rw [List.any_eq_true]
      refine ⟨r, hr, decide_eq_true ⟨hbase, ?_⟩⟩
      omega
    dsimp only
    rw [if_pos (by omega), if_pos hany, Nat.add_sub_cancel_left]

theorem realloc_none (h : s.realloc M b n = (none, s')) : Refused s s' := by
  unfold Image.realloc at h
  rcases ha : s.st.mem.heap.realloc M.allocator b n with ⟨_ | q', heap⟩
  · rw [ha] at h
    obtain ⟨-, rfl⟩ := Prod.mk.inj h
    refine ⟨heap, rfl, ?_⟩
    exact Heap.realloc_none ha
  · rw [ha] at h
    cases h

/-- The new place of the one chunk of a block is spare. -/
theorem spare_moved (h : Shape s.st L) (hb : b ∈ L.blocks) (hcs : L.chunks b = [c]) {heap : Heap}
    (hg : (s.st.mem.heap.release b).Grants heap q n) (hx : q ≤ x ∧ x < q + n) : Spare [c] s.st L x := by
  refine ⟨fun c' hc' hn hxc => ?_, fun r hr hxr => ?_⟩
  · obtain ⟨b', hb', hm⟩ := hc'.1
    have hin := h.chunk_in hb' hm
    have hne : b' ≠ b := by
      rintro rfl
      rw [hcs] at hm
      exact hn hm
    have hrel : blockRegion s.st.mem b' ∈ (s.st.mem.heap.release b).regions :=
      Heap.mem_release.mpr ⟨(h.block b' hb').region, hne⟩
    unfold chunkRegion ALLOC_CHUNK_HDR_SZ Region.Holds at hxc
    dsimp only at hxc
    exact (hg.fresh _ hrel).ne (b := x) hx (holds_blockRegion (by omega) (by omega)) rfl
  · have hrel : r ∈ (s.st.mem.heap.release b).regions :=
      Heap.mem_release.mpr ⟨hr.1, foreign_base_ne h hb hr⟩
    exact (hg.fresh _ hrel).ne (b := x) hx hxr rfl

/-- The state with a moved block linked in behind those in `l`. -/
def Image.moved (s : Image) (l : List Nat) (b q n : Nat) : Image :=
  s.onSet fun st => (st.movedBlock b q n st.mem.heap).setNext (lastOf l 0) q

theorem Sane.moved (h : Sane s L) {l₁ l₂ : List Nat} (hbs : L.blocks = l₁ ++ b :: l₂)
    (hcs : L.chunks b = [c]) (hc : L.Used c) (hkeep : b ≠ s.st.set.keeper)
    (hm : Moved s s₁ b q (n + ALLOC_BLOCK_HDR_SZ + ALLOC_CHUNK_HDR_SZ))
    (hn : ALLOC_CHUNK_LIMIT < n ∧ 16 ∣ n) : ∃ L', Housed [c] s L (s₁.moved l₁ b q n) L' q := by
  have hshape := h.marked.shape
  have hb : b ∈ L.blocks := by
    rw [hbs]
    simp
  have hst : (s₁.moved l₁ b q n).st = (s.st.movedBlock b q n s₁.st.mem.heap).setNext (lastOf l₁ 0) q := by
    show (s₁.st.movedBlock b q n s₁.st.mem.heap).setNext (lastOf l₁ 0) q = _
    rw [hm.st]
    rfl
  obtain ⟨hshape₂, hkept, hnew⟩ := hshape.moveLarge hbs hcs hc hkeep hm.grants hn
  obtain ⟨tf, te, ts, ta, th, tk, -⟩ :=
    setNext_fields (s.st.movedBlock b q n s₁.st.mem.heap) (lastOf l₁ 0) q
  have hself := setNext_self (s.st.movedBlock b q n s₁.st.mem.heap) (lastOf l₁ 0) q
  rw [← hst] at hshape₂ hkept tf te ts ta th tk hself
  have hold : ∀ x, x ∈ l₁ ++ l₂ ↔ x ∈ L.blocks ∧ x ≠ b := by
    intro x
    have hnd := hshape.nodup
    rw [hbs] at hnd ⊢
    exact middle_of_blocks hnd
  have hmem : ∀ x, x ∈ l₁ ++ l₂ ↔ x ∈ l₁ ++ q :: l₂ ∧ x ≠ q := fun x => middle_of_blocks hshape₂.nodup
  have hqb : q ∉ L.blocks.erase b := fun hq =>
    ((hmem q).mp ((erase_middle hbs).mem_iff.mp hq)).2 rfl
  refine ⟨_, hshape₂, ⟨hself, tk, hkept, fun r hr => ?_, fun x => ?_,
    ⟨[.exchanged b q], hm.ledger, .exchanged hb hqb ?_⟩, hm.notices⟩, hm.requested, rfl, ?_,
    Function.update_self _ _ _, fun b' hb' hne => ?_, fun k hk hmk => ?_, fun c' hc' hg => ?_⟩
  · have hrel : r ∈ (s.st.mem.heap.release b).regions :=
      Heap.mem_release.mpr ⟨hr.1, foreign_base_ne hshape hb hr⟩
    refine ⟨?_, hr.2.1, fun b' hb' => ?_⟩
    · rw [th]
      show r ∈ s₁.st.mem.heap.regions
      rw [hm.grants.regions]
      exact List.mem_cons_of_mem _ hrel
    · unfold blockRegion
      rw [te]
      by_cases hne : b' = q
      · subst hne
        have hend : (s.st.movedBlock b b' n s₁.st.mem.heap).mem.endptr b' =
            b' + (n + ALLOC_BLOCK_HDR_SZ + ALLOC_CHUNK_HDR_SZ) := Function.update_self _ _ _
        rw [hend, Nat.add_sub_cancel_left]
        exact hm.grants.fresh _ hrel
      · have hend : (s.st.movedBlock b q n s₁.st.mem.heap).mem.endptr b' = s.st.mem.endptr b' :=
          Function.update_of_ne hne _ _
        rw [hend]
        exact hr.2.2 b' ((hold b').mp ((hmem b').mpr ⟨hb', hne⟩)).1
  · by_cases hxb : x ∈ L.blocks
    · exact Or.inl (spare_block hshape hxb [c])
    by_cases hx : q ≤ x ∧ x < q + (n + ALLOC_BLOCK_HDR_SZ + ALLOC_CHUNK_HDR_SZ)
    · exact Or.inl (spare_moved hshape hb hcs hm.grants hx)
    right
    have hxq : x ≠ q := by
      rintro rfl
      omega
    have hxc : x ≠ q + ALLOC_BLOCK_HDR_SZ := by
      rintro rfl
      unfold ALLOC_CHUNK_HDR_SZ at hx
      omega
    refine ⟨?_, ?_, ?_, ?_, ?_, congrFun hm.requested x, hm.outside x hx⟩
    · rw [hst, setNext_next _ fun hl => hxb ((hold x).mp (List.mem_append_left _ hl)).1]
      exact Function.update_of_ne hxq _ _
    · rw [tf]
      exact Function.update_of_ne hxq _ _
    · rw [te]
      exact Function.update_of_ne hxq _ _
    · rw [ta]
      exact Function.update_of_ne hxc _ _
    · rw [ts]
      exact Function.update_of_ne hxc _ _
  · exact ((erase_middle hbs).cons q).trans List.perm_middle.symm
  · simp
  · obtain ⟨hb₁, hne₁⟩ := (hold b').mp ((hmem b').mpr ⟨hb', hne⟩)
    refine ⟨hb₁, Function.update_of_ne hne _ _, fun c' hc' hgone => hne₁ ?_⟩
    obtain rfl := List.mem_singleton.mp hgone
    exact hshape.owner hb₁ hb hc' (hcs ▸ List.mem_cons_self)
  · refine hnew _ (hshape.member k hk _ hmk) ?_ rfl
    intro heq
    exact hc.2 k hk (heq ▸ hmk)
  · exact hnew c' hc'.1 fun heq => hg (heq ▸ List.mem_cons_self)

/-- What was asked for of the one chunk of a block comes along. -/
theorem Moved.bytes (hm : Moved s s₁ b q (n + ALLOC_BLOCK_HDR_SZ + ALLOC_CHUNK_HDR_SZ))
    (h : Shape s.st L) (hb : b ∈ L.blocks) (hc : b + ALLOC_BLOCK_HDR_SZ ∈ L.chunks b) {i : Nat}
    (hi : i < s.st.mem.size (b + ALLOC_BLOCK_HDR_SZ)) (hn : i < n) :
    s₁.bytes (q + ALLOC_BLOCK_HDR_SZ + ALLOC_CHUNK_HDR_SZ + i) =
      s.bytes (b + ALLOC_BLOCK_HDR_SZ + ALLOC_CHUNK_HDR_SZ + i) := by
  have hin := h.chunk_in hb hc
  have hcopy := hm.inside _ (h.block b hb).region rfl (ALLOC_BLOCK_HDR_SZ + ALLOC_CHUNK_HDR_SZ + i)
  unfold blockRegion ALLOC_BLOCK_HDR_SZ ALLOC_CHUNK_HDR_SZ at *
  dsimp only at hcopy
  have hassoc : ∀ x : Nat, x + 32 + 32 + i = x + (32 + 32 + i) := fun x => by omega
  rw [hassoc q, hassoc b]
  exact hcopy (by omega) (by omega)

theorem Sane.moveLarge (h : Sane s L) {l₁ l₂ : List Nat} {size : Nat} (hbs : L.blocks = l₁ ++ b :: l₂)
    (hcb : c = b + ALLOC_BLOCK_HDR_SZ) (hcs : L.chunks b = [c]) (hc : L.Used c)
    (hkeep : b ≠ s.st.set.keeper) (hm : Moved s s₁ b q (n + ALLOC_BLOCK_HDR_SZ + ALLOC_CHUNK_HDR_SZ))
    (hn : ALLOC_CHUNK_LIMIT < n ∧ 16 ∣ n) (hgt : s.st.mem.size c < size) (hle : size ≤ n) :
    Reallocates s L c size (q + ALLOC_BLOCK_HDR_SZ + ALLOC_CHUNK_HDR_SZ,
      (s₁.onSet fun st => (st.movedBlock b q n st.mem.heap).setNext (lastOf l₁ 0) q).mark
        (q + ALLOC_BLOCK_HDR_SZ) size) := by
  obtain ⟨L', hh⟩ := h.moved hbs hcs hc hkeep hm hn
  have hin := h.marked.used c hc List.not_mem_nil
  obtain ⟨-, -, ts, ta, -, -, -⟩ :=
    setNext_fields (s₁.st.movedBlock b q n s₁.st.mem.heap) (lastOf l₁ 0) q
  have hsize : (s₁.moved l₁ b q n).st.mem.size (q + ALLOC_BLOCK_HDR_SZ) = n :=
    (congrFun ts _).trans (Function.update_self _ _ _)
  have hown : (s₁.moved l₁ b q n).st.mem.aset (q + ALLOC_BLOCK_HDR_SZ) =
      (s₁.moved l₁ b q n).st.set.self := by
    have haset : (s₁.moved l₁ b q n).st.mem.aset (q + ALLOC_BLOCK_HDR_SZ) =
        s₁.st.mem.aset (b + ALLOC_BLOCK_HDR_SZ) := (congrFun ta _).trans (Function.update_self _ _ _)
    rw [haset, hh.turns.self, ← hin.own, hm.st, hcb]
  have hfit : size ≤ (s₁.moved l₁ b q n).st.mem.size (q + ALLOC_BLOCK_HDR_SZ) := by
    rw [hsize]
    exact hle
  obtain ⟨hsane, ht, hnew⟩ := hh.mark h (Nat.zero_lt_of_lt hgt) hown hfit
  refine ⟨L', q + ALLOC_BLOCK_HDR_SZ, rfl, hsane, ht, hnew, Function.update_self _ _ _, fun i hi => ?_⟩
  have hle' := hin.le
  subst hcb
  have hb : b ∈ L.blocks := by
    rw [hbs]
    simp
  dsimp only
  refine (mark_bytes (s₁.moved l₁ b q n) _ (by omega)).trans ?_
  exact hm.bytes h.marked.shape hb (hcs ▸ List.mem_cons_self) (by omega) (by omega)

theorem reallocLarge_spec (h : Sane s L) (hc : L.Used c) (hbig : ALLOC_CHUNK_LIMIT < s.st.mem.size c)
    {size : Nat} (hgt : s.st.mem.size c < size) (hle : size ≤ MAX_ALLOC_SIZE) :
    EndsRealloc s L c size (reallocLarge M s c size) := by
  have hshape := h.marked.shape
  obtain ⟨b, hb, hcb, hcs, hkeep⟩ := hshape.block_of_large hc.1 hbig
  obtain ⟨l₁, b', l₂, hbs, hcb', hfind⟩ := findBlock_spec 0 hshape.linked hshape.length_le ⟨b, hb, hcb⟩
  obtain rfl : b' = b := by omega
  obtain ⟨hsize, hdvd⟩ := maxAlign_bounds hle
  unfold reallocLarge
  have hsearch : search s (findBlock s.st.mem c FUEL 0 s.st.set.blocks) = .ok (lastOf l₁ 0, b') := by
    rw [hfind]
    rfl
  rw [hsearch, ok_bind]
  dsimp only
  generalize maxAlign size = n at hsize hdvd
  rcases ha : s.realloc M b' (n + ALLOC_BLOCK_HDR_SZ + ALLOC_CHUNK_HDR_SZ) with ⟨_ | q, s₁⟩
  · exact ⟨rfl, h.refused (realloc_none ha)⟩
  · exact h.moveLarge hbs hcb hcs hc hkeep (realloc_some ha) ⟨by omega, hdvd⟩ hgt hsize

/-! ## By way of a new chunk -/

/-- Bytes copied to where a chunk has room for them before its mark. -/
theorem Sane.memcpy (h : Sane s L) (hc : L.Used c) (src : Nat) {n : Nat} (hn : n ≤ s.requested c) :
    Sane (s.memcpy (c + ALLOC_CHUNK_HDR_SZ) src n) L ∧
      Turns [c] s L (s.memcpy (c + ALLOC_CHUNK_HDR_SZ) src n) L := by
  have hin := h.marked.used c hc List.not_mem_nil
  have hle := hin.le
  have ht : Turns [c] s L (s.memcpy (c + ALLOC_CHUNK_HDR_SZ) src n) L := by
    refine ⟨rfl, rfl, .refl [c] s.st L, fun r hr => hr, fun x => ?_, settles_none rfl rfl, rfl⟩
    by_cases hx : (chunkRegion s.st.mem c).Holds x
    · exact Or.inl (spare_chunk h.marked.shape hc.1 (fun _ => List.mem_cons_self) hx)
    · right
      refine ⟨rfl, rfl, rfl, rfl, rfl, rfl, if_neg fun hto => hx ?_⟩
      unfold chunkRegion Region.Holds
      dsimp only
      omega
  refine ⟨⟨⟨h.marked.shape, h.marked.free, fun c' hc' _ => ?_⟩, h.filled⟩, ht⟩
  by_cases hcc : c' = c
  · subst hcc
    refine ⟨hin.pos, hin.le, hin.own, fun hlt => ?_⟩
    refine (if_neg ?_).trans (hin.marked hlt)
    show ¬ (c' + ALLOC_CHUNK_HDR_SZ ≤ c' + ALLOC_CHUNK_HDR_SZ + s.requested c' ∧
      c' + ALLOC_CHUNK_HDR_SZ + s.requested c' < c' + ALLOC_CHUNK_HDR_SZ + n)
    omega
  · have hn' : c' ∉ [c] := fun hm => hcc (List.mem_singleton.mp hm)
    exact (h.marked.used c' hc' List.not_mem_nil).keep rfl fun x hx => ht.untouched hc' hn' hx

/-- The bytes of a chunk that stays in use. -/
theorem Turns.bytes {gone : List Nat} (h : Turns gone s L s' L') (hc : L.Used c) (hn : c ∉ gone) {i : Nat}
    (hi : i < s.st.mem.size c) :
    s'.bytes (c + ALLOC_CHUNK_HDR_SZ + i) = s.bytes (c + ALLOC_CHUNK_HDR_SZ + i) := by
  refine (h.untouched hc hn ?_).bytes
  unfold chunkRegion Region.Holds
  dsimp only
  omega

theorem Turns.requested {gone : List Nat} (h : Turns gone s L s' L') (hc : L.Used c) (hn : c ∉ gone) :
    s'.requested c = s.requested c := (h.untouched hc hn (holds_chunk _ c)).requested

/-- Allocate, copy, free. -/
theorem realloc_exchange (h : Sane s L) (hc : L.Used c) {size : Nat} (h0 : 0 < size)
    (hgt : s.st.mem.size c < size) (hle : size ≤ MAX_ALLOC_SIZE) :
    EndsRealloc s L c size (allocSetAlloc M s size >>= fun r =>
      allocSetFree (r.2.memcpy r.1 (c + ALLOC_CHUNK_HDR_SZ) (s.st.mem.size c)) (c + ALLOC_CHUNK_HDR_SZ) >>=
        fun s => .ok (r.1, s)) := by
  refine Ends.bind (allocSetAlloc_spec h h0 hle) ?_
  rintro ⟨p, s₁⟩ ⟨L₁, c₁, rfl, h₁, ht₁, ⟨hused₁, hnew₁, hsize₁⟩, hreq₁⟩
  dsimp only at h₁ ht₁ hsize₁ hreq₁ ⊢
  have hne : c ≠ c₁ := hnew₁ c hc List.not_mem_nil
  have hcn : c ∉ [c₁] := fun hm => hne (List.mem_singleton.mp hm)
  have hn₁ : c₁ ∉ [c] := fun hm => hne (List.mem_singleton.mp hm).symm
  obtain ⟨hc₁, hsz₁⟩ := ht₁.kept c hc List.not_mem_nil
  obtain ⟨h₂, ht₂⟩ := h₁.memcpy hused₁ (c + ALLOC_CHUNK_HDR_SZ) (n := s.st.mem.size c) (by omega)
  obtain ⟨s₃, L₃, hfree, h₃, ht₃⟩ := allocSetFree_spec h₂ hc₁
  rw [hfree]
  have hall : Turns [c] s L s₃ L₃ := by
    have ht : Turns [c₁] s L _ L₁ := ht₁.trans ht₂ (by simp) fun c' hc' _ => hc'
    have hgone : Turns [] s L (s₁.memcpy (c₁ + ALLOC_CHUNK_HDR_SZ) (c + ALLOC_CHUNK_HDR_SZ) (s.st.mem.size c)) L₁ :=
      ht₁.trans ht₂ (List.Subset.refl _) fun c' hc' hu =>
        absurd (List.mem_singleton.mp hc') (hnew₁ c' hu List.not_mem_nil)
    exact hgone.trans ht₃ (by simp) fun c' hc' _ => hc'
  have hsame := ht₃.kept c₁ hused₁ hn₁
  refine ⟨L₃, c₁, rfl, h₃, hall, ⟨hsame.1, fun c' hc' _ => hnew₁ c' hc' List.not_mem_nil, ?_⟩, ?_,
    fun i hi => ?_⟩
  · dsimp only
    rw [hsame.2]
    exact hsize₁
  · exact (ht₃.requested hused₁ hn₁).trans hreq₁
  · have hreqle := (h.marked.used c hc List.not_mem_nil).le
    have hbytes := ht₃.bytes hused₁ hn₁ (i := i) (by
      show i < s₁.st.mem.size c₁
      omega)
    refine hbytes.trans ?_
    show (if _ then s₁.bytes _ else _) = _
    rw [if_pos (by omega), Nat.add_sub_cancel_left]
    exact ht₁.bytes hc List.not_mem_nil (by omega)

/-! ## Altogether -/

/-- `alloc_set_realloc` of a chunk in use. -/
theorem allocSetRealloc_spec (h : Sane s L) (hc : L.Used c) {size : Nat} (h0 : 0 < size)
    (hle : size ≤ MAX_ALLOC_SIZE) :
    EndsRealloc s L c size (allocSetRealloc M s (c + ALLOC_CHUNK_HDR_SZ) size) := by
  have hshape := h.marked.shape
  have hin := h.marked.used c hc List.not_mem_nil
  unfold allocSetRealloc
  dsimp only
  rw [checkEnd_intact hin, Nat.add_sub_cancel]
  split
  · rename_i hge
    exact Sane.remark (h.marked.weaken [c]) h.filled hc (.refl [c] s L) hin.own h0 hge rfl
  rename_i hgt
  have hgt := Nat.not_le.mp hgt
  split
  · rename_i hbig
    exact reallocLarge_spec h hc hbig hgt hle
  rename_i hsmall
  have hsmall := (hshape.chunk_kind hc.1).resolve_left hsmall
  split
  · rename_i delta hg
    exact h.grow hc hsmall h0 hgt hg
  · exact realloc_exchange h hc h0 hgt hle

end PostgresV7.Aset.Debug
