import PostgresV7.Aset.Run

/-!
# Carving up a block (`alloc_set_alloc`)

The loop that makes chunks of the free space of a block, with the assertions on its way. Every
chunk takes more than half of what is left, so the free lists come in descending order and are
used up before the loop is.
-/

namespace PostgresV7.Aset

open Regions Chains Tilings Outcomes Runs

variable {A : Allocator} {st st' : State} {L : Layout} {b k avail : Nat}

/-! ## The loop with its assertions -/

/-- `alloc_set_free_index`. `none` is a failed assertion, here and below. -/
def freeIndexAsserted (size : Nat) : Option Nat :=
  let idx := allocSetFreeIndex size
  if size > 0 then if idx < ALLOC_SET_NUM_FREELISTS then some idx else none
  else some idx

/-- The chunk size and its free list. -/
def carveSizeAsserted (availSpace : Nat) : Option (Nat × Nat) := do
  let availChunk := availSpace - ALLOC_CHUNK_HDR_SZ
  let aFidx ← freeIndexAsserted availChunk
  if availChunk ≠ 1 <<< (aFidx + ALLOC_MIN_BITS) then
    if (aFidx : Int) - 1 ≥ 0 then some (aFidx - 1, 1 <<< (aFidx - 1 + ALLOC_MIN_BITS)) else none
  else some (aFidx, availChunk)

/-- A chunk that is carved off: its header, its size and the free list it is pushed on. -/
structure Carved where
  chunk : Nat
  size : Nat
  aFidx : Nat
  deriving DecidableEq, Repr

/-- A chunk of `size` bytes is carved off the free space of a block, and pushed on free list `aFidx`. -/
def State.carve (st : State) (block size aFidx : Nat) : State :=
  (st.placed block size (st.set.freelist aFidx)).setFreelist aFidx (st.mem.freeptr block)

/-- The loop, for `k` iterations at most: the chunks in their order, the space that is left, and
the set. More iterations are as bad as a failed assertion. -/
def carveAsserted (block : Nat) : Nat → Nat → State → Option (List Carved × Nat × State)
  | 0, availSpace, st =>
    if availSpace ≥ 1 <<< ALLOC_MIN_BITS + ALLOC_CHUNK_HDR_SZ then none else some ([], availSpace, st)
  | k + 1, availSpace, st =>
    if availSpace ≥ 1 <<< ALLOC_MIN_BITS + ALLOC_CHUNK_HDR_SZ then do
      let (aFidx, availChunk) ← carveSizeAsserted availSpace
      let chunk := st.mem.freeptr block
      let (chunks, left, st) ← carveAsserted block k (availSpace - (availChunk + ALLOC_CHUNK_HDR_SZ))
        (st.carve block availChunk aFidx)
      some (⟨chunk, availChunk, aFidx⟩ :: chunks, left, st)
    else some ([], availSpace, st)

/-! ## One iteration -/

theorem freeIndexAsserted_eq {size : Nat} (h : size ≤ ALLOC_CHUNK_LIMIT) :
    freeIndexAsserted size = some (allocSetFreeIndex size) := by
  unfold freeIndexAsserted
  dsimp only
  split
  · rename_i hpos
    exact if_pos (freeIndex_lt size hpos h)
  · rfl

theorem carveSizeAsserted_eq (h : 48 ≤ avail) (hlt : avail ≤ ALLOC_CHUNK_LIMIT + 32) :
    carveSizeAsserted avail = some (carveSize avail) := by
  have hchunk : avail - ALLOC_CHUNK_HDR_SZ ≤ ALLOC_CHUNK_LIMIT := by
    unfold ALLOC_CHUNK_HDR_SZ
    omega
  have hle := (freeIndex_spec (avail - ALLOC_CHUNK_HDR_SZ) (by unfold ALLOC_CHUNK_HDR_SZ; omega)
    (Nat.le_trans hchunk (by decide))).1
  unfold carveSizeAsserted carveSize
  dsimp only
  rw [freeIndexAsserted_eq hchunk]
  show (if _ then _ else _) = _
  generalize allocSetFreeIndex (avail - ALLOC_CHUNK_HDR_SZ) = idx at hle
  by_cases heq : avail - ALLOC_CHUNK_HDR_SZ = 1 <<< (idx + ALLOC_MIN_BITS)
  · rw [if_neg (not_not.mpr heq), if_neg (not_not.mpr heq)]
  · -- the smallest chunks are never too large
    have hpos : (idx : Int) - 1 ≥ 0 := by
      rcases Nat.eq_zero_or_pos idx with rfl | hpos
      · refine absurd ?_ heq
        unfold ALLOC_CHUNK_HDR_SZ at hle ⊢
        show avail - 32 = 16
        omega
      · omega
    rw [if_pos heq, if_pos heq, if_pos hpos]

/-- What the loop makes of the space. -/
structure Carving (b : Nat) (st : State) (avail : Nat) (chunks : List Carved) (left : Nat) (st' : State) : Prop where
  carved : ∀ n, chunks.length ≤ n → carveBlock b n avail st = st'
  length_le : chunks.length ≤ avail
  short : left < 1 <<< ALLOC_MIN_BITS + ALLOC_CHUNK_HDR_SZ
  rest : st'.mem.freeptr b + left = st.mem.endptr b
  grows : st.mem.freeptr b ≤ st'.mem.freeptr b
  fits : ∀ c ∈ chunks, 2 ^ (c.aFidx + 4) + 32 ≤ avail
  size : ∀ c ∈ chunks, c.size = 2 ^ (c.aFidx + 4) ∧ st'.mem.size c.chunk = c.size
  inside : ∀ c ∈ chunks, st.mem.freeptr b ≤ c.chunk ∧ c.chunk + ALLOC_CHUNK_HDR_SZ + c.size ≤ st'.mem.freeptr b
  listed : ∀ c ∈ chunks, st'.set.freelist c.aFidx = c.chunk ∧ st'.mem.aset c.chunk = st.set.freelist c.aFidx
  others : ∀ j, (∀ c ∈ chunks, c.aFidx ≠ j) → st'.set.freelist j = st.set.freelist j
  below : ∀ x < st.mem.freeptr b, st'.mem.aset x = st.mem.aset x ∧ st'.mem.size x = st.mem.size x

namespace Carving

theorem nil (hshort : ¬ avail ≥ 1 <<< ALLOC_MIN_BITS + ALLOC_CHUNK_HDR_SZ)
    (hend : st.mem.freeptr b + avail = st.mem.endptr b) : Carving b st avail [] avail st where
  carved n _ := by
    cases n with
    | zero => rfl
    | succ n => exact if_neg hshort
  length_le := Nat.zero_le _
  short := Nat.not_le.mp hshort
  rest := hend
  grows := Nat.le_refl _
  fits := nofun
  size := nofun
  inside := nofun
  listed := nofun
  others _ _ := rfl
  below _ _ := ⟨rfl, rfl⟩

/-- One chunk is carved off, then the others. -/
theorem cons {j left : Nat} {chunks : List Carved} (hcarve : carveSize avail = (j, 2 ^ (j + 4)))
    (hfit : 2 ^ (j + 4) + 32 ≤ avail) (hhalf : avail < 2 ^ (j + 5) + 32)
    (h : Carving b (st.carve b (2 ^ (j + 4)) j) (avail - (2 ^ (j + 4) + ALLOC_CHUNK_HDR_SZ)) chunks left st') :
    Carving b st avail (⟨st.mem.freeptr b, 2 ^ (j + 4), j⟩ :: chunks) left st' := by
  have hfree : (st.carve b (2 ^ (j + 4)) j).mem.freeptr b =
      st.mem.freeptr b + (2 ^ (j + 4) + ALLOC_CHUNK_HDR_SZ) := Function.update_self _ _ _
  have hsize : (st.carve b (2 ^ (j + 4)) j).mem.size (st.mem.freeptr b) = 2 ^ (j + 4) := Function.update_self _ _ _
  have haset : (st.carve b (2 ^ (j + 4)) j).mem.aset (st.mem.freeptr b) = st.set.freelist j :=
    Function.update_self _ _ _
  have hlist : (st.carve b (2 ^ (j + 4)) j).set.freelist j = st.mem.freeptr b := Function.update_self _ _ _
  have hlists : ∀ i, i ≠ j → (st.carve b (2 ^ (j + 4)) j).set.freelist i = st.set.freelist i :=
    fun i hi => Function.update_of_ne hi _ _
  have hgrows := h.grows
  rw [hfree] at hgrows
  unfold ALLOC_CHUNK_HDR_SZ at hgrows
  have hbelow : ∀ x ≤ st.mem.freeptr b, st'.mem.aset x = (st.carve b (2 ^ (j + 4)) j).mem.aset x ∧
      st'.mem.size x = (st.carve b (2 ^ (j + 4)) j).mem.size x := by
    intro x hx
    apply h.below
    rw [hfree]
    unfold ALLOC_CHUNK_HDR_SZ
    omega
  -- what is left is too small for the same free list
  have hless : ∀ c ∈ chunks, c.aFidx < j := by
    intro c hc
    have hfits := h.fits c hc
    rw [pow_succ 2 (j + 4)] at hhalf
    have hpow : 2 ^ (c.aFidx + 4) < 2 ^ (j + 4) := by
      unfold ALLOC_CHUNK_HDR_SZ at hfits
      omega
    have hlt := (Nat.pow_lt_pow_iff_right (by decide)).mp hpow
    omega
  refine ⟨fun n hn => ?_, ?_, h.short, h.rest, ?_, fun c hc => ?_, fun c hc => ?_, fun c hc => ?_, fun c hc => ?_,
    fun i hi => ?_, fun x hx => ?_⟩
  · cases n with
    | zero => exact absurd hn (Nat.not_succ_le_zero _)
    | succ n =>
      rw [← h.carved n (Nat.le_of_succ_le_succ hn), carveBlock, hcarve]
      refine if_pos ?_
      have hpos : 16 ≤ 2 ^ (j + 4) := Nat.pow_le_pow_right (show 0 < 2 by decide) (show 4 ≤ j + 4 by omega)
      show 48 ≤ avail
      omega
  · have hlength := h.length_le
    rw [List.length_cons]
    unfold ALLOC_CHUNK_HDR_SZ at hlength
    omega
  · exact Nat.le_trans (Nat.le_add_right _ _) hgrows
  · rcases List.mem_cons.mp hc with rfl | hc
    · exact hfit
    · exact Nat.le_trans (h.fits c hc) (Nat.sub_le _ _)
  · rcases List.mem_cons.mp hc with rfl | hc
    · exact ⟨rfl, (hbelow _ (Nat.le_refl _)).2.trans hsize⟩
    · exact h.size c hc
  · rcases List.mem_cons.mp hc with rfl | hc
    · refine ⟨Nat.le_refl _, ?_⟩
      show st.mem.freeptr b + 32 + 2 ^ (j + 4) ≤ _
      omega
    · have hinside := h.inside c hc
      rw [hfree] at hinside
      exact ⟨by omega, hinside.2⟩
  · rcases List.mem_cons.mp hc with rfl | hc
    · exact ⟨(h.others j fun c hc => Nat.ne_of_lt (hless c hc)).trans hlist, (hbelow _ (Nat.le_refl _)).1.trans haset⟩
    · rw [← hlists _ (Nat.ne_of_lt (hless c hc))]
      exact h.listed c hc
  · have hij : j ≠ i := hi _ List.mem_cons_self
    rw [h.others i fun c hc => hi c (List.mem_cons_of_mem _ hc), hlists i hij.symm]
  · obtain ⟨haset', hsize'⟩ := hbelow x (Nat.le_of_lt hx)
    exact ⟨haset'.trans (Function.update_of_ne (Nat.ne_of_lt hx) _ _),
      hsize'.trans (Function.update_of_ne (Nat.ne_of_lt hx) _ _)⟩

end Carving

/-- Free list by free list, the loop comes to its end. -/
theorem carveAsserted_spec (hk : k < ALLOC_SET_NUM_FREELISTS) (hlt : avail < 2 ^ (k + 4) + 32)
    (hend : st.mem.freeptr b + avail = st.mem.endptr b) : ∃ chunks left st',
    carveAsserted b k avail st = some (chunks, left, st') ∧ chunks.length ≤ k ∧
      Carving b st avail chunks left st' := by
  induction k generalizing avail st with
  | zero =>
    have hshort : ¬ avail ≥ 1 <<< ALLOC_MIN_BITS + ALLOC_CHUNK_HDR_SZ := Nat.not_le.mpr hlt
    exact ⟨[], avail, st, if_neg hshort, Nat.zero_le _, .nil hshort hend⟩
  | succ k ih =>
    unfold carveAsserted
    by_cases hge : avail ≥ 1 <<< ALLOC_MIN_BITS + ALLOC_CHUNK_HDR_SZ
    · have hlimit : avail ≤ ALLOC_CHUNK_LIMIT + 32 := by
        have hpow : 2 ^ (k + 1 + 4) ≤ 2 ^ 13 :=
          Nat.pow_le_pow_right (by decide) (by unfold ALLOC_SET_NUM_FREELISTS at hk; omega)
        have hlim : ALLOC_CHUNK_LIMIT = 2 ^ 13 := rfl
        omega
      obtain ⟨j, -, hcarve, hfit, hhalf⟩ := carveSize_spec avail hge hlimit
      have hjk : j ≤ k := by
        have hpow : 2 ^ (j + 4) < 2 ^ (k + 1 + 4) := by omega
        have hlt := (Nat.pow_lt_pow_iff_right (by decide)).mp hpow
        omega
      have hrest : avail - (2 ^ (j + 4) + ALLOC_CHUNK_HDR_SZ) < 2 ^ (k + 4) + 32 := by
        have hpow : 2 ^ (j + 4) ≤ 2 ^ (k + 4) := Nat.pow_le_pow_right (by decide) (by omega)
        rw [pow_succ 2 (j + 4)] at hhalf
        unfold ALLOC_CHUNK_HDR_SZ
        omega
      have hend' : (st.carve b (2 ^ (j + 4)) j).mem.freeptr b + (avail - (2 ^ (j + 4) + ALLOC_CHUNK_HDR_SZ)) =
          (st.carve b (2 ^ (j + 4)) j).mem.endptr b := by
        have hfree : (st.carve b (2 ^ (j + 4)) j).mem.freeptr b =
            st.mem.freeptr b + (2 ^ (j + 4) + ALLOC_CHUNK_HDR_SZ) := Function.update_self _ _ _
        rw [hfree]
        show _ = st.mem.endptr b
        unfold ALLOC_CHUNK_HDR_SZ
        omega
      obtain ⟨chunks, left, st', hrun, hlength, hcarving⟩ := ih (Nat.lt_of_succ_lt hk) hrest hend'
      refine ⟨⟨st.mem.freeptr b, 2 ^ (j + 4), j⟩ :: chunks, left, st', ?_, Nat.succ_le_succ hlength,
        hcarving.cons hcarve hfit hhalf⟩
      rw [if_pos hge, carveSizeAsserted_eq hge hlimit, hcarve]
      show (carveAsserted b k _ (st.carve b (2 ^ (j + 4)) j)).bind _ = _
      rw [hrun]
      rfl
    · rw [if_neg hge]
      exact ⟨[], avail, st, rfl, Nat.zero_le _, .nil hge hend⟩

/-! ## Where it is reached -/

/-- The bytes behind `freeptr` of the active block. -/
def availSpace (st : State) : Nat := st.mem.endptr st.set.blocks - st.mem.freeptr st.set.blocks

/-- The request carves up the active block: no free chunk serves it, nor does the block. -/
def Carves (st : State) (size : Nat) : Prop :=
  size ≤ ALLOC_CHUNK_LIMIT ∧
  (∃ priorFree, findChunk st.mem size FUEL 0 (st.set.freelist (allocSetFreeIndex size)) = .ok (priorFree, 0)) ∧
  st.set.blocks ≠ 0 ∧
  availSpace st < 1 <<< (allocSetFreeIndex size + ALLOC_MIN_BITS) + ALLOC_CHUNK_HDR_SZ

theorem Carves.alloc {size : Nat} (h : Carves st size) : allocSetAlloc A st size =
    (newBlock A (carveBlock st.set.blocks (availSpace st) (availSpace st) st)
      (1 <<< (allocSetFreeIndex size + ALLOC_MIN_BITS)) >>= fun st =>
        .ok (placeChunk st (1 <<< (allocSetFreeIndex size + ALLOC_MIN_BITS)))) := by
  obtain ⟨hsmall, ⟨priorFree, hfind⟩, hblocks, hfull⟩ := h
  unfold allocSetAlloc
  rw [if_neg (Nat.not_lt.mpr hsmall)]
  dsimp only
  rw [hfind]
  show (if (0 : Nat) ≠ 0 then Except.ok (0 + ALLOC_CHUNK_HDR_SZ, takeChunk st (allocSetFreeIndex size) priorFree 0)
    else allocFresh A st _) = _
  rw [if_neg (not_not.mpr rfl), allocFresh, if_neg hblocks]
  exact if_pos hfull

/-- What a request that exhausts memory leaves behind: the block may be carved up by then. -/
inductive Leaves (st : State) (size : Nat) : State → Prop where
  | same : ¬ Carves st size → Leaves st size st
  | carved : Carves st size → Leaves st size (carveBlock st.set.blocks (availSpace st) (availSpace st) st)

inductive Call where
  | returned (event : Event)
  | exhausted (size : Nat)
  | reallocExhausted (pointer size : Nat)
  deriving DecidableEq, Repr

/-- A call that returns, or one that ends with an error because memory is exhausted. A chunk with a
block of its own fails to grow before anything is carved up. -/
inductive CallStep (A : Allocator) : System → Call → System → Prop where
  | returned {s s' : System} {event : Event} : Step A s event s' → CallStep A s (.returned event) s'
  | exhausted {s : System} {size : Nat} {st' : State} : Valid size → allocSetAlloc A s.st size = .error .exhausted →
      Leaves s.st size st' → CallStep A s (.exhausted size) ⟨st', s.live⟩
  | reallocExhausted {s : System} {p size : Nat} {st' : State} : p ∈ s.live.map Prod.fst → Valid size →
      allocSetRealloc A s.st p size = .error .exhausted →
      (if s.st.mem.size (p - ALLOC_CHUNK_HDR_SZ) > ALLOC_CHUNK_LIMIT then st' = s.st else Leaves s.st size st') →
      CallStep A s (.reallocExhausted p size) ⟨st', s.live⟩

/-- What is left is too small for a chunk of the largest size. -/
theorem Carves.short {size : Nat} (h : Carves st size) : availSpace st < 2 ^ (9 + 4) + 32 := by
  obtain ⟨hsmall, -, -, hfull⟩ := h
  have hidx : allocSetFreeIndex size < 10 := by
    rcases Nat.eq_zero_or_pos size with rfl | hpos
    · decide
    · exact freeIndex_lt size hpos hsmall
  have hpow : 2 ^ (allocSetFreeIndex size + 4) ≤ 2 ^ (9 + 4) := Nat.pow_le_pow_right (by decide) (by omega)
  rw [Nat.one_shiftLeft] at hfull
  exact Nat.lt_of_lt_of_le hfull (Nat.add_le_add_right hpow 32)

/-- Live pointers stay backed when a block is carved up. -/
theorem Sound.leaves {s : System} {size : Nat} {st' : State} (h : Sound s) (hl : Leaves s.st size st') :
    Sound ⟨st', s.live⟩ := by
  obtain ⟨L, hshape, hback⟩ := h
  cases hl with
  | same _ => exact ⟨L, hshape, hback⟩
  | carved hc =>
    have hb := hshape.top_mem hc.2.2.1
    have hshort := hc.short
    obtain ⟨L', hshape', hkept, -⟩ := carveBlock_spec (k := availSpace s.st) (availSpace s.st) hshape hb
      (Nat.add_sub_cancel' (hshape.block _ hb).free_le) (by
        have hlim : ALLOC_CHUNK_LIMIT = 2 ^ 13 := rfl
        omega)
    exact ⟨L', hshape', hback.keep hkept (List.Sublist.refl _) fun _ _ _ hc => absurd hc List.not_mem_nil⟩

theorem Sound.call {s s' : System} {call : Call} (h : Sound s) (hs : CallStep A s call s') : Sound s' := by
  cases hs with
  | returned hs => exact h.step hs
  | exhausted _ _ hl => exact h.leaves hl
  | reallocExhausted _ _ _ hl =>
    split at hl
    · rw [hl]
      exact h
    · exact h.leaves hl

end PostgresV7.Aset
