import PostgresV7.Aset.Debug
import PostgresV7.Aset.Realloc

/-!
# Marked chunks

Every chunk in use names its set, is no smaller than what was asked for, and has the
mark behind that; free chunks have a requested size of zero. Calls write to spare memory
only: what is neither in a chunk that stays in use nor anybody else's.
-/

namespace PostgresV7.Aset.Debug

open Regions Chains Tilings Ledgers

variable {st st' : State} {s s' s'' : Image} {L L' L'' : Layout} {b c x : Nat}
  {gone gone' but but' : List Nat} {r : Region}

/-! ## Who has which memory -/

/-- Header and bytes of a chunk. -/
def chunkRegion (mem : Memory) (c : Nat) : Region := ⟨c, ALLOC_CHUNK_HDR_SZ + mem.size c⟩

/-- An allocated region that has nothing to do with the set. -/
def Foreign (st : State) (L : Layout) (r : Region) : Prop :=
  r ∈ st.mem.heap.regions ∧ 0 < r.size ∧ ∀ b ∈ L.blocks, (blockRegion st.mem b).Apart r

/-- Memory a call may write to when it takes back the chunks in `gone`. -/
def Spare (gone : List Nat) (st : State) (L : Layout) (x : Nat) : Prop :=
  (∀ c, L.Used c → c ∉ gone → ¬ (chunkRegion st.mem c).Holds x) ∧
    ∀ r, Foreign st L r → ¬ r.Holds x

theorem Spare.mono (h : Spare gone st L x) (hg : gone ⊆ gone') : Spare gone' st L x :=
  ⟨fun c hc hn => h.1 c hc fun hm => hn (hg hm), h.2⟩

theorem holds_chunk (mem : Memory) (c : Nat) : (chunkRegion mem c).Holds c := by
  simp [chunkRegion, Region.Holds, ALLOC_CHUNK_HDR_SZ]

theorem holds_blockRegion {mem : Memory} (h1 : b ≤ x) (h2 : x < mem.endptr b) :
    (blockRegion mem b).Holds x := by
  unfold blockRegion Region.Holds
  dsimp only
  omega

/-- Nothing in a block is anybody else's. -/
theorem not_foreign (hb : b ∈ L.blocks) (h1 : b ≤ x) (h2 : x < st.mem.endptr b) :
    ∀ r, Foreign st L r → ¬ r.Holds x :=
  fun _ hr hx => (hr.2.2 b hb).ne (holds_blockRegion h1 h2) hx rfl

/-- The chunk an address of a block is in starts behind the header of the block. -/
theorem holds_chunk_in (h : Shape st L) (hb : b ∈ L.blocks) (h1 : b ≤ x) (h2 : x < st.mem.endptr b)
    (hc : L.Chunk c) (hx : (chunkRegion st.mem c).Holds x) :
    b + 32 ≤ x ∧ x < st.mem.freeptr b := by
  obtain ⟨b', hb', hm⟩ := hc
  have hin := h.chunk_in hb' hm
  unfold chunkRegion ALLOC_CHUNK_HDR_SZ Region.Holds at hx
  dsimp only at hx
  obtain rfl : b = b' := h.block_unique hb hb' ⟨h1, h2⟩ (by omega)
  omega

theorem spare_block (h : Shape st L) (hb : b ∈ L.blocks) (gone : List Nat) :
    Spare gone st L b := by
  have hstart := (h.block b hb).start_le
  have hfree := (h.block b hb).free_le
  refine ⟨fun c hc _ hx => ?_, not_foreign hb (by omega) (by omega)⟩
  have hin := holds_chunk_in h hb (by omega) (by omega) hc.1 hx
  omega

theorem spare_rest (h : Shape st L) (hb : b ∈ L.blocks) (h1 : st.mem.freeptr b ≤ x)
    (h2 : x < st.mem.endptr b) (gone : List Nat) : Spare gone st L x := by
  have hstart := (h.block b hb).start_le
  refine ⟨fun c hc _ hx => ?_, not_foreign hb (by omega) h2⟩
  have hin := holds_chunk_in h hb (by omega) h2 hc.1 hx
  omega

theorem spare_chunk (h : Shape st L) (hc : L.Chunk c) (hg : L.Used c → c ∈ gone)
    (hx : (chunkRegion st.mem c).Holds x) : Spare gone st L x := by
  constructor
  · intro c' hc' hn hx'
    have hne : c ≠ c' := by
      rintro rfl
      exact hn (hg hc')
    have hap := h.chunks_apart hc hc'.1 hne
    unfold chunkRegion ALLOC_CHUNK_HDR_SZ Region.Holds at hx hx'
    dsimp only at hx hx'
    omega
  · obtain ⟨b, hb, hm⟩ := hc
    have hin := h.chunk_in hb hm
    unfold chunkRegion ALLOC_CHUNK_HDR_SZ Region.Holds at hx
    dsimp only at hx
    exact not_foreign hb (by omega) (by omega)

/-- Nothing in memory nobody has belongs to anyone. -/
theorem spare_fresh (h : Shape st L) (hx : ∀ r ∈ st.mem.heap.regions, ¬ r.Holds x) (gone : List Nat) :
    Spare gone st L x := by
  constructor
  · intro c hc _ hxc
    obtain ⟨b, hb, hm⟩ := hc.1
    have hin := h.chunk_in hb hm
    unfold chunkRegion ALLOC_CHUNK_HDR_SZ Region.Holds at hxc
    dsimp only at hxc
    exact hx _ (h.block b hb).region (holds_blockRegion (by omega) (by omega))
  · exact fun r hr => hx r hr.1

theorem spare_granted (h : Shape st L) {heap : Heap} {p n : Nat} (hg : st.mem.heap.Grants heap p n)
    (hx : p ≤ x ∧ x < p + n) (gone : List Nat) : Spare gone st L x :=
  spare_fresh h (fun r hr hrx => (hg.fresh r hr).ne (b := x) hx hrx rfl) gone

/-! ## What a call leaves alone -/

/-- Headers and bytes at `x` are what they were. -/
structure Untouched (s s' : Image) (x : Nat) : Prop where
  next : s'.st.mem.next x = s.st.mem.next x
  freeptr : s'.st.mem.freeptr x = s.st.mem.freeptr x
  endptr : s'.st.mem.endptr x = s.st.mem.endptr x
  aset : s'.st.mem.aset x = s.st.mem.aset x
  size : s'.st.mem.size x = s.st.mem.size x
  requested : s'.requested x = s.requested x
  bytes : s'.bytes x = s.bytes x

theorem Untouched.refl (s : Image) (x : Nat) : Untouched s s x := ⟨rfl, rfl, rfl, rfl, rfl, rfl, rfl⟩

theorem Untouched.trans (h : Untouched s s' x) (h' : Untouched s' s'' x) : Untouched s s'' x :=
  ⟨h'.next.trans h.next, h'.freeptr.trans h.freeptr, h'.endptr.trans h.endptr, h'.aset.trans h.aset,
    h'.size.trans h.size, h'.requested.trans h.requested, h'.bytes.trans h.bytes⟩

/-- From one state of the set to another one, in which all chunks in use before are but
those in `gone`. -/
structure Turns (gone : List Nat) (s : Image) (L : Layout) (s' : Image) (L' : Layout) : Prop where
  self : s'.st.set.self = s.st.set.self
  keeper : s'.st.set.keeper = s.st.set.keeper
  kept : Kept gone s.st L s'.st L'
  foreign : ∀ r, Foreign s.st L r → Foreign s'.st L' r
  spare : ∀ x, Spare gone s.st L x ∨ Untouched s s' x
  settles : ∃ es, s'.ledger = es ++ s.ledger ∧ Settles es L.blocks L'.blocks
  notices : s'.notices = s.notices

theorem Turns.trans (h : Turns gone s L s' L') (h' : Turns gone' s' L' s'' L'') {all : List Nat}
    (hg : gone ⊆ all) (hg' : ∀ c ∈ gone', L.Used c → c ∈ all) : Turns all s L s'' L'' where
  self := h'.self.trans h.self
  keeper := h'.keeper.trans h.keeper
  kept c hc hn := by
    obtain ⟨hc', hsize⟩ := h.kept c hc fun hm => hn (hg hm)
    obtain ⟨hc'', hsize'⟩ := h'.kept c hc' fun hm => hn (hg' c hm hc)
    exact ⟨hc'', hsize'.trans hsize⟩
  foreign r hr := h'.foreign r (h.foreign r hr)
  spare x := by
    rcases h.spare x with hx | hx
    · exact Or.inl (hx.mono hg)
    rcases h'.spare x with hx' | hx'
    · left
      refine ⟨fun c hc hn => ?_, fun r hr => hx'.2 r (h.foreign r hr)⟩
      obtain ⟨hc', hsize⟩ := h.kept c hc fun hm => hn (hg hm)
      have hout := hx'.1 c hc' fun hm => hn (hg' c hm hc)
      unfold chunkRegion at hout ⊢
      rwa [hsize] at hout
    · exact Or.inr (hx.trans hx')
  settles := by
    obtain ⟨es, hes, hset⟩ := h.settles
    obtain ⟨es', hes', hset'⟩ := h'.settles
    exact ⟨es' ++ es, by rw [hes', hes, List.append_assoc], hset.trans hset'⟩
  notices := h'.notices.trans h.notices

/-- All of a chunk that stays in use is untouched. -/
theorem Turns.untouched (h : Turns gone s L s' L') (hc : L.Used c) (hn : c ∉ gone)
    (hx : (chunkRegion s.st.mem c).Holds x) : Untouched s s' x :=
  (h.spare x).resolve_left fun hs => hs.1 c hc hn hx

theorem Turns.untouched_foreign (h : Turns gone s L s' L') (hr : Foreign s.st L r) (hx : r.Holds x) :
    Untouched s s' x :=
  (h.spare x).resolve_left fun hs => hs.2 r hr hx

/-- The blocks stay where they are and as they are. -/
theorem foreign_of_same (hr : Foreign st L r) (hblocks : L'.blocks = L.blocks)
    (hend : ∀ b ∈ L.blocks, st'.mem.endptr b = st.mem.endptr b)
    (hregions : st'.mem.heap.regions = st.mem.heap.regions) : Foreign st' L' r := by
  refine ⟨hregions ▸ hr.1, hr.2.1, fun b hb => ?_⟩
  rw [hblocks] at hb
  unfold blockRegion
  rw [hend b hb]
  exact hr.2.2 b hb

theorem settles_none (hledger : s'.ledger = s.ledger) (hblocks : L'.blocks = L.blocks) :
    ∃ es, s'.ledger = es ++ s.ledger ∧ Settles es L.blocks L'.blocks :=
  ⟨[], hledger, .none (by rw [hblocks])⟩

/-! ## The invariant -/

/-- What `alloc_set_check` asks of a chunk in use. -/
structure Intact (s : Image) (c : Nat) : Prop where
  pos : 0 < s.requested c
  le : s.requested c ≤ s.st.mem.size c
  own : s.st.mem.aset c = s.st.set.self
  marked : s.requested c < s.st.mem.size c → s.bytes (c + ALLOC_CHUNK_HDR_SZ + s.requested c) = 0x7E

theorem Intact.keep (h : Intact s c) (hself : s'.st.set.self = s.st.set.self)
    (hx : ∀ x, (chunkRegion s.st.mem c).Holds x → Untouched s s' x) : Intact s' c := by
  have hc := hx c (holds_chunk _ c)
  constructor
  · rw [hc.requested]
    exact h.pos
  · rw [hc.requested, hc.size]
    exact h.le
  · rw [hc.aset, hself]
    exact h.own
  · rw [hc.requested, hc.size]
    intro hlt
    rw [(hx _ _).bytes]
    · exact h.marked hlt
    · unfold chunkRegion Region.Holds
      dsimp only
      omega

/-- The set has the layout `L`, and all chunks in use but those in `but` are intact. -/
structure Marked (but : List Nat) (s : Image) (L : Layout) : Prop where
  shape : Shape s.st L
  free : ∀ k < ALLOC_SET_NUM_FREELISTS, ∀ c ∈ L.free k, s.requested c = 0
  used : ∀ c, L.Used c → c ∉ but → Intact s c

theorem Marked.turn (h : Marked but s L) (ht : Turns gone s L s' L') (hs : Shape s'.st L')
    (hfree : ∀ k < ALLOC_SET_NUM_FREELISTS, ∀ c ∈ L'.free k, s'.requested c = 0)
    (hused : ∀ c, L'.Used c → c ∉ but' → L.Used c ∧ c ∉ but ∧ c ∉ gone) : Marked but' s' L' := by
  refine ⟨hs, hfree, fun c hc hn => ?_⟩
  obtain ⟨hc', hb, hg⟩ := hused c hc hn
  exact (h.used c hc' hb).keep ht.self fun x hx => ht.untouched hc' hg hx

/-- A requested size and a mark for a chunk in use. -/
theorem Marked.mark (h : Marked [c] s L) (hc : L.Used c) (hown : s.st.mem.aset c = s.st.set.self)
    {size : Nat} (h0 : 0 < size) (hle : size ≤ s.st.mem.size c) :
    Marked [] (s.mark c size) L ∧ Turns [c] s L (s.mark c size) L := by
  have hspare : ∀ x, (chunkRegion s.st.mem c).Holds x → Spare [c] s.st L x := fun x hx =>
    spare_chunk h.shape hc.1 (fun _ => List.mem_cons_self) hx
  have ht : Turns [c] s L (s.mark c size) L := by
    refine ⟨rfl, rfl, .refl [c] s.st L, fun r hr => hr, fun x => ?_, settles_none rfl rfl, rfl⟩
    by_cases hx : (chunkRegion s.st.mem c).Holds x
    · exact Or.inl (hspare x hx)
    · right
      refine ⟨rfl, rfl, rfl, rfl, rfl, ?_, ?_⟩
      · refine Function.update_of_ne ?_ _ _
        rintro rfl
        exact hx (holds_chunk _ _)
      · show (if size < s.st.mem.size c then _ else s.bytes) x = _
        split
        · refine Function.update_of_ne ?_ _ _
          rintro rfl
          refine hx ?_
          unfold chunkRegion Region.Holds
          dsimp only
          omega
        · rfl
  have hreq : (s.mark c size).requested c = size := Function.update_self _ _ _
  refine ⟨⟨h.shape, fun k hk c' hc' => ?_, fun c' hc' _ => ?_⟩, ht⟩
  · have hne : c' ≠ c := by
      rintro rfl
      exact hc.2 k hk hc'
    exact (Function.update_of_ne hne _ _).trans (h.free k hk c' hc')
  · by_cases hcc : c' = c
    · subst hcc
      refine ⟨by rwa [hreq], by rwa [hreq], hown, fun hlt => ?_⟩
      rw [hreq] at hlt ⊢
      have hbytes : (s.mark c' size).bytes =
          Function.update s.bytes (c' + ALLOC_CHUNK_HDR_SZ + size) 0x7E := if_pos hlt
      rw [hbytes]
      exact Function.update_self _ _ _
    · have hn : c' ∉ [c] := fun hm => hcc (List.mem_singleton.mp hm)
      exact (h.used c' hc' hn).keep rfl fun x hx => ht.untouched hc' hn hx

/-- Only the keeper may be without chunks, and the blocks in `but`. -/
def Filled (but : List Nat) (st : State) (L : Layout) : Prop :=
  ∀ b ∈ L.blocks, L.chunks b = [] → b = st.set.keeper ∨ b ∈ but

end PostgresV7.Aset.Debug
