import PostgresV7.Aset.Erase
import PostgresV7.Aset.Run
import PostgresV7.Aset.Silent

/-!
# Creation, reset and deletion

A set begins and is reset with nothing but its keeper. Both loops over the blocks wipe
each block and give it back, but for a keeper that is to stay.
-/

namespace PostgresV7.Aset.Debug

open Regions Chains Tilings Ledgers Outcomes

variable {M : Libc} {s s' s₁ : Image} {L : Layout} {b c n x : Nat} {bs : List Nat} {r : Region}

/-! ## The loops -/

/-- What a loop over the blocks `bs` leaves of them. -/
structure Emptied (s s' : Image) (bs : List Nat) : Prop where
  set : s'.st.set = s.st.set
  endptr : s'.st.mem.endptr = s.st.mem.endptr
  notices : s'.notices = s.notices
  keeper : s.st.set.keeper ∈ bs → s'.st.mem.next s.st.set.keeper = 0 ∧
    s'.st.mem.freeptr s.st.set.keeper = s.st.set.keeper + ALLOC_BLOCK_HDR_SZ
  other : ∀ b, b ∉ bs → s'.st.mem.next b = s.st.mem.next b ∧ s'.st.mem.freeptr b = s.st.mem.freeptr b
  regions : ∀ r ∈ s.st.mem.heap.regions, r.base ∉ bs ∨ r.base = s.st.set.keeper →
    r ∈ s'.st.mem.heap.regions
  settles : ∃ es, s'.ledger = es ++ s.ledger ∧
    ∀ held, Settles es (bs ++ held) (bs.filter (· = s.st.set.keeper) ++ held)
  untouched : ∀ x, (∀ b ∈ bs, ¬ (b ≤ x ∧ x < s.st.mem.freeptr b)) → Untouched s s' x

theorem Emptied.nil (s : Image) : Emptied s s [] :=
  ⟨rfl, rfl, rfl, fun hm => absurd hm List.not_mem_nil, fun _ _ => ⟨rfl, rfl⟩, fun _ hr _ => hr,
    ⟨[], rfl, fun _ => .none (List.Perm.refl _)⟩, fun x _ => .refl s x⟩

/-- The state after the keeper was reset. -/
def Image.keep (s : Image) (b : Nat) : Image :=
  (s.wipe (b + ALLOC_BLOCK_HDR_SZ) (s.st.mem.freeptr b - (b + ALLOC_BLOCK_HDR_SZ))).onSet fun st =>
    { st with mem := { st.mem with
      freeptr := Function.update st.mem.freeptr b (b + ALLOC_BLOCK_HDR_SZ)
      next := Function.update st.mem.next b 0 } }

/-- The state after a block was released. -/
def Image.drop (s : Image) (b : Nat) : Image := (s.wipe b (s.st.mem.freeptr b - b)).free b

theorem Emptied.keep (hb : b ∉ bs) (hkeep : b = s.st.set.keeper) (hstart : b + 32 ≤ s.st.mem.freeptr b)
    (h : Emptied (s.keep b) s' bs) : Emptied s s' (b :: bs) := by
  have hother : ∀ b' ∈ bs, (s.keep b).st.mem.freeptr b' = s.st.mem.freeptr b' := by
    intro b' hb'
    refine Function.update_of_ne ?_ _ _
    rintro rfl
    exact hb hb'
  have hxb : ∀ x, ¬ (b ≤ x ∧ x < s.st.mem.freeptr b) → x ≠ b := by
    intro x hx heq
    exact hx ⟨by omega, by omega⟩
  constructor
  · exact h.set
  · exact h.endptr
  · exact h.notices
  · intro _
    obtain ⟨hnext, hfree⟩ := h.other b hb
    rw [← hkeep, hnext, hfree]
    exact ⟨Function.update_self _ _ _, Function.update_self _ _ _⟩
  · intro b' hb'
    have hne : b' ≠ b := fun heq => hb' (heq ▸ List.mem_cons_self)
    obtain ⟨hnext, hfree⟩ := h.other b' fun hm => hb' (List.mem_cons_of_mem b hm)
    rw [hnext, hfree]
    exact ⟨Function.update_of_ne hne _ _, Function.update_of_ne hne _ _⟩
  · intro r hr hbase
    refine h.regions r hr ?_
    rcases hbase with hn | hk
    · exact Or.inl fun hm => hn (List.mem_cons_of_mem b hm)
    · exact Or.inr hk
  · obtain ⟨es, hes, hset⟩ := h.settles
    refine ⟨es, hes, fun held => ?_⟩
    have hfilter : (b :: bs).filter (· = s.st.set.keeper) = b :: bs.filter (· = s.st.set.keeper) :=
      List.filter_cons_of_pos (by simp [hkeep])
    rw [hfilter]
    exact (hset (b :: held)).perm List.perm_middle List.perm_middle
  · intro x hx
    have hxk := hx b List.mem_cons_self
    have hfirst : Untouched s (s.keep b) x := by
      refine ⟨Function.update_of_ne (hxb x hxk) _ _, Function.update_of_ne (hxb x hxk) _ _, rfl, rfl, rfl,
        rfl, if_neg fun hin => hxk ?_⟩
      unfold ALLOC_BLOCK_HDR_SZ at hin
      omega
    refine hfirst.trans (h.untouched x fun b' hb' => ?_)
    rw [hother b' hb']
    exact hx b' (List.mem_cons_of_mem b hb')

theorem Emptied.drop (hkeep : b ≠ s.st.set.keeper) (h : Emptied (s.drop b) s' bs) :
    Emptied s s' (b :: bs) := by
  constructor
  · exact h.set
  · exact h.endptr
  · exact h.notices
  · intro hm
    exact h.keeper ((List.mem_cons.mp hm).resolve_left fun heq => hkeep heq.symm)
  · exact fun b' hb' => h.other b' fun hm => hb' (List.mem_cons_of_mem b hm)
  · intro r hr hbase
    have hne : r.base ≠ b := by
      rcases hbase with hn | hk
      · exact fun heq => hn (heq ▸ List.mem_cons_self)
      · exact fun heq => hkeep (heq.symm.trans hk)
    refine h.regions r (Heap.mem_release.mpr ⟨hr, hne⟩) ?_
    rcases hbase with hn | hk
    · exact Or.inl fun hm => hn (List.mem_cons_of_mem b hm)
    · exact Or.inr hk
  · obtain ⟨es, hes, hset⟩ := h.settles
    refine ⟨es ++ [.returned b], ?_, fun held => ?_⟩
    · rw [hes, List.append_assoc]
      rfl
    have hfilter : (b :: bs).filter (· = s.st.set.keeper) = bs.filter (· = s.st.set.keeper) :=
      List.filter_cons_of_neg (by simp [hkeep])
    rw [hfilter]
    refine Settles.trans (Settles.returned List.mem_cons_self ?_) (hset held)
    rw [List.cons_append, List.erase_cons_head]
  · intro x hx
    have hxb := hx b List.mem_cons_self
    have hfirst : Untouched s (s.drop b) x :=
      ⟨rfl, rfl, rfl, rfl, rfl, rfl, if_neg fun hin => hxb (by omega)⟩
    exact hfirst.trans (h.untouched x fun b' hb' => hx b' (List.mem_cons_of_mem b hb'))

theorem resetBlocks_emptied (s : Image) {k x : Nat} {bs : List Nat}
    (h : Linked id 0 s.st.mem.next x bs) (hk : bs.length ≤ k)
    (hstart : ∀ b ∈ bs, b + 32 ≤ s.st.mem.freeptr b) :
    ∃ s', resetBlocks k x s = .ok s' ∧ Emptied s s' bs := by
  induction bs generalizing k x s with
  | nil =>
    refine ⟨s, ?_, .nil s⟩
    unfold resetBlocks
    exact if_pos h
  | cons b bs ih =>
    have hnd := List.nodup_cons.mp h.nodup
    obtain ⟨rfl, hx, hrest⟩ := h
    cases k with
    | zero => exact absurd hk (Nat.not_succ_le_zero _)
    | succ k =>
      have hlen := Nat.le_of_succ_le_succ hk
      unfold resetBlocks
      rw [if_neg hx]
      dsimp only
      by_cases hkeep : x = s.st.set.keeper
      · rw [if_pos hkeep]
        have hne : ∀ b ∈ bs, b ≠ x := by
          rintro b hb rfl
          exact hnd.1 hb
        have hlinked : Linked id 0 (s.keep x).st.mem.next (s.st.mem.next x) bs :=
          (chain_iff_linked.mp hrest).move fun b hb => Function.update_of_ne (hne b hb) _ _
        obtain ⟨s', hrun, he⟩ := ih (s.keep x) hlinked hlen fun b hb => by
          have hsame : (s.keep x).st.mem.freeptr b = s.st.mem.freeptr b :=
            Function.update_of_ne (hne b hb) _ _
          rw [hsame]
          exact hstart b (List.mem_cons_of_mem x hb)
        exact ⟨s', hrun, he.keep hnd.1 hkeep (hstart x List.mem_cons_self)⟩
      · rw [if_neg hkeep]
        obtain ⟨s', hrun, he⟩ := ih (s.drop x) (chain_iff_linked.mp hrest) hlen
          fun b hb => hstart b (List.mem_cons_of_mem x hb)
        exact ⟨s', hrun, he.drop hkeep⟩

/-- Without a keeper the two loops are the same. -/
theorem deleteBlocks_eq (s : Image) (k x : Nat) (h : s.st.set.keeper = 0) :
    deleteBlocks k x s = resetBlocks k x s := by
  induction k generalizing x s with
  | zero =>
    unfold deleteBlocks resetBlocks
    rfl
  | succ k ih =>
    unfold deleteBlocks resetBlocks
    by_cases hx : x = 0
    · rw [if_pos hx, if_pos hx]
    · rw [if_neg hx, if_neg hx]
      dsimp only
      rw [h, if_neg hx]
      exact ih ((s.wipe x (s.st.mem.freeptr x - x)).free x) (s.st.mem.next x) h

/-! ## The loops over a whole set -/

/-- The loop starts with other heads of the lists. -/
def Image.withSet (s : Image) (set : AllocSet) : Image := s.onSet fun st => { st with set := set }

theorem Sane.sweep (h : Sane s L) (set : AllocSet) :
    ∃ s', resetBlocks FUEL s.st.set.blocks (s.withSet set) = .ok s' ∧
      Emptied (s.withSet set) s' L.blocks := by
  have hshape := h.marked.shape
  apply resetBlocks_emptied (s.withSet set) hshape.linked hshape.length_le
  exact fun b hb => (hshape.block b hb).start_le

namespace Emptied

variable {set : AllocSet}

theorem foreign (he : Emptied (s.withSet set) s' L.blocks) (h : Shape s.st L)
    (hr : Foreign s.st L r) : r ∈ s'.st.mem.heap.regions :=
  he.regions r hr.1 (Or.inl fun hm => foreign_base_ne h hm hr rfl)

theorem outside (he : Emptied (s.withSet set) s' L.blocks)
    (hx : ∀ b ∈ L.blocks, ¬ (b ≤ x ∧ x < s.st.mem.freeptr b)) : Untouched s s' x := by
  have hu := he.untouched x hx
  exact ⟨hu.next, hu.freeptr, hu.endptr, hu.aset, hu.size, hu.requested, hu.bytes⟩

theorem spare (he : Emptied (s.withSet set) s' L.blocks) (h : Shape s.st L) :
    (∀ r, Foreign s.st L r → ¬ r.Holds x) ∨ Untouched s s' x := by
  by_cases hx : ∃ b ∈ L.blocks, b ≤ x ∧ x < s.st.mem.freeptr b
  · obtain ⟨b, hb, h1, h2⟩ := hx
    have hfree := (h.block b hb).free_le
    exact Or.inl (not_foreign hb h1 (by omega))
  · exact Or.inr (he.outside fun b hb hin => hx ⟨b, hb, hin⟩)

theorem settled (he : Emptied (s.withSet set) s' L.blocks) :
    ∃ es, s'.ledger = es ++ s.ledger ∧ Settles es L.blocks (L.blocks.filter (· = set.keeper)) := by
  obtain ⟨es, hes, hset⟩ := he.settles
  have hall := hset []
  rw [List.append_nil, List.append_nil] at hall
  exact ⟨es, hes, hall⟩

end Emptied

/-! ## `alloc_set_reset` -/

/-- All chunks of the set. -/
def allChunks (L : Layout) : List Nat := L.blocks.flatMap L.chunks

theorem filter_keeper (h : Shape s.st L) :
    L.blocks.filter (· = s.st.set.keeper) = (Layout.empty s.st.set.keeper).blocks := by
  rw [List.filter_eq]
  unfold Layout.empty
  dsimp only
  by_cases hk : s.st.set.keeper = 0
  · rw [if_pos hk, List.count_eq_zero.mpr fun hm => h.block_ne hm hk]
    rfl
  · rw [if_neg hk, List.count_eq_one_of_mem h.nodup (h.keeper hk).1]
    rfl

/-- Nothing is in use in a set with its keeper alone. -/
theorem Marked.empty (h : Shape s.st (Layout.empty b)) : Marked [] s (Layout.empty b) := by
  refine ⟨h, fun k _ c hc => absurd hc List.not_mem_nil, fun c hc => ?_⟩
  obtain ⟨⟨b', -, hm⟩, -⟩ := hc
  exact absurd hm List.not_mem_nil

theorem Filled.empty (st : State) : Filled [] st (Layout.empty st.set.keeper) := by
  intro b hb _
  unfold Layout.empty at hb
  dsimp only at hb
  split at hb
  · cases hb
  · exact Or.inl (List.mem_singleton.mp hb)

/-- The set as `alloc_set_reset` leaves it. -/
def cleared (set : AllocSet) : AllocSet :=
  { set with freelist := fun _ => 0, blocks := set.keeper }

theorem Emptied.shape (he : Emptied (s.withSet (cleared s.st.set)) s' L.blocks) (h : Shape s.st L) :
    Shape s'.st (Layout.empty s'.st.set.keeper) := by
  have hend : s'.st.mem.endptr = s.st.mem.endptr := he.endptr
  refine shape_empty ?_ ?_ fun hk => ?_
  · rw [he.set]
    rfl
  · rw [he.set]
    rfl
  · rw [he.set] at hk ⊢
    change s.st.set.keeper ≠ 0 at hk
    show s'.st.mem.next s.st.set.keeper = 0 ∧ Block s'.st.mem s.st.set.keeper []
    have hkm := (h.keeper hk).1
    obtain ⟨hnext, hfree⟩ := he.keeper hkm
    change s'.st.mem.next s.st.set.keeper = 0 at hnext
    change s'.st.mem.freeptr s.st.set.keeper = s.st.set.keeper + ALLOC_BLOCK_HDR_SZ at hfree
    have hblock := h.block _ hkm
    have hstart := hblock.start_le
    have hfle := hblock.free_le
    refine ⟨hnext, hblock.pos, hblock.dvd, hfree, ?_, ?_, ?_, Or.inr fun c hc => absurd hc List.not_mem_nil⟩
    · rw [hfree, hend]
      unfold ALLOC_BLOCK_HDR_SZ
      omega
    · rw [hend]
      exact hblock.below
    · unfold blockRegion
      rw [hend]
      exact he.regions _ hblock.region (Or.inr rfl)

theorem Emptied.turns (he : Emptied (s.withSet (cleared s.st.set)) s' L.blocks) (h : Shape s.st L) :
    Turns (allChunks L) s L s' (Layout.empty s'.st.set.keeper) := by
  have hkeeper : s'.st.set.keeper = s.st.set.keeper := by
    rw [he.set]
    rfl
  have hall : ∀ c, L.Used c → c ∈ allChunks L := by
    intro c hc
    obtain ⟨b, hb, hm⟩ := hc.1
    exact List.mem_flatMap.mpr ⟨b, hb, hm⟩
  rw [hkeeper]
  constructor
  · rw [he.set]
    rfl
  · exact hkeeper
  · exact fun c hc hn => absurd (hall c hc) hn
  · intro r hr
    refine ⟨he.foreign h hr, hr.2.1, fun b hb => ?_⟩
    have hend : s'.st.mem.endptr = s.st.mem.endptr := he.endptr
    have hbk : b ∈ L.blocks := by
      rw [← filter_keeper h] at hb
      exact (List.mem_filter.mp hb).1
    unfold blockRegion
    rw [hend]
    exact hr.2.2 b hbk
  · intro x
    exact (he.spare h).imp_left fun hx => ⟨fun c hc hn => absurd (hall c hc) hn, hx⟩
  · rw [← filter_keeper h]
    exact he.settled
  · exact he.notices

theorem allocSetReset_spec (h : Sane s L) :
    ∃ s', allocSetReset s = .ok s' ∧ Sane s' (Layout.empty s'.st.set.keeper) ∧
      Turns (allChunks L) s L s' (Layout.empty s'.st.set.keeper) ∧
      (s.st.set.keeper ≠ 0 → s'.st.mem.freeptr s.st.set.keeper = s.st.set.keeper + ALLOC_BLOCK_HDR_SZ) := by
  have hshape := h.marked.shape
  obtain ⟨s', hrun, he⟩ := h.sweep (cleared s.st.set)
  refine ⟨s', ?_, ⟨.empty (he.shape hshape), Filled.empty s'.st⟩, he.turns hshape, fun hk => ?_⟩
  · unfold allocSetReset
    rw [allocSetCheck_nil h]
    have hstart : ({ s with notices := s.notices ++ [] }.onSet fun st =>
        { st with set := { st.set with freelist := fun _ => 0, blocks := st.set.keeper } }) =
        s.withSet (cleared s.st.set) := by
      rw [List.append_nil]
      rfl
    show resetBlocks FUEL s.st.set.blocks ({ s with notices := s.notices ++ [] }.onSet fun st =>
      { st with set := { st.set with freelist := fun _ => 0, blocks := st.set.keeper } }) = _
    rw [hstart]
    exact hrun
  · exact (he.keeper (hshape.keeper hk).1).2

/-! ## `alloc_set_delete` -/

/-- What a deleted set leaves: nothing of its own. -/
structure Deleted (s : Image) (L : Layout) (s' : Image) : Prop where
  blocks : s'.st.set.blocks = 0
  foreign : ∀ r, Foreign s.st L r → r ∈ s'.st.mem.heap.regions
  untouched : ∀ r, Foreign s.st L r → ∀ x, r.Holds x → Untouched s s' x
  settles : ∃ es, s'.ledger = es ++ s.ledger ∧ Settles es L.blocks []
  notices : s'.notices = s.notices

theorem allocSetDelete_spec (h : Sane s L) : ∃ s', allocSetDelete s = .ok s' ∧ Deleted s L s' := by
  have hshape := h.marked.shape
  obtain ⟨s', hrun, he⟩ :=
    h.sweep { s.st.set with freelist := fun _ => 0, blocks := 0, keeper := 0 }
  refine ⟨s', ?_, ?_, fun r hr => he.foreign hshape hr, fun r hr x hx => ?_, ?_, he.notices⟩
  · unfold allocSetDelete
    rw [allocSetCheck_nil h]
    have hstart : ({ s with notices := s.notices ++ [] }.onSet fun st =>
        { st with set := { st.set with freelist := fun _ => 0, blocks := 0, keeper := 0 } }) =
        s.withSet { s.st.set with freelist := fun _ => 0, blocks := 0, keeper := 0 } := by
      rw [List.append_nil]
      rfl
    show deleteBlocks FUEL s.st.set.blocks ({ s with notices := s.notices ++ [] }.onSet fun st =>
      { st with set := { st.set with freelist := fun _ => 0, blocks := 0, keeper := 0 } }) = _
    rw [hstart, deleteBlocks_eq _ _ _ rfl]
    exact hrun
  · rw [he.set]
    rfl
  · exact (he.spare hshape).resolve_left fun hn => hn r hr hx
  · have hnone : L.blocks.filter (· = 0) = [] := by
      rw [List.filter_eq, List.count_eq_zero.mpr fun hm => hshape.block_ne hm rfl]
      rfl
    rw [← hnone]
    exact he.settled

/-! ## `alloc_set_context_create` -/

/-- A new set beside what there was. -/
structure Created (s : Image) (node : Nat) (s' : Image) : Prop where
  sane : Sane s' (Layout.empty s'.st.set.keeper)
  self : s'.st.set.self = node
  regions : ∀ r ∈ s.st.mem.heap.regions, r ∈ s'.st.mem.heap.regions
  apart : ∀ r ∈ s.st.mem.heap.regions, ∀ b ∈ (Layout.empty s'.st.set.keeper).blocks,
    (blockRegion s'.st.mem b).Apart r
  untouched : ∀ r ∈ s.st.mem.heap.regions, ∀ x, r.Holds x → Untouched s s' x
  settles : ∃ es, s'.ledger = es ++ s.ledger ∧ Settles es [] (Layout.empty s'.st.set.keeper).blocks
  notices : s'.notices = s.notices

/-- Where the size of the keeper does not wrap. -/
theorem allocSetContextCreate_spec {self minContextSize initBlockSize maxBlockSize : Nat}
    (hmin : minContextSize + 16 ≤ 2 ^ 64)
    (hcreate : allocSetContextCreate M s self minContextSize initBlockSize maxBlockSize = .ok s') :
    Created s self s' := by
  have hbase : Aset.allocSetContextCreate M.allocator s.st.mem self minContextSize initBlockSize
      maxBlockSize = .ok s'.st := by
    rw [← allocSetContextCreate_erase (M := M), hcreate]
    rfl
  have hsane : Sane s' (Layout.empty s'.st.set.keeper) :=
    ⟨.empty (Aset.allocSetContextCreate_spec hmin hbase), Filled.empty s'.st⟩
  unfold allocSetContextCreate at hcreate
  dsimp only at hcreate
  split at hcreate
  · rcases ha : s.malloc M (maxAlign minContextSize) with ⟨_ | p, s₁⟩
    · rw [ha] at hcreate
      cases hcreate
    · rw [ha] at hcreate
      have hg := malloc_some ha
      obtain rfl := Except.ok.inj hcreate
      have hpos : p ≠ 0 := Nat.ne_of_gt hg.grants.pos
      have hblocks : (Layout.empty p).blocks = [p] := if_neg hpos
      have hne : ∀ r ∈ s.st.mem.heap.regions, ∀ x, r.Holds x →
          ¬ (p ≤ x ∧ x < p + maxAlign minContextSize) := by
        intro r hr x hx hin
        exact (hg.grants.fresh r hr).ne (b := x) hin hx rfl
      refine ⟨hsane, rfl, fun r hr => ?_, fun r hr b hb => ?_, fun r hr x hx => ?_,
        ⟨[.obtained p], hg.ledger, .obtained List.not_mem_nil ?_⟩, hg.notices⟩
      · show r ∈ s₁.st.mem.heap.regions
        rw [hg.grants.regions]
        exact List.mem_cons_of_mem _ hr
      · have hbp : b ∈ (Layout.empty p).blocks := hb
        rw [hblocks] at hbp
        obtain rfl := List.mem_singleton.mp hbp
        have hend : Function.update s₁.st.mem.endptr b (b + maxAlign minContextSize) b =
            b + maxAlign minContextSize := Function.update_self _ _ _
        show Region.Apart ⟨b, Function.update s₁.st.mem.endptr b (b + maxAlign minContextSize) b - b⟩ r
        rw [hend, Nat.add_sub_cancel_left]
        exact hg.grants.fresh r hr
      · have hout := hne r hr x hx
        have hxp : x ≠ p := by
          rintro rfl
          have hstart := (hsane.marked.shape.block x (by
            show x ∈ (Layout.empty x).blocks
            rw [hblocks]
            exact List.mem_cons_self))
          have h1 := hstart.start_le
          have h2 := hstart.free_le
          have hend : Function.update s₁.st.mem.endptr x (x + maxAlign minContextSize) x =
            x + maxAlign minContextSize := Function.update_self _ _ _
          have h2 : _ ≤ Function.update s₁.st.mem.endptr x (x + maxAlign minContextSize) x := h2
          rw [hend] at h2
          omega
        have hst : s₁.st = { s.st with mem := { s.st.mem with heap := s₁.st.mem.heap } } := hg.st
        refine ⟨?_, ?_, ?_, ?_, ?_, congrFun hg.requested x, hg.bytes x hout⟩
        · show Function.update s₁.st.mem.next p 0 x = _
          rw [Function.update_of_ne hxp, hst]
        · show Function.update s₁.st.mem.freeptr p _ x = _
          rw [Function.update_of_ne hxp, hst]
        · show Function.update s₁.st.mem.endptr p _ x = _
          rw [Function.update_of_ne hxp, hst]
        · show s₁.st.mem.aset x = _
          rw [hst]
        · show s₁.st.mem.size x = _
          rw [hst]
      · show [p].Perm (Layout.empty p).blocks
        rw [hblocks]
  · obtain rfl := Except.ok.inj hcreate
    refine ⟨hsane, rfl, fun r hr => hr, fun r _ b hb => absurd hb List.not_mem_nil, fun r _ x _ => ?_,
      ⟨[], rfl, .none (List.Perm.refl _)⟩, rfl⟩
    exact ⟨rfl, rfl, rfl, rfl, rfl, rfl, rfl⟩

/-- Without memory for the keeper nothing has changed. -/
theorem allocSetContextCreate_refused {self minContextSize initBlockSize maxBlockSize : Nat} {e : Fault}
    (hcreate : allocSetContextCreate M s self minContextSize initBlockSize maxBlockSize = .error (e, s')) :
    Refused s s' := by
  unfold allocSetContextCreate at hcreate
  dsimp only at hcreate
  split at hcreate
  · rcases ha : s.malloc M (maxAlign minContextSize) with ⟨_ | p, s₁⟩
    · rw [ha] at hcreate
      obtain ⟨-, rfl⟩ := Prod.mk.inj (Except.error.inj hcreate)
      exact malloc_none ha
    · rw [ha] at hcreate
      cases hcreate
  · cases hcreate

end PostgresV7.Aset.Debug
