import PostgresV7.Dynahash.Elements

/-!
# `expand_table`

Room for a new bucket may take a segment more, and that a directory twice the
size. Then the old bucket's chain is split in place. Every element on a chain
stays on one, at its address.
-/

namespace PostgresV7.Dynahash

open Regions Chains Outcomes

variable {Key : Type} {hash : Key → Int} {A : Allocator} {hashp hashp' : HashTable}
  {w w' : World Key} {chains : Nat → List Nat} {free : List Nat}

/-! ## The split -/

/-- The loop takes the chain apart into the elements that stay and those that move,
each in the order they had, and writes to no other cell. -/
theorem splitChain_spec (hash : Key → Int) (hctl : HashHeader) (keys : Nat → Key) (ob : Nat)
    {k x : Nat} {old newbi : Cell}
    {cells : Cell → Nat} {l : List Nat} (hl : Linked Cell.next 0 cells x l) (hk : l.length ≤ k)
    (hne : old ≠ newbi) (hold : ∀ e ∈ l, old ≠ .next e) (hnew : ∀ e ∈ l, newbi ≠ .next e) :
    ∃ cells', splitChain hash hctl keys ob k old newbi x cells = .ok cells' ∧
      Chain Cell.next 0 cells' old (l.filter fun e => callHash hctl (hash (keys e)) = ob) ∧
      Chain Cell.next 0 cells' newbi (l.filter fun e => callHash hctl (hash (keys e)) ≠ ob) ∧
      ∀ c, c ≠ old → c ≠ newbi → (∀ e ∈ l, c ≠ .next e) → cells' c = cells c := by
  induction l generalizing k x old newbi cells with
  | nil =>
    refine ⟨_, by unfold splitChain; exact if_pos hl, ?_, ?_, fun c h1 h2 _ => ?_⟩
    · show Function.update (Function.update cells old INVALID_INDEX) newbi INVALID_INDEX old = 0
      rw [Function.update_of_ne hne, Function.update_self]
      rfl
    · exact Function.update_self _ _ _
    · rw [Function.update_of_ne h2, Function.update_of_ne h1]
  | cons e l ih =>
    have hnd := List.nodup_cons.mp hl.nodup
    have hnext : ∀ e' ∈ l, Cell.next e ≠ .next e' := by
      intro e' he' heq
      rw [Cell.next.inj heq] at hnd
      exact hnd.1 he'
    have hold' : ∀ e' ∈ l, old ≠ .next e' := fun e' he' => hold e' (List.mem_cons_of_mem e he')
    have hnew' : ∀ e' ∈ l, newbi ≠ .next e' := fun e' he' => hnew e' (List.mem_cons_of_mem e he')
    obtain ⟨rfl, hx, -⟩ := id hl
    cases k with
    | zero => exact absurd hk (Nat.not_succ_le_zero _)
    | succ k =>
      have hlen := Nat.le_of_succ_le_succ hk
      unfold splitChain
      rw [if_neg (show x ≠ INVALID_INDEX from hx)]
      dsimp only
      by_cases hP : callHash hctl (hash (keys x)) = ob
      · rw [if_pos hP, List.filter_cons_of_pos (by simpa using hP),
          List.filter_cons_of_neg (by simpa using hP)]
        have htail : Linked Cell.next 0 (Function.update cells old x) (cells (.next x)) l :=
          hl.tail.move fun e' he' => Function.update_of_ne (hold' e' he').symm _ _
        obtain ⟨cells', heq, h1, h2, h3⟩ := ih htail hlen (hnew x List.mem_cons_self).symm hnext hnew'
        refine ⟨cells', heq, ⟨?_, hx, h1⟩, h2, fun c hc hc' hcl => ?_⟩
        · rw [h3 old (hold x List.mem_cons_self) hne hold', Function.update_self]
        · rw [h3 c (hcl x List.mem_cons_self) hc' fun e' he' => hcl e' (List.mem_cons_of_mem x he'),
            Function.update_of_ne hc]
      · rw [if_neg hP, List.filter_cons_of_neg (by simpa using hP),
          List.filter_cons_of_pos (by simpa using hP)]
        have htail : Linked Cell.next 0 (Function.update cells newbi x) (cells (.next x)) l :=
          hl.tail.move fun e' he' => Function.update_of_ne (hnew' e' he').symm _ _
        obtain ⟨cells', heq, h1, h2, h3⟩ := ih htail hlen (hold x List.mem_cons_self) hold' hnext
        refine ⟨cells', heq, h1, ⟨?_, hx, h2⟩, fun c hc hc' hcl => ?_⟩
        · rw [h3 newbi hne.symm (hnew x List.mem_cons_self) hnew', Function.update_self]
        · rw [h3 c hc (hcl x List.mem_cons_self) fun e' he' => hcl e' (List.mem_cons_of_mem x he'),
            Function.update_of_ne hc']

/-! ## Room for a bucket -/

/-- A directory that has to grow can: it is not fixed, its memory is known to
`memory_context_free`, and twice its size fits a request. -/
def DirectoryFits (hashp : HashTable) (hctl : HashHeader) : Prop :=
  hctl.dsize ≤ newSegnum hctl → hctl.maxDsize = NO_MAX_DSIZE →
    hashp.memAlloc = true ∧ Fits hashp (hctl.dsize * 2 * SIZEOF_SEG_OFFSET)

instance (hashp : HashTable) (hctl : HashHeader) : Decidable (DirectoryFits hashp hctl) :=
  inferInstanceAs (Decidable (_ → _ → _ ∧ _))

/-- A handle changes its directory only if it owns it. -/
def SameHandle (hashp hashp' : HashTable) : Prop :=
  hashp'.memAlloc = hashp.memAlloc ∧ (hashp.memAlloc = false → hashp' = hashp)

theorem SameHandle.refl (hashp : HashTable) : SameHandle hashp hashp := ⟨rfl, fun _ => rfl⟩

theorem SameHandle.trans {hashp'' : HashTable} (h : SameHandle hashp hashp')
    (h' : SameHandle hashp' hashp'') : SameHandle hashp hashp'' :=
  ⟨h'.1.trans h.1, fun hm => (h'.2 (h.1.trans hm)).trans (h.2 hm)⟩

/-- Nothing but the sizes in the header changed that `hash_search` goes by. -/
structure Grown (hashp : HashTable) (w : World Key) (hashp' : HashTable) (w' : World Key) : Prop where
  handle : SameHandle hashp hashp'
  hctl : ∃ dsize nsegs, w'.hctl = { w.hctl with dsize := dsize, nsegs := nsegs }
  keys : w'.keys = w.keys

theorem Grown.refl (hashp : HashTable) (w : World Key) : Grown hashp w hashp w :=
  ⟨.refl hashp, ⟨w.hctl.dsize, w.hctl.nsegs, rfl⟩, rfl⟩

theorem Grown.trans {hashp'' : HashTable} {w'' : World Key} (h : Grown hashp w hashp' w')
    (h' : Grown hashp' w' hashp'' w'') : Grown hashp w hashp'' w'' := by
  obtain ⟨d, n, hd⟩ := h.hctl
  obtain ⟨d', n', hd'⟩ := h'.hctl
  refine ⟨h.handle.trans h'.handle, ⟨d', n', ?_⟩, h'.keys.trans h.keys⟩
  rw [hd', hd]

theorem Table.dsize_pos (h : Table hash hashp w chains free) : 0 < w.hctl.dsize := by
  exact Nat.lt_of_lt_of_le (Nat.zero_lt_of_lt h.covered) h.segments.nsegs_le

/-- The segments after the directory moved. -/
theorem Segments.relocate (h : Segments hashp w) {heap : Heap} {p room : Nat}
    (hroom : room = w.hctl.dsize * 2 * SIZEOF_SEG_OFFSET) (hpos : 0 < w.hctl.dsize)
    (hg : Granted w.heap heap p room) (hw : w' = { w with
      dirs := Function.update w.dirs p fun i => if i < w.hctl.dsize then w.dirs hashp.dir i else 0
      heap := heap.free (dirRegion hashp w)
      hctl := { w.hctl with dsize := w.hctl.dsize * 2 } }) :
    Segments { hashp with dir := p } w' ∧
      (∀ i < w.hctl.nsegs, w'.dirs p i = w.dirs hashp.dir i) ∧
      ∀ r, InUse hashp w r → InUse { hashp with dir := p } w' r := by
  subst hw
  have hroom' : 0 < room := by
    rw [hroom]
    exact Nat.mul_pos (Nat.mul_pos hpos (by decide)) (by decide)
  have hdirs : ∀ i < w.hctl.nsegs, Function.update w.dirs p
      (fun i => if i < w.hctl.dsize then w.dirs hashp.dir i else 0) p i = w.dirs hashp.dir i := by
    intro i hi
    rw [Function.update_self]
    exact if_pos (Nat.lt_of_lt_of_le hi h.nsegs_le)
  have huse : ∀ r, InUse hashp w r → r ∈ (heap.free (dirRegion hashp w)).regions ∧ r ≠ ⟨p, room⟩ := by
    rintro r ⟨hr, hne⟩
    refine ⟨Heap.mem_free ?_ hne, hg.ne hroom' hr⟩
    rw [hg.regions]
    exact List.mem_cons_of_mem _ hr
  subst hroom
  refine ⟨⟨h.ssize, ?_, ?_, ?_, ?_⟩, hdirs, huse⟩
  · exact Nat.le_trans h.nsegs_le (Nat.le_mul_of_pos_right _ (by decide))
  · refine Heap.mem_free ?_ (hg.ne hroom' h.dir_mem).symm
    rw [hg.regions]
    exact List.mem_cons_self
  · intro i hi
    have hseg := h.seg_mem i hi
    unfold InUse segRegion at *
    dsimp only at hi ⊢
    rw [hdirs i hi]
    exact huse _ hseg
  · intro i hi j hj heq
    dsimp only at hi hj heq
    rw [hdirs i hi, hdirs j hj] at heq
    exact h.seg_inj i hi j hj heq

theorem dirRealloc_spec (h : Table hash hashp w chains free) :
    Ends (Allowed hashp (w.hctl.maxDsize = NO_MAX_DSIZE →
        hashp.memAlloc = true ∧ Fits hashp (w.hctl.dsize * 2 * SIZEOF_SEG_OFFSET)))
      (dirRealloc A hashp w) fun r => Table hash r.2.1 r.2.2 chains free ∧
        Grown hashp w r.2.1 r.2.2 ∧ r.2.2.hctl.nsegs = w.hctl.nsegs ∧
        (r.1 = true → w.hctl.nsegs < r.2.2.hctl.dsize) := by
  unfold dirRealloc
  split
  · exact ⟨h, .refl hashp w, rfl, fun hf => absurd hf Bool.false_ne_true⟩
  · rename_i hmax
    have hmax := Decidable.not_not.mp hmax
    dsimp only
    refine ((hashAlloc_spec A hashp w.heap (w.hctl.dsize * 2 * SIZEOF_SEG_OFFSET % 2 ^ 64)).mono
      (fun e he => Or.inl (he.resolve_right fun h => h trivial)) (fun a ha => ha)).bind ?_
    rintro ⟨_ | ⟨p, room⟩, heap⟩ ha
    · refine ⟨?_, ⟨.refl hashp, ⟨_, _, rfl⟩, rfl⟩, rfl, fun hf => absurd hf Bool.false_ne_true⟩
      have hheap : ∀ r ∈ w.heap.regions, r ∈ heap.regions := fun r hr => ha.2.2 ▸ hr
      exact h.move (h.segments.move ⟨rfl, rfl, rfl, rfl⟩ (fun _ _ => rfl) hheap) h.fits
        ⟨rfl, rfl, rfl⟩ rfl h.covered rfl (fun _ _ => rfl) (fun _ _ => rfl)
        fun r hr => ⟨hheap r hr.1, hr.2⟩
    · obtain ⟨hg, hle, hfull, -, hfits⟩ := ha
      have hmod := Nat.mod_le (w.hctl.dsize * 2 * SIZEOF_SEG_OFFSET) (2 ^ 64)
      dsimp only
      split
      · rename_i hshort
        refine Or.inr fun hf => ?_
        have hfit := (hf hmax).2
        have heq : w.hctl.dsize * 2 * SIZEOF_SEG_OFFSET % 2 ^ 64 =
            w.hctl.dsize * 2 * SIZEOF_SEG_OFFSET := by
          unfold Fits at hfit
          split at hfit <;> exact Nat.mod_eq_of_lt (by omega)
        rw [heq] at hfull
        exact absurd (hfull hfit) (by omega)
      · rename_i hge
        split
        · rename_i hm
          refine Or.inr fun hf => ?_
          rw [(hf hmax).1] at hm
          cases hm
        · rename_i hm
          have hroom : room = w.hctl.dsize * 2 * SIZEOF_SEG_OFFSET := by omega
          obtain ⟨hseg, hdirs, huse⟩ := h.segments.relocate hroom h.dsize_pos hg rfl
          refine ⟨?_, ⟨⟨rfl, fun hf => absurd hf hm⟩, ⟨_, _, rfl⟩, rfl⟩, rfl, fun _ => ?_⟩
          · refine h.move hseg h.fits ⟨rfl, rfl, rfl⟩ rfl h.covered rfl (fun b hb => ?_)
              (fun _ _ => rfl) huse
            exact congrArg (fun seg => w.cells (.bucket seg _)) (hdirs _ (h.covered_le hb))
          · have hpos := h.dsize_pos
            have hns := h.segments.nsegs_le
            show w.hctl.nsegs < w.hctl.dsize * 2
            omega

/-- The new bucket's segment is there or is the next one. -/
theorem Table.newSegnum_le (h : Table hash hashp w chains free) :
    newSegnum w.hctl ≤ w.hctl.nsegs := by
  have hcov := h.covered
  unfold newSegnum
  rw [Nat.shiftRight_eq_div_pow] at hcov ⊢
  calc (w.hctl.maxBucket + 1) / 2 ^ w.hctl.sshift
      ≤ (w.hctl.maxBucket + 2 ^ w.hctl.sshift) / 2 ^ w.hctl.sshift :=
        Nat.div_le_div_right (Nat.add_le_add_left (Nat.two_pow_pos _) _)
    _ = w.hctl.maxBucket / 2 ^ w.hctl.sshift + 1 := Nat.add_div_right _ (Nat.two_pow_pos _)
    _ ≤ w.hctl.nsegs := hcov

/-- In the middle: a directory with room for one segment more. -/
theorem ensureDirectory_spec (h : Table hash hashp w chains free)
    (hnum : newSegnum w.hctl = w.hctl.nsegs) :
    Ends (Allowed hashp (DirectoryFits hashp w.hctl)) (ensureDirectory A hashp w (newSegnum w.hctl))
      fun r => Table hash r.2.1 r.2.2 chains free ∧ Grown hashp w r.2.1 r.2.2 ∧
        r.2.2.hctl.nsegs = w.hctl.nsegs ∧ (r.1 = true → w.hctl.nsegs < r.2.2.hctl.dsize) := by
  unfold ensureDirectory
  split
  · rename_i hdir
    refine (dirRealloc_spec h).mono (fun e he => ?_) fun a ha => ha
    exact he.imp_right fun hf hfits => hf (hfits hdir)
  · rename_i hdir
    rw [hnum] at hdir
    exact ⟨h, .refl hashp w, rfl, fun _ => Nat.not_le.mp hdir⟩

/-- A segment for the new bucket, when there is none. -/
theorem addSegment_spec (h : Table hash hashp w chains free) (hlt : w.hctl.nsegs < w.hctl.dsize) :
    Ends (Allowed hashp True) (addSegment A hashp w w.hctl.nsegs)
      fun r => Table hash r.2.1 r.2.2 chains free ∧ Grown hashp w r.2.1 r.2.2 ∧
        (r.1 = true → w.hctl.nsegs < r.2.2.hctl.nsegs) := by
  unfold addSegment
  refine ((segAlloc_spec A hashp w).mono (fun e he => ?_) (fun a ha => ha)).bind ?_
  · exact Or.inl (he.resolve_right fun hf => hf h.fits)
  rintro ⟨seg, w₁⟩ hseg
  rcases hseg with ⟨hnull, heap, hheap, hw₁⟩ | ⟨heap, hg, -, hw₁⟩ <;> dsimp only at hw₁ <;> subst hw₁
  · obtain rfl : seg = 0 := hnull
    refine ⟨?_, ⟨.refl hashp, ⟨_, _, rfl⟩, rfl⟩, fun hf => absurd hf Bool.false_ne_true⟩
    have hmem : ∀ r ∈ w.heap.regions, r ∈ heap.regions := fun r hr => hheap ▸ hr
    have hdirs : ∀ i < w.hctl.nsegs, Function.update w.dirs hashp.dir
        (Function.update (w.dirs hashp.dir) w.hctl.nsegs 0) hashp.dir i = w.dirs hashp.dir i := by
      intro i hi
      rw [Function.update_self, Function.update_of_ne (Nat.ne_of_lt hi)]
    refine h.move (h.segments.move ⟨rfl, rfl, rfl, rfl⟩ hdirs hmem) h.fits ⟨rfl, rfl, rfl⟩ rfl
      h.covered rfl (fun b hb => ?_) (fun _ _ => rfl) fun r hr => ⟨hmem r hr.1, hr.2⟩
    exact congrArg (fun seg => w.cells (.bucket seg _)) (hdirs _ (h.covered_le hb))
  · have hpos : seg ≠ 0 := Nat.ne_of_gt hg.pos
    dsimp only
    rw [if_neg hpos]
    refine ⟨?_, ⟨.refl hashp, ⟨_, _, rfl⟩, rfl⟩, fun _ => Nat.lt_succ_self _⟩
    have hdirs : Function.update w.dirs hashp.dir
        (Function.update (w.dirs hashp.dir) w.hctl.nsegs seg) hashp.dir =
        Function.update (w.dirs hashp.dir) w.hctl.nsegs seg := Function.update_self _ _ _
    have hmem : ∀ r ∈ w.heap.regions, r ∈ heap.regions := by
      intro r hr
      rw [hg.regions]
      exact List.mem_cons_of_mem _ hr
    refine h.move (h.segments.add _ hlt hg rfl hdirs rfl) h.fits ⟨rfl, rfl, rfl⟩ rfl
      (Nat.lt_succ_of_lt h.covered) rfl (fun b hb => ?_) (fun _ _ => rfl)
      fun r hr => ⟨hmem r hr.1, hr.2⟩
    have hb' := h.covered_le hb
    have hne : w.dirs hashp.dir (b >>> w.hctl.sshift) ≠ seg := by
      intro heq
      refine hg.ne h.segments.ssize_pos (h.segments.seg_mem _ hb').1 ?_
      unfold segRegion
      rw [heq]
    have hdir : Function.update w.dirs hashp.dir
        (Function.update (w.dirs hashp.dir) w.hctl.nsegs seg) hashp.dir (b >>> w.hctl.sshift) =
        w.dirs hashp.dir (b >>> w.hctl.sshift) := by
      rw [hdirs, Function.update_of_ne (Nat.ne_of_lt hb')]
    exact (congrArg (fun s => clearSegment seg w.cells (.bucket s _)) hdir).trans (if_neg hne)

theorem newSegment_spec (h : Table hash hashp w chains free) :
    Ends (Allowed hashp (DirectoryFits hashp w.hctl)) (newSegment A hashp w) fun r =>
      Table hash r.2.1 r.2.2 chains free ∧ Grown hashp w r.2.1 r.2.2 ∧
        (r.1 = true → newSegnum w.hctl < r.2.2.hctl.nsegs) := by
  have hle := h.newSegnum_le
  unfold newSegment
  split
  · rename_i hge
    have hnum : newSegnum w.hctl = w.hctl.nsegs := Nat.le_antisymm hle hge
    refine (ensureDirectory_spec h hnum).bind ?_
    rintro ⟨room, hashp₁, w₁⟩ ⟨htable, hgrown, hnsegs, hroom⟩
    dsimp only at htable hgrown hnsegs hroom ⊢
    split
    · exact ⟨htable, hgrown, fun hf => absurd hf Bool.false_ne_true⟩
    · rename_i hr
      have hadd := addSegment_spec (A := A) htable
        (hnsegs ▸ hroom (Bool.eq_true_of_not_eq_false hr))
      rw [hnsegs, ← hnum] at hadd
      refine hadd.mono (fun e he => ?_) fun r hr => ⟨hr.1, hgrown.trans hr.2.1, hr.2.2⟩
      exact Or.inl ((he.resolve_right fun hf => hf trivial).imp_right fun hm => hgrown.handle.1 ▸ hm)
  · rename_i hlt
    exact ⟨h, .refl hashp w, fun _ => Nat.not_le.mp hlt⟩

/-! ## The whole step -/

/-- On the chain of some bucket. -/
def OnChain (w : World Key) (chains : Nat → List Nat) (e : Nat) : Prop :=
  ∃ b ≤ w.hctl.maxBucket, e ∈ chains b

/-- The chains after the split. -/
def splitChains (hash : Key → Int) (w : World Key) (chains : Nat → List Nat) (b : Nat) : List Nat :=
  let ob := oldBucket w.hctl
  if b = w.hctl.maxBucket + 1 then
    (chains ob).filter fun e => callHash (growMasks w.hctl) (hash (w.keys e)) ≠ ob
  else if b = ob then
    (chains ob).filter fun e => callHash (growMasks w.hctl) (hash (w.keys e)) = ob
  else chains b

theorem growMasks_eq (hctl : HashHeader) : ∃ low high,
    growMasks hctl = { hctl with maxBucket := hctl.maxBucket + 1, lowMask := low, highMask := high } := by
  unfold growMasks
  dsimp only
  split
  · exact ⟨_, _, rfl⟩
  · exact ⟨hctl.lowMask, hctl.highMask, rfl⟩

/-- Where an element is after the split. -/
theorem Table.mem_splitChains (h : Table hash hashp w chains free) {b e : Nat}
    (hb : b ≤ w.hctl.maxBucket + 1) (he : e ∈ splitChains hash w chains b) :
    callHash (growMasks w.hctl) (hash (w.keys e)) = b ∧
      ∃ b' ≤ w.hctl.maxBucket, e ∈ chains b' ∧ (b = w.hctl.maxBucket + 1 → b' = oldBucket w.hctl) ∧
        (b ≠ w.hctl.maxBucket + 1 → b' = b) := by
  obtain ⟨j, hj⟩ := h.masked
  have hob := oldBucket_le hj
  have hgrow := callHash_grow hj (hash (w.keys e))
  unfold splitChains at he
  dsimp only at he
  split at he
  · rename_i hnew
    obtain ⟨hm, hP⟩ := List.mem_filter.mp he
    have hhome := h.home _ hob e hm
    have hP := of_decide_eq_true hP
    refine ⟨?_, _, hob, hm, fun _ => rfl, fun hne => absurd hnew hne⟩
    rcases hgrow with heq | ⟨-, heq⟩
    · exact absurd (heq.trans hhome) hP
    · exact heq.trans hnew.symm
  · rename_i hnew
    split at he
    · rename_i hbo
      obtain ⟨hm, hP⟩ := List.mem_filter.mp he
      exact ⟨(of_decide_eq_true hP).trans hbo.symm, _, hob, hm, fun hbn => absurd hbn hnew,
        fun _ => hbo.symm⟩
    · rename_i hbo
      have hb' : b ≤ w.hctl.maxBucket := by omega
      have hhome := h.home b hb' e he
      refine ⟨?_, b, hb', he, fun hbn => absurd hbn hnew, fun _ => rfl⟩
      rcases hgrow with heq | ⟨heq, -⟩
      · exact heq.trans hhome
      · exact absurd (hhome.symm.trans heq) hbo

/-- The split is complete. -/
theorem Table.onChain_split (h : Table hash hashp w chains free) {e : Nat} (he : OnChain w chains e) :
    ∃ b ≤ w.hctl.maxBucket + 1, e ∈ splitChains hash w chains b := by
  obtain ⟨b, hb, hm⟩ := he
  obtain ⟨j, hj⟩ := h.masked
  have hob := oldBucket_le hj
  by_cases hbo : b = oldBucket w.hctl
  · subst hbo
    by_cases hP : callHash (growMasks w.hctl) (hash (w.keys e)) = oldBucket w.hctl
    · refine ⟨oldBucket w.hctl, Nat.le_succ_of_le hob, ?_⟩
      unfold splitChains
      dsimp only
      rw [if_neg (by omega), if_pos rfl]
      exact List.mem_filter.mpr ⟨hm, decide_eq_true hP⟩
    · refine ⟨w.hctl.maxBucket + 1, Nat.le_refl _, ?_⟩
      unfold splitChains
      dsimp only
      rw [if_pos rfl]
      exact List.mem_filter.mpr ⟨hm, decide_eq_true hP⟩
  · refine ⟨b, Nat.le_succ_of_le hb, ?_⟩
    unfold splitChains
    dsimp only
    rw [if_neg (by omega), if_neg hbo]
    exact hm

/-- Splitting the old bucket, once there is a place for the new one. -/
theorem Table.split (h : Table hash hashp w chains free)
    (hlen : (chains (oldBucket w.hctl)).length ≤ w.hctl.nkeys)
    (hcov : newSegnum w.hctl < w.hctl.nsegs) :
    ∃ cells, splitChain hash (growMasks w.hctl) w.keys (oldBucket w.hctl) w.hctl.nkeys
        (bucketCell hashp { w with hctl := growMasks w.hctl } (oldBucket w.hctl))
        (bucketCell hashp { w with hctl := growMasks w.hctl } (w.hctl.maxBucket + 1))
        (w.cells (bucketCell hashp { w with hctl := growMasks w.hctl } (oldBucket w.hctl))) w.cells =
        .ok cells ∧
      Table hash hashp { w with hctl := growMasks w.hctl, cells := cells } (splitChains hash w chains)
        free := by
  obtain ⟨j, hj⟩ := h.masked
  have hob := oldBucket_le hj
  obtain ⟨low, high, hgm⟩ := growMasks_eq w.hctl
  have hcell : ∀ b, bucketCell hashp { w with hctl := growMasks w.hctl } b = bucketCell hashp w b := by
    intro b
    rw [hgm]
    rfl
  have hcov' : ∀ b, b ≤ w.hctl.maxBucket + 1 → b >>> w.hctl.sshift < w.hctl.nsegs := by
    intro b hb
    refine Nat.lt_of_le_of_lt ?_ hcov
    unfold newSegnum
    rw [Nat.shiftRight_eq_div_pow, Nat.shiftRight_eq_div_pow]
    exact Nat.div_le_div_right hb
  have hinj : ∀ b b', b ≤ w.hctl.maxBucket + 1 → b' ≤ w.hctl.maxBucket + 1 →
      bucketCell hashp w b = bucketCell hashp w b' → b = b' :=
    fun b b' hb hb' => h.segments.bucketCell_inj (hcov' b hb) (hcov' b' hb')
  have hne : bucketCell hashp w (oldBucket w.hctl) ≠ bucketCell hashp w (w.hctl.maxBucket + 1) := by
    intro heq
    have hbb := hinj _ _ (Nat.le_succ_of_le hob) (Nat.le_refl _) heq
    omega
  rw [hcell, hcell]
  obtain ⟨cells, hsplit, hstay, hmoved, hframe⟩ := splitChain_spec hash
    (growMasks w.hctl) w.keys (oldBucket w.hctl) (chain_iff_linked.mp (h.chain _ hob)) hlen hne
    (fun e _ => Cell.noConfusion) (fun e _ => Cell.noConfusion)
  refine ⟨cells, hsplit, ?_⟩
  have hsub : ∀ b, b ≤ w.hctl.maxBucket + 1 → ∀ e ∈ splitChains hash w chains b,
      ∃ b' ≤ w.hctl.maxBucket, e ∈ chains b' := by
    intro b hb e he
    obtain ⟨-, b', hb', hm, -⟩ := h.mem_splitChains hb he
    exact ⟨b', hb', hm⟩
  refine ⟨?_, ?_, ?_, ?_, ?_, ?_, ?_, ?_, ?_, ?_⟩
  · exact h.segments.move (by rw [hgm]; exact ⟨rfl, rfl, rfl, rfl⟩) (fun _ _ => rfl) (fun _ hr => hr)
  · rw [hgm]
    exact h.fits
  · obtain ⟨k, hk, -⟩ := growMasks_masked hj
    exact ⟨k, hk⟩
  · rw [hgm]
    exact hcov
  · intro b hb
    dsimp only at hb ⊢
    rw [growMasks_maxBucket] at hb
    have hb' : bucketCell hashp { w with hctl := growMasks w.hctl, cells := cells } b =
        bucketCell hashp w b := hcell b
    rw [hb']
    unfold splitChains
    dsimp only
    split
    · rename_i hnew
      rw [hnew]
      exact hmoved
    · rename_i hnew
      split
      · rename_i hbo
        rw [hbo]
        exact hstay
      · rename_i hbo
        have hbm : b ≤ w.hctl.maxBucket := by omega
        refine (h.chain b hbm).move (hframe _ ?_ ?_ fun e _ => Cell.noConfusion) fun e he =>
          hframe _ Cell.noConfusion Cell.noConfusion fun e' he' heq => ?_
        · exact fun heq => hbo (hinj _ _ hb (Nat.le_succ_of_le hob) heq)
        · exact fun heq => hnew (hinj _ _ hb (Nat.le_refl _) heq)
        · rw [Cell.next.inj heq] at he
          exact hbo (h.chain_inj hbm hob he he')
  · rw [hgm]
    refine h.linked.move fun e he => hframe _ Cell.noConfusion Cell.noConfusion fun e' he' heq => ?_
    rw [Cell.next.inj heq] at he
    exact h.apart e' he _ hob he'
  · intro b hb e he
    rw [growMasks_maxBucket] at hb
    exact (h.mem_splitChains hb he).1
  · intro b hb e he e' he' heq
    rw [growMasks_maxBucket] at hb
    obtain ⟨-, b₁, hb₁, hm₁, hnew₁, hold₁⟩ := h.mem_splitChains hb he
    obtain ⟨-, b₂, -, hm₂, hnew₂, hold₂⟩ := h.mem_splitChains hb he'
    have hbb : b₂ = b₁ := by
      by_cases hbn : b = w.hctl.maxBucket + 1
      · rw [hnew₁ hbn, hnew₂ hbn]
      · rw [hold₁ hbn, hold₂ hbn]
    rw [hbb] at hm₂
    exact h.keys_inj b₁ hb₁ e hm₁ e' hm₂ heq
  · intro e he b hb hm
    rw [growMasks_maxBucket] at hb
    obtain ⟨b', hb', hm'⟩ := hsub b hb e hm
    exact h.apart e he b' hb' hm'
  · intro e he
    have hdir : ∀ r, InUse hashp w r → InUse hashp { w with hctl := growMasks w.hctl, cells := cells } r := by
      intro r hr
      unfold InUse dirRegion at *
      rw [hgm]
      exact hr
    have hold : Element w chains free e := by
      rcases he with he | ⟨b, hb, he⟩
      · exact Or.inl he
      · rw [growMasks_maxBucket] at hb
        exact Or.inr (hsub b hb e he)
    obtain ⟨r, hr, hin⟩ := h.held e hold
    exact ⟨r, hdir r hr, hin⟩

/-- The sizes of the directory do not matter to the split. -/
theorem splitChains_congr (hkeys : w'.keys = w.keys) {dsize nsegs : Nat}
    (hctl : w'.hctl = { w.hctl with dsize := dsize, nsegs := nsegs }) :
    splitChains hash w' chains = splitChains hash w chains := by
  have hcall : ∀ v, callHash (growMasks w'.hctl) v = callHash (growMasks w.hctl) v := by
    intro v
    rw [hctl]
    unfold growMasks
    dsimp only
    split <;> rfl
  funext b
  unfold splitChains oldBucket
  simp only [hcall, hkeys]
  rw [hctl]

/-- `expand_table` leaves all chains alone, or splits one. -/
theorem expandTable_chains (h : Table hash hashp w chains free)
    (hlen : ∀ b ≤ w.hctl.maxBucket, (chains b).length ≤ w.hctl.nkeys) :
    Ends (Allowed hashp (DirectoryFits hashp w.hctl)) (expandTable hash A hashp w) fun r =>
      SameHandle hashp r.1 ∧ r.2.keys = w.keys ∧ ∃ dsize nsegs,
        (r.2.hctl = { w.hctl with dsize := dsize, nsegs := nsegs } ∧ Table hash r.1 r.2 chains free) ∨
        (r.2.hctl = growMasks { w.hctl with dsize := dsize, nsegs := nsegs } ∧
          Table hash r.1 r.2 (splitChains hash w chains) free) := by
  unfold expandTable
  refine (newSegment_spec h).bind ?_
  rintro ⟨room, hashp₁, w₁⟩ ⟨htable, hgrown, hroom⟩
  obtain ⟨dsize, nsegs, hctl⟩ := hgrown.hctl
  have hkeys := hgrown.keys
  dsimp only at htable hroom hctl hkeys ⊢
  split
  · exact ⟨hgrown.handle, hkeys, dsize, nsegs, .inl ⟨hctl, htable⟩⟩
  · rename_i hr
    have hcov : newSegnum w₁.hctl < w₁.hctl.nsegs := by
      have hnum : newSegnum w₁.hctl = newSegnum w.hctl := by rw [hctl]; rfl
      rw [hnum]
      exact hroom (Bool.eq_true_of_not_eq_false hr)
    obtain ⟨j, hj⟩ := htable.masked
    have hlen₁ : (chains (oldBucket w₁.hctl)).length ≤ w₁.hctl.nkeys := by
      have hle := hlen (oldBucket w₁.hctl) (by
        have hob := oldBucket_le hj
        rw [hctl] at hob ⊢
        exact hob)
      rw [hctl] at hle ⊢
      exact hle
    obtain ⟨cells, hsplit, htable'⟩ := htable.split hlen₁ hcov
    have hnkeys : (growMasks w₁.hctl).nkeys = w₁.hctl.nkeys := by
      obtain ⟨low, high, hgm⟩ := growMasks_eq w₁.hctl
      rw [hgm]
    rw [hnkeys]
    unfold oldBucket at hsplit
    rw [hsplit]
    rw [splitChains_congr hkeys hctl] at htable'
    refine ⟨hgrown.handle, hkeys, dsize, nsegs, .inr ⟨?_, htable'⟩⟩
    show growMasks w₁.hctl = _
    rw [hctl]

/-- `expand_table` keeps the table and every element on its chains. -/
theorem expandTable_spec (h : Table hash hashp w chains free)
    (hlen : ∀ b ≤ w.hctl.maxBucket, (chains b).length ≤ w.hctl.nkeys) :
    Ends (Allowed hashp (DirectoryFits hashp w.hctl)) (expandTable hash A hashp w) fun r =>
      SameHandle hashp r.1 ∧ r.2.keys = w.keys ∧ r.2.hctl.nkeys = w.hctl.nkeys ∧
      ∃ chains', Table hash r.1 r.2 chains' free ∧ ∀ e, OnChain r.2 chains' e ↔ OnChain w chains e := by
  refine (expandTable_chains h hlen).mono (fun _ he => he) ?_
  rintro ⟨hashp₁, w₁⟩ ⟨hsame, hkeys, dsize, nsegs, ⟨hctl, htable⟩ | ⟨hctl, htable⟩⟩ <;> dsimp only at hctl htable
  · refine ⟨hsame, hkeys, by rw [hctl], chains, htable, fun e => ?_⟩
    unfold OnChain
    rw [hctl]
  · obtain ⟨low, high, hgm⟩ := growMasks_eq { w.hctl with dsize := dsize, nsegs := nsegs }
    refine ⟨hsame, hkeys, by rw [hctl, hgm], splitChains hash w chains, htable, fun e => ?_⟩
    have hmax : w₁.hctl.maxBucket = w.hctl.maxBucket + 1 := by rw [hctl, growMasks_maxBucket]
    unfold OnChain
    rw [hmax]
    constructor
    · rintro ⟨b, hb, he⟩
      obtain ⟨-, b', hb', hm, -⟩ := h.mem_splitChains hb he
      exact ⟨b', hb', hm⟩
    · exact fun he => h.onChain_split he

end PostgresV7.Dynahash
