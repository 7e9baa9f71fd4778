import PostgresV7.Dynahash.Refine
import Mathlib.Data.List.Flatten

/-!
# What a table holds

The regions a table has from its allocator are its directory, its segments, and its
elements in groups of thirty. Nothing it holds is given back but an old directory, and
the buckets of its segments that are not in use yet are empty.
-/

namespace PostgresV7.Dynahash

open Regions Chains Outcomes Runs

variable {Key : Type} {hash : Key → Int} {A : Allocator} {hashp hashp' : HashTable}
  {w w' : World Key} {chains : Nat → List Nat} {free groups : List Nat} {others : List Region}

/-- The region of the elements one call of `bucket_alloc` made, by the first of them. -/
def groupRegion (hctl : HashHeader) (group : Nat) : Region :=
  ⟨group, BUCKET_ALLOC_INCR * hctl.bucketSize⟩

def tableRegions (hashp : HashTable) (w : World Key) (groups : List Nat) : List Region :=
  dirRegion hashp w ::
    ((List.range w.hctl.nsegs).map (segRegion hashp w) ++ groups.map (groupRegion w.hctl))

/-- All that is allocated is the table's or one of the `others`. -/
structure Ledger (hashp : HashTable) (w : World Key) (groups : List Nat) (others : List Region) :
    Prop where
  seg_ne : ∀ i < w.hctl.nsegs, w.dirs hashp.dir i ≠ 0
  unused : ∀ b, w.hctl.maxBucket < b → b >>> w.hctl.sshift < w.hctl.nsegs →
    w.cells (bucketCell hashp w b) = INVALID_INDEX
  regions : w.heap.regions.Perm (tableRegions hashp w groups ++ others)
  nodup : groups.Nodup

/-- The segments are where the entries of the directory say. -/
theorem map_segRegion_congr (hssize : w'.hctl.ssize = w.hctl.ssize) {n : Nat}
    (hdirs : ∀ i < n, w'.dirs hashp'.dir i = w.dirs hashp.dir i) :
    (List.range n).map (segRegion hashp' w') = (List.range n).map (segRegion hashp w) := by
  refine List.map_congr_left fun i hi => ?_
  unfold segRegion
  rw [hdirs i (List.mem_range.mp hi), hssize]

namespace Ledger

/-- A change of chains, keys and masks, or of an entry no segment has, is none of what is
held. -/
theorem move (h : Ledger hashp w groups others)
    {nkeys freeBucketIndex maxBucket lowMask highMask : Nat} (hmax : w.hctl.maxBucket ≤ maxBucket)
    (hctl : w'.hctl = { w.hctl with
      nkeys := nkeys
      freeBucketIndex := freeBucketIndex
      maxBucket := maxBucket
      lowMask := lowMask
      highMask := highMask })
    (hdirs : ∀ i < w.hctl.nsegs, w'.dirs hashp.dir i = w.dirs hashp.dir i)
    (hheap : w'.heap.regions = w.heap.regions)
    (hcells : ∀ b, maxBucket < b → b >>> w.hctl.sshift < w.hctl.nsegs →
      w'.cells (bucketCell hashp w b) = w.cells (bucketCell hashp w b)) :
    Ledger hashp w' groups others := by
  refine ⟨fun i hi => ?_, fun b hb hcov => ?_, ?_, h.nodup⟩
  · rw [hctl] at hi
    rw [hdirs i hi]
    exact h.seg_ne i hi
  · rw [hctl] at hb hcov
    have hcell : bucketCell hashp w' b = bucketCell hashp w b := by
      unfold bucketCell
      rw [hctl]
      dsimp only
      rw [hdirs _ hcov]
    rw [hcell, hcells b hb hcov]
    exact h.unused b (Nat.lt_of_le_of_lt hmax hb) hcov
  · have hnsegs : w'.hctl.nsegs = w.hctl.nsegs := by rw [hctl]
    have hregions : tableRegions hashp w' groups = tableRegions hashp w groups := by
      unfold tableRegions
      rw [hnsegs, map_segRegion_congr (by rw [hctl]) hdirs]
      unfold dirRegion groupRegion HashHeader.bucketSize
      rw [hctl]
    rw [hheap, hregions]
    exact h.regions

/-- A segment more. -/
theorem addSegment (h : Ledger hashp w groups others) {heap : Heap} {seg : Nat}
    (hg : Granted w.heap heap seg (SIZEOF_BUCKET_INDEX * w.hctl.ssize))
    (hw : w' = { w with
      hctl := { w.hctl with nsegs := w.hctl.nsegs + 1 }
      cells := clearSegment seg w.cells
      dirs := Function.update w.dirs hashp.dir (Function.update (w.dirs hashp.dir) w.hctl.nsegs seg)
      heap := heap }) : Ledger hashp w' groups others := by
  have hold : ∀ i < w.hctl.nsegs, w'.dirs hashp.dir i = w.dirs hashp.dir i := by
    intro i hi
    rw [hw]
    dsimp only
    rw [Function.update_self, Function.update_of_ne (Nat.ne_of_lt hi)]
  have hnew : w'.dirs hashp.dir w.hctl.nsegs = seg := by
    rw [hw]
    dsimp only
    rw [Function.update_self, Function.update_self]
  have hctl : w'.hctl = { w.hctl with nsegs := w.hctl.nsegs + 1 } := by rw [hw]
  have hcells : w'.cells = clearSegment seg w.cells := by rw [hw]
  refine ⟨fun i hi => ?_, fun b hb hcov => ?_, ?_, h.nodup⟩
  · rw [hctl] at hi
    rcases Nat.lt_succ_iff_lt_or_eq.mp hi with hlt | rfl
    · rw [hold i hlt]
      exact h.seg_ne i hlt
    · rw [hnew]
      exact Nat.ne_of_gt hg.pos
  · rw [hctl] at hb hcov
    rw [hcells]
    unfold bucketCell clearSegment
    rw [hctl]
    dsimp only
    rcases Nat.lt_succ_iff_lt_or_eq.mp hcov with hlt | heq
    · rw [hold _ hlt]
      split
      · rfl
      · exact h.unused b hb hlt
    · rw [heq, hnew, if_pos rfl]
      rfl
  · have hseg : segRegion hashp w' w.hctl.nsegs = ⟨seg, SIZEOF_BUCKET_INDEX * w.hctl.ssize⟩ := by
      unfold segRegion
      rw [hnew, hctl]
    have hregions : tableRegions hashp w' groups = dirRegion hashp w ::
        (((List.range w.hctl.nsegs).map (segRegion hashp w) ++
          [⟨seg, SIZEOF_BUCKET_INDEX * w.hctl.ssize⟩]) ++ groups.map (groupRegion w.hctl)) := by
      unfold tableRegions
      rw [hctl, List.range_succ, List.map_append, List.map_singleton, hseg,
        map_segRegion_congr (by rw [hctl]) hold]
      unfold dirRegion groupRegion HashHeader.bucketSize
      rw [hctl]
    have hheap : w'.heap.regions = heap.regions := by rw [hw]
    rw [hheap, hg.regions, hregions]
    refine (h.regions.cons _).trans ?_
    unfold tableRegions
    simp only [List.cons_append, List.append_assoc, List.nil_append]
    exact (List.Perm.swap _ _ _).trans (List.perm_middle.symm.cons _)

/-- A group more. -/
theorem addGroup (h : Ledger hashp w groups others) {heap : Heap} {p freeBucketIndex : Nat}
    {cells : Cell → Nat} (hg : Granted w.heap heap p (BUCKET_ALLOC_INCR * w.hctl.bucketSize))
    (hsize : 0 < w.hctl.bucketSize)
    (hcells : ∀ seg ndx, cells (.bucket seg ndx) = w.cells (.bucket seg ndx)) :
    Ledger hashp { w with
      hctl := { w.hctl with freeBucketIndex := freeBucketIndex }, cells := cells, heap := heap }
      (p :: groups) others := by
  refine ⟨h.seg_ne, fun b hb hcov => (hcells _ _).trans (h.unused b hb hcov), ?_,
    List.nodup_cons.mpr ⟨fun hp => ?_, h.nodup⟩⟩
  · show heap.regions.Perm _
    rw [hg.regions]
    refine (h.regions.cons _).trans ?_
    unfold tableRegions
    rw [List.map_cons]
    simp only [List.cons_append, List.append_assoc]
    exact (List.Perm.swap _ _ _).trans (List.perm_middle.symm.cons _)
  · refine hg.ne (Nat.mul_pos (by decide) hsize) (h.regions.mem_iff.mpr ?_) (r := groupRegion w.hctl p) rfl
    unfold tableRegions
    exact List.mem_append_left _ (List.mem_cons_of_mem _ (List.mem_append_right _
      (List.mem_map_of_mem hp)))

/-- Another directory, twice the size, for the old one. -/
theorem relocate (h : Ledger hashp w groups others) {heap : Heap} {p : Nat}
    (hle : w.hctl.nsegs ≤ w.hctl.dsize)
    (hg : Granted w.heap heap p (w.hctl.dsize * 2 * SIZEOF_SEG_OFFSET))
    (hw : w' = { w with
      dirs := Function.update w.dirs p fun i => if i < w.hctl.dsize then w.dirs hashp.dir i else 0
      heap := heap.free (dirRegion hashp w)
      hctl := { w.hctl with dsize := w.hctl.dsize * 2 } }) :
    Ledger { hashp with dir := p } w' groups others := by
  have hdirs : ∀ i < w.hctl.nsegs, w'.dirs p i = w.dirs hashp.dir i := by
    intro i hi
    rw [hw]
    dsimp only
    rw [Function.update_self]
    exact if_pos (Nat.lt_of_lt_of_le hi hle)
  have hctl : w'.hctl = { w.hctl with dsize := w.hctl.dsize * 2 } := by rw [hw]
  have hcells : w'.cells = w.cells := by rw [hw]
  refine ⟨fun i hi => ?_, fun b hb hcov => ?_, ?_, h.nodup⟩
  · rw [hctl] at hi
    dsimp only at hi ⊢
    rw [hdirs i hi]
    exact h.seg_ne i hi
  · rw [hctl] at hb hcov
    dsimp only at hb hcov
    unfold bucketCell
    rw [hcells, hctl]
    dsimp only
    rw [hdirs _ hcov]
    exact h.unused b hb hcov
  · have hregions : tableRegions { hashp with dir := p } w' groups =
        ⟨p, w.hctl.dsize * 2 * SIZEOF_SEG_OFFSET⟩ :: ((List.range w.hctl.nsegs).map (segRegion hashp w) ++
          groups.map (groupRegion w.hctl)) := by
      have hnsegs : w'.hctl.nsegs = w.hctl.nsegs := by rw [hctl]
      unfold tableRegions
      rw [hnsegs, map_segRegion_congr (by rw [hctl]) hdirs]
      unfold dirRegion groupRegion HashHeader.bucketSize
      rw [hctl]
    have hheap : w'.heap.regions = heap.regions.erase (dirRegion hashp w) := by
      rw [hw]
      rfl
    have hall := (h.regions.cons (⟨p, w.hctl.dsize * 2 * SIZEOF_SEG_OFFSET⟩ : Region)).trans
      (List.Perm.swap _ _ _)
    have herase := hall.erase (dirRegion hashp w)
    rw [List.erase_cons_head, ← hg.regions] at herase
    rw [hheap, hregions]
    exact herase

end Ledger

/-! ## A step -/

theorem Table.unused_notMem (h : Table hash hashp w chains free) {b b' : Nat} {l : List Nat}
    (hb : w.hctl.maxBucket < b) (hcov : b >>> w.hctl.sshift < w.hctl.nsegs)
    (hb' : b' ≤ w.hctl.maxBucket) : bucketCell hashp w b ∉ cellsOf hashp w b' l := by
  intro hm
  rcases List.mem_cons.mp hm with heq | hm
  · have hbb := h.segments.bucketCell_inj hcov (h.covered_le hb') heq
    omega
  · obtain ⟨e, -, heq⟩ := List.mem_map.mp hm
    exact Cell.noConfusion heq

theorem Ledger.remove (h : Ledger hashp w groups others) (ht : Table hash hashp w chains free)
    {b e : Nat} {l : List Nat} (hb : b ≤ w.hctl.maxBucket) :
    Ledger hashp (removeElement w (lastCell Cell.next (bucketCell hashp w b) l) e) groups others := by
  refine h.move (Nat.le_refl _) rfl (fun _ _ => rfl) rfl fun b' hb' hcov => ?_
  rw [removeElement_cells, Function.update_of_ne (fun heq => Cell.noConfusion heq),
    Function.update_of_ne]
  intro heq
  have hlast : lastCell Cell.next (bucketCell hashp w b) l ∈ cellsOf hashp w b (l ++ []) :=
    lastCell_mem_cellsOf
  exact ht.unused_notMem hb' hcov hb (heq ▸ hlast)

theorem Ledger.insert (h : Ledger hashp w groups others) (ht : Table hash hashp w chains free)
    {b : Nat} {l : List Nat} (hb : b ≤ w.hctl.maxBucket) (key : Key) :
    Ledger hashp (insertElement w (lastCell Cell.next (bucketCell hashp w b) l) key) groups others := by
  refine h.move (Nat.le_refl _) rfl (fun _ _ => rfl) rfl fun b' hb' hcov => ?_
  rw [insertElement_cells, Function.update_of_ne (fun heq => Cell.noConfusion heq),
    Function.update_of_ne]
  intro heq
  have hlast : lastCell Cell.next (bucketCell hashp w b) l ∈ cellsOf hashp w b (l ++ []) :=
    lastCell_mem_cellsOf
  exact ht.unused_notMem hb' hcov hb (heq ▸ hlast)

theorem bucketAlloc_ledger (h : Ledger hashp w groups others) (hfit : ElementsFit hashp w.hctl) :
    Ends (fun _ => True) (bucketAlloc A hashp w) fun r => ∃ groups', Ledger hashp r.2 groups' others := by
  unfold bucketAlloc
  split
  · trivial
  · dsimp only
    refine ((hashAlloc_spec A hashp w.heap (BUCKET_ALLOC_INCR * w.hctl.bucketSize % 2 ^ 64)).mono
      (fun _ _ => trivial) (fun a ha => ha)).bind ?_
    rintro ⟨_ | ⟨p, room⟩, heap⟩ ha
    · exact ⟨groups, h.move (Nat.le_refl _) rfl (fun _ _ => rfl) ha.2.2 fun _ _ _ => rfl⟩
    · obtain ⟨hg, -, hfull, -, -⟩ := ha
      have hmod : BUCKET_ALLOC_INCR * w.hctl.bucketSize % 2 ^ 64 =
          BUCKET_ALLOC_INCR * w.hctl.bucketSize := by
        have hfits := hfit.2
        unfold Fits at hfits
        split at hfits <;> exact Nat.mod_eq_of_lt (by omega)
      rw [hmod] at hfull
      obtain rfl := hfull hfit.2
      dsimp only
      split
      · trivial
      · refine ⟨p :: groups, h.addGroup hg ?_ fun seg ndx => ?_⟩
        · have hle := le_maxAlign (n := SIZEOF_BUCKET_INDEX + w.hctl.keysize + w.hctl.datasize)
            hfit.1
          unfold SIZEOF_BUCKET_INDEX at hle
          exact Nat.lt_of_lt_of_le (by omega) hle
        · rw [Function.update_of_ne (fun heq => Cell.noConfusion heq),
            linkBuckets_frame fun _ _ heq => Cell.noConfusion heq]

theorem ensureElement_ledger (h : Ledger hashp w groups others)
    (hfit : w.hctl.freeBucketIndex = INVALID_INDEX → ElementsFit hashp w.hctl) :
    Ends (fun _ => True) (ensureElement A hashp w) fun r =>
      ∃ groups', Ledger hashp r.2 groups' others := by
  unfold ensureElement
  split
  · rename_i hnil
    exact bucketAlloc_ledger h (hfit hnil)
  · exact ⟨groups, h⟩

theorem dirRealloc_ledger (h : Ledger hashp w groups others) (hle : w.hctl.nsegs ≤ w.hctl.dsize) :
    Ends (fun _ => True) (dirRealloc A hashp w) fun r => Ledger r.2.1 r.2.2 groups others := by
  unfold dirRealloc
  split
  · exact h
  · dsimp only
    refine ((hashAlloc_spec A hashp w.heap (w.hctl.dsize * 2 * SIZEOF_SEG_OFFSET % 2 ^ 64)).mono
      (fun _ _ => trivial) (fun a ha => ha)).bind ?_
    rintro ⟨_ | ⟨p, room⟩, heap⟩ ha
    · exact h.move (Nat.le_refl _) rfl (fun _ _ => rfl) ha.2.2 fun _ _ _ => rfl
    · obtain ⟨hg, hroom, -⟩ := ha
      have hmod := Nat.mod_le (w.hctl.dsize * 2 * SIZEOF_SEG_OFFSET) (2 ^ 64)
      dsimp only
      split
      · trivial
      · split
        · trivial
        · obtain rfl : room = w.hctl.dsize * 2 * SIZEOF_SEG_OFFSET := by omega
          exact h.relocate hle hg rfl

theorem segAlloc_ledger (h : Ledger hashp w groups others) :
    Ends (fun _ => True) (segAlloc A hashp w) fun r =>
      Ledger hashp (if r.1 = 0 then r.2.setDir hashp w.hctl.nsegs r.1 else
        { r.2.setDir hashp w.hctl.nsegs r.1 with
          hctl := { r.2.hctl with nsegs := r.2.hctl.nsegs + 1 } }) groups others ∧
      r.2.hctl = w.hctl := by
  refine (segAlloc_spec A hashp w).mono (fun _ _ => trivial) ?_
  rintro ⟨seg, w₁⟩ (⟨hnull, heap, hheap, hw₁⟩ | ⟨heap, hg, -, hw₁⟩) <;> dsimp only at * <;> subst hw₁
  · refine ⟨?_, rfl⟩
    rw [if_pos hnull]
    refine h.move (Nat.le_refl _) rfl (fun i hi => ?_) hheap fun _ _ _ => rfl
    unfold World.setDir
    dsimp only
    rw [Function.update_self, Function.update_of_ne (Nat.ne_of_lt hi)]
  · refine ⟨?_, rfl⟩
    rw [if_neg (Nat.ne_of_gt hg.pos)]
    exact h.addSegment hg rfl

theorem newSegment_ledger (h : Ledger hashp w groups others) (ht : Table hash hashp w chains free) :
    Ends (fun _ => True) (newSegment A hashp w) fun r => Ledger r.2.1 r.2.2 groups others := by
  have hle := ht.newSegnum_le
  unfold newSegment
  split
  · rename_i hge
    have hnum : newSegnum w.hctl = w.hctl.nsegs := Nat.le_antisymm hle hge
    have hdir : Ends (fun _ => True) (ensureDirectory A hashp w (newSegnum w.hctl)) fun r =>
        Ledger r.2.1 r.2.2 groups others := by
      unfold ensureDirectory
      split
      · exact dirRealloc_ledger h ht.segments.nsegs_le
      · exact h
    have hspec := (ensureDirectory_spec (A := A) ht hnum).mono (fun _ _ => trivial) fun a ha => ha.2.2.1
    refine (hdir.and hspec).bind ?_
    rintro ⟨room, hashp₁, w₁⟩ ⟨hledger, hnsegs⟩
    dsimp only at hledger hnsegs ⊢
    split
    · exact hledger
    · unfold addSegment
      rw [hnum, ← hnsegs]
      refine (segAlloc_ledger hledger).bind ?_
      rintro ⟨seg, w₂⟩ ⟨hled, -⟩
      dsimp only at hled ⊢
      split
      · rename_i hnull
        rwa [if_pos hnull] at hled
      · rename_i hnull
        rwa [if_neg hnull] at hled
  · exact h

/-- The loop writes to buckets no other than the two. -/
theorem splitChain_frame {hctl : HashHeader} {keys : Nat → Key} {ob k x : Nat} {old newbi : Cell}
    {cells : Cell → Nat} :
    Ends (fun _ => True) (splitChain hash hctl keys ob k old newbi x cells) fun cells' =>
      ∀ seg ndx, .bucket seg ndx ≠ old → .bucket seg ndx ≠ newbi →
        cells' (.bucket seg ndx) = cells (.bucket seg ndx) := by
  induction k generalizing old newbi x cells with
  | zero =>
    unfold splitChain
    split
    · intro seg ndx hold hnew
      rw [Function.update_of_ne hnew, Function.update_of_ne hold]
    · trivial
  | succ k ih =>
    unfold splitChain
    split
    · intro seg ndx hold hnew
      rw [Function.update_of_ne hnew, Function.update_of_ne hold]
    · dsimp only
      split
      · refine ih.mono (fun _ _ => trivial) fun cells' hframe seg ndx hold hnew => ?_
        rw [hframe seg ndx (fun heq => Cell.noConfusion heq) hnew, Function.update_of_ne hold]
      · refine ih.mono (fun _ _ => trivial) fun cells' hframe seg ndx hold hnew => ?_
        rw [hframe seg ndx hold (fun heq => Cell.noConfusion heq), Function.update_of_ne hnew]

theorem expandTable_ledger (h : Ledger hashp w groups others) (ht : Table hash hashp w chains free) :
    Ends (fun _ => True) (expandTable hash A hashp w) fun r => Ledger r.1 r.2 groups others := by
  unfold expandTable
  refine ((newSegment_ledger h ht).and ((newSegment_spec (A := A) ht).mono (fun _ _ => trivial)
    fun a ha => ha)).bind ?_
  rintro ⟨room, hashp₁, w₁⟩ ⟨hledger, htable, hgrown, hroom⟩
  dsimp only at hledger htable hgrown hroom ⊢
  split
  · exact hledger
  · rename_i hr
    obtain ⟨dsize, nsegs, hctl⟩ := hgrown.hctl
    have hcov : newSegnum w₁.hctl < w₁.hctl.nsegs := by
      have hnum : newSegnum w₁.hctl = newSegnum w.hctl := by rw [hctl]; rfl
      rw [hnum]
      exact hroom (Bool.eq_true_of_not_eq_false hr)
    obtain ⟨j, hj⟩ := htable.masked
    have hob := oldBucket_le hj
    obtain ⟨low, high, hgm⟩ := growMasks_eq w₁.hctl
    refine splitChain_frame.bind fun cells hframe => ?_
    refine hledger.move (Nat.le_succ _) hgm (fun _ _ => rfl) rfl fun b hb hcovb => hframe _ _ ?_ ?_
    · intro heq
      rw [hgm] at heq
      have hbb := htable.segments.bucketCell_inj hcovb (htable.covered_le hob) heq
      omega
    · intro heq
      rw [hgm] at heq
      have hbb := htable.segments.bucketCell_inj hcovb hcov heq
      omega

/-- Whatever `hash_search` does, the table holds its regions and no others are gone. -/
theorem hashSearch_ledger [DecidableEq Key] {m : Dict Key} {key : Key} {action : HashAction}
    (h : Ledger hashp w groups others) (hr : Represents hash hashp w m)
    (hsafe : Safe hash hashp w key action) :
    Ends (fun _ => True) (hashSearch hash A hashp w key action) fun r =>
      ∃ groups', Ledger r.2.2.1 r.2.2.2 groups' others := by
  obtain ⟨chains, free, ht, hm, hcard⟩ := id hr
  have hb := ht.hash_le (hash key)
  obtain ⟨⟨prev, currIndex⟩, hfollow, hres⟩ := followChain_spec key (ht.chain _ hb)
    (ht.length_le hm hcard hb)
  unfold hashSearch
  dsimp only
  rw [hfollow, ok_bind]
  dsimp only
  cases hres with
  | miss hmiss =>
    cases action with
    | HASH_FIND => exact ⟨groups, h⟩
    | HASH_REMOVE => exact ⟨groups, h⟩
    | HASH_ENTER =>
      have hnotin := ht.notMem hm hmiss
      obtain ⟨hfit, -⟩ := hsafe rfl fun e hreach =>
        hnotin (Finmap.mem_iff.mpr ⟨e, hr.reached_iff.mp hreach⟩)
      have henter : Ends (fun _ => True) (enterElement hash A hashp w (lastCell Cell.next
          (bucketCell hashp w (callHash w.hctl (hash key))) (chains (callHash w.hctl (hash key)))) key)
          fun r => ∃ groups', Ledger r.2.1 r.2.2 groups' others := by
        unfold enterElement
        refine ((ensureElement_ledger (A := A) h hfit).and ((ensureElement_spec (A := A) ht).mono
          (fun _ _ => trivial) fun a ha => ha)).bind ?_
        rintro ⟨room, w₁⟩ ⟨⟨groups', hled⟩,
          ⟨hroom, -, heap, hheap, hw₁⟩ | ⟨hroom, -, e, fr, heap, cells, hw₁, -, ht₁⟩⟩ <;>
          dsimp only at hroom hw₁ <;> subst hroom hw₁
        · exact ⟨groups', hled⟩
        · dsimp only
          refine Ends.bind (P := fun r : HashTable × World Key =>
            ∃ groups', Ledger r.1 r.2 groups' others) ?_ fun r hr => hr
          have hins := hled.insert ht₁ (l := chains (callHash w.hctl (hash key))) hb key
          have hins_table := ht₁.insert hmiss
          unfold expandIfFull
          split
          · exact (expandTable_ledger hins hins_table).mono (fun _ _ => trivial)
              fun r hr => ⟨groups', hr⟩
          · exact ⟨groups', hins⟩
      exact henter.bind fun r hr => hr
  | @hit l₁ l₂ _ hl hne hkey =>
    have hfound : (currIndex != INVALID_INDEX) = true := bne_iff_ne.mpr hne
    rw [hfound]
    cases action with
    | HASH_FIND => exact ⟨groups, h⟩
    | HASH_REMOVE => exact ⟨groups, h.remove ht hb⟩
    | HASH_ENTER => exact ⟨groups, h⟩

/-! ## A new table and its runs -/

theorem Ledger.start (h0 : w.hctl.nsegs = 0)
    (hdir : w.heap.regions.Perm (dirRegion hashp w :: others)) : Ledger hashp w [] others := by
  refine ⟨fun i hi => ?_, fun b _ hcov => ?_, ?_, List.nodup_nil⟩
  · rw [h0] at hi
    exact absurd hi (Nat.not_lt_zero i)
  · rw [h0] at hcov
    exact absurd hcov (Nat.not_lt_zero _)
  · unfold tableRegions
    rw [h0]
    exact hdir

theorem initSegments_ledger {k : Nat} (h : Ledger hashp w groups others) :
    Ends (fun _ => True) (initSegments A hashp k w) fun r => Ledger hashp r.2 groups others := by
  induction k generalizing w with
  | zero => exact h
  | succ k ih =>
    unfold initSegments
    refine (segAlloc_ledger h).bind ?_
    rintro ⟨seg, w₁⟩ ⟨hled, hctl⟩
    dsimp only at hled hctl ⊢
    rw [← hctl] at hled
    split
    · rename_i hnull
      rwa [if_pos hnull] at hled
    · rename_i hnull
      rw [if_neg hnull] at hled
      exact ih hled

theorem initHtab_ledger (nelem : Int) (h0 : w.hctl.nsegs = 0)
    (hdir : hashp.dir ≠ 0 → dirRegion hashp w ∈ w.heap.regions) :
    Ends (fun _ => True) (initHtab A hashp w nelem) fun r => r.1 = true →
      ∃ others, Ledger r.2.1 r.2.2 [] others ∧ (hashp.dir = 0 → others = w.heap.regions) := by
  unfold initHtab
  split
  · trivial
  dsimp only
  split
  · trivial
  generalize 2 ^ myLog2 (Int.bmod (Int.tdiv (nelem - 1) w.hctl.ffactor + 1) (2 ^ 32)) = nbuckets
  generalize 2 ^ myLog2 (((nbuckets - 1) / w.hctl.ssize + 1 : Nat) : Int) = nsegs
  split
  · exact fun hf => absurd hf Bool.false_ne_true
  rename_i hroom
  unfold initDirectory
  split
  · rename_i hgiven
    have hstart : Ledger hashp { w with hctl := sizeHeader w.hctl nbuckets nsegs } []
        (w.heap.regions.erase (dirRegion hashp w)) := by
      refine .start h0 ?_
      unfold dirRegion sizeHeader
      dsimp only
      rw [if_neg fun hgt => hroom ⟨hgt, hgiven⟩]
      exact List.perm_cons_erase (hdir hgiven)
    refine (initSegments_ledger hstart).bind ?_
    rintro ⟨done, w₁⟩ hled -
    exact ⟨_, hled, fun hz => absurd hz hgiven⟩
  · refine ((hashAlloc_spec A hashp w.heap _).mono (fun _ _ => trivial) fun a ha => ha).bind ?_
    rintro ⟨_ | ⟨dir, room⟩, heap⟩ ha
    · exact fun hf => absurd hf Bool.false_ne_true
    dsimp only
    split
    · trivial
    rename_i hfull
    obtain ⟨hg, hsize, -⟩ := ha
    have hstart : Ledger { hashp with dir := dir }
        { w with hctl := sizeHeader w.hctl nbuckets nsegs, heap := heap } [] w.heap.regions := by
      refine .start h0 ?_
      have hregions := hg.regions
      obtain rfl := Nat.le_antisymm (Nat.le_trans hsize (Nat.mod_le _ _)) (Nat.not_lt.mp hfull)
      exact List.Perm.of_eq hregions
    refine (initSegments_ledger hstart).bind ?_
    rintro ⟨done, w₁⟩ hled -
    exact ⟨_, hled, fun _ => rfl⟩

variable {flags : HashFlags} {info : HashCtrl}

theorem hashCreate_ledger {nelem : Int} (h : Asked flags info w)
    (hcreate : hashCreate A w nelem info flags = .ok (some (hashp, w'))) :
    ∃ others, Ledger hashp w' [] others ∧ (flags.sharedMem = false → others = w.heap.regions) := by
  obtain ⟨-, hnsegs, -⟩ := headerOf_fields flags info
  have hspec : Ends (fun _ => True) (hashCreate A w nelem info flags) fun r =>
      r = some (hashp, w') →
        ∃ others, Ledger hashp w' [] others ∧ (flags.sharedMem = false → others = w.heap.regions) := by
    unfold hashCreate
    dsimp only
    generalize hp : (if flags.sharedMem = true then ({ dir := info.dir, memAlloc := false } : HashTable)
      else { dir := 0, memAlloc := true }) = hashp₀
    generalize hp' : (if flags.alloc = true then
      ({ dir := hashp₀.dir, memAlloc := false } : HashTable) else hashp₀) = hashp₁
    have hdir : hashp₁.dir = if flags.sharedMem = true then info.dir else 0 := by
      rw [← hp', ← hp]
      split <;> split <;> rfl
    have hgiven : hashp₁.dir ≠ 0 →
        dirRegion hashp₁ { w with hctl := headerOf flags info } ∈ w.heap.regions := by
      intro hne
      unfold dirRegion
      rw [hdir] at hne ⊢
      split at hne
      · rename_i hs
        rw [if_pos hs]
        exact h.directory hs hne
      · exact absurd rfl hne
    refine (initHtab_ledger (A := A) nelem hnsegs hgiven).bind ?_
    rintro ⟨done, hashp₂, w₂⟩ hr heq
    cases done with
    | true =>
      obtain ⟨rfl, rfl⟩ := Prod.mk.inj (Option.some.inj heq)
      obtain ⟨others, hled, hsame⟩ := hr rfl
      refine ⟨others, hled, fun hs => hsame ?_⟩
      rw [hdir, hs]
      rfl
    | false => cases heq
  exact hspec.of_ok hcreate rfl

/-- In every state a table reaches, what it holds and the `others` are all that is
allocated; a table that is not shared leaves what was there before. -/
theorem run_ledger [DecidableEq Key] {nelem : Int} {w₀ : World Key} (hasked : Asked flags info w₀)
    (hcreate : hashCreate A w₀ nelem info flags = .ok (some (hashp, w)))
    {l : List (Event Key)} {s : System Key}
    (hrun : Run (Step hash A flags info) ⟨w, [hashp]⟩ l s) :
    ∃ others, (flags.sharedMem = false → others = w₀.heap.regions) ∧ ∃ m hashp' groups,
      Shared hash flags info s m hashp' ∧ Ledger hashp' s.world groups others := by
  obtain ⟨others, hled, hsame⟩ := hashCreate_ledger hasked hcreate
  refine ⟨others, hsame, hrun.invariant (I := fun s => ∃ m hashp' groups,
    Shared hash flags info s m hashp' ∧ Ledger hashp' s.world groups others) ?_
    ⟨∅, hashp, [], .create hasked hcreate, hled⟩⟩
  rintro s ev s' ⟨m, hashp₁, groups, hR, hled⟩ hs
  obtain ⟨m', -, hashp₂, hR'⟩ := hR.step hs
  cases hs with
  | attach hflag hdir =>
    have hsame : hashAttach info = hashp₂ :=
      hR'.same _ (List.mem_append_right _ (List.mem_singleton_self _))
    obtain rfl : hashp₁ = hashp₂ := (hR.shared hflag hdir).trans hsame
    exact ⟨m', hashp₁, groups, hR', hled⟩
  | @search i hashp₀ hashp' w' key action result found hi hsafe hcall =>
    obtain rfl : hashp₀ = hashp₁ := hR.same _ (List.mem_of_getElem? hi)
    obtain ⟨groups', hled'⟩ := (hashSearch_ledger hled hR.represents hsafe).of_ok hcall
    have hin : hashp' ∈ s.handles.set i hashp' :=
      List.mem_set (List.getElem?_eq_some_iff.mp hi).1 hashp'
    obtain rfl := hR'.same _ hin
    exact ⟨m', hashp', groups', hR', hled'⟩

end PostgresV7.Dynahash
