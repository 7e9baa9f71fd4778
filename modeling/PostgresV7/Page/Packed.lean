import PostgresV7.Page.Repair
import Mathlib.Algebra.BigOperators.Group.List.Basic

/-!
# A repaired page is packed

The items end up behind one another, from the special space down, in the order
`qsort` left the sort array in.
-/

namespace PostgresV7.Bufpage

open ByteMem

/-- The items of the line pointers `l` lie behind one another, from `top` down to
`pd_upper`. -/
def Packed (p : Page) : Nat → List Nat → Prop
  | top, [] => pdUpper p = top
  | top, i :: l => (getLinp p i).extentEnd = top ∧ Packed p (getLinp p i).lpOff l

/-- The `MAXALIGN`ed lengths of items. -/
def alignedLengths (p : Page) (l : List Nat) : Nat := (l.map fun i => maxAlign (getLinp p i).lpLen).sum

theorem Packed.upper_add {p : Page} {top : Nat} {l : List Nat} (h : Packed p top l) :
    pdUpper p + alignedLengths p l = top := by
  induction l generalizing top with
  | nil => exact h
  | cons i l ih =>
    have hrest := ih h.2
    have hend : (getLinp p i).lpOff + maxAlign (getLinp p i).lpLen = top := h.1
    unfold alignedLengths at hrest ⊢
    rw [List.map_cons, List.sum_cons]
    omega

/-- One more item, right below the others. -/
theorem Packed.snoc {c c' : Page} {n k top : Nat} {l : List Nat} (h : Packed c top l)
    (hc : CompactedAt c c' n k) (hl : ∀ i ∈ l, i < n ∧ i ≠ k) : Packed c' top (l ++ [k]) := by
  induction l generalizing top with
  | nil =>
    have hupper := hc.upper
    have htop : pdUpper c = top := h
    refine ⟨?_, ?_⟩
    · rw [hc.here]
      exact hupper.trans htop
    · rw [hc.here]
      rfl
  | cons i l ih =>
    obtain ⟨hi, hne⟩ := hl i List.mem_cons_self
    have hsame := hc.linps i hi hne
    refine ⟨by rw [hsame]; exact h.1, ?_⟩
    rw [hsame]
    exact ih h.2 fun j hj => hl j (List.mem_cons_of_mem i hj)

/-! ## The loops -/

/-- The collecting loop deallocates what is not used. -/
theorem collectUsed_unused (p : Page) (k i : Nat) : ∀ j, i ≤ j → j < i + k →
    (getLinp p j).used = false → (getLinp (collectUsed p k i).1 j).lpLen = 0 := by
  induction k generalizing p i with
  | zero => exact fun j h1 h2 => absurd h2 (by omega)
  | succ k ih =>
    intro j h1 h2 hu
    rw [collectUsed]
    by_cases hi : (getLinp p i).used = true
    · simp only [hi, if_true]
      have hne : j ≠ i := by
        rintro rfl
        rw [hi] at hu
        cases hu
      exact ih p (i + 1) j (by omega) (by omega) hu
    · simp only [hi, Bool.false_eq_true, if_false]
      by_cases hij : j = i
      · subst hij
        have hkeep := (collectUsed_spec (deallocate p j) k (j + 1)).1
        have hlinp : getLinp (collectUsed (deallocate p j) k (j + 1)).1 j = getLinp (deallocate p j) j := by
          unfold getLinp linpOffset SIZEOF_PAGE_HEADER_DATA SIZEOF_ITEM_ID_DATA
          rw [load_congr fun b hb => hkeep _ (Or.inl (by omega))]
        rw [hlinp, getLinp_deallocate, if_pos rfl]
      · refine ih (deallocate p i) (i + 1) j (by omega) (by omega) ?_
        rw [getLinp_deallocate, if_neg hij]
        exact hu

/-- The compaction loop, with the items `d` already placed. -/
theorem packed_foldl {p : Page} {n : Nat} (hv : Valid p n) (l : List ItemIdSortData)
    (hsorted : l.Pairwise fun a b => b.itemidData.lpOff ≤ a.itemidData.lpOff) (c : Page) (d : List Nat)
    (h : Compacting p c n l) (hp : Packed c (pdSpecial p) d) (hd : ∀ i ∈ d, i < n)
    (hnodup : (d ++ l.map ItemIdSortData.offsetIndex).Nodup) :
    Packed (l.foldl compactOne c) (pdSpecial p) (d ++ l.map ItemIdSortData.offsetIndex) ∧
      ∀ i < n, i ∉ l.map ItemIdSortData.offsetIndex →
        getLinp (l.foldl compactOne c) i = getLinp c i := by
  induction l generalizing c d with
  | nil =>
    rw [List.map_nil, List.append_nil]
    exact ⟨hp, fun _ _ _ => rfl⟩
  | cons e l ih =>
    have hcomp := h.compactedAt hv
    have hk := (h.pending e List.mem_cons_self).1
    rw [List.pairwise_cons] at hsorted
    rw [List.map_cons] at hnodup
    have hnot : e.offsetIndex ∉ l.map ItemIdSortData.offsetIndex :=
      (List.nodup_cons.mp (List.nodup_append.mp hnodup).2.1).1
    have hapart := (List.nodup_append.mp hnodup).2.2
    have hstep := hp.snoc hcomp fun i hi => ⟨hd i hi, hapart i hi e.offsetIndex List.mem_cons_self⟩
    have hassoc : d ++ e.offsetIndex :: l.map ItemIdSortData.offsetIndex =
        d ++ [e.offsetIndex] ++ l.map ItemIdSortData.offsetIndex := by simp
    rw [hassoc] at hnodup
    obtain ⟨hpacked, hlinps⟩ := ih hsorted.2 (compactOne c e) (d ++ [e.offsetIndex])
      (compacting_step h hv hnot hsorted.1) hstep (fun i hi => by
        rcases List.mem_append.mp hi with hi | hi
        · exact hd i hi
        · rw [List.mem_singleton.mp hi]
          exact hk) hnodup
    rw [List.map_cons, hassoc]
    refine ⟨hpacked, fun i hi hnoti => ?_⟩
    rw [List.mem_cons, not_or] at hnoti
    exact (hlinps i hi hnoti.2).trans (hcomp.linps i hi hnoti.1)

/-! ## The whole function -/

/-- The used line pointers of a page of `n`. -/
def usedLinps (p : Page) (n : Nat) : List Nat := (List.range' 0 n).filter fun i => (getLinp p i).used

theorem mem_usedLinps {p : Page} {n i : Nat} :
    i ∈ usedLinps p n ↔ i < n ∧ (getLinp p i).used = true := by
  simp [usedLinps, List.mem_range'_1]

/-- Every used item keeps its offset number, its length and its bytes; line pointers not
used have no length; the used items lie behind one another from `pd_special` down to
`pd_upper`. -/
theorem page_repair_fragmentation_packs {p : Page} {n : Nat}
    {qsort : List ItemIdSortData → List ItemIdSortData} (hq : Sorts qsort) (hv : Valid p n) :
    pdLower (pageRepairFragmentationBy qsort p) = pdLower p ∧
    pdSpecial (pageRepairFragmentationBy qsort p) = pdSpecial p ∧
    (∀ i < n, (getLinp p i).used = true →
      (getLinp (pageRepairFragmentationBy qsort p) i).used = true ∧
      (getLinp (pageRepairFragmentationBy qsort p) i).lpLen = (getLinp p i).lpLen ∧
      itemBytes (pageRepairFragmentationBy qsort p) (getLinp (pageRepairFragmentationBy qsort p) i) =
        itemBytes p (getLinp p i)) ∧
    (∀ i < n, (getLinp p i).used = false →
      (getLinp (pageRepairFragmentationBy qsort p) i).used = false ∧
      (getLinp (pageRepairFragmentationBy qsort p) i).lpLen = 0) ∧
    (∃ l, l.Perm (usedLinps p n) ∧ Packed (pageRepairFragmentationBy qsort p) (pdSpecial p) l) ∧
    pdUpper (pageRepairFragmentationBy qsort p) + alignedLengths p (usedLinps p n) = pdSpecial p := by
  have h := compacting_repairBy hv hq
  have hperm := nodup_sorted (p := p) (n := n) hq
  have hnodup := hperm.nodup_iff.mpr (List.Nodup.filter _ List.nodup_range')
  have hsp := hv.special_le
  have hB : BLCKSZ = 8192 := rfl
  have hstart : Packed (setPdUpper (collectUsed p n 0).1 (pdSpecial p)) (pdSpecial p) [] := by
    show pdUpper _ = _
    rw [pdUpper_setPdUpper, Nat.mod_eq_of_lt (by omega)]
  obtain ⟨hpacked, hlinps⟩ := packed_foldl hv (qsort (collectUsed p n 0).2)
    ((hq.sorted _).imp fun {a b} h => (itemidCompare_le a b).mp h) _ []
    (compacting_start hv (hq.perm _)) hstart (fun i hi => absurd hi List.not_mem_nil) hnodup
  rw [← pageRepairFragmentationBy_eq hv.lower hq, List.nil_append] at hpacked
  rw [← pageRepairFragmentationBy_eq hv.lower hq] at hlinps
  refine ⟨h.lower, h.special, fun i hi hu => ?_, fun i hi hu => ?_, ⟨_, hperm, hpacked⟩, ?_⟩
  · have hf := h.fields i hi
    exact ⟨hf.1.trans hu, hf.2 hu, (h.placed i hi hu List.not_mem_nil).2.2⟩
  · refine ⟨(h.fields i hi).1.trans hu, ?_⟩
    have hnot : i ∉ (qsort (collectUsed p n 0).2).map ItemIdSortData.offsetIndex := by
      intro hm
      have hused := (mem_usedLinps.mp (hperm.subset hm)).2
      rw [hu] at hused
      cases hused
    rw [hlinps i hi hnot, getLinp_setPdUpper]
    exact collectUsed_unused p n 0 i (Nat.zero_le i) (by omega) hu
  · have hsum := hpacked.upper_add
    have hlen : alignedLengths (pageRepairFragmentationBy qsort p)
        ((qsort (collectUsed p n 0).2).map ItemIdSortData.offsetIndex) =
        alignedLengths p (usedLinps p n) := by
      unfold alignedLengths
      refine ((hperm.map _).sum_eq).trans (congrArg List.sum (List.map_congr_left fun i hi => ?_))
      obtain ⟨hin, hu⟩ := mem_usedLinps.mp hi
      rw [(h.fields i hin).2 hu]
    rw [← hlen]
    exact hsum

/-- A page with a used item of three bytes in the middle of its tuple area and a line
pointer that is no longer used. -/
def gappyPage : Page :=
  let page := setPdSpecial (setPdUpper (setPdLower (fun _ => 7) 16) 8096) 8176
  setLinp (setLinp page 0 ⟨8128, LP_USED, 3⟩) 1 ⟨8096, 0, 20⟩

/-- The item moves up against the special space. -/
theorem page_repair_fragmentation_packs_example :
    pdUpper (pageRepairFragmentation gappyPage) = 8160 ∧
      (getLinp (pageRepairFragmentation gappyPage) 0).lpLen = 3 ∧
      (getLinp (pageRepairFragmentation gappyPage) 1).lpLen = 0 := by
  have hv : Valid gappyPage 2 := by
    refine ⟨by decide, by decide, by decide, by decide, by decide, by decide, by decide, ?_⟩
    have h : ∀ i < 2, ∀ j < 2, i ≠ j → (getLinp gappyPage i).used = true →
        (getLinp gappyPage j).used = false := by decide
    intro i j hi hj hne hui huj
    rw [h i hi j hj hne hui] at huj
    cases huj
  obtain ⟨-, hspecial, hused, hunused, -, hupper⟩ := page_repair_fragmentation_packs sorts_mergeSort hv
  refine ⟨?_, (hused 0 (by decide) (by decide)).2.1.trans (by decide),
    (hunused 1 (by decide) (by decide)).2⟩
  have hsum : alignedLengths gappyPage (usedLinps gappyPage 2) = 16 := by decide
  have hsp : pdSpecial gappyPage = 8176 := by decide
  rw [hsum, hsp] at hupper
  exact Nat.add_right_cancel hupper

end PostgresV7.Bufpage
