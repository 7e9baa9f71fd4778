import PostgresV7.Page.Invariant

/-!
# What `page_repair_fragmentation` does

Compaction walks the used line pointers from the highest offset down and moves
each item against the previous one. The loop invariant `Compacting` says that
everything below the running `pd_upper` is still as it was, so a `memmove` of a
later item never reads bytes an earlier one overwrote.
-/

namespace PostgresV7.Bufpage

open ByteMem

/-! ## Collecting the used line pointers -/

theorem deallocate_outside (p : Page) {i b : Nat} (h : b < 8 + 4 * i ∨ 8 + 4 * (i + 1) ≤ b) :
    deallocate p i b = p b := by
  unfold deallocate
  split
  · exact setLinp_outside p i _ h
  · rfl

theorem getLinp_deallocate (p : Page) (i j : Nat) : getLinp (deallocate p i) j =
    if j = i then { getLinp p i with lpLen := 0 } else getLinp p j := by
  have hf := fits_getLinp p i
  have h0 : ItemIdData.Fits { getLinp p i with lpLen := 0 } := ⟨hf.off, hf.flags, Nat.two_pow_pos 15⟩
  unfold deallocate
  by_cases hj : j = i
  · subst hj
    rw [if_pos rfl]
    split
    · rw [getLinp_setLinp, h0.trunc_eq]
    · rename_i hz
      have hlen : (getLinp p j).lpLen = 0 := by omega
      rw [← hlen]
  · rw [if_neg hj]
    split
    · exact getLinp_setLinp_ne p _ (Ne.symm hj)
    · rfl

/-- The collecting loop only clears lengths of unused line pointers. -/
theorem collectUsed_spec (p : Page) (k i : Nat) :
    (∀ b, b < 8 + 4 * i ∨ 8 + 4 * (i + k) ≤ b → (collectUsed p k i).1 b = p b) ∧
    (∀ j, (getLinp p j).used = true → getLinp (collectUsed p k i).1 j = getLinp p j) ∧
    (∀ j, (getLinp (collectUsed p k i).1 j).used = (getLinp p j).used) ∧
    (collectUsed p k i).2 =
      ((List.range' i k).filter fun j => (getLinp p j).used).map fun j => ⟨j, getLinp p j⟩ := by
  induction k generalizing p i with
  | zero => exact ⟨fun _ _ => rfl, fun _ _ => rfl, fun _ => rfl, rfl⟩
  | succ k ih =>
    rw [collectUsed, List.range'_succ]
    by_cases hu : (getLinp p i).used = true
    · obtain ⟨hb, hl, hf, he⟩ := ih p (i + 1)
      simp only [hu, if_true, List.filter_cons_of_pos, List.map_cons]
      exact ⟨fun b h => hb b (by omega), hl, hf, by rw [he]⟩
    · obtain ⟨hb, hl, hf, he⟩ := ih (deallocate p i) (i + 1)
      have hsame : ∀ j, (getLinp (deallocate p i) j).used = (getLinp p j).used := by
        intro j
        rw [getLinp_deallocate]
        split
        · rename_i hj
          rw [hj]
          rfl
        · rfl
      have hkeep : ∀ j, (getLinp p j).used = true → getLinp (deallocate p i) j = getLinp p j := by
        intro j hj
        rw [getLinp_deallocate, if_neg (by rintro rfl; exact hu hj)]
      simp only [hu, if_false, Bool.false_eq_true, List.filter_cons_of_neg, not_false_eq_true]
      refine ⟨fun b h => ?_, fun j hj => ?_, fun j => by rw [hf, hsame], ?_⟩
      · rw [hb b (by omega)]
        exact deallocate_outside p (by omega)
      · rw [hl j (by rw [hsame, hj]), hkeep j hj]
      · rw [he]
        have hfilter : (fun j => (getLinp (deallocate p i) j).used) = fun j => (getLinp p j).used :=
          funext hsame
        rw [hfilter]
        apply List.map_congr_left
        intro j hj
        rw [hkeep j (List.mem_filter.mp hj).2]

/-! ## One step of the compaction -/

/-- `c'` is `c` with the item of index `k` moved against `pd_upper`. -/
structure CompactedAt (c c' : Page) (n k : Nat) : Prop where
  lower : pdLower c' = pdLower c
  upper : pdUpper c' + maxAlign (getLinp c k).lpLen = pdUpper c
  special : pdSpecial c' = pdSpecial c
  here : getLinp c' k = { getLinp c k with lpOff := pdUpper c' }
  linps : ∀ i, i < n → i ≠ k → getLinp c' i = getLinp c i
  moved : ∀ i, i < (getLinp c k).lpLen → c' (pdUpper c' + i) = c ((getLinp c k).lpOff + i)
  outside : ∀ b, 8 + 4 * n ≤ b →
    b < pdUpper c' ∨ pdUpper c ≤ b → c' b = c b

theorem compactedAt_compactOne {c : Page} {n : Nat} {e : ItemIdSortData} (hk : e.offsetIndex < n)
    (hroom : 8 + 4 * n + maxAlign (getLinp c e.offsetIndex).lpLen ≤ pdUpper c)
    (hmax : pdUpper c ≤ BLCKSZ) : CompactedAt c (compactOne c e) n e.offsetIndex := by
  have hB : BLCKSZ = 8192 := rfl
  have hf := fits_getLinp c e.offsetIndex
  have hlen := le_maxAlign (n := (getLinp c e.offsetIndex).lpLen) (by have := hf.len; omega)
  have hwrap : Int.bmod ((pdUpper c : Int) - maxAlign (getLinp c e.offsetIndex).lpLen) (2 ^ 32) =
      ((pdUpper c - maxAlign (getLinp c e.offsetIndex).lpLen : Nat) : Int) := by
    rw [Int.bmod_eq_of_le (by omega) (by omega)]
    omega
  -- from here on `u` is the new `pd_upper`
  obtain ⟨u, hu⟩ : ∃ u, u = pdUpper c - maxAlign (getLinp c e.offsetIndex).lpLen := ⟨_, rfl⟩
  have hcopy : getLinp (copy c u (getLinp c e.offsetIndex).lpOff (getLinp c e.offsetIndex).lpLen)
      e.offsetIndex = getLinp c e.offsetIndex := getLinp_write_disjoint c _ (by omega)
  have hfits : ItemIdData.Fits { getLinp c e.offsetIndex with lpOff := u } :=
    ⟨show u < 2 ^ 15 by omega, hf.flags, hf.len⟩
  unfold compactOne
  simp only [hwrap, Int.toNat_natCast, ← hu, hcopy]
  have hupper : ∀ q : Page, pdUpper (setPdUpper q u) = u := fun q => by
    rw [pdUpper_setPdUpper, Nat.mod_eq_of_lt (by omega)]
  have hh := (sameHeader_write c (a := u) (n := (getLinp c e.offsetIndex).lpLen)
    (fun i => c ((getLinp c e.offsetIndex).lpOff + i)) (by omega)).trans
    (sameHeader_setLinp _ e.offsetIndex { getLinp c e.offsetIndex with lpOff := u })
  refine ⟨?_, by rw [hupper]; omega, ?_, ?_, ?_, ?_, ?_⟩
  · rw [pdLower_setPdUpper]
    exact hh.lower
  · rw [pdSpecial_setPdUpper]
    exact hh.special
  · rw [hupper, getLinp_setPdUpper, getLinp_setLinp, hfits.trunc_eq]
  · intro i hi hik
    rw [getLinp_setPdUpper, getLinp_setLinp_ne _ _ (Ne.symm hik)]
    exact getLinp_write_disjoint c _ (by omega)
  · intro i hi
    rw [hupper, setPdUpper_body _ _ (by omega), setLinp_outside _ _ _ (by omega)]
    exact copy_inside c u _ _ hi
  · intro b h8 hb
    rw [hupper] at hb
    rw [setPdUpper_body _ _ (by omega), setLinp_outside _ _ _ (by omega)]
    exact copy_outside c u _ _ (by omega)

/-! ## The loop -/

/-- The compaction of `p` has come as far as `c`; `l` is still to be moved. -/
structure Compacting (p c : Page) (n : Nat) (l : List ItemIdSortData) : Prop where
  lower : pdLower c = pdLower p
  special : pdSpecial c = pdSpecial p
  upper_ge : pdUpper p ≤ pdUpper c
  upper_le : pdUpper c ≤ pdSpecial p
  upper_dvd : 16 ∣ pdUpper c
  below : ∀ b, pdUpper p ≤ b → b < pdUpper c → c b = p b
  pending : ∀ e ∈ l, e.offsetIndex < n ∧ e.itemidData.used = true ∧
    getLinp c e.offsetIndex = e.itemidData ∧ getLinp p e.offsetIndex = e.itemidData ∧
    e.itemidData.extentEnd ≤ pdUpper c
  fields : ∀ i, i < n → (getLinp c i).used = (getLinp p i).used ∧
    ((getLinp p i).used = true → (getLinp c i).lpLen = (getLinp p i).lpLen)
  placed : ∀ i, i < n → (getLinp p i).used = true → i ∉ l.map ItemIdSortData.offsetIndex →
    pdUpper c ≤ (getLinp c i).lpOff ∧ (getLinp c i).extentEnd ≤ pdSpecial p ∧
    itemBytes c (getLinp c i) = itemBytes p (getLinp p i)
  apart : ∀ i j, i < n → j < n → i ≠ j → i ∉ l.map ItemIdSortData.offsetIndex →
    j ∉ l.map ItemIdSortData.offsetIndex → Apart (getLinp c i) (getLinp c j)

/-- The item moved next finds its place. -/
theorem Compacting.compactedAt {p c : Page} {n : Nat} {e : ItemIdSortData} {l : List ItemIdSortData}
    (h : Compacting p c n (e :: l)) (hv : Valid p n) : CompactedAt c (compactOne c e) n e.offsetIndex := by
  have hsp := hv.special_le
  have hupc := h.upper_le
  obtain ⟨hk, hu, hc, hp, hend⟩ := h.pending e List.mem_cons_self
  have hink := (hv.inside e.offsetIndex hk (by rw [hp]; exact hu)).1
  have hlow := hv.lower
  have hroom := hv.room
  have hee : e.itemidData.extentEnd = e.itemidData.lpOff + maxAlign e.itemidData.lpLen := rfl
  rw [hp] at hink
  exact compactedAt_compactOne hk (by rw [hc]; omega) (by omega)

/-- One iteration keeps the invariant, because the rest of the list lies lower. -/
theorem compacting_step {p c : Page} {n : Nat} {e : ItemIdSortData} {l : List ItemIdSortData}
    (h : Compacting p c n (e :: l)) (hv : Valid p n)
    (hnodup : e.offsetIndex ∉ l.map ItemIdSortData.offsetIndex)
    (hsorted : ∀ e' ∈ l, e'.itemidData.lpOff ≤ e.itemidData.lpOff) :
    Compacting p (compactOne c e) n l := by
  have hsp := hv.special_le
  have hupc := h.upper_le
  obtain ⟨hk, hu, hc, hp, hend⟩ := h.pending e List.mem_cons_self
  have hink := (hv.inside e.offsetIndex hk (by rw [hp]; exact hu)).1
  have hlow := hv.lower
  have hroom := hv.room
  have hee : e.itemidData.extentEnd = e.itemidData.lpOff + maxAlign e.itemidData.lpLen := rfl
  have hfits : e.itemidData.Fits := by
    rw [← hp]
    exact fits_getLinp p _
  have hlen := lt_extentEnd hfits
  rw [hp] at hink
  have hcomp := h.compactedAt hv
  have hup := hcomp.upper
  have hhere := hcomp.here
  rw [hc] at hup hhere
  have hother : ∀ i, i < n → i ≠ e.offsetIndex → (getLinp p i).used = true →
      i ∉ l.map ItemIdSortData.offsetIndex →
      pdUpper c ≤ (getLinp c i).lpOff ∧ (getLinp c i).extentEnd ≤ pdSpecial p ∧
      itemBytes c (getLinp c i) = itemBytes p (getLinp p i) := by
    intro i hi hne hui hnot
    apply h.placed i hi hui
    simp only [List.map_cons, List.mem_cons, not_or]
    exact ⟨hne, hnot⟩
  have hused : ∀ i, i < n → (getLinp (compactOne c e) i).used = (getLinp p i).used := by
    intro i hi
    by_cases hik : i = e.offsetIndex
    · rw [hik, hhere, hp]
      rfl
    · rw [hcomp.linps i hi hik, (h.fields i hi).1]
  refine ⟨hcomp.lower.trans h.lower, hcomp.special.trans h.special, by omega, by omega, ?_, ?_,
    ?_, ?_, ?_, ?_⟩
  · have hd := h.upper_dvd
    rw [← hup] at hd
    exact (Nat.dvd_add_left (dvd_maxAlign _)).mp hd
  · intro b h1 h2
    rw [hcomp.outside b (by omega) (Or.inl h2)]
    exact h.below b h1 (by omega)
  · intro e' he'
    obtain ⟨hk', hu', hc', hp', hend'⟩ := h.pending e' (List.mem_cons_of_mem e he')
    have hne : e'.offsetIndex ≠ e.offsetIndex := by
      intro heq
      exact hnodup (heq ▸ List.mem_map_of_mem he')
    refine ⟨hk', hu', by rw [hcomp.linps _ hk' hne, hc'], hp', ?_⟩
    -- the entry lies below the moved one, or the moved one is empty
    have hle := hsorted e' he'
    have hap := hv.apart _ _ hk' hk hne
    rw [hp, hp'] at hap
    rcases hap hu' hu with ha | ha <;> omega
  · intro i hi
    refine ⟨hused i hi, fun hui => ?_⟩
    by_cases hik : i = e.offsetIndex
    · rw [hik, hhere, hp]
    · rw [hcomp.linps i hi hik]
      exact (h.fields i hi).2 hui
  · intro i hi hui hnot
    by_cases hik : i = e.offsetIndex
    · rw [hik, hhere]
      refine ⟨Nat.le_refl _, ?_, ?_⟩
      · unfold ItemIdData.extentEnd
        dsimp only
        omega
      · rw [hp]
        apply slice_congr
        dsimp only
        intro j hj
        have hm := hcomp.moved j (by rw [hc]; exact hj)
        rw [hc] at hm
        rw [hm]
        exact h.below _ (by omega) (by omega)
    · obtain ⟨h1, h2, h3⟩ := hother i hi hik hui hnot
      rw [hcomp.linps i hi hik]
      refine ⟨by omega, h2, ?_⟩
      rw [← h3]
      exact itemBytes_congr (fits_getLinp c i) fun b hb _ =>
        hcomp.outside b (by omega) (Or.inr (by omega))
  · intro i j hi hj hij hni hnj hui huj
    have hpi : (getLinp p i).used = true := by rw [← hused i hi, hui]
    have hpj : (getLinp p j).used = true := by rw [← hused j hj, huj]
    have hmoved : (getLinp (compactOne c e) e.offsetIndex).extentEnd = pdUpper c := by
      rw [hhere]
      exact hup
    by_cases hik : i = e.offsetIndex
    · have hj' := hother j hj (by omega) hpj hnj
      rw [hik, hmoved, hcomp.linps j hj (by omega)]
      exact Or.inl hj'.1
    · by_cases hjk : j = e.offsetIndex
      · have hi' := hother i hi hik hpi hni
        rw [hjk, hmoved, hcomp.linps i hi hik]
        exact Or.inr hi'.1
      · rw [hcomp.linps i hi hik] at hui ⊢
        rw [hcomp.linps j hj hjk] at huj ⊢
        refine h.apart i j hi hj hij ?_ ?_ hui huj <;>
          simp only [List.map_cons, List.mem_cons, not_or]
        · exact ⟨hik, hni⟩
        · exact ⟨hjk, hnj⟩

/-- The whole loop, over a list sorted by descending offset. -/
theorem compacting_foldl {p : Page} {n : Nat} (hv : Valid p n) (l : List ItemIdSortData)
    (hnodup : (l.map ItemIdSortData.offsetIndex).Nodup)
    (hsorted : l.Pairwise fun a b => b.itemidData.lpOff ≤ a.itemidData.lpOff) (c : Page)
    (h : Compacting p c n l) : Compacting p (l.foldl compactOne c) n [] := by
  induction l generalizing c with
  | nil => exact h
  | cons e l ih =>
    rw [List.map_cons, List.nodup_cons] at hnodup
    rw [List.pairwise_cons] at hsorted
    exact ih hnodup.2 hsorted.2 _ (compacting_step h hv hnodup.1 hsorted.1)

/-! ## The whole function -/

/-- With no used line pointer left, collecting is deallocating. -/
theorem collectUsed_of_unused {p : Page} {k i : Nat}
    (h : ∀ j, i ≤ j → j < i + k → (getLinp p j).used = false) :
    collectUsed p k i = (deallocateAll p k i, []) := by
  induction k generalizing p i with
  | zero => rfl
  | succ k ih =>
    have hi := h i (Nat.le_refl i) (by omega)
    simp only [collectUsed, deallocateAll, hi, Bool.false_eq_true, if_false]
    apply ih
    intro j h1 h2
    rw [getLinp_deallocate, if_neg (by omega)]
    exact h j (by omega) (by omega)

/-- `page_repair_fragmentation` with the sort array as `qsort` leaves it, which may put
line pointers of equal offset in any order. -/
def pageRepairFragmentationBy (qsort : List ItemIdSortData → List ItemIdSortData) (page : Page) :
    Page :=
  let nline := (Int.bmod (pageGetMaxOffsetNumber page) (2 ^ 16)).toNat
  let nused := countUsed page nline
  if nused = 0 then
    let page := deallocateAll page nline 0
    setPdUpper page (pdSpecial page)
  else
    let r := collectUsed page nline 0
    let page := r.1
    let itemidBase := qsort r.2
    let page := setPdUpper page (pdSpecial page)
    itemidBase.foldl compactOne page

/-- What the C library promises about `qsort` with `itemid_compare`. -/
structure Sorts (qsort : List ItemIdSortData → List ItemIdSortData) : Prop where
  perm : ∀ l, (qsort l).Perm l
  sorted : ∀ l, (qsort l).Pairwise fun a b => itemidCompare a b ≤ 0

/-- Both branches are one: collect, empty the tuple area, compact. -/
theorem pageRepairFragmentationBy_eq {p : Page} {n : Nat} (hlower : pdLower p = 8 + 4 * n)
    {qsort : List ItemIdSortData → List ItemIdSortData} (hq : Sorts qsort) :
    pageRepairFragmentationBy qsort p = (qsort (collectUsed p n 0).2).foldl compactOne
      (setPdUpper (collectUsed p n 0).1 (pdSpecial p)) := by
  have hlt := pdLower_lt p
  have hnline : (Int.bmod (pageGetMaxOffsetNumber p) (2 ^ 16)).toNat = n := by
    rw [pageGetMaxOffsetNumber_eq hlower, Int.bmod_eq_of_le (by omega) (by omega), Int.toNat_natCast]
  have hspecial : pdSpecial (collectUsed p n 0).1 = pdSpecial p :=
    (sameHeader_of_bytes fun b _ => (collectUsed_spec p n 0).1 b (by omega)).special
  unfold pageRepairFragmentationBy
  simp only [hnline, hspecial]
  by_cases hused : countUsed p n = 0
  · have hnone : ∀ j, 0 ≤ j → j < 0 + n → (getLinp p j).used = false := by
      intro j _ hj
      have hc := List.countP_eq_zero.mp hused j (List.mem_range.mpr (by omega))
      simpa using hc
    rw [collectUsed_of_unused hnone] at hspecial ⊢
    rw [if_pos hused, hspecial, List.perm_nil.mp (hq.perm [])]
    rfl
  · rw [if_neg hused]

theorem itemidCompare_le (a b : ItemIdSortData) :
    itemidCompare a b ≤ 0 ↔ b.itemidData.lpOff ≤ a.itemidData.lpOff := by
  unfold itemidCompare
  split
  · omega
  · split <;> omega

theorem sorts_mergeSort : Sorts fun l => l.mergeSort fun a b => itemidCompare a b ≤ 0 := by
  refine ⟨fun l => List.mergeSort_perm l _, fun l => ?_⟩
  simp only [itemidCompare_le]
  have htrans : ∀ a b c : ItemIdSortData, decide (b.itemidData.lpOff ≤ a.itemidData.lpOff) = true →
      decide (c.itemidData.lpOff ≤ b.itemidData.lpOff) = true →
      decide (c.itemidData.lpOff ≤ a.itemidData.lpOff) = true := by
    intro a b c hab hbc
    simp only [decide_eq_true_eq] at hab hbc ⊢
    omega
  have htotal : ∀ a b : ItemIdSortData, (decide (b.itemidData.lpOff ≤ a.itemidData.lpOff) ||
      decide (a.itemidData.lpOff ≤ b.itemidData.lpOff)) = true := by
    intro a b
    simp only [Bool.or_eq_true, decide_eq_true_eq]
    omega
  exact (List.pairwise_mergeSort htrans htotal l).imp fun h => of_decide_eq_true h

/-- The invariant holds when the loop starts. -/
theorem compacting_start {p : Page} {n : Nat} (hv : Valid p n) {l : List ItemIdSortData}
    (hl : l.Perm (collectUsed p n 0).2) :
    Compacting p (setPdUpper (collectUsed p n 0).1 (pdSpecial p)) n l := by
  have hB : BLCKSZ = 8192 := rfl
  have hlower := hv.lower
  have hroom := hv.room
  have hsp := hv.special_le
  obtain ⟨hbytes, hlinps, hflags, hlist⟩ := collectUsed_spec p n 0
  have hh : SameHeader p (collectUsed p n 0).1 :=
    sameHeader_of_bytes fun b _ => hbytes b (by omega)
  have hupper : pdUpper (setPdUpper (collectUsed p n 0).1 (pdSpecial p)) = pdSpecial p := by
    rw [pdUpper_setPdUpper, Nat.mod_eq_of_lt (by omega)]
  have hmem : ∀ e, e ∈ l ↔
      (e.offsetIndex < n ∧ e.itemidData.used = true ∧ e.itemidData = getLinp p e.offsetIndex) := by
    intro e
    rw [hl.mem_iff, hlist]
    simp only [List.mem_map, List.mem_filter, List.mem_range'_1]
    constructor
    · rintro ⟨j, ⟨⟨-, hj⟩, hu⟩, rfl⟩
      exact ⟨(by omega : j < n), hu, rfl⟩
    · rintro ⟨hk, hu, he⟩
      exact ⟨e.offsetIndex, ⟨⟨by omega, by omega⟩, by rw [← he]; exact hu⟩, by rw [← he]⟩
  have hall : ∀ i, i < n → (getLinp p i).used = true → i ∈ l.map ItemIdSortData.offsetIndex :=
    fun i hi hu => List.mem_map.mpr ⟨⟨i, getLinp p i⟩, (hmem _).mpr ⟨hi, hu, rfl⟩, rfl⟩
  refine ⟨by rw [pdLower_setPdUpper]; exact hh.lower, by rw [pdSpecial_setPdUpper]; exact hh.special,
    by rw [hupper]; exact hv.upper_le, by rw [hupper], by rw [hupper]; exact hv.special_dvd,
    ?_, ?_, ?_, ?_, ?_⟩
  · intro b h1 _
    rw [setPdUpper_body _ _ (by omega)]
    exact hbytes b (by omega)
  · intro e he
    obtain ⟨hk, hu, hd⟩ := (hmem e).mp he
    refine ⟨hk, hu, ?_, hd.symm, ?_⟩
    · rw [getLinp_setPdUpper, hlinps _ (by rw [← hd]; exact hu), ← hd]
    · rw [hupper, hd]
      exact (hv.inside _ hk (by rw [← hd]; exact hu)).2
  · intro i hi
    rw [getLinp_setPdUpper]
    exact ⟨hflags i, fun hu => by rw [hlinps i hu]⟩
  · intro i hi hu hnot
    exact absurd (hall i hi hu) hnot
  · intro i j hi hj _ hni _ hui _
    rw [getLinp_setPdUpper, hflags] at hui
    exact absurd (hall i hi hui) hni

/-- The loop can start from the sort array. -/
theorem nodup_sorted {p : Page} {n : Nat} {qsort : List ItemIdSortData → List ItemIdSortData}
    (hq : Sorts qsort) :
    ((qsort (collectUsed p n 0).2).map ItemIdSortData.offsetIndex).Perm
      ((List.range' 0 n).filter fun j => (getLinp p j).used) := by
  refine ((hq.perm _).map ItemIdSortData.offsetIndex).trans ?_
  rw [(collectUsed_spec p n 0).2.2.2, List.map_map]
  have hid : ItemIdSortData.offsetIndex ∘ (fun j => (⟨j, getLinp p j⟩ : ItemIdSortData)) = id := rfl
  rw [hid, List.map_id]

/-- Repairing a valid page keeps every used item and its bytes. -/
theorem compacting_repairBy {p : Page} {n : Nat} (hv : Valid p n)
    {qsort : List ItemIdSortData → List ItemIdSortData} (hq : Sorts qsort) :
    Compacting p (pageRepairFragmentationBy qsort p) n [] := by
  rw [pageRepairFragmentationBy_eq hv.lower hq]
  refine compacting_foldl hv _ ?_ ((hq.sorted _).imp fun {a b} h => (itemidCompare_le a b).mp h) _
    (compacting_start hv (hq.perm _))
  exact (nodup_sorted hq).nodup_iff.mpr (List.Nodup.filter _ List.nodup_range')

theorem compacting_repair {p : Page} {n : Nat} (hv : Valid p n) :
    Compacting p (pageRepairFragmentation p) n [] := compacting_repairBy hv sorts_mergeSort

theorem valid_repair {p : Page} {n : Nat} (hv : Valid p n) :
    Valid (pageRepairFragmentation p) n := by
  have h := compacting_repair hv
  have hsp := h.special
  refine ⟨h.lower.trans hv.lower, ?_, by rw [hsp]; exact h.upper_le, by rw [hsp]; exact hv.special_le,
    h.upper_dvd, by rw [hsp]; exact hv.special_dvd, ?_, ?_⟩
  · rw [h.lower]
    exact hv.room.trans h.upper_ge
  · intro i hi hu
    rw [(h.fields i hi).1] at hu
    obtain ⟨h1, h2, -⟩ := h.placed i hi hu List.not_mem_nil
    rw [hsp]
    exact ⟨h1, h2⟩
  · intro i j hi hj hij
    exact h.apart i j hi hj hij List.not_mem_nil List.not_mem_nil

/-- Repairing the page does not change the list it holds. -/
theorem represents_repair {p : Page} {items : List (List UInt8)} (hr : Represents p items) :
    Represents (pageRepairFragmentation p) items := by
  have h := compacting_repair hr.valid
  refine ⟨valid_repair hr.valid, ?_, ?_, ?_⟩
  · intro i hi
    rw [(h.fields i hi).1]
    exact hr.used i hi
  · intro i hi
    rw [(h.fields i hi).2 (hr.used i hi)]
    exact hr.nonempty i hi
  · intro i hi
    rw [(h.placed i hi (hr.used i hi) List.not_mem_nil).2.2]
    exact hr.contents i hi

end PostgresV7.Bufpage
