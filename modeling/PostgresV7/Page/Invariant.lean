import PostgresV7.Page.Add
import Mathlib.Data.List.InsertIdx

/-!
# The page invariant and the list a page stands for

`Valid` is the geometry of a page: ordered and aligned bounds, every used
extent inside the tuple area, no two overlapping. `Represents` adds that the
line pointers, read in order, are a given list of byte strings.
-/

namespace PostgresV7.Bufpage

open ByteMem

/-- Two used line pointers have disjoint extents. -/
def Apart (a b : ItemIdData) : Prop :=
  a.used = true → b.used = true → a.extentEnd ≤ b.lpOff ∨ b.extentEnd ≤ a.lpOff

/-- A page of `n` line pointers is well laid out. -/
structure Valid (p : Page) (n : Nat) : Prop where
  lower : pdLower p = 8 + 4 * n
  room : pdLower p ≤ pdUpper p
  upper_le : pdUpper p ≤ pdSpecial p
  special_le : pdSpecial p ≤ BLCKSZ
  upper_dvd : 16 ∣ pdUpper p
  special_dvd : 16 ∣ pdSpecial p
  inside : ∀ i, i < n → (getLinp p i).used = true →
    pdUpper p ≤ (getLinp p i).lpOff ∧ (getLinp p i).extentEnd ≤ pdSpecial p
  apart : ∀ i j, i < n → j < n → i ≠ j → Apart (getLinp p i) (getLinp p j)

/-- The bytes of one item. -/
def itemBytes (p : Page) (id : ItemIdData) : List UInt8 := slice p id.lpOff id.lpLen

/-- The page holds exactly `items`, in the order of the offset numbers. -/
structure Represents (p : Page) (items : List (List UInt8)) : Prop where
  valid : Valid p items.length
  used : ∀ i, i < items.length → (getLinp p i).used = true
  nonempty : ∀ i, i < items.length → 0 < (getLinp p i).lpLen
  contents : ∀ (i : Nat) (h : i < items.length), itemBytes p (getLinp p i) = items[i]

theorem lt_extentEnd {id : ItemIdData} (h : id.Fits) : id.lpOff + id.lpLen ≤ id.extentEnd := by
  have hl := h.len
  have hm := le_maxAlign (n := id.lpLen) (by omega)
  unfold ItemIdData.extentEnd
  omega

/-- An item's bytes survive a change that stays off its extent. -/
theorem itemBytes_congr {p q : Page} {id : ItemIdData} (h : id.Fits)
    (hb : ∀ b, id.lpOff ≤ b → b < id.extentEnd → q b = p b) : itemBytes q id = itemBytes p id := by
  have he := lt_extentEnd h
  exact slice_congr fun i hi => hb _ (by omega) (by omega)

/-! ## `page_init` -/

/-- A freshly initialised page with room is valid and empty. -/
theorem represents_pageInit {raw p : Page} {specialSize : Nat}
    (hi : pageInit raw BLCKSZ specialSize = some p) (hroom : pdLower p ≤ pdUpper p) :
    Represents p [] := by
  have hB : BLCKSZ = 8192 := rfl
  unfold pageInit at hi
  by_cases hc : BLCKSZ = BLCKSZ ∧
      (specialSize + SIZEOF_PAGE_HEADER_DATA - SIZEOF_ITEM_ID_DATA) % 2 ^ 64 < BLCKSZ
  · rw [if_pos hc] at hi
    obtain rfl := Option.some.inj hi
    have hd := dvd_maxAlign specialSize
    have hupper : (BLCKSZ + 2 ^ 64 - maxAlign specialSize) % 2 ^ 64 % 2 ^ 16 ≤ BLCKSZ ∧
        16 ∣ (BLCKSZ + 2 ^ 64 - maxAlign specialSize) % 2 ^ 64 % 2 ^ 16 := by
      have hw : maxAlign specialSize ≤ BLCKSZ := by
        have hs := hc.2
        unfold maxAlign typeAlign MAX_ALIGNOF
        simp only [SIZEOF_PAGE_HEADER_DATA, SIZEOF_ITEM_ID_DATA] at hs
        omega
      omega
    refine ⟨⟨?_, hroom, ?_, ?_, ?_, ?_, ?_, ?_⟩, ?_, ?_, ?_⟩
    · simp [SIZEOF_PAGE_HEADER_DATA, SIZEOF_ITEM_ID_DATA]
    · simp
    · simpa using hupper.1
    · simpa using hupper.2
    · simpa using hupper.2
    · intro i hi; exact absurd hi (Nat.not_lt_zero _)
    · intro i j hi; exact absurd hi (Nat.not_lt_zero _)
    all_goals intro i hi; exact absurd hi (Nat.not_lt_zero _)
  · rw [if_neg hc] at hi
    cases hi

/-! ## Insertion -/

/-- The line pointer of an old item after an insertion, by its new index. -/
theorem AddedAt.old {p q : Page} {item : Nat → UInt8} {size n k flags i : Nat}
    (h : AddedAt p q item size n k flags) (hi : i ≤ n) (hne : i ≠ k) :
    getLinp q i = getLinp p (if i < k then i else i - 1) := by
  by_cases hk : i < k
  · rw [if_pos hk, h.before i hk]
  · rw [if_neg hk, h.after i (by omega) hi]

theorem extentEnd_here {p q : Page} {item : Nat → UInt8} {size n k flags : Nat}
    (h : AddedAt p q item size n k flags) : (getLinp q k).extentEnd = pdUpper p := by
  rw [h.here, ← h.upper]
  rfl

/-- An old item lies above the new one, untouched. -/
theorem AddedAt.old_inside {p q : Page} {item : Nat → UInt8} {size n k flags i : Nat}
    (h : AddedAt p q item size n k flags) (hv : Valid p n) (hk : k ≤ n) (hi : i ≤ n) (hne : i ≠ k)
    (hu : (getLinp q i).used = true) :
    pdUpper p ≤ (getLinp q i).lpOff ∧ (getLinp q i).extentEnd ≤ pdSpecial p := by
  have hold := h.old hi hne
  rw [hold] at hu ⊢
  exact hv.inside _ (by split <;> omega) hu

theorem valid_add {p q : Page} {item : Nat → UInt8} {size n k flags : Nat}
    (h : AddedAt p q item size n k flags) (hv : Valid p n) (hk : k ≤ n) : Valid q (n + 1) := by
  have hup := h.upper
  have hend := extentEnd_here h
  refine ⟨h.lower, by rw [h.lower]; exact h.room, ?_, ?_, ?_, ?_, ?_, ?_⟩
  · rw [h.special]; have := hv.upper_le; omega
  · rw [h.special]; exact hv.special_le
  · have hd := dvd_maxAlign size
    have hpd := hv.upper_dvd
    rw [← hup] at hpd
    exact (Nat.dvd_add_left hd).mp hpd
  · rw [h.special]; exact hv.special_dvd
  · intro i hi hu
    rw [h.special]
    by_cases hik : i = k
    · subst hik
      rw [hend]
      exact ⟨by rw [h.here], hv.upper_le⟩
    · have hin := h.old_inside hv hk (by omega) hik hu
      exact ⟨by omega, hin.2⟩
  · intro i j hi hj hij hui huj
    by_cases hik : i = k
    · subst hik
      have hin := h.old_inside hv hk (by omega) (Ne.symm hij) huj
      rw [hend]
      exact Or.inl hin.1
    · by_cases hjk : j = k
      · subst hjk
        have hin := h.old_inside hv hk (by omega) hik hui
        rw [hend]
        exact Or.inr hin.1
      · have hoi := h.old (by omega : i ≤ n) hik
        have hoj := h.old (by omega : j ≤ n) hjk
        rw [hoi] at hui ⊢
        rw [hoj] at huj ⊢
        exact hv.apart _ _ (by split <;> omega) (by split <;> omega)
          (by split <;> split <;> omega) hui huj

/-- Insertion into the page is insertion into the list. -/
theorem represents_add {p q : Page} {item : List UInt8} {k : Nat} {items : List (List UInt8)}
    (h : AddedAt p q (fun i => item.getD i 0) item.length items.length k LP_USED)
    (hr : Represents p items) (hk : k ≤ items.length) (hsize : 0 < item.length) :
    Represents q (items.insertIdx k item) := by
  have hlen : (items.insertIdx k item).length = items.length + 1 := List.length_insertIdx_of_le_length hk item
  have hv := valid_add h hr.valid hk
  have hused : ∀ i, i ≤ items.length → (getLinp q i).used = true := by
    intro i hi
    by_cases hik : i = k
    · subst hik
      rw [h.here]
      rfl
    · rw [h.old hi hik]
      exact hr.used _ (by split <;> omega)
  refine ⟨by rw [hlen]; exact hv, fun i hi => hused i (by omega), ?_, ?_⟩
  · intro i hi
    by_cases hik : i = k
    · subst hik
      rw [h.here]
      exact hsize
    · rw [h.old (by omega) hik]
      exact hr.nonempty _ (by split <;> omega)
  · intro i hi
    rw [List.getElem_insertIdx]
    by_cases hik : i = k
    · subst hik
      rw [dif_neg (Nat.lt_irrefl _), dif_pos rfl, h.here]
      refine slice_eq_iff.mpr fun j hj => ?_
      rw [h.item j hj]
      simp [hj]
    · have hin := h.old_inside hr.valid hk (by omega) hik (hused i (by omega))
      have hsame : itemBytes q (getLinp q i) = itemBytes p (getLinp q i) :=
        itemBytes_congr (fits_getLinp q i) fun b hb _ => h.above b (by omega)
      rw [hsame, h.old (by omega) hik]
      by_cases hlt : i < k
      · simp only [if_pos hlt, dif_pos hlt]
        exact hr.contents i (by omega)
      · simp only [if_neg hlt, dif_neg hlt, dif_neg hik]
        exact hr.contents (i - 1) (by omega)

end PostgresV7.Bufpage
