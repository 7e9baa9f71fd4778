import PostgresV7.Page.Invariant

/-!
# What `page_index_tuple_delete` does

`DeletedAt` describes the page after one deletion: the line pointer array is
closed up, the tuple bytes below the deleted item moved up by its aligned size,
and exactly the offsets that pointed there patched.
-/

namespace PostgresV7.Bufpage

open ByteMem

/-- The patch `page_index_tuple_delete_adjust_line_pointers` applies. -/
def shiftOff (offset size : Nat) (id : ItemIdData) : ItemIdData :=
  if id.lpOff ≤ offset then { id with lpOff := id.lpOff + size } else id

theorem adjust_outside (p : Page) {offset size k b : Nat} (h : b < 8 ∨ 8 + 4 * k ≤ b) :
    pageIndexTupleDeleteAdjustLinePointers p offset size k b = p b := by
  induction k generalizing p with
  | zero => rfl
  | succ k ih =>
    rw [pageIndexTupleDeleteAdjustLinePointers, ih _ (by omega)]
    split
    · exact setLinp_outside p _ _ (by omega)
    · rfl

theorem sameHeader_adjust (p : Page) (offset size k : Nat) :
    SameHeader p (pageIndexTupleDeleteAdjustLinePointers p offset size k) :=
  sameHeader_of_bytes fun _ _ => adjust_outside p (by omega)

/-- The loop patches each line pointer below `k` once. -/
theorem getLinp_adjust (p : Page) (offset size k i : Nat) :
    getLinp (pageIndexTupleDeleteAdjustLinePointers p offset size k) i =
      if i < k then (shiftOff offset size (getLinp p i)).trunc else getLinp p i := by
  induction k generalizing p with
  | zero => rfl
  | succ k ih =>
    have hstep : ∀ j, getLinp (if (getLinp p k).lpOff ≤ offset
        then setLinp p k { getLinp p k with lpOff := (getLinp p k).lpOff + size } else p) j =
        if j = k then (shiftOff offset size (getLinp p k)).trunc else getLinp p j := by
      intro j
      by_cases hj : j = k
      · subst hj
        rw [if_pos rfl, shiftOff]
        split
        · exact getLinp_setLinp p _ _
        · exact (fits_getLinp p _).trunc_eq.symm
      · rw [if_neg hj]
        split
        · exact getLinp_setLinp_ne p _ (Ne.symm hj)
        · rfl
    rw [pageIndexTupleDeleteAdjustLinePointers, ih, hstep]
    by_cases hi : i < k
    · rw [if_pos hi, if_neg (by omega), if_pos (by omega)]
    · by_cases hk : i = k
      · subst hk
        rw [if_neg hi, if_pos rfl, if_pos (by omega)]
      · rw [if_neg hi, if_neg hk, if_neg (by omega)]

/-- `q` is `p`, a page of `n` line pointers, without the one at index `k`. -/
structure DeletedAt (p q : Page) (n k : Nat) : Prop where
  lower : pdLower q = 8 + 4 * (n - 1)
  upper : pdUpper q = pdUpper p + maxAlign (getLinp p k).lpLen
  special : pdSpecial q = pdSpecial p
  linps : ∀ i, i < n - 1 → getLinp q i =
    (shiftOff (getLinp p k).lpOff (maxAlign (getLinp p k).lpLen)
      (getLinp p (if i < k then i else i + 1))).trunc
  moved : ∀ b, pdUpper p ≤ b → b < (getLinp p k).lpOff →
    q (b + maxAlign (getLinp p k).lpLen) = p b
  above : ∀ b, (getLinp p k).extentEnd ≤ b → q b = p b

/-- The line pointer array closed up over index `k`. -/
def closeUp (p : Page) (n k : Nat) : Page :=
  copy p (8 + 4 * k) (8 + 4 * (k + 1)) (4 * (n - 1 - k))

/-- The tuples in `[addr, locn)` moved up by `size`. -/
def moveUp (p : Page) (addr locn size : Nat) : Page :=
  if locn ≠ addr then copy p (addr + size) addr (locn - addr) else p

theorem closeUp_outside (p : Page) {n k b : Nat} (hk : k < n) (h : b < 8 ∨ 8 + 4 * n ≤ b) :
    closeUp p n k b = p b := copy_outside p _ _ _ (by omega)

theorem getLinp_closeUp (p : Page) {n k i : Nat} (hk : k < n) (hi : i < n - 1) :
    getLinp (closeUp p n k) i = getLinp p (if i < k then i else i + 1) := by
  by_cases h : i < k
  · rw [if_pos h]
    exact getLinp_congr fun j _ => copy_outside p _ _ _ (by omega)
  · rw [if_neg h]
    apply getLinp_congr
    intro j hj
    have hc := copy_inside p (8 + 4 * k) (8 + 4 * (k + 1)) (4 * (n - 1 - k))
      (i := 4 * (i - k) + j) (by omega)
    rwa [show 8 + 4 * k + (4 * (i - k) + j) = 8 + 4 * i + j by omega,
      show 8 + 4 * (k + 1) + (4 * (i - k) + j) = 8 + 4 * (i + 1) + j by omega] at hc

theorem moveUp_outside (p : Page) {addr locn size b : Nat} (hle : addr ≤ locn)
    (h : b < addr + size ∨ locn + size ≤ b) : moveUp p addr locn size b = p b := by
  unfold moveUp
  split
  · exact copy_outside p _ _ _ (by omega)
  · rfl

theorem moveUp_moved (p : Page) {addr locn size b : Nat} (h1 : addr ≤ b) (h2 : b < locn) :
    moveUp p addr locn size (b + size) = p b := by
  have hc := copy_inside p (addr + size) addr (locn - addr) (i := b - addr) (by omega)
  rw [show addr + size + (b - addr) = b + size by omega,
    show addr + (b - addr) = b by omega] at hc
  unfold moveUp
  rw [if_pos (by omega), hc]

/-- Neither move touches the header. -/
theorem sameHeader_moves (p : Page) (size : Nat) {n k addr locn : Nat} (hk : k < n) (h8 : 8 ≤ addr)
    (hle : addr ≤ locn) : SameHeader p (moveUp (closeUp p n k) addr locn size) := by
  apply sameHeader_of_bytes
  intro b hb
  rw [moveUp_outside _ hle (by omega), closeUp_outside p hk (by omega)]

/-- The page before the offsets are patched. -/
def closedUp (p : Page) (n k : Nat) : Page :=
  setPdLower (setPdUpper
    (moveUp (closeUp p n k) (pdUpper p) (getLinp p k).lpOff (maxAlign (getLinp p k).lpLen))
    (pdUpper p + maxAlign (getLinp p k).lpLen)) (pdLower p + 2 ^ 64 - SIZEOF_ITEM_ID_DATA)

/-- The body of `page_index_tuple_delete`, in terms of the three moves. -/
theorem pageIndexTupleDelete_eq {p : Page} {n k : Nat} (hlower : pdLower p = 8 + 4 * n)
    (hk : k < n) (hroom : pdLower p ≤ pdUpper p) (hoff : pdUpper p ≤ (getLinp p k).lpOff) :
    pageIndexTupleDelete p (k + 1) = some (if pageIsEmpty (closedUp p n k) then closedUp p n k
      else pageIndexTupleDeleteAdjustLinePointers (closedUp p n k) (getLinp p k).lpOff
        (maxAlign (getLinp p k).lpLen) (pageGetMaxOffsetNumber (closedUp p n k)).toNat) := by
  have hnb : (pdLower p : Int) - ((8 + 4 * (k + 1) : Nat) : Int) =
      ((4 * (n - 1 - k) : Nat) : Int) := by omega
  have hh₁ : SameHeader p (closeUp p n k) :=
    sameHeader_of_bytes fun b hb => closeUp_outside p hk (by omega)
  have hh₂ := sameHeader_moves p (maxAlign (getLinp p k).lpLen) hk (by omega) hoff
  unfold pageIndexTupleDelete
  simp only [Nat.add_sub_cancel, linpOffset_eq]
  rw [hnb, Int.toNat_natCast, if_neg (by omega), ← closeUp, hh₁.upper, if_neg (by omega),
    ← moveUp, hh₂.upper, pdLower_setPdUpper, hh₂.lower, ← closedUp]

/-- The header and the body of the page before the offsets are patched. -/
theorem closedUp_spec {p : Page} {n k : Nat} (hv : Valid p n) (hk : k < n)
    (hu : (getLinp p k).used = true) :
    pdLower (closedUp p n k) = 8 + 4 * (n - 1) ∧
    pdUpper (closedUp p n k) = pdUpper p + maxAlign (getLinp p k).lpLen ∧
    pdSpecial (closedUp p n k) = pdSpecial p ∧
    ∀ b, 8 ≤ b → closedUp p n k b = moveUp (closeUp p n k) (pdUpper p) (getLinp p k).lpOff
      (maxAlign (getLinp p k).lpLen) b := by
  have hB : BLCKSZ = 8192 := rfl
  have hlower := hv.lower
  have hroom := hv.room
  have hspecial := hv.special_le
  have hin := hv.inside k hk hu
  have hfit : pdUpper p + maxAlign (getLinp p k).lpLen < 2 ^ 16 := by
    unfold ItemIdData.extentEnd at hin
    omega
  refine ⟨?_, ?_, ?_, ?_⟩
  · simp only [closedUp, pdLower_setPdLower, SIZEOF_ITEM_ID_DATA, hlower]
    omega
  · simp only [closedUp, pdUpper_setPdLower, pdUpper_setPdUpper, Nat.mod_eq_of_lt hfit]
  · have hh := sameHeader_moves p (maxAlign (getLinp p k).lpLen) hk (by omega) hin.1
    simp only [closedUp, pdSpecial_setPdLower, pdSpecial_setPdUpper]
    exact hh.special
  · intro b hb
    unfold closedUp
    rw [setPdLower_body _ _ hb, setPdUpper_body _ _ hb]

/-- Patching the offsets of the closed-up page gives the page without index `k`. -/
theorem deletedAt_adjust {p : Page} {n k : Nat} (hv : Valid p n) (hk : k < n)
    (hu : (getLinp p k).used = true) :
    DeletedAt p (pageIndexTupleDeleteAdjustLinePointers (closedUp p n k) (getLinp p k).lpOff
      (maxAlign (getLinp p k).lpLen) (n - 1)) n k := by
  have hlower := hv.lower
  have hroom := hv.room
  have hin := hv.inside k hk hu
  have hsize : (getLinp p k).extentEnd = (getLinp p k).lpOff + maxAlign (getLinp p k).lpLen := rfl
  obtain ⟨hl, hup, hsp, hbody⟩ := closedUp_spec hv hk hu
  have hh := sameHeader_adjust (closedUp p n k) (getLinp p k).lpOff
    (maxAlign (getLinp p k).lpLen) (n - 1)
  refine ⟨hh.lower.trans hl, hh.upper.trans hup, hh.special.trans hsp, ?_, ?_, ?_⟩
  · intro i hi
    have hi₃ : getLinp (closedUp p n k) i = getLinp p (if i < k then i else i + 1) := by
      rw [← getLinp_closeUp p hk hi]
      apply getLinp_congr
      intro j hj
      rw [hbody _ (by omega)]
      exact moveUp_outside _ hin.1 (by omega)
    rw [getLinp_adjust, if_pos hi, hi₃]
  · intro b h1 h2
    rw [adjust_outside _ (by omega), hbody _ (by omega), moveUp_moved _ h1 h2]
    exact closeUp_outside p hk (by omega)
  · intro b hb
    rw [adjust_outside _ (by omega), hbody _ (by omega), moveUp_outside _ hin.1 (by omega)]
    exact closeUp_outside p hk (by omega)

/-- Deleting a used line pointer of a valid page succeeds, with this effect. -/
theorem deletedAt_of_valid {p : Page} {n k : Nat} (hv : Valid p n) (hk : k < n)
    (hu : (getLinp p k).used = true) :
    ∃ q, pageIndexTupleDelete p (k + 1) = some q ∧ DeletedAt p q n k := by
  have hd := deletedAt_adjust hv hk hu
  obtain ⟨hl, -, -, -⟩ := closedUp_spec hv hk hu
  have hmax : (pageGetMaxOffsetNumber (closedUp p n k)).toNat = n - 1 := by
    rw [pageGetMaxOffsetNumber_eq hl, Int.toNat_natCast]
  have hrun := pageIndexTupleDelete_eq hv.lower hk hv.room (hv.inside k hk hu).1
  rw [hmax] at hrun
  refine ⟨_, hrun, ?_⟩
  by_cases he : pageIsEmpty (closedUp p n k) = true
  · -- the last line pointer is gone: there is nothing to patch
    have hn : n - 1 = 0 := by
      simp only [pageIsEmpty, hl, SIZEOF_PAGE_HEADER_DATA, SIZEOF_ITEM_ID_DATA,
        decide_eq_true_eq] at he
      omega
    rw [hn] at hd
    rw [if_pos he]
    exact hd
  · rw [if_neg he]
    exact hd

/-! ## Deletion keeps the invariant -/

/-- A surviving item was either below the deleted one and moved up with its
offset, or above it and is where it was. -/
theorem shiftOff_cases {p : Page} {n k i : Nat} (hv : Valid p n) (hk : k < n) (hi : i < n)
    (hik : i ≠ k) (huk : (getLinp p k).used = true) (hui : (getLinp p i).used = true) :
    ((getLinp p i).extentEnd ≤ (getLinp p k).lpOff ∧
      (shiftOff (getLinp p k).lpOff (maxAlign (getLinp p k).lpLen) (getLinp p i)).trunc =
        { getLinp p i with lpOff := (getLinp p i).lpOff + maxAlign (getLinp p k).lpLen }) ∨
    ((getLinp p k).extentEnd ≤ (getLinp p i).lpOff ∧
      (shiftOff (getLinp p k).lpOff (maxAlign (getLinp p k).lpLen) (getLinp p i)).trunc =
        getLinp p i) := by
  have hB : BLCKSZ = 8192 := rfl
  have hsp := hv.special_le
  have hink := (hv.inside k hk huk).2
  have hf := fits_getLinp p i
  have hei := lt_extentEnd hf
  have hek : (getLinp p k).extentEnd = (getLinp p k).lpOff + maxAlign (getLinp p k).lpLen := rfl
  unfold shiftOff
  by_cases hle : (getLinp p i).lpOff ≤ (getLinp p k).lpOff
  · rw [if_pos hle]
    have hfits : ItemIdData.Fits
        { getLinp p i with lpOff := (getLinp p i).lpOff + maxAlign (getLinp p k).lpLen } :=
      ⟨show (getLinp p i).lpOff + maxAlign (getLinp p k).lpLen < 2 ^ 15 by omega, hf.flags, hf.len⟩
    rw [hfits.trunc_eq]
    rcases hv.apart i k hi hk hik hui huk with h | h
    · exact Or.inl ⟨h, rfl⟩
    · -- an empty deleted extent: nothing moves
      have hz : maxAlign (getLinp p k).lpLen = 0 := by omega
      exact Or.inr ⟨h, by rw [hz, Nat.add_zero]⟩
  · rw [if_neg hle, hf.trunc_eq]
    rcases hv.apart i k hi hk hik hui huk with h | h
    · exact absurd h (by omega)
    · exact Or.inr ⟨h, rfl⟩

/-- The line pointer a surviving index comes from. -/
theorem delete_source {n k i : Nat} (hk : k < n) (hi : i < n - 1) :
    (if i < k then i else i + 1) < n ∧ (if i < k then i else i + 1) ≠ k := by
  split <;> omega

theorem used_shiftOff (offset size : Nat) {id : ItemIdData} (h : id.Fits) :
    (shiftOff offset size id).trunc.used = id.used := by
  have hf := h.flags
  unfold shiftOff ItemIdData.used ItemIdData.trunc
  split <;> simp only [Nat.mod_eq_of_lt hf]

theorem valid_delete {p q : Page} {n k : Nat} (h : DeletedAt p q n k) (hv : Valid p n)
    (hk : k < n) (hu : (getLinp p k).used = true) : Valid q (n - 1) := by
  have hlower := hv.lower
  have hroom := hv.room
  have hin := hv.inside k hk hu
  have hek : (getLinp p k).extentEnd = (getLinp p k).lpOff + maxAlign (getLinp p k).lpLen := rfl
  have hup := h.upper
  have hlo := h.lower
  have hsp := h.special
  refine ⟨hlo, by omega, by omega, hsp ▸ hv.special_le, ?_, hsp ▸ hv.special_dvd, ?_, ?_⟩
  · rw [hup]
    exact Nat.dvd_add hv.upper_dvd (dvd_maxAlign _)
  · intro i hi hui
    obtain ⟨hlt, hne⟩ := delete_source hk hi
    rw [h.linps i hi] at hui ⊢
    rw [used_shiftOff _ _ (fits_getLinp p _)] at hui
    have hini := hv.inside _ hlt hui
    rcases shiftOff_cases hv hk hlt hne hu hui with ⟨hb, he⟩ | ⟨hb, he⟩
    · rw [he]
      unfold ItemIdData.extentEnd at hb hini ⊢
      dsimp only
      omega
    · rw [he]
      omega
  · intro i j hi hj hij hui huj
    obtain ⟨hlti, hnei⟩ := delete_source hk hi
    obtain ⟨hltj, hnej⟩ := delete_source hk hj
    have hne : (if i < k then i else i + 1) ≠ (if j < k then j else j + 1) := by
      split <;> split <;> omega
    rw [h.linps i hi] at hui ⊢
    rw [h.linps j hj] at huj ⊢
    rw [used_shiftOff _ _ (fits_getLinp p _)] at hui huj
    have hap := hv.apart _ _ hlti hltj hne hui huj
    rcases shiftOff_cases hv hk hlti hnei hu hui with ⟨hbi, hei⟩ | ⟨hbi, hei⟩ <;>
      rcases shiftOff_cases hv hk hltj hnej hu huj with ⟨hbj, hej⟩ | ⟨hbj, hej⟩ <;>
      rw [hei, hej] <;>
      simp only [ItemIdData.extentEnd] at hap hbi hbj ⊢ <;>
      omega

/-- A surviving item keeps its length and its bytes. -/
theorem itemBytes_delete {p q : Page} {n k i : Nat} (h : DeletedAt p q n k) (hv : Valid p n)
    (hk : k < n) (hu : (getLinp p k).used = true) (hi : i < n - 1)
    (hui : (getLinp p (if i < k then i else i + 1)).used = true) :
    itemBytes q (getLinp q i) = itemBytes p (getLinp p (if i < k then i else i + 1)) := by
  obtain ⟨hlt, hne⟩ := delete_source hk hi
  have hini := (hv.inside _ hlt hui).1
  have hend := lt_extentEnd (fits_getLinp p (if i < k then i else i + 1))
  rw [h.linps i hi]
  rcases shiftOff_cases hv hk hlt hne hu hui with ⟨hb, he⟩ | ⟨hb, he⟩
  · rw [he]
    apply slice_congr
    dsimp only
    intro j hj
    have hm := h.moved ((getLinp p (if i < k then i else i + 1)).lpOff + j) (by omega) (by omega)
    rw [← hm]
    congr 1
    omega
  · rw [he]
    exact itemBytes_congr (fits_getLinp p _) fun b h1 _ => h.above b (by omega)

/-- Deletion from the page is removal from the list. -/
theorem represents_delete {p q : Page} {k : Nat} {items : List (List UInt8)}
    (h : DeletedAt p q items.length k) (hr : Represents p items) (hk : k < items.length) :
    Represents q (items.eraseIdx k) := by
  have hlen : (items.eraseIdx k).length = items.length - 1 := List.length_eraseIdx_of_lt hk
  have hu := hr.used k hk
  have hsrc : ∀ i, i < items.length - 1 →
      (getLinp p (if i < k then i else i + 1)).used = true :=
    fun i hi => hr.used _ (delete_source hk hi).1
  refine ⟨?_, ?_, ?_, ?_⟩
  · rw [hlen]
    exact valid_delete h hr.valid hk hu
  · intro i hi
    rw [hlen] at hi
    rw [h.linps i hi, used_shiftOff _ _ (fits_getLinp p _)]
    exact hsrc i hi
  · intro i hi
    rw [hlen] at hi
    obtain ⟨hlt, hne⟩ := delete_source hk hi
    have hpos := hr.nonempty _ hlt
    rw [h.linps i hi]
    rcases shiftOff_cases hr.valid hk hlt hne hu (hsrc i hi) with ⟨-, he⟩ | ⟨-, he⟩ <;>
      rw [he] <;>
      exact hpos
  · intro i hi
    rw [hlen] at hi
    rw [itemBytes_delete h hr.valid hk hu hi (hsrc i hi),
      hr.contents _ (delete_source hk hi).1, List.getElem_eraseIdx]
    by_cases hik : i < k
    · simp only [if_pos hik, dif_pos hik]
    · simp only [if_neg hik, dif_neg hik]

end PostgresV7.Bufpage
