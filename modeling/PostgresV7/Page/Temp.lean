import PostgresV7.Page.Space

/-!
# The special space, and temporary pages (`bufpage.c`)

No operation on a page changes its size or its special space. So a page that is built anew in a
temporary page and copied back has the special space it had.
-/

namespace PostgresV7.Bufpage

open ByteMem Runs

/-- `PAGE_GET_PAGE_SIZE`. -/
def pageGetPageSize (page : Page) : Nat := load page 6 2

/-- `PAGE_GET_SPECIAL_SIZE`. -/
def pageGetSpecialSize (page : Page) : Nat := (pageGetPageSize page + 2 ^ 64 - pdSpecial page) % 2 ^ 16

/-- `page_get_temp_page`. `palloc` returns a page with arbitrary bytes `raw`. -/
def pageGetTempPage (raw page : Page) (specialSize : Nat) : Page :=
  let pageSize := pageGetPageSize page
  let temp := write raw 0 pageSize page
  let size := (pageSize + 2 ^ 64 - SIZEOF_PAGE_HEADER_DATA + SIZEOF_ITEM_ID_DATA) % 2 ^ 64
  let size := (size + 2 ^ 64 - maxAlign specialSize) % 2 ^ 64
  let temp := write temp (linpOffset 0) size fun _ => 0
  let temp := setPdLower temp (SIZEOF_PAGE_HEADER_DATA - SIZEOF_ITEM_ID_DATA)
  setPdUpper temp ((pageSize + 2 ^ 64 - maxAlign specialSize) % 2 ^ 64)

/-- `page_restore_temp_page`: the old page afterwards. -/
def pageRestoreTempPage (tempPage oldPage : Page) : Page := write oldPage 0 (pageGetPageSize tempPage) tempPage

/-! ## The special space -/

/-- The place of the special space, the page size and the special space are as before. -/
def Framed (p q : Page) : Prop := ∀ b, 4 ≤ b → b < 8 ∨ pdSpecial p ≤ b → q b = p b

theorem Framed.special {p q : Page} (h : Framed p q) : pdSpecial q = pdSpecial p :=
  load_congr fun _ _ => h _ (by omega) (Or.inl (by omega))

theorem Framed.pageSize {p q : Page} (h : Framed p q) : pageGetPageSize q = pageGetPageSize p :=
  load_congr fun _ _ => h _ (by omega) (Or.inl (by omega))

theorem Framed.refl (p : Page) : Framed p p := fun _ _ _ => rfl

theorem Framed.trans {p q r : Page} (h : Framed p q) (h' : Framed q r) : Framed p r := fun b h4 hb =>
  (h' b h4 (h.special ▸ hb)).trans (h b h4 hb)

theorem setPdLower_outside (p : Page) (v : Nat) {b : Nat} (h : 2 ≤ b) : setPdLower p v b = p b :=
  store_outside p 0 2 v (by omega)

theorem setPdUpper_outside (p : Page) (v : Nat) {b : Nat} (h : 4 ≤ b) : setPdUpper p v b = p b :=
  store_outside p 2 2 v (by omega)

variable {p q : Page} {items : List (List UInt8)}

/-- `placeItem` leaves what is between `pd_upper` and the line pointers. -/
theorem placeItem_opaque {item : Nat → UInt8} {size offsetNum limit flags b : Nat} {shuffled : Bool}
    (hlower : 8 ≤ pdLower p) (h4 : 4 ≤ b) (hb : b < 8) :
    (placeItem p item size offsetNum limit shuffled flags).2 b = p b := by
  have hlow : (8 : Int) ≤ if limit < offsetNum then (linpOffset offsetNum : Int)
      else if offsetNum = limit ∨ shuffled = true then (pdLower p + SIZEOF_ITEM_ID_DATA : Int) else pdLower p := by
    unfold SIZEOF_ITEM_ID_DATA
    rw [linpOffset_eq]
    split
    · omega
    · split <;> omega
  unfold placeItem
  dsimp only
  generalize (if limit < offsetNum then (linpOffset offsetNum : Int)
    else if offsetNum = limit ∨ shuffled = true then (pdLower p + SIZEOF_ITEM_ID_DATA : Int)
    else pdLower p) = lower at hlow ⊢
  split
  · rfl
  · dsimp only
    rw [setPdUpper_outside _ _ h4, setPdLower_outside _ _ (by omega), write_outside _ _ _ _ (by omega)]
    exact setLinp_outside p _ _ (by omega)

theorem pageAddItem_opaque {mode : Bool} {item : Nat → UInt8} {size offsetNum flags r b : Nat}
    (ha : pageAddItem mode p item size offsetNum flags = .ok (r, q)) (hlower : 8 ≤ pdLower p) (h4 : 4 ≤ b)
    (hb : b < 8) : q b = p b := by
  unfold pageAddItem at ha
  dsimp only at ha
  split at ha
  · split at ha
    · have hsame := sameHeader_shuffleLinp p offsetNum (offsetNumberNext (pageGetMaxOffsetNumber p) - offsetNum)
      have hq : _ = q := congrArg Prod.snd (Except.ok.inj ha)
      rw [← hq, placeItem_opaque (hsame.lower ▸ hlower) h4 hb]
      exact shuffleLinp_outside p (by omega)
    · split at ha
      · cases ha
      · have hq : _ = q := congrArg Prod.snd (Except.ok.inj ha)
        rw [← hq]
        exact placeItem_opaque hlower h4 hb
  · have hq : _ = q := congrArg Prod.snd (Except.ok.inj ha)
    rw [← hq]
    exact placeItem_opaque hlower h4 hb

theorem framed_delete {n k : Nat} (hv : Valid p n) (hk : k < n) (hu : (getLinp p k).used = true)
    (hq : pageIndexTupleDelete p (k + 1) = some q) : Framed p q := by
  intro b h4 hb
  have hin := hv.inside k hk hu
  have hlower := hv.lower
  have hroom := hv.room
  by_cases h8 : b < 8
  · rw [pageIndexTupleDelete_eq hv.lower hk hroom hin.1] at hq
    have hclosed : closedUp p n k b = p b := by
      unfold closedUp
      rw [setPdLower_outside _ _ (by omega), setPdUpper_outside _ _ h4, moveUp_outside _ hin.1 (by omega)]
      exact closeUp_outside p hk (Or.inl h8)
    rw [← Option.some.inj hq]
    split
    · exact hclosed
    · rw [adjust_outside _ (Or.inl h8), hclosed]
  · obtain ⟨q', hq', hd⟩ := deletedAt_of_valid hv hk hu
    obtain rfl := Option.some.inj (hq'.symm.trans hq)
    exact hd.above b (hin.2.trans (hb.resolve_left h8))

theorem framed_compactOne {c : Page} {n : Nat} {e : ItemIdSortData} {l : List ItemIdSortData}
    (h : Compacting p c n (e :: l)) (hv : Valid p n) : Framed c (compactOne c e) := by
  intro b h4 hb
  have hcomp := h.compactedAt hv
  have hlower := hv.lower
  have hroom := hv.room
  have hupper := hv.upper_le
  have hin := h.upper_le
  by_cases h8 : b < 8
  · -- the item goes behind the line pointers, as it came from there
    obtain ⟨hk, hu, hc, hp, hend⟩ := h.pending e List.mem_cons_self
    have hlow := (hv.inside e.offsetIndex hk (hp ▸ hu)).1
    have hspecial := hv.special_le
    have hB : BLCKSZ = 8192 := rfl
    unfold ItemIdData.extentEnd at hend
    rw [hp] at hlow
    have hwrap : Int.bmod ((pdUpper c : Int) - maxAlign (getLinp c e.offsetIndex).lpLen) (2 ^ 32) =
        (pdUpper c : Int) - maxAlign (getLinp c e.offsetIndex).lpLen := by
      rw [hc]
      exact Int.bmod_eq_of_le (by omega) (by omega)
    unfold compactOne
    dsimp only
    rw [hwrap, setPdUpper_outside _ _ h4, setLinp_outside _ _ _ (by omega),
      copy_outside _ _ _ _ (by rw [hc]; omega)]
  · have hspecial := hb.resolve_left h8
    rw [h.special] at hspecial
    exact hcomp.outside b (by omega) (Or.inr (h.upper_le.trans hspecial))

theorem framed_foldl {n : Nat} (hv : Valid p n) (l : List ItemIdSortData)
    (hnodup : (l.map ItemIdSortData.offsetIndex).Nodup)
    (hsorted : l.Pairwise fun a b => b.itemidData.lpOff ≤ a.itemidData.lpOff) (c : Page)
    (h : Compacting p c n l) : Framed c (l.foldl compactOne c) := by
  induction l generalizing c with
  | nil => exact Framed.refl c
  | cons e l ih =>
    rw [List.map_cons, List.nodup_cons] at hnodup
    rw [List.pairwise_cons] at hsorted
    exact (framed_compactOne h hv).trans
      (ih hnodup.2 hsorted.2 _ (compacting_step h hv hnodup.1 hsorted.1))

theorem framed_repair {n : Nat} (hv : Valid p n) : Framed p (pageRepairFragmentation p) := by
  have hq := sorts_mergeSort
  have hlower := hv.lower
  have hroom := hv.room
  have hupper := hv.upper_le
  have hstart : Framed p (setPdUpper (collectUsed p n 0).1 (pdSpecial p)) := by
    intro b h4 hb
    rw [setPdUpper_outside _ _ h4]
    exact (collectUsed_spec p n 0).1 b (by omega)
  have hfold := framed_foldl hv _ ((nodup_sorted (p := p) (n := n) hq).nodup_iff.mpr
    (List.Nodup.filter _ List.nodup_range')) ((hq.sorted _).imp fun {a b} h => (itemidCompare_le a b).mp h) _
    (compacting_start hv (hq.perm _))
  rw [← pageRepairFragmentationBy_eq hv.lower hq] at hfold
  exact hstart.trans hfold

/-- A call on a page keeps its size and its special space. -/
theorem framed_step {op : PageOp} (hr : Represents p items) (hs : PageStep p op q) : Framed p q := by
  obtain ⟨hpre, hrun⟩ := hs
  have hlower := hr.valid.lower
  cases op with
  | addItem item offsetNum =>
    obtain ⟨hpos, hmax, hoff⟩ := hpre
    rw [hr.maxOffset] at hoff
    simp only [PageOp.run] at hrun
    cases ha : pageAddItem true p (fun i => item.getD i 0) item.length offsetNum LP_USED with
    | error e =>
      rw [ha] at hrun
      cases hrun
    | ok res =>
      obtain ⟨r, q'⟩ := res
      rw [ha] at hrun
      dsimp only at hrun
      by_cases hr0 : r = INVALID_OFFSET_NUMBER
      · rw [if_pos hr0] at hrun
        cases hrun
      · rw [if_neg hr0] at hrun
        obtain rfl := Option.some.inj hrun
        have hadd := addedAt_of_pageAddItem ha hr0 hr.valid.lower hr.valid.room hr.valid.pdUpper_le hr.used
          (fun h => by have := hoff h; omega) hpos hmax
        intro b h4 hb
        by_cases h8 : b < 8
        · exact pageAddItem_opaque ha (by omega) h4 h8
        · exact hadd.above b (hr.valid.upper_le.trans (hb.resolve_left h8))
  | indexTupleDelete offsetNum =>
    obtain ⟨h1, h2⟩ := hpre
    rw [hr.maxOffset] at h2
    have hk : offsetNum - 1 < items.length := by omega
    refine framed_delete hr.valid hk (hr.used _ hk) ?_
    rw [Nat.sub_add_cancel h1]
    exact hrun
  | repairFragmentation =>
    rw [← Option.some.inj hrun]
    exact framed_repair hr.valid

theorem run_framed {ops : List PageOp} (hr : Represents p items) (hrun : Run PageStep p ops q) :
    Represents q (ops.foldl PageOp.apply items) ∧ Framed p q := by
  induction hrun generalizing items with
  | nil p => exact ⟨hr, Framed.refl p⟩
  | cons hstep _ ih =>
    obtain ⟨hrep, hframe⟩ := ih (represents_step hr hstep)
    exact ⟨hrep, (framed_step hr hstep).trans hframe⟩

/-! ## Runs of a page from `page_init` on -/

theorem page_init_sizes {raw : Page} {specialSize : Nat} (hinit : pageInit raw BLCKSZ specialSize = some p) :
    pageGetPageSize p = BLCKSZ ∧ pageGetSpecialSize p = maxAlign specialSize ∧
      maxAlign specialSize ≤ BLCKSZ := by
  have hB : BLCKSZ = 8192 := rfl
  unfold pageInit at hinit
  obtain ⟨⟨-, hs⟩, hp⟩ := Option.ite_none_right_eq_some.mp hinit
  simp only [SIZEOF_PAGE_HEADER_DATA, SIZEOF_ITEM_ID_DATA] at hs
  have hle : maxAlign specialSize ≤ BLCKSZ := by
    unfold maxAlign typeAlign MAX_ALIGNOF
    omega
  have hsize : pageGetPageSize p = BLCKSZ := by
    rw [← Option.some.inj hp]
    exact load_store _ 6 2 _
  have hspecial : pdSpecial p = (BLCKSZ + 2 ^ 64 - maxAlign specialSize) % 2 ^ 64 % 2 ^ 16 := by
    rw [← Option.some.inj hp, pdSpecial_pageSetPageSize, pdSpecial_setPdSpecial]
  refine ⟨hsize, ?_, hle⟩
  unfold pageGetSpecialSize
  rw [hsize, hspecial]
  omega

/-- What a page holds is in its `BLCKSZ` bytes. -/
theorem Represents.congr (hr : Represents p items) (hq : ∀ b < BLCKSZ, q b = p b) : Represents q items := by
  have hB : BLCKSZ = 8192 := rfl
  have hroom := hr.valid.room
  have hupper := hr.valid.upper_le
  have hspecial := hr.valid.special_le
  have hlower := hr.valid.lower
  have hh : SameHeader p q := sameHeader_of_bytes fun b hb => hq b (by omega)
  have hlinp : ∀ i < items.length, getLinp q i = getLinp p i :=
    fun i hi => getLinp_congr fun k hk => hq _ (by omega)
  constructor
  · constructor
    · exact hh.lower.trans hr.valid.lower
    · exact hh.lower ▸ hh.upper ▸ hroom
    · exact hh.special ▸ hh.upper ▸ hupper
    · exact hh.special ▸ hspecial
    · exact hh.upper ▸ hr.valid.upper_dvd
    · exact hh.special ▸ hr.valid.special_dvd
    · intro i hi
      rw [hlinp i hi, hh.upper, hh.special]
      exact hr.valid.inside i hi
    · intro i j hi hj
      rw [hlinp i hi, hlinp j hj]
      exact hr.valid.apart i j hi hj
  · intro i hi
    rw [hlinp i hi]
    exact hr.used i hi
  · intro i hi
    rw [hlinp i hi]
    exact hr.nonempty i hi
  · intro i hi
    have hend := (hr.valid.inside i hi (hr.used i hi)).2
    rw [hlinp i hi, ← hr.contents i hi]
    exact itemBytes_congr (fits_getLinp p i) fun b _ hb => hq b (by omega)

/-- The temporary page is empty, and like the old page otherwise. -/
theorem temp_page_empty {specialSize : Nat} (raw : Page) (hv : Valid p items.length)
    (hsize : pageGetPageSize p = BLCKSZ) (hs : maxAlign specialSize = pageGetSpecialSize p) :
    Represents (pageGetTempPage raw p specialSize) [] ∧
      ∀ b < BLCKSZ, 4 ≤ b → b < 8 ∨ pdSpecial p ≤ b → pageGetTempPage raw p specialSize b = p b := by
  have hB : BLCKSZ = 8192 := rfl
  have hlower := hv.lower
  have hroom := hv.room
  have hupper := hv.upper_le
  have hspecial := hv.special_le
  have hm : maxAlign specialSize = 8192 - pdSpecial p := by
    unfold pageGetSpecialSize at hs
    rw [hs, hsize]
    omega
  have hmiddle : ((8192 + 2 ^ 64 - 12 + 4) % 2 ^ 64 + 2 ^ 64 - maxAlign specialSize) % 2 ^ 64 =
      pdSpecial p - 8 := by omega
  have htop : (8192 + 2 ^ 64 - maxAlign specialSize) % 2 ^ 64 = pdSpecial p := by omega
  have hkeep : ∀ b < BLCKSZ, 4 ≤ b → b < 8 ∨ pdSpecial p ≤ b → pageGetTempPage raw p specialSize b = p b := by
    intro b hlt h4 hb
    unfold pageGetTempPage SIZEOF_PAGE_HEADER_DATA SIZEOF_ITEM_ID_DATA
    rw [hsize, hB, hmiddle, setPdUpper_outside _ _ h4, setPdLower_outside _ _ (by omega),
      write_outside _ _ _ _ (by rw [linpOffset_eq]; omega), ← Nat.zero_add b, write_inside _ _ _ _ (by omega),
      Nat.zero_add]
  refine ⟨?_, hkeep⟩
  have hq : pdSpecial (pageGetTempPage raw p specialSize) = pdSpecial p :=
    load_congr fun i _ => hkeep _ (by omega) (by omega) (.inl (by omega))
  have hl : pdLower (pageGetTempPage raw p specialSize) = 8 := by
    unfold pageGetTempPage
    dsimp only
    rw [pdLower_setPdUpper, pdLower_setPdLower]
    rfl
  have hu : pdUpper (pageGetTempPage raw p specialSize) = pdSpecial p := by
    unfold pageGetTempPage
    dsimp only
    rw [pdUpper_setPdUpper, hsize, hB, htop, Nat.mod_eq_of_lt (by omega)]
  have hnone : ∀ i, ¬ i < ([] : List (List UInt8)).length := fun _ => Nat.not_lt_zero _
  refine ⟨⟨hl, by omega, by omega, by omega, ?_, ?_, fun i hi => (hnone i hi).elim,
    fun i _ hi => (hnone i hi).elim⟩, fun i hi => (hnone i hi).elim, fun i hi => (hnone i hi).elim,
    fun i hi => (hnone i hi).elim⟩
  · rw [hu]
    exact hv.special_dvd
  · rw [hq]
    exact hv.special_dvd

end PostgresV7.Bufpage
