import PostgresV7.Page.Run

/-!
# Room on a page (`bufpage.c`)

What `page_add_item` decides before it writes: the line pointer it takes, the new
`pd_lower`, and whether it refuses the item. `page_get_free_space` counts the same
room, and `page_init` leaves some unless the special space takes it all.
-/

namespace PostgresV7.Bufpage

open ByteMem Align

variable {p q : Page} {mode : Bool} {item : Nat → UInt8} {size offsetNum flags n : Nat}

/-! ## The decisions of `page_add_item` -/

/-- The offset number the item gets, if it is not refused. -/
def chosenOffset (page : Page) (offsetNum n : Nat) : Nat :=
  if offsetNumberIsValid offsetNum then offsetNum else findRecyclable page n 1

/-- Line pointers are shuffled for a valid offset number, in shuffle mode. -/
def shuffles (mode : Bool) (offsetNum : Nat) : Bool := mode && offsetNumberIsValid offsetNum

/-- The page when the space is checked. -/
def prepared (mode : Bool) (page : Page) (offsetNum n : Nat) : Page :=
  if shuffles mode offsetNum then shuffleLinp page offsetNum (n + 1 - offsetNum) else page

/-- In overwrite mode a line pointer in use is not overwritten. -/
def Overwrites (mode : Bool) (page : Page) (offsetNum : Nat) : Prop :=
  mode = false ∧ offsetNumberIsValid offsetNum = true ∧
    ((getLinp page (offsetNum - 1)).used = true ∨ (getLinp page (offsetNum - 1)).lpLen ≠ 0)

/-- `pd_lower` after the item is added. -/
def lowerAfter (mode : Bool) (page : Page) (offsetNum n : Nat) : Nat :=
  if n + 1 < chosenOffset page offsetNum n then linpOffset (chosenOffset page offsetNum n)
  else if chosenOffset page offsetNum n = n + 1 ∨ shuffles mode offsetNum = true then
    pdLower page + SIZEOF_ITEM_ID_DATA
  else pdLower page

/-- The item does not fit between the two: as it should be, or because `upper` comes
out negative, or because it wraps around to a value below `lower`. -/
def DoesNotFit (lower upper size : Nat) : Prop :=
  ((upper : Int) - lower < (maxAlign size % 2 ^ 32 : Nat) ∧
    (maxAlign size % 2 ^ 32 : Nat) ≤ (2 ^ 31 + upper : Int)) ∨
  (2 ^ 32 + upper : Int) - lower < (maxAlign size % 2 ^ 32 : Nat)

theorem doesNotFit_iff {lower upper : Nat} (hupper : upper ≤ BLCKSZ) :
    (lower : Int) > Int.bmod ((upper : Int) - maxAlign size) (2 ^ 32) ↔ DoesNotFit lower upper size := by
  have hB : BLCKSZ = 8192 := rfl
  unfold DoesNotFit
  generalize maxAlign size = m
  rw [Int.bmod_def]
  split <;> omega

/-- The page with the item in place. -/
def filled (page : Page) (item : Nat → UInt8) (size offsetNum lower upper flags : Nat) : Page :=
  setPdUpper (setPdLower (write (setLinp page (offsetNum - 1) ⟨upper, flags, size⟩) upper size item)
    lower) upper

theorem sameHeader_prepared (mode : Bool) (p : Page) (offsetNum n : Nat) :
    SameHeader p (prepared mode p offsetNum n) := by
  unfold prepared
  split
  · exact sameHeader_shuffleLinp p _ _
  · exact ⟨rfl, rfl, rfl⟩

/-- The value of `upper`, where it is compared with `lower`. -/
def upperAfter (page : Page) (size : Nat) : Nat :=
  (Int.bmod ((pdUpper page : Int) - maxAlign size) (2 ^ 32)).toNat

/-- The item is refused. -/
def Refuses (mode : Bool) (page : Page) (size offsetNum n : Nat) : Prop :=
  (lowerAfter mode page offsetNum n : Int) > Int.bmod ((pdUpper page : Int) - maxAlign size) (2 ^ 32)

instance (mode : Bool) (page : Page) (size offsetNum n : Nat) :
    Decidable (Refuses mode page size offsetNum n) := inferInstanceAs (Decidable (_ > _))

/-- Everything `page_add_item` does on a page of `n` line pointers. -/
theorem pageAddItem_cases (mode : Bool) (item : Nat → UInt8) (size offsetNum flags : Nat)
    (hlower : pdLower p = 8 + 4 * n) (hn : n + 1 < 2 ^ 16) :
    (Overwrites mode p offsetNum ∧ ∃ e, pageAddItem mode p item size offsetNum flags = .error e) ∨
    (¬ Overwrites mode p offsetNum ∧ Refuses mode p size offsetNum n ∧
      pageAddItem mode p item size offsetNum flags =
        .ok (INVALID_OFFSET_NUMBER, prepared mode p offsetNum n)) ∨
    (¬ Overwrites mode p offsetNum ∧ ¬ Refuses mode p size offsetNum n ∧
      pageAddItem mode p item size offsetNum flags =
        .ok (chosenOffset p offsetNum n, filled (prepared mode p offsetNum n) item size
          (chosenOffset p offsetNum n) (lowerAfter mode p offsetNum n) (upperAfter p size) flags)) := by
  have hnext : offsetNumberNext (pageGetMaxOffsetNumber p) = n + 1 := by
    rw [pageGetMaxOffsetNumber_eq hlower, offsetNumberNext_natCast hn]
  have hsame := sameHeader_prepared mode p offsetNum n
  -- after the choice of the line pointer all three ways are one
  have hplace : placeItem (prepared mode p offsetNum n) item size (chosenOffset p offsetNum n) (n + 1)
      (shuffles mode offsetNum) flags =
      if Refuses mode p size offsetNum n then
        (INVALID_OFFSET_NUMBER, prepared mode p offsetNum n)
      else (chosenOffset p offsetNum n, filled (prepared mode p offsetNum n) item size
        (chosenOffset p offsetNum n) (lowerAfter mode p offsetNum n) (upperAfter p size) flags) := by
    have hlow : (if n + 1 < chosenOffset p offsetNum n then
          (linpOffset (chosenOffset p offsetNum n) : Int)
        else if chosenOffset p offsetNum n = n + 1 ∨ shuffles mode offsetNum = true then
          (pdLower p + SIZEOF_ITEM_ID_DATA : Int)
        else pdLower p) = (lowerAfter mode p offsetNum n : Int) := by
      unfold lowerAfter
      split
      · rfl
      · split <;> rfl
    unfold placeItem
    rw [hsame.lower, hsame.upper, hlow]
    rfl
  have hfinal : Overwrites mode p offsetNum ∧ (∃ e, pageAddItem mode p item size offsetNum flags = .error e) ∨
      ¬ Overwrites mode p offsetNum ∧ pageAddItem mode p item size offsetNum flags =
        .ok (placeItem (prepared mode p offsetNum n) item size (chosenOffset p offsetNum n) (n + 1)
          (shuffles mode offsetNum) flags) := by
    unfold pageAddItem prepared chosenOffset shuffles Overwrites
    rw [hnext]
    cases hvalid : offsetNumberIsValid offsetNum with
    | false =>
      rw [Bool.and_false]
      exact .inr ⟨(fun h => nomatch h.2.1), rfl⟩
    | true =>
      cases mode with
      | true => exact .inr ⟨(fun h => nomatch h.1), rfl⟩
      | false =>
        by_cases hused : (getLinp p (offsetNum - 1)).used = true ∨ (getLinp p (offsetNum - 1)).lpLen ≠ 0
        · exact .inl ⟨⟨rfl, rfl, hused⟩, _, if_pos hused⟩
        · exact .inr ⟨fun h => hused h.2.2, if_neg hused⟩
  rcases hfinal with herror | ⟨hover, heq⟩
  · exact .inl herror
  · rw [hplace] at heq
    by_cases hfit : Refuses mode p size offsetNum n
    · rw [if_pos hfit] at heq
      exact .inr (.inl ⟨hover, hfit, heq⟩)
    · rw [if_neg hfit] at heq
      exact .inr (.inr ⟨hover, hfit, heq⟩)

/-- The same on a page in order, where refusal is a matter of room. -/
theorem pageAddItem_eq (mode : Bool) (item : Nat → UInt8) (size offsetNum flags : Nat)
    (hlower : pdLower p = 8 + 4 * n) (hupper : pdUpper p ≤ BLCKSZ) (hn : n + 1 < 2 ^ 16) :
    (Overwrites mode p offsetNum ∧ ∃ e, pageAddItem mode p item size offsetNum flags = .error e) ∨
    (¬ Overwrites mode p offsetNum ∧ DoesNotFit (lowerAfter mode p offsetNum n) (pdUpper p) size ∧
      pageAddItem mode p item size offsetNum flags =
        .ok (INVALID_OFFSET_NUMBER, prepared mode p offsetNum n)) ∨
    (¬ Overwrites mode p offsetNum ∧ ¬ DoesNotFit (lowerAfter mode p offsetNum n) (pdUpper p) size ∧
      pageAddItem mode p item size offsetNum flags =
        .ok (chosenOffset p offsetNum n, filled (prepared mode p offsetNum n) item size
          (chosenOffset p offsetNum n) (lowerAfter mode p offsetNum n) (upperAfter p size) flags)) := by
  have hcases := pageAddItem_cases mode item size offsetNum flags hlower hn
  unfold Refuses at hcases
  rwa [doesNotFit_iff hupper] at hcases

/-! ## The line pointer that is chosen -/

/-- A line pointer that may be given to a new item. -/
def Recyclable (page : Page) (i : Nat) : Prop :=
  (getLinp page i).used = false ∧ (getLinp page i).lpLen = 0

theorem findRecyclable_le (p : Page) (k o : Nat) : o ≤ findRecyclable p k o ∧ findRecyclable p k o ≤ o + k := by
  induction k generalizing o with
  | zero => exact ⟨Nat.le_refl o, Nat.le_refl o⟩
  | succ k ih =>
    have hnext := ih (o + 1)
    unfold findRecyclable
    dsimp only
    split <;> omega

/-- The search stops at a recyclable line pointer or at the end. -/
theorem findRecyclable_spec (p : Page) {k o : Nat} (ho : 0 < o) :
    findRecyclable p k o = o + k ∨ Recyclable p (findRecyclable p k o - 1) := by
  induction k generalizing o with
  | zero => exact .inl rfl
  | succ k ih =>
    unfold findRecyclable
    dsimp only
    split
    · rename_i hrec
      exact .inr hrec
    · rcases ih (Nat.succ_pos o) with hend | hrec
      · left
        rw [hend]
        omega
      · exact .inr hrec

theorem chosenOffset_pos (p : Page) (offsetNum n : Nat) : 1 ≤ chosenOffset p offsetNum n := by
  unfold chosenOffset
  split
  · rename_i hvalid
    exact offsetNumber_pos hvalid
  · exact (findRecyclable_le p n 1).1

theorem chosenOffset_le (p : Page) (offsetNum n : Nat) :
    chosenOffset p offsetNum n ≤ max (n + 1) MAX_OFFSET_NUMBER := by
  unfold chosenOffset
  split
  · rename_i hvalid
    simp only [offsetNumberIsValid, Bool.and_eq_true, decide_eq_true_eq] at hvalid
    exact Nat.le_trans hvalid.2 (Nat.le_max_right _ _)
  · have hle := (findRecyclable_le p n 1).2
    omega

/-- The line pointer of the item is below the new `pd_lower`. -/
theorem chosen_lt_lowerAfter (mode : Bool) (offsetNum : Nat) (hlower : pdLower p = 8 + 4 * n) :
    8 + 4 * chosenOffset p offsetNum n ≤ lowerAfter mode p offsetNum n ∧
      pdLower p ≤ lowerAfter mode p offsetNum n := by
  unfold lowerAfter SIZEOF_ITEM_ID_DATA
  rw [linpOffset_eq]
  split
  · omega
  · split
    · omega
    · omega

theorem lowerAfter_le (mode : Bool) (offsetNum : Nat) (hlower : pdLower p = 8 + 4 * n) (hn : n ≤ 2046) :
    lowerAfter mode p offsetNum n ≤ 8200 := by
  have hle := chosenOffset_le p offsetNum n
  have hmax : MAX_OFFSET_NUMBER = 2048 := rfl
  unfold lowerAfter SIZEOF_ITEM_ID_DATA
  rw [linpOffset_eq]
  split
  · omega
  · split <;> omega

/-- An item that fits on a page at all is refused just when there is too little room. -/
theorem doesNotFit_of_le (upper : Nat) {lower : Nat} (hlower : lower ≤ 8200) (hsize : size ≤ BLCKSZ) :
    DoesNotFit lower upper size ↔ upper < lower + maxAlign size := by
  have hB : BLCKSZ = 8192 := rfl
  have hlt := maxAlign_lt (n := size) (by omega)
  have hmod : maxAlign size % 2 ^ 32 = maxAlign size := Nat.mod_eq_of_lt (by omega)
  unfold DoesNotFit
  rw [hmod]
  omega

theorem Valid.lineCount_le (hv : Valid p n) : n ≤ 2046 := by
  have hB : BLCKSZ = 8192 := rfl
  have h1 := hv.lower
  have h2 := hv.room
  have h3 := hv.upper_le
  have h4 := hv.special_le
  omega

theorem Valid.pdUpper_le (hv : Valid p n) : pdUpper p ≤ BLCKSZ := hv.upper_le.trans hv.special_le

/-! ## The free space of a page -/

theorem pageGetFreeSpace_eq (hv : Valid p n) : pageGetFreeSpace p = pdUpper p - pdLower p - 4 := by
  have hroom := hv.room
  have hupper := pdUpper_lt p
  have hspace : (pdUpper p + 2 ^ 64 - pdLower p) % 2 ^ 64 = pdUpper p - pdLower p := by omega
  unfold pageGetFreeSpace SIZEOF_ITEM_ID_DATA
  rw [hspace]
  dsimp only
  split <;> omega

/-- `page_get_free_space` tells which items `page_add_item` takes, if it has to make a
line pointer for them. -/
theorem page_get_free_space_iff (hv : Valid p n) (hnone : ∀ i < n, ¬ Recyclable p i)
    (hpos : 1 ≤ size) (hsize : size ≤ BLCKSZ) (hoff : offsetNumberIsValid offsetNum = false) :
    maxAlign size ≤ pageGetFreeSpace p ↔
      ∃ r q, pageAddItem true p item size offsetNum flags = .ok (r, q) ∧ r ≠ INVALID_OFFSET_NUMBER := by
  have hn := hv.lineCount_le
  have hchosen : chosenOffset p offsetNum n = n + 1 := by
    unfold chosenOffset
    rw [if_neg (by rw [hoff]; exact Bool.false_ne_true)]
    rcases findRecyclable_spec p (k := n) (o := 1) Nat.one_pos with hend | hrec
    · omega
    · by_contra hne
      have hrange := findRecyclable_le p n 1
      exact hnone _ (by omega) hrec
  have hlow : lowerAfter true p offsetNum n = pdLower p + 4 := by
    unfold lowerAfter
    rw [hchosen, if_neg (Nat.lt_irrefl _), if_pos (.inl rfl)]
    rfl
  have hfit := doesNotFit_of_le (pdUpper p) (lowerAfter_le true offsetNum hv.lower hn) hsize
  have hmul := dvd_maxAlign size
  have hge := le_maxAlign (n := size) (by have hB : BLCKSZ = 8192 := rfl; omega)
  rw [pageGetFreeSpace_eq hv]
  rcases pageAddItem_eq true item size offsetNum flags hv.lower hv.pdUpper_le (by omega) with
    hcase | hcase | hcase
  · exact absurd hcase.1.1 (by decide)
  · obtain ⟨-, hno, heq⟩ := hcase
    rw [hfit, hlow] at hno
    refine iff_of_false (by omega) ?_
    rintro ⟨r, q, hq, hr⟩
    rw [heq] at hq
    exact hr (Prod.mk.inj (Except.ok.inj hq)).1.symm
  · obtain ⟨-, hyes, heq⟩ := hcase
    rw [hfit, hlow] at hyes
    refine iff_of_true (by omega) ⟨_, _, heq, ?_⟩
    rw [hchosen]
    exact Nat.succ_ne_zero n

/-- A page with one item takes another one of three bytes. -/
theorem page_get_free_space_iff_example :
    ∃ p, Valid p 1 ∧ (maxAlign 3 ≤ pageGetFreeSpace p ↔ ∃ r q,
      pageAddItem true p (fun _ => 7) 3 0 LP_USED = .ok (r, q) ∧ r ≠ INVALID_OFFSET_NUMBER) := by
  obtain ⟨p, hr⟩ : ∃ p, Represents p [[9]] := by
    obtain ⟨p₀, p, hinit, hroom, hstep⟩ : ∃ p₀ p, pageInit (fun _ => 0) BLCKSZ 16 = some p₀ ∧
        pdLower p₀ ≤ pdUpper p₀ ∧ PageStep p₀ (.addItem [9] 0) p :=
      ⟨_, _, rfl, by decide, by decide, rfl⟩
    exact ⟨p, represents_step (represents_pageInit hinit hroom) hstep⟩
  refine ⟨p, hr.valid, page_get_free_space_iff hr.valid (fun i hi hrec => ?_) (by decide) (by decide) rfl⟩
  exact absurd (hrec.1.symm.trans (hr.used i hi)) (by decide)

/-! ## Items of any size -/

/-- The offset numbers of `page_add_item` are `uint16`. What an accepted item of that size
needs: its extent between the new `pd_lower` and the old `pd_upper`, and a line pointer
with its size and place. -/
def AcceptedInFull (p q : Page) (size r : Nat) : Prop :=
  pdLower q + alignUp 16 size ≤ pdUpper p ∧ pdUpper q + alignUp 16 size = pdUpper p ∧
    (getLinp q (r - 1)).lpLen = size ∧ (getLinp q (r - 1)).lpOff = pdUpper q

theorem pdUpper_filled {off lower upper : Nat} (h : upper < 2 ^ 16) :
    pdUpper (filled p item size off lower upper flags) = upper := by
  unfold filled
  rw [pdUpper_setPdUpper, Nat.mod_eq_of_lt h]

theorem pdLower_filled {off lower upper : Nat} (h : lower < 2 ^ 16) :
    pdLower (filled p item size off lower upper flags) = lower := by
  unfold filled
  rw [pdLower_setPdUpper, pdLower_setPdLower, Nat.mod_eq_of_lt h]

/-- The line pointer of the item, where the item is behind it. -/
theorem getLinp_filled {off lower upper : Nat} (h1 : 1 ≤ off) (h : 8 + 4 * off ≤ upper) :
    getLinp (filled p item size off lower upper flags) (off - 1) =
      (ItemIdData.mk upper flags size).trunc := by
  unfold filled
  rw [getLinp_setPdUpper, getLinp_setPdLower, getLinp_write_disjoint _ item (by omega),
    getLinp_setLinp]

/-- Other line pointers in front of the item stay. -/
theorem getLinp_filled_ne {off lower upper i : Nat} (hne : i ≠ off - 1) (h : 8 + 4 * (i + 1) ≤ upper) :
    getLinp (filled p item size off lower upper flags) i = getLinp p i := by
  unfold filled
  rw [getLinp_setPdUpper, getLinp_setPdLower, getLinp_write_disjoint _ item (by omega),
    getLinp_setLinp_ne p _ (by omega)]

/-- `upper` is the exact difference for an item that is not refused. -/
theorem upperAfter_eq {lower : Nat} (hupper : pdUpper p ≤ BLCKSZ) (hlower : lower ≤ 8200)
    (hsize : size < 2 ^ 31) (hfit : ¬ DoesNotFit lower (pdUpper p) size) :
    upperAfter p size + maxAlign size = pdUpper p ∧ lower ≤ upperAfter p size := by
  have hB : BLCKSZ = 8192 := rfl
  have hlt := maxAlign_lt (n := size) (by omega)
  have hdvd := dvd_maxAlign size
  have hmod : maxAlign size % 2 ^ 32 = maxAlign size := Nat.mod_eq_of_lt (by omega)
  unfold DoesNotFit at hfit
  rw [hmod] at hfit
  have hwrap : Int.bmod ((pdUpper p : Int) - maxAlign size) (2 ^ 32) =
      (pdUpper p : Int) - maxAlign size := Int.bmod_eq_of_le (by omega) (by omega)
  unfold upperAfter
  rw [hwrap]
  omega

/-- An item of less than `2 ^ 31` bytes is accepted in full, if at all. -/
theorem acceptedInFull_of_lt {r : Nat} (hv : Valid p n) (hsize : size < 2 ^ 31)
    (h : pageAddItem mode p item size offsetNum flags = .ok (r, q)) (hr : r ≠ INVALID_OFFSET_NUMBER) :
    AcceptedInFull p q size r := by
  have hB : BLCKSZ = 8192 := rfl
  have hn := hv.lineCount_le
  have hupper := hv.pdUpper_le
  have hlow := lowerAfter_le mode offsetNum hv.lower hn
  have hchosen := chosen_lt_lowerAfter mode offsetNum hv.lower
  have hge := le_maxAlign (n := size) (by omega)
  rcases pageAddItem_eq mode item size offsetNum flags hv.lower hupper (by omega) with
    hcase | hcase | hcase
  · obtain ⟨-, e, heq⟩ := hcase
    rw [heq] at h
    cases h
  · rw [hcase.2.2] at h
    exact absurd (Prod.mk.inj (Except.ok.inj h)).1.symm hr
  · obtain ⟨-, hfit, heq⟩ := hcase
    obtain ⟨hup, hle⟩ := upperAfter_eq hupper hlow hsize hfit
    rw [heq] at h
    obtain ⟨rfl, rfl⟩ := Prod.mk.inj (Except.ok.inj h)
    have hlinp : getLinp (filled (prepared mode p offsetNum n) item size (chosenOffset p offsetNum n)
        (lowerAfter mode p offsetNum n) (upperAfter p size) flags) (chosenOffset p offsetNum n - 1) =
        (ItemIdData.mk (upperAfter p size) flags size).trunc :=
      getLinp_filled (chosenOffset_pos p offsetNum n) (hchosen.1.trans hle)
    have hlen : size < 2 ^ 15 := by omega
    rw [maxAlign_eq (by omega)] at hup
    unfold AcceptedInFull
    rw [pdLower_filled (by omega), pdUpper_filled (by omega), hlinp]
    refine ⟨by omega, hup, Nat.mod_eq_of_lt hlen, Nat.mod_eq_of_lt ?_⟩
    show upperAfter p size < 2 ^ 15
    omega

/-- Every accepted item is accepted in full exactly when it has less than `2 ^ 31` bytes,
the line pointer is in use already, or its size modulo `2 ^ 32` is refused too. -/
theorem page_add_item_in_full_iff (hv : Valid p n) (mode : Bool) (item : Nat → UInt8)
    (offsetNum flags : Nat) (hsize : size < 2 ^ 64) :
    (∀ r q, pageAddItem mode p item size offsetNum flags = .ok (r, q) → r ≠ INVALID_OFFSET_NUMBER →
      AcceptedInFull p q size r) ↔
    size < 2 ^ 31 ∨ Overwrites mode p offsetNum ∨
      DoesNotFit (lowerAfter mode p offsetNum n) (pdUpper p) size := by
  have hB : BLCKSZ = 8192 := rfl
  have hn := hv.lineCount_le
  have hupper := hv.pdUpper_le
  constructor
  · intro h
    by_contra hnot
    obtain ⟨hlarge, hover, hfit⟩ := not_or.mp hnot |>.imp_right not_or.mp
    rcases pageAddItem_eq mode item size offsetNum flags hv.lower hupper (by omega) with
      hcase | hcase | hcase
    · exact hover hcase.1
    · exact hfit hcase.2.1
    · have hpos := chosenOffset_pos p offsetNum n
      have hfull := h _ _ hcase.2.2 (Nat.pos_iff_ne_zero.mp hpos)
      have hge := le_alignUp (a := 16) (by decide) size
      have htop := hfull.1
      omega
  · rintro (hlt | hover | hfit) r q hq hr
    · exact acceptedInFull_of_lt hv hlt hq hr
    · rcases pageAddItem_eq mode item size offsetNum flags hv.lower hupper (by omega) with
        hcase | hcase | hcase
      · obtain ⟨-, e, heq⟩ := hcase
        rw [heq] at hq
        cases hq
      · exact absurd hover hcase.1
      · exact absurd hover hcase.1
    · rcases pageAddItem_eq mode item size offsetNum flags hv.lower hupper (by omega) with
        hcase | hcase | hcase
      · obtain ⟨-, e, heq⟩ := hcase
        rw [heq] at hq
        cases hq
      · rw [hcase.2.2] at hq
        exact absurd (Prod.mk.inj (Except.ok.inj hq)).1.symm hr
      · exact absurd hfit hcase.2.1

theorem valid_pageInit_zero : ∃ p, pageInit (fun _ => 0) BLCKSZ 0 = some p ∧ Valid p 0 := by
  obtain ⟨p, hinit, hroom⟩ : ∃ p, pageInit (fun _ => 0) BLCKSZ 0 = some p ∧ pdLower p ≤ pdUpper p :=
    ⟨_, rfl, by decide⟩
  exact ⟨p, hinit, (represents_pageInit hinit hroom).valid⟩

theorem page_add_item_in_full_iff_example : ∃ p, Valid p 0 ∧
    ∀ r q, pageAddItem true p (fun _ => 7) 100 0 LP_USED = .ok (r, q) → r ≠ INVALID_OFFSET_NUMBER →
      AcceptedInFull p q 100 r := by
  obtain ⟨p, -, hv⟩ := valid_pageInit_zero
  exact ⟨p, hv, (page_add_item_in_full_iff hv true (fun _ => 7) 0 LP_USED (by decide)).mpr
    (.inl (by decide))⟩

/-- An item of almost 4 GB is accepted on an empty page, behind the end of the page. -/
theorem page_add_item_oversized : ∃ p r q, pageInit (fun _ => 0) BLCKSZ 0 = some p ∧ Valid p 0 ∧
    pageAddItem true p (fun _ => 7) 4294967280 0 LP_USED = .ok (r, q) ∧ r ≠ INVALID_OFFSET_NUMBER ∧
    (getLinp q (r - 1)).lpOff = 8208 ∧ ¬ AcceptedInFull p q 4294967280 r := by
  obtain ⟨p, hinit, hv⟩ := valid_pageInit_zero
  obtain ⟨p', r, q, hinit', hq, hr, hoff, hlen⟩ : ∃ p r q, pageInit (fun _ => 0) BLCKSZ 0 = some p ∧
      pageAddItem true p (fun _ => 7) 4294967280 0 LP_USED = .ok (r, q) ∧ r ≠ INVALID_OFFSET_NUMBER ∧
      (getLinp q (r - 1)).lpOff = 8208 ∧ (getLinp q (r - 1)).lpLen ≠ 4294967280 :=
    ⟨_, _, _, rfl, rfl, by decide, by decide, by decide⟩
  obtain rfl := Option.some.inj (hinit.symm.trans hinit')
  exact ⟨p, r, q, hinit, hv, hq, hr, hoff, fun hfull => hlen hfull.2.2.1⟩

/-! ## Refused items -/

theorem setLinp_self (p : Page) (i : Nat) : setLinp p i (getLinp p i) = p := by
  have hword : (getLinp p i).encode = load p (linpOffset i) 4 := by
    have hlt : load p (linpOffset i) 4 < 256 ^ 4 := load_lt p (linpOffset i) 4
    unfold getLinp ItemIdData.decode ItemIdData.encode
    dsimp only
    omega
  unfold setLinp
  rw [hword, store_load]

/-- The line pointers a shuffle moves are equal to those they are moved over. -/
def ShufflesInPlace (page : Page) (offsetNum n : Nat) : Prop :=
  ∀ i, offsetNum ≤ i → i ≤ n → getLinp page (i - 1) = getLinp page i

theorem shuffleLinp_eq_self_iff (hpos : 0 < offsetNum) (hle : offsetNum ≤ n + 1) :
    shuffleLinp p offsetNum (n + 1 - offsetNum) = p ↔ ShufflesInPlace p offsetNum n := by
  constructor
  · intro h i h1 h2
    have hmoved := getLinp_shuffleLinp p hpos (n + 1 - offsetNum) i
    rw [h, if_pos (by omega)] at hmoved
    exact hmoved.symm
  · intro h
    have hall : ∀ k, k ≤ n + 1 - offsetNum → shuffleLinp p offsetNum k = p := by
      intro k
      induction k with
      | zero => exact fun _ => rfl
      | succ k ih =>
        intro hk
        have hsame : getLinp p (offsetNum + k - 1) = getLinp p (offsetNum + k) :=
          h (offsetNum + k) (by omega) (by omega)
        rw [shuffleLinp, hsame, setLinp_self]
        exact ih (by omega)
    exact hall _ (Nat.le_refl _)

/-- A refused item leaves the page as it was exactly when it is not refused, no line
pointers are shuffled for it, or shuffling them makes no difference. -/
theorem page_add_item_refusal_iff (hv : Valid p n) (mode : Bool) (item : Nat → UInt8) (size flags : Nat)
    (hoff : offsetNumberIsValid offsetNum = true → offsetNum ≤ n + 1) :
    (∀ q, pageAddItem mode p item size offsetNum flags = .ok (INVALID_OFFSET_NUMBER, q) → q = p) ↔
    mode = false ∨ offsetNumberIsValid offsetNum = false ∨ ShufflesInPlace p offsetNum n ∨
      ¬ DoesNotFit (lowerAfter mode p offsetNum n) (pdUpper p) size := by
  have hn := hv.lineCount_le
  have hcase := pageAddItem_eq mode item size offsetNum flags hv.lower hv.pdUpper_le (by omega)
  -- an item that is refused leaves the page as it was prepared
  have hrefused : (∀ q, pageAddItem mode p item size offsetNum flags = .ok (INVALID_OFFSET_NUMBER, q) →
      q = p) ↔ Overwrites mode p offsetNum ∨
        ¬ DoesNotFit (lowerAfter mode p offsetNum n) (pdUpper p) size ∨ prepared mode p offsetNum n = p := by
    rcases hcase with ⟨hover, e, heq⟩ | ⟨hover, hfit, heq⟩ | ⟨hover, hfit, heq⟩
    · rw [heq]
      exact iff_of_true nofun (.inl hover)
    · rw [heq]
      constructor
      · exact fun h => .inr (.inr (h _ rfl))
      · rintro (h | h | h) q hq
        · exact absurd h hover
        · exact absurd hfit h
        · rw [← (Prod.mk.inj (Except.ok.inj hq)).2]
          exact h
    · rw [heq]
      refine iff_of_true (fun q hq => ?_) (.inr (.inl hfit))
      have hpos := chosenOffset_pos p offsetNum n
      rw [(Prod.mk.inj (Except.ok.inj hq)).1] at hpos
      exact absurd hpos (by decide)
  rw [hrefused]
  unfold prepared shuffles Overwrites
  cases mode with
  | false => simp
  | true =>
    cases hvalid : offsetNumberIsValid offsetNum with
    | false => simp
    | true =>
      have hle := hoff hvalid
      have hself : shuffleLinp p offsetNum (n + 1 - offsetNum) = p ↔ ShufflesInPlace p offsetNum n :=
        shuffleLinp_eq_self_iff (offsetNumber_pos hvalid) hle
      simp [hself, or_comm]

/-- A page with two items of one and three bytes. -/
theorem represents_two : ∃ p, Represents p [[9], [1, 2, 3]] ∧
    pdLower p + SIZEOF_ITEM_ID_DATA ≤ pdUpper p ∧ ∃ q, pageAddItem true p (fun _ => 7) BLCKSZ 1 LP_USED = .ok (INVALID_OFFSET_NUMBER, q) ∧
      getLinp q 1 ≠ getLinp p 1 := by
  obtain ⟨p₀, p₁, p, hinit, hroom, hfirst, hsecond, hrefused⟩ :
      ∃ p₀ p₁ p, pageInit (fun _ => 0) BLCKSZ 16 = some p₀ ∧ pdLower p₀ ≤ pdUpper p₀ ∧
        PageStep p₀ (.addItem [9] 0) p₁ ∧ PageStep p₁ (.addItem [1, 2, 3] 0) p ∧
        pdLower p + SIZEOF_ITEM_ID_DATA ≤ pdUpper p ∧ ∃ q, pageAddItem true p (fun _ => 7) BLCKSZ 1 LP_USED = .ok (INVALID_OFFSET_NUMBER, q) ∧
          getLinp q 1 ≠ getLinp p 1 :=
    ⟨_, _, _, rfl, by decide, ⟨by decide, rfl⟩, ⟨by decide, rfl⟩, by decide, _, rfl, by decide⟩
  exact ⟨p, represents_step (represents_step (represents_pageInit hinit hroom) hfirst) hsecond, hrefused⟩

/-- An item refused in overwrite mode changes nothing. -/
theorem page_add_item_refusal_iff_example : ∃ p, Valid p 2 ∧
    ∀ q, pageAddItem false p (fun _ => 7) BLCKSZ 3 LP_USED = .ok (INVALID_OFFSET_NUMBER, q) → q = p := by
  obtain ⟨p, hr, -, -⟩ := represents_two
  exact ⟨p, hr.valid, (page_add_item_refusal_iff hr.valid false (fun _ => 7) BLCKSZ LP_USED
    (fun _ => by decide)).mpr (.inl rfl)⟩

/-- An item of a whole block, refused for offset number `1`, leaves offset number `2` leading
to the first item. -/
theorem page_add_item_refusal_shuffles : ∃ p q, Valid p 2 ∧ pdLower p + SIZEOF_ITEM_ID_DATA ≤ pdUpper p ∧
    pageAddItem true p (fun _ => 7) BLCKSZ 1 LP_USED = .ok (INVALID_OFFSET_NUMBER, q) ∧ q ≠ p ∧
    getLinp q 1 ≠ getLinp p 1 := by
  obtain ⟨p, hr, hroom, q, hq, hne⟩ := represents_two
  exact ⟨p, q, hr.valid, hroom, hq, fun heq => hne (by rw [heq]), hne⟩

/-! ## A new page -/

/-- A new page is in order and has the free space it should exactly when the special
space, rounded up, leaves room for the header. -/
theorem page_init_iff {raw : Page} {specialSize : Nat} (hsize : specialSize < 2 ^ 64)
    (hinit : pageInit raw BLCKSZ specialSize = some p) :
    (pdLower p ≤ pdUpper p ∧ pdUpper p ≤ pdSpecial p ∧ pdSpecial p ≤ BLCKSZ ∧
      pageGetFreeSpace p ≤ BLCKSZ - SIZEOF_PAGE_HEADER_DATA) ↔
    SIZEOF_PAGE_HEADER_DATA - SIZEOF_ITEM_ID_DATA + maxAlign specialSize ≤ BLCKSZ := by
  have hB : BLCKSZ = 8192 := rfl
  have hheader : SIZEOF_PAGE_HEADER_DATA = 12 := rfl
  have hitem : SIZEOF_ITEM_ID_DATA = 4 := rfl
  unfold pageInit at hinit
  by_cases hassert : BLCKSZ = BLCKSZ ∧
      (specialSize + SIZEOF_PAGE_HEADER_DATA - SIZEOF_ITEM_ID_DATA) % 2 ^ 64 < BLCKSZ
  · rw [if_pos hassert] at hinit
    have hspecial := hassert.2
    have hmax : maxAlign specialSize ≤ BLCKSZ := by
      unfold maxAlign typeAlign MAX_ALIGNOF
      omega
    have hupper : (BLCKSZ + 2 ^ 64 - maxAlign specialSize) % 2 ^ 64 = BLCKSZ - maxAlign specialSize := by
      omega
    dsimp only at hinit
    rw [hupper] at hinit
    have hp := Option.some.inj hinit
    have h1 : pdLower p = 8 := by
      rw [← hp]
      simp [SIZEOF_PAGE_HEADER_DATA, SIZEOF_ITEM_ID_DATA]
    have h2 : pdUpper p = BLCKSZ - maxAlign specialSize := by
      rw [← hp]
      simp
      omega
    have h3 : pdSpecial p = BLCKSZ - maxAlign specialSize := by
      rw [← hp]
      simp
      omega
    unfold pageGetFreeSpace
    rw [h1, h2, h3]
    dsimp only
    split <;> omega
  · rw [if_neg hassert] at hinit
    cases hinit

theorem page_init_iff_example : ∃ p, pageInit (fun _ => 0) BLCKSZ 16 = some p ∧
    pdLower p ≤ pdUpper p ∧ pdUpper p ≤ pdSpecial p ∧ pdSpecial p ≤ BLCKSZ ∧
    pageGetFreeSpace p ≤ BLCKSZ - SIZEOF_PAGE_HEADER_DATA := by
  obtain ⟨p, hinit⟩ : ∃ p, pageInit (fun _ => 0) BLCKSZ 16 = some p := ⟨_, rfl⟩
  exact ⟨p, hinit, (page_init_iff (by decide) hinit).mpr (by decide)⟩

/-- A special space of `8180` bytes passes the assertion and takes the whole block. -/
theorem page_init_overflows : ∃ p, pageInit (fun _ => 0) BLCKSZ 8180 = some p ∧
    pdUpper p < pdLower p ∧ BLCKSZ - SIZEOF_PAGE_HEADER_DATA < pageGetFreeSpace p :=
  ⟨_, rfl, by decide, by decide⟩

end PostgresV7.Bufpage
