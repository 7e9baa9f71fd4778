import PostgresV7.Page.Fields

/-!
# What a successful shuffle-mode insertion does

`AddedAt` says everything `page_add_item` does to a page it succeeds on: the new
header, every line pointer and every byte above the old `pd_upper`. The
invariants are derived from it without unfolding the function again.
-/

namespace PostgresV7.Bufpage

open ByteMem

/-! ## The shuffle -/

theorem shuffleLinp_outside (p : Page) {offsetNum k b : Nat}
    (h : b < 8 + 4 * offsetNum ∨ 8 + 4 * (offsetNum + k) ≤ b) :
    shuffleLinp p offsetNum k b = p b := by
  induction k generalizing p with
  | zero => rfl
  | succ k ih =>
    rw [shuffleLinp, ih _ (by omega)]
    exact setLinp_outside p _ _ (by omega)

theorem sameHeader_shuffleLinp (p : Page) (offsetNum k : Nat) :
    SameHeader p (shuffleLinp p offsetNum k) :=
  sameHeader_of_bytes fun _ _ => shuffleLinp_outside p (by omega)

/-- The shuffle moves the line pointers from `offsetNum - 1` on up by one. -/
theorem getLinp_shuffleLinp (p : Page) {offsetNum : Nat} (h : 0 < offsetNum) (k i : Nat) :
    getLinp (shuffleLinp p offsetNum k) i =
      if offsetNum ≤ i ∧ i < offsetNum + k then getLinp p (i - 1) else getLinp p i := by
  induction k generalizing p with
  | zero => rw [if_neg (by omega)]; rfl
  | succ k ih =>
    rw [shuffleLinp, ih]
    by_cases hk : i = offsetNum + k
    · subst hk
      rw [if_neg (by omega), if_pos (by omega), getLinp_setLinp, (fits_getLinp p _).trunc_eq]
    · by_cases hi : offsetNum ≤ i ∧ i < offsetNum + k
      · rw [if_pos hi, if_pos (by omega), getLinp_setLinp_ne p _ (by omega)]
      · rw [if_neg hi, if_neg (by omega), getLinp_setLinp_ne p _ (by omega)]

/-- Without a recyclable line pointer the search runs off the end. -/
theorem findRecyclable_of_used {p : Page} {k offsetNum : Nat} (h0 : 0 < offsetNum)
    (h : ∀ i, offsetNum ≤ i + 1 → i + 1 < offsetNum + k → (getLinp p i).used = true) :
    findRecyclable p k offsetNum = offsetNum + k := by
  induction k generalizing offsetNum with
  | zero => rfl
  | succ k ih =>
    have hu := h (offsetNum - 1) (by omega) (by omega)
    rw [findRecyclable, if_neg (by simp [hu]), ih (by omega) (fun i h1 h2 => h i (by omega) (by omega))]
    omega

/-! ## Placing the item -/

/-- `placeItem` writes one line pointer, the item and two header fields. -/
structure Placed (p q : Page) (item : Nat → UInt8) (size k newLower flags : Nat) : Prop where
  lower : pdLower q = newLower
  upper : pdUpper q + maxAlign size = pdUpper p
  room : newLower ≤ pdUpper q
  special : pdSpecial q = pdSpecial p
  linp : getLinp q k = ⟨pdUpper q, flags % 2 ^ 2, size⟩
  linps : ∀ i, i ≠ k → 8 + 4 * (i + 1) ≤ newLower → getLinp q i = getLinp p i
  item : ∀ i, i < size → q (pdUpper q + i) = item i
  above : ∀ b, pdUpper p ≤ b → q b = p b

/-- Inversion of `placeItem` when the line pointer array grows by one. -/
theorem placed_of_placeItem {p q : Page} {item : Nat → UInt8} {size offsetNum n flags r : Nat}
    {shuffled : Bool} (hp : placeItem p item size offsetNum (n + 1) shuffled flags = (r, q))
    (hr : r ≠ INVALID_OFFSET_NUMBER) (hlower : pdLower p = 8 + 4 * n)
    (hupper : pdUpper p ≤ BLCKSZ) (h1 : 1 ≤ offsetNum) (hn : offsetNum ≤ n + 1)
    (hs : offsetNum = n + 1 ∨ shuffled = true) (hsize : 0 < size) (hmax : size ≤ BLCKSZ) :
    r = offsetNum ∧ Placed p q item size (offsetNum - 1) (8 + 4 * (n + 1)) flags := by
  have hB : BLCKSZ = 8192 := rfl
  have hge := le_maxAlign (n := size) (by omega)
  have hlt := maxAlign_lt (n := size) (by omega)
  have hlow : (if n + 1 < offsetNum then (linpOffset offsetNum : Int)
      else if offsetNum = n + 1 ∨ shuffled = true then (pdLower p + SIZEOF_ITEM_ID_DATA : Int)
      else pdLower p) = ((8 + 4 * (n + 1) : Nat) : Int) := by
    rw [if_neg (by omega), if_pos hs, hlower]
    simp only [SIZEOF_ITEM_ID_DATA]
    omega
  have hwrap : Int.bmod ((pdUpper p : Int) - maxAlign size) (2 ^ 32) =
      (pdUpper p : Int) - maxAlign size := Int.bmod_eq_of_le (by omega) (by omega)
  unfold placeItem at hp
  rw [hlow, hwrap] at hp
  by_cases hfit : ((8 + 4 * (n + 1) : Nat) : Int) > (pdUpper p : Int) - maxAlign size
  · rw [if_pos hfit] at hp
    exact absurd (Prod.mk.inj hp).1.symm hr
  rw [if_neg hfit] at hp
  obtain ⟨rfl, rfl⟩ := Prod.mk.inj hp
  refine ⟨rfl, ?_⟩
  -- from here on `u` is the new `pd_upper`
  obtain ⟨u, hu⟩ : ∃ u : Nat, (pdUpper p : Int) - maxAlign size = u :=
    ⟨pdUpper p - maxAlign size, by omega⟩
  simp only [hu, Int.toNat_natCast] at hfit ⊢
  have hul : u < 2 ^ 15 := by omega
  have hfits : (ItemIdData.mk u flags size).trunc = ⟨u, flags % 2 ^ 2, size⟩ := by
    simp only [ItemIdData.trunc, Nat.mod_eq_of_lt hul, Nat.mod_eq_of_lt (show size < 2 ^ 15 by omega)]
  have hupos : pdUpper (setPdUpper (setPdLower
      (write (setLinp p (offsetNum - 1) ⟨u, flags, size⟩) u size item) (8 + 4 * (n + 1))) u) = u := by
    rw [pdUpper_setPdUpper, Nat.mod_eq_of_lt (by omega)]
  refine ⟨?_, by rw [hupos]; omega, by rw [hupos]; omega, ?_, ?_, ?_, ?_, ?_⟩
  · rw [pdLower_setPdUpper, pdLower_setPdLower, Nat.mod_eq_of_lt (by omega)]
  · rw [pdSpecial_setPdUpper, pdSpecial_setPdLower]
    exact ((sameHeader_setLinp p _ _).trans (sameHeader_write _ item (by omega))).special
  · rw [hupos, getLinp_setPdUpper, getLinp_setPdLower, getLinp_write_disjoint _ item (by omega),
      getLinp_setLinp, hfits]
  · intro i hi hb
    rw [getLinp_setPdUpper, getLinp_setPdLower, getLinp_write_disjoint _ item (by omega),
      getLinp_setLinp_ne p _ (by omega)]
  · intro i hi
    rw [hupos, setPdUpper_body _ _ (by omega), setPdLower_body _ _ (by omega),
      write_inside _ u size item hi]
  · intro b hb
    rw [setPdUpper_body _ _ (by omega), setPdLower_body _ _ (by omega),
      write_outside _ u size item (by omega)]
    exact setLinp_outside p _ _ (by omega)

/-! ## The whole insertion -/

/-- `q` is `p`, a page of `n` line pointers, with one more inserted at index `k`. -/
structure AddedAt (p q : Page) (item : Nat → UInt8) (size n k flags : Nat) : Prop where
  lower : pdLower q = 8 + 4 * (n + 1)
  upper : pdUpper q + maxAlign size = pdUpper p
  room : 8 + 4 * (n + 1) ≤ pdUpper q
  special : pdSpecial q = pdSpecial p
  before : ∀ i, i < k → getLinp q i = getLinp p i
  here : getLinp q k = ⟨pdUpper q, flags % 2 ^ 2, size⟩
  after : ∀ i, k < i → i ≤ n → getLinp q i = getLinp p (i - 1)
  item : ∀ i, i < size → q (pdUpper q + i) = item i
  above : ∀ b, pdUpper p ≤ b → q b = p b

/-- Index at which `page_add_item` inserts: the end when no offset number is given. -/
def insertIndex (n offsetNum : Nat) : Nat :=
  if offsetNumberIsValid offsetNum then offsetNum - 1 else n

theorem offsetNumber_pos {offsetNum : Nat} (h : offsetNumberIsValid offsetNum = true) :
    1 ≤ offsetNum := by
  simp only [offsetNumberIsValid, INVALID_OFFSET_NUMBER, Bool.and_eq_true, bne_iff_ne] at h
  omega

/-- Inversion of a successful shuffle-mode `page_add_item` on a page whose line
pointers are all used. -/
theorem addedAt_of_pageAddItem {p q : Page} {item : Nat → UInt8}
    {size offsetNum flags n r : Nat}
    (ha : pageAddItem true p item size offsetNum flags = .ok (r, q))
    (hr : r ≠ INVALID_OFFSET_NUMBER) (hlower : pdLower p = 8 + 4 * n)
    (hroom : pdLower p ≤ pdUpper p) (hupper : pdUpper p ≤ BLCKSZ)
    (hused : ∀ i, i < n → (getLinp p i).used = true)
    (hoff : offsetNumberIsValid offsetNum = true → offsetNum ≤ n + 1)
    (hsize : 0 < size) (hmax : size ≤ BLCKSZ) :
    AddedAt p q item size n (insertIndex n offsetNum) flags := by
  have hB : BLCKSZ = 8192 := rfl
  have hnext : offsetNumberNext (pageGetMaxOffsetNumber p) = n + 1 := by
    rw [pageGetMaxOffsetNumber_eq hlower, offsetNumberNext_natCast (by omega)]
  unfold pageAddItem at ha
  rw [hnext] at ha
  by_cases hv : offsetNumberIsValid offsetNum = true
  · have h1 := offsetNumber_pos hv
    have hle := hoff hv
    rw [if_pos hv, if_pos rfl] at ha
    have hsame := sameHeader_shuffleLinp p offsetNum (n + 1 - offsetNum)
    obtain ⟨-, hpl⟩ := placed_of_placeItem (Except.ok.inj ha) hr (hsame.lower.trans hlower)
      (by rw [hsame.upper]; exact hupper) h1 hle (Or.inr rfl) hsize hmax
    -- the shuffle writes below `8 + 4 * (n + 1)`, which the room left the item
    have hup := hpl.upper
    have hrm := hpl.room
    rw [hsame.upper] at hup
    rw [insertIndex, if_pos hv]
    refine ⟨hpl.lower, hup, hrm, hpl.special.trans hsame.special, ?_, hpl.linp, ?_, hpl.item, ?_⟩
    · intro i hi
      rw [hpl.linps i (by omega) (by omega), getLinp_shuffleLinp p h1, if_neg (by omega)]
    · intro i hi hn
      rw [hpl.linps i (by omega) (by omega), getLinp_shuffleLinp p h1, if_pos (by omega)]
    · intro b hb
      rw [hpl.above b (by rw [hsame.upper]; exact hb)]
      exact shuffleLinp_outside p (by omega)
  · rw [if_neg hv] at ha
    have hfind : findRecyclable p (n + 1 - 1) 1 = n + 1 := by
      rw [findRecyclable_of_used (by omega) (fun i _ hi => hused i (by omega))]
      omega
    rw [hfind] at ha
    obtain ⟨-, hpl⟩ := placed_of_placeItem (Except.ok.inj ha) hr hlower hupper (by omega)
      (Nat.le_refl _) (Or.inl rfl) hsize hmax
    have hrm := hpl.room
    rw [insertIndex, if_neg hv]
    exact ⟨hpl.lower, hpl.upper, hrm, hpl.special,
      fun i hi => hpl.linps i (by omega) (by omega), hpl.linp, fun i h1 h2 => absurd h1 (by omega),
      hpl.item, hpl.above⟩

end PostgresV7.Bufpage
