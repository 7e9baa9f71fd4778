import PostgresV7.Page.Bufpage
import Mathlib.Tactic.Linarith

/-!
# Reading back the fields of a page

Every accessor is a load and every assignment a store, so these lemmas are the
frame facts of byte memory at the offsets of the page header and of the line
pointer array. Later modules use them and never look at an offset again.
-/

namespace PostgresV7.Bufpage

open ByteMem

/-! ## The bit-field word -/

/-- What the three bit-fields keep of a line pointer. -/
def ItemIdData.trunc (i : ItemIdData) : ItemIdData :=
  ⟨i.lpOff % 2 ^ 15, i.lpFlags % 2 ^ 2, i.lpLen % 2 ^ 15⟩

/-- A line pointer whose fields fit their widths. -/
structure ItemIdData.Fits (i : ItemIdData) : Prop where
  off : i.lpOff < 2 ^ 15
  flags : i.lpFlags < 2 ^ 2
  len : i.lpLen < 2 ^ 15

theorem ItemIdData.Fits.trunc_eq {i : ItemIdData} (h : i.Fits) : i.trunc = i := by
  obtain ⟨off, flags, len⟩ := i
  simp only [ItemIdData.trunc, Nat.mod_eq_of_lt h.off, Nat.mod_eq_of_lt h.flags,
    Nat.mod_eq_of_lt h.len]

theorem ItemIdData.encode_lt (i : ItemIdData) : i.encode < 256 ^ 4 := by
  unfold ItemIdData.encode
  omega

theorem ItemIdData.decode_encode (i : ItemIdData) : ItemIdData.decode i.encode = i.trunc := by
  unfold ItemIdData.decode ItemIdData.encode ItemIdData.trunc
  congr 1 <;> omega

theorem ItemIdData.fits_decode (w : Nat) : (ItemIdData.decode w).Fits := by
  constructor <;> simp only [ItemIdData.decode] <;> omega

/-! ## Line pointers -/

theorem linpOffset_eq (i : Nat) : linpOffset i = 8 + 4 * i := rfl

theorem fits_getLinp (p : Page) (i : Nat) : (getLinp p i).Fits := ItemIdData.fits_decode _

theorem getLinp_setLinp (p : Page) (i : Nat) (id : ItemIdData) :
    getLinp (setLinp p i id) i = id.trunc := by
  unfold getLinp setLinp
  rw [load_store, Nat.mod_eq_of_lt id.encode_lt, ItemIdData.decode_encode]

theorem getLinp_setLinp_ne (p : Page) {i j : Nat} (id : ItemIdData) (h : i ≠ j) :
    getLinp (setLinp p i id) j = getLinp p j := by
  unfold getLinp setLinp
  rw [load_store_disjoint]
  simp only [linpOffset_eq]
  omega

/-- Only the bytes of one line pointer change. -/
theorem setLinp_outside (p : Page) (i : Nat) (id : ItemIdData) {b : Nat}
    (h : b < 8 + 4 * i ∨ 8 + 4 * (i + 1) ≤ b) : setLinp p i id b = p b := by
  unfold setLinp
  apply store_outside
  simp only [linpOffset_eq]
  omega

/-! ## Header fields -/

theorem pdLower_lt (p : Page) : pdLower p < 2 ^ 16 := load_lt p 0 2
theorem pdUpper_lt (p : Page) : pdUpper p < 2 ^ 16 := load_lt p 2 2

@[simp] theorem pdLower_setPdLower (p : Page) (v : Nat) : pdLower (setPdLower p v) = v % 2 ^ 16 :=
  load_store p 0 2 v

@[simp] theorem pdUpper_setPdUpper (p : Page) (v : Nat) : pdUpper (setPdUpper p v) = v % 2 ^ 16 :=
  load_store p 2 2 v

@[simp] theorem pdSpecial_setPdSpecial (p : Page) (v : Nat) :
    pdSpecial (setPdSpecial p v) = v % 2 ^ 16 := load_store p 4 2 v

@[simp] theorem pdLower_setPdUpper (p : Page) (v : Nat) : pdLower (setPdUpper p v) = pdLower p :=
  load_store_disjoint p (by omega)

@[simp] theorem pdSpecial_setPdUpper (p : Page) (v : Nat) :
    pdSpecial (setPdUpper p v) = pdSpecial p := load_store_disjoint p (by omega)

@[simp] theorem pdUpper_setPdLower (p : Page) (v : Nat) : pdUpper (setPdLower p v) = pdUpper p :=
  load_store_disjoint p (by omega)

@[simp] theorem pdSpecial_setPdLower (p : Page) (v : Nat) :
    pdSpecial (setPdLower p v) = pdSpecial p := load_store_disjoint p (by omega)

@[simp] theorem pdLower_setPdSpecial (p : Page) (v : Nat) :
    pdLower (setPdSpecial p v) = pdLower p := load_store_disjoint p (by omega)

@[simp] theorem pdUpper_setPdSpecial (p : Page) (v : Nat) :
    pdUpper (setPdSpecial p v) = pdUpper p := load_store_disjoint p (by omega)

@[simp] theorem pdLower_pageSetPageSize (p : Page) (v : Nat) :
    pdLower (pageSetPageSize p v) = pdLower p := load_store_disjoint p (by omega)

@[simp] theorem pdUpper_pageSetPageSize (p : Page) (v : Nat) :
    pdUpper (pageSetPageSize p v) = pdUpper p := load_store_disjoint p (by omega)

@[simp] theorem pdSpecial_pageSetPageSize (p : Page) (v : Nat) :
    pdSpecial (pageSetPageSize p v) = pdSpecial p := load_store_disjoint p (by omega)

/-! ## Everything behind the header

`SameHeader` and `SameLinps` are how the frame of a byte-level write is handed
to later modules. -/

/-- The three header fields of two pages agree. -/
structure SameHeader (p q : Page) : Prop where
  lower : pdLower q = pdLower p
  upper : pdUpper q = pdUpper p
  special : pdSpecial q = pdSpecial p

theorem SameHeader.trans {p q r : Page} (h : SameHeader p q) (h' : SameHeader q r) :
    SameHeader p r :=
  ⟨h'.lower.trans h.lower, h'.upper.trans h.upper, h'.special.trans h.special⟩

/-- Agreement on the header bytes is agreement on the header. -/
theorem sameHeader_of_bytes {p q : Page} (h : ∀ b, b < 8 → q b = p b) : SameHeader p q := by
  constructor <;> exact load_congr fun i _ => h _ (by omega)

theorem sameHeader_write (p : Page) {a n : Nat} (src : Nat → UInt8) (h : 8 ≤ a) :
    SameHeader p (write p a n src) :=
  sameHeader_of_bytes fun _ _ => write_outside p a n src (by omega)

theorem sameHeader_setLinp (p : Page) (i : Nat) (id : ItemIdData) : SameHeader p (setLinp p i id) :=
  sameHeader_of_bytes fun _ _ => setLinp_outside p i id (by omega)

theorem getLinp_congr {p q : Page} {i j : Nat}
    (h : ∀ k, k < 4 → q (8 + 4 * i + k) = p (8 + 4 * j + k)) : getLinp q i = getLinp p j :=
  congrArg ItemIdData.decode (load_congr h)

theorem getLinp_write_disjoint (p : Page) {i a n : Nat} (src : Nat → UInt8)
    (h : 8 + 4 * (i + 1) ≤ a ∨ a + n ≤ 8 + 4 * i) :
    getLinp (write p a n src) i = getLinp p i :=
  getLinp_congr fun _ _ => write_outside p a n src (by omega)

@[simp] theorem getLinp_setPdLower (p : Page) (v i : Nat) :
    getLinp (setPdLower p v) i = getLinp p i := getLinp_write_disjoint p _ (by omega)

@[simp] theorem getLinp_setPdUpper (p : Page) (v i : Nat) :
    getLinp (setPdUpper p v) i = getLinp p i := getLinp_write_disjoint p _ (by omega)

theorem setPdLower_body (p : Page) (v : Nat) {b : Nat} (h : 8 ≤ b) : setPdLower p v b = p b :=
  store_outside p 0 2 v (by omega)

theorem setPdUpper_body (p : Page) (v : Nat) {b : Nat} (h : 8 ≤ b) : setPdUpper p v b = p b :=
  store_outside p 2 2 v (by omega)

/-! ## The number of line pointers -/

theorem pageGetMaxOffsetNumber_eq {p : Page} {n : Nat} (h : pdLower p = 8 + 4 * n) :
    pageGetMaxOffsetNumber p = n := by
  unfold pageGetMaxOffsetNumber
  have hn : (pdLower p : Int) - (SIZEOF_PAGE_HEADER_DATA - SIZEOF_ITEM_ID_DATA : Nat) = n * 4 := by
    rw [h]
    simp only [SIZEOF_PAGE_HEADER_DATA, SIZEOF_ITEM_ID_DATA]
    omega
  rw [hn]
  exact Int.mul_tdiv_cancel _ (by decide)

theorem offsetNumberNext_natCast {n : Nat} (h : n + 1 < 2 ^ 16) : offsetNumberNext n = n + 1 := by
  unfold offsetNumberNext
  omega

end PostgresV7.Bufpage
