import PostgresV7.Base
import PostgresV7.Lib.Bytes
import Mathlib.Data.List.Sort
import Mathlib.Data.Int.Basic

/-!
# The slotted buffer page (`bufpage.c`, `bufpage.h`, `itemid.h`, `off.h`)

A page is the raw buffer: header fields, line pointers and tuple bytes live in
one byte memory and may overlap, exactly as in the C struct overlay. The page
occupies addresses `0 .. BLCKSZ - 1`. `Offset` is a C `int`, so a subtraction
that leaves it is wrapped to 32 signed bits.
-/

namespace PostgresV7.Bufpage

open ByteMem

abbrev Page := Mem

/-! ## Line pointers -/

/-- `ItemIdData`: two 15-bit fields around two flag bits, in one 32-bit word. -/
structure ItemIdData where
  lpOff : Nat
  lpFlags : Nat
  lpLen : Nat
  deriving DecidableEq, Repr

def LP_USED : Nat := 1

namespace ItemIdData

/-- `lp_flags & LP_USED`. -/
def used (i : ItemIdData) : Bool := i.lpFlags % 2 == 1

/-- The bit-field word; each field is cut to its width. -/
def encode (i : ItemIdData) : Nat :=
  i.lpOff % 2 ^ 15 + i.lpFlags % 2 ^ 2 * 2 ^ 15 + i.lpLen % 2 ^ 15 * 2 ^ 17

def decode (w : Nat) : ItemIdData := ⟨w % 2 ^ 15, w / 2 ^ 15 % 2 ^ 2, w / 2 ^ 17 % 2 ^ 15⟩

/-- The extent of the item, `[lp_off, lp_off + MAXALIGN(lp_len))`, ends here. -/
def extentEnd (i : ItemIdData) : Nat := i.lpOff + maxAlign i.lpLen

end ItemIdData

/-! ## The page header -/

def SIZEOF_PAGE_HEADER_DATA : Nat := 12
def SIZEOF_ITEM_ID_DATA : Nat := 4

def pdLower (p : Page) : Nat := load p 0 2
def pdUpper (p : Page) : Nat := load p 2 2
def pdSpecial (p : Page) : Nat := load p 4 2
def setPdLower (p : Page) (v : Nat) : Page := store p 0 2 v
def setPdUpper (p : Page) (v : Nat) : Page := store p 2 2 v
def setPdSpecial (p : Page) (v : Nat) : Page := store p 4 2 v

/-- `PAGE_SET_PAGE_SIZE`. -/
def pageSetPageSize (p : Page) (v : Nat) : Page := store p 6 2 v

/-- Byte offset of `pd_linp[i]`. -/
def linpOffset (i : Nat) : Nat :=
  (SIZEOF_PAGE_HEADER_DATA - SIZEOF_ITEM_ID_DATA) + SIZEOF_ITEM_ID_DATA * i

def getLinp (p : Page) (i : Nat) : ItemIdData := .decode (load p (linpOffset i) 4)
def setLinp (p : Page) (i : Nat) (id : ItemIdData) : Page := store p (linpOffset i) 4 id.encode

/-- `PAGE_GET_MAX_OFFSET_NUMBER`, an `int` division. -/
def pageGetMaxOffsetNumber (p : Page) : Int :=
  Int.tdiv ((pdLower p : Int) - (SIZEOF_PAGE_HEADER_DATA - SIZEOF_ITEM_ID_DATA : Nat))
    SIZEOF_ITEM_ID_DATA

/-- `PAGE_IS_EMPTY`. -/
def pageIsEmpty (p : Page) : Bool := pdLower p ≤ SIZEOF_PAGE_HEADER_DATA - SIZEOF_ITEM_ID_DATA

/-! ## Offset numbers -/

def INVALID_OFFSET_NUMBER : Nat := 0
def MAX_OFFSET_NUMBER : Nat := BLCKSZ / SIZEOF_ITEM_ID_DATA

def offsetNumberIsValid (offsetNum : Nat) : Bool :=
  offsetNum != INVALID_OFFSET_NUMBER && offsetNum ≤ MAX_OFFSET_NUMBER

/-- `OFFSET_NUMBER_NEXT`: the sum is cut back to a `uint16`. -/
def offsetNumberNext (offsetNum : Int) : Nat := ((1 + offsetNum) % 2 ^ 16).toNat

/-! ## `page_init` -/

/-- `none` is a failed assertion. The buffer keeps its old bytes. -/
def pageInit (page : Page) (pageSize specialSize : Nat) : Option Page :=
  if pageSize = BLCKSZ ∧
      (specialSize + SIZEOF_PAGE_HEADER_DATA - SIZEOF_ITEM_ID_DATA) % 2 ^ 64 < pageSize then
    let specialSize := maxAlign specialSize
    let upper := (pageSize + 2 ^ 64 - specialSize) % 2 ^ 64
    let page := setPdLower page (SIZEOF_PAGE_HEADER_DATA - SIZEOF_ITEM_ID_DATA)
    let page := setPdUpper page upper
    let page := setPdSpecial page upper
    some (pageSetPageSize page pageSize)
  else none

/-! ## `page_add_item` -/

/-- The shuffle loop `for (i = limit - 1; i >= offset_num; i--)
linp[i] = linp[i - 1]`, with `k` iterations left. -/
def shuffleLinp (page : Page) (offsetNum : Nat) : Nat → Page
  | 0 => page
  | k + 1 =>
    shuffleLinp (setLinp page (offsetNum + k) (getLinp page (offsetNum + k - 1))) offsetNum k

/-- The search for a recyclable line pointer, with `k` candidates left. -/
def findRecyclable (page : Page) : Nat → Nat → Nat
  | 0, offsetNum => offsetNum
  | k + 1, offsetNum =>
    let itemid := getLinp page (offsetNum - 1)
    if itemid.used = false ∧ itemid.lpLen = 0 then offsetNum
    else findRecyclable page k (offsetNum + 1)

/-- What follows the choice of `offset_num`: make room, or give up. -/
def placeItem (page : Page) (item : Nat → UInt8) (size offsetNum limit : Nat) (shuffled : Bool)
    (flags : Nat) : Nat × Page :=
  let lower : Int :=
    if limit < offsetNum then (linpOffset offsetNum : Int)
    else if offsetNum = limit ∨ shuffled = true then (pdLower page + SIZEOF_ITEM_ID_DATA : Int)
    else pdLower page
  let upper : Int := Int.bmod ((pdUpper page : Int) - maxAlign size) (2 ^ 32)
  if lower > upper then (INVALID_OFFSET_NUMBER, page)
  else
    let page := setLinp page (offsetNum - 1) ⟨upper.toNat, flags, size⟩
    let page := write page upper.toNat size item
    let page := setPdLower page lower.toNat
    let page := setPdUpper page upper.toNat
    (offsetNum, page)

/-- `page_add_item` under either page manager mode. An error is `elog(ERROR)`,
which leaves the page as it was. -/
def pageAddItem (pageManagerShuffle : Bool) (page : Page) (item : Nat → UInt8)
    (size offsetNum flags : Nat) : Except String (Nat × Page) :=
  let limit := offsetNumberNext (pageGetMaxOffsetNumber page)
  if offsetNumberIsValid offsetNum then
    if pageManagerShuffle then
      let page := shuffleLinp page offsetNum (limit - offsetNum)
      .ok (placeItem page item size offsetNum limit true flags)
    else
      let itemid := getLinp page (offsetNum - 1)
      if itemid.used = true ∨ itemid.lpLen ≠ 0 then
        .error "page_add_item: tried overwrite of used ItemId"
      else .ok (placeItem page item size offsetNum limit false flags)
  else .ok (placeItem page item size (findRecyclable page (limit - 1) 1) limit false flags)

/-! ## `page_repair_fragmentation` -/

/-- `struct ItemIdSortData`. -/
structure ItemIdSortData where
  offsetIndex : Nat
  itemidData : ItemIdData
  deriving DecidableEq, Repr

/-- Descending by `lp_off`. -/
def itemidCompare (a b : ItemIdSortData) : Int :=
  if a.itemidData.lpOff = b.itemidData.lpOff then 0
  else if a.itemidData.lpOff < b.itemidData.lpOff then 1
  else -1

/-- The counting loop over `pd_linp[0 .. nline)`. -/
def countUsed (page : Page) (nline : Nat) : Nat :=
  (List.range nline).countP (fun i => (getLinp page i).used)

/-- `if (lp_len > 0) lp_len = 0`. -/
def deallocate (page : Page) (i : Nat) : Page :=
  if (getLinp page i).lpLen > 0 then setLinp page i { getLinp page i with lpLen := 0 } else page

/-- The loop of the branch without used line pointers; `k` are left. -/
def deallocateAll (page : Page) : Nat → Nat → Page
  | 0, _ => page
  | k + 1, i => deallocateAll (deallocate page i) k (i + 1)

/-- The loop that fills the sort array and deallocates the rest; `k` are left. -/
def collectUsed (page : Page) : Nat → Nat → Page × List ItemIdSortData
  | 0, _ => (page, [])
  | k + 1, i =>
    let lp := getLinp page i
    if lp.used then
      let r := collectUsed page k (i + 1)
      (r.1, ⟨i, lp⟩ :: r.2)
    else collectUsed (deallocate page i) k (i + 1)

/-- One iteration of the compaction loop. -/
def compactOne (page : Page) (itemid : ItemIdSortData) : Page :=
  let lp := getLinp page itemid.offsetIndex
  let upper : Int := Int.bmod ((pdUpper page : Int) - maxAlign lp.lpLen) (2 ^ 32)
  let page := copy page upper.toNat lp.lpOff lp.lpLen
  let page := setLinp page itemid.offsetIndex
    { getLinp page itemid.offsetIndex with lpOff := upper.toNat }
  setPdUpper page upper.toNat

/-- `page_repair_fragmentation`; `qsort` is a sort by `itemid_compare`. -/
def pageRepairFragmentation (page : Page) : Page :=
  let nline := (Int.bmod (pageGetMaxOffsetNumber page) (2 ^ 16)).toNat
  let nused := countUsed page nline
  if nused = 0 then
    let page := deallocateAll page nline 0
    setPdUpper page (pdSpecial page)
  else
    let r := collectUsed page nline 0
    let page := r.1
    let itemidBase := r.2.mergeSort (fun a b => itemidCompare a b ≤ 0)
    let page := setPdUpper page (pdSpecial page)
    itemidBase.foldl compactOne page

/-! ## `page_get_free_space` -/

/-- The difference is an `int` that becomes a `Size`. -/
def pageGetFreeSpace (page : Page) : Nat :=
  let space := (pdUpper page + 2 ^ 64 - pdLower page) % 2 ^ 64
  if space < SIZEOF_ITEM_ID_DATA then 0 else space - SIZEOF_ITEM_ID_DATA

/-! ## `page_index_tuple_delete` -/

/-- `page_index_tuple_delete_adjust_line_pointers`; `k` line pointers are left,
the loop runs from the last one down. -/
def pageIndexTupleDeleteAdjustLinePointers (page : Page) (offset size : Nat) : Nat → Page
  | 0 => page
  | k + 1 =>
    let lp := getLinp page k
    let page := if lp.lpOff ≤ offset then setLinp page k { lp with lpOff := lp.lpOff + size } else page
    pageIndexTupleDeleteAdjustLinePointers page offset size k

/-- `none` is a `memmove` with a negative byte count. -/
def pageIndexTupleDelete (page : Page) (offsetNum : Nat) : Option Page :=
  let offidx := offsetNum - 1
  let tup := getLinp page offidx
  let size := maxAlign tup.lpLen
  let locn := tup.lpOff
  let nbytes : Int := (pdLower page : Int) - linpOffset (offidx + 1)
  if nbytes < 0 then none
  else
    let page := copy page (linpOffset offidx) (linpOffset (offidx + 1)) nbytes.toNat
    let addr := pdUpper page
    if locn < addr then none
    else
      let page := if locn ≠ addr then copy page (addr + size) addr (locn - addr) else page
      let page := setPdUpper page (pdUpper page + size)
      let page := setPdLower page (pdLower page + 2 ^ 64 - SIZEOF_ITEM_ID_DATA)
      some (if pageIsEmpty page then page
        else pageIndexTupleDeleteAdjustLinePointers page locn size
          (pageGetMaxOffsetNumber page).toNat)

end PostgresV7.Bufpage
