import PostgresV7.HeapTuple.Tupmacs

/-!
# Forming and reading heap tuples (`heaptuple.c`, `heapam.h`)

The caller's values live in one memory, the new tuple in the chunk `palloc`
returned. A store outside that chunk is a failure of its own, so that a length
computed too small cannot go unnoticed in the model.
-/

namespace PostgresV7.Heap

open ByteMem

/-! ## Building a tuple -/

/-- How forming a tuple can fail. -/
inductive FormFailure where
  | elog (message : String)
  | overrun
  deriving DecidableEq, Repr

/-- Conversion to `uint32`. -/
def toUint32 (n : Int) : Nat := (n % 2 ^ 32).toNat

/-- `compute_data_size`, with `k` attributes left. The sum is a `uint32`. -/
def computeDataSize (src : Mem) (tupleDesc : TupleDesc) (value : Nat → Datum) (nulls : Nat → Char) :
    Nat → Nat → Nat → Nat
  | 0, _, dataLength => dataLength
  | k + 1, i, dataLength =>
    if nulls i ≠ ' ' then computeDataSize src tupleDesc value nulls k (i + 1) dataLength
    else
      let att := tupleDesc.att i
      let dataLength := toUint32 (attAlign dataLength att.attalign)
      let dataLength := toUint32 (attAddLength dataLength att.attlen (varattSize src (value i)))
      computeDataSize src tupleDesc value nulls k (i + 1) dataLength

/-- A store of `n` bytes into the chunk `[base, limit)`. -/
def put (base limit : Nat) (m : Mem) (a n : Nat) (bytes : Nat → UInt8) : Except FormFailure Mem :=
  if base ≤ a ∧ a + n ≤ limit then .ok (write m a n bytes) else .error .overrun

/-- The little-endian bytes of a number. -/
def bytesOf (v i : Nat) : UInt8 := UInt8.ofNat (v / 256 ^ i)

/-- `STORE_ATT_BY_VAL`. -/
def storeAttByVal (base limit : Nat) (m : Mem) (t : Nat) (newdatum : Datum) (attlen : Int) :
    Except FormFailure Mem :=
  if attlen = 1 then put base limit m t 1 (bytesOf newdatum)
  else if attlen = 2 then put base limit m t 2 (bytesOf newdatum)
  else if attlen = 4 then put base limit m t 4 (bytesOf newdatum)
  else if attlen = 8 then put base limit m t 8 (bytesOf newdatum)
  else .error (.elog "store_att_byval: unsupported byval length %d")

/-- The variables of `data_fill`; `bitp` is the address of the current bitmap
byte. -/
structure FillState where
  mem : Mem
  data : Nat
  infomask : Nat
  bitp : Nat
  bitmask : Nat

/-- `CSIGNBIT`. -/
def CSIGNBIT : Nat := 0x80

/-- The bitmap part of an iteration up to the test for null. -/
def nextBit (base limit : Nat) (s : FillState) : Except FormFailure FillState :=
  if s.bitmask ≠ CSIGNBIT then .ok { s with bitmask := s.bitmask <<< 1 }
  else do
    let m ← put base limit s.mem (s.bitp + 1) 1 (fun _ => 0)
    .ok { s with mem := m, bitp := s.bitp + 1, bitmask := 1 }

/-- `*bitp |= bitmask`. -/
def setBit (base limit : Nat) (s : FillState) : Except FormFailure FillState := do
  let m ← put base limit s.mem s.bitp 1 (fun _ => UInt8.ofNat ((s.mem s.bitp).toNat ||| s.bitmask))
  .ok { s with mem := m }

/-- The data part of an iteration, for an attribute that is not null. -/
def fillAttr (src : Mem) (base limit : Nat) (att : FormPgAttribute) (value : Datum) (s : FillState) :
    Except FormFailure FillState := do
  -- the pointer itself is aligned, not the offset
  let data := (attAlign s.data att.attalign).toNat
  if att.attbyval then
    let m ← storeAttByVal base limit s.mem data value att.attlen
    .ok { s with mem := m, data := (attAddLength data att.attlen (varattSize src value)).toNat }
  else if att.attlen = -1 then
    let infomask := s.infomask ||| HEAP_HASVARLENA
    let infomask := if varattIsExternal src value then infomask ||| HEAP_HASEXTERNAL else infomask
    let infomask :=
      if varattIsCompressed src value then infomask ||| HEAP_HASCOMPRESSED else infomask
    let m ← put base limit s.mem data (varattSize src value) (fun i => src (value + i))
    .ok { s with
      mem := m, infomask := infomask
      data := (attAddLength data att.attlen (varattSize src value)).toNat }
  else
    let m ← put base limit s.mem data att.attlen.toNat (fun i => src (value + i))
    .ok { s with mem := m, data := (attAddLength data att.attlen (varattSize src value)).toNat }

/-- One iteration of `data_fill`; `bit` tells whether there is a bitmap. -/
def fillOne (src : Mem) (base limit : Nat) (tupleDesc : TupleDesc) (value : Nat → Datum)
    (nulls : Nat → Char) (bit : Bool) (s : FillState) (i : Nat) : Except FormFailure FillState :=
  if bit then do
    let s ← nextBit base limit s
    if nulls i = 'n' then .ok { s with infomask := s.infomask ||| HEAP_HASNULL }
    else
      let s ← setBit base limit s
      fillAttr src base limit (tupleDesc.att i) (value i) s
  else fillAttr src base limit (tupleDesc.att i) (value i) s

/-- The loop of `data_fill`, with `k` attributes left. -/
def dataFill (src : Mem) (base limit : Nat) (tupleDesc : TupleDesc) (value : Nat → Datum)
    (nulls : Nat → Char) (bit : Bool) : Nat → Nat → FillState → Except FormFailure FillState
  | 0, _, s => .ok s
  | k + 1, i, s => do
    let s ← fillOne src base limit tupleDesc value nulls bit s i
    dataFill src base limit tupleDesc value nulls bit k (i + 1) s

/-- `BIT_MAP_LEN`. -/
def bitMapLen (natts : Nat) : Nat := (((natts - 1) >>> 3) + 4 - 4) / 4 * 4 + 4

/-- `HEAP_TUPLE_SIZE`, `MAXALIGN(sizeof(HeapTupleData))`. -/
def HEAP_TUPLE_SIZE : Nat := 32

/-- `t_hoff`: the header, the bitmap if there is one, and padding. -/
def headerLen (natts : Nat) (hasNull : Bool) : Nat :=
  maxAlign (if hasNull then OFFSET_T_BITS + bitMapLen natts else OFFSET_T_BITS)

/-- `heap_form_tuple`. `palloc` refuses requests beyond `MAX_ALLOC_SIZE`; the
chunk it returns is `chunk`, with arbitrary bytes `raw`. -/
def heapFormTuple (src raw : Mem) (chunk : Nat) (tupleDesc : TupleDesc) (value : Nat → Datum)
    (nulls : Nat → Char) : Except FormFailure HeapTuple :=
  let natts := tupleDesc.natts
  if natts > MAX_HEAP_ATTRIBUTE_NUMBER then
    .error (.elog "heap_formtuple: numberOfAttributes of %d > %d")
  else
    let hasNull := (List.range natts).any (fun i => nulls i != ' ')
    let hoff := headerLen natts hasNull
    let len := hoff + computeDataSize src tupleDesc value nulls natts 0 0
    if HEAP_TUPLE_SIZE + len > MAX_ALLOC_SIZE then
      .error (.elog "memory_context_alloc: invalid request size %lu")
    else do
      let td := chunk + HEAP_TUPLE_SIZE
      let m := write raw td len (fun _ => 0)
      let m := store m (td + OFFSET_T_NATTS) 2 natts
      let m := store m (td + OFFSET_T_HOFF) 1 hoff
      let s ← dataFill src td (td + len) tupleDesc value nulls hasNull natts 0
        { mem := m, data := td + load m (td + OFFSET_T_HOFF) 1,
          infomask := load m (td + OFFSET_T_INFO_MASK) 2 &&& HEAP_XACT_MASK,
          bitp := td + OFFSET_T_BITS - 1, bitmask := CSIGNBIT }
      .ok { tLen := len, tSelf := itemPointerInvalid, tTableOid := INVALID_OID, tData := td,
            mem := store s.mem (td + OFFSET_T_INFO_MASK) 2 (s.infomask ||| HEAP_XMAX_INVALID) }

/-! ## Reading a tuple -/

/-- `heap_att_is_null`. -/
def heapAttIsNull (tup : HeapTuple) (attnum : Int) : Except String Bool :=
  if attnum > tup.tNatts then .ok true
  else if tup.noNulls then .ok false
  else if attnum > 0 then .ok (attIsNull (attnum - 1).toNat tup.tBits)
  else if attnum = 0 then .error "heap_att_is_null: zero attnum disallowed"
  else if attnum < -7 then .error "heap_att_is_null: undefined negative attnum"
  else .ok false

/-- Conversion to `int`. -/
def toInt32 (n : Int) : Int := Int.bmod n (2 ^ 32)

/-- Are any bits before `attnum` clear? -/
def nullsBefore (bits : Nat → UInt8) (attnum : Nat) : Bool :=
  let byte := attnum >>> 3
  let finalbit := attnum &&& 0x07
  if (255 - (bits byte).toNat) &&& ((1 <<< finalbit) - 1) ≠ 0 then true
  else (List.range byte).any (fun i => bits i != 0xFF)

/-- `while (j < attnum && att[j]->attcacheoff > 0) j++`, with `k` candidates left. -/
def skipCached (cache : AttCache) : Nat → Nat → Nat
  | 0, j => j
  | k + 1, j => if cache j > 0 then skipCached cache k (j + 1) else j

/-- The loop that caches offsets up to `attnum` and beyond it while it can;
`k` attributes of the tuple are left. -/
def cacheOffsets (tupleDesc : TupleDesc) (tuple : HeapTuple) (attnum : Nat) :
    Nat → Nat → Int → AttCache → AttCache
  | 0, _, _, cache => cache
  | k + 1, j, off, cache =>
    let att := tupleDesc.att j
    if j ≤ attnum ∨ (j < tuple.tNatts ∧ cache j = -1 ∧
        (tuple.noNulls = true ∨ attIsNull j tuple.tBits = false) ∧
        (tuple.allFixed = true ∨ att.attlen > 0)) then
      let off := attAlign off att.attalign
      let cache := Function.update cache j (toInt32 off)
      let off := attAddLength off att.attlen
        (varattSize tuple.mem (tuple.tData + tuple.tHoff + off).toNat)
      cacheOffsets tupleDesc tuple attnum k (j + 1) off cache
    else cache

/-- The loop that walks the tuple carefully, with `k` attributes left. -/
def walkTuple (tupleDesc : TupleDesc) (tuple : HeapTuple) :
    Nat → Nat → Int → Bool → AttCache → Int × AttCache
  | 0, _, off, _, cache => (off, cache)
  | k + 1, i, off, usecache, cache =>
    let att := tupleDesc.att i
    if tuple.noNulls = false ∧ attIsNull i tuple.tBits = true then
      walkTuple tupleDesc tuple k (i + 1) off false cache
    else
      let known := usecache = true ∧ cache i ≠ -1
      let off := if known then cache i else toInt32 (attAlign off att.attalign)
      let cache := if usecache = true ∧ ¬known then Function.update cache i off else cache
      let off := toInt32 (attAddLength off att.attlen
        (varattSize tuple.mem (tuple.tData + tuple.tHoff + off).toNat))
      walkTuple tupleDesc tuple k (i + 1) off (usecache && att.attlen != -1) cache

/-- `no_cache_get_attr`. -/
def noCacheGetAttr (tupleDesc : TupleDesc) (tuple : HeapTuple) (attnum : Nat) (cache : AttCache) :
    Datum × AttCache :=
  let attnum := attnum - 1
  let att := tupleDesc.att attnum
  let tp : Int := tuple.tData + tuple.tHoff
  let slow := if tuple.noNulls then false else nullsBefore tuple.tBits attnum
  if slow = false ∧ cache attnum ≠ -1 then
    (fetchAtt tuple.mem att (tp + cache attnum).toNat, cache)
  else
    let slow := slow || (!tuple.allFixed &&
      (List.range (attnum + 1)).any (fun j => decide ((tupleDesc.att j).attlen ≤ 0)))
    if slow = false then
      let cache := Function.update cache 0 0
      let j := skipCached cache (attnum - 1) 1
      let off := cache (j - 1) + (tupleDesc.att (j - 1)).attlen
      let cache := cacheOffsets tupleDesc tuple attnum (max (attnum + 1) tuple.tNatts - j) j off cache
      (fetchAtt tuple.mem att (tp + cache attnum).toNat, cache)
    else
      let r := walkTuple tupleDesc tuple attnum 0 0 true cache
      (fetchAtt tuple.mem att (tp + toInt32 (attAlign r.1 att.attalign)).toNat, r.2)

/-- The datum, `*isnull`, and the cache left behind. -/
structure Fetched where
  datum : Datum
  isnull : Bool
  cache : AttCache

/-- `FAST_GET_ATTR`. -/
def fastGetAttr (tupleDesc : TupleDesc) (tup : HeapTuple) (attnum : Nat) (cache : AttCache) : Fetched :=
  let viaWalk : Fetched :=
    let r := noCacheGetAttr tupleDesc tup attnum cache
    { datum := r.1, isnull := false, cache := r.2 }
  if tup.noNulls then
    if cache (attnum - 1) ≥ 0 then
      { datum := fetchAtt tup.mem (tupleDesc.att (attnum - 1))
          (tup.tData + tup.tHoff + cache (attnum - 1)).toNat
        isnull := false, cache := cache }
    else viaWalk
  else if attIsNull (attnum - 1) tup.tBits then { datum := 0, isnull := true, cache := cache }
  else viaWalk

/-- `HEAP_GET_ATTR` of a user attribute. -/
def heapGetAttr (tupleDesc : TupleDesc) (tup : HeapTuple) (attnum : Nat) (cache : AttCache) : Fetched :=
  if attnum > tup.tNatts then { datum := 0, isnull := true, cache := cache }
  else fastGetAttr tupleDesc tup attnum cache

end PostgresV7.Heap
