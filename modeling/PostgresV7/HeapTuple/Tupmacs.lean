import PostgresV7.Base
import PostgresV7.Lib.Bytes
import PostgresV7.Lib.Layout
import Mathlib.Data.Nat.Bitwise
import Mathlib.Logic.Function.Basic

/-!
# Attributes of a tuple (`tupmacs.h`, `pg_attribute.h`, `postgres.h`, `htup.h`)

Offsets are C `int`s or `long`s and stay integers here, so that `-1` is what
`attcacheoff` holds before anything was cached. The offset cache of a descriptor
is the one part of it that changes, so it is kept apart from the attributes.
-/

namespace PostgresV7.Heap

open ByteMem Align

/-- A datum is one 64-bit word: a value, or an address. -/
abbrev Datum := Nat

/-! ## Descriptors -/

/-- `attalign`: `'c'`, `'s'`, `'i'` or `'d'`. -/
inductive AttAlign where
  | char
  | short
  | int
  | double
  deriving DecidableEq, Repr

/-- What tuple access reads of a `Form_pg_attribute`. -/
structure FormPgAttribute where
  attlen : Int
  attbyval : Bool
  attalign : AttAlign
  deriving DecidableEq, Repr

/-- Lengths are positive or `-1`, and by-value ones are machine words. -/
structure FormPgAttribute.Valid (a : FormPgAttribute) : Prop where
  len : 0 < a.attlen ∨ a.attlen = -1
  lt : a.attlen < 2 ^ 15
  byval : a.attbyval = true → a.attlen = 1 ∨ a.attlen = 2 ∨ a.attlen = 4 ∨ a.attlen = 8

/-- A descriptor: attribute number `i + 1` is described by `att i`. -/
structure TupleDesc where
  natts : Nat
  att : Nat → FormPgAttribute
  valid : ∀ i, (att i).Valid

/-- The `attcacheoff` of every attribute; `-1` is not cached. -/
abbrev AttCache := Nat → Int

/-! ## Alignment and length -/

/-- `TYPE_ALIGN` of a `long`: `(size + (alignment - 1)) & ~(alignment - 1)`. -/
def typeAlignLong (alignment : Nat) (size : Int) : Int :=
  (size + (alignment - 1 : Nat)) / alignment * alignment

/-- `ATT_ALIGN`. -/
def attAlign (curOffset : Int) : AttAlign → Int
  | .int => typeAlignLong 4 curOffset
  | .char => curOffset
  | .double => typeAlignLong 8 curOffset
  | .short => typeAlignLong 2 curOffset

/-- `VARATT_SIZEP`, the header word of a varlena value, as 32 bits. -/
def varattSizep (m : Mem) (ptr : Nat) : Nat := load m ptr 4

def VARATT_MASK_SIZE : Nat := 0x3fffffff
def VARATT_FLAG_EXTERNAL : Nat := 0x80000000
def VARATT_FLAG_COMPRESSED : Nat := 0x40000000

def varattSize (m : Mem) (ptr : Nat) : Nat := varattSizep m ptr &&& VARATT_MASK_SIZE
def varattIsExternal (m : Mem) (ptr : Nat) : Bool := varattSizep m ptr &&& VARATT_FLAG_EXTERNAL != 0
def varattIsCompressed (m : Mem) (ptr : Nat) : Bool :=
  varattSizep m ptr &&& VARATT_FLAG_COMPRESSED != 0

/-- `ATT_ADD_LENGTH`; the size of the varlena value is only used when `attlen` is `-1`. -/
def attAddLength (curOffset attlen : Int) (varSize : Nat) : Int :=
  if attlen ≠ -1 then curOffset + attlen else curOffset + varSize

/-! ## The null bitmap -/

/-- `ATT_IS_NULL`: the bit of a null attribute is clear. -/
def attIsNull (att : Nat) (bits : Nat → UInt8) : Bool :=
  (bits (att >>> 3)).toNat &&& (1 <<< (att &&& 0x07)) == 0

/-! ## Fetching and storing -/

/-- `FETCH_ATT`: the value itself, or the address it was asked for. -/
def fetchAtt (m : Mem) (a : FormPgAttribute) (t : Nat) : Datum :=
  if a.attbyval then
    if a.attlen = 8 then load m t 8
    else if a.attlen = 4 then load m t 4
    else if a.attlen = 2 then load m t 2
    else load m t 1
  else t

/-! ## Tuples -/

/-- An `ItemPointerData`: a block and a place in it. -/
structure ItemPointerData where
  ipBlkId : Nat
  ipPosId : Nat
  deriving DecidableEq, Repr

/-- `ITEM_POINTER_SET_INVALID`. -/
def itemPointerInvalid : ItemPointerData := ⟨0, 0⟩

def INVALID_OID : Nat := 0

/-- The header and data of the tuple are the bytes from address `tData` on. -/
structure HeapTuple where
  tLen : Nat
  tSelf : ItemPointerData
  tTableOid : Nat
  tData : Nat
  mem : Mem

def HEAP_HASNULL : Nat := 0x0001
def HEAP_HASVARLENA : Nat := 0x0002
def HEAP_HASEXTERNAL : Nat := 0x0004
def HEAP_HASCOMPRESSED : Nat := 0x0008
def HEAP_XMAX_INVALID : Nat := 0x0800
def HEAP_XACT_MASK : Nat := 0xFF00

def MAX_HEAP_ATTRIBUTE_NUMBER : Nat := 1600
def MAX_ALLOC_SIZE : Nat := 0x3fffffff

/-- `offsetof(HeapTupleHeaderData, ...)`. -/
def OFFSET_T_NATTS : Nat := 26
def OFFSET_T_INFO_MASK : Nat := 28
def OFFSET_T_HOFF : Nat := 30
def OFFSET_T_BITS : Nat := 31

namespace HeapTuple

/-- `t_natts`, which is never negative. -/
def tNatts (t : HeapTuple) : Nat := load t.mem (t.tData + OFFSET_T_NATTS) 2
def tInfoMask (t : HeapTuple) : Nat := load t.mem (t.tData + OFFSET_T_INFO_MASK) 2
def tHoff (t : HeapTuple) : Nat := load t.mem (t.tData + OFFSET_T_HOFF) 1
def tBits (t : HeapTuple) (i : Nat) : UInt8 := t.mem (t.tData + OFFSET_T_BITS + i)

/-- `HEAP_TUPLE_NO_NULLS`. -/
def noNulls (t : HeapTuple) : Bool := t.tInfoMask &&& HEAP_HASNULL == 0

/-- `HEAP_TUPLE_ALL_FIXED`. -/
def allFixed (t : HeapTuple) : Bool := t.tInfoMask &&& HEAP_HASVARLENA == 0

end HeapTuple

/-! ## Properties of the macros -/

/-- The alignment in bytes. -/
def AttAlign.width : AttAlign → Nat
  | .char => 1
  | .short => 2
  | .int => 4
  | .double => 8

theorem AttAlign.width_pos (a : AttAlign) : 0 < a.width := by cases a <;> decide

theorem AttAlign.width_dvd (a : AttAlign) : a.width ∣ 8 := by cases a <;> decide

theorem typeAlignLong_natCast (a n : Nat) : typeAlignLong a n = (alignUp a n : Nat) := by
  unfold typeAlignLong alignUp
  push_cast
  rfl

/-- Aligning a non-negative offset rounds it up. -/
theorem attAlign_natCast (n : Nat) (a : AttAlign) : attAlign n a = (alignUp a.width n : Nat) := by
  cases a with
  | char => rw [AttAlign.width, alignUp_of_dvd Nat.one_pos (Nat.one_dvd n)]; rfl
  | short => exact typeAlignLong_natCast 2 n
  | int => exact typeAlignLong_natCast 4 n
  | double => exact typeAlignLong_natCast 8 n

/-- The length of an attribute placed at `ptr`. -/
def attSize (m : Mem) (a : FormPgAttribute) (ptr : Nat) : Nat :=
  if a.attlen ≠ -1 then a.attlen.toNat else varattSize m ptr

theorem attAddLength_natCast {a : FormPgAttribute} (h : a.Valid) (m : Mem) (n ptr : Nat) :
    attAddLength n a.attlen (varattSize m ptr) = ((n + attSize m a ptr : Nat) : Int) := by
  have hl := h.len
  unfold attAddLength attSize
  by_cases hv : a.attlen ≠ -1
  · rw [if_pos hv, if_pos hv]
    push_cast
    omega
  · rw [if_neg hv, if_neg hv]
    push_cast
    rfl

/-- The bit test, in terms of the bits of the byte. -/
theorem attIsNull_eq (att : Nat) (bits : Nat → UInt8) :
    attIsNull att bits = !(bits (att / 8)).toNat.testBit (att % 8) := by
  have h7 : att &&& 0x07 = att % 8 := Nat.and_two_pow_sub_one_eq_mod att 3
  have h3 : att >>> 3 = att / 8 := Nat.shiftRight_eq_div_pow att 3
  unfold attIsNull
  rw [h7, h3, Nat.one_shiftLeft, Nat.and_two_pow]
  cases (bits (att / 8)).toNat.testBit (att % 8) <;> simp

end PostgresV7.Heap
