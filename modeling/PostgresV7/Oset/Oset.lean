import Mathlib.Algebra.Group.Nat.Defs
import Mathlib.Data.Set.Basic
import Mathlib.Logic.Function.Basic
import Mathlib.Tactic.Common

/-!
# Ordered sets (`oset.c`)

Memory consists of words of eight bytes at their addresses. The fields are read and written where
they are in `OrderedElemData` and `OrderedSetData`, also where a pointer to an element is one into
the fields of a set.
-/

namespace PostgresV7.Oset

def NULL : UInt64 := 0

/-- The words, by the addresses of their first bytes. -/
structure Memory where
  word : UInt64 → UInt64

/-! ## Fields -/

/-- `next`, `prev` and `set` of `OrderedElemData`. -/
def nextField : UInt64 := 0

def prevField : UInt64 := 8

def setField : UInt64 := 16

/-- `head`, `dummy`, `tail` and `offset` of `OrderedSetData`. -/
def headField : UInt64 := 0

def dummyField : UInt64 := 8

def tailField : UInt64 := 16

def offsetField : UInt64 := 24

/-- A field of what a pointer points to. `NULL` cannot be followed. -/
def load (m : Memory) (p field : UInt64) : Option UInt64 := if p = NULL then none else some (m.word (p + field))

def store (m : Memory) (p field v : UInt64) : Option Memory :=
  if p = NULL then none else some ⟨Function.update m.word (p + field) v⟩

/-- An `int` takes the first half of a word. -/
def getInt (word : UInt64) : Int32 := word.toUInt32.toInt32

/-- The other half is left alone. -/
def setInt (word : UInt64) (v : Int32) : UInt64 := .ofBitVec (word.toBitVec.extractLsb' 32 32 ++ v.toBitVec)

theorem getInt_setInt (word : UInt64) (v : Int32) : getInt (setInt word v) = v := by
  apply Int32.toBitVec_inj.mp
  show (word.toBitVec.extractLsb' 32 32 ++ v.toBitVec).setWidth 32 = v.toBitVec
  rw [BitVec.setWidth_append, dif_pos (Nat.le_refl 32), BitVec.setWidth_eq]

/-! ## The functions -/

/-- `ordered_elem_push_head`. `none` is a `NULL` that is followed, here and below. -/
def orderedElemPushHead (m : Memory) (elem : UInt64) : Option Memory := do
  let m ← store m elem nextField (← load m (← load m elem setField) headField)
  let m ← store m elem prevField ((← load m elem setField) + headField)
  let m ← store m (← load m elem nextField) prevField elem
  store m (← load m elem prevField) nextField elem

/-- `ordered_elem_push`. -/
def orderedElemPush (m : Memory) (elem : UInt64) : Option Memory := orderedElemPushHead m elem

/-- `ordered_elem_get_base`: the record that the element is a field of. -/
def orderedElemGetBase (m : Memory) (elem : UInt64) : Option UInt64 :=
  if elem = NULL then some NULL
  else do
    let offset := getInt (← load m (← load m elem setField) offsetField)
    some (elem - offset.toInt64.toUInt64)

/-- `ordered_set_init`. -/
def orderedSetInit (m : Memory) (set : UInt64) (offset : Int32) : Option Memory := do
  let m ← store m set headField (set + dummyField)
  let m ← store m set dummyField NULL
  let m ← store m set tailField (set + headField)
  store m set offsetField (setInt (← load m set offsetField) offset)

/-- `ordered_set_get_head`. -/
def orderedSetGetHead (m : Memory) (set : UInt64) : Option UInt64 := do
  let elem ← load m set headField
  if (← load m elem nextField) ≠ NULL then orderedElemGetBase m elem else some NULL

/-- `ordered_elem_get_predecessor`. -/
def orderedElemGetPredecessor (m : Memory) (elem : UInt64) : Option UInt64 := do
  let elem ← load m elem prevField
  if (← load m elem prevField) ≠ NULL then orderedElemGetBase m elem else some NULL

/-- `ordered_elem_get_successor`. -/
def orderedElemGetSuccessor (m : Memory) (elem : UInt64) : Option UInt64 := do
  let elem ← load m elem nextField
  if (← load m elem nextField) ≠ NULL then orderedElemGetBase m elem else some NULL

/-- `ordered_elem_pop`. -/
def orderedElemPop (m : Memory) (elem : UInt64) : Option Memory := do
  let m ← store m (← load m elem nextField) prevField (← load m elem prevField)
  let m ← store m (← load m elem prevField) nextField (← load m elem nextField)
  let m ← store m elem nextField NULL
  store m elem prevField NULL

/-- `ordered_elem_push_into`. -/
def orderedElemPushInto (m : Memory) (elem set : UInt64) : Option Memory := do
  let m ← store m elem setField set
  let m ← store m elem nextField NULL
  let m ← store m elem prevField NULL
  orderedElemPush m elem

/-! ## Objects -/

section

variable {elems sets : Set UInt64}

def base : elems ⊕ sets → UInt64 := Sum.elim (·) (·)

/-- `sizeof` of the two structs. -/
def size : elems ⊕ sets → Nat := Sum.elim (fun _ => 24) (fun _ => 32)

end

/-- The elements and sets of a program, which lie apart. -/
structure Objects where
  elems : Set UInt64
  sets : Set UInt64
  inside : ∀ x : elems ⊕ sets, base x ≠ NULL ∧ (base x).toNat + size x ≤ 2 ^ 64
  apart : ∀ x y : elems ⊕ sets, x ≠ y →
    (base x).toNat + size x ≤ (base y).toNat ∨ (base y).toNat + size y ≤ (base x).toNat

variable {O : Objects}

/-- The words of the objects. -/
inductive Word (O : Objects) where
  | next (e : O.elems)
  | prev (e : O.elems)
  | set (e : O.elems)
  | head (s : O.sets)
  | dummy (s : O.sets)
  | tail (s : O.sets)
  | offset (s : O.sets)

namespace Word

def object : Word O → O.elems ⊕ O.sets
  | next e | prev e | set e => .inl e
  | head s | dummy s | tail s | offset s => .inr s

def field : Word O → UInt64
  | next _ => nextField
  | prev _ => prevField
  | set _ => setField
  | head _ => headField
  | dummy _ => dummyField
  | tail _ => tailField
  | offset _ => offsetField

def addr (w : Word O) : UInt64 := base w.object + w.field

/-- A field lies within its object. -/
theorem field_lt (w : Word O) : w.field.toNat < size w.object := by
  cases w <;> simp only [field, object, size, Sum.elim_inl, Sum.elim_inr] <;> decide

theorem toNat_addr (w : Word O) : w.addr.toNat = (base w.object).toNat + w.field.toNat := by
  have hinside := (O.inside w.object).2
  have hfield := w.field_lt
  unfold addr
  rw [UInt64.toNat_add, Nat.mod_eq_of_lt (by omega)]

theorem field_inj {w w' : Word O} (hobject : w.object = w'.object) (hfield : w.field = w'.field) : w = w' := by
  have hne : nextField ≠ prevField ∧ nextField ≠ setField ∧ prevField ≠ setField ∧ headField ≠ dummyField ∧
      headField ≠ tailField ∧ headField ≠ offsetField ∧ dummyField ≠ tailField ∧ dummyField ≠ offsetField ∧
      tailField ≠ offsetField := by decide
  cases w <;> cases w' <;> simp_all [object, field, eq_comm]

/-- No two words are at one address. -/
theorem addr_injective : Function.Injective (addr : Word O → UInt64) := by
  intro w w' heq
  have hsum := congrArg UInt64.toNat heq
  rw [toNat_addr, toNat_addr] at hsum
  have hobject : w.object = w'.object := by
    by_contra hne
    have hfield := w.field_lt
    have hfield' := w'.field_lt
    have hapart := O.apart _ _ hne
    omega
  refine field_inj hobject (UInt64.toNat_inj.mp ?_)
  rw [hobject] at hsum
  exact Nat.add_left_cancel hsum

instance : DecidableEq (Word O) := addr_injective.decidableEq

end Word

namespace Memory

def get (m : Memory) (w : Word O) : UInt64 := m.word w.addr

def put (m : Memory) (w : Word O) (v : UInt64) : Memory := ⟨Function.update m.word w.addr v⟩

theorem get_put (m : Memory) (w : Word O) (v : UInt64) : (m.put w v).get = Function.update (m.get (O := O)) w v :=
  Function.update_comp_eq_of_injective m.word Word.addr_injective w v

end Memory

/-! ## Places

A set is the element before its first one and, from `dummy` on, the one behind its last.
-/

inductive Place (O : Objects) where
  | front (s : O.sets)
  | elem (e : O.elems)
  | back (s : O.sets)

namespace Place

/-- What an element next to a place holds. -/
def ptr : Place O → UInt64
  | front s => s + headField
  | elem e => e
  | back s => s + dummyField

/-- Where a pointer to the place has `next`. -/
def nextWord : Place O → Word O
  | front s => .head s
  | elem e => .next e
  | back s => .dummy s

def prevWord : Place O → Word O
  | front s => .dummy s
  | elem e => .prev e
  | back s => .tail s

theorem addr_nextWord (x : Place O) : x.nextWord.addr = x.ptr + nextField := by
  cases x with
  | front s => exact (UInt64.add_zero _).symm
  | elem e => rfl
  | back s => exact (UInt64.add_zero _).symm

theorem addr_prevWord (x : Place O) : x.prevWord.addr = x.ptr + prevField := by
  cases x with
  | front s => exact congrArg (· + prevField) (UInt64.add_zero s.1).symm
  | elem e => rfl
  | back s => exact (UInt64.add_assoc s.1 dummyField prevField).symm

theorem ptr_ne_null (x : Place O) : x.ptr ≠ NULL := by
  cases x with
  | front s =>
    rw [ptr, headField, UInt64.add_zero]
    exact (O.inside (.inr s)).1
  | elem e => exact (O.inside (.inl e)).1
  | back s =>
    intro hnull
    have hsum := (Word.dummy s).toNat_addr
    have haddr : (Word.dummy s).addr = NULL := hnull
    rw [haddr] at hsum
    exact absurd hsum (by show 0 ≠ (base _).toNat + 8; omega)

end Place

end PostgresV7.Oset
