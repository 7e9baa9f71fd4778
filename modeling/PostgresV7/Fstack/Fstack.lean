import PostgresV7.Lib.Chain
import PostgresV7.Oset.Oset

/-!
# Fixed stacks (`fstack.c`)

A stack links items that are fields of the structures on it. The stack and the items are words in
memory; pointers to the structures are `offset` bytes before their items.
-/

namespace PostgresV7.Fstack

open Chains
open Oset (Memory NULL load store getInt setInt getInt_setInt)

/-- `next` of `FixedItemData`, `top` and `offset` of `FixedStackData`. -/
def nextField : UInt64 := 0

def topField : UInt64 := 0

def offsetField : UInt64 := 8

/-! ## The functions

`none` is a `NULL` that is followed or an assertion that fails.
-/

/-- `stack->offset`, as it is added to a pointer. -/
def getOffset (m : Memory) (stack : UInt64) : Option UInt64 := do
  let offset := getInt (← load m stack offsetField)
  return offset.toInt64.toUInt64

/-- `FIXED_STACK_GET_ITEM_BASE`. -/
def fixedStackGetItemBase (m : Memory) (stack item : UInt64) : Option UInt64 := do
  return item - (← getOffset m stack)

/-- `FIXED_STACK_GET_ITEM`. -/
def fixedStackGetItem (m : Memory) (stack pointer : UInt64) : Option UInt64 := do
  return pointer + (← getOffset m stack)

/-- `fixed_stack_init`. -/
def fixedStackInit (m : Memory) (stack : UInt64) (offset : Int32) : Option Memory := do
  let m ← store m stack topField NULL
  store m stack offsetField (setInt (← load m stack offsetField) offset)

/-- `fixed_stack_pop`. -/
def fixedStackPop (m : Memory) (stack : UInt64) : Option (UInt64 × Memory) := do
  let top ← load m stack topField
  if top = NULL then return (NULL, m)
  let pointer ← fixedStackGetItemBase m stack top
  let m ← store m stack topField (← load m top nextField)
  return (pointer, m)

/-- `fixed_stack_push`. -/
def fixedStackPush (m : Memory) (stack pointer : UInt64) : Option Memory := do
  let item ← fixedStackGetItem m stack pointer
  if pointer = NULL then none
  let m ← store m item nextField (← load m stack topField)
  store m stack topField item

/-- `fixed_stack_get_top`. -/
def fixedStackGetTop (m : Memory) (stack : UInt64) : Option UInt64 := do
  let top ← load m stack topField
  if top = NULL then return NULL
  fixedStackGetItemBase m stack top

/-- The loop of `fixed_stack_contains`. -/
def containsLoop (m : Memory) (item : UInt64) (fuel : Nat) (next : UInt64) : Option Bool :=
  if next = NULL then some false
  else
    match fuel with
    | 0 => none
    | fuel + 1 => if next = item then some true else do containsLoop m item fuel (← load m next nextField)

/-- `fixed_stack_contains`. -/
def fixedStackContains (m : Memory) (fuel : Nat) (stack pointer : UInt64) : Option Bool := do
  if pointer = NULL then none
  let item ← fixedStackGetItem m stack pointer
  containsLoop m item fuel (← load m stack topField)

/-- `fixed_stack_get_next`. -/
def fixedStackGetNext (m : Memory) (fuel : Nat) (stack pointer : UInt64) : Option UInt64 := do
  if ¬ (← fixedStackContains m fuel stack pointer) then none
  let item ← load m (← fixedStackGetItem m stack pointer) nextField
  if item = NULL then return NULL
  fixedStackGetItemBase m stack item

/-! ## Items and stacks -/

section

variable {items fixedStacks : Set UInt64}

def base : items ⊕ fixedStacks → UInt64 := Sum.elim (·) (·)

/-- `sizeof` of the two structs. -/
def size : items ⊕ fixedStacks → Nat := Sum.elim (fun _ => 8) (fun _ => 16)

end

/-- The items and stacks of a program, which lie apart. -/
structure Objects where
  items : Set UInt64
  fixedStacks : Set UInt64
  inside : ∀ x : items ⊕ fixedStacks, base x ≠ NULL ∧ (base x).toNat + size x ≤ 2 ^ 64
  apart : ∀ x y : items ⊕ fixedStacks, x ≠ y →
    (base x).toNat + size x ≤ (base y).toNat ∨ (base y).toNat + size y ≤ (base x).toNat

namespace Objects

variable {O : Objects}

theorem item_ne_null (e : O.items) : e.1 ≠ NULL := (O.inside (.inl e)).1

theorem stack_ne_null (s : O.fixedStacks) : s.1 ≠ NULL := (O.inside (.inr s)).1

theorem toNat_offset (s : O.fixedStacks) : (s.1 + offsetField).toNat = s.1.toNat + 8 := by
  have hinside : s.1.toNat + 16 ≤ 2 ^ 64 := (O.inside (.inr s)).2
  have hfield : offsetField.toNat = 8 := rfl
  rw [UInt64.toNat_add, hfield, Nat.mod_eq_of_lt (by omega)]

theorem item_apart (e : O.items) (s : O.fixedStacks) : e.1.toNat + 8 ≤ s.1.toNat ∨ s.1.toNat + 16 ≤ e.1.toNat :=
  O.apart (.inl e) (.inr s) Sum.inl_ne_inr

theorem item_ne_stack (e : O.items) (s : O.fixedStacks) : e.1 ≠ s.1 := by
  intro heq
  have hapart := item_apart e s
  rw [heq] at hapart
  omega

theorem item_ne_offset (e : O.items) (s : O.fixedStacks) : e.1 ≠ s.1 + offsetField := by
  intro heq
  have hapart := item_apart e s
  rw [heq, toNat_offset] at hapart
  omega

theorem stack_ne_offset (s s' : O.fixedStacks) : s.1 ≠ s'.1 + offsetField := by
  intro heq
  have hsum := congrArg UInt64.toNat heq
  rw [toNat_offset] at hsum
  by_cases hs : s = s'
  · rw [hs] at hsum
    omega
  · have hapart : s.1.toNat + 16 ≤ s'.1.toNat ∨ s'.1.toNat + 16 ≤ s.1.toNat :=
      O.apart (.inr s) (.inr s') fun h => hs (Sum.inr.inj h)
    omega

end Objects

end PostgresV7.Fstack
