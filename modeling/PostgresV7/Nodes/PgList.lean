import PostgresV7.Nodes.Equalfuncs
import Mathlib.Logic.Function.Basic

/-!
# List handling (`list.c`, `pg_list.h`, `nodes.c`)

The routines run on node memory: a new cell comes from `palloc` through
`new_node`, links are written in place. The fuel bounds the walks along a list;
a walk that exceeds it has not returned. `NIL` and addresses of other nodes
cannot be read as cells.
-/

namespace PostgresV7.Nodes

/-! ## Memory -/

/-- Node memory with no node at `limit` or above. -/
structure Memory where
  heap : Heap
  limit : Nat
  unused : ∀ p : Nat, limit ≤ p → heap.node p = none

namespace Memory

/-- The node at `p` becomes `x`. -/
def write (m : Memory) (p : Nat) (x : Node) : Memory where
  heap := { m.heap with node := Function.update m.heap.node p (some x) }
  limit := max m.limit (p + 1)
  unused q hq := by
    have hne : q ≠ p := by omega
    simp only [Function.update_of_ne hne]
    exact m.unused q (by omega)

@[simp] theorem write_node_self (m : Memory) (p : Ptr) (x : Node) :
    (m.write p x).heap.node p = some x := by simp [write]

@[simp] theorem write_node_of_ne (m : Memory) {p q : Ptr} (x : Node) (h : q ≠ p) :
    (m.write p x).heap.node q = m.heap.node q := by simp [write, h]

end Memory

/-- What the list routines rely on of `palloc`: an address that holds no node. -/
structure Palloc where
  address : Memory → Ptr
  address_ne_nil : ∀ m : Memory, address m ≠ NIL
  address_unused : ∀ m : Memory, m.heap.node (address m) = none

/-- Reading a cell. -/
def cellAt (h : Heap) (l : Ptr) : Except Fault ListCell :=
  if l = NIL then .error .badPointer
  else
    match h.node l with
    | some ⟨.list, c⟩ => .ok c
    | _ => .error .badPointer

/-- `LNEXT(l) = next`. -/
def setNext (m : Memory) (l next : Ptr) : Except Fault Memory := do
  let c ← cellAt m.heap l
  return m.write l ⟨.list, { c with next := next }⟩

/-- `FOR_EACH` with a body that may return early: whether it did. -/
def forEachUntil (h : Heap) (body : ListCell → Except Fault Bool) (fuel : Nat) (l : Ptr) :
    Except Fault Bool :=
  if l = NIL then .ok false
  else
    match fuel with
    | 0 => .error .depth
    | fuel + 1 => do
      let c ← cellAt h l
      if ← body c then return true
      forEachUntil h body fuel c.next

/-- `FOR_EACH` with a body that works on memory and one list variable. The link
to the next cell is read after the body has run. -/
def forEach (body : ListCell → Ptr → Memory → Except Fault (Ptr × Memory)) (fuel : Nat)
    (l var : Ptr) (m : Memory) : Except Fault (Ptr × Memory) :=
  if l = NIL then .ok (var, m)
  else
    match fuel with
    | 0 => .error .depth
    | fuel + 1 => do
      let c ← cellAt m.heap l
      let (var, m) ← body c var m
      let c ← cellAt m.heap l
      forEach body fuel c.next var m

/-! ## Building lists -/

/-- The loop of `nconc`: the cell in front of `NIL`. -/
def lastCell (h : Heap) : Nat → Ptr → Except Fault Ptr
  | 0, _ => .error .depth
  | fuel + 1, temp => do
    let c ← cellAt h temp
    if c.next = NIL then return temp
    lastCell h fuel c.next

/-- `nconc`. The link goes into the first cell, not into the one the loop has
found. -/
def nconc (m : Memory) (fuel : Nat) (list1 list2 : Ptr) : Except Fault (Ptr × Memory) := do
  if list1 = NIL then return (list2, m)
  if list2 = NIL then return (list1, m)
  if list1 = list2 then throw .elogError
  let _temp ← lastCell m.heap fuel list1
  let m ← setNext m list1 list2
  return (list1, m)

section Allocating

variable (palloc : Palloc)

/-- `lcons`. -/
def lcons (m : Memory) (datum list : Ptr) : Ptr × Memory :=
  let l := palloc.address m
  (l, m.write l ⟨.list, ⟨datum, list⟩⟩)

/-- `lconsi`. `new_node` has cleared the rest of the union. -/
def lconsi (m : Memory) (datum : UInt32) (list : Ptr) : Ptr × Memory :=
  lcons palloc m datum.toNat list

/-- The end of the arguments of `make_list`: `(void*)-1`. -/
def END_OF_LIST : Ptr := 2 ^ 64 - 1

/-- The loop of `make_list` over the arguments still to be read. It never moves
`temp_cons`. -/
def makeListLoop (tempCons : Ptr) :
    List Ptr → Ptr → Memory → Except Fault (Ptr × Memory)
  | [], _, _ => .error .overread
  | temp :: args, retval, m => do
    if temp = END_OF_LIST then return (retval, m)
    let (cell, m) := lcons palloc m temp NIL
    if tempCons = NIL then
      makeListLoop tempCons args cell m
    else
      let m ← setNext m tempCons cell
      makeListLoop tempCons args retval m

/-- `make_list`. -/
def makeList (m : Memory) (args : List Ptr) : Except Fault (Ptr × Memory) :=
  makeListLoop palloc NIL args NIL m

/-- `lappend`. -/
def lappend (m : Memory) (fuel : Nat) (list datum : Ptr) : Except Fault (Ptr × Memory) :=
  let (l, m) := lcons palloc m datum NIL
  nconc m fuel list l

/-- `lappendi`. -/
def lappendi (m : Memory) (fuel : Nat) (list : Ptr) (datum : UInt32) :
    Except Fault (Ptr × Memory) :=
  let (l, m) := lconsi palloc m datum NIL
  nconc m fuel list l

/-- The loop body of `list_copy`: a new cell is linked behind `nl`. -/
def copyCell (c : ListCell) (nl : Ptr) (m : Memory) : Except Fault (Ptr × Memory) := do
  let (cell, m) := lcons palloc m c.first NIL
  let m ← setNext m nl cell
  return (cell, m)

/-- `list_copy`. It reads the first cell whether there is one or not. -/
def listCopy (m : Memory) (fuel : Nat) (list : Ptr) : Except Fault (Ptr × Memory) := do
  let first ← cellAt m.heap list
  let (nl, m) := lcons palloc m first.first NIL
  let newList := nl
  let first ← cellAt m.heap list
  let (_, m) ← forEach (copyCell palloc) fuel first.next nl m
  return (newList, m)

end Allocating

/-! ## Membership -/

/-- `member`. The loop of the original is commented out. -/
def member (_datum _list : Ptr) : Bool := false

/-- `int_member`. -/
def intMember (h : Heap) (fuel : Nat) (datum : UInt32) (list : Ptr) : Except Fault Bool :=
  forEachUntil h (fun c => .ok (datum == c.firstI)) fuel list

/-! ## Lists as sets -/

/-- The loop body of the difference and the union: what is not found is appended. -/
def addUnless (found : Memory → ListCell → Ptr → Except Fault Bool)
    (append : Memory → Ptr → ListCell → Except Fault (Ptr × Memory)) (c : ListCell) (result : Ptr)
    (m : Memory) : Except Fault (Ptr × Memory) := do
  if !(← found m c result) then return ← append m result c
  return (result, m)

section Sets

variable (palloc : Palloc)

/-- `set_difference`. -/
def setDifference (m : Memory) (fuel : Nat) (list1 list2 : Ptr) : Except Fault (Ptr × Memory) :=
  if list2 = NIL then listCopy palloc m fuel list1
  else
    forEach (addUnless (fun _ c _ => .ok (member c.first list2))
      fun m result c => lappend palloc m fuel result c.first) fuel list1 NIL m

/-- `set_differencei`. -/
def setDifferencei (m : Memory) (fuel : Nat) (list1 list2 : Ptr) : Except Fault (Ptr × Memory) :=
  if list2 = NIL then listCopy palloc m fuel list1
  else
    forEach (addUnless (fun m c _ => intMember m.heap fuel c.firstI list2)
      fun m result c => lappendi palloc m fuel result c.firstI) fuel list1 NIL m

/-- `lisp_union`. -/
def lispUnion (m : Memory) (fuel : Nat) (list1 list2 : Ptr) : Except Fault (Ptr × Memory) := do
  let (retval, m) ← listCopy palloc m fuel list1
  forEach (addUnless (fun _ c retval => .ok (member c.first retval))
    fun m retval c => lappend palloc m fuel retval c.first) fuel list2 retval m

/-- `lisp_unioni`. -/
def lispUnioni (m : Memory) (fuel : Nat) (list1 list2 : Ptr) : Except Fault (Ptr × Memory) := do
  let (retval, m) ← listCopy palloc m fuel list1
  forEach (addUnless (fun m c retval => intMember m.heap fuel c.firstI retval)
    fun m retval c => lappendi palloc m fuel retval c.firstI) fuel list2 retval m

end Sets

/-- `is_subseti`. -/
def isSubseti (h : Heap) (fuel : Nat) (list1 list2 : Ptr) : Except Fault Bool := do
  let missing ← forEachUntil h (fun c => do
    return !(← intMember h fuel c.firstI list2)) fuel list1
  return !missing

/-- `non_overlap_setsi`. -/
def nonOverlapSetsi (h : Heap) (fuel : Nat) (list1 list2 : Ptr) : Except Fault Bool := do
  let common ← forEachUntil h (fun c => intMember h fuel c.firstI list2) fuel list1
  return !common

/-- `same_seti`. -/
def sameSeti (h : Heap) (fuel : Nat) (list1 list2 : Ptr) : Except Fault Bool := do
  if list1 = NIL then return list2 == NIL
  if list2 = NIL then return false
  if (← length h fuel list1) ≠ (← length h fuel list2) then return false
  let missing ← forEachUntil h (fun c => do
    return !(← intMember h fuel c.firstI list2)) fuel list1
  return !missing

end PostgresV7.Nodes
