import PostgresV7.Lib.Links
import PostgresV7.Lib.Outcomes
import Mathlib.Tactic.Common

/-!
# Doubly linked lists (`dllist.c`)

Elements and list headers are known by their addresses, each field by a map of its own. An address
`0` is `NULL`; to follow it is a fault, as a failed assertion is. The value of an element is its
owner's.
-/

namespace PostgresV7.Dllist

open Links Outcomes

def NULL : Nat := 0

/-- The fields of `Dlelem` and `Dllist`. -/
structure Memory where
  dleNext : Nat → Nat
  dlePrev : Nat → Nat
  dleList : Nat → Nat
  dllHead : Nat → Nat
  dllTail : Nat → Nat

inductive Fault where
  | null
  | assertion
  deriving DecidableEq, Repr

/-- A pointer that is followed. -/
def deref (p : Nat) : Except Fault Unit := if p = NULL then .error .null else .ok ()

/-- `Assert`. -/
def assert (condition : Prop) [Decidable condition] : Except Fault Unit :=
  if condition then .ok () else .error .assertion

namespace Memory

def setNext (m : Memory) (e v : Nat) : Memory := { m with dleNext := Function.update m.dleNext e v }

def setPrev (m : Memory) (e v : Nat) : Memory := { m with dlePrev := Function.update m.dlePrev e v }

def setList (m : Memory) (e v : Nat) : Memory := { m with dleList := Function.update m.dleList e v }

def setHead (m : Memory) (l v : Nat) : Memory := { m with dllHead := Function.update m.dllHead l v }

def setTail (m : Memory) (l v : Nat) : Memory := { m with dllTail := Function.update m.dllTail l v }

end Memory

/-- `DLInitList`. -/
def dlInitList (m : Memory) (list : Nat) : Except Fault Memory := do
  deref list
  .ok ((m.setHead list NULL).setTail list NULL)

/-- `DLInitElem`. -/
def dlInitElem (m : Memory) (e : Nat) : Except Fault Memory := do
  deref e
  .ok (((m.setNext e NULL).setPrev e NULL).setList e NULL)

/-- The link of `DLRemove` past the element, from the one before it. -/
def unlinkPrev (m : Memory) (l e : Nat) : Except Fault Memory := do
  if m.dlePrev e ≠ NULL then .ok (m.setNext (m.dlePrev e) (m.dleNext e))
  else
    deref l
    assert (e = m.dllHead l)
    .ok (m.setHead l (m.dleNext e))

/-- The link of `DLRemove` and `DLMoveToFront` past the element, from the one behind it. -/
def unlinkNext (m : Memory) (l e : Nat) : Except Fault Memory := do
  if m.dleNext e ≠ NULL then .ok (m.setPrev (m.dleNext e) (m.dlePrev e))
  else
    deref l
    assert (e = m.dllTail l)
    .ok (m.setTail l (m.dlePrev e))

/-- `DLRemove`. -/
def dlRemove (m : Memory) (e : Nat) : Except Fault Memory := do
  deref e
  let l := m.dleList e
  let m ← unlinkPrev m l e
  let m ← unlinkNext m l e
  .ok (((m.setNext e NULL).setPrev e NULL).setList e NULL)

/-- `DLAddHead`. -/
def dlAddHead (m : Memory) (l e : Nat) : Except Fault Memory := do
  deref l
  deref e
  let m := m.setList e l
  let m := if m.dllHead l ≠ NULL then m.setPrev (m.dllHead l) e else m
  let m := m.setNext e (m.dllHead l)
  let m := m.setPrev e NULL
  let m := m.setHead l e
  .ok (if m.dllTail l = NULL then m.setTail l e else m)

/-- `DLAddTail`. -/
def dlAddTail (m : Memory) (l e : Nat) : Except Fault Memory := do
  deref l
  deref e
  let m := m.setList e l
  let m := if m.dllTail l ≠ NULL then m.setNext (m.dllTail l) e else m
  let m := m.setPrev e (m.dllTail l)
  let m := m.setNext e NULL
  let m := m.setTail l e
  .ok (if m.dllHead l = NULL then m.setHead l e else m)

/-- `DLRemHead`. -/
def dlRemHead (m : Memory) (l : Nat) : Except Fault (Nat × Memory) := do
  deref l
  let result := m.dllHead l
  if result = NULL then .ok (result, m)
  else
    let m := if m.dleNext result ≠ NULL then m.setPrev (m.dleNext result) NULL else m
    let m := m.setHead l (m.dleNext result)
    let m := if result = m.dllTail l then m.setTail l NULL else m
    .ok (result, (m.setNext result NULL).setList result NULL)

/-- `DLRemTail`. -/
def dlRemTail (m : Memory) (l : Nat) : Except Fault (Nat × Memory) := do
  deref l
  let result := m.dllTail l
  if result = NULL then .ok (result, m)
  else
    let m := if m.dlePrev result ≠ NULL then m.setNext (m.dlePrev result) NULL else m
    let m := m.setTail l (m.dlePrev result)
    let m := if result = m.dllHead l then m.setHead l NULL else m
    .ok (result, (m.setPrev result NULL).setList result NULL)

/-- `DLMoveToFront`. -/
def dlMoveToFront (m : Memory) (e : Nat) : Except Fault Memory := do
  deref e
  let l := m.dleList e
  deref l
  if m.dllHead l = e then .ok m
  else
    assert (m.dlePrev e ≠ NULL)
    let m := m.setNext (m.dlePrev e) (m.dleNext e)
    let m ← unlinkNext m l e
    deref (m.dllHead l)
    let m := m.setPrev (m.dllHead l) e
    let m := m.setNext e (m.dllHead l)
    let m := m.setPrev e NULL
    .ok (m.setHead l e)

/-! ## Places

The header of a list is both of its ends: `dll_head` is the link on from the one, `dll_tail` the
link back from the other. Both are `NULL` to the elements next to them.
-/

inductive Place where
  | front (l : Nat)
  | elem (e : Nat)
  | back (l : Nat)
  deriving DecidableEq, Repr

/-- What an element next to a place holds. -/
def Place.ptr : Place → Nat
  | .front _ => NULL
  | .elem e => e
  | .back _ => NULL

theorem elem_ne_front (e l : Nat) : Place.elem e ≠ .front l := nofun

theorem elem_ne_back (e l : Nat) : Place.elem e ≠ .back l := nofun

theorem front_ne_back (l l' : Nat) : Place.front l ≠ .back l' := nofun

theorem back_ne_front (l l' : Nat) : Place.back l ≠ .front l' := nofun

namespace Memory

/-- The link on from a place; there is none behind the last end. -/
def next (m : Memory) : Place → Nat
  | .front l => m.dllHead l
  | .elem e => m.dleNext e
  | .back _ => NULL

/-- The link back from a place. -/
def prev (m : Memory) : Place → Nat
  | .front _ => NULL
  | .elem e => m.dlePrev e
  | .back l => m.dllTail l

/-- Set the link on from a place. -/
def linkNext (m : Memory) (x : Place) (v : Nat) : Memory :=
  match x with
  | .front l => m.setHead l v
  | .elem e => m.setNext e v
  | .back _ => m

/-- Set the link back from a place. -/
def linkPrev (m : Memory) (x : Place) (v : Nat) : Memory :=
  match x with
  | .front _ => m
  | .elem e => m.setPrev e v
  | .back l => m.setTail l v

variable {x : Place}

theorem next_linkNext (m : Memory) (hx : ∀ l, x ≠ .back l) (v : Nat) :
    (m.linkNext x v).next = Function.update m.next x v := by
  funext z
  cases x with
  | front l =>
    cases z with
    | front l' => simp [next, linkNext, setHead, Function.update_apply]
    | elem d => rfl
    | back l' => rfl
  | elem e =>
    cases z with
    | front l' => rfl
    | elem d => simp [next, linkNext, setNext, Function.update_apply]
    | back l' => rfl
  | back l => exact absurd rfl (hx l)

theorem prev_linkPrev (m : Memory) (hx : ∀ l, x ≠ .front l) (v : Nat) :
    (m.linkPrev x v).prev = Function.update m.prev x v := by
  funext z
  cases x with
  | front l => exact absurd rfl (hx l)
  | elem e =>
    cases z with
    | front l' => rfl
    | elem d => simp [prev, linkPrev, setPrev, Function.update_apply]
    | back l' => rfl
  | back l =>
    cases z with
    | front l' => rfl
    | elem d => rfl
    | back l' => simp [prev, linkPrev, setTail, Function.update_apply]

theorem prev_linkNext (m : Memory) (x : Place) (v : Nat) : (m.linkNext x v).prev = m.prev := by
  cases x <;> rfl

theorem next_linkPrev (m : Memory) (x : Place) (v : Nat) : (m.linkPrev x v).next = m.next := by
  cases x <;> rfl

/-- The links of all places and the owners make up the memory. -/
theorem ext_places {m m' : Memory} (hnext : m.next = m'.next) (hprev : m.prev = m'.prev)
    (hlist : m.dleList = m'.dleList) : m = m' := by
  have hhead : m.dllHead = m'.dllHead := funext fun l => congrFun hnext (.front l)
  have hdleNext : m.dleNext = m'.dleNext := funext fun e => congrFun hnext (.elem e)
  have hdlePrev : m.dlePrev = m'.dlePrev := funext fun e => congrFun hprev (.elem e)
  have htail : m.dllTail = m'.dllTail := funext fun l => congrFun hprev (.back l)
  cases m
  cases m'
  simp_all

end Memory

end PostgresV7.Dllist
