import PostgresV7.Aset.Run
import PostgresV7.Lib.Forest

/-!
# Memory contexts (`mctx.c`, `alloc_set_context_create`)

A context is the address of its node. Every set has block and chunk headers of its
own, since no two sets share a block; the nodes other than TopMemoryContext's are
chunks of TopMemoryContext's set. Which contexts there are and which chunks of
TopMemoryContext their creators hold is kept beside the state of the code.
-/

namespace PostgresV7.Mctx

open Regions Forests

def SIZEOF_ALLOC_SET_CONTEXT : Nat := 160

/-- No walk over the tree takes more steps. -/
def FUEL : Nat := 2 ^ 66

/-- A failed assertion, a list without end, `elog(ERROR)` on the size of a request,
or a fault of an allocation set. -/
inductive Fault where
  | assertion
  | endless
  | invalidSize
  | aset (e : Aset.Fault)
  deriving DecidableEq, Repr

structure State where
  valid : Nat → Bool
  links : Links Nat
  sets : Nat → Aset.State
  topMemoryContext : Nat
  currentMemoryContext : Nat
  errorContext : Nat
  contexts : List Nat
  live : List (Nat × Nat)

/-- `MEMORY_CONTEXT_IS_VALID`. -/
def State.isValid (s : State) (context : Nat) : Bool := context != 0 && s.valid context

def State.setSet (s : State) (context : Nat) (st : Aset.State) : State :=
  { s with sets := Function.update s.sets context st }

/-- A call into `aset.c`. -/
def callAset {α : Type} (x : Except Aset.Fault α) : Except Fault α := x.mapError Fault.aset

/-! ## Creation -/

/-- The node TopMemoryContext lives in, from `malloc`. -/
def topRegion (top : Nat) : Region := ⟨top, SIZEOF_ALLOC_SET_CONTEXT + 16 + 1⟩

/-- Space for a node: from TopMemoryContext once there is one. -/
def allocNode (A : Allocator) (s : State) (needed : Nat) : Except Fault (Nat × State) :=
  let top := s.topMemoryContext
  if top ≠ 0 then
    if ¬s.isValid top then .error .assertion
    else if 0 < needed ∧ needed ≤ Aset.MAX_ALLOC_SIZE then do
      let (node, st) ← callAset (Aset.allocSetAlloc (A.reserve (topRegion top)) (s.sets top) needed)
      .ok (node, { s.setSet top st with live := (node, needed) :: s.live })
    else .error .invalidSize
  else
    match A.answer 0 [] needed with
    | none => .error .assertion
    | some node => .ok (node, s)

/-- A node linked in as the first child of its parent. -/
def linkNode (K : Links Nat) (parent node : Nat) : Links Nat :=
  let K := ((K.setParent node 0).setFirst node 0).setNext node 0
  if parent ≠ 0 then
    ((K.setParent node parent).setNext node (K.first parent)).setFirst parent node
  else K

/-- `memory_context_create`; only the length of the name matters. -/
def memoryContextCreate (A : Allocator) (s : State) (size parent nameLen : Nat) :
    Except Fault (Nat × State) := do
  let (node, s) ← allocNode A s (size + nameLen + 1)
  .ok (node, { s with
    valid := Function.update s.valid node true
    links := linkNode s.links parent node
    contexts := node :: s.contexts })

/-- `alloc_set_context_create`. -/
def allocSetContextCreate (A : Allocator) (s : State)
    (parent nameLen minContextSize initBlockSize maxBlockSize : Nat) :
    Except Fault (Nat × State) := do
  let (node, s') ← memoryContextCreate A s SIZEOF_ALLOC_SET_CONTEXT parent nameLen
  let malloc := if s.topMemoryContext = 0 then A.reserve (topRegion node) else A
  let st ← callAset (Aset.allocSetContextCreate malloc Aset.bareMemory node minContextSize
    initBlockSize maxBlockSize)
  .ok (node, s'.setSet node st)

/-- Before anything has run. -/
def bareState : State :=
  let set : Aset.AllocSet :=
    { self := 0, blocks := 0, freelist := fun _ => 0, initBlockSize := 0, maxBlockSize := 0,
      keeper := 0 }
  { valid := fun _ => false, links := ⟨fun _ => 0, fun _ => 0, fun _ => 0⟩,
    sets := fun _ => ⟨set, Aset.bareMemory⟩, topMemoryContext := 0, currentMemoryContext := 0,
    errorContext := 0, contexts := [], live := [] }

/-- `memory_context_init`: TopMemoryContext, and ErrorContext below it. -/
def memoryContextInit (A : Allocator) (s : State) : Except Fault State := do
  if s.topMemoryContext ≠ 0 then .error .assertion
  else
    let (top, s) ← allocSetContextCreate A s 0 16 (8 * 1024) (8 * 1024) (8 * 1024)
    let s := { s with topMemoryContext := top, currentMemoryContext := top }
    let (error, s) ← allocSetContextCreate A s top 12 (8 * 1024) (8 * 1024) (8 * 1024)
    .ok { s with errorContext := error }

/-! ## Reset -/

/-- `context->methods->reset`: nothing of TopMemoryContext's is held any more when it
is TopMemoryContext that is reset. -/
def State.resetMethod (s : State) (context : Nat) : Except Fault State := do
  let st ← callAset (Aset.allocSetReset (s.sets context))
  .ok { s.setSet context st with
    live := if context = s.topMemoryContext then [] else s.live }

mutual

/-- `memory_context_reset`, with `k` steps left. -/
def memoryContextReset : Nat → Nat → State → Except Fault State
  | 0, _, _ => .error .endless
  | k + 1, context, s =>
    if s.isValid context then do
      let s ← memoryContextResetChildren k (s.links.first context) s
      s.resetMethod context
    else .error .assertion

/-- The loop of `memory_context_reset_children` from `child` on. -/
def memoryContextResetChildren : Nat → Nat → State → Except Fault State
  | k, child, s =>
    if child = 0 then .ok s
    else
      match k with
      | 0 => .error .endless
      | k + 1 => do
        let s ← memoryContextReset k child s
        memoryContextResetChildren k (s.links.next child) s

end

/-! ## Delete -/

/-- The loop that looks for the sibling before `context`, with `k` steps left. -/
def unlinkLoop (context : Nat) : Nat → Nat → Links Nat → Except Fault (Links Nat)
  | k, child, K =>
    if child = 0 then .ok K
    else if context = K.next child then .ok (K.setNext child (K.next context))
    else
      match k with
      | 0 => .error .endless
      | k + 1 => unlinkLoop context k (K.next child) K

/-- A context taken out of its parent's list. -/
def unlink (context : Nat) (K : Links Nat) : Except Fault (Links Nat) :=
  let parent := K.parent context
  if parent ≠ 0 then
    if context = K.first parent then .ok (K.setFirst parent (K.next context))
    else unlinkLoop context FUEL (K.first parent) K
  else .ok K

/-- `context->methods->delete`. -/
def State.deleteMethod (s : State) (context : Nat) : Except Fault State := do
  let st ← callAset (Aset.allocSetDelete (s.sets context))
  .ok (s.setSet context st)

/-- `pfree` of a node, whose chunk header names TopMemoryContext. -/
def State.pfree (s : State) (pointer : Nat) : Except Fault State :=
  let top := s.topMemoryContext
  if pointer = 0 ∨ pointer ≠ maxAlign pointer ∨ ¬s.isValid top then .error .assertion
  else do
    let st ← callAset (Aset.allocSetFree (s.sets top) pointer)
    .ok { s.setSet top st with
      live := Aset.without s.live pointer
      contexts := s.contexts.filter (· ≠ pointer) }

mutual

/-- `memory_context_delete`, with `k` steps left. -/
def memoryContextDelete : Nat → Nat → State → Except Fault State
  | 0, _, _ => .error .endless
  | k + 1, context, s =>
    if ¬s.isValid context ∨ context = s.topMemoryContext ∨ context = s.currentMemoryContext then
      .error .assertion
    else do
      let s ← memoryContextDeleteChildren k context s
      let K ← unlink context s.links
      let s ← { s with links := K }.deleteMethod context
      s.pfree context

/-- The loop of `memory_context_delete_children`. -/
def memoryContextDeleteChildren : Nat → Nat → State → Except Fault State
  | k, context, s =>
    if s.links.first context = 0 then .ok s
    else
      match k with
      | 0 => .error .endless
      | k + 1 => do
        let s ← memoryContextDelete k (s.links.first context) s
        memoryContextDeleteChildren k context s

end

/-- `memory_context_reset_and_delete_children`. -/
def memoryContextResetAndDeleteChildren (context : Nat) (s : State) : Except Fault State :=
  if s.isValid context then do
    let s ← memoryContextDeleteChildren FUEL context s
    s.resetMethod context
  else .error .assertion

/-! ## Calls -/

inductive Event where
  | init (top error : Nat)
  | create (parent nameLen minContextSize initBlockSize maxBlockSize node : Nat)
  | switchTo (context : Nat)
  | reset (context : Nat)
  | resetAndDeleteChildren (context : Nat)
  | delete (context : Nat)
  deriving DecidableEq, Repr

/-- A call on contexts there are, that returns. -/
inductive Step (A : Allocator) : State → Event → State → Prop where
  | init {s s' : State} : memoryContextInit A s = .ok s' →
      Step A s (.init s'.topMemoryContext s'.errorContext) s'
  | create {s s' : State} {parent nameLen minContextSize initBlockSize maxBlockSize node : Nat} :
      parent ∈ s.contexts →
      allocSetContextCreate A s parent nameLen minContextSize initBlockSize maxBlockSize =
        .ok (node, s') →
      Step A s (.create parent nameLen minContextSize initBlockSize maxBlockSize node) s'
  | switchTo {s : State} {context : Nat} : context ∈ s.contexts →
      Step A s (.switchTo context) { s with currentMemoryContext := context }
  | reset {s s' : State} {context : Nat} : context ∈ s.contexts →
      memoryContextReset FUEL context s = .ok s' → Step A s (.reset context) s'
  | resetAndDeleteChildren {s s' : State} {context : Nat} : context ∈ s.contexts →
      memoryContextResetAndDeleteChildren context s = .ok s' →
      Step A s (.resetAndDeleteChildren context) s'
  | delete {s s' : State} {context : Nat} : context ∈ s.contexts →
      memoryContextDelete FUEL context s = .ok s' → Step A s (.delete context) s'

end PostgresV7.Mctx
