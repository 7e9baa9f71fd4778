import PostgresV7.Aset.Session
import PostgresV7.Mctx.Mctx

/-!
# Contexts that share memory (`mctx.c`)

All sets have their blocks in one memory, so that the chunk header behind a pointer tells
which context to call. A context is the address of its node; how the nodes hang together
does not matter here, as `memory_context_reset` and `memory_context_delete` call the method
of one context after another. Beside the state of the code is who holds which chunk.
-/

namespace PostgresV7.Mctx.Debug

open Regions Ledgers
open Aset (AllocSet)
open Aset.Debug (Image Libc Notice Elsewhere Requested)

/-- `MAX_ALIGN(sizeof(StandardChunkHeader))`, with `MEMORY_CONTEXT_CHECKING`. -/
def STANDARD_CHUNK_HEADER_SIZE : Nat := 32

/-- `ALLOC_SIZE_IS_VALID`. -/
def allocSizeIsValid (size : Nat) : Bool := 0 < size && size ≤ Aset.MAX_ALLOC_SIZE

/-- A chunk somebody has: the context it was allocated from, the size asked for last, and
the largest size ever asked for since it was allocated. -/
structure Live where
  owner : Nat
  pointer : Nat
  size : Nat
  peak : Nat
  deriving DecidableEq, Repr

structure Contexts where
  contexts : List Nat
  sets : Nat → AllocSet
  mem : Aset.Memory
  requested : Nat → Nat
  bytes : Nat → UInt8
  ledger : List (Entry Nat)
  notices : List Notice
  live : List Live

/-- What a method of one context sees. -/
def Contexts.image (s : Contexts) (context : Nat) : Image :=
  { st := ⟨s.sets context, s.mem⟩, requested := s.requested, bytes := s.bytes, ledger := s.ledger,
    notices := s.notices }

/-- What it leaves behind. -/
def Contexts.put (s : Contexts) (context : Nat) (i : Image) : Contexts :=
  { s with
    sets := Function.update s.sets context i.st.set
    mem := i.st.mem
    requested := i.requested
    bytes := i.bytes
    ledger := i.ledger
    notices := i.notices }

/-- No contexts yet. -/
def Contexts.start (i : Image) : Contexts :=
  { contexts := [], sets := fun _ => i.st.set, mem := i.st.mem, requested := i.requested,
    bytes := i.bytes, ledger := i.ledger, notices := i.notices, live := [] }

/-- `MEMORY_CONTEXT_IS_VALID`. -/
def Contexts.isValid (s : Contexts) (context : Nat) : Bool := context != 0 && s.contexts.contains context

abbrev Result (α : Type) := Except (Fault × Contexts) α

/-- A call into `aset.c`. -/
def callAset {α : Type} (s : Contexts) (context : Nat) (x : Aset.Debug.Result α) : Result α :=
  x.mapError fun e => (.aset e.1, s.put context e.2)

/-- `alloc_set_context_create`, once there is a node. -/
def allocSetContextCreate (M : Libc) (s : Contexts) (node minContextSize initBlockSize
    maxBlockSize : Nat) : Result Contexts := do
  let i ← callAset s node
    (Aset.Debug.allocSetContextCreate M (s.image node) node minContextSize initBlockSize maxBlockSize)
  .ok { s.put node i with contexts := node :: s.contexts }

/-- `memory_context_contains`. -/
def memoryContextContains (s : Contexts) (context pointer : Nat) : Bool :=
  if pointer = 0 ∨ pointer ≠ maxAlign pointer then false
  else
    let header := pointer - STANDARD_CHUNK_HEADER_SIZE
    s.mem.aset header = context && allocSizeIsValid (s.mem.size header)

/-- `memory_context_alloc`. -/
def memoryContextAlloc (M : Libc) (s : Contexts) (context size : Nat) : Result (Nat × Contexts) :=
  if ¬s.isValid context then .error (.assertion, s)
  else if ¬allocSizeIsValid size then .error (.invalidSize, s)
  else do
    let (pointer, i) ← callAset s context (Aset.Debug.allocSetAlloc M (s.image context) size)
    .ok (pointer, s.put context i)

/-- `pfree`. -/
def pfree (s : Contexts) (pointer : Nat) : Result Contexts :=
  let context := s.mem.aset (pointer - STANDARD_CHUNK_HEADER_SIZE)
  if pointer = 0 ∨ pointer ≠ maxAlign pointer ∨ ¬s.isValid context then .error (.assertion, s)
  else do
    let i ← callAset s context (Aset.Debug.allocSetFree (s.image context) pointer)
    .ok (s.put context i)

/-- `repalloc`. -/
def repalloc (M : Libc) (s : Contexts) (pointer size : Nat) : Result (Nat × Contexts) :=
  let context := s.mem.aset (pointer - STANDARD_CHUNK_HEADER_SIZE)
  if pointer = 0 ∨ pointer ≠ maxAlign pointer ∨ ¬s.isValid context then .error (.assertion, s)
  else if ¬allocSizeIsValid size then .error (.invalidSize, s)
  else do
    let (newPointer, i) ← callAset s context (Aset.Debug.allocSetRealloc M (s.image context) pointer size)
    .ok (newPointer, s.put context i)

/-- `context->methods->reset`. -/
def resetMethod (s : Contexts) (context : Nat) : Result Contexts := do
  let i ← callAset s context (Aset.Debug.allocSetReset (s.image context))
  .ok (s.put context i)

/-- `context->methods->delete`. -/
def deleteMethod (s : Contexts) (context : Nat) : Result Contexts := do
  let i ← callAset s context (Aset.Debug.allocSetDelete (s.image context))
  .ok (s.put context i)

/-! ## Runs -/

/-- What is left when a pointer is given back. -/
def without (live : List Live) (pointer : Nat) : List Live := live.filter fun x => x.pointer ≠ pointer

/-- What is left when a context is emptied. -/
def outside (live : List Live) (context : Nat) : List Live := live.filter fun x => x.owner ≠ context

/-- The pointers into one context, with the sizes asked for. -/
def Contexts.liveOf (s : Contexts) (context : Nat) : List (Nat × Nat) :=
  (s.live.filter fun x => x.owner = context).map fun x => (x.pointer, x.size)

inductive Event where
  | create (node minContextSize initBlockSize maxBlockSize : Nat) (created : Bool)
  | alloc (context size : Nat) (pointer : Option Nat)
  | free (pointer : Nat)
  | realloc (pointer size : Nat) (newPointer : Option Nat)
  | reset (context : Nat)
  | delete (context : Nat)
  | write (context : Nat)
  | elsewhere
  deriving DecidableEq, Repr

/-- A call, with what it returns; a client of a context writes to what it asked for;
anything outside all blocks. Two contexts never have the same node. -/
inductive Step (M : Libc) : Contexts → Event → Contexts → Prop where
  | create {s s' : Contexts} {node minContextSize initBlockSize maxBlockSize : Nat} :
      node ≠ 0 → node ∉ s.contexts → minContextSize + 16 ≤ 2 ^ 64 →
      allocSetContextCreate M s node minContextSize initBlockSize maxBlockSize = .ok s' →
      Step M s (.create node minContextSize initBlockSize maxBlockSize true) s'
  | createFails {s s' : Contexts} {node minContextSize initBlockSize maxBlockSize : Nat} {e : Fault} :
      node ≠ 0 → node ∉ s.contexts → minContextSize + 16 ≤ 2 ^ 64 →
      allocSetContextCreate M s node minContextSize initBlockSize maxBlockSize = .error (e, s') →
      Step M s (.create node minContextSize initBlockSize maxBlockSize false) s'
  | alloc {s s' : Contexts} {context size p : Nat} :
      memoryContextAlloc M s context size = .ok (p, s') →
      Step M s (.alloc context size (some p)) { s' with live := ⟨context, p, size, size⟩ :: s.live }
  | allocFails {s s' : Contexts} {context size : Nat} {e : Fault} :
      memoryContextAlloc M s context size = .error (e, s') → Step M s (.alloc context size none) s'
  | free {s s' : Contexts} {x : Live} : x ∈ s.live → pfree s x.pointer = .ok s' →
      Step M s (.free x.pointer) { s' with live := without s.live x.pointer }
  | realloc {s s' : Contexts} {x : Live} {size p : Nat} : x ∈ s.live →
      repalloc M s x.pointer size = .ok (p, s') →
      Step M s (.realloc x.pointer size (some p))
        { s' with live := ⟨x.owner, p, size, max x.peak size⟩ :: without s.live x.pointer }
  | reallocFails {s s' : Contexts} {x : Live} {size : Nat} {e : Fault} : x ∈ s.live →
      repalloc M s x.pointer size = .error (e, s') → Step M s (.realloc x.pointer size none) s'
  | reset {s s' : Contexts} {context : Nat} : context ∈ s.contexts → resetMethod s context = .ok s' →
      Step M s (.reset context) { s' with live := outside s.live context }
  | delete {s s' : Contexts} {context : Nat} : context ∈ s.contexts → deleteMethod s context = .ok s' →
      Step M s (.delete context)
        { s' with contexts := s.contexts.filter (· ≠ context), live := outside s.live context }
  | write {s : Contexts} {context : Nat} {bytes : Nat → UInt8} : context ∈ s.contexts →
      (∀ x, ¬ Requested (s.liveOf context) x → bytes x = s.bytes x) →
      Step M s (.write context) { s with bytes := bytes }
  | elsewhere {s s' : Contexts} : s'.contexts = s.contexts → s'.sets = s.sets → s'.live = s.live →
      (∀ context ∈ s.contexts, Elsewhere (s.image context) (s'.image context)) → Step M s .elsewhere s'

end PostgresV7.Mctx.Debug
