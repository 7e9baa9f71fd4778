import PostgresV7.Base
import PostgresV7.Lib.Chain
import PostgresV7.Lib.Regions
import PostgresV7.Lib.Tiling

/-!
# Allocation sets (`aset.c`)

Each field of a block header or a chunk header is a map from the address of the
header. The bytes of the chunks themselves belong to the callers; the mark behind
them and the wiping of freed memory stay inside them and are left out, as is the
`requested_size` that only the notices about the mark read.
-/

namespace PostgresV7.Aset

open Regions

def ALLOC_MIN_BITS : Nat := 4
def ALLOC_SET_NUM_FREELISTS : Nat := 10
def ALLOC_CHUNK_LIMIT : Nat := 1 <<< (ALLOC_SET_NUM_FREELISTS - 1 + ALLOC_MIN_BITS)

/-- `MAX_ALIGN(sizeof(AllocBlockData))`: four pointers. -/
def ALLOC_BLOCK_HDR_SZ : Nat := 32

/-- `MAX_ALIGN(sizeof(AllocChunkData))`, with `MEMORY_CONTEXT_CHECKING`. -/
def ALLOC_CHUNK_HDR_SZ : Nat := 32

def MAX_ALLOC_SIZE : Nat := 0x3fffffff

/-- `AllocSetContext`, at the address `self`. -/
structure AllocSet where
  self : Nat
  blocks : Nat
  freelist : Nat → Nat
  initBlockSize : Nat
  maxBlockSize : Nat
  keeper : Nat

/-- The headers: `next`, `freeptr` and `endptr` of blocks, `aset` and `size` of
chunks, and what `malloc` knows. -/
structure Memory where
  next : Nat → Nat
  freeptr : Nat → Nat
  endptr : Nat → Nat
  aset : Nat → Nat
  size : Nat → Nat
  heap : Heap

structure State where
  set : AllocSet
  mem : Memory

/-- `elog(ERROR)` when memory is exhausted or no block contains a chunk, a list
without end, or an assertion. -/
inductive Fault where
  | exhausted
  | noBlock
  | endless
  deriving DecidableEq, Repr

/-- No list is longer than there are addresses. -/
def FUEL : Nat := 2 ^ 64

/-! ## Headers -/

/-- A chunk of the set at `chunk`. -/
def Memory.setChunk (mem : Memory) (chunk aset size : Nat) : Memory :=
  { mem with
    aset := Function.update mem.aset chunk aset
    size := Function.update mem.size chunk size }

/-- The ends of the free space of a block. -/
def Memory.setBlock (mem : Memory) (block freeptr endptr : Nat) : Memory :=
  { mem with
    freeptr := Function.update mem.freeptr block freeptr
    endptr := Function.update mem.endptr block endptr }

/-- The link behind `prev` in the list of blocks, or its head. -/
def State.setNext (st : State) (prev block : Nat) : State :=
  if prev = 0 then { st with set := { st.set with blocks := block } }
  else { st with mem := { st.mem with next := Function.update st.mem.next prev block } }

/-- `set->freelist[fidx] = chunk`. -/
def State.setFreelist (st : State) (fidx chunk : Nat) : State :=
  { st with set := { st.set with freelist := Function.update st.set.freelist fidx chunk } }

/-! ## `alloc_set_free_index` -/

/-- The loop of `alloc_set_free_index`, with `k` iterations left. -/
def freeIndexLoop : Nat → Nat → Nat → Nat
  | 0, idx, _ => idx
  | k + 1, idx, size => if size ≠ 0 then freeIndexLoop k (idx + 1) (size >>> 1) else idx

def allocSetFreeIndex (size : Nat) : Nat :=
  if size > 0 then freeIndexLoop 64 0 ((size - 1) >>> ALLOC_MIN_BITS) else 0

/-! ## `alloc_set_context_create` -/

def allocSetContextCreate (A : Allocator) (mem : Memory) (self minContextSize initBlockSize
    maxBlockSize : Nat) : Except Fault State :=
  let initBlockSize := maxAlign initBlockSize
  let initBlockSize := if initBlockSize < 1024 then 1024 else initBlockSize
  let maxBlockSize := maxAlign maxBlockSize
  let maxBlockSize := if maxBlockSize < initBlockSize then initBlockSize else maxBlockSize
  let set : AllocSet :=
    { self := self, blocks := 0, freelist := fun _ => 0, initBlockSize := initBlockSize,
      maxBlockSize := maxBlockSize, keeper := 0 }
  if minContextSize > ALLOC_BLOCK_HDR_SZ + ALLOC_CHUNK_HDR_SZ then
    let blkSize := maxAlign minContextSize
    match mem.heap.alloc A blkSize with
    | (none, _) => .error .exhausted
    | (some block, heap) =>
      let mem := mem.setBlock block (block + ALLOC_BLOCK_HDR_SZ) (block + blkSize)
      .ok {
        set := { set with blocks := block, keeper := block }
        mem := { mem with next := Function.update mem.next block 0, heap := heap } }
  else .ok { set := set, mem := mem }

/-! ## `alloc_set_alloc` -/

/-- Put a block underneath the active one, or on the list if there is none. -/
def State.tuckBlock (st : State) (block : Nat) : State :=
  if st.set.blocks ≠ 0 then
    let next := Function.update st.mem.next block (st.mem.next st.set.blocks)
    { st with mem := { st.mem with next := Function.update next st.set.blocks block } }
  else
    { set := { st.set with blocks := block }
      mem := { st.mem with next := Function.update st.mem.next block 0 } }

/-- The headers of a block filled by one chunk of `chunkSize` bytes. -/
def State.fillBlock (st : State) (block chunkSize : Nat) (heap : Heap) : State :=
  let endptr := block + (chunkSize + ALLOC_BLOCK_HDR_SZ + ALLOC_CHUNK_HDR_SZ)
  let chunk := block + ALLOC_BLOCK_HDR_SZ
  let mem := { st.mem with heap := heap }
  { st with mem := (mem.setBlock block endptr endptr).setChunk chunk st.set.self chunkSize }

/-- A request past `ALLOC_CHUNK_LIMIT` gets a block to itself. -/
def allocLarge (A : Allocator) (st : State) (size : Nat) : Except Fault (Nat × State) :=
  let chunkSize := maxAlign size
  match st.mem.heap.alloc A (chunkSize + ALLOC_BLOCK_HDR_SZ + ALLOC_CHUNK_HDR_SZ) with
  | (none, _) => .error .exhausted
  | (some block, heap) =>
    .ok (block + ALLOC_BLOCK_HDR_SZ + ALLOC_CHUNK_HDR_SZ,
      (st.fillBlock block chunkSize heap).tuckBlock block)

/-- The loop that looks for a chunk on a free list, with `k` steps left: the
chunk, or `0`, and the one before it. -/
def findChunk (mem : Memory) (size : Nat) : Nat → Nat → Nat → Except Fault (Nat × Nat)
  | k, priorFree, chunk =>
    if chunk = 0 then .ok (priorFree, chunk)
    else if mem.size chunk ≥ size then .ok (priorFree, chunk)
    else
      match k with
      | 0 => .error .endless
      | k + 1 => findChunk mem size k chunk (mem.aset chunk)

/-- Take a chunk off free list `fidx`; it is the set's again. -/
def takeChunk (st : State) (fidx priorFree chunk : Nat) : State :=
  let st :=
    if priorFree = 0 then st.setFreelist fidx (st.mem.aset chunk)
    else { st with mem := { st.mem with
      aset := Function.update st.mem.aset priorFree (st.mem.aset chunk) } }
  { st with mem := { st.mem with aset := Function.update st.mem.aset chunk st.set.self } }

/-- The chunk size the rest of a block is good for, and its free list. -/
def carveSize (availSpace : Nat) : Nat × Nat :=
  let availChunk := availSpace - ALLOC_CHUNK_HDR_SZ
  let aFidx := allocSetFreeIndex availChunk
  if availChunk ≠ 1 <<< (aFidx + ALLOC_MIN_BITS) then
    (aFidx - 1, 1 <<< (aFidx - 1 + ALLOC_MIN_BITS))
  else (aFidx, availChunk)

/-- The loop that carves up the free space of a block, with `k` steps left. -/
def carveBlock (block : Nat) : Nat → Nat → State → State
  | 0, _, st => st
  | k + 1, availSpace, st =>
    if availSpace ≥ 1 <<< ALLOC_MIN_BITS + ALLOC_CHUNK_HDR_SZ then
      let (aFidx, availChunk) := carveSize availSpace
      let chunk := st.mem.freeptr block
      let mem := { st.mem with
        freeptr := Function.update st.mem.freeptr block (chunk + (availChunk + ALLOC_CHUNK_HDR_SZ)) }
      let mem := mem.setChunk chunk (st.set.freelist aFidx) availChunk
      carveBlock block k (availSpace - (availChunk + ALLOC_CHUNK_HDR_SZ))
        ({ st with mem := mem }.setFreelist aFidx chunk)
    else st

/-- The `malloc` of a new block, tried again with half the size as long as that
leaves enough; `k` more times at most. -/
def mallocBlock (A : Allocator) (requiredSize : Nat) : Nat → Nat → Heap → Option (Nat × Nat) × Heap
  | k, blkSize, heap =>
    match heap.alloc A blkSize with
    | (some block, heap) => (some (block, blkSize), heap)
    | (none, heap) =>
      match k with
      | 0 => (none, heap)
      | k + 1 =>
        if blkSize > 1024 * 1024 then
          if blkSize >>> 1 < requiredSize then (none, heap)
          else mallocBlock A requiredSize k (blkSize >>> 1) heap
        else (none, heap)

/-- The size a new block should have. -/
def newBlockSize (st : State) : Nat :=
  if st.set.blocks = 0 then st.set.initBlockSize
  else
    let blkSize := st.mem.endptr st.set.blocks - st.set.blocks
    if blkSize < st.set.initBlockSize then st.set.initBlockSize
    else
      let blkSize := blkSize <<< 1 % 2 ^ 64
      if blkSize > st.set.maxBlockSize then st.set.maxBlockSize else blkSize

/-- A regular block with nothing in it on top of the others. -/
def State.pushBlock (st : State) (block blkSize : Nat) (heap : Heap) : State :=
  let mem := st.mem.setBlock block (block + ALLOC_BLOCK_HDR_SZ) (block + blkSize)
  { set := { st.set with blocks := block }
    mem := { mem with next := Function.update mem.next block st.set.blocks, heap := heap } }

/-- A new regular block. -/
def newBlock (A : Allocator) (st : State) (chunkSize : Nat) : Except Fault State :=
  let requiredSize := chunkSize + ALLOC_BLOCK_HDR_SZ + ALLOC_CHUNK_HDR_SZ
  let blkSize := newBlockSize st
  let blkSize := if blkSize < requiredSize then requiredSize else blkSize
  match mallocBlock A requiredSize 64 blkSize st.mem.heap with
  | (none, _) => .error .exhausted
  | (some (block, blkSize), heap) => .ok (st.pushBlock block blkSize heap)

/-- A chunk of `chunkSize` bytes at the free end of the top block. -/
def placeChunk (st : State) (chunkSize : Nat) : Nat × State :=
  let block := st.set.blocks
  let chunk := st.mem.freeptr block
  let mem := { st.mem with
    freeptr := Function.update st.mem.freeptr block (chunk + (chunkSize + ALLOC_CHUNK_HDR_SZ)) }
  (chunk + ALLOC_CHUNK_HDR_SZ, { st with mem := mem.setChunk chunk st.set.self chunkSize })

/-- A request no free list could serve. -/
def allocFresh (A : Allocator) (st : State) (chunkSize : Nat) : Except Fault (Nat × State) := do
  if st.set.blocks = 0 then
    let st ← newBlock A st chunkSize
    .ok (placeChunk st chunkSize)
  else
    let availSpace := st.mem.endptr st.set.blocks - st.mem.freeptr st.set.blocks
    if availSpace < chunkSize + ALLOC_CHUNK_HDR_SZ then
      let st ← newBlock A (carveBlock st.set.blocks availSpace availSpace st) chunkSize
      .ok (placeChunk st chunkSize)
    else .ok (placeChunk st chunkSize)

/-- `alloc_set_alloc`. -/
def allocSetAlloc (A : Allocator) (st : State) (size : Nat) : Except Fault (Nat × State) := do
  if size > ALLOC_CHUNK_LIMIT then allocLarge A st size
  else
    let fidx := allocSetFreeIndex size
    let (priorFree, chunk) ← findChunk st.mem size FUEL 0 (st.set.freelist fidx)
    if chunk ≠ 0 then .ok (chunk + ALLOC_CHUNK_HDR_SZ, takeChunk st fidx priorFree chunk)
    else allocFresh A st (1 <<< (fidx + ALLOC_MIN_BITS))

/-! ## `alloc_set_free` -/

/-- The loop that looks for the block of a large chunk, with `k` steps left. -/
def findBlock (mem : Memory) (chunk : Nat) : Nat → Nat → Nat → Except Fault (Nat × Nat)
  | k, prevBlock, block =>
    if block = 0 then .error .noBlock
    else if chunk = block + ALLOC_BLOCK_HDR_SZ then .ok (prevBlock, block)
    else
      match k with
      | 0 => .error .endless
      | k + 1 => findBlock mem chunk k block (mem.next block)

/-- `free(block)`. -/
def State.freeBlock (st : State) (block : Nat) : State :=
  { st with mem := { st.mem with heap := st.mem.heap.release block } }

/-- `alloc_set_free`. -/
def allocSetFree (st : State) (pointer : Nat) : Except Fault State := do
  let chunk := pointer - ALLOC_CHUNK_HDR_SZ
  if st.mem.size chunk > ALLOC_CHUNK_LIMIT then
    let (prevBlock, block) ← findBlock st.mem chunk FUEL 0 st.set.blocks
    .ok ((st.setNext prevBlock (st.mem.next block)).freeBlock block)
  else
    let fidx := allocSetFreeIndex (st.mem.size chunk)
    let mem := { st.mem with aset := Function.update st.mem.aset chunk (st.set.freelist fidx) }
    .ok ({ st with mem := mem }.setFreelist fidx chunk)

/-! ## `alloc_set_realloc` -/

/-- What `realloc` copies of the headers when a block moves. -/
def Memory.moveBlock (mem : Memory) (block block' : Nat) : Memory :=
  { mem with
    next := Function.update mem.next block' (mem.next block)
    aset := Function.update mem.aset (block' + ALLOC_BLOCK_HDR_SZ)
      (mem.aset (block + ALLOC_BLOCK_HDR_SZ)) }

/-- The headers of a block that `realloc` moved, before it is linked in. -/
def State.movedBlock (st : State) (block block' chunkSize : Nat) (heap : Heap) : State :=
  let endptr := block' + (chunkSize + ALLOC_BLOCK_HDR_SZ + ALLOC_CHUNK_HDR_SZ)
  let chunk := block' + ALLOC_BLOCK_HDR_SZ
  let mem := ({ st.mem with heap := heap }.moveBlock block block').setBlock block' endptr endptr
  { st with mem := { mem with size := Function.update mem.size chunk chunkSize } }

/-- A chunk with a block to itself grows with its block. -/
def reallocLarge (A : Allocator) (st : State) (chunk size : Nat) : Except Fault (Nat × State) := do
  let (prevBlock, block) ← findBlock st.mem chunk FUEL 0 st.set.blocks
  let chunkSize := maxAlign size
  match st.mem.heap.realloc A block (chunkSize + ALLOC_BLOCK_HDR_SZ + ALLOC_CHUNK_HDR_SZ) with
  | (none, _) => .error .exhausted
  | (some block', heap) =>
    .ok (block' + ALLOC_BLOCK_HDR_SZ + ALLOC_CHUNK_HDR_SZ,
      (st.movedBlock block block' chunkSize heap).setNext prevBlock block')

/-- How much the last chunk of the top block has to grow for `size` bytes, if it
is that chunk and there is room. -/
def growth (st : State) (chunk size : Nat) : Option Nat :=
  let block := st.set.blocks
  let oldSize := st.mem.size chunk
  if size ≤ ALLOC_CHUNK_LIMIT ∧ chunk + (oldSize + ALLOC_CHUNK_HDR_SZ) = st.mem.freeptr block then
    let freeSpace := st.mem.endptr block - st.mem.freeptr block
    let delta := 1 <<< (allocSetFreeIndex size + ALLOC_MIN_BITS) - oldSize
    if freeSpace ≥ delta then some delta else none
  else none

/-- `alloc_set_realloc`; the bytes it copies are the caller's. -/
def allocSetRealloc (A : Allocator) (st : State) (pointer size : Nat) :
    Except Fault (Nat × State) := do
  let chunk := pointer - ALLOC_CHUNK_HDR_SZ
  let oldSize := st.mem.size chunk
  if oldSize ≥ size then .ok (pointer, st)
  else if oldSize > ALLOC_CHUNK_LIMIT then reallocLarge A st chunk size
  else
    match growth st chunk size with
    | some delta =>
      let block := st.set.blocks
      .ok (pointer, { st with mem := { st.mem with
        freeptr := Function.update st.mem.freeptr block (st.mem.freeptr block + delta)
        size := Function.update st.mem.size chunk (oldSize + delta) } })
    | none =>
      let (newPointer, st) ← allocSetAlloc A st size
      let st ← allocSetFree st pointer
      .ok (newPointer, st)

/-! ## `alloc_set_reset` -/

/-- The loop of `alloc_set_reset`, with `k` steps left. -/
def resetBlocks : Nat → Nat → State → Except Fault State
  | k, block, st =>
    if block = 0 then .ok st
    else
      match k with
      | 0 => .error .endless
      | k + 1 =>
        let next := st.mem.next block
        if block = st.set.keeper then
          let mem := { st.mem with
            freeptr := Function.update st.mem.freeptr block (block + ALLOC_BLOCK_HDR_SZ)
            next := Function.update st.mem.next block 0 }
          resetBlocks k next { st with mem := mem }
        else resetBlocks k next (st.freeBlock block)

/-- `alloc_set_reset`. -/
def allocSetReset (st : State) : Except Fault State :=
  resetBlocks FUEL st.set.blocks
    { st with set := { st.set with freelist := fun _ => 0, blocks := st.set.keeper } }

/-! ## `alloc_set_delete` -/

/-- The loop of `alloc_set_delete`, with `k` steps left. -/
def deleteBlocks : Nat → Nat → State → Except Fault State
  | k, block, st =>
    if block = 0 then .ok st
    else
      match k with
      | 0 => .error .endless
      | k + 1 => deleteBlocks k (st.mem.next block) (st.freeBlock block)

/-- `alloc_set_delete`. -/
def allocSetDelete (st : State) : Except Fault State :=
  deleteBlocks FUEL st.set.blocks
    { st with set := { st.set with freelist := fun _ => 0, blocks := 0, keeper := 0 } }

end PostgresV7.Aset
