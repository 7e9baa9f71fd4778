import PostgresV7.Aset.Aset
import PostgresV7.Lib.Ledger

/-!
# Allocation sets with the debug symbols of `config.h`

`MEMORY_CONTEXT_CHECKING` keeps the requested size in every chunk header and a mark
behind the requested bytes; `CLOBBER_FREED_MEMORY` wipes what is given back. `elog(ERROR)`
leaves memory as it is, so an error carries the state it was raised in. Headers are kept
apart from bytes: a wipe or a copy of a header that nothing reads again is left out.
-/

namespace PostgresV7.Aset.Debug

open Regions Ledgers

/-- `malloc` and `realloc`, and what is in the memory they hand out. -/
structure Libc where
  allocator : Allocator
  junk : Nat → Nat → UInt8

/-- What `elog(NOTICE)` reports: all but the last from `alloc_set_check`. -/
inductive Notice where
  | emptyBlock (block : Nat)
  | reqSize (chunk block : Nat)
  | badSize (size chunk block : Nat)
  | badSingleChunk (chunk block : Nat)
  | bogusLink (block chunk : Nat)
  | pastChunkEnd (block chunk : Nat)
  | inconsistentBlock (block : Nat)
  | writePastEnd (chunk : Nat)
  deriving DecidableEq, Repr

/-- A set with the `requested_size` of the chunks, the bytes of memory, the calls of
`malloc`, `realloc` and `free`, and the notices so far. -/
structure Image where
  st : State
  requested : Nat → Nat
  bytes : Nat → UInt8
  ledger : List (Entry Nat)
  notices : List Notice

/-- What a call returns; an error comes with the state it leaves behind. -/
abbrev Result (α : Type) := Except (Fault × Image) α

/-- A search that changes nothing. -/
def search {α : Type} (s : Image) (x : Except Fault α) : Result α := x.mapError fun e => (e, s)

/-! ## Memory -/

def Image.onSet (s : Image) (f : State → State) : Image := { s with st := f s.st }

def Image.withHeap (s : Image) (heap : Heap) : Image :=
  s.onSet fun st => { st with mem := { st.mem with heap := heap } }

/-- `memset(p, 0x7F, n)`. -/
def Image.wipe (s : Image) (p n : Nat) : Image :=
  { s with bytes := fun x => if p ≤ x ∧ x < p + n then 0x7F else s.bytes x }

/-- `memcpy(dst, src, n)`. -/
def Image.memcpy (s : Image) (dst src n : Nat) : Image :=
  { s with bytes := fun x => if dst ≤ x ∧ x < dst + n then s.bytes (src + (x - dst)) else s.bytes x }

def Image.malloc (M : Libc) (s : Image) (size : Nat) : Option Nat × Image :=
  match s.st.mem.heap.alloc M.allocator size with
  | (none, heap) => (none, s.withHeap heap)
  | (some p, heap) =>
    (some p, { s.withHeap heap with
      bytes := fun x => if p ≤ x ∧ x < p + size then M.junk s.st.mem.heap.calls x else s.bytes x
      ledger := .obtained p :: s.ledger })

/-- What was in the region at `p` is in the new one, as far as both reach. -/
def Image.realloc (M : Libc) (s : Image) (p size : Nat) : Option Nat × Image :=
  match s.st.mem.heap.realloc M.allocator p size with
  | (none, heap) => (none, s.withHeap heap)
  | (some q, heap) =>
    (some q, { s.withHeap heap with
      bytes := fun x =>
        if q ≤ x ∧ x < q + size then
          if s.st.mem.heap.regions.any fun r => r.base = p ∧ x - q < r.size then s.bytes (p + (x - q))
          else M.junk s.st.mem.heap.calls x
        else s.bytes x
      ledger := .exchanged p q :: s.ledger })

def Image.free (s : Image) (p : Nat) : Image :=
  { s.onSet (·.freeBlock p) with ledger := .returned p :: s.ledger }

/-- `chunk->requested_size = size`, and the mark if there is unused space. -/
def Image.mark (s : Image) (chunk size : Nat) : Image :=
  { s with
    requested := Function.update s.requested chunk size
    bytes :=
      if size < s.st.mem.size chunk then
        Function.update s.bytes (chunk + ALLOC_CHUNK_HDR_SZ + size) 0x7E
      else s.bytes }

/-- The test for someone scribbling on the unused space in a chunk. -/
def Image.checkEnd (s : Image) (pointer : Nat) : Image :=
  let chunk := pointer - ALLOC_CHUNK_HDR_SZ
  if s.requested chunk < s.st.mem.size chunk ∧ s.bytes (pointer + s.requested chunk) ≠ 0x7E then
    { s with notices := s.notices ++ [.writePastEnd chunk] }
  else s

/-! ## `alloc_set_context_create` -/

/-- The set of `s` is none yet. -/
def allocSetContextCreate (M : Libc) (s : Image) (self minContextSize initBlockSize
    maxBlockSize : Nat) : Result Image :=
  let initBlockSize := maxAlign initBlockSize
  let initBlockSize := if initBlockSize < 1024 then 1024 else initBlockSize
  let maxBlockSize := maxAlign maxBlockSize
  let maxBlockSize := if maxBlockSize < initBlockSize then initBlockSize else maxBlockSize
  let set : AllocSet :=
    { self := self, blocks := 0, freelist := fun _ => 0, initBlockSize := initBlockSize,
      maxBlockSize := maxBlockSize, keeper := 0 }
  if minContextSize > ALLOC_BLOCK_HDR_SZ + ALLOC_CHUNK_HDR_SZ then
    let blkSize := maxAlign minContextSize
    match s.malloc M blkSize with
    | (none, s) => .error (.exhausted, s)
    | (some block, s) =>
      .ok (s.onSet fun st =>
        let mem := st.mem.setBlock block (block + ALLOC_BLOCK_HDR_SZ) (block + blkSize)
        { set := { set with blocks := block, keeper := block }
          mem := { mem with next := Function.update mem.next block 0 } })
  else .ok (s.onSet fun st => { st with set := set })

/-! ## `alloc_set_alloc` -/

def allocLarge (M : Libc) (s : Image) (size : Nat) : Result (Nat × Image) :=
  let chunkSize := maxAlign size
  match s.malloc M (chunkSize + ALLOC_BLOCK_HDR_SZ + ALLOC_CHUNK_HDR_SZ) with
  | (none, s) => .error (.exhausted, s)
  | (some block, s) =>
    let s := s.onSet fun st => st.fillBlock block chunkSize st.mem.heap
    let s := s.mark (block + ALLOC_BLOCK_HDR_SZ) size
    .ok (block + ALLOC_BLOCK_HDR_SZ + ALLOC_CHUNK_HDR_SZ, s.onSet (·.tuckBlock block))

/-- The loop that carves up the free space of a block, with `k` steps left. -/
def carveBlock (block : Nat) : Nat → Nat → Image → Image
  | 0, _, s => s
  | k + 1, availSpace, s =>
    if availSpace ≥ 1 <<< ALLOC_MIN_BITS + ALLOC_CHUNK_HDR_SZ then
      let (aFidx, availChunk) := carveSize availSpace
      let chunk := s.st.mem.freeptr block
      let s := s.onSet fun st =>
        let mem := { st.mem with
          freeptr := Function.update st.mem.freeptr block (chunk + (availChunk + ALLOC_CHUNK_HDR_SZ)) }
        { st with mem := mem.setChunk chunk (st.set.freelist aFidx) availChunk }
      let s := { s with requested := Function.update s.requested chunk 0 }
      carveBlock block k (availSpace - (availChunk + ALLOC_CHUNK_HDR_SZ))
        (s.onSet (·.setFreelist aFidx chunk))
    else s

/-- The `malloc` of a new block; `k` more attempts at most. -/
def mallocBlock (M : Libc) (requiredSize : Nat) : Nat → Nat → Image → Option (Nat × Nat) × Image
  | k, blkSize, s =>
    match s.malloc M blkSize with
    | (some block, s) => (some (block, blkSize), s)
    | (none, s) =>
      match k with
      | 0 => (none, s)
      | k + 1 =>
        if blkSize > 1024 * 1024 then
          if blkSize >>> 1 < requiredSize then (none, s)
          else mallocBlock M requiredSize k (blkSize >>> 1) s
        else (none, s)

def newBlock (M : Libc) (s : Image) (chunkSize : Nat) : Result Image :=
  let requiredSize := chunkSize + ALLOC_BLOCK_HDR_SZ + ALLOC_CHUNK_HDR_SZ
  let blkSize := newBlockSize s.st
  let blkSize := if blkSize < requiredSize then requiredSize else blkSize
  match mallocBlock M requiredSize 64 blkSize s with
  | (none, s) => .error (.exhausted, s)
  | (some (block, blkSize), s) => .ok (s.onSet fun st => st.pushBlock block blkSize st.mem.heap)

/-- A chunk of `chunkSize` bytes at the free end of the top block, of which `size` are
asked for. -/
def placeChunk (s : Image) (size chunkSize : Nat) : Nat × Image :=
  let chunk := s.st.mem.freeptr s.st.set.blocks
  (chunk + ALLOC_CHUNK_HDR_SZ, (s.onSet fun st => (Aset.placeChunk st chunkSize).2).mark chunk size)

/-- A request no free list could serve. -/
def allocFresh (M : Libc) (s : Image) (size chunkSize : Nat) : Result (Nat × Image) := do
  if s.st.set.blocks = 0 then
    let s ← newBlock M s chunkSize
    .ok (placeChunk s size chunkSize)
  else
    let availSpace := s.st.mem.endptr s.st.set.blocks - s.st.mem.freeptr s.st.set.blocks
    if availSpace < chunkSize + ALLOC_CHUNK_HDR_SZ then
      let s ← newBlock M (carveBlock s.st.set.blocks availSpace availSpace s) chunkSize
      .ok (placeChunk s size chunkSize)
    else .ok (placeChunk s size chunkSize)

/-- `alloc_set_alloc`. -/
def allocSetAlloc (M : Libc) (s : Image) (size : Nat) : Result (Nat × Image) := do
  if size > ALLOC_CHUNK_LIMIT then allocLarge M s size
  else
    let fidx := allocSetFreeIndex size
    let (priorFree, chunk) ← search s (findChunk s.st.mem size FUEL 0 (s.st.set.freelist fidx))
    if chunk ≠ 0 then
      .ok (chunk + ALLOC_CHUNK_HDR_SZ, (s.onSet fun st => takeChunk st fidx priorFree chunk).mark chunk size)
    else allocFresh M s size (1 <<< (fidx + ALLOC_MIN_BITS))

/-! ## `alloc_set_free` -/

def allocSetFree (s : Image) (pointer : Nat) : Result Image := do
  let chunk := pointer - ALLOC_CHUNK_HDR_SZ
  let s := s.checkEnd pointer
  if s.st.mem.size chunk > ALLOC_CHUNK_LIMIT then
    let (prevBlock, block) ← search s (findBlock s.st.mem chunk FUEL 0 s.st.set.blocks)
    let s := s.onSet fun st => st.setNext prevBlock (st.mem.next block)
    let s := s.wipe block (s.st.mem.freeptr block - block)
    .ok (s.free block)
  else
    let fidx := allocSetFreeIndex (s.st.mem.size chunk)
    let s := s.onSet fun st => { st with mem := { st.mem with
      aset := Function.update st.mem.aset chunk (st.set.freelist fidx) } }
    let s := s.wipe pointer (s.st.mem.size chunk)
    let s := { s with requested := Function.update s.requested chunk 0 }
    .ok (s.onSet (·.setFreelist fidx chunk))

/-! ## `alloc_set_realloc` -/

/-- A chunk with a block to itself grows with its block. -/
def reallocLarge (M : Libc) (s : Image) (chunk size : Nat) : Result (Nat × Image) := do
  let (prevBlock, block) ← search s (findBlock s.st.mem chunk FUEL 0 s.st.set.blocks)
  let chunkSize := maxAlign size
  match s.realloc M block (chunkSize + ALLOC_BLOCK_HDR_SZ + ALLOC_CHUNK_HDR_SZ) with
  | (none, s) => .error (.exhausted, s)
  | (some block', s) =>
    let s := s.onSet fun st => (st.movedBlock block block' chunkSize st.mem.heap).setNext prevBlock block'
    .ok (block' + ALLOC_BLOCK_HDR_SZ + ALLOC_CHUNK_HDR_SZ, s.mark (block' + ALLOC_BLOCK_HDR_SZ) size)

/-- `alloc_set_realloc`. -/
def allocSetRealloc (M : Libc) (s : Image) (pointer size : Nat) : Result (Nat × Image) := do
  let chunk := pointer - ALLOC_CHUNK_HDR_SZ
  let oldSize := s.st.mem.size chunk
  let s := s.checkEnd pointer
  if oldSize ≥ size then .ok (pointer, s.mark chunk size)
  else if oldSize > ALLOC_CHUNK_LIMIT then reallocLarge M s chunk size
  else
    match growth s.st chunk size with
    | some delta =>
      let s := s.onSet fun st =>
        let block := st.set.blocks
        { st with mem := { st.mem with
          freeptr := Function.update st.mem.freeptr block (st.mem.freeptr block + delta)
          size := Function.update st.mem.size chunk (oldSize + delta) } }
      .ok (pointer, s.mark chunk size)
    | none =>
      let (newPointer, s) ← allocSetAlloc M s size
      let s ← allocSetFree (s.memcpy newPointer pointer oldSize) pointer
      .ok (newPointer, s)

/-! ## `alloc_set_check` -/

/-- The tests of one chunk, in a block with `blkUsed` bytes in use. -/
def checkChunk (s : Image) (block : Nat) (blkUsed : Int) (chunk : Nat) : List Notice :=
  let chsize := s.st.mem.size chunk
  let dsize := s.requested chunk
  let chdataEnd := chunk + (ALLOC_CHUNK_HDR_SZ + dsize)
  (if dsize > chsize then [.reqSize chunk block] else []) ++
  (if chsize < 1 <<< ALLOC_MIN_BITS then [.badSize chsize chunk block] else []) ++
  (if chsize > ALLOC_CHUNK_LIMIT ∧ ((chsize + ALLOC_CHUNK_HDR_SZ : Nat) : Int) ≠ blkUsed then
    [.badSingleChunk chunk block] else []) ++
  (if dsize > 0 ∧ s.st.mem.aset chunk ≠ s.st.set.self then [.bogusLink block chunk] else []) ++
  (if dsize > 0 ∧ dsize < chsize ∧ s.bytes chdataEnd ≠ 0x7E then [.pastChunkEnd block chunk] else [])

/-- The chunk walker, with `k` steps left: the notices, `blk_data` and `nchunks`. -/
def checkChunks (s : Image) (block : Nat) (blkUsed : Int) :
    Nat → Nat → Nat → Nat → Except Fault (List Notice × Nat × Nat)
  | k, bpoz, blkData, nchunks =>
    if bpoz < s.st.mem.freeptr block then
      match k with
      | 0 => .error .endless
      | k + 1 => do
        let chsize := s.st.mem.size bpoz
        let (notices, blkData, nchunks) ← checkChunks s block blkUsed k
          (bpoz + (ALLOC_CHUNK_HDR_SZ + chsize)) (blkData + chsize) (nchunks + 1)
        .ok (checkChunk s block blkUsed bpoz ++ notices, blkData, nchunks)
    else .ok ([], blkData, nchunks)

/-- The tests of one block. -/
def checkBlock (s : Image) (block : Nat) : Except Fault (List Notice) := do
  let bpoz := block + ALLOC_BLOCK_HDR_SZ
  let blkUsed : Int := s.st.mem.freeptr block - bpoz
  let (notices, blkData, nchunks) ← checkChunks s block blkUsed FUEL bpoz 0 0
  .ok ((if blkUsed = 0 ∧ s.st.set.keeper ≠ block then [.emptyBlock block] else []) ++ notices ++
    (if ((blkData + nchunks * ALLOC_CHUNK_HDR_SZ : Nat) : Int) ≠ blkUsed then
      [.inconsistentBlock block] else []))

/-- The loop of `alloc_set_check` from `block` on, with `k` steps left. -/
def checkBlocks (s : Image) : Nat → Nat → Except Fault (List Notice)
  | k, block =>
    if block = 0 then .ok []
    else
      match k with
      | 0 => .error .endless
      | k + 1 => do
        let here ← checkBlock s block
        let rest ← checkBlocks s k (s.st.mem.next block)
        .ok (here ++ rest)

/-- `alloc_set_check`. -/
def allocSetCheck (s : Image) : Except Fault (List Notice) := checkBlocks s FUEL s.st.set.blocks

/-! ## `alloc_set_reset` and `alloc_set_delete` -/

/-- The loop of `alloc_set_reset`, with `k` steps left. -/
def resetBlocks : Nat → Nat → Image → Result Image
  | k, block, s =>
    if block = 0 then .ok s
    else
      match k with
      | 0 => .error (.endless, s)
      | k + 1 =>
        let next := s.st.mem.next block
        if block = s.st.set.keeper then
          let dataStart := block + ALLOC_BLOCK_HDR_SZ
          let s := s.wipe dataStart (s.st.mem.freeptr block - dataStart)
          resetBlocks k next (s.onSet fun st => { st with mem := { st.mem with
            freeptr := Function.update st.mem.freeptr block dataStart
            next := Function.update st.mem.next block 0 } })
        else
          let s := s.wipe block (s.st.mem.freeptr block - block)
          resetBlocks k next (s.free block)

/-- `alloc_set_reset`. -/
def allocSetReset (s : Image) : Result Image := do
  let notices ← search s (allocSetCheck s)
  let s := { s with notices := s.notices ++ notices }
  resetBlocks FUEL s.st.set.blocks (s.onSet fun st =>
    { st with set := { st.set with freelist := fun _ => 0, blocks := st.set.keeper } })

/-- The loop of `alloc_set_delete`, with `k` steps left. -/
def deleteBlocks : Nat → Nat → Image → Result Image
  | k, block, s =>
    if block = 0 then .ok s
    else
      match k with
      | 0 => .error (.endless, s)
      | k + 1 =>
        let next := s.st.mem.next block
        let s := s.wipe block (s.st.mem.freeptr block - block)
        deleteBlocks k next (s.free block)

/-- `alloc_set_delete`. -/
def allocSetDelete (s : Image) : Result Image := do
  let notices ← search s (allocSetCheck s)
  let s := { s with notices := s.notices ++ notices }
  deleteBlocks FUEL s.st.set.blocks (s.onSet fun st =>
    { st with set := { st.set with freelist := fun _ => 0, blocks := 0, keeper := 0 } })

end PostgresV7.Aset.Debug
