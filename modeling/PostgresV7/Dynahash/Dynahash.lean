import Mathlib.Algebra.Group.Int.Defs
import PostgresV7.Base
import PostgresV7.Lib.Chain
import PostgresV7.Lib.Regions

/-!
# Dynamic hashing (`dynahash.c`, `hsearch.h`)

Segments and elements are known by their offsets from `segbase`; the macros that
add it and take it off again cancel. A `BUCKET_INDEX *` points to a bucket of a
segment or to the next pointer of an element. The user's data is not touched and
not kept; keys are whole, since only `memcmp`, `memmove` and the hash function see
them. A store outside an allocated chunk is a fault.
-/

namespace PostgresV7.Dynahash

open Regions

def DEF_SEGSIZE : Nat := 256
def DEF_SEGSIZE_SHIFT : Nat := 8
def DEF_DIRSIZE : Nat := 256
def DEF_FFACTOR : Int := 1
def INVALID_INDEX : Nat := 0
def NO_MAX_DSIZE : Int := -1
def BUCKET_ALLOC_INCR : Nat := 30
def SIZEOF_BUCKET_INDEX : Nat := 8
def SIZEOF_SEG_OFFSET : Nat := 8
def SIZEOF_HASH_HEADER : Nat := 120
def MAX_ALLOC_SIZE : Nat := 0x3fffffff

/-! ## The table -/

/-- `HashHeader`, the control information handles share. -/
structure HashHeader where
  dsize : Nat
  ssize : Nat
  sshift : Nat
  maxBucket : Nat
  highMask : Nat
  lowMask : Nat
  ffactor : Int
  nkeys : Nat
  nsegs : Nat
  keysize : Nat
  datasize : Nat
  maxDsize : Int
  freeBucketIndex : Nat
  deriving DecidableEq, Repr

/-- Where a `BUCKET_INDEX` is stored. -/
inductive Cell where
  | bucket (seg ndx : Nat)
  | next (elem : Nat)
  deriving DecidableEq, Repr

/-- A `HashTable` handle: its directory, and whether its memory comes from
`dyna_hash_alloc`. -/
structure HashTable where
  dir : Nat
  memAlloc : Bool
  deriving DecidableEq, Repr

/-- Memory as far as the code reads it. -/
structure World (Key : Type) where
  hctl : HashHeader
  cells : Cell → Nat
  keys : Nat → Key
  dirs : Nat → Nat → Nat
  heap : Heap

/-- `hashp->dir[i] = seg`. -/
def World.setDir {Key : Type} (w : World Key) (hashp : HashTable) (i seg : Nat) : World Key :=
  { w with dirs := Function.update w.dirs hashp.dir (Function.update (w.dirs hashp.dir) i seg) }

/-- What can go wrong besides a refused request. -/
inductive Fault where
  | overrun
  | undefined
  | endless
  | elog
  | assertFailed
  deriving DecidableEq, Repr

variable {Key : Type} [DecidableEq Key]

/-! ## Allocation -/

/-- `hashp->alloc(size)`. `dyna_hash_alloc` takes an `unsigned int`, and
`memory_context_alloc` does not return when it refuses. The answer is the
address and the bytes there are. -/
def hashAlloc (A : Allocator) (hashp : HashTable) (heap : Heap) (size : Nat) :
    Except Fault (Option (Nat × Nat) × Heap) :=
  if hashp.memAlloc then
    let size := size % 2 ^ 32
    if 0 < size ∧ size ≤ MAX_ALLOC_SIZE then
      match heap.alloc A size with
      | (some p, heap) => .ok (some (p, size), heap)
      | (none, _) => .error .elog
    else .error .elog
  else
    match heap.alloc A size with
    | (some p, heap) => .ok (some (p, size), heap)
    | (none, heap) => .ok (none, heap)

/-- `seg_alloc`; the segment is cleared. -/
def segAlloc (A : Allocator) (hashp : HashTable) (w : World Key) :
    Except Fault (Nat × World Key) := do
  let size := SIZEOF_BUCKET_INDEX * w.hctl.ssize % 2 ^ 64
  match ← hashAlloc A hashp w.heap size with
  | (none, heap) => .ok (0, { w with heap := heap })
  | (some (segp, room), heap) =>
    if room < SIZEOF_BUCKET_INDEX * w.hctl.ssize then .error .overrun
    else
      let cells := fun c => match c with
        | .bucket seg ndx => if seg = segp then 0 else w.cells (.bucket seg ndx)
        | .next elem => w.cells (.next elem)
      .ok (segp, { w with cells := cells, heap := heap })

/-- The loop of `bucket_alloc` that points each bucket to the one behind it;
`k` are left. -/
def linkBuckets (bucketSize : Nat) : Nat → Nat → (Cell → Nat) → Cell → Nat
  | 0, _, cells => cells
  | k + 1, tmpIndex, cells =>
    linkBuckets bucketSize k (tmpIndex + bucketSize)
      (Function.update cells (.next tmpIndex) (tmpIndex + bucketSize))

/-- Size of one element with its header. -/
def HashHeader.bucketSize (hctl : HashHeader) : Nat :=
  maxAlign (SIZEOF_BUCKET_INDEX + hctl.keysize + hctl.datasize)

/-- `bucket_alloc`. The size is a `long`. -/
def bucketAlloc (A : Allocator) (hashp : HashTable) (w : World Key) :
    Except Fault (Bool × World Key) := do
  if 2 ^ 63 ≤ SIZEOF_BUCKET_INDEX + w.hctl.keysize + w.hctl.datasize then .error .undefined
  else
    let bucketSize := w.hctl.bucketSize
    match ← hashAlloc A hashp w.heap (BUCKET_ALLOC_INCR * bucketSize % 2 ^ 64) with
    | (none, heap) => .ok (false, { w with heap := heap })
    | (some (tmpIndex, room), heap) =>
      let last := tmpIndex + (BUCKET_ALLOC_INCR - 1) * bucketSize
      -- the next pointer of the last bucket is stored as well
      if tmpIndex + room < last + SIZEOF_BUCKET_INDEX then .error .overrun
      else
        let lastIndex := w.hctl.freeBucketIndex
        let cells := linkBuckets bucketSize BUCKET_ALLOC_INCR tmpIndex w.cells
        .ok (true, { w with
          cells := Function.update cells (.next last) lastIndex
          hctl := { w.hctl with freeBucketIndex := tmpIndex }
          heap := heap })

/-- `dir_realloc`; the new directory is the handle's own. The old one goes to
`memory_context_free`, which has no meaning for memory of another allocator. -/
def dirRealloc (A : Allocator) (hashp : HashTable) (w : World Key) :
    Except Fault (Bool × HashTable × World Key) := do
  if w.hctl.maxDsize ≠ NO_MAX_DSIZE then .ok (false, hashp, w)
  else
    let newDsize := w.hctl.dsize * 2
    match ← hashAlloc A hashp w.heap (newDsize * SIZEOF_SEG_OFFSET % 2 ^ 64) with
    | (none, heap) => .ok (false, hashp, { w with heap := heap })
    | (some (p, room), heap) =>
      if room < newDsize * SIZEOF_SEG_OFFSET then .error .overrun
      else if hashp.memAlloc = false then .error .undefined
      else
        let entries := fun i => if i < w.hctl.dsize then w.dirs hashp.dir i else 0
        .ok (true, { hashp with dir := p }, { w with
          dirs := Function.update w.dirs p entries
          heap := heap.free ⟨hashp.dir, w.hctl.dsize * SIZEOF_SEG_OFFSET⟩
          hctl := { w.hctl with dsize := newDsize } })

/-! ## Buckets -/

/-- `call_hash`: both masks, and the conversion to `uint32`. -/
def callHash (hctl : HashHeader) (hashVal : Int) : Nat :=
  let bits := (hashVal % 2 ^ 64).toNat
  let bucket := bits &&& hctl.highMask
  let bucket := if bucket > hctl.maxBucket then bucket &&& hctl.lowMask else bucket
  bucket % 2 ^ 32

/-- `&GET_SEG(hashp, bucket >> sshift)[MOD(bucket, ssize)]`. -/
def bucketCell (hashp : HashTable) (w : World Key) (bucket : Nat) : Cell :=
  .bucket (w.dirs hashp.dir (bucket >>> w.hctl.sshift)) (bucket &&& (w.hctl.ssize - 1))

/-- The loop of `expand_table` that relocates records, with `k` iterations
left; `old` and `newbi` are where the two chains grow. -/
def splitChain (hash : Key → Int) (hctl : HashHeader) (keys : Nat → Key) (oldBucket : Nat) :
    Nat → Cell → Cell → Nat → (Cell → Nat) → Except Fault (Cell → Nat)
  | k, old, newbi, chainIndex, cells =>
    if chainIndex = INVALID_INDEX then
      .ok (Function.update (Function.update cells old INVALID_INDEX) newbi INVALID_INDEX)
    else
      match k with
      | 0 => .error .endless
      | k + 1 =>
        let nextIndex := cells (.next chainIndex)
        if callHash hctl (hash (keys chainIndex)) = oldBucket then
          splitChain hash hctl keys oldBucket k (.next chainIndex) newbi nextIndex
            (Function.update cells old chainIndex)
        else
          splitChain hash hctl keys oldBucket k old (.next chainIndex) nextIndex
            (Function.update cells newbi chainIndex)

/-- A directory that reaches to `newSegnum`. -/
def ensureDirectory (A : Allocator) (hashp : HashTable) (w : World Key) (newSegnum : Nat) :
    Except Fault (Bool × HashTable × World Key) :=
  if newSegnum ≥ w.hctl.dsize then dirRealloc A hashp w else .ok (true, hashp, w)

/-- `hashp->dir[new_segnum] = seg_alloc(hashp)`, and the count of segments. -/
def addSegment (A : Allocator) (hashp : HashTable) (w : World Key) (newSegnum : Nat) :
    Except Fault (Bool × HashTable × World Key) := do
  let (seg, w) ← segAlloc A hashp w
  let w := w.setDir hashp newSegnum seg
  if seg = 0 then .ok (false, hashp, w)
  else .ok (true, hashp, { w with hctl := { w.hctl with nsegs := w.hctl.nsegs + 1 } })

/-- The segment of the new bucket. -/
def newSegnum (hctl : HashHeader) : Nat := (hctl.maxBucket + 1) >>> hctl.sshift

/-- The first half of `expand_table`: find room for the new bucket. -/
def newSegment (A : Allocator) (hashp : HashTable) (w : World Key) :
    Except Fault (Bool × HashTable × World Key) := do
  if newSegnum w.hctl ≥ w.hctl.nsegs then
    let (room, hashp', w') ← ensureDirectory A hashp w (newSegnum w.hctl)
    if room = false then .ok (false, hashp', w') else addSegment A hashp' w' (newSegnum w.hctl)
  else .ok (true, hashp, w)

/-- The second half: the masks. -/
def growMasks (hctl : HashHeader) : HashHeader :=
  let newBucket := hctl.maxBucket + 1
  if newBucket > hctl.highMask then
    { hctl with
      maxBucket := newBucket, lowMask := hctl.highMask, highMask := newBucket ||| hctl.highMask }
  else { hctl with maxBucket := newBucket }

/-- `expand_table`; failing to expand is not an error. The loop has `nkeys`
iterations at most. -/
def expandTable (hash : Key → Int) (A : Allocator) (hashp : HashTable) (w : World Key) :
    Except Fault (HashTable × World Key) := do
  let (room, hashp, w) ← newSegment A hashp w
  if room = false then .ok (hashp, w)
  else
    let newBucket := w.hctl.maxBucket + 1
    let oldBucket := newBucket &&& w.hctl.lowMask
    let w := { w with hctl := growMasks w.hctl }
    let old := bucketCell hashp w oldBucket
    let cells ← splitChain hash w.hctl w.keys oldBucket w.hctl.nkeys old
      (bucketCell hashp w newBucket) (w.cells old) w.cells
    .ok (hashp, { w with cells := cells })

/-! ## `hash_search` -/

inductive HashAction where
  | HASH_FIND
  | HASH_ENTER
  | HASH_REMOVE
  deriving DecidableEq, Repr

/-- What `hash_search` returns: `NULL`, `(long *)true`, or the key of an element. -/
inductive Result where
  | null
  | yes
  | element (e : Nat)
  deriving DecidableEq, Repr

/-- The loop that follows a collision chain from the cell `prev`, with `k`
elements left: the previous cell and the current index. -/
def followChain (w : World Key) (key : Key) : Nat → Cell → Except Fault (Cell × Nat)
  | k, prev =>
    let currIndex := w.cells prev
    if currIndex = INVALID_INDEX then .ok (prev, currIndex)
    else if w.keys currIndex = key then .ok (prev, currIndex)
    else
      match k with
      | 0 => .error .endless
      | k + 1 => followChain w key k (.next currIndex)

/-- Take the element `currIndex` off its chain and put it on the free list. -/
def removeElement (w : World Key) (prev : Cell) (currIndex : Nat) : World Key :=
  let cells := Function.update w.cells prev (w.cells (.next currIndex))
  { w with
    cells := Function.update cells (.next currIndex) w.hctl.freeBucketIndex
    hctl := { w.hctl with nkeys := w.hctl.nkeys - 1, freeBucketIndex := currIndex } }

/-- Take the first free element and append it to the chain that ends in `prev`. -/
def insertElement (w : World Key) (prev : Cell) (key : Key) : World Key :=
  let currIndex := w.hctl.freeBucketIndex
  let cells := Function.update w.cells prev currIndex
  { w with
    cells := Function.update cells (.next currIndex) INVALID_INDEX
    keys := Function.update w.keys currIndex key
    hctl := { w.hctl with
      freeBucketIndex := w.cells (.next currIndex), nkeys := w.hctl.nkeys + 1 } }

/-- An element on the free list, or no room for one. -/
def ensureElement (A : Allocator) (hashp : HashTable) (w : World Key) :
    Except Fault (Bool × World Key) :=
  if w.hctl.freeBucketIndex = INVALID_INDEX then bucketAlloc A hashp w else .ok (true, w)

/-- More keys to a bucket than the fill factor. -/
def Full (hctl : HashHeader) : Prop :=
  ((hctl.nkeys / (hctl.maxBucket + 1) : Nat) : Int) > hctl.ffactor

instance (hctl : HashHeader) : Decidable (Full hctl) := inferInstanceAs (Decidable (_ < _))

def expandIfFull (hash : Key → Int) (A : Allocator) (hashp : HashTable) (w : World Key) :
    Except Fault (HashTable × World Key) :=
  if Full w.hctl then expandTable hash A hashp w else .ok (hashp, w)

/-- `HASH_ENTER` of a key that was not found. -/
def enterElement (hash : Key → Int) (A : Allocator) (hashp : HashTable) (w : World Key)
    (prev : Cell) (key : Key) : Except Fault (Result × HashTable × World Key) := do
  let (room, w) ← ensureElement A hashp w
  if room = false then .ok (.null, hashp, w)
  else
    let currIndex := w.hctl.freeBucketIndex
    let (hashp, w) ← expandIfFull hash A hashp (insertElement w prev key)
    .ok (.element currIndex, hashp, w)

/-- `hash_search`: the result, `*found_ptr`, the handle and the memory. No chain
is longer than `nkeys`. -/
def hashSearch (hash : Key → Int) (A : Allocator) (hashp : HashTable) (w : World Key) (key : Key)
    (action : HashAction) : Except Fault (Result × Bool × HashTable × World Key) := do
  let bucket := callHash w.hctl (hash key)
  let (prev, currIndex) ← followChain w key w.hctl.nkeys (bucketCell hashp w bucket)
  let found := currIndex != INVALID_INDEX
  match action with
  | .HASH_FIND => .ok (if found then .element currIndex else .yes, found, hashp, w)
  | .HASH_REMOVE =>
    if found then .ok (.element currIndex, found, hashp, removeElement w prev currIndex)
    else .ok (.yes, found, hashp, w)
  | .HASH_ENTER =>
    if found then .ok (.element currIndex, found, hashp, w)
    else
      let (result, hashp, w) ← enterElement hash A hashp w prev key
      .ok (result, found, hashp, w)

/-! ## `hash_create` -/

/-- The loop of `my_log2`, with `k` iterations left. -/
def myLog2From (num : Int) : Nat → Nat → Int → Nat
  | 0, i, _ => i
  | k + 1, i, limit => if limit < num then myLog2From num k (i + 1) (limit * 2) else i

/-- `my_log2`. -/
def myLog2 (num : Int) : Nat := myLog2From num 63 0 1

/-- The flags of `hash_create` besides the hash function. -/
structure HashFlags where
  segment : Bool := false
  dirsize : Bool := false
  ffactor : Bool := false
  elem : Bool := false
  sharedMem : Bool := false
  alloc : Bool := false
  deriving DecidableEq, Repr

/-- `HashCtrl`; `dir` is the preallocated directory, `0` if there is none. -/
structure HashCtrl where
  ssize : Nat := 0
  dsize : Nat := 0
  ffactor : Int := 0
  keysize : Nat := 0
  datasize : Nat := 0
  maxDsize : Int := 0
  dir : Nat := 0
  deriving DecidableEq, Repr

/-- `hdefault`. -/
def hdefault : HashHeader where
  dsize := DEF_DIRSIZE
  ssize := DEF_SEGSIZE
  sshift := DEF_SEGSIZE_SHIFT
  maxBucket := 0
  highMask := 0
  lowMask := 0
  ffactor := DEF_FFACTOR
  nkeys := 0
  nsegs := 0
  keysize := 8
  datasize := 8
  maxDsize := NO_MAX_DSIZE
  freeBucketIndex := INVALID_INDEX

/-- The parameters the caller asked for. -/
def headerOf (flags : HashFlags) (info : HashCtrl) : HashHeader :=
  let hctl := hdefault
  let hctl := if flags.segment then { hctl with ssize := info.ssize, sshift := myLog2 info.ssize }
    else hctl
  let hctl := if flags.ffactor then { hctl with ffactor := info.ffactor } else hctl
  let hctl := if flags.dirsize then { hctl with maxDsize := info.maxDsize, dsize := info.dsize }
    else hctl
  if flags.elem then { hctl with keysize := info.keysize, datasize := info.datasize } else hctl

/-- The loop of `init_htab` that allocates segments; `k` are missing. -/
def initSegments (A : Allocator) (hashp : HashTable) :
    Nat → World Key → Except Fault (Bool × World Key)
  | 0, w => .ok (true, w)
  | k + 1, w => do
    let (seg, w) ← segAlloc A hashp w
    let w := w.setDir hashp w.hctl.nsegs seg
    if seg = 0 then .ok (false, w)
    else initSegments A hashp k { w with hctl := { w.hctl with nsegs := w.hctl.nsegs + 1 } }

/-- The masks and the size of the directory `init_htab` sets. -/
def sizeHeader (hctl : HashHeader) (nbuckets nsegs : Nat) : HashHeader :=
  { hctl with
    maxBucket := nbuckets - 1
    lowMask := nbuckets - 1
    highMask := nbuckets * 2 - 1
    dsize := if nsegs > hctl.dsize then nsegs else hctl.dsize }

/-- The rest of `init_htab`: the directory and its segments. -/
def initDirectory (A : Allocator) (hashp : HashTable) (w : World Key) (nsegs : Nat) :
    Except Fault (Bool × HashTable × World Key) := do
  if hashp.dir ≠ 0 then
    let (done, w) ← initSegments A hashp nsegs w
    .ok (done, hashp, w)
  else
    match ← hashAlloc A hashp w.heap (w.hctl.dsize * SIZEOF_SEG_OFFSET % 2 ^ 64) with
    | (none, heap) => .ok (false, hashp, { w with heap := heap })
    | (some (dir, room), heap) =>
      -- the entries are stored one by one, but up to `dsize` of them later on
      if room < w.hctl.dsize * SIZEOF_SEG_OFFSET then .error .overrun
      else
        let hashp := { hashp with dir := dir }
        let (done, w) ← initSegments A hashp nsegs { w with heap := heap }
        .ok (done, hashp, w)

/-- `init_htab`. A division by zero and an `int` past `2 ^ 31` are undefined. -/
def initHtab (A : Allocator) (hashp : HashTable) (w : World Key) (nelem : Int) :
    Except Fault (Bool × HashTable × World Key) :=
  if w.hctl.ffactor = 0 then .error .undefined
  else
    let nelem := Int.bmod (Int.tdiv (nelem - 1) w.hctl.ffactor + 1) (2 ^ 32)
    if myLog2 nelem > 29 then .error .undefined
    else
      let nbuckets := 2 ^ myLog2 nelem
      let nsegs := 2 ^ myLog2 (((nbuckets - 1) / w.hctl.ssize + 1 : Nat) : Int)
      if nsegs > w.hctl.dsize ∧ hashp.dir ≠ 0 then .ok (false, hashp, w)
      else initDirectory A hashp { w with hctl := sizeHeader w.hctl nbuckets nsegs } nsegs

/-- `hash_create` without `HASH_ATTACH`, in a memory `w` whose header is not in
use yet; no table comes out when a request is refused. -/
def hashCreate (A : Allocator) (w : World Key) (nelem : Int) (info : HashCtrl) (flags : HashFlags) :
    Except Fault (Option (HashTable × World Key)) := do
  let hashp : HashTable :=
    if flags.sharedMem then { dir := info.dir, memAlloc := false }
    else { dir := 0, memAlloc := true }
  let hashp := if flags.alloc then { hashp with memAlloc := false } else hashp
  let (done, hashp, w) ← initHtab A hashp { w with hctl := headerOf flags info } nelem
  .ok (if done then some (hashp, w) else none)

/-- The loop of `hash_select_dirsize`, with `k` iterations left. -/
def selectDirsizeFrom (nsegments : Nat) : Nat → Nat → Nat
  | 0, ndirEntries => ndirEntries
  | k + 1, ndirEntries =>
    if ndirEntries < nsegments then selectDirsizeFrom nsegments k (ndirEntries * 2)
    else ndirEntries

/-- `hash_select_dirsize`. -/
def hashSelectDirsize (numEntries : Int) : Nat :=
  let nbuckets := 2 ^ myLog2 (Int.tdiv (numEntries - 1) DEF_FFACTOR + 1)
  let nsegments := 2 ^ myLog2 (((nbuckets - 1) / DEF_SEGSIZE + 1 : Nat) : Int)
  selectDirsizeFrom nsegments 63 DEF_DIRSIZE

/-- `hash_create` with `HASH_SHARED_MEM` and `HASH_ATTACH`. -/
def hashAttach (info : HashCtrl) : HashTable := { dir := info.dir, memAlloc := false }

end PostgresV7.Dynahash
