import PostgresV7.Shmem.Shmem
import PostgresV7.Shmem.ShmemHash

/-!
# The shmem index (`init_shmem_allocation`, `shmem_init_struct`)

A hash table in shared memory leads from the names of structures to their locations
and sizes. A name is entered before there is space for the structure. Locations are
offsets, the same in every process, and a call runs under `ShmemIndexLock` from end
to end; one that has to wait for the lock is a fault.
-/

namespace PostgresV7.Shmem

open Align Dynahash Regions

def SHMEM_INDEX_KEY_SIZE : Nat := 50
def SHMEM_INDEX_DATA_SIZE : Nat := 22
def SHMEM_INDEX_SIZE : Nat := 100
def SIZEOF_VARIABLE_CACHE : Nat := 12

/-- The `key` of an entry. -/
abbrev IndexKey := Fin SHMEM_INDEX_KEY_SIZE → UInt8

/-- `strncpy(item.key, name, SHMEM_INDEX_KEY_SIZE)`. -/
def strncpy (name : List UInt8) : IndexKey := fun i => name.getD i 0

/-- A string that fits into a key, without the terminating zero. -/
def ValidName (name : List UInt8) : Prop := name.length < SHMEM_INDEX_KEY_SIZE ∧ 0 ∉ name

instance (name : List UInt8) : Decidable (ValidName name) := inferInstanceAs (Decidable (_ ∧ _))

/-- `"ShmemIndex"`. -/
def shmemIndexName : List UInt8 := [83, 104, 109, 101, 109, 73, 110, 100, 101, 120]

/-! ## The segment as an allocator -/

/-- Where the free space of a segment begins, after the header and the regions. -/
def endOf (rs : List Region) : Nat :=
  alignUp 16 (rs.foldr (fun r n => max (r.base + r.size) n) (maxAlign SIZEOF_PG_SHMEM_HEADER))

theorem le_foldr_max (rs : List Region) (n : Nat) :
    n ≤ rs.foldr (fun r n => max (r.base + r.size) n) n := by
  induction rs with
  | nil => exact Nat.le_refl n
  | cons r rs ih => exact Nat.le_trans ih (Nat.le_max_right _ _)

theorem le_endOf {rs : List Region} {r : Region} (hr : r ∈ rs) : r.base + r.size ≤ endOf rs := by
  refine Nat.le_trans ?_ (le_alignUp (by decide) _)
  induction rs with
  | nil => cases hr
  | cons s rs ih =>
    rcases List.mem_cons.mp hr with rfl | hr
    · exact Nat.le_max_left _ _
    · exact Nat.le_trans (ih hr) (Nat.le_max_right _ _)

theorem endOf_start (rs : List Region) : 16 ≤ endOf rs :=
  Nat.le_trans (le_foldr_max rs 16) (le_alignUp (by decide) _)

theorem dvd_endOf (rs : List Region) : 16 ∣ endOf rs := dvd_alignUp 16 _

theorem endOf_mono {rs rs' : List Region} (h : ∀ r ∈ rs, r ∈ rs') : endOf rs ≤ endOf rs' := by
  refine alignUp_le (by decide) (dvd_endOf rs') ?_
  have hall : ∀ r ∈ rs, r.base + r.size ≤ endOf rs' := fun r hr => le_endOf (h r hr)
  clear h
  induction rs with
  | nil => exact endOf_start rs'
  | cons r rs ih =>
    exact Nat.max_le.mpr ⟨hall r List.mem_cons_self, ih fun x hx => hall x (List.mem_cons_of_mem r hx)⟩

/-- A region at the end moves the end behind it. -/
theorem endOf_cons (rs : List Region) (size : Nat) :
    endOf (⟨endOf rs, size⟩ :: rs) = endOf rs + alignUp 16 size := by
  have hle := le_alignUp (by decide : 0 < 16)
    (rs.foldr (fun r n => max (r.base + r.size) n) (maxAlign SIZEOF_PG_SHMEM_HEADER))
  have hmax : max (endOf rs + size)
      (rs.foldr (fun r n => max (r.base + r.size) n) (maxAlign SIZEOF_PG_SHMEM_HEADER)) =
      endOf rs + size := Nat.max_eq_left (Nat.le_trans hle (Nat.le_add_right _ _))
  calc endOf (⟨endOf rs, size⟩ :: rs) = alignUp 16 (endOf rs + size) := congrArg (alignUp 16) hmax
    _ = endOf rs + alignUp 16 size := alignUp_add_of_dvd (by decide) (dvd_endOf rs)

/-- `shmem_alloc` as an allocator: what it answers as long as no sum passes 4 GB. -/
def segment (total : Nat) : Allocator where
  answer _ rs size :=
    if endOf rs + alignUp 16 size ≤ total % 2 ^ 32 then some (endOf rs) else none
  pos {_ rs _ _} h := by
    have hstart := endOf_start rs
    split at h
    · rw [← Option.some.inj h]
      omega
    · cases h
  aligned {_ rs _ _} h := by
    split at h
    · rw [← Option.some.inj h]
      exact dvd_endOf rs
    · cases h
  inside {_ rs size _} h := by
    have hle := le_alignUp (by decide : 0 < 16) size
    split at h
    · rw [← Option.some.inj h]
      omega
    · cases h
  fresh {_ rs _ _} h r hr := by
    split at h
    · rw [← Option.some.inj h]
      exact Or.inr (le_endOf hr)
    · cases h

/-! ## The index -/

/-- The segment with the index in it; `location` and `size` are fields of its elements. -/
structure ShmemIndex where
  hdr : PGShmemHeader
  hashp : HashTable
  world : World IndexKey
  location : Nat → Nat
  size : Nat → UInt64
  locked : Bool

/-- A lock that is taken, a failed assertion, a store through `NULL`, or a fault of the
hash table. -/
inductive IndexFault where
  | blocked
  | assertion
  | nullPointer
  | dynahash (e : Dynahash.Fault)
  deriving DecidableEq, Repr

namespace ShmemIndex

/-- `spin_acquire(ShmemIndexLock)`. -/
def spinAcquire (s : ShmemIndex) : Except IndexFault ShmemIndex :=
  if s.locked then .error .blocked else .ok { s with locked := true }

/-- `spin_release(ShmemIndexLock)`. -/
def spinRelease (s : ShmemIndex) : Except IndexFault ShmemIndex :=
  if s.locked then .ok { s with locked := false } else .error .assertion

/-- `hash_search` of the index; `free_offset` moves by what the table takes. -/
def search (hash : IndexKey → Int) (s : ShmemIndex) (key : IndexKey) (action : HashAction) :
    Except IndexFault (Result × Bool × ShmemIndex) := do
  let (result, found, hashp, world) ←
    (hashSearch hash (segment s.hdr.totalSize) s.hashp s.world key action).mapError .dynahash
  let taken := endOf world.heap.regions - endOf s.world.heap.regions
  .ok (result, found, { s with
    hashp := hashp
    world := world
    hdr := { s.hdr with freeOffset := s.hdr.freeOffset + taken } })

/-- `shmem_alloc`. -/
def alloc (s : ShmemIndex) (size : UInt64) : Option Nat × ShmemIndex :=
  let (r, hdr) := shmemAlloc s.hdr size
  let heap := { s.world.heap with regions := granted size r ++ s.world.heap.regions }
  (r, { s with hdr := hdr, world := { s.world with heap := heap } })

/-- `shmem_is_valid` of an address at this offset. -/
def isValid (s : ShmemIndex) (offset : Nat) : Bool := offset < s.hdr.totalSize

/-- The end of `shmem_init_struct`. -/
def finish (structPtr : Nat) (found : Bool) (s : ShmemIndex) :
    Except IndexFault (Option Nat × Bool × ShmemIndex) := do
  if s.isValid structPtr then
    let s ← s.spinRelease
    .ok (some structPtr, found, s)
  else .error .assertion

end ShmemIndex

/-- `shmem_init_struct`, with `*found_ptr`; `NULL` stands for `elog(ERROR)` as well. -/
def shmemInitStruct (hash : IndexKey → Int) (name : List UInt8) (size : UInt64) (s : ShmemIndex) :
    Except IndexFault (Option Nat × Bool × ShmemIndex) := do
  let s ← s.spinAcquire
  let (result, found, s) ← s.search hash (strncpy name) .HASH_ENTER
  match result with
  | .null =>
    let s ← s.spinRelease
    .ok (none, found, s)
  | .yes => .error (.dynahash .undefined)
  | .element e =>
    if found then
      if s.size e ≠ size then
        let s ← s.spinRelease
        .ok (none, found, s)
      else s.finish (s.location e) found
    else
      match s.alloc size with
      | (none, s) =>
        let (_, _, s) ← s.search hash (strncpy name) .HASH_REMOVE
        let s ← s.spinRelease
        .ok (none, false, s)
      | (some structPtr, s) =>
        let s := { s with
          size := Function.update s.size e size
          location := Function.update s.location e structPtr }
        s.finish structPtr found

/-- `init_shmem_allocation`, which enters the index under its own name; `none` is a
`FATAL` error. The lock is taken by the bootstrapping `shmem_init_struct`. -/
def initShmemAllocation (hash : IndexKey → Int) (hdr : PGShmemHeader) :
    Except IndexFault (Option ShmemIndex) := do
  let tableSize := SIZEOF_HASH_HEADER + hashSelectDirsize SHMEM_INDEX_SIZE * SIZEOF_SEG_OFFSET
  match shmemAlloc hdr (UInt64.ofNat tableSize) with
  | (none, _) => .ok none
  | (some hctl, hdr) =>
    let regions := [directoryRegion hctl SHMEM_INDEX_SIZE, ⟨hctl, SIZEOF_HASH_HEADER⟩]
    let blank : IndexKey := fun _ => 0
    let world := { freshWorld blank with heap := ⟨0, regions⟩ }
    match ← (shmemInitHash (segment hdr.totalSize) world hctl SHMEM_INDEX_SIZE SHMEM_INDEX_SIZE
        { keysize := SHMEM_INDEX_KEY_SIZE, datasize := SHMEM_INDEX_DATA_SIZE }
        { elem := true }).mapError .dynahash with
    | none => .ok none
    | some (hashp, world) =>
      let hdr := { hdr with freeOffset := endOf world.heap.regions }
      let s : ShmemIndex :=
        { hdr := hdr, hashp := hashp, world := world, location := fun _ => 0, size := fun _ => 0,
          locked := true }
      let (result, found, s) ← s.search hash (strncpy shmemIndexName) .HASH_ENTER
      match result with
      | .element e =>
        if found then .error .assertion
        else
          let s := { s with
            location := Function.update s.location e hctl
            size := Function.update s.size e (UInt64.ofNat SHMEM_INDEX_SIZE) }
          let s ← s.spinRelease
          match s.alloc (UInt64.ofNat SIZEOF_VARIABLE_CACHE) with
          | (none, _) => .error .nullPointer
          | (some _, s) => .ok (some s)
      | _ => .ok none

end PostgresV7.Shmem
