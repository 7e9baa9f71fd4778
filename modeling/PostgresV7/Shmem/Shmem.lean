import PostgresV7.Base
import PostgresV7.Lib.Regions
import PostgresV7.Lib.Runs

/-!
# Shared memory (`ipc.c`, `ipc.h`, `shmem.c`)

Addresses are offsets from the start of the segment. `shmem_alloc` runs under
`ShmemLock`, so the processes take turns; nothing is ever given back.
-/

namespace PostgresV7.Shmem

open Align Regions Runs

/-- `sizeof(PGShmemHeader)`: `magic`, `creator_pid` and the two offsets. -/
def SIZEOF_PG_SHMEM_HEADER : Nat := 16

/-- The space allocation status of a segment. Both fields are `uint32`. -/
structure PGShmemHeader where
  totalSize : Nat
  freeOffset : Nat
  deriving DecidableEq, Repr

/-- What `ipc_memory_create` writes into a new segment. `none` is a failed assertion. -/
def ipcMemoryCreate (size : UInt32) : Option PGShmemHeader :=
  if size.toNat > maxAlign SIZEOF_PG_SHMEM_HEADER then
    some { totalSize := size.toNat, freeOffset := maxAlign SIZEOF_PG_SHMEM_HEADER }
  else none

/-- `shmem_alloc`. The sum is a 64-bit one, `new_free` keeps 32 bits of it. -/
def shmemAlloc (hdr : PGShmemHeader) (size : UInt64) : Option Nat × PGShmemHeader :=
  let size := maxAlign size.toNat
  let newFree := (hdr.freeOffset + size) % 2 ^ 64 % 2 ^ 32
  if newFree ≤ hdr.totalSize then (some hdr.freeOffset, { hdr with freeOffset := newFree })
  else (none, hdr)

/-! ## One request -/

/-- The header as `ipc_memory_create` and the requests leave it. -/
structure PGShmemHeader.Valid (hdr : PGShmemHeader) : Prop where
  start : 16 ≤ hdr.freeOffset
  aligned : 16 ∣ hdr.freeOffset
  bounded : hdr.freeOffset ≤ hdr.totalSize
  total_lt : hdr.totalSize < 2 ^ 32

/-- The space the request needs ends below `2 ^ 32`, or what is left of its end in 32
bits is past the segment. -/
def Fits (hdr : PGShmemHeader) (size : UInt64) : Prop :=
  hdr.freeOffset + alignUp 16 size.toNat < 2 ^ 32 ∨
    hdr.totalSize < (hdr.freeOffset + alignUp 16 size.toNat) % 2 ^ 32

/-- What a caller relies on, with `regions` allocated before. -/
def Allocates (hdr : PGShmemHeader) (regions : List Region) (size : UInt64) : Prop :=
  match shmemAlloc hdr size with
  | (some p, hdr') => 16 ≤ p ∧ p + size.toNat ≤ hdr.totalSize ∧ 16 ∣ p ∧
      (∀ r ∈ regions, Region.Apart ⟨p, size.toNat⟩ r) ∧
      hdr.freeOffset ≤ hdr'.freeOffset ∧ hdr'.freeOffset ≤ hdr.totalSize
  | (none, hdr') => hdr' = hdr

theorem valid_create {size : UInt32} {hdr : PGShmemHeader} (h : ipcMemoryCreate size = some hdr) :
    hdr.Valid := by
  unfold ipcMemoryCreate at h
  split at h
  · rename_i hlt
    obtain rfl := Option.some.inj h
    have h16 : maxAlign SIZEOF_PG_SHMEM_HEADER = 16 := by decide
    rw [h16] at hlt ⊢
    exact ⟨Nat.le_refl _, Nat.dvd_refl _, Nat.le_of_lt hlt, size.toNat_lt⟩
  · cases h

/-- Rounding up wraps only where the sum would. -/
theorem maxAlign_mod (n k : Nat) :
    (k + maxAlign n) % 2 ^ 64 % 2 ^ 32 = (k + alignUp 16 n) % 2 ^ 32 := by
  have halign : maxAlign n = alignUp 16 n % 2 ^ 64 := by
    unfold maxAlign typeAlign alignUp MAX_ALIGNOF
    omega
  rw [halign, Nat.add_mod_mod, Nat.mod_mod_of_dvd _ (Nat.pow_dvd_pow 2 (by decide))]

/-- `new_free` and the branch it decides. -/
theorem shmemAlloc_eq (hdr : PGShmemHeader) (size : UInt64) :
    shmemAlloc hdr size =
      if (hdr.freeOffset + alignUp 16 size.toNat) % 2 ^ 32 ≤ hdr.totalSize then
        (some hdr.freeOffset, { hdr with
          freeOffset := (hdr.freeOffset + alignUp 16 size.toNat) % 2 ^ 32 })
      else (none, hdr) := by
  unfold shmemAlloc
  simp only [maxAlign_mod]

/-- A request that fits is granted as a whole, or refused. -/
theorem shmemAlloc_cases {hdr hdr' : PGShmemHeader} {size : UInt64} {r : Option Nat}
    (hv : hdr.Valid) (hf : Fits hdr size) (h : shmemAlloc hdr size = (r, hdr')) :
    (r = none ∧ hdr' = hdr ∧ hdr.totalSize < hdr.freeOffset + alignUp 16 size.toNat) ∨
      (r = some hdr.freeOffset ∧
        hdr' = { hdr with freeOffset := hdr.freeOffset + alignUp 16 size.toNat } ∧
        hdr.freeOffset + alignUp 16 size.toNat ≤ hdr.totalSize) := by
  have htotal := hv.total_lt
  rw [shmemAlloc_eq] at h
  have hmod := Nat.mod_le (hdr.freeOffset + alignUp 16 size.toNat) (2 ^ 32)
  split at h
  · rename_i hle
    obtain ⟨rfl, rfl⟩ := Prod.mk.inj h
    rcases hf with hlt | hgt
    · rw [Nat.mod_eq_of_lt hlt] at hle ⊢
      exact Or.inr ⟨rfl, rfl, hle⟩
    · exact absurd hle (Nat.not_le.mpr hgt)
  · rename_i hgt
    obtain ⟨rfl, rfl⟩ := Prod.mk.inj h
    exact Or.inl ⟨rfl, rfl, by omega⟩

/-- The header stays valid. -/
theorem PGShmemHeader.Valid.alloc {hdr hdr' : PGShmemHeader} {size : UInt64} {r : Option Nat}
    (hv : hdr.Valid) (hf : Fits hdr size) (h : shmemAlloc hdr size = (r, hdr')) : hdr'.Valid := by
  rcases shmemAlloc_cases hv hf h with ⟨-, rfl, -⟩ | ⟨-, rfl, hle⟩
  · exact hv
  · exact ⟨Nat.le_trans hv.start (Nat.le_add_right _ _), Nat.dvd_add hv.aligned (dvd_alignUp 16 _),
      hle, hv.total_lt⟩

/-! ## Runs -/

/-- The segment, with the regions callers have and the sizes they asked for. -/
structure System where
  hdr : PGShmemHeader
  regions : List Region

/-- What a request adds to the regions of the callers. -/
def granted (size : UInt64) : Option Nat → List Region
  | some p => [⟨p, size.toNat⟩]
  | none => []

/-- A request that fits, and its answer. -/
inductive Step : System → UInt64 × Option Nat → System → Prop where
  | alloc {s : System} {size : UInt64} {r : Option Nat} {hdr' : PGShmemHeader} : Fits s.hdr size →
      shmemAlloc s.hdr size = (r, hdr') →
      Step s (size, r) ⟨hdr', granted size r ++ s.regions⟩

/-- Everything handed out lies between the header and `free_offset`. -/
structure Sound (total : Nat) (s : System) : Prop where
  valid : s.hdr.Valid
  total : s.hdr.totalSize = total
  inside : ∀ r ∈ s.regions, 16 ≤ r.base ∧ r.base + r.size ≤ s.hdr.freeOffset ∧ 16 ∣ r.base
  apart : s.regions.Pairwise Region.Apart

theorem Sound.step {s s' : System} {total : Nat} {call : UInt64 × Option Nat} (h : Sound total s)
    (hs : Step s call s') : Sound total s' := by
  cases hs with
  | @alloc size r hdr' hf hrun =>
    have hvalid := h.valid.alloc hf hrun
    rcases shmemAlloc_cases h.valid hf hrun with ⟨rfl, rfl, -⟩ | ⟨rfl, rfl, -⟩
    · exact h
    · have hle := le_alignUp (by decide : 0 < 16) size.toNat
      refine ⟨hvalid, h.total, fun r hr => ?_, ?_⟩
      · rcases List.mem_cons.mp hr with rfl | hr
        · exact ⟨h.valid.start, Nat.add_le_add_left hle _, h.valid.aligned⟩
        · obtain ⟨h1, h2, h3⟩ := h.inside r hr
          exact ⟨h1, Nat.le_trans h2 (Nat.le_add_right _ _), h3⟩
      · refine List.pairwise_cons.mpr ⟨fun r hr => ?_, h.apart⟩
        exact Or.inr (h.inside r hr).2.1

/-- The next request gets what it asked for exactly when it fits. -/
theorem Sound.allocates_iff {s : System} {total : Nat} (h : Sound total s) (size : UInt64) :
    Allocates s.hdr s.regions size ↔ Fits s.hdr size := by
  have hle := le_alignUp (by decide : 0 < 16) size.toNat
  have hlt := alignUp_lt (by decide : 0 < 16) size.toNat
  have hstart := h.valid.start
  have htotal := h.valid.total_lt
  constructor
  · intro hall
    unfold Allocates at hall
    rw [shmemAlloc_eq] at hall
    by_cases hnew : (s.hdr.freeOffset + alignUp 16 size.toNat) % 2 ^ 32 ≤ s.hdr.totalSize
    · rw [if_pos hnew] at hall
      obtain ⟨-, hend, -, -, hmono, -⟩ := hall
      dsimp only at hmono
      left
      -- a wrapped sum that does not lie below `free_offset` belongs to a request of nearly 4 GB
      omega
    · exact Or.inr (Nat.not_le.mp hnew)
  · intro hf
    unfold Allocates
    rcases hrun : shmemAlloc s.hdr size with ⟨r, hdr'⟩
    rcases shmemAlloc_cases h.valid hf hrun with ⟨rfl, rfl, -⟩ | ⟨rfl, rfl, hend⟩
    · rfl
    · exact ⟨hstart, by omega, h.valid.aligned, fun r hr => Or.inr (h.inside r hr).2.1,
        Nat.le_add_right _ _, hend⟩

/-- In every run of requests that fit, what was granted lies inside the segment, aligned
and apart, and the next request gets what it asked for exactly when it fits too. -/
theorem shmem_run_allocates {total : UInt32} {hdr : PGShmemHeader}
    (hcreate : ipcMemoryCreate total = some hdr) {l : List (UInt64 × Option Nat)} {s : System}
    (hrun : Run Step ⟨hdr, []⟩ l s) :
    (∀ r ∈ s.regions, maxAlign SIZEOF_PG_SHMEM_HEADER ≤ r.base ∧
      r.base + r.size ≤ total.toNat ∧ 16 ∣ r.base) ∧
    s.regions.Pairwise Region.Apart ∧
    hdr.freeOffset ≤ s.hdr.freeOffset ∧ s.hdr.freeOffset ≤ total.toNat ∧
    ∀ size, Allocates s.hdr s.regions size ↔ Fits s.hdr size := by
  have htotal : hdr.totalSize = total.toNat := by
    unfold ipcMemoryCreate at hcreate
    split at hcreate
    · exact congrArg PGShmemHeader.totalSize (Option.some.inj hcreate).symm
    · cases hcreate
  have hfree : hdr.freeOffset = 16 := by
    unfold ipcMemoryCreate at hcreate
    split at hcreate
    · exact congrArg PGShmemHeader.freeOffset (Option.some.inj hcreate).symm
    · cases hcreate
  have h : Sound total.toNat s := hrun.invariant (fun _ _ _ hI hs => hI.step hs)
    ⟨valid_create hcreate, htotal, fun r hr => absurd hr List.not_mem_nil, List.Pairwise.nil⟩
  have hbounded := h.valid.bounded
  rw [h.total] at hbounded
  refine ⟨fun r hr => ?_, h.apart, by rw [hfree]; exact h.valid.start, hbounded, h.allocates_iff⟩
  obtain ⟨h1, h2, h3⟩ := h.inside r hr
  exact ⟨h1, Nat.le_trans h2 hbounded, h3⟩

/-- Two requests on a segment of 8 kB: one is granted, the other one refused. -/
theorem shmem_run_allocates_example : ∃ hdr s, ipcMemoryCreate 8192 = some hdr ∧
    Run Step ⟨hdr, []⟩ [(100, some 16), (9000, none)] s ∧
    (∀ r ∈ s.regions, maxAlign SIZEOF_PG_SHMEM_HEADER ≤ r.base ∧ r.base + r.size ≤ 8192 ∧ 16 ∣ r.base) := by
  obtain ⟨hdr, hcreate⟩ : ∃ hdr, ipcMemoryCreate 8192 = some hdr := ⟨_, rfl⟩
  have hrun : ∃ s, Run Step ⟨hdr, []⟩ [(100, some 16), (9000, none)] s := by
    obtain rfl := Option.some.inj hcreate
    exact ⟨_, .cons (.alloc (Or.inl (by decide)) rfl) (.cons (.alloc (Or.inl (by decide)) rfl) (.nil _))⟩
  obtain ⟨s, hrun⟩ := hrun
  exact ⟨hdr, s, hcreate, hrun, (shmem_run_allocates hcreate hrun).1⟩

/-- A request for 4 GB is granted in a segment of 8 kB. -/
theorem shmemAlloc_wraps : ∃ hdr, ipcMemoryCreate 8192 = some hdr ∧
    shmemAlloc hdr 0x100000000 = (some 16, hdr) ∧ ¬ Allocates hdr [] 0x100000000 := by
  refine ⟨_, rfl, rfl, fun h => ?_⟩
  exact absurd h.2.1 (by decide)

end PostgresV7.Shmem
