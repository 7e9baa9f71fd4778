import PostgresV7.Lib.Align

/-!
# Compile-time constants and alignment (`c.h`, `config.h`, `block.h`, `relfilenode.h`)

The target is the 64-bit one the build directory was configured for: `long`,
`Size` and `Datum` have 64 bits and `max_align_t` is aligned to 16 bytes.
`MAXALIGN`, which some files still use, is `MAX_ALIGN` under its old name.
-/

namespace PostgresV7

open Align

/-- Size of a disk block. -/
def BLCKSZ : Nat := 8192

/-- Largest number of blocks in one segment file, `0x40000000 / BLCKSZ`. -/
def RELSEG_SIZE : Nat := 131072

/-- Blocks of a relation are numbered from `0` to `0xFFFFFFFE`. -/
abbrev BlockNumber := UInt32

def INVALID_BLOCK_NUMBER : BlockNumber := 0xFFFFFFFF

def INVALID_OID : UInt32 := 0

/-- What it takes to find the files of a relation. -/
structure RelFileNode where
  tblNode : UInt32
  relNode : UInt32
  deriving DecidableEq, Repr

/-- `TYPE_ALIGN`: `((long)size + (alignment - 1)) & ~(alignment - 1)` in 64-bit
arithmetic. Clearing the low bits rounds down to a multiple of the alignment. -/
def typeAlign (alignment size : Nat) : Nat :=
  (size + (alignment - 1)) % 2 ^ 64 / alignment * alignment

/-- `_Alignof(max_align_t)`. -/
def MAX_ALIGNOF : Nat := 16

def maxAlign (size : Nat) : Nat := typeAlign MAX_ALIGNOF size

/-- Away from the end of the address space `TYPE_ALIGN` is rounding up. -/
theorem typeAlign_eq {a n : Nat} (h : n + a ≤ 2 ^ 64) (ha : 0 < a) :
    typeAlign a n = alignUp a n := by
  unfold typeAlign alignUp
  rw [Nat.mod_eq_of_lt (by omega)]

theorem maxAlign_eq {n : Nat} (h : n < 2 ^ 63) : maxAlign n = alignUp 16 n :=
  typeAlign_eq (by unfold MAX_ALIGNOF; omega) (by decide)

theorem dvd_maxAlign (n : Nat) : 16 ∣ maxAlign n := Nat.dvd_mul_left 16 _

theorem le_maxAlign {n : Nat} (h : n < 2 ^ 63) : n ≤ maxAlign n := by
  rw [maxAlign_eq h]
  exact le_alignUp (by decide) n

theorem maxAlign_lt {n : Nat} (h : n < 2 ^ 63) : maxAlign n < n + 16 := by
  rw [maxAlign_eq h]
  exact alignUp_lt (by decide) n

end PostgresV7
