import PostgresV7.Lib.Bytes
import PostgresV7.Lib.Outcomes
import Mathlib.Tactic.Common

/-!
# Extensible strings (`stringinfo.c`, `stringinfo.h`)

A write past the buffer and an `int` that overflows end the run, and so does `repalloc`
when it does not give the memory. `repalloc` and `vsnprintf` are parameters.
-/

namespace PostgresV7.Strings

open ByteMem Outcomes

def INT_MAX : Int := 0x7fffffff

def INT_MIN : Int := -0x80000000

inductive Fault where
  | overflow
  | endless
  | outOfBounds
  | refused
  deriving DecidableEq, Repr

/-- The value of an `int` expression. -/
def int (n : Int) : Except Fault Int := if INT_MIN ≤ n ∧ n ≤ INT_MAX then .ok n else .error .overflow

/-- `StringInfoData`, with the bytes `data` points to; `size` of them are allocated. -/
structure StringInfo where
  data : Mem
  size : Nat
  len : Int
  maxlen : Int

namespace StringInfo

/-- Bytes are stored from `data[i]` on. -/
def store (str : StringInfo) (i : Int) (bytes : List UInt8) : Except Fault StringInfo :=
  if 0 ≤ i ∧ i + bytes.length ≤ str.size then
    .ok { str with data := write str.data i.toNat bytes.length fun j => bytes.getD j 0 }
  else .error .outOfBounds

end StringInfo

/-- The answer of `repalloc` to a size: what is in the new bytes, or `NULL`. -/
abbrev Repalloc := Int → Option Mem

/-- `init_string_info`. What `palloc` returns is not cleared. -/
def initStringInfo (fresh : Mem) : StringInfo :=
  let size := 256
  { data := write fresh 0 1 fun _ => 0, size := size, len := 0, maxlen := size }

/-- `while (needed > newlen)`, for `rounds` rounds. -/
def doubling (needed : Int) : Nat → Int → Except Fault Int
  | 0, _ => .error .endless
  | rounds + 1, newlen =>
    if needed > newlen then do
      let newlen ← int (2 * newlen)
      doubling needed rounds newlen
    else .ok newlen

/-- `enlarge_string_info`. -/
def enlargeStringInfo (repalloc : Repalloc) (rounds : Nat) (str : StringInfo) (needed : Int) :
    Except Fault StringInfo := do
  let needed ← int (needed + (← int (str.len + 1)))
  if needed ≤ str.maxlen then return str
  let newlen ← int (2 * str.maxlen)
  let newlen ← doubling needed rounds newlen
  match repalloc newlen with
  | none => .error .refused
  | some fresh =>
    return { str with
      data := fun i => if i < str.size then str.data i else fresh i
      size := newlen.toNat
      maxlen := newlen }

/-- What `vsnprintf` returns, and what it stored in the given space. -/
structure Printed where
  nprinted : Int
  bytes : List UInt8
  deriving DecidableEq, Repr

/-- `vsnprintf` with a format and its arguments, by the space it is given. -/
abbrev Vsnprintf := Nat → Printed

/-- One round of `append_string_info`, up to the `break`: whether it is taken. -/
def tryPrint (vsnprintf : Vsnprintf) (str : StringInfo) : Except Fault (Bool × StringInfo) := do
  let avail ← int (str.maxlen - str.len - 1)
  if avail > 16 then
    let printed := vsnprintf avail.toNat
    let str ← str.store str.len printed.bytes
    if printed.nprinted ≥ 0 ∧ printed.nprinted < avail - 1 then
      return (true, { str with len := ← int (str.len + printed.nprinted) })
    return (false, str)
  return (false, str)

/-- `append_string_info`. -/
def appendStringInfo (repalloc : Repalloc) (rounds : Nat) (vsnprintf : Vsnprintf) :
    Nat → StringInfo → Except Fault StringInfo
  | 0, _ => .error .endless
  | n + 1, str => do
    let (done, str) ← tryPrint vsnprintf str
    if done then return str
    let str ← enlargeStringInfo repalloc rounds str str.maxlen
    appendStringInfo repalloc rounds vsnprintf n str

/-- `append_string_info_char`. -/
def appendStringInfoChar (repalloc : Repalloc) (rounds : Nat) (str : StringInfo) (ch : UInt8) :
    Except Fault StringInfo := do
  let str ← if (← int (str.len + 1)) ≥ str.maxlen then enlargeStringInfo repalloc rounds str 1 else .ok str
  let str ← str.store str.len [ch]
  let str := { str with len := ← int (str.len + 1) }
  str.store str.len [0]

/-- `APPEND_STRING_INFO_CHAR_MACRO`. -/
def appendStringInfoCharMacro (repalloc : Repalloc) (rounds : Nat) (str : StringInfo) (ch : UInt8) :
    Except Fault StringInfo := do
  if (← int (str.len + 1)) ≥ str.maxlen then appendStringInfoChar repalloc rounds str ch
  else
    let str ← str.store str.len [ch]
    let str := { str with len := ← int (str.len + 1) }
    str.store str.len [0]

/-- `append_binary_string_info`. -/
def appendBinaryStringInfo (repalloc : Repalloc) (rounds : Nat) (str : StringInfo) (data : List UInt8) :
    Except Fault StringInfo := do
  let datalen : Int := data.length
  let str ← enlargeStringInfo repalloc rounds str datalen
  let str ← str.store str.len data
  let str := { str with len := ← int (str.len + datalen) }
  str.store str.len [0]

variable {repalloc : Repalloc} {rounds : Nat} {str str' : StringInfo} {bytes : List UInt8}

/-! ## One computation -/

theorem int_ok {n : Int} (h : INT_MIN ≤ n ∧ n ≤ INT_MAX) : int n = .ok n := if_pos h

theorem int_overflow {n : Int} (h : ¬ n ≤ INT_MAX) : int n = .error .overflow := if_neg fun hand => h hand.2

theorem int_inv {n k : Int} (h : int n = .ok k) : k = n ∧ n ≤ INT_MAX := by
  unfold int at h
  split at h
  · rename_i hn
    exact ⟨(Except.ok.inj h).symm, hn.2⟩
  · cases h

/-- A doubling that ends covers what is needed. -/
theorem doubling_inv {needed n r : Int} (h : doubling needed rounds n = .ok r) :
    needed ≤ r ∧ ∃ k, r = n * 2 ^ k ∧ (k = 0 ∨ r ≤ INT_MAX) := by
  induction rounds generalizing n with
  | zero => cases h
  | succ rounds ih =>
    rw [doubling] at h
    split at h
    · obtain ⟨m, hm, hrest⟩ := bind_eq_ok h
      obtain ⟨rfl, hmax⟩ := int_inv hm
      obtain ⟨hle, k, rfl, hk⟩ := ih hrest
      refine ⟨hle, k + 1, by rw [pow_succ']; ring, .inr ?_⟩
      rcases hk with rfl | hk
      · rwa [pow_zero, mul_one]
      · exact hk
    · rename_i hle
      obtain rfl := Except.ok.inj h
      exact ⟨Int.not_lt.mp hle, 0, by rw [pow_zero, mul_one], .inl rfl⟩

/-- The doubling ends with the first multiple that covers what is needed. -/
theorem doubling_ok {needed : Int} {n k : Nat} (hbelow : ∀ j < k, ((n * 2 ^ j : Nat) : Int) < needed)
    (hle : needed ≤ (n * 2 ^ k : Nat)) (hmax : ((n * 2 ^ k : Nat) : Int) ≤ INT_MAX) (hrounds : k < rounds) :
    doubling needed rounds n = .ok (n * 2 ^ k : Nat) := by
  induction k generalizing n rounds with
  | zero =>
    obtain ⟨rounds, rfl⟩ := Nat.exists_eq_succ_of_ne_zero (Nat.ne_of_gt hrounds)
    rw [pow_zero, mul_one] at hle ⊢
    rw [doubling, if_neg (Int.not_lt.mpr hle)]
  | succ k ih =>
    obtain ⟨rounds, rfl⟩ := Nat.exists_eq_succ_of_ne_zero (Nat.ne_of_gt (Nat.lt_trans (Nat.succ_pos k) hrounds))
    have hfirst := hbelow 0 (Nat.succ_pos k)
    rw [pow_zero, mul_one] at hfirst
    have hshift : ∀ j, n * 2 ^ (j + 1) = 2 * n * 2 ^ j := fun j => by rw [pow_succ']; ring
    have hmono : 2 * n ≤ n * 2 ^ (k + 1) := by
      rw [hshift]
      exact Nat.le_mul_of_pos_right _ (Nat.two_pow_pos k)
    have hint : int (2 * (n : Int)) = .ok ((2 * n : Nat) : Int) := by
      rw [int_ok ⟨by unfold INT_MIN; omega, by omega⟩]
      push_cast
      rfl
    rw [doubling, if_pos hfirst, hint]
    rw [hshift] at hle hmax ⊢
    exact ih (fun j hj => by rw [← hshift]; exact hbelow (j + 1) (Nat.succ_lt_succ hj)) hle hmax
      (Nat.lt_of_succ_lt_succ hrounds)

end PostgresV7.Strings
