import Mathlib.Data.Nat.Bitwise
import PostgresV7.Dynahash.Masks

/-!
# The hash functions (`hashfn.c`)

A key is known by the memory from its first byte on, as far as it may be read: behind
the bytes of the key come other members of a stack variable, or the data of an
element. To read past that is no result. Arithmetic on `int` and `long` wraps.
-/

namespace PostgresV7.Dynahash

def PRIME1 : Int := 37
def PRIME2 : Int := 1048583

/-- The loop of `string_hash`. -/
def stringHashFrom : Int32 → List UInt8 → Option Int32
  | _, [] => none
  | h, c :: k => if c = 0 then some h else stringHashFrom (h * .ofInt PRIME1 ^^^ .ofInt (c.toNat - 32)) k

/-- `string_hash`; the key size is not looked at. -/
def stringHash (key : List UInt8) (_keysize : Int) : Option Int := do
  let h ← stringHashFrom 0 key
  some (h % .ofInt PRIME2).toInt

/-- `h = h * PRIME1 ^ x`. -/
def mix (h x : Int64) : Int64 := h * .ofInt PRIME1 ^^^ x

/-- The `int` in four bytes. -/
def intOf (a b c d : UInt8) : Int32 :=
  .ofNat (a.toNat + 2 ^ 8 * b.toNat + 2 ^ 16 * c.toNat + 2 ^ 24 * d.toNat)

/-- Cases of `tag_hash` that fall through: `k` of them mix in an `int` each. -/
def mixInts : Nat → Int64 → List UInt8 → Option Int64
  | 0, h, _ => some h
  | k + 1, h, a :: b :: c :: d :: key => mixInts k (mix h (intOf a b c d).toInt64) key
  | _ + 1, _, _ => none

/-- The last bytes; a `char` has a sign. -/
def mixChars : Nat → Int64 → List UInt8 → Option Int64
  | 0, h, _ => some h
  | k + 1, h, c :: key => mixChars k (mix h c.toInt8.toInt64) key
  | _ + 1, _, [] => none

/-- The default of `tag_hash`: whole `int`s, then the bytes that are left. -/
def mixBytes : Nat → Int64 → List UInt8 → Option Int64
  | keysize + 4, h, a :: b :: c :: d :: key => mixBytes keysize (mix h (intOf a b c d).toInt64) key
  | _ + 4, _, _ => none
  | keysize, h, key => mixChars keysize h key

/-- `tag_hash`; for a negative key size no byte is read. -/
def tagHash (key : List UInt8) (keysize : Int) : Option Int := do
  let h ← match keysize with
    | 24 => mixInts 6 0 key
    | 20 => mixInts 5 0 key
    | 16 => mixInts 4 0 key
    | 12 => mixInts 3 0 key
    | 8 => mixInts 2 0 key
    | 4 => mixInts 1 0 key
    | keysize => mixBytes keysize.toNat 0 key
  some (h % .ofInt PRIME2).toInt

/-- The functions a `HashTable` may have. -/
inductive HashFunction where
  | string_hash
  | tag_hash
  deriving DecidableEq, Repr

def HashFunction.run : HashFunction → List UInt8 → Int → Option Int
  | .string_hash => stringHash
  | .tag_hash => tagHash

/-- `call_hash` of the key at the start of `key`; the key size is converted to `int`. -/
def callHashOf (f : HashFunction) (hctl : HashHeader) (key : List UInt8) : Option Nat := do
  let hashVal ← f.run key (Int.bmod hctl.keysize (2 ^ 32))
  some (callHash hctl hashVal)

/-! ## `tag_hash` -/

theorem mixChars_append {k : Nat} {key : List UInt8} (hk : k ≤ key.length) (h : Int64) :
    ∃ v, ∀ rest, mixChars k h (key ++ rest) = some v := by
  induction k generalizing h key with
  | zero => exact ⟨h, fun _ => rfl⟩
  | succ k ih =>
    cases key with
    | nil => simp at hk
    | cons c key =>
      apply ih
      simpa using hk

theorem mixBytes_small {k : Nat} (hk : k < 4) (h : Int64) (key : List UInt8) :
    mixBytes k h key = mixChars k h key := by
  match k, hk with
  | 0, _ | 1, _ | 2, _ | 3, _ => rfl

/-- What is behind the key is not read. -/
theorem mixBytes_append {k : Nat} {key : List UInt8} (hk : k ≤ key.length) (h : Int64) :
    ∃ v, ∀ rest, mixBytes k h (key ++ rest) = some v := by
  induction k using Nat.strong_induction_on generalizing h key with
  | h k ih =>
    by_cases hsmall : k < 4
    · simp only [mixBytes_small hsmall]
      exact mixChars_append hk h
    · obtain ⟨n, rfl⟩ : ∃ n, k = n + 4 := ⟨k - 4, by omega⟩
      match key with
      | a :: b :: c :: d :: key =>
        apply ih n (by omega)
        simpa using hk
      | [] | [_] | [_, _] | [_, _, _] => simp at hk

/-- The cases for several `int`s do what the loop does. -/
theorem mixInts_eq (k : Nat) (h : Int64) (key : List UInt8) : mixInts k h key = mixBytes (4 * k) h key := by
  induction k generalizing h key with
  | zero => rfl
  | succ k ih =>
    rw [show 4 * (k + 1) = 4 * k + 4 from rfl]
    unfold mixInts mixBytes
    split <;> simp_all

theorem tagHash_eq (key : List UInt8) (keysize : Int) :
    tagHash key keysize = (mixBytes keysize.toNat 0 key).map fun h => (h % .ofInt PRIME2).toInt := by
  rw [Option.map_eq_bind]
  unfold tagHash
  split <;> simp only [mixInts_eq] <;> rfl

/-- The hash is that of the first `keysize` bytes. -/
theorem tagHash_append {keysize : Int} {key : List UInt8} (hk : keysize.toNat ≤ key.length) :
    ∃ v, ∀ rest, tagHash (key ++ rest) keysize = some v := by
  obtain ⟨v, hv⟩ := mixBytes_append hk 0
  refine ⟨(v % .ofInt PRIME2).toInt, fun rest => ?_⟩
  rw [tagHash_eq, hv]
  rfl

/-! ## `string_hash` -/

/-- A string ends at its first zero. -/
theorem stringHashFrom_terminated {key : List UInt8} (h0 : 0 ∈ key) (h : Int32) :
    ∃ v, ∀ rest, stringHashFrom h (key ++ rest) = some v := by
  induction key generalizing h with
  | nil => simp at h0
  | cons c key ih =>
    by_cases hc : c = 0
    · exact ⟨h, fun rest => by simp [stringHashFrom, hc]⟩
    · simp only [List.cons_append, stringHashFrom, hc, ↓reduceIte]
      apply ih
      simpa [Ne.symm hc] using h0

/-- Without one the bytes behind the key are hashed as well. -/
theorem stringHashFrom_open {key : List UInt8} (h0 : 0 ∉ key) (h : Int32) :
    ∃ v, ∀ rest, stringHashFrom h (key ++ rest) = stringHashFrom v rest := by
  induction key generalizing h with
  | nil => exact ⟨h, fun _ => rfl⟩
  | cons c key ih =>
    have hc : c ≠ 0 := fun heq => h0 (heq ▸ List.mem_cons_self)
    simp only [List.cons_append, stringHashFrom, hc, ↓reduceIte]
    exact ih (fun hin => h0 (List.mem_cons_of_mem c hin)) _

theorem toInt_xor_one (x : Int32) : (x ^^^ 1).toInt = x.toInt + 1 ∨ (x ^^^ 1).toInt = x.toInt - 1 := by
  have hlt := x.toBitVec.isLt
  have hxor : (x ^^^ 1).toBitVec.toNat = x.toBitVec.toNat ^^^ 1 := rfl
  have h₁ : x.toInt = x.toBitVec.toInt := rfl
  have h₂ : (x ^^^ 1).toInt = (x ^^^ 1).toBitVec.toInt := rfl
  rw [h₁, h₂, BitVec.toInt_eq_toNat_cond, BitVec.toInt_eq_toNat_cond, hxor]
  rcases Nat.even_or_odd x.toBitVec.toNat with heven | hodd
  · rw [Nat.xor_one_of_even heven]
    obtain ⟨n, hn⟩ := heven
    omega
  · rw [Nat.xor_one_of_odd hodd]
    obtain ⟨n, hn⟩ := hodd
    omega

/-- A bit more or less is seen in the remainder. -/
theorem tmod_xor_one_ne (x : Int32) : (x % .ofInt PRIME2).toInt ≠ ((x ^^^ 1) % .ofInt PRIME2).toInt := by
  have hprime : (Int32.ofInt PRIME2).toInt = 1048583 := by decide
  rw [Int32.toInt_mod, Int32.toInt_mod, hprime]
  have h₁ := Int.tmod_add_mul_tdiv x.toInt 1048583
  have h₂ := Int.tmod_add_mul_tdiv (x ^^^ 1).toInt 1048583
  have hxor := toInt_xor_one x
  omega

/-! ## Equal keys -/

/-- What the hash function makes of two keys leads to one bucket. -/
def HashesAlike (f : HashFunction) (hctl : HashHeader) (key key' : List UInt8) : Prop :=
  ∀ v v', f.run key (Int.bmod hctl.keysize (2 ^ 32)) = some v →
    f.run key' (Int.bmod hctl.keysize (2 ^ 32)) = some v' →
    v = v' ∧ callHashOf f hctl key = callHashOf f hctl key'

theorem toNat_bmod_le (n : Nat) : (Int.bmod n (2 ^ 32)).toNat ≤ n := by
  rw [Int.bmod_def]
  omega

/-- The hash is one of the first `keysize` bytes alone. -/
theorem HashFunction.run_append {f : HashFunction} {p : List UInt8} (h : f = .tag_hash ∨ 0 ∈ p) :
    ∃ v, ∀ rest, f.run (p ++ rest) (Int.bmod p.length (2 ^ 32)) = some v := by
  cases f with
  | tag_hash =>
    simp only [HashFunction.run]
    apply tagHash_append
    exact toNat_bmod_le p.length
  | string_hash =>
    have h0 : 0 ∈ p := h.resolve_left HashFunction.noConfusion
    obtain ⟨v, hv⟩ := stringHashFrom_terminated h0 0
    refine ⟨(v % .ofInt PRIME2).toInt, fun rest => ?_⟩
    simp [HashFunction.run, stringHash, hv]

/-- Keys that agree in `keysize` bytes `p` hash alike, in a caller's memory and in an element, if
and only if the function is `tag_hash` or `p` has a terminating zero. -/
theorem keys_hash_alike_iff (f : HashFunction) (hctl : HashHeader) (p : List UInt8)
    (hp : p.length = hctl.keysize) :
    ((∀ key key', p <+: key → p <+: key' → HashesAlike f hctl key key') ↔
      f = .tag_hash ∨ 0 ∈ p) ∧
    (f = .tag_hash ∨ 0 ∈ p → ∃ v, ∀ key, p <+: key →
      f.run key (Int.bmod hctl.keysize (2 ^ 32)) = some v ∧
      callHashOf f hctl key = some (callHash hctl v)) := by
  have hone : f = .tag_hash ∨ 0 ∈ p → ∃ v, ∀ key, p <+: key →
      f.run key (Int.bmod hctl.keysize (2 ^ 32)) = some v ∧
      callHashOf f hctl key = some (callHash hctl v) := by
    intro hcond
    obtain ⟨v, hv⟩ := HashFunction.run_append hcond
    refine ⟨v, ?_⟩
    intro key ⟨rest, hkey⟩
    subst hkey
    rw [← hp, callHashOf, ← hp, hv]
    exact ⟨rfl, rfl⟩
  refine ⟨⟨?_, ?_⟩, hone⟩
  · intro halike
    cases f with
    | tag_hash => exact Or.inl rfl
    | string_hash =>
      by_contra hcond
      have h0 : 0 ∉ p := fun hin => hcond (Or.inr hin)
      obtain ⟨v, hv⟩ := stringHashFrom_open h0 0
      -- a blank and an exclamation mark behind the key
      have hblank : stringHash (p ++ [32, 0]) (Int.bmod hctl.keysize (2 ^ 32)) =
          some (v * .ofInt PRIME1 % .ofInt PRIME2).toInt := by
        simp [stringHash, hv, stringHashFrom]
      have hmark : stringHash (p ++ [33, 0]) (Int.bmod hctl.keysize (2 ^ 32)) =
          some ((v * .ofInt PRIME1 ^^^ 1) % .ofInt PRIME2).toInt := by
        simp [stringHash, hv, stringHashFrom]
      have heq := halike _ _ (List.prefix_append p _) (List.prefix_append p _) _ _ hblank hmark
      exact tmod_xor_one_ne _ heq.1
  · intro hcond key key' hkey hkey' v v' hv hv'
    obtain ⟨x, hx⟩ := hone hcond
    rw [(hx key hkey).1] at hv
    rw [(hx key' hkey').1] at hv'
    refine ⟨Option.some.inj (hv.symm.trans hv'), ?_⟩
    rw [(hx key hkey).2, (hx key' hkey').2]

/-- The header of a table of 128 buckets with keys of this size. -/
def stringHeader (keysize : Nat) : HashHeader := { sizeHeader hdefault 128 1 with keysize := keysize }

/-- A name that leaves room for its terminating zero. -/
theorem keys_hash_alike_iff_example :
    HashesAlike .string_hash (stringHeader 4) [65, 66, 67, 0, 1, 2] [65, 66, 67, 0, 255] :=
  ((keys_hash_alike_iff .string_hash (stringHeader 4) [65, 66, 67, 0] rfl).1.mpr (Or.inr (by decide)))
    _ _ ⟨[1, 2], rfl⟩ ⟨[255], rfl⟩

/-- A name of 50 characters in a key of 50 bytes: what is behind it in the caller's item and
in the element leads to different buckets. -/
theorem string_hash_reads_on : ∃ key key' v v',
    key.take 50 = List.replicate 50 (65 : UInt8) ∧ key'.take 50 = List.replicate 50 65 ∧
    HashFunction.run .string_hash key 50 = some v ∧ HashFunction.run .string_hash key' 50 = some v' ∧
    v ≠ v' ∧ callHash (stringHeader 50) v ≠ callHash (stringHeader 50) v' := by
  refine ⟨List.replicate 50 65 ++ [33, 0], List.replicate 50 65 ++ [0], -244520, 812154, ?_⟩
  decide +kernel

end PostgresV7.Dynahash
