import PostgresV7.HeapTuple.Heaptuple

/-!
# The offset cache against the plain walk

`attOffset` is where a left-to-right walk with no cache finds an attribute of
one tuple; `fixedOffset` is the offset an attribute has in every tuple whose
earlier attributes are all there and of fixed length. `CacheOk` says that nothing
but fixed offsets is ever cached. It holds of the empty cache and every fetch
keeps it, so every fetch returns what the plain walk returns.
-/

namespace PostgresV7.Heap

open ByteMem Align

/-! ## The plain walk -/

/-- `tup->t_hoff` bytes into the tuple. -/
def HeapTuple.dataStart (t : HeapTuple) : Nat := t.tData + t.tHoff

/-- Is attribute `i` of the tuple null? -/
def HeapTuple.isNull (t : HeapTuple) (i : Nat) : Bool := !t.noNulls && attIsNull i t.tBits

/-- Where the first `i` attributes of the tuple end. -/
def walkStop (desc : TupleDesc) (t : HeapTuple) : Nat → Nat :=
  Layout.stop (fun i => (desc.att i).attalign.width)
    (fun i off => attSize t.mem (desc.att i) (t.dataStart + off)) t.isNull

/-- Where attribute `i` of the tuple starts. -/
def attOffset (desc : TupleDesc) (t : HeapTuple) : Nat → Nat :=
  Layout.start (fun i => (desc.att i).attalign.width)
    (fun i off => attSize t.mem (desc.att i) (t.dataStart + off)) t.isNull

/-- The datum and null flag a walk with an empty cache returns. -/
def plainGetAttr (desc : TupleDesc) (t : HeapTuple) (attnum : Nat) : Datum × Bool :=
  if t.isNull (attnum - 1) then (0, true)
  else (fetchAtt t.mem (desc.att (attnum - 1)) (t.dataStart + attOffset desc t (attnum - 1)), false)

/-- A tuple of the descriptor: it may have fewer attributes, its flags tell the
truth about varlena attributes, and its data fits in an allocation. -/
structure WellFormed (desc : TupleDesc) (t : HeapTuple) : Prop where
  natts_le : t.tNatts ≤ desc.natts
  fixed : t.allFixed = true → ∀ i, i < t.tNatts → t.isNull i = false → 0 < (desc.att i).attlen
  inside : t.tHoff + walkStop desc t t.tNatts ≤ t.tLen
  len_le : t.tLen ≤ MAX_ALLOC_SIZE

/-! ## Fixed offsets -/

/-- Every attribute before `j` has a fixed length. -/
def FixedBefore (desc : TupleDesc) (j : Nat) : Prop := ∀ i, i < j → 0 < (desc.att i).attlen

def fixedStop (desc : TupleDesc) : Nat → Nat :=
  Layout.stop (fun i => (desc.att i).attalign.width) (fun i _ => (desc.att i).attlen.toNat)
    (fun _ => false)

def fixedOffset (desc : TupleDesc) : Nat → Nat :=
  Layout.start (fun i => (desc.att i).attalign.width) (fun i _ => (desc.att i).attlen.toNat)
    (fun _ => false)

/-- Only fixed offsets of attributes with fixed-length predecessors are cached. -/
def CacheOk (desc : TupleDesc) (cache : AttCache) : Prop :=
  ∀ j, cache j = -1 ∨ (cache j = fixedOffset desc j ∧ FixedBefore desc j)

theorem attSize_of_fixed {a : FormPgAttribute} (m : Mem) (ptr : Nat) (h : 0 < a.attlen) :
    attSize m a ptr = a.attlen.toNat := by
  rw [attSize, if_pos (by omega)]

/-- Behind fixed-length attributes that are all there, every tuple agrees. -/
theorem attOffset_eq_fixedOffset {desc : TupleDesc} {t : HeapTuple} {j : Nat}
    (hnull : ∀ i, i < j → t.isNull i = false) (hfixed : FixedBefore desc j) :
    attOffset desc t j = fixedOffset desc j :=
  Layout.start_congr (fun _ _ => rfl) hnull fun i hi _ => attSize_of_fixed _ _ (hfixed i hi)

theorem walkStop_eq_fixedStop {desc : TupleDesc} {t : HeapTuple} {j : Nat}
    (hnull : ∀ i, i < j → t.isNull i = false) (hfixed : FixedBefore desc j) :
    walkStop desc t j = fixedStop desc j :=
  Layout.stop_congr (fun _ _ => rfl) hnull fun i hi _ => attSize_of_fixed _ _ (hfixed i hi)

theorem walkStop_of_isNull (desc : TupleDesc) {t : HeapTuple} {i : Nat} (h : t.isNull i = true) :
    walkStop desc t (i + 1) = walkStop desc t i := Layout.stop_succ_of_skip h

theorem walkStop_succ {desc : TupleDesc} {t : HeapTuple} {i : Nat} (h : t.isNull i = false) :
    walkStop desc t (i + 1) =
      attOffset desc t i + attSize t.mem (desc.att i) (t.dataStart + attOffset desc t i) :=
  Layout.stop_succ h

theorem attOffset_eq (desc : TupleDesc) (t : HeapTuple) (i : Nat) :
    attOffset desc t i = alignUp (desc.att i).attalign.width (walkStop desc t i) := rfl

theorem fixedStop_succ (desc : TupleDesc) (i : Nat) :
    fixedStop desc (i + 1) = fixedOffset desc i + (desc.att i).attlen.toNat :=
  Layout.stop_succ rfl

theorem fixedOffset_eq (desc : TupleDesc) (i : Nat) :
    fixedOffset desc i = alignUp (desc.att i).attalign.width (fixedStop desc i) := rfl

theorem fixedOffset_zero (desc : TupleDesc) : fixedOffset desc 0 = 0 :=
  alignUp_of_dvd (AttAlign.width_pos _) (Nat.dvd_zero _)

/-- The attributes lie inside the tuple, so every offset is an `int`. -/
theorem walkStop_lt {desc : TupleDesc} {t : HeapTuple} (hw : WellFormed desc t) {i : Nat}
    (hi : i < t.tNatts) : walkStop desc t (i + 1) < 2 ^ 30 := by
  have hmono : walkStop desc t (i + 1) ≤ walkStop desc t t.tNatts :=
    Layout.stop_mono (fun j => (desc.att j).attalign.width_pos) hi
  have hin := hw.inside
  have hlen := hw.len_le
  unfold MAX_ALLOC_SIZE at hlen
  omega

theorem attOffset_lt {desc : TupleDesc} {t : HeapTuple} (hw : WellFormed desc t) {i : Nat}
    (hi : i < t.tNatts) (hnull : t.isNull i = false) : attOffset desc t i < 2 ^ 30 := by
  have hlt := walkStop_lt hw hi
  rw [walkStop_succ hnull] at hlt
  omega

theorem toInt32_natCast {n : Nat} (h : n < 2 ^ 31) : toInt32 n = n :=
  Int.bmod_eq_of_le (by omega) (by omega)

/-! ## Nulls before an attribute -/

theorem byte_ne_ff {b : UInt8} : b ≠ 0xFF ↔ ∃ j, j < 8 ∧ b.toNat.testBit j = false := by
  have hb := b.toNat_lt
  constructor
  · intro hne
    by_contra hall
    apply hne
    apply UInt8.toNat_inj.mp
    apply Nat.eq_of_testBit_eq
    intro j
    have hff : (255 : Nat) = 2 ^ 8 - 1 := rfl
    rw [show (0xFF : UInt8).toNat = 255 from rfl, hff, Nat.testBit_two_pow_sub_one]
    by_cases hj : j < 8
    · have hbit : b.toNat.testBit j = true := by
        by_contra hfalse
        exact hall ⟨j, hj, by simpa using hfalse⟩
      rw [hbit, decide_eq_true hj]
    · rw [decide_eq_false hj]
      exact Nat.testBit_lt_two_pow (hb.trans_le (Nat.pow_le_pow_right (by decide) (by omega)))
  · rintro ⟨j, hj, hbit⟩ rfl
    have hff : (0xFF : UInt8).toNat = 2 ^ 8 - 1 := rfl
    rw [hff, Nat.testBit_two_pow_sub_one, decide_eq_true hj] at hbit
    cases hbit

theorem low_bits_clear {x f : Nat} (hx : x < 256) (hf : f ≤ 8) :
    (255 - x) &&& ((1 <<< f) - 1) ≠ 0 ↔ ∃ j, j < f ∧ x.testBit j = false := by
  have hbit : ∀ j, ((255 - x) &&& ((1 <<< f) - 1)).testBit j =
      (decide (j < 8) && !x.testBit j && decide (j < f)) := by
    intro j
    rw [Nat.testBit_and, Nat.one_shiftLeft, Nat.testBit_two_pow_sub_one,
      show 255 - x = 2 ^ 8 - (x + 1) by omega, Nat.testBit_two_pow_sub_succ (by omega)]
  constructor
  · intro hne
    obtain ⟨j, hj⟩ := Nat.exists_testBit_of_ne_zero hne
    rw [hbit] at hj
    simp only [Bool.and_eq_true, Bool.not_eq_true', decide_eq_true_eq] at hj
    exact ⟨j, hj.2, hj.1.2⟩
  · rintro ⟨j, hj, hx⟩ hz
    have ht := hbit j
    rw [hz, Nat.zero_testBit, hx, decide_eq_true hj, decide_eq_true (by omega)] at ht
    cases ht

/-- The byte-wise test finds a null attribute before `attnum` if there is one. -/
theorem nullsBefore_iff (bits : Nat → UInt8) (attnum : Nat) :
    nullsBefore bits attnum = true ↔ ∃ i, i < attnum ∧ attIsNull i bits = true := by
  have h7 : attnum &&& 0x07 = attnum % 8 := Nat.and_two_pow_sub_one_eq_mod attnum 3
  have h3 : attnum >>> 3 = attnum / 8 := Nat.shiftRight_eq_div_pow attnum 3
  have hlow := low_bits_clear (x := (bits (attnum / 8)).toNat) (f := attnum % 8)
    (UInt8.toNat_lt _) (by omega)
  have hnull : ∀ i, attIsNull i bits = true ↔ (bits (i / 8)).toNat.testBit (i % 8) = false := by
    intro i
    rw [attIsNull_eq, Bool.not_eq_true']
  unfold nullsBefore
  simp only [h7, h3]
  by_cases hlast : (255 - (bits (attnum / 8)).toNat) &&& ((1 <<< (attnum % 8)) - 1) ≠ 0
  · rw [if_pos hlast]
    obtain ⟨j, hj, hbit⟩ := hlow.mp hlast
    refine ⟨fun _ => ⟨attnum / 8 * 8 + j, by omega, (hnull _).mpr ?_⟩, fun _ => rfl⟩
    rwa [show (attnum / 8 * 8 + j) / 8 = attnum / 8 by omega,
      show (attnum / 8 * 8 + j) % 8 = j by omega]
  · rw [if_neg hlast]
    simp only [List.any_eq_true, List.mem_range, bne_iff_ne, byte_ne_ff]
    constructor
    · rintro ⟨byte, hbyte, j, hj, hbit⟩
      refine ⟨byte * 8 + j, by omega, (hnull _).mpr ?_⟩
      rwa [show (byte * 8 + j) / 8 = byte by omega, show (byte * 8 + j) % 8 = j by omega]
    · rintro ⟨i, hi, hn⟩
      have hbit := (hnull i).mp hn
      by_cases hb : i / 8 < attnum / 8
      · exact ⟨i / 8, hb, i % 8, by omega, hbit⟩
      · have heq : i / 8 = attnum / 8 := by omega
        rw [heq] at hbit
        exact absurd (hlow.mpr ⟨i % 8, by omega, hbit⟩) hlast

end PostgresV7.Heap
