import PostgresV7.HeapTuple.Walk

/-!
# What `compute_data_size` and `data_fill` compute

Both walk the attributes that are not null. `dataStop` and `dataOffset` are that
walk without any wrapping: `compute_data_size` is `dataStop` modulo `2 ^ 32`, and
`data_fill` puts every attribute at its `dataOffset` until a store would leave
the chunk.
-/

namespace PostgresV7.Heap

open ByteMem Align

/-! ## The layout of the values -/

/-- Where the first `i` values end, from the start of the data. -/
def dataStop (src : Mem) (desc : TupleDesc) (value : Nat → Datum) (nulls : Nat → Char) : Nat → Nat :=
  Layout.stop (fun i => (desc.att i).attalign.width) (fun i _ => attSize src (desc.att i) (value i))
    (fun i => nulls i != ' ')

/-- Where value `i` starts. -/
def dataOffset (src : Mem) (desc : TupleDesc) (value : Nat → Datum) (nulls : Nat → Char) : Nat → Nat :=
  Layout.start (fun i => (desc.att i).attalign.width) (fun i _ => attSize src (desc.att i) (value i))
    (fun i => nulls i != ' ')

section Layout

variable {src : Mem} {desc : TupleDesc} {value : Nat → Datum} {nulls : Nat → Char}

theorem dataStop_of_null {i : Nat} (h : nulls i ≠ ' ') :
    dataStop src desc value nulls (i + 1) = dataStop src desc value nulls i :=
  Layout.stop_succ_of_skip (by simpa using h)

theorem dataStop_succ {i : Nat} (h : nulls i = ' ') : dataStop src desc value nulls (i + 1) =
    dataOffset src desc value nulls i + attSize src (desc.att i) (value i) :=
  Layout.stop_succ (by simp [h])

theorem dataOffset_eq (i : Nat) : dataOffset src desc value nulls i =
    alignUp (desc.att i).attalign.width (dataStop src desc value nulls i) := rfl

theorem dataStop_mono {i j : Nat} (h : i ≤ j) :
    dataStop src desc value nulls i ≤ dataStop src desc value nulls j :=
  Layout.stop_mono (fun k => (desc.att k).attalign.width_pos) h

theorem dataStop_le_dataOffset (i : Nat) :
    dataStop src desc value nulls i ≤ dataOffset src desc value nulls i :=
  Layout.stop_le_start (fun k => (desc.att k).attalign.width_pos) i

end Layout

/-! ## `compute_data_size` -/

theorem alignUp_mod_two_pow (a : AttAlign) (n : Nat) :
    alignUp a.width (n % 2 ^ 32) % 2 ^ 32 = alignUp a.width n % 2 ^ 32 := by
  have hdvd : a.width ∣ 2 ^ 32 * (n / 2 ^ 32) :=
    Dvd.dvd.mul_right (a.width_dvd.trans (by decide)) _
  have hsplit : alignUp a.width n = 2 ^ 32 * (n / 2 ^ 32) + alignUp a.width (n % 2 ^ 32) := by
    rw [← alignUp_add_of_dvd a.width_pos hdvd, Nat.div_add_mod]
  rw [hsplit]
  omega

theorem toUint32_natCast (n : Nat) : toUint32 n = n % 2 ^ 32 := by
  unfold toUint32
  omega

/-- The size it returns is the true one modulo `2 ^ 32`. -/
theorem computeDataSize_eq (src : Mem) (desc : TupleDesc) (value : Nat → Datum)
    (nulls : Nat → Char) (k i : Nat) :
    computeDataSize src desc value nulls k i (dataStop src desc value nulls i % 2 ^ 32) =
      dataStop src desc value nulls (i + k) % 2 ^ 32 := by
  induction k generalizing i with
  | zero => rfl
  | succ k ih =>
    rw [computeDataSize, show i + (k + 1) = i + 1 + k by omega, ← ih (i + 1)]
    by_cases hnull : nulls i ≠ ' '
    · rw [if_pos hnull, dataStop_of_null hnull]
    · have hsize : toUint32 (attAddLength
          (toUint32 (attAlign ((dataStop src desc value nulls i % 2 ^ 32 : Nat) : Int)
            (desc.att i).attalign) : Nat)
          (desc.att i).attlen (varattSize src (value i))) =
          dataStop src desc value nulls (i + 1) % 2 ^ 32 := by
        rw [attAlign_natCast, toUint32_natCast, alignUp_mod_two_pow, ← dataOffset_eq,
          attAddLength_natCast (desc.valid i), toUint32_natCast, Nat.mod_add_mod,
          ← dataStop_succ (not_not.mp hnull)]
      rw [if_neg hnull]
      simp only [hsize]

theorem computeDataSize_all (src : Mem) (desc : TupleDesc) (value : Nat → Datum)
    (nulls : Nat → Char) : computeDataSize src desc value nulls desc.natts 0 0 =
      dataStop src desc value nulls desc.natts % 2 ^ 32 := by
  have h := computeDataSize_eq src desc value nulls desc.natts 0
  rwa [Nat.zero_add] at h

/-! ## One value -/

/-- The bytes a value is stored as. -/
def attBytes (src : Mem) (a : FormPgAttribute) (value : Datum) : Nat → UInt8 :=
  if a.attbyval then bytesOf value else fun i => src (value + i)

/-- The flags a value adds to `t_infomask`. -/
def attFlags (src : Mem) (a : FormPgAttribute) (value : Datum) : Nat :=
  if a.attlen ≠ -1 then 0
  else HEAP_HASVARLENA ||| (if varattIsExternal src value then HEAP_HASEXTERNAL else 0) |||
    (if varattIsCompressed src value then HEAP_HASCOMPRESSED else 0)

theorem put_eq (base limit : Nat) (m : Mem) {a n : Nat} (bytes : Nat → UInt8) (hb : base ≤ a) :
    put base limit m a n bytes =
      if a + n ≤ limit then .ok (write m a n bytes) else .error .overrun := by
  unfold put
  by_cases h : a + n ≤ limit
  · rw [if_pos h, if_pos ⟨hb, h⟩]
  · rw [if_neg h, if_neg fun hc => h hc.2]

theorem storeAttByVal_eq {a : FormPgAttribute} (h : a.Valid) (hv : a.attbyval = true)
    (base limit : Nat) (m : Mem) (t : Nat) (value : Datum) :
    storeAttByVal base limit m t value a.attlen =
      put base limit m t a.attlen.toNat (bytesOf value) := by
  unfold storeAttByVal
  rcases h.byval hv with hl | hl | hl | hl <;>
    rw [hl] <;>
    rfl

/-- Whatever its kind, a value is aligned, stored and stepped over. -/
theorem fillAttr_eq (src : Mem) {base limit : Nat} {a : FormPgAttribute} (h : a.Valid)
    (value : Datum) (s : FillState) (hb : base ≤ s.data) :
    fillAttr src base limit a value s =
      if alignUp a.attalign.width s.data + attSize src a value ≤ limit then
        .ok { s with
          mem := write s.mem (alignUp a.attalign.width s.data) (attSize src a value)
            (attBytes src a value)
          infomask := s.infomask ||| attFlags src a value
          data := alignUp a.attalign.width s.data + attSize src a value }
      else .error .overrun := by
  have hdata : base ≤ alignUp a.attalign.width s.data := hb.trans (le_alignUp a.attalign.width_pos _)
  unfold fillAttr
  simp only [attAlign_natCast, Int.toNat_natCast, attAddLength_natCast h]
  by_cases hv : a.attbyval = true
  · have hlen : a.attlen ≠ -1 := by rcases h.byval hv with hl | hl | hl | hl <;> omega
    have hsize : attSize src a value = a.attlen.toNat := if_pos hlen
    have hflags : s.infomask ||| attFlags src a value = s.infomask := by
      rw [attFlags, if_pos hlen, Nat.or_zero]
    rw [if_pos hv, storeAttByVal_eq h hv, put_eq _ _ _ _ hdata, hsize, attBytes, if_pos hv, hflags]
    by_cases hfit : alignUp a.attalign.width s.data + a.attlen.toNat ≤ limit
    · rw [if_pos hfit, if_pos hfit]; rfl
    · rw [if_neg hfit, if_neg hfit]; rfl
  · rw [if_neg hv]
    by_cases hlen : a.attlen = -1
    · have hsize : attSize src a value = varattSize src value := if_neg (not_not.mpr hlen)
      have hflags : s.infomask ||| attFlags src a value =
          (if varattIsCompressed src value then
            (if varattIsExternal src value then s.infomask ||| HEAP_HASVARLENA ||| HEAP_HASEXTERNAL
              else s.infomask ||| HEAP_HASVARLENA) ||| HEAP_HASCOMPRESSED
            else if varattIsExternal src value then
              s.infomask ||| HEAP_HASVARLENA ||| HEAP_HASEXTERNAL
            else s.infomask ||| HEAP_HASVARLENA) := by
        rw [attFlags, if_neg (not_not.mpr hlen)]
        cases varattIsExternal src value <;> cases varattIsCompressed src value <;>
          simp [Nat.or_assoc]
      rw [if_pos hlen, hflags, hsize, attBytes, if_neg hv]
      simp only [put_eq _ _ _ _ hdata]
      by_cases hfit : alignUp a.attalign.width s.data + varattSize src value ≤ limit
      · rw [if_pos hfit, if_pos hfit]; rfl
      · rw [if_neg hfit, if_neg hfit]; rfl
    · have hsize : attSize src a value = a.attlen.toNat := if_pos hlen
      have hflags : s.infomask ||| attFlags src a value = s.infomask := by
        rw [attFlags, if_pos hlen, Nat.or_zero]
      rw [if_neg hlen, put_eq _ _ _ _ hdata, hsize, attBytes, if_neg hv, hflags]
      by_cases hfit : alignUp a.attalign.width s.data + a.attlen.toNat ≤ limit
      · rw [if_pos hfit, if_pos hfit]; rfl
      · rw [if_neg hfit, if_neg hfit]; rfl

/-! ## The bitmap -/

/-- The bits of the first `i` attributes are written, the later ones of the
current byte are clear. -/
structure Bitmap (nulls : Nat → Char) (bits i : Nat) (s : FillState) : Prop where
  bitp : s.bitp + 1 = bits + (i + 7) / 8
  bitmask : s.bitmask = 2 ^ ((i + 7) % 8)
  bit : ∀ j, j < i → (s.mem (bits + j / 8)).toNat.testBit (j % 8) = (nulls j == ' ')
  rest : 0 < i → (s.mem s.bitp).toNat < 2 ^ ((i + 7) % 8 + 1)

/-- The byte and the mask of attribute `i` are at hand, its bit is clear. -/
structure BitReady (nulls : Nat → Char) (bits i : Nat) (s : FillState) : Prop where
  bitp : s.bitp = bits + i / 8
  bitmask : s.bitmask = 2 ^ (i % 8)
  bit : ∀ j, j < i → (s.mem (bits + j / 8)).toNat.testBit (j % 8) = (nulls j == ' ')
  rest : (s.mem s.bitp).toNat < 2 ^ (i % 8)

/-- `s'` differs from `s` only in the bitmap byte of attribute `i`. -/
structure OnlyBitByte (bits i : Nat) (s s' : FillState) : Prop where
  data : s'.data = s.data
  infomask : s'.infomask = s.infomask
  mem : ∀ a, a ≠ bits + i / 8 → s'.mem a = s.mem a

theorem OnlyBitByte.trans {bits i : Nat} {s s' s'' : FillState} (h : OnlyBitByte bits i s s')
    (h' : OnlyBitByte bits i s' s'') : OnlyBitByte bits i s s'' :=
  ⟨h'.data.trans h.data, h'.infomask.trans h.infomask,
    fun a ha => (h'.mem a ha).trans (h.mem a ha)⟩

theorem nextBit_spec {nulls : Nat → Char} {base limit bits i : Nat} {s : FillState}
    (h : Bitmap nulls bits i s) (hb : base ≤ bits) (hl : bits + i / 8 < limit) :
    ∃ s', nextBit base limit s = .ok s' ∧ BitReady nulls bits i s' ∧ OnlyBitByte bits i s s' := by
  have hp := h.bitp
  have hm := h.bitmask
  unfold nextBit
  by_cases hi : i % 8 = 0
  · -- a new byte
    have hsign : s.bitmask = CSIGNBIT := by
      rw [hm, show (i + 7) % 8 = 7 by omega]
      rfl
    have hpos : s.bitp + 1 = bits + i / 8 := by omega
    rw [if_neg (not_not.mpr hsign), put_eq _ _ _ _ (by omega), if_pos (by omega)]
    refine ⟨_, rfl, ⟨hpos, by rw [hi]; rfl, fun j hj => ?_, ?_⟩, rfl, rfl, fun a ha => ?_⟩
    · dsimp only
      rw [write_outside _ _ _ _ (by omega)]
      exact h.bit j hj
    · have hzero := write_inside s.mem (s.bitp + 1) 1 (fun _ => 0) (i := 0) (by decide)
      rw [Nat.add_zero] at hzero
      dsimp only
      rw [hzero]
      exact Nat.two_pow_pos _
    · dsimp only
      rw [write_outside _ _ _ _ (by omega)]
  · have hnext : (i + 7) % 8 + 1 = i % 8 := by omega
    have hsign : s.bitmask ≠ CSIGNBIT := by
      rw [hm]
      have hlt : 2 ^ ((i + 7) % 8) < 2 ^ 7 := Nat.pow_lt_pow_right (by decide) (by omega)
      unfold CSIGNBIT
      omega
    rw [if_pos hsign]
    refine ⟨_, rfl, ⟨by dsimp only; omega, ?_, h.bit, ?_⟩, rfl, rfl, fun _ _ => rfl⟩
    · dsimp only
      rw [hm, Nat.shiftLeft_eq, ← hnext, Nat.pow_one, Nat.pow_succ]
    · rw [← hnext]
      exact h.rest (by omega)

/-- The bit of a null attribute stays clear. -/
theorem BitReady.null {nulls : Nat → Char} {bits i : Nat} {s : FillState}
    (h : BitReady nulls bits i s) (hnull : nulls i ≠ ' ') (infomask : Nat) :
    Bitmap nulls bits (i + 1) { s with infomask := infomask } := by
  have hrest := h.rest
  have hmod : (i + 1 + 7) % 8 = i % 8 := by omega
  refine ⟨?_, ?_, fun j hj => ?_, fun _ => ?_⟩
  · dsimp only
    rw [h.bitp]
    omega
  · rw [hmod]
    exact h.bitmask
  · rcases Nat.lt_succ_iff_lt_or_eq.mp hj with hlt | rfl
    · exact h.bit j hlt
    · rw [h.bitp] at hrest
      dsimp only
      rw [Nat.testBit_lt_two_pow hrest]
      exact (beq_false_of_ne hnull).symm
  · rw [hmod]
    exact hrest.trans (Nat.pow_lt_pow_right (by decide) (by omega))

theorem setBit_spec {nulls : Nat → Char} {base limit bits i : Nat} {s : FillState}
    (h : BitReady nulls bits i s) (hb : base ≤ bits) (hl : bits + i / 8 < limit)
    (hval : nulls i = ' ') :
    ∃ s', setBit base limit s = .ok s' ∧ Bitmap nulls bits (i + 1) s' ∧
      OnlyBitByte bits i s s' := by
  have hp := h.bitp
  have hmod : (i + 1 + 7) % 8 = i % 8 := by omega
  have hrest := h.rest
  have hor : (s.mem s.bitp).toNat ||| s.bitmask < 2 ^ (i % 8 + 1) := by
    rw [h.bitmask]
    exact Nat.or_lt_two_pow (hrest.trans (Nat.pow_lt_pow_right (by decide) (by omega)))
      (Nat.pow_lt_pow_right (by decide) (by omega))
  have hbyte : (s.mem s.bitp).toNat ||| s.bitmask < 256 :=
    hor.trans_le (Nat.pow_le_pow_right (by decide) (show i % 8 + 1 ≤ 8 by omega))
  have hnew : (write s.mem s.bitp 1
      (fun _ => UInt8.ofNat ((s.mem s.bitp).toNat ||| s.bitmask)) s.bitp).toNat =
      (s.mem s.bitp).toNat ||| s.bitmask := by
    have hw := write_inside s.mem s.bitp 1
      (fun _ => UInt8.ofNat ((s.mem s.bitp).toNat ||| s.bitmask)) (i := 0) (by decide)
    rw [Nat.add_zero] at hw
    rw [hw, UInt8.toNat_ofNat', Nat.mod_eq_of_lt hbyte]
  unfold setBit
  rw [put_eq _ _ _ _ (by omega), if_pos (by omega)]
  refine ⟨_, rfl, ⟨?_, ?_, fun j hj => ?_, fun _ => ?_⟩, rfl, rfl, fun a ha => ?_⟩
  · dsimp only
    omega
  · rw [hmod]
    exact h.bitmask
  · dsimp only
    by_cases hsame : bits + j / 8 = s.bitp
    · rw [hsame, hnew, Nat.testBit_or, h.bitmask, Nat.testBit_two_pow]
      rcases Nat.lt_succ_iff_lt_or_eq.mp hj with hlt | rfl
      · rw [← hsame, h.bit j hlt, decide_eq_false (by omega), Bool.or_false]
      · rw [decide_eq_true rfl, Bool.or_true, hval]
        rfl
    · rw [write_outside _ _ _ _ (by omega)]
      rcases Nat.lt_succ_iff_lt_or_eq.mp hj with hlt | rfl
      · exact h.bit j hlt
      · exact absurd hp.symm hsame
  · dsimp only
    rw [hnew, hmod]
    exact hor
  · dsimp only
    rw [write_outside _ _ _ _ (by omega)]

/-! ## The loop -/

section Loop

variable {src : Mem} {desc : TupleDesc} {value : Nat → Datum} {nulls : Nat → Char}
  {td hoff limit : Nat} {m₀ : Mem}

/-- The first `i` values are stored where `dataOffset` says, the header is as it
was in `m₀`, and the flags tell what was seen. -/
structure Filled (src : Mem) (desc : TupleDesc) (value : Nat → Datum) (nulls : Nat → Char)
    (td hoff limit : Nat) (m₀ : Mem) (i : Nat) (s : FillState) : Prop where
  data : s.data = td + hoff + dataStop src desc value nulls i
  le : s.data ≤ limit
  header : ∀ a, td ≤ a → a < td + OFFSET_T_BITS → s.mem a = m₀ a
  values : ∀ j, j < i → nulls j = ' ' → ∀ k, k < attSize src (desc.att j) (value j) →
    s.mem (td + hoff + dataOffset src desc value nulls j + k) =
      attBytes src (desc.att j) (value j) k
  hasNull : s.infomask.testBit 0 = true ↔ ∃ j, j < i ∧ nulls j ≠ ' '
  hasVarlena : ∀ j, j < i → nulls j = ' ' → (desc.att j).attlen = -1 →
    s.infomask.testBit 1 = true

/-- Bitmap bytes are neither header nor data. -/
theorem Filled.bitByte {i : Nat} {s s' : FillState}
    (h : Filled src desc value nulls td hoff limit m₀ i s) {n : Nat}
    (hs : OnlyBitByte (td + OFFSET_T_BITS) n s s') (hn : OFFSET_T_BITS + n / 8 < hoff) :
    Filled src desc value nulls td hoff limit m₀ i s' := by
  refine ⟨hs.data.trans h.data, by rw [hs.data]; exact h.le, fun a h1 h2 => ?_,
    fun j hj hv k hk => ?_, by rw [hs.infomask]; exact h.hasNull, fun j hj hv hl => ?_⟩
  · rw [hs.mem a (by omega)]
    exact h.header a h1 h2
  · rw [hs.mem _ (by omega)]
    exact h.values j hj hv k hk
  · rw [hs.infomask]
    exact h.hasVarlena j hj hv hl

theorem Filled.null {i : Nat} {s : FillState}
    (h : Filled src desc value nulls td hoff limit m₀ i s) (hnull : nulls i ≠ ' ') :
    Filled src desc value nulls td hoff limit m₀ (i + 1)
      { s with infomask := s.infomask ||| HEAP_HASNULL } := by
  refine ⟨by rw [dataStop_of_null hnull]; exact h.data, h.le, h.header, fun j hj hv => ?_, ?_,
    fun j hj hv hl => ?_⟩
  · rcases Nat.lt_succ_iff_lt_or_eq.mp hj with hlt | rfl
    · exact h.values j hlt hv
    · exact absurd hv hnull
  · rw [Nat.testBit_or, show HEAP_HASNULL.testBit 0 = true from rfl, Bool.or_true]
    exact ⟨fun _ => ⟨i, Nat.lt_succ_self i, hnull⟩, fun _ => rfl⟩
  · rw [Nat.testBit_or, show HEAP_HASNULL.testBit 1 = false from rfl, Bool.or_false]
    rcases Nat.lt_succ_iff_lt_or_eq.mp hj with hlt | rfl
    · exact h.hasVarlena j hlt hv hl
    · exact absurd hv hnull

theorem attFlags_testBit_zero (a : FormPgAttribute) (v : Datum) :
    (attFlags src a v).testBit 0 = false := by
  unfold attFlags
  split
  · exact Nat.zero_testBit 0
  · cases varattIsExternal src v <;> cases varattIsCompressed src v <;> rfl

theorem attFlags_testBit_one {a : FormPgAttribute} (h : a.attlen = -1) (v : Datum) :
    (attFlags src a v).testBit 1 = true := by
  rw [attFlags, if_neg (not_not.mpr h)]
  cases varattIsExternal src v <;> cases varattIsCompressed src v <;> rfl

/-- Storing one more value succeeds exactly when it ends inside the chunk. -/
theorem Filled.store {i : Nat} {s : FillState} (h : Filled src desc value nulls td hoff limit m₀ i s)
    (hval : nulls i = ' ') (haligned : 8 ∣ td + hoff) (hbits : OFFSET_T_BITS ≤ hoff) :
    (limit < td + hoff + dataStop src desc value nulls (i + 1) ∧
      fillAttr src td limit (desc.att i) (value i) s = .error .overrun) ∨
    (∃ s', fillAttr src td limit (desc.att i) (value i) s = .ok s' ∧
      Filled src desc value nulls td hoff limit m₀ (i + 1) s' ∧
      s'.bitp = s.bitp ∧ s'.bitmask = s.bitmask ∧
      ∀ a, a < td + hoff ∨ limit ≤ a → s'.mem a = s.mem a) := by
  have hdata := h.data
  have hplace : alignUp (desc.att i).attalign.width s.data =
      td + hoff + dataOffset src desc value nulls i := by
    rw [hdata, alignUp_add_of_dvd (AttAlign.width_pos _) ((AttAlign.width_dvd _).trans haligned)]
    rfl
  have hstop : dataStop src desc value nulls (i + 1) = dataOffset src desc value nulls i +
      attSize src (desc.att i) (value i) := dataStop_succ hval
  rw [fillAttr_eq src (desc.valid i) (value i) s (by omega), hplace]
  by_cases hfit : td + hoff + dataOffset src desc value nulls i +
      attSize src (desc.att i) (value i) ≤ limit
  · rw [if_pos hfit]
    refine Or.inr ⟨_, rfl, ⟨by dsimp only; omega, hfit, fun a h1 h2 => ?_, fun j hj hv k hk => ?_, ?_,
      fun j hj hv hl => ?_⟩, rfl, rfl, fun a ha => ?_⟩
    · dsimp only
      rw [write_outside _ _ _ _ (by omega)]
      exact h.header a h1 h2
    · dsimp only
      rcases Nat.lt_succ_iff_lt_or_eq.mp hj with hlt | rfl
      · -- an earlier value ends before this one starts
        have hend : dataStop src desc value nulls (j + 1) = dataOffset src desc value nulls j +
            attSize src (desc.att j) (value j) := dataStop_succ hv
        have hmono : dataStop src desc value nulls (j + 1) ≤ dataStop src desc value nulls i :=
          dataStop_mono hlt
        have hle : dataStop src desc value nulls i ≤ dataOffset src desc value nulls i :=
          dataStop_le_dataOffset i
        rw [write_outside _ _ _ _ (by omega)]
        exact h.values j hlt hv k hk
      · exact write_inside _ _ _ _ hk
    · dsimp only
      rw [Nat.testBit_or, attFlags_testBit_zero, Bool.or_false, h.hasNull]
      constructor
      · rintro ⟨j, hj, hn⟩
        exact ⟨j, hj.trans (Nat.lt_succ_self i), hn⟩
      · rintro ⟨j, hj, hn⟩
        rcases Nat.lt_succ_iff_lt_or_eq.mp hj with hlt | rfl
        · exact ⟨j, hlt, hn⟩
        · exact absurd hval hn
    · dsimp only
      rw [Nat.testBit_or]
      rcases Nat.lt_succ_iff_lt_or_eq.mp hj with hlt | rfl
      · rw [h.hasVarlena j hlt hv hl, Bool.true_or]
      · rw [attFlags_testBit_one hl, Bool.or_true]
    · dsimp only
      rw [write_outside _ _ _ _ (by omega)]
  · rw [if_neg hfit]
    exact Or.inl ⟨by omega, rfl⟩

/-- Stores into the data leave the bitmap alone. -/
theorem Bitmap.congr {bits i : Nat} {s s' : FillState} (h : Bitmap nulls bits i s)
    (hp : s'.bitp = s.bitp) (hm : s'.bitmask = s.bitmask)
    (hmem : ∀ a, a < bits + (i + 7) / 8 → s'.mem a = s.mem a) : Bitmap nulls bits i s' := by
  have hbitp := h.bitp
  refine ⟨by rw [hp]; exact hbitp, hm.trans h.bitmask, fun j hj => ?_, fun hi => ?_⟩
  · rw [hmem _ (by omega)]
    exact h.bit j hj
  · rw [hp, hmem _ (by omega)]
    exact h.rest hi

/-- State of the loop before attribute `i`. -/
def FillInv (src : Mem) (desc : TupleDesc) (value : Nat → Datum) (nulls : Nat → Char)
    (td hoff limit : Nat) (m₀ : Mem) (bit : Bool) (i : Nat) (s : FillState) : Prop :=
  Filled src desc value nulls td hoff limit m₀ i s ∧
    (bit = true → Bitmap nulls (td + OFFSET_T_BITS) i s)

/-- Neither data nor a bitmap byte of the first `n` attributes. -/
def Elsewhere (td hoff limit n : Nat) (bit : Bool) (a : Nat) : Prop :=
  (a < td + hoff ∨ limit ≤ a) ∧ (bit = true → ∀ j, j < n → a ≠ td + OFFSET_T_BITS + j / 8)

/-- One iteration: it goes on with the invariant, or the value does not fit. -/
theorem fillOne_cases {bit : Bool} {i : Nat} {s : FillState}
    (h : FillInv src desc value nulls td hoff limit m₀ bit i s)
    (haligned : 8 ∣ td + hoff) (hbits : OFFSET_T_BITS ≤ hoff) (hlimit : td + hoff ≤ limit)
    (hflag : nulls i = ' ' ∨ nulls i = 'n') (hnobit : bit = false → nulls i = ' ')
    (hroom : bit = true → OFFSET_T_BITS + i / 8 < hoff) :
    (limit < td + hoff + dataStop src desc value nulls (i + 1) ∧
      fillOne src td limit desc value nulls bit s i = .error .overrun) ∨
    (∃ s', fillOne src td limit desc value nulls bit s i = .ok s' ∧
      FillInv src desc value nulls td hoff limit m₀ bit (i + 1) s' ∧
      ∀ a, Elsewhere td hoff limit (i + 1) bit a → s'.mem a = s.mem a) := by
  obtain ⟨hf, hb⟩ := h
  unfold fillOne
  cases bit with
  | false =>
    rw [if_neg Bool.false_ne_true]
    rcases hf.store (hnobit rfl) haligned hbits with ⟨hover, he⟩ | ⟨s', he, hf', -, -, hmem⟩
    · exact Or.inl ⟨hover, he⟩
    · exact Or.inr ⟨s', he, ⟨hf', fun hc => absurd hc (by decide)⟩, fun a ha => hmem a ha.1⟩
  | true =>
    have hlt := hroom rfl
    obtain ⟨s₁, he₁, hready, honly⟩ := nextBit_spec (hb rfl) (Nat.le_add_right td _)
      (show td + OFFSET_T_BITS + i / 8 < limit by omega)
    have hf₁ := hf.bitByte honly hlt
    rw [if_pos rfl, he₁]
    rcases hflag with hval | hnull
    · obtain ⟨s₂, he₂, hmap, honly₂⟩ := setBit_spec hready (Nat.le_add_right td _)
        (show td + OFFSET_T_BITS + i / 8 < limit by omega) hval
      have hf₂ := hf₁.bitByte honly₂ hlt
      have hrun : (do
          let s ← (Except.ok s₁ : Except FormFailure FillState)
          if nulls i = 'n' then .ok { s with infomask := s.infomask ||| HEAP_HASNULL }
          else
            let s ← setBit td limit s
            fillAttr src td limit (desc.att i) (value i) s) =
          fillAttr src td limit (desc.att i) (value i) s₂ := by
        show (if nulls i = 'n' then _ else setBit td limit s₁ >>= _) = _
        rw [if_neg (by rw [hval]; decide), he₂]
        rfl
      rw [hrun]
      rcases hf₂.store hval haligned hbits with ⟨hover, he⟩ | ⟨s', he, hf', hp, hm, hmem⟩
      · exact Or.inl ⟨hover, he⟩
      · refine Or.inr ⟨s', he, ⟨hf', fun _ => hmap.congr hp hm fun a ha => hmem a (.inl ?_)⟩,
          fun a ha => ?_⟩
        · omega
        · have hbyte := ha.2 rfl i (Nat.lt_succ_self i)
          rw [hmem a ha.1, honly₂.mem a hbyte, honly.mem a hbyte]
    · have hne : nulls i ≠ ' ' := by rw [hnull]; decide
      refine Or.inr ⟨{ s₁ with infomask := s₁.infomask ||| HEAP_HASNULL }, ?_, ⟨hf₁.null hne,
        fun _ => hready.null hne _⟩, fun a ha => honly.mem a (ha.2 rfl i (Nat.lt_succ_self i))⟩
      show (if nulls i = 'n' then _ else _) = _
      rw [if_pos hnull]

/-- The whole loop: everything is stored, or the values do not fit the chunk. -/
theorem dataFill_cases {bit : Bool} (k i : Nat) (s : FillState)
    (h : FillInv src desc value nulls td hoff limit m₀ bit i s)
    (haligned : 8 ∣ td + hoff) (hbits : OFFSET_T_BITS ≤ hoff) (hlimit : td + hoff ≤ limit)
    (hflag : ∀ j, j < i + k → nulls j = ' ' ∨ nulls j = 'n')
    (hnobit : bit = false → ∀ j, j < i + k → nulls j = ' ')
    (hroom : bit = true → ∀ j, j < i + k → OFFSET_T_BITS + j / 8 < hoff) :
    (limit < td + hoff + dataStop src desc value nulls (i + k) ∧
      dataFill src td limit desc value nulls bit k i s = .error .overrun) ∨
    (∃ s', dataFill src td limit desc value nulls bit k i s = .ok s' ∧
      FillInv src desc value nulls td hoff limit m₀ bit (i + k) s' ∧
      ∀ a, Elsewhere td hoff limit (i + k) bit a → s'.mem a = s.mem a) := by
  induction k generalizing i s with
  | zero => exact Or.inr ⟨s, rfl, h, fun _ _ => rfl⟩
  | succ k ih =>
    rw [show i + (k + 1) = i + 1 + k by omega] at hflag hnobit hroom ⊢
    rcases fillOne_cases h haligned hbits hlimit (hflag i (by omega)) (fun hb => hnobit hb i (by omega))
      (fun hb => hroom hb i (by omega)) with ⟨hover, he⟩ | ⟨s₁, he, h₁, hmem₁⟩
    · have hmono : dataStop src desc value nulls (i + 1) ≤ dataStop src desc value nulls (i + 1 + k) :=
        dataStop_mono (Nat.le_add_right _ k)
      refine Or.inl ⟨by omega, ?_⟩
      rw [dataFill, he]
      rfl
    · rw [dataFill, he]
      rcases ih (i + 1) s₁ h₁ hflag hnobit hroom with hover | ⟨s', he', h', hmem'⟩
      · exact Or.inl hover
      · refine Or.inr ⟨s', he', h', fun a ha => ?_⟩
        rw [hmem' a ha]
        exact hmem₁ a ⟨ha.1, fun hb j hj => ha.2 hb j (by omega)⟩

end Loop

end PostgresV7.Heap
