import PostgresV7.HeapTuple.AttCache
import PostgresV7.HeapTuple.Fill

/-!
# What is read back from a formed tuple

Reading any attribute of a formed tuple gives the value it was formed from,
whatever the offset cache holds by then. The one exception is a tuple whose data
has `2 ^ 32` bytes or more: `compute_data_size` adds the sizes in a `uint32`, the
chunk comes out too small, and `data_fill` writes past it.
-/

namespace PostgresV7.Heap

open ByteMem Align

/-- What a caller of `heap_form_tuple` passes. A varlena value is at least its
own header, and `palloc` returns aligned chunks. -/
structure FormInput (src : Mem) (chunk : Nat) (desc : TupleDesc) (value : Nat → Datum)
    (nulls : Nat → Char) : Prop where
  natts_pos : 1 ≤ desc.natts
  natts_le : desc.natts ≤ MAX_HEAP_ATTRIBUTE_NUMBER
  flags : ∀ i, i < desc.natts → nulls i = ' ' ∨ nulls i = 'n'
  varlena : ∀ i, i < desc.natts → nulls i = ' ' → (desc.att i).attlen = -1 →
    4 ≤ varattSize src (value i)
  aligned : 16 ∣ chunk

/-- `has_null`. -/
def hasNull (desc : TupleDesc) (nulls : Nat → Char) : Bool :=
  (List.range desc.natts).any (fun i => nulls i != ' ')

/-- The datum stands for the value: equal up to its width, or byte for byte. -/
def SameValue (src : Mem) (t : HeapTuple) (a : FormPgAttribute) (value datum : Datum) : Prop :=
  if a.attbyval then datum = value % 2 ^ (8 * a.attlen.toNat)
  else slice t.mem datum (attSize src a value) = slice src value (attSize src a value)

/-- Every attribute of `t` reads back as given, under any cache that may have
been built by then. -/
structure ReadsBack (src : Mem) (desc : TupleDesc) (value : Nat → Datum) (nulls : Nat → Char)
    (t : HeapTuple) : Prop where
  isnull : ∀ cache, CacheOk desc cache → ∀ i, i < desc.natts →
    ((heapGetAttr desc t (i + 1) cache).isnull = true ↔ nulls i = 'n')
  datum : ∀ cache, CacheOk desc cache → ∀ i, i < desc.natts → nulls i = ' ' →
    SameValue src t (desc.att i) (value i) (heapGetAttr desc t (i + 1) cache).datum
  attIsNull : ∀ i : Nat, i < desc.natts → heapAttIsNull t (i + 1) = .ok (nulls i == 'n')
  hoff : t.tHoff = headerLen desc.natts (hasNull desc nulls) ∧ t.tHoff < 2 ^ 8

/-- `heap_form_tuple` gives up with an error, or its result reads back. -/
def FormsAndReadsBack (src raw : Mem) (chunk : Nat) (desc : TupleDesc) (value : Nat → Datum)
    (nulls : Nat → Char) : Prop :=
  match heapFormTuple src raw chunk desc value nulls with
  | .ok t => ReadsBack src desc value nulls t
  | .error (.elog _) => True
  | .error .overrun => False

/-! ## The header -/

theorem headerLen_spec {natts : Nat} (h : natts ≤ MAX_HEAP_ATTRIBUTE_NUMBER) (bit : Bool) :
    16 ∣ headerLen natts bit ∧ OFFSET_T_BITS ≤ headerLen natts bit ∧ headerLen natts bit < 2 ^ 8 ∧
    (bit = true → ∀ i, i < natts → OFFSET_T_BITS + i / 8 < headerLen natts bit) := by
  have hshift : (natts - 1) >>> 3 = (natts - 1) / 8 := Nat.shiftRight_eq_div_pow _ 3
  unfold MAX_HEAP_ATTRIBUTE_NUMBER at h
  unfold headerLen bitMapLen OFFSET_T_BITS
  rw [hshift]
  cases bit with
  | true =>
    rw [if_pos rfl]
    generalize hn : 31 + (((natts - 1) / 8 + 4 - 4) / 4 * 4 + 4) = n
    have hle := le_maxAlign (n := n) (by omega)
    have hlt := maxAlign_lt (n := n) (by omega)
    have hdvd := dvd_maxAlign n
    exact ⟨hdvd, by omega, by omega, fun _ i hi => by omega⟩
  | false =>
    rw [if_neg Bool.false_ne_true]
    exact ⟨by decide, by decide, by decide, fun hb => absurd hb (by decide)⟩

section Formed

variable {src raw : Mem} {desc : TupleDesc} {value : Nat → Datum} {nulls : Nat → Char}
  {td len : Nat} {bit : Bool}

/-- The memory `data_fill` starts from. -/
def clearedTuple (raw : Mem) (td len natts hoff : Nat) : Mem :=
  store (store (write raw td len (fun _ => 0)) (td + OFFSET_T_NATTS) 2 natts)
    (td + OFFSET_T_HOFF) 1 hoff

/-- The variables `data_fill` starts with. -/
def fillStart (raw : Mem) (td len natts hoff : Nat) : FillState where
  mem := clearedTuple raw td len natts hoff
  data := td + load (clearedTuple raw td len natts hoff) (td + OFFSET_T_HOFF) 1
  infomask := load (clearedTuple raw td len natts hoff) (td + OFFSET_T_INFO_MASK) 2 &&& HEAP_XACT_MASK
  bitp := td + OFFSET_T_BITS - 1
  bitmask := CSIGNBIT

theorem load_clearedTuple_hoff (raw : Mem) (td len natts : Nat) {hoff : Nat} (h : hoff < 2 ^ 8) :
    load (clearedTuple raw td len natts hoff) (td + OFFSET_T_HOFF) 1 = hoff := by
  unfold clearedTuple
  rw [load_store, Nat.mod_eq_of_lt (by omega)]

theorem load_clearedTuple_natts (raw : Mem) (td len hoff : Nat) {natts : Nat} (h : natts < 2 ^ 16) :
    load (clearedTuple raw td len natts hoff) (td + OFFSET_T_NATTS) 2 = natts := by
  unfold clearedTuple OFFSET_T_NATTS OFFSET_T_HOFF
  rw [load_store_disjoint _ (by omega), load_store, Nat.mod_eq_of_lt (by omega)]

theorem fillInv_fillStart {hoff : Nat} (h : hoff < 2 ^ 8) (hle : hoff ≤ len) :
    FillInv src desc value nulls td hoff (td + len) (clearedTuple raw td len desc.natts hoff) bit 0
      (fillStart raw td len desc.natts hoff) := by
  have hdata : (fillStart raw td len desc.natts hoff).data = td + hoff := by
    unfold fillStart
    rw [load_clearedTuple_hoff raw td len desc.natts h]
  have hflag : (fillStart raw td len desc.natts hoff).infomask.testBit 0 = false := by
    simp only [fillStart]
    rw [Nat.testBit_and, show HEAP_XACT_MASK.testBit 0 = false from rfl, Bool.and_false]
  refine ⟨⟨hdata, by omega, fun _ _ _ => rfl, fun j hj => absurd hj (Nat.not_lt_zero j), ?_,
    fun j hj => absurd hj (Nat.not_lt_zero j)⟩, fun _ => ⟨?_, rfl, ?_, fun h0 => absurd h0 (by decide)⟩⟩
  · rw [hflag]
    simp
  · simp only [fillStart, OFFSET_T_BITS]
    omega
  · exact fun j hj => absurd hj (Nat.not_lt_zero j)

/-! ## Reading the finished tuple -/

/-- The tuple after `data_fill` ended in state `s`. -/
def finish (td len : Nat) (s : FillState) : HeapTuple where
  tLen := len
  tSelf := itemPointerInvalid
  tTableOid := INVALID_OID
  tData := td
  mem := store s.mem (td + OFFSET_T_INFO_MASK) 2 (s.infomask ||| HEAP_XMAX_INVALID)

theorem finish_mem {s : FillState} {a : Nat} (h : a < td + 28 ∨ td + 30 ≤ a) :
    (finish td len s).mem a = s.mem a := by
  apply store_outside
  unfold OFFSET_T_INFO_MASK
  omega

variable {hoff chunk : Nat} {s : FillState}
  (hf : FillInv src desc value nulls td hoff (td + len) (clearedTuple raw td len desc.natts hoff)
    bit desc.natts s)

include hf

theorem finish_tNatts (h : desc.natts < 2 ^ 16) : (finish td len s).tNatts = desc.natts := by
  rw [← load_clearedTuple_natts raw td len hoff h]
  apply load_congr
  intro i hi
  have hlow : td + OFFSET_T_NATTS + i < td + 28 := by
    unfold OFFSET_T_NATTS
    omega
  have hmem : (finish td len s).mem (td + OFFSET_T_NATTS + i) = s.mem (td + OFFSET_T_NATTS + i) :=
    finish_mem (Or.inl hlow)
  exact hmem.trans (hf.1.header _ (by omega) (by unfold OFFSET_T_BITS; omega))

theorem finish_tHoff (h : hoff < 2 ^ 8) : (finish td len s).tHoff = hoff := by
  rw [← load_clearedTuple_hoff raw td len desc.natts h]
  apply load_congr
  intro i hi
  have hmem : (finish td len s).mem (td + OFFSET_T_HOFF + i) = s.mem (td + OFFSET_T_HOFF + i) :=
    finish_mem (Or.inr (by unfold OFFSET_T_HOFF; omega))
  exact hmem.trans (hf.1.header _ (by omega) (by unfold OFFSET_T_BITS OFFSET_T_HOFF; omega))

omit hf in
theorem finish_flag {i : Nat} (h : i < 8) :
    (finish td len s).tInfoMask.testBit i = s.infomask.testBit i := by
  unfold HeapTuple.tInfoMask finish
  simp only
  rw [load_store, show 256 ^ 2 = 2 ^ 16 from rfl, Nat.testBit_mod_two_pow, decide_eq_true (by omega),
    Bool.true_and, Nat.testBit_or]
  have hx : HEAP_XMAX_INVALID.testBit i = false := by
    rw [show HEAP_XMAX_INVALID = 2 ^ 11 from rfl, Nat.testBit_two_pow, decide_eq_false (by omega)]
  rw [hx, Bool.or_false]

/-- The null flag and the bitmap say what was passed. -/
theorem finish_isNull (hbit : bit = hasNull desc nulls) {i : Nat} (hi : i < desc.natts) : (finish td len s).isNull i = (nulls i != ' ') := by
  have hno : (finish td len s).noNulls = !s.infomask.testBit 0 := by
    have hflag : (finish td len s).tInfoMask.testBit 0 = s.infomask.testBit 0 :=
      finish_flag (by decide)
    unfold HeapTuple.noNulls
    rw [← hflag, show HEAP_HASNULL = 2 ^ 0 from rfl,
      Nat.and_two_pow]
    cases ((finish td len s).tInfoMask).testBit 0 <;> rfl
  unfold HeapTuple.isNull
  rw [hno, Bool.not_not]
  cases hn : s.infomask.testBit 0 with
  | true =>
    obtain ⟨j, hj, hne⟩ := hf.1.hasNull.mp hn
    have hb : bit = true := by
      rw [hbit, hasNull, List.any_eq_true]
      exact ⟨j, List.mem_range.mpr hj, by simpa using hne⟩
    have hmem : (finish td len s).mem (td + OFFSET_T_BITS + i / 8) =
        s.mem (td + OFFSET_T_BITS + i / 8) := finish_mem (Or.inr (by unfold OFFSET_T_BITS; omega))
    have hbyte : (finish td len s).tBits (i / 8) = s.mem (td + OFFSET_T_BITS + i / 8) := hmem
    rw [Bool.true_and, attIsNull_eq, hbyte, (hf.2 hb).bit i hi]
    rfl
  | false =>
    have hval : nulls i = ' ' := by
      by_contra hne
      rw [hf.1.hasNull.mpr ⟨i, hi, hne⟩] at hn
      cases hn
    rw [Bool.false_and, hval]
    rfl

theorem finish_values (hhoff : OFFSET_T_BITS ≤ hoff) {i : Nat} (hi : i < desc.natts)
    (hval : nulls i = ' ') {k : Nat} (hk : k < attSize src (desc.att i) (value i)) :
    (finish td len s).mem (td + hoff + dataOffset src desc value nulls i + k) =
      attBytes src (desc.att i) (value i) k := by
  rw [finish_mem (Or.inr (by unfold OFFSET_T_BITS at hhoff; omega))]
  exact hf.1.values i hi hval k hk

/-- A varlena value is found with the length it was given with. -/
theorem finish_attSize (hhoff : OFFSET_T_BITS ≤ hoff) {i : Nat} (hi : i < desc.natts)
    (hval : nulls i = ' ')
    (hvar : (desc.att i).attlen = -1 → 4 ≤ varattSize src (value i)) :
    attSize (finish td len s).mem (desc.att i) (td + hoff + dataOffset src desc value nulls i) =
      attSize src (desc.att i) (value i) := by
  by_cases hlen : (desc.att i).attlen ≠ -1
  · rw [attSize, attSize, if_pos hlen, if_pos hlen]
  · have hv := hvar (not_not.mp hlen)
    have hsize : attSize src (desc.att i) (value i) = varattSize src (value i) := if_neg hlen
    have href : (desc.att i).attbyval ≠ true := fun hb => by
      rcases (desc.valid i).byval hb with h | h | h | h <;> omega
    rw [hsize, attSize, if_neg hlen]
    unfold varattSize
    congr 1
    apply load_congr
    intro k hk
    rw [finish_values hf hhoff hi hval (by omega), attBytes, if_neg href]

/-- The reader's walk stops where the writer's did. -/
theorem finish_walk (hin : FormInput src chunk desc value nulls) (hbit : bit = hasNull desc nulls)
    (hlow : OFFSET_T_BITS ≤ hoff) (hhigh : hoff < 2 ^ 8) {i : Nat} (hi : i ≤ desc.natts) :
    walkStop desc (finish td len s) i = dataStop src desc value nulls i ∧
    attOffset desc (finish td len s) i = dataOffset src desc value nulls i := by
  have hstart : (finish td len s).dataStart = td + hoff := by
    rw [HeapTuple.dataStart, finish_tHoff hf hhigh]
    rfl
  have hsize : ∀ j, j < i → (nulls j != ' ') = false →
      attSize (finish td len s).mem (desc.att j)
        ((finish td len s).dataStart + dataOffset src desc value nulls j) =
      attSize src (desc.att j) (value j) := by
    intro j hj hv
    have hval : nulls j = ' ' := by simpa using hv
    rw [hstart]
    exact finish_attSize hf hlow (by omega) hval (hin.varlena j (by omega) hval)
  have hskip : ∀ j, j < i → (finish td len s).isNull j = (nulls j != ' ') :=
    fun j hj => finish_isNull hf hbit (by omega)
  exact ⟨Layout.stop_congr (fun _ _ => rfl) hskip hsize,
    Layout.start_congr (fun _ _ => rfl) hskip hsize⟩

theorem finish_wellFormed (hin : FormInput src chunk desc value nulls)
    (hbit : bit = hasNull desc nulls) (hlow : OFFSET_T_BITS ≤ hoff) (hhigh : hoff < 2 ^ 8)
    (hlen : len ≤ MAX_ALLOC_SIZE) : WellFormed desc (finish td len s) := by
  have hle := hin.natts_le
  unfold MAX_HEAP_ATTRIBUTE_NUMBER at hle
  have hnatts : (finish td len s).tNatts = desc.natts := finish_tNatts hf (by omega)
  refine ⟨by rw [hnatts], fun hall i hi hnull => ?_, ?_, hlen⟩
  · rw [hnatts] at hi
    rw [finish_isNull hf hbit hi] at hnull
    have hval : nulls i = ' ' := by simpa using hnull
    refine (desc.valid i).len.resolve_right fun hvar => ?_
    -- a varlena attribute was stored, so its flag is set
    have hflag : (finish td len s).tInfoMask.testBit 1 = s.infomask.testBit 1 :=
      finish_flag (by decide)
    rw [hf.1.hasVarlena i hi hval hvar] at hflag
    unfold HeapTuple.allFixed at hall
    rw [show HEAP_HASVARLENA = 2 ^ 1 from rfl, Nat.and_two_pow, hflag] at hall
    cases hall
  · have hdata := hf.1.data
    have hend := hf.1.le
    rw [hnatts, (finish_walk hf hin hbit hlow hhigh (Nat.le_refl _)).1, finish_tHoff hf hhigh]
    show hoff + dataStop src desc value nulls desc.natts ≤ len
    omega

/-- What is stored at an attribute's place is the value. -/
theorem finish_sameValue (hlow : OFFSET_T_BITS ≤ hoff) {i : Nat} (hi : i < desc.natts)
    (hval : nulls i = ' ') :
    SameValue src (finish td len s) (desc.att i) (value i)
      (fetchAtt (finish td len s).mem (desc.att i)
        (td + hoff + dataOffset src desc value nulls i)) := by
  have hbytes : ∀ k, k < attSize src (desc.att i) (value i) → (finish td len s).mem
      (td + hoff + dataOffset src desc value nulls i + k) =
      attBytes src (desc.att i) (value i) k := fun k hk => finish_values hf hlow hi hval hk
  unfold SameValue
  by_cases hv : (desc.att i).attbyval = true
  · have hlen := (desc.valid i).byval hv
    have hne : (desc.att i).attlen ≠ -1 := by rcases hlen with h | h | h | h <;> omega
    rw [attSize, if_pos hne, attBytes, if_pos hv] at hbytes
    have hload : load (finish td len s).mem (td + hoff + dataOffset src desc value nulls i)
        (desc.att i).attlen.toNat = value i % 2 ^ (8 * (desc.att i).attlen.toNat) := by
      rw [load_of_bytes hbytes, show (256 : Nat) = 2 ^ 8 from rfl, ← Nat.pow_mul]
    rw [if_pos hv, ← hload, fetchAtt, if_pos hv]
    rcases hlen with h | h | h | h <;> rw [h] <;> rfl
  · rw [attBytes, if_neg hv] at hbytes
    rw [if_neg hv, fetchAtt, if_neg hv]
    exact slice_congr hbytes

theorem finish_readsBack (hin : FormInput src chunk desc value nulls)
    (hbit : bit = hasNull desc nulls) (hhoff : hoff = headerLen desc.natts bit)
    (hlen : len ≤ MAX_ALLOC_SIZE) : ReadsBack src desc value nulls (finish td len s) := by
  have hle := hin.natts_le
  obtain ⟨-, hlow, hhigh, -⟩ := headerLen_spec hle bit
  rw [← hhoff] at hlow hhigh
  unfold MAX_HEAP_ATTRIBUTE_NUMBER at hle
  have hnatts : (finish td len s).tNatts = desc.natts := finish_tNatts hf (by omega)
  have hw := finish_wellFormed hf hin hbit hlow hhigh hlen
  have hnull : ∀ i, i < desc.natts → (finish td len s).isNull i = (nulls i == 'n') := by
    intro i hi
    rw [finish_isNull hf hbit hi]
    rcases hin.flags i hi with h | h <;> rw [h] <;> decide
  have hget : ∀ cache, CacheOk desc cache → ∀ i, i < desc.natts →
      ((heapGetAttr desc (finish td len s) (i + 1) cache).datum,
        (heapGetAttr desc (finish td len s) (i + 1) cache).isnull) =
      plainGetAttr desc (finish td len s) (i + 1) := by
    intro cache hc i hi
    rw [heapGetAttr, if_neg (by omega)]
    exact (fastGetAttr_spec hw hc (by omega) (by omega)).1
  refine ⟨fun cache hc i hi => ?_, fun cache hc i hi hval => ?_, fun i hi => ?_, ?_, ?_⟩
  · have hsnd := congrArg Prod.snd (hget cache hc i hi)
    dsimp only at hsnd
    rw [hsnd, plainGetAttr, Nat.add_sub_cancel, hnull i hi]
    by_cases hn : nulls i = 'n'
    · rw [hn]
      simp
    · rw [beq_false_of_ne hn]
      simp [hn]
  · have hfst := congrArg Prod.fst (hget cache hc i hi)
    have hno : (finish td len s).isNull i = false := by rw [hnull i hi, hval]; decide
    rw [plainGetAttr, Nat.add_sub_cancel, if_neg (by rw [hno]; decide),
      (finish_walk hf hin hbit hlow hhigh (by omega : i ≤ desc.natts)).2, HeapTuple.dataStart,
      finish_tHoff hf hhigh] at hfst
    dsimp only at hfst
    rw [hfst]
    exact finish_sameValue hf hlow hi hval
  · have hni := hnull i hi
    unfold HeapTuple.isNull at hni
    unfold heapAttIsNull
    rw [if_neg (by omega), ← hni]
    cases hno : (finish td len s).noNulls with
    | true => rfl
    | false =>
      rw [if_neg Bool.false_ne_true, if_pos (by omega), show ((i : Int) + 1 - 1).toNat = i by omega]
      rfl
  · rw [finish_tHoff hf hhigh, hhoff, hbit]
  · rw [finish_tHoff hf hhigh]
    exact hhigh

end Formed

/-! ## Forming -/

/-- `heap_form_tuple` in terms of the exact data size. -/
theorem heapFormTuple_eq {src raw : Mem} {chunk : Nat} {desc : TupleDesc} {value : Nat → Datum}
    {nulls : Nat → Char} {hoff len : Nat} (hle : desc.natts ≤ MAX_HEAP_ATTRIBUTE_NUMBER)
    (hhoff : hoff = headerLen desc.natts (hasNull desc nulls))
    (hlen : len = hoff + dataStop src desc value nulls desc.natts % 2 ^ 32) :
    heapFormTuple src raw chunk desc value nulls =
      if HEAP_TUPLE_SIZE + len > MAX_ALLOC_SIZE then
        .error (.elog "memory_context_alloc: invalid request size %lu")
      else (dataFill src (chunk + HEAP_TUPLE_SIZE) (chunk + HEAP_TUPLE_SIZE + len) desc value nulls
          (hasNull desc nulls) desc.natts 0
          (fillStart raw (chunk + HEAP_TUPLE_SIZE) len desc.natts hoff)).map
        (finish (chunk + HEAP_TUPLE_SIZE) len) := by
  have hmap : ∀ x : Except FormFailure FillState,
      x.map (finish (chunk + HEAP_TUPLE_SIZE) len) =
        x >>= fun s => .ok (finish (chunk + HEAP_TUPLE_SIZE) len s) := by
    intro x
    cases x <;> rfl
  subst hhoff hlen
  unfold heapFormTuple
  rw [if_neg (by omega), computeDataSize_all, ← hasNull, hmap]
  rfl

/-- `palloc` refuses the request. -/
def Refused (src : Mem) (desc : TupleDesc) (value : Nat → Datum) (nulls : Nat → Char) : Prop :=
  MAX_ALLOC_SIZE < HEAP_TUPLE_SIZE + (headerLen desc.natts (hasNull desc nulls) +
    dataStop src desc value nulls desc.natts % 2 ^ 32)

/-- Forming is refused, or the size wrapped and the chunk is overrun, or the
size is right and the tuple is filled. -/
theorem heapFormTuple_filled {src : Mem} (raw : Mem) {chunk : Nat} {desc : TupleDesc}
    {value : Nat → Datum} {nulls : Nat → Char} (hin : FormInput src chunk desc value nulls) :
    (Refused src desc value nulls ∧
      ∃ message, heapFormTuple src raw chunk desc value nulls = .error (.elog message)) ∨
    (¬Refused src desc value nulls ∧ 2 ^ 32 ≤ dataStop src desc value nulls desc.natts ∧
      heapFormTuple src raw chunk desc value nulls = .error .overrun) ∨
    (dataStop src desc value nulls desc.natts < 2 ^ 32 ∧
      ∃ hoff len s, hoff = headerLen desc.natts (hasNull desc nulls) ∧ len ≤ MAX_ALLOC_SIZE ∧
        FillInv src desc value nulls (chunk + HEAP_TUPLE_SIZE) hoff (chunk + HEAP_TUPLE_SIZE + len)
          (clearedTuple raw (chunk + HEAP_TUPLE_SIZE) len desc.natts hoff) (hasNull desc nulls) desc.natts s ∧
        heapFormTuple src raw chunk desc value nulls = .ok (finish (chunk + HEAP_TUPLE_SIZE) len s)) := by
  obtain ⟨hdvd, hlow, hhigh, hroom⟩ := headerLen_spec hin.natts_le (hasNull desc nulls)
  obtain ⟨hoff, hhoff⟩ : ∃ hoff, hoff = headerLen desc.natts (hasNull desc nulls) := ⟨_, rfl⟩
  obtain ⟨len, hlen⟩ : ∃ len, len = hoff + dataStop src desc value nulls desc.natts % 2 ^ 32 :=
    ⟨_, rfl⟩
  unfold Refused
  rw [heapFormTuple_eq hin.natts_le hhoff hlen, ← hhoff, ← hlen]
  rw [← hhoff] at hdvd hlow hhigh hroom
  by_cases hbig : HEAP_TUPLE_SIZE + len > MAX_ALLOC_SIZE
  · rw [if_pos hbig]
    exact Or.inl ⟨hbig, _, rfl⟩
  · rw [if_neg hbig]
    have haligned : 8 ∣ chunk + HEAP_TUPLE_SIZE + hoff := by
      have hc := hin.aligned
      unfold HEAP_TUPLE_SIZE
      omega
    have hnobit : hasNull desc nulls = false → ∀ j, j < 0 + desc.natts → nulls j = ' ' := by
      intro hb j hj
      have hall := List.any_eq_false.mp hb j (List.mem_range.mpr (by omega))
      simpa using hall
    have hinv : FillInv src desc value nulls (chunk + HEAP_TUPLE_SIZE) hoff
        (chunk + HEAP_TUPLE_SIZE + len)
        (clearedTuple raw (chunk + HEAP_TUPLE_SIZE) len desc.natts hoff) (hasNull desc nulls) 0
        (fillStart raw (chunk + HEAP_TUPLE_SIZE) len desc.natts hoff) :=
      fillInv_fillStart hhigh (by omega)
    have hcases := dataFill_cases desc.natts 0 _ hinv haligned hlow (by omega)
      (fun j hj => hin.flags j (by omega)) hnobit (fun hb j hj => hroom hb j (by omega))
    rw [Nat.zero_add] at hcases
    rcases hcases with ⟨hover, he⟩ | ⟨s, he, hf, -⟩
    · rw [he]
      refine Or.inr (Or.inl ⟨hbig, ?_, rfl⟩)
      by_contra hsmall
      rw [Nat.mod_eq_of_lt (by omega)] at hlen
      omega
    · rw [he]
      have hdata := hf.1.data
      have hend := hf.1.le
      have hmod := Nat.mod_lt (dataStop src desc value nulls desc.natts) (Nat.two_pow_pos 32)
      have hsize : len ≤ MAX_ALLOC_SIZE := by
        unfold HEAP_TUPLE_SIZE at hbig
        omega
      exact Or.inr (Or.inr ⟨by omega, hoff, len, s, rfl, hsize, hf, rfl⟩)

/-- Forming is refused, or the size wrapped and the chunk is overrun, or the
size is right and the tuple reads back. -/
theorem heapFormTuple_cases {src : Mem} (raw : Mem) {chunk : Nat} {desc : TupleDesc}
    {value : Nat → Datum} {nulls : Nat → Char} (hin : FormInput src chunk desc value nulls) :
    (Refused src desc value nulls ∧
      ∃ message, heapFormTuple src raw chunk desc value nulls = .error (.elog message)) ∨
    (¬Refused src desc value nulls ∧ 2 ^ 32 ≤ dataStop src desc value nulls desc.natts ∧
      heapFormTuple src raw chunk desc value nulls = .error .overrun) ∨
    (dataStop src desc value nulls desc.natts < 2 ^ 32 ∧
      ∃ t, heapFormTuple src raw chunk desc value nulls = .ok t ∧
        ReadsBack src desc value nulls t ∧ WellFormed desc t ∧ t.tNatts = desc.natts) := by
  obtain ⟨-, hlow, hhigh, -⟩ := headerLen_spec hin.natts_le (hasNull desc nulls)
  have hle := hin.natts_le
  unfold MAX_HEAP_ATTRIBUTE_NUMBER at hle
  rcases heapFormTuple_filled raw hin with hrefused | hoverrun | ⟨hsmall, hoff, len, s, rfl, hsize, hf, he⟩
  · exact Or.inl hrefused
  · exact Or.inr (Or.inl hoverrun)
  · exact Or.inr (Or.inr ⟨hsmall, _, he, finish_readsBack hf hin rfl rfl hsize,
      finish_wellFormed hf hin rfl hlow hhigh hsize, finish_tNatts hf (by omega)⟩)

/-- Forming a tuple reads back whatever the caller passes, or fails cleanly,
exactly when the data size does not wrap into something `palloc` accepts. -/
theorem formsAndReadsBack_iff {src raw : Mem} {chunk : Nat} {desc : TupleDesc}
    {value : Nat → Datum} {nulls : Nat → Char} (hin : FormInput src chunk desc value nulls) :
    FormsAndReadsBack src raw chunk desc value nulls ↔
      dataStop src desc value nulls desc.natts < 2 ^ 32 ∨ Refused src desc value nulls := by
  unfold FormsAndReadsBack
  rcases heapFormTuple_cases raw hin with
    ⟨href, message, he⟩ | ⟨href, hwrap, he⟩ | ⟨hsmall, t, he, hr, -⟩
  · rw [he]
    exact ⟨fun _ => Or.inr href, fun _ => trivial⟩
  · rw [he]
    refine ⟨fun hfalse => hfalse.elim, fun hor => ?_⟩
    rcases hor with hsmall | hr
    · omega
    · exact href hr
  · rw [he]
    exact ⟨fun _ => Or.inl hsmall, fun _ => hr⟩

/-- The memory of the value `'hi'` of type `text`, at address 16. -/
def exampleText : Mem := fun a => ([(16, 6), (20, 104), (21, 105)].lookup a).getD 0

/-- Forming `(7, 'hi')`. -/
theorem formsAndReadsBack_iff_example :
    FormsAndReadsBack exampleText (fun _ => 0xFF) 4096 exampleDesc (fun i => if i = 0 then 7 else 16)
      (fun _ => ' ') := by
  have hin : FormInput exampleText 4096 exampleDesc (fun i => if i = 0 then 7 else 16)
      (fun _ => ' ') :=
    ⟨by decide, by decide, fun _ _ => Or.inl rfl, by decide, by decide⟩
  exact (formsAndReadsBack_iff hin).mpr (Or.inl (by decide))

/-! ## The data size wraps -/

/-- Five attributes of type `text`. -/
def fiveTexts : TupleDesc where
  natts := 5
  att _ := ⟨-1, false, .int⟩
  valid _ := ⟨by decide, by decide, by decide⟩

/-- A `text` of `2 ^ 30 - 1` bytes at address 16, and an empty one behind it. -/
def longText : Mem := fun a =>
  if 16 ≤ a ∧ a < 19 then 0xFF else if a = 19 then 0x3F else if a = 2 ^ 30 + 16 then 4 else 0

/-- The long text four times, then the empty one. -/
def longValues (i : Nat) : Datum := if i < 4 then 16 else 2 ^ 30 + 16

/-- The sizes add up to `2 ^ 32 + 4`, four bytes are asked for, and the first
copy overruns them. -/
theorem heapFormTuple_overruns :
    FormInput longText 4096 fiveTexts longValues (fun _ => ' ') ∧
    heapFormTuple longText (fun _ => 0) 4096 fiveTexts longValues (fun _ => ' ') =
      .error .overrun ∧
    ¬FormsAndReadsBack longText (fun _ => 0) 4096 fiveTexts longValues (fun _ => ' ') := by
  have hin : FormInput longText 4096 fiveTexts longValues (fun _ => ' ') :=
    ⟨by decide, by decide, fun _ _ => Or.inl rfl, by decide, by decide⟩
  have hsize : dataStop longText fiveTexts longValues (fun _ => ' ') 5 = 2 ^ 32 + 4 := by decide
  have hover : heapFormTuple longText (fun _ => 0) 4096 fiveTexts longValues (fun _ => ' ') =
      .error .overrun := by
    rcases heapFormTuple_cases (fun _ => 0) hin with ⟨href, -⟩ | ⟨-, -, he⟩ | ⟨hsmall, -⟩
    · refine absurd href ?_
      unfold Refused
      rw [show fiveTexts.natts = 5 from rfl, hsize]
      decide
    · exact he
    · rw [show fiveTexts.natts = 5 from rfl, hsize] at hsmall
      exact absurd hsmall (by decide)
  refine ⟨hin, hover, ?_⟩
  unfold FormsAndReadsBack
  rw [hover]
  exact id

end PostgresV7.Heap
