import PostgresV7.HeapTuple.Form

/-!
# Tuples that were copied (`heaptuple.c`)

What is read from a tuple depends on its bytes, not on where they are.
-/

namespace PostgresV7.Heap

open ByteMem Align

/-- The header, the bitmap and the data lie inside the tuple. -/
structure Complete (desc : TupleDesc) (t : HeapTuple) : Prop where
  wellFormed : WellFormed desc t
  header : OFFSET_T_BITS ≤ t.tHoff
  bitmap : t.noNulls = false → ∀ i, i < t.tNatts → OFFSET_T_BITS + i / 8 < t.tHoff
  varlena : ∀ i, i < t.tNatts → t.isNull i = false → (desc.att i).attlen = -1 →
    4 ≤ varattSize t.mem (t.dataStart + attOffset desc t i)

/-- The same bytes, wherever they are. What comes before `t_natts`, the oid and the transactions, may differ. -/
structure SameBytes (t u : HeapTuple) : Prop where
  tLen : u.tLen = t.tLen
  bytes : ∀ i, OFFSET_T_NATTS ≤ i → i < t.tLen → u.mem (u.tData + i) = t.mem (t.tData + i)

/-- A value itself, or the address of the same bytes at the same place in the tuple. -/
def SameDatum (t u : HeapTuple) (a : FormPgAttribute) (d d' : Datum) : Prop :=
  if a.attbyval then d' = d
  else ∃ off, d = t.tData + off ∧ d' = u.tData + off ∧ off + attSize t.mem a d ≤ t.tLen ∧
    slice u.mem d' (attSize t.mem a d) = slice t.mem d (attSize t.mem a d)

/-- Whatever is cached, each attribute of `u` is null where it is in `t`, or is the same. -/
structure ReadsAlike (desc : TupleDesc) (t u : HeapTuple) : Prop where
  natts : u.tNatts = t.tNatts
  isnull : ∀ cache cache', CacheOk desc cache → CacheOk desc cache' → ∀ i, i < t.tNatts →
    (heapGetAttr desc u (i + 1) cache').isnull = (heapGetAttr desc t (i + 1) cache).isnull
  datum : ∀ cache cache', CacheOk desc cache → CacheOk desc cache' → ∀ i, i < t.tNatts →
    (heapGetAttr desc t (i + 1) cache).isnull = false →
    SameDatum t u (desc.att i) (heapGetAttr desc t (i + 1) cache).datum (heapGetAttr desc u (i + 1) cache').datum
  attIsNull : ∀ attnum, heapAttIsNull u attnum = heapAttIsNull t attnum

/-! ## What a complete tuple consists of -/

variable {desc : TupleDesc} {t u : HeapTuple}

theorem SameBytes.load_eq (h : SameBytes t u) {i n : Nat} (hlow : OFFSET_T_NATTS ≤ i) (hle : i + n ≤ t.tLen) :
    load u.mem (u.tData + i) n = load t.mem (t.tData + i) n :=
  load_congr fun k hk => by
    rw [Nat.add_assoc, Nat.add_assoc]
    exact h.bytes (i + k) (by omega) (by omega)

theorem SameBytes.slice_eq (h : SameBytes t u) {i n : Nat} (hlow : OFFSET_T_NATTS ≤ i) (hle : i + n ≤ t.tLen) :
    slice u.mem (u.tData + i) n = slice t.mem (t.tData + i) n :=
  slice_congr fun k hk => by
    rw [Nat.add_assoc, Nat.add_assoc]
    exact h.bytes (i + k) (by omega) (by omega)

theorem Complete.tHoff_le (hc : Complete desc t) : t.tHoff ≤ t.tLen :=
  (Nat.le_add_right _ _).trans hc.wellFormed.inside

theorem Complete.natts_le_tHoff (hc : Complete desc t) : OFFSET_T_NATTS ≤ t.tHoff :=
  Nat.le_trans (by decide) hc.header

theorem Complete.inside (hc : Complete desc t) {i : Nat} (hi : i < t.tNatts) (hnull : t.isNull i = false) :
    t.tHoff + attOffset desc t i + attSize t.mem (desc.att i) (t.dataStart + attOffset desc t i) ≤ t.tLen := by
  have hmono : walkStop desc t (i + 1) ≤ walkStop desc t t.tNatts :=
    Layout.stop_mono (fun j => (desc.att j).attalign.width_pos) hi
  have hinside := hc.wellFormed.inside
  rw [walkStop_succ hnull] at hmono
  omega

/-! ## A tuple that was moved -/

section

variable (hc : Complete desc t) (h : SameBytes t u)

include hc h

theorem Complete.tNatts_eq : u.tNatts = t.tNatts := by
  have hle := hc.header.trans hc.tHoff_le
  unfold OFFSET_T_BITS at hle
  exact h.load_eq (Nat.le_refl _) (by unfold OFFSET_T_NATTS; omega)

theorem Complete.tInfoMask_eq : u.tInfoMask = t.tInfoMask := by
  have hle := hc.header.trans hc.tHoff_le
  unfold OFFSET_T_BITS at hle
  exact h.load_eq (by decide) (by unfold OFFSET_T_INFO_MASK; omega)

theorem Complete.tHoff_eq : u.tHoff = t.tHoff := by
  have hle := hc.header.trans hc.tHoff_le
  unfold OFFSET_T_BITS at hle
  exact h.load_eq (by decide) (by unfold OFFSET_T_HOFF; omega)

theorem Complete.noNulls_eq : u.noNulls = t.noNulls := by
  unfold HeapTuple.noNulls
  rw [hc.tInfoMask_eq h]

theorem Complete.allFixed_eq : u.allFixed = t.allFixed := by
  unfold HeapTuple.allFixed
  rw [hc.tInfoMask_eq h]

/-- The bits that are tested are in the bitmap. -/
theorem Complete.attIsNull_eq (hno : t.noNulls = false) {i : Nat} (hi : i < t.tNatts) :
    attIsNull i u.tBits = attIsNull i t.tBits := by
  have hbit := hc.bitmap hno i hi
  have hle := hc.tHoff_le
  rw [Heap.attIsNull_eq, Heap.attIsNull_eq]
  unfold HeapTuple.tBits
  rw [Nat.add_assoc, Nat.add_assoc, h.bytes _ (Nat.le_add_right_of_le (by decide)) (by omega)]

theorem Complete.isNull_eq {i : Nat} (hi : i < t.tNatts) : u.isNull i = t.isNull i := by
  unfold HeapTuple.isNull
  rw [hc.noNulls_eq h]
  cases hno : t.noNulls with
  | true => rfl
  | false => rw [hc.attIsNull_eq h hno hi]

/-- An attribute is as long as it was. -/
theorem Complete.attSize_eq {i : Nat} (hi : i < t.tNatts) (hnull : t.isNull i = false) :
    attSize u.mem (desc.att i) (u.dataStart + attOffset desc t i) =
      attSize t.mem (desc.att i) (t.dataStart + attOffset desc t i) := by
  have hinside := hc.inside hi hnull
  unfold attSize at hinside ⊢
  by_cases hlen : (desc.att i).attlen ≠ -1
  · rw [if_pos hlen, if_pos hlen]
  · rw [if_neg hlen] at hinside
    have hfour := hc.varlena i hi hnull (not_not.mp hlen)
    rw [if_neg hlen, if_neg hlen]
    unfold varattSize varattSizep HeapTuple.dataStart
    unfold HeapTuple.dataStart at hinside hfour
    rw [hc.tHoff_eq h, Nat.add_assoc, Nat.add_assoc, h.load_eq (Nat.le_add_right_of_le hc.natts_le_tHoff) (by omega)]

theorem Complete.attOffset_eq {i : Nat} (hi : i ≤ t.tNatts) : attOffset desc u i = attOffset desc t i :=
  Layout.start_congr (fun _ _ => rfl) (fun j hj => hc.isNull_eq h (by omega))
    fun j hj hnull => hc.attSize_eq h (by omega) hnull

theorem Complete.walkStop_eq {i : Nat} (hi : i ≤ t.tNatts) : walkStop desc u i = walkStop desc t i :=
  Layout.stop_congr (fun _ _ => rfl) (fun j hj => hc.isNull_eq h (by omega))
    fun j hj hnull => hc.attSize_eq h (by omega) hnull

theorem Complete.wellFormed_moved : WellFormed desc u where
  natts_le := hc.tNatts_eq h ▸ hc.wellFormed.natts_le
  fixed hall i hi hnull := by
    rw [hc.tNatts_eq h] at hi
    rw [hc.isNull_eq h hi] at hnull
    exact hc.wellFormed.fixed (hc.allFixed_eq h ▸ hall) i hi hnull
  inside := by
    rw [hc.tNatts_eq h, hc.tHoff_eq h, hc.walkStop_eq h (Nat.le_refl _), h.tLen]
    exact hc.wellFormed.inside
  len_le := h.tLen ▸ hc.wellFormed.len_le

/-- What the plain walk finds. -/
theorem Complete.plain_moved {i : Nat} (hi : i < t.tNatts) :
    (plainGetAttr desc u (i + 1)).2 = (plainGetAttr desc t (i + 1)).2 ∧
      ((plainGetAttr desc t (i + 1)).2 = false →
        SameDatum t u (desc.att i) (plainGetAttr desc t (i + 1)).1 (plainGetAttr desc u (i + 1)).1) := by
  unfold plainGetAttr
  rw [Nat.add_sub_cancel, hc.isNull_eq h hi, hc.attOffset_eq h (Nat.le_of_lt hi)]
  cases hnull : t.isNull i with
  | true => exact ⟨rfl, nofun⟩
  | false =>
    simp only [Bool.false_eq_true, if_false]
    refine ⟨trivial, fun _ => ?_⟩
    have hinside := hc.inside hi hnull
    unfold SameDatum fetchAtt
    unfold HeapTuple.dataStart at hinside ⊢
    rw [hc.tHoff_eq h]
    by_cases hbyval : (desc.att i).attbyval = true
    · have hlen := (desc.valid i).byval hbyval
      have hsize : attSize t.mem (desc.att i) (t.tData + t.tHoff + attOffset desc t i) =
          (desc.att i).attlen.toNat :=
        if_pos (by omega)
      rw [hsize] at hinside
      simp only [hbyval, if_true, Nat.add_assoc]
      rcases hlen with hlen | hlen | hlen | hlen <;> rw [hlen] at hinside ⊢ <;>
        exact h.load_eq (Nat.le_add_right_of_le hc.natts_le_tHoff) (by omega)
    · simp only [hbyval]
      refine ⟨t.tHoff + attOffset desc t i, Nat.add_assoc .., Nat.add_assoc .., hinside, ?_⟩
      rw [Nat.add_assoc, Nat.add_assoc]
      exact h.slice_eq (Nat.le_add_right_of_le hc.natts_le_tHoff) (by rw [← Nat.add_assoc]; exact hinside)

/-- Where the tuple is does not matter to a reader. -/
theorem Complete.readsAlike : ReadsAlike desc t u := by
  have hget (v : HeapTuple) (hw : WellFormed desc v) {cache : AttCache} (hcache : CacheOk desc cache) {i : Nat}
      (hi : i < v.tNatts) : ((heapGetAttr desc v (i + 1) cache).datum,
        (heapGetAttr desc v (i + 1) cache).isnull) =
        plainGetAttr desc v (i + 1) := by
    rw [heapGetAttr, if_neg (by omega)]
    exact (fastGetAttr_spec hw hcache (by omega) (by omega)).1
  have hnatts := hc.tNatts_eq h
  refine ⟨hnatts, fun cache cache' hcache hcache' i hi => ?_, fun cache cache' hcache hcache' i hi hnull => ?_,
    ?_⟩
  · have ht := congrArg Prod.snd (hget t hc.wellFormed hcache hi)
    have hu := congrArg Prod.snd (hget u (hc.wellFormed_moved h) hcache' (hnatts ▸ hi))
    exact hu.trans ((hc.plain_moved h hi).1.trans ht.symm)
  · have ht := hget t hc.wellFormed hcache hi
    have hu := congrArg Prod.fst (hget u (hc.wellFormed_moved h) hcache' (hnatts ▸ hi))
    have hfst := congrArg Prod.fst ht
    have hsnd := congrArg Prod.snd ht
    dsimp only at hu hfst hsnd
    rw [hu, hfst]
    exact (hc.plain_moved h hi).2 (hsnd.symm.trans hnull)
  · intro attnum
    unfold heapAttIsNull
    rw [hnatts, hc.noNulls_eq h]
    split
    · rfl
    · cases hno : t.noNulls with
      | true => rfl
      | false =>
        simp only [Bool.false_eq_true, if_false]
        split
        · rw [hc.attIsNull_eq h hno (by omega)]
        · rfl

theorem Complete.moved : Complete desc u where
  wellFormed := hc.wellFormed_moved h
  header := hc.tHoff_eq h ▸ hc.header
  bitmap hno i hi := by
    rw [hc.tHoff_eq h]
    exact hc.bitmap (hc.noNulls_eq h ▸ hno) i (hc.tNatts_eq h ▸ hi)
  varlena i hi hnull hlen := by
    rw [hc.tNatts_eq h] at hi
    rw [hc.isNull_eq h hi] at hnull
    have hfour := hc.varlena i hi hnull hlen
    have hsize := hc.attSize_eq h hi hnull
    unfold attSize at hsize
    rw [if_neg (not_not.mpr hlen), if_neg (not_not.mpr hlen)] at hsize
    rw [hc.attOffset_eq h (Nat.le_of_lt hi), hsize]
    exact hfour

end

/-! ## Copying -/

/-- The fields of the tuple, and its bytes at `tData`. -/
def HeapTuple.copyTo (tuple : HeapTuple) (raw : Mem) (tData : Nat) : HeapTuple where
  tLen := tuple.tLen
  tSelf := tuple.tSelf
  tTableOid := tuple.tTableOid
  tData := tData
  mem := write raw tData tuple.tLen fun i => tuple.mem (tuple.tData + i)

/-- `heap_copy_tuple`, `none` for `NULL`. `palloc` returns `chunk`, with arbitrary bytes `raw`. -/
def heapCopyTuple (raw : Mem) (chunk : Nat) : Option HeapTuple → Except FormFailure (Option HeapTuple)
  | none => .ok none
  | some tuple =>
    if tuple.tData = 0 then .ok none
    else if HEAP_TUPLE_SIZE + tuple.tLen > MAX_ALLOC_SIZE then
      .error (.elog "memory_context_alloc: invalid request size %lu")
    else .ok (some (tuple.copyTo raw (chunk + HEAP_TUPLE_SIZE)))

/-- `heap_copy_tuple_with_tuple`: `dest` afterwards. -/
def heapCopyTupleWithTuple (raw : Mem) (chunk : Nat) (src : Option HeapTuple) (dest : HeapTuple) :
    Except FormFailure HeapTuple :=
  match src with
  | none => .ok { dest with tData := 0 }
  | some src =>
    if src.tData = 0 then .ok { dest with tData := 0 }
    else if src.tLen > MAX_ALLOC_SIZE then .error (.elog "memory_context_alloc: invalid request size %lu")
    else .ok (src.copyTo raw chunk)

theorem sameBytes_copyTo (t : HeapTuple) (raw : Mem) (tData : Nat) : SameBytes t (t.copyTo raw tData) where
  tLen := rfl
  bytes _ _ hi := write_inside raw tData t.tLen (fun i => t.mem (t.tData + i)) hi

/-- Whatever `palloc` returns, both copies of a tuple read as the tuple does; only `heap_copy_tuple` refuses one
that fills an allocation already. -/
theorem heap_copy_reads_alike (hc : Complete desc t) (hdata : t.tData ≠ 0) (raw : Mem) (chunk : Nat)
    (dest : HeapTuple) :
    (HEAP_TUPLE_SIZE + t.tLen ≤ MAX_ALLOC_SIZE →
      ∃ u, heapCopyTuple raw chunk (some t) = .ok (some u) ∧ u.tSelf = t.tSelf ∧ u.tTableOid = t.tTableOid ∧
        Complete desc u ∧ ReadsAlike desc t u) ∧
    ∃ u, heapCopyTupleWithTuple raw chunk (some t) dest = .ok u ∧ u.tSelf = t.tSelf ∧ u.tTableOid = t.tTableOid ∧
      Complete desc u ∧ ReadsAlike desc t u := by
  refine ⟨fun hfits => ?_, ?_⟩
  · have hsame := sameBytes_copyTo t raw (chunk + HEAP_TUPLE_SIZE)
    refine ⟨t.copyTo raw (chunk + HEAP_TUPLE_SIZE), ?_, rfl, rfl, hc.moved hsame, hc.readsAlike hsame⟩
    rw [heapCopyTuple, if_neg hdata, if_neg (Nat.not_lt.mpr hfits)]
  · have hsame := sameBytes_copyTo t raw chunk
    refine ⟨t.copyTo raw chunk, ?_, rfl, rfl, hc.moved hsame, hc.readsAlike hsame⟩
    simp only [heapCopyTupleWithTuple, if_neg hdata, if_neg (Nat.not_lt.mpr hc.wellFormed.len_le)]

theorem exampleTuple_complete : Complete exampleDesc exampleTuple :=
  ⟨⟨by decide, by decide, by decide, by decide⟩, by decide, by decide, by decide⟩

/-- A copy of `(7, 'hi')` is copied. -/
theorem heap_copy_reads_alike_example :
    ∃ u, heapCopyTuple (fun _ => 0) 8192 (some (exampleTuple.copyTo (fun _ => 0xFF) 4096)) = .ok (some u) ∧
      Complete exampleDesc u ∧ ReadsAlike exampleDesc (exampleTuple.copyTo (fun _ => 0xFF) 4096) u := by
  have hc := exampleTuple_complete.moved (sameBytes_copyTo exampleTuple (fun _ => 0xFF) 4096)
  obtain ⟨u, he, -, -, halike⟩ := (heap_copy_reads_alike hc (by decide) (fun _ => 0) 8192 exampleTuple).1
    (by decide)
  exact ⟨u, he, halike⟩

theorem noNulls_eq_testBit (t : HeapTuple) : t.noNulls = !t.tInfoMask.testBit 0 := by
  unfold HeapTuple.noNulls
  rw [show HEAP_HASNULL = 2 ^ 0 from rfl, Nat.and_two_pow]
  cases t.tInfoMask.testBit 0 <;> rfl

/-- A formed tuple is complete. -/
theorem formed_complete {src raw : Mem} {chunk : Nat} {value : Nat → Datum} {nulls : Nat → Char}
    (hin : FormInput src chunk desc value nulls) (hform : heapFormTuple src raw chunk desc value nulls = .ok t) :
    Complete desc t ∧ t.tNatts = desc.natts ∧ t.tData = chunk + HEAP_TUPLE_SIZE := by
  obtain ⟨-, hlow, hhigh, hroom⟩ := headerLen_spec hin.natts_le (hasNull desc nulls)
  have hle := hin.natts_le
  unfold MAX_HEAP_ATTRIBUTE_NUMBER at hle
  rcases heapFormTuple_filled raw hin with ⟨-, _, he⟩ | ⟨-, -, he⟩ | ⟨-, hoff, len, s, rfl, hsize, hf, he⟩
  · exact nomatch he.symm.trans hform
  · exact nomatch he.symm.trans hform
  · obtain rfl := Except.ok.inj (he.symm.trans hform)
    have hnatts : (finish (chunk + HEAP_TUPLE_SIZE) len s).tNatts = desc.natts := finish_tNatts hf (by omega)
    have hhoff := finish_tHoff hf hhigh
    refine ⟨⟨finish_wellFormed hf hin rfl hlow hhigh hsize, hhoff ▸ hlow, fun hno i hi => ?_,
      fun i hi hnull hlen => ?_⟩,
      hnatts, rfl⟩
    · have hflag : (finish (chunk + HEAP_TUPLE_SIZE) len s).tInfoMask.testBit 0 = s.infomask.testBit 0 :=
        finish_flag (by decide)
      rw [noNulls_eq_testBit, hflag, Bool.not_eq_false'] at hno
      obtain ⟨j, hj, hne⟩ := hf.1.hasNull.mp hno
      have hbit : hasNull desc nulls = true := by
        rw [hasNull, List.any_eq_true]
        exact ⟨j, List.mem_range.mpr hj, bne_iff_ne.mpr hne⟩
      rw [hhoff]
      exact hroom hbit i (hnatts ▸ hi)
    · rw [hnatts] at hi
      rw [finish_isNull hf rfl hi] at hnull
      have hval : nulls i = ' ' := not_not.mp (bne_iff_ne.not.mp (by rw [hnull]; decide))
      have hsame := finish_attSize hf hlow hi hval (hin.varlena i hi hval)
      unfold attSize at hsame
      rw [if_neg (not_not.mpr hlen), if_neg (not_not.mpr hlen)] at hsame
      have hstart : (finish (chunk + HEAP_TUPLE_SIZE) len s).dataStart = chunk + HEAP_TUPLE_SIZE +
          headerLen desc.natts (hasNull desc nulls) :=
        congrArg (chunk + HEAP_TUPLE_SIZE + ·) hhoff
      rw [hstart, (finish_walk hf hin rfl hlow hhigh (Nat.le_of_lt hi)).2, hsame]
      exact hin.varlena i hi hval hlen

theorem formed_readsBack {src raw : Mem} {chunk : Nat} {value : Nat → Datum} {nulls : Nat → Char}
    (hin : FormInput src chunk desc value nulls) (hform : heapFormTuple src raw chunk desc value nulls = .ok t) :
    ReadsBack src desc value nulls t := by
  rcases heapFormTuple_cases raw hin with ⟨-, _, he⟩ | ⟨-, -, he⟩ | ⟨-, u, he, hreads, -⟩
  · exact nomatch he.symm.trans hform
  · exact nomatch he.symm.trans hform
  · exact Except.ok.inj (he.symm.trans hform) ▸ hreads

/-- The same bytes are as long. -/
theorem attSize_of_slice {m src : Mem} {a : FormPgAttribute} {value d : Datum}
    (hfour : a.attlen = -1 → 4 ≤ varattSize src value)
    (h : slice m d (attSize src a value) = slice src value (attSize src a value)) : attSize m a d =
    attSize src a value := by
  unfold attSize at h ⊢
  by_cases hlen : a.attlen ≠ -1
  · rw [if_pos hlen, if_pos hlen]
  · rw [if_neg hlen] at h
    have hle := hfour (not_not.mp hlen)
    rw [if_neg hlen, if_neg hlen]
    unfold varattSize varattSizep
    congr 1
    refine load_congr fun k hk => ?_
    have hk' : k < (slice m d (varattSize src value)).length := by
      rw [length_slice]
      omega
    have hbyte := List.getElem_of_eq h hk'
    rwa [getElem_slice, getElem_slice] at hbyte

/-- What was formed reads back wherever the tuple is moved to. -/
theorem ReadsBack.moved {src : Mem} {chunk : Nat} {value : Nat → Datum} {nulls : Nat → Char}
    (hreads : ReadsBack src desc value nulls t) (hin : FormInput src chunk desc value nulls)
    (hc : Complete desc t)
    (hnatts : t.tNatts = desc.natts) (h : SameBytes t u) : ReadsBack src desc value nulls u := by
  have halike := hc.readsAlike h
  refine ⟨fun cache hcache i hi => ?_, fun cache hcache i hi hval => ?_, fun i hi => ?_, ?_⟩
  · rw [halike.isnull cache cache hcache hcache i (hnatts ▸ hi)]
    exact hreads.isnull cache hcache i hi
  · have hnull : (heapGetAttr desc t (i + 1) cache).isnull = false := by
      refine Bool.eq_false_iff.mpr fun hnull => ?_
      rw [(hreads.isnull cache hcache i hi).mp hnull] at hval
      exact absurd hval (by decide)
    have hsame := hreads.datum cache hcache i hi hval
    have hdatum := halike.datum cache cache hcache hcache i (hnatts ▸ hi) hnull
    unfold SameValue at hsame ⊢
    unfold SameDatum at hdatum
    by_cases hbyval : (desc.att i).attbyval = true
    · rw [if_pos hbyval] at hsame hdatum ⊢
      rw [hdatum, hsame]
    · rw [if_neg hbyval] at hsame hdatum ⊢
      obtain ⟨off, -, -, -, hslice⟩ := hdatum
      rw [attSize_of_slice (hin.varlena i hi hval) hsame] at hslice
      exact hslice.trans hsame
  · rw [halike.attIsNull]
    exact hreads.attIsNull i hi
  · rw [hc.tHoff_eq h]
    exact hreads.hoff

/-! ## A header before a structure -/

/-- The header before a structure, and zeros behind it. -/
def headerBefore (raw : Mem) (td len hoff natts : Nat) : Mem :=
  let m := write raw td len fun _ => 0
  let m := store m (td + OFFSET_T_HOFF) 1 hoff
  let m := store m (td + OFFSET_T_NATTS) 2 natts
  store m (td + OFFSET_T_INFO_MASK) 2 (0 ||| HEAP_XMAX_INVALID)

/-- `heap_add_header`; `none` is a failed assertion. The structure is at `struct` in `src`. -/
def heapAddHeader (src raw : Mem) (chunk natts structLen struct : Nat) : Option (Except FormFailure HeapTuple) :=
  if natts = 0 then none
  else
    let hoff := maxAlign OFFSET_T_BITS
    let len := hoff + structLen
    if HEAP_TUPLE_SIZE + len > MAX_ALLOC_SIZE then
      some (.error (.elog "memory_context_alloc: invalid request size %lu"))
    else
      let td := chunk + HEAP_TUPLE_SIZE
      some (.ok {
        tLen := len, tSelf := itemPointerInvalid, tTableOid := INVALID_OID, tData := td,
        mem := write (headerBefore raw td len hoff natts) (td + hoff) structLen fun i => src (struct + i) })

section

variable {src raw : Mem} {td len natts structLen struct : Nat}

theorem headerBefore_natts (h : natts < 2 ^ 16) :
    load (headerBefore raw td len 32 natts) (td + OFFSET_T_NATTS) 2 = natts := by
  simp only [headerBefore]
  rw [load_store_disjoint _ (by unfold OFFSET_T_NATTS OFFSET_T_INFO_MASK; omega), load_store, Nat.mod_eq_of_lt
    (by omega)]

theorem headerBefore_infoMask :
    load (headerBefore raw td len 32 natts) (td + OFFSET_T_INFO_MASK) 2 = HEAP_XMAX_INVALID := by
  simp only [headerBefore]
  rw [load_store]
  rfl

theorem headerBefore_hoff : load (headerBefore raw td len 32 natts) (td + OFFSET_T_HOFF) 1 = 32 := by
  simp only [headerBefore]
  rw [load_store_disjoint _ (by unfold OFFSET_T_HOFF OFFSET_T_INFO_MASK; omega),
    load_store_disjoint _ (by unfold OFFSET_T_HOFF OFFSET_T_NATTS; omega), load_store]
  rfl

end

end PostgresV7.Heap
