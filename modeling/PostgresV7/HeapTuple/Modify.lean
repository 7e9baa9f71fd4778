import PostgresV7.HeapTuple.Form
import PostgresV7.Lib.Outcomes

/-!
# Modifying a tuple (`heap_modify_tuple`)

The new tuple is formed from the old attributes and their replacements. The header of
the old one is copied over the new one's up to `t_hoff`; `t_infomask` is put back from a
variable of eight bits.
-/

namespace PostgresV7.Heap

open ByteMem Align Outcomes

/-! ## The function -/

/-- What `heap_modify_tuple` uses of a relation. -/
structure Relation where
  relnatts : Nat
  rdAtt : TupleDesc
  natts_eq : rdAtt.natts = relnatts

/-- The arrays `value` and `nulls`, and the offsets cached by then. -/
structure Arrays where
  value : Nat → Datum
  nulls : Nat → Char
  cache : AttCache

/-- The loop that fills the arrays, with `k` attributes left. -/
def fillArrays (tuple : HeapTuple) (desc : TupleDesc) (replValue : Nat → Datum)
    (replNull repl : Nat → Char) : Nat → Nat → Arrays → Except FormFailure Arrays
  | 0, _, r => .ok r
  | k + 1, attoff, r =>
    if repl attoff = ' ' then
      let f := heapGetAttr desc tuple (attoff + 1) r.cache
      fillArrays tuple desc replValue replNull repl k (attoff + 1)
        { value := Function.update r.value attoff f.datum
          nulls := Function.update r.nulls attoff (if f.isnull then 'n' else ' ')
          cache := f.cache }
    else if repl attoff ≠ 'r' then .error (.elog "heap_modifytuple: repl is \\%3d")
    else
      fillArrays tuple desc replValue replNull repl k (attoff + 1)
        { r with
          value := Function.update r.value attoff (replValue attoff)
          nulls := Function.update r.nulls attoff (replNull attoff) }

/-- The new tuple once the header of the old one is copied. `infomask` is a `uint8`. -/
def copyHeader (tuple newTuple : HeapTuple) (natts : Nat) : HeapTuple :=
  let infomask := newTuple.tInfoMask % 2 ^ 8
  let m := write newTuple.mem newTuple.tData OFFSET_T_HOFF (fun i => tuple.mem (tuple.tData + i))
  let m := store m (newTuple.tData + OFFSET_T_INFO_MASK) 2 infomask
  let m := store m (newTuple.tData + OFFSET_T_NATTS) 2 natts
  { newTuple with mem := m, tSelf := tuple.tSelf, tTableOid := tuple.tTableOid }

/-- `heap_modify_tuple`. The old tuple and the replacements are in one memory; `arrays` is
what `palloc` returned for the arrays, `chunk` and `raw` what it will return for the tuple. -/
def heapModifyTuple (raw : Mem) (chunk : Nat) (tuple : HeapTuple) (relation : Relation)
    (replValue : Nat → Datum) (replNull repl : Nat → Char) (arrays : Arrays) :
    Except FormFailure (HeapTuple × AttCache) := do
  let r ← fillArrays tuple relation.rdAtt replValue replNull repl relation.relnatts 0 arrays
  let newTuple ← heapFormTuple tuple.mem raw chunk relation.rdAtt r.value r.nulls
  .ok (copyHeader tuple newTuple relation.relnatts, r.cache)

/-! ## What is asked of it -/

/-- The value an attribute is to have. -/
def newValue (tuple : HeapTuple) (desc : TupleDesc) (replValue : Nat → Datum) (repl : Nat → Char)
    (cache : AttCache) (i : Nat) : Datum :=
  if repl i = 'r' then replValue i else (heapGetAttr desc tuple (i + 1) cache).datum

/-- Its mark. -/
def newNull (tuple : HeapTuple) (desc : TupleDesc) (replNull repl : Nat → Char) (cache : AttCache)
    (i : Nat) : Char :=
  if repl i = 'r' then replNull i
  else if (heapGetAttr desc tuple (i + 1) cache).isnull then 'n' else ' '

/-- What a caller passes: a well-formed tuple, marks that are marks, varlena values that
are at least their own headers. -/
structure ModifyInput (chunk : Nat) (tuple : HeapTuple) (relation : Relation)
    (replValue : Nat → Datum) (replNull repl : Nat → Char) (cache : AttCache) : Prop where
  wellFormed : WellFormed relation.rdAtt tuple
  cacheOk : CacheOk relation.rdAtt cache
  natts_pos : 1 ≤ relation.relnatts
  natts_le : relation.relnatts ≤ MAX_HEAP_ATTRIBUTE_NUMBER
  marks : ∀ i, i < relation.relnatts →
    repl i = ' ' ∨ (repl i = 'r' ∧ (replNull i = ' ' ∨ replNull i = 'n'))
  varlena : ∀ i, i < relation.relnatts → newNull tuple relation.rdAtt replNull repl cache i = ' ' →
    (relation.rdAtt.att i).attlen = -1 →
    4 ≤ varattSize tuple.mem (newValue tuple relation.rdAtt replValue repl cache i)
  aligned : 16 ∣ chunk

/-- `heap_form_tuple` made `formed` of the new values. -/
def Formed (raw : Mem) (chunk : Nat) (tuple : HeapTuple) (relation : Relation)
    (replValue : Nat → Datum) (replNull repl : Nat → Char) (cache : AttCache) (formed : HeapTuple) :
    Prop :=
  ∃ value nulls, (∀ i, i < relation.relnatts →
      value i = newValue tuple relation.rdAtt replValue repl cache i ∧
      nulls i = newNull tuple relation.rdAtt replNull repl cache i) ∧
    heapFormTuple tuple.mem raw chunk relation.rdAtt value nulls = .ok formed

/-- The new values read back, and the header up to `t_ctid` is the old one. -/
structure Modified (tuple : HeapTuple) (relation : Relation) (replValue : Nat → Datum)
    (replNull repl : Nat → Char) (cache : AttCache) (t : HeapTuple) : Prop where
  reads : ReadsBack tuple.mem relation.rdAtt (newValue tuple relation.rdAtt replValue repl cache)
    (newNull tuple relation.rdAtt replNull repl cache) t
  header : ∀ i, i < OFFSET_T_NATTS → t.mem (t.tData + i) = tuple.mem (tuple.tData + i)

/-! ## Tuples that read alike -/

/-- The tuples are the same but for the header before `t_hoff`, where they agree on the
number of attributes and on the flags. -/
structure Alike (t u : HeapTuple) : Prop where
  tLen : t.tLen = u.tLen
  tData : t.tData = u.tData
  tNatts : t.tNatts = u.tNatts
  noNulls : t.noNulls = u.noNulls
  allFixed : t.allFixed = u.allFixed
  mem : ∀ a, u.tData + OFFSET_T_HOFF ≤ a → t.mem a = u.mem a

namespace Alike

variable {t u : HeapTuple} {desc : TupleDesc}

theorem tHoff (h : Alike t u) : t.tHoff = u.tHoff := by
  unfold HeapTuple.tHoff
  rw [h.tData]
  exact load_congr fun i _ => h.mem _ (Nat.le_add_right _ i)

theorem tBits (h : Alike t u) : t.tBits = u.tBits := by
  funext i
  unfold HeapTuple.tBits
  rw [h.tData]
  refine h.mem _ ?_
  unfold OFFSET_T_HOFF OFFSET_T_BITS
  omega

theorem isNull (h : Alike t u) : t.isNull = u.isNull := by
  funext i
  unfold HeapTuple.isNull
  rw [h.noNulls, h.tBits]

theorem dataStart (h : Alike t u) : t.dataStart = u.dataStart := by
  unfold HeapTuple.dataStart
  rw [h.tData, h.tHoff]

theorem load_eq (h : Alike t u) (hoff : OFFSET_T_HOFF ≤ u.tHoff) {p n : Nat} (hp : u.dataStart ≤ p) :
    load t.mem p n = load u.mem p n := by
  refine load_congr fun i _ => h.mem _ ?_
  unfold HeapTuple.dataStart at hp
  omega

theorem attSize_eq (h : Alike t u) (hoff : OFFSET_T_HOFF ≤ u.tHoff) (a : FormPgAttribute) {p : Nat}
    (hp : u.dataStart ≤ p) : attSize t.mem a p = attSize u.mem a p := by
  unfold attSize varattSize varattSizep
  rw [h.load_eq hoff hp]

theorem fetchAtt_eq (h : Alike t u) (hoff : OFFSET_T_HOFF ≤ u.tHoff) (a : FormPgAttribute) {p : Nat}
    (hp : u.dataStart ≤ p) : fetchAtt t.mem a p = fetchAtt u.mem a p := by
  unfold fetchAtt
  rw [h.load_eq hoff hp, h.load_eq hoff hp, h.load_eq hoff hp, h.load_eq hoff hp]

theorem walkStop_eq (h : Alike t u) (hoff : OFFSET_T_HOFF ≤ u.tHoff) (n : Nat) :
    walkStop desc t n = walkStop desc u n := by
  refine Layout.stop_congr (fun _ _ => rfl) (fun i _ => congrFun h.isNull i) fun i _ _ => ?_
  rw [h.dataStart]
  exact h.attSize_eq hoff _ (Nat.le_add_right _ _)

theorem attOffset_eq (h : Alike t u) (hoff : OFFSET_T_HOFF ≤ u.tHoff) (n : Nat) :
    attOffset desc t n = attOffset desc u n := by
  rw [Heap.attOffset_eq, Heap.attOffset_eq, h.walkStop_eq hoff]

theorem plainGetAttr_eq (h : Alike t u) (hoff : OFFSET_T_HOFF ≤ u.tHoff) (attnum : Nat) :
    plainGetAttr desc t attnum = plainGetAttr desc u attnum := by
  unfold plainGetAttr
  rw [h.isNull, h.dataStart, h.attOffset_eq hoff, h.fetchAtt_eq hoff _ (Nat.le_add_right _ _)]

theorem wellFormed (h : Alike t u) (hoff : OFFSET_T_HOFF ≤ u.tHoff) (hw : WellFormed desc u) :
    WellFormed desc t := by
  constructor
  · rw [h.tNatts]
    exact hw.natts_le
  · rw [h.allFixed, h.tNatts, h.isNull]
    exact hw.fixed
  · rw [h.tHoff, h.tNatts, h.tLen, h.walkStop_eq hoff]
    exact hw.inside
  · rw [h.tLen]
    exact hw.len_le

end Alike

/-! ## Reading the new tuple -/

section Reading

variable {src raw : Mem} {desc : TupleDesc} {value value' : Nat → Datum} {nulls nulls' : Nat → Char}
  {t u tuple formed : HeapTuple} {cache cache' : AttCache} {chunk : Nat} {relation : Relation}
  {replValue : Nat → Datum} {replNull repl : Nat → Char}

/-- Reading does not depend on which offsets are cached. -/
theorem heapGetAttr_spec (hw : WellFormed desc t) (hc : CacheOk desc cache) (i : Nat) :
    ((heapGetAttr desc t (i + 1) cache).datum, (heapGetAttr desc t (i + 1) cache).isnull) =
      (if i + 1 > t.tNatts then (0, true) else plainGetAttr desc t (i + 1)) ∧
    CacheOk desc (heapGetAttr desc t (i + 1) cache).cache := by
  unfold heapGetAttr
  split
  · exact ⟨rfl, hc⟩
  · exact fastGetAttr_spec hw hc (Nat.le_add_left 1 i) (by omega)

theorem heapGetAttr_cache (hw : WellFormed desc t) (hc : CacheOk desc cache) (hc' : CacheOk desc cache')
    (i : Nat) :
    (heapGetAttr desc t (i + 1) cache).datum = (heapGetAttr desc t (i + 1) cache').datum ∧
    (heapGetAttr desc t (i + 1) cache).isnull = (heapGetAttr desc t (i + 1) cache').isnull :=
  Prod.mk.inj ((heapGetAttr_spec hw hc i).1.trans (heapGetAttr_spec hw hc' i).1.symm)

theorem SameValue.alike (h : Alike t u) (hoff : OFFSET_T_HOFF ≤ u.tHoff) {a : FormPgAttribute}
    {v d : Datum} (hd : a.attbyval = false → u.dataStart ≤ d) (hs : SameValue src u a v d) :
    SameValue src t a v d := by
  unfold SameValue at hs ⊢
  split
  · rename_i hv
    rwa [if_pos hv] at hs
  · rename_i hv
    rw [if_neg hv] at hs
    rw [← hs]
    refine slice_congr fun i _ => h.mem _ ?_
    have hle := hd (Bool.eq_false_iff.mpr hv)
    unfold HeapTuple.dataStart at hle
    omega

/-- What reads back from a tuple reads back from one like it. -/
theorem ReadsBack.alike (h : Alike t u) (hw : WellFormed desc u) (hnatts : u.tNatts = desc.natts)
    (hoff : OFFSET_T_HOFF ≤ u.tHoff) (hr : ReadsBack src desc value nulls u) :
    ReadsBack src desc value nulls t := by
  have hget : ∀ cache, CacheOk desc cache → ∀ i, i < desc.natts →
      (heapGetAttr desc t (i + 1) cache).datum = (heapGetAttr desc u (i + 1) cache).datum ∧
      (heapGetAttr desc t (i + 1) cache).isnull = (heapGetAttr desc u (i + 1) cache).isnull := by
    intro cache hc i hi
    have ht := (heapGetAttr_spec (h.wellFormed hoff hw) hc i).1
    rw [h.tNatts, h.plainGetAttr_eq hoff] at ht
    exact Prod.mk.inj (ht.trans (heapGetAttr_spec hw hc i).1.symm)
  refine ⟨fun cache hc i hi => ?_, fun cache hc i hi hval => ?_, fun i hi => ?_, ?_⟩
  · rw [(hget cache hc i hi).2]
    exact hr.isnull cache hc i hi
  · rw [(hget cache hc i hi).1]
    refine (hr.datum cache hc i hi hval).alike h hoff fun hv => ?_
    have hno : (heapGetAttr desc u (i + 1) cache).isnull = false := by
      refine Bool.eq_false_iff.mpr fun hnull => ?_
      rw [(hr.isnull cache hc i hi).mp hnull] at hval
      exact absurd hval (by decide)
    -- a value that is not null lies in the data
    have hspec := (heapGetAttr_spec hw hc i).1
    rw [if_neg (by omega), plainGetAttr, Nat.add_sub_cancel] at hspec
    cases hu : u.isNull i with
    | true =>
      rw [hu, if_pos rfl] at hspec
      exact absurd ((congrArg Prod.snd hspec).symm.trans hno) (by decide)
    | false =>
      rw [hu, if_neg Bool.false_ne_true, fetchAtt, if_neg (by rw [hv]; exact Bool.false_ne_true)] at hspec
      have hdatum := congrArg Prod.fst hspec
      dsimp only at hdatum
      rw [hdatum]
      exact Nat.le_add_right _ _
  · have hsame : heapAttIsNull t (i + 1) = heapAttIsNull u (i + 1) := by
      unfold heapAttIsNull
      rw [h.tNatts, h.noNulls, h.tBits]
    rw [hsame]
    exact hr.attIsNull i hi
  · rw [h.tHoff]
    exact hr.hoff

theorem hasNull_congr (h : ∀ i, i < desc.natts → nulls i = nulls' i) :
    hasNull desc nulls = hasNull desc nulls' := by
  rw [Bool.eq_iff_iff, hasNull, hasNull, List.any_eq_true, List.any_eq_true]
  refine exists_congr fun i => and_congr_right fun hi => ?_
  rw [h i (List.mem_range.mp hi)]

theorem ReadsBack.congr (h : ∀ i, i < desc.natts → value i = value' i ∧ nulls i = nulls' i)
    (hr : ReadsBack src desc value nulls t) : ReadsBack src desc value' nulls' t := by
  refine ⟨fun cache hc i hi => ?_, fun cache hc i hi hval => ?_, fun i hi => ?_, ?_⟩
  · rw [← (h i hi).2]
    exact hr.isnull cache hc i hi
  · rw [← (h i hi).1]
    exact hr.datum cache hc i hi ((h i hi).2.trans hval)
  · rw [← (h i hi).2]
    exact hr.attIsNull i hi
  · rw [← hasNull_congr fun i hi => (h i hi).2]
    exact hr.hoff

/-! ## The arrays -/

/-- The loop fills in the new values and their marks, and caches only what may be. -/
theorem fillArrays_spec (hw : WellFormed desc tuple) (hc : CacheOk desc cache) (k i : Nat) (r : Arrays)
    (hr : CacheOk desc r.cache) (hrepl : ∀ j, j < i + k → repl j = ' ' ∨ repl j = 'r')
    (hdone : ∀ j, j < i → r.value j = newValue tuple desc replValue repl cache j ∧
      r.nulls j = newNull tuple desc replNull repl cache j) :
    ∃ r', fillArrays tuple desc replValue replNull repl k i r = .ok r' ∧ CacheOk desc r'.cache ∧
      ∀ j, j < i + k → r'.value j = newValue tuple desc replValue repl cache j ∧
        r'.nulls j = newNull tuple desc replNull repl cache j := by
  induction k generalizing i r with
  | zero => exact ⟨r, rfl, hr, hdone⟩
  | succ k ih =>
    have hnext : ∀ v c, v = newValue tuple desc replValue repl cache i →
        c = newNull tuple desc replNull repl cache i → ∀ j, j < i + 1 →
        Function.update r.value i v j = newValue tuple desc replValue repl cache j ∧
          Function.update r.nulls i c j = newNull tuple desc replNull repl cache j := by
      rintro v c rfl rfl j hj
      rcases Nat.lt_succ_iff_lt_or_eq.mp hj with hlt | rfl
      · rw [Function.update_of_ne (Nat.ne_of_lt hlt), Function.update_of_ne (Nat.ne_of_lt hlt)]
        exact hdone j hlt
      · rw [Function.update_self, Function.update_self]
        exact ⟨rfl, rfl⟩
    rw [show i + (k + 1) = i + 1 + k by omega] at hrepl ⊢
    rcases hrepl i (by omega) with hold | hnew
    · obtain ⟨hdatum, hisnull⟩ := heapGetAttr_cache hw hr hc i
      have hne : repl i ≠ 'r' := by
        rw [hold]
        decide
      unfold fillArrays
      rw [if_pos hold]
      refine ih (i + 1) _ (heapGetAttr_spec hw hr i).2 hrepl (hnext _ _ ?_ ?_)
      · rw [newValue, if_neg hne]
        exact hdatum
      · rw [newNull, if_neg hne, ← hisnull]
    · have hne : repl i ≠ ' ' := by
        rw [hnew]
        decide
      unfold fillArrays
      rw [if_neg hne, if_neg (not_not.mpr hnew)]
      refine ih (i + 1) _ hr hrepl (hnext _ _ ?_ ?_)
      · rw [newValue, if_pos hnew]
      · rw [newNull, if_pos hnew]

/-! ## The flags -/

theorem finish_tInfoMask {td len : Nat} {s : FillState} :
    (finish td len s).tInfoMask = (s.infomask ||| HEAP_XMAX_INVALID) % 2 ^ 16 :=
  load_store _ _ 2 _

/-- `HEAP_XMAX_INVALID` is set in every tuple that is formed. -/
theorem heapFormTuple_xmaxInvalid
    (h : heapFormTuple src raw chunk desc value nulls = .ok t) : t.tInfoMask.testBit 11 = true := by
  by_cases hle : desc.natts ≤ MAX_HEAP_ATTRIBUTE_NUMBER
  · rw [heapFormTuple_eq hle rfl rfl] at h
    split at h
    · cases h
    · obtain ⟨s, -, rfl⟩ := map_eq_ok h
      rw [finish_tInfoMask, Nat.testBit_mod_two_pow, Nat.testBit_or]
      have hx : HEAP_XMAX_INVALID.testBit 11 = true := rfl
      rw [hx, Bool.or_true]
      rfl
  · unfold heapFormTuple at h
    rw [if_pos (Nat.lt_of_not_le hle)] at h
    cases h

/-- Only the low byte of the flags is put back. -/
theorem copyHeader_tInfoMask (natts : Nat) :
    (copyHeader tuple formed natts).tInfoMask = formed.tInfoMask % 2 ^ 8 := by
  unfold copyHeader HeapTuple.tInfoMask
  dsimp only
  rw [load_store_disjoint _ (by unfold OFFSET_T_INFO_MASK OFFSET_T_NATTS; omega), load_store]
  omega

theorem copyHeader_alike (tuple : HeapTuple) {natts : Nat} (hnatts : formed.tNatts = natts) (hlt : natts < 2 ^ 16) :
    Alike (copyHeader tuple formed natts) formed := by
  have hflag : ∀ i, i < 8 → (copyHeader tuple formed natts).tInfoMask &&& 2 ^ i =
      formed.tInfoMask &&& 2 ^ i := by
    intro i hi
    rw [copyHeader_tInfoMask, Nat.and_two_pow, Nat.and_two_pow, Nat.testBit_mod_two_pow,
      decide_eq_true hi, Bool.true_and]
  refine ⟨rfl, rfl, ?_, ?_, ?_, fun a ha => ?_⟩
  · rw [hnatts]
    unfold copyHeader HeapTuple.tNatts
    dsimp only
    rw [load_store]
    exact Nat.mod_eq_of_lt hlt
  · exact congrArg (· == 0) (hflag 0 (by decide))
  · exact congrArg (· == 0) (hflag 1 (by decide))
  · unfold OFFSET_T_HOFF at ha
    unfold copyHeader OFFSET_T_INFO_MASK OFFSET_T_NATTS OFFSET_T_HOFF
    dsimp only
    rw [store_outside _ _ _ _ (by omega), store_outside _ _ _ _ (by omega),
      write_outside _ _ _ _ (by omega)]

theorem copyHeader_header (natts : Nat) {i : Nat} (hi : i < OFFSET_T_NATTS) :
    (copyHeader tuple formed natts).mem ((copyHeader tuple formed natts).tData + i) =
      tuple.mem (tuple.tData + i) := by
  unfold OFFSET_T_NATTS at hi
  unfold copyHeader OFFSET_T_INFO_MASK OFFSET_T_NATTS OFFSET_T_HOFF
  dsimp only
  rw [store_outside _ _ _ _ (by omega), store_outside _ _ _ _ (by omega),
    write_inside _ _ _ _ (by omega)]

/-! ## The whole function -/

/-- It returns a tuple as it should be, with all the flags `heap_form_tuple` set. -/
def Modifies (raw : Mem) (chunk : Nat) (tuple : HeapTuple) (relation : Relation)
    (replValue : Nat → Datum) (replNull repl : Nat → Char) (arrays : Arrays) : Prop :=
  ∃ t cache' formed,
    heapModifyTuple raw chunk tuple relation replValue replNull repl arrays = .ok (t, cache') ∧
    Formed raw chunk tuple relation replValue replNull repl arrays.cache formed ∧
    Modified tuple relation replValue replNull repl arrays.cache t ∧ t.tInfoMask = formed.tInfoMask

/-- The flag `HEAP_XMAX_INVALID` is always lost. -/
theorem not_modifies (arrays : Arrays) :
    ¬ Modifies raw chunk tuple relation replValue replNull repl arrays := by
  rintro ⟨t, cache', formed, hrun, ⟨_, _, -, hformed⟩, -, hflags⟩
  obtain ⟨r, -, hrest⟩ := bind_eq_ok hrun
  obtain ⟨newTuple, -, hret⟩ := bind_eq_ok hrest
  obtain ⟨rfl, -⟩ := Prod.mk.inj (Except.ok.inj hret)
  have hset := heapFormTuple_xmaxInvalid hformed
  rw [← hflags, copyHeader_tInfoMask, Nat.testBit_mod_two_pow] at hset
  cases hset

/-- The arrays of a well-formed call are such as `heap_form_tuple` is promised. -/
theorem ModifyInput.formInput {arrays : Arrays}
    (hin : ModifyInput chunk tuple relation replValue replNull repl cache)
    (h : ∀ i, i < relation.relnatts →
      arrays.value i = newValue tuple relation.rdAtt replValue repl cache i ∧
      arrays.nulls i = newNull tuple relation.rdAtt replNull repl cache i) :
    FormInput tuple.mem chunk relation.rdAtt arrays.value arrays.nulls := by
  rw [← relation.natts_eq] at h
  have hpos := hin.natts_pos
  have hle := hin.natts_le
  rw [← relation.natts_eq] at hpos hle
  refine ⟨hpos, hle, fun i hi => ?_, fun i hi hval hlen => ?_, hin.aligned⟩
  · rw [(h i hi).2, newNull]
    rcases hin.marks i (relation.natts_eq ▸ hi) with hold | ⟨hnew, hmark⟩
    · rw [if_neg (by rw [hold]; decide)]
      split
      · exact .inr rfl
      · exact .inl rfl
    · rw [if_pos hnew]
      exact hmark
  · rw [(h i hi).2] at hval
    rw [(h i hi).1]
    exact hin.varlena i (relation.natts_eq ▸ hi) hval hlen

/-- A tuple that `heap_modify_tuple` returns is as it should be but for the flags, of which
it has the low byte only; so it never is all it should be. -/
theorem heap_modify_tuple_never (raw : Mem) (chunk : Nat) (tuple : HeapTuple) (relation : Relation)
    (replValue : Nat → Datum) (replNull repl : Nat → Char) (arrays : Arrays) :
    ¬ Modifies raw chunk tuple relation replValue replNull repl arrays ∧
    (ModifyInput chunk tuple relation replValue replNull repl arrays.cache → ∀ t cache',
      heapModifyTuple raw chunk tuple relation replValue replNull repl arrays = .ok (t, cache') →
      ∃ formed, Formed raw chunk tuple relation replValue replNull repl arrays.cache formed ∧
        Modified tuple relation replValue replNull repl arrays.cache t ∧
        t.tInfoMask = formed.tInfoMask % 2 ^ 8) := by
  refine ⟨not_modifies arrays, fun hin t cache' hrun => ?_⟩
  obtain ⟨r, hr, hrest⟩ := bind_eq_ok hrun
  obtain ⟨formed, hformed, hret⟩ := bind_eq_ok hrest
  obtain ⟨rfl, rfl⟩ := Prod.mk.inj (Except.ok.inj hret)
  obtain ⟨r', hr', -, harrays⟩ := fillArrays_spec hin.wellFormed hin.cacheOk relation.relnatts 0 arrays
    hin.cacheOk (fun j hj => (hin.marks j (by omega)).imp_right And.left)
    (fun j hj => absurd hj (Nat.not_lt_zero j))
  obtain rfl := Except.ok.inj (hr'.symm.trans hr)
  rw [Nat.zero_add] at harrays
  have hform := hin.formInput harrays
  refine ⟨formed, ⟨_, _, harrays, hformed⟩, ?_, copyHeader_tInfoMask _⟩
  rcases heapFormTuple_cases raw hform with ⟨-, _, he⟩ | ⟨-, -, he⟩ | ⟨-, t, he, hreads, hw, hnatts⟩
  · rw [he] at hformed
    cases hformed
  · rw [he] at hformed
    cases hformed
  · obtain rfl := Except.ok.inj (he.symm.trans hformed)
    have hoff : OFFSET_T_HOFF ≤ t.tHoff := by
      rw [hreads.hoff.1]
      exact Nat.le_trans (by decide) (headerLen_spec hform.natts_le _).2.1
    have hlt : relation.relnatts < 2 ^ 16 := Nat.lt_of_le_of_lt hin.natts_le (by decide)
    have halike := copyHeader_alike tuple (hnatts.trans relation.natts_eq) hlt
    refine ⟨(hreads.alike halike hw hnatts hoff).congr fun i hi => ?_, fun i hi => copyHeader_header _ hi⟩
    exact harrays i (relation.natts_eq ▸ hi)

end Reading

/-- Relations of an `int4` and a `text`. -/
def exampleRelation : Relation := ⟨2, exampleDesc, rfl⟩

/-- The text is to be replaced. -/
def replText (i : Nat) : Char := if i = 1 then 'r' else ' '

/-- Arrays nothing is in yet. -/
def blankArrays : Arrays := ⟨fun _ => 0, fun _ => ' ', emptyCache⟩

theorem modifyInput_example :
    ModifyInput 4096 exampleTuple exampleRelation (fun _ => 0) (fun _ => 'n') replText emptyCache :=
  ⟨⟨by decide, by decide, by decide, by decide⟩, cacheOk_emptyCache _, by decide, by decide, by decide,
    by decide, by decide⟩

/-- `(7, 'hi')` becomes `(7, NULL)`, with the old header. -/
theorem heap_modify_tuple_never_example : ∃ t cache',
    heapModifyTuple (fun _ => 0xFF) 4096 exampleTuple exampleRelation (fun _ => 0) (fun _ => 'n') replText
      blankArrays = .ok (t, cache') ∧
    Modified exampleTuple exampleRelation (fun _ => 0) (fun _ => 'n') replText emptyCache t := by
  obtain ⟨t, cache', hrun⟩ : ∃ t cache', heapModifyTuple (fun _ => 0xFF) 4096 exampleTuple exampleRelation
    (fun _ => 0) (fun _ => 'n') replText blankArrays = .ok (t, cache') := ⟨_, _, rfl⟩
  obtain ⟨-, -, hmodified, -⟩ := (heap_modify_tuple_never (fun _ => 0xFF) 4096 exampleTuple exampleRelation
    (fun _ => 0) (fun _ => 'n') replText blankArrays).2 modifyInput_example t cache' hrun
  exact ⟨t, cache', hrun, hmodified⟩

/-- Its flags are `HEAP_HASNULL` alone, `heap_form_tuple` sets `HEAP_XMAX_INVALID` too. -/
theorem heap_modify_tuple_loses_flag :
    ModifyInput 4096 exampleTuple exampleRelation (fun _ => 0) (fun _ => 'n') replText emptyCache ∧
    (∃ t cache', heapModifyTuple (fun _ => 0xFF) 4096 exampleTuple exampleRelation (fun _ => 0)
      (fun _ => 'n') replText blankArrays = .ok (t, cache') ∧ t.tInfoMask = HEAP_HASNULL) ∧
    (∃ formed, Formed (fun _ => 0xFF) 4096 exampleTuple exampleRelation (fun _ => 0) (fun _ => 'n') replText
      emptyCache formed ∧ formed.tInfoMask = HEAP_HASNULL ||| HEAP_XMAX_INVALID) ∧
    ¬ Modifies (fun _ => 0xFF) 4096 exampleTuple exampleRelation (fun _ => 0) (fun _ => 'n') replText
      blankArrays :=
  ⟨modifyInput_example, ⟨_, _, rfl, by decide⟩,
    ⟨_, ⟨_, _, fun _ _ => ⟨rfl, rfl⟩, rfl⟩, by decide⟩, not_modifies _⟩

end PostgresV7.Heap
