import PostgresV7.HeapTuple.Walk

/-!
# Fetching keeps the cache right

One lemma for each loop of `no_cache_get_attr`, then the function, the macro and
a whole history of fetches. A fetch from one tuple may cache offsets that a later
fetch from another tuple relies on; `CacheOk` does not mention any tuple.
-/

namespace PostgresV7.Heap

open ByteMem Align

theorem CacheOk.eq {desc : TupleDesc} {cache : AttCache} (hc : CacheOk desc cache) {j : Nat}
    (h : cache j ≠ -1) : cache j = fixedOffset desc j ∧ FixedBefore desc j :=
  (hc j).resolve_left h

theorem CacheOk.update {desc : TupleDesc} {cache : AttCache} (hc : CacheOk desc cache) {j : Nat}
    (hj : FixedBefore desc j) : CacheOk desc (Function.update cache j (fixedOffset desc j)) := by
  intro i
  by_cases hi : i = j
  · subst hi
    rw [Function.update_self]
    exact Or.inr ⟨rfl, hj⟩
  · rw [Function.update_of_ne hi]
    exact hc i

/-- A cached offset is where the walk finds the attribute, in every tuple with no
null before it. -/
theorem CacheOk.attOffset {desc : TupleDesc} {t : HeapTuple} {cache : AttCache}
    (hc : CacheOk desc cache) {j : Nat} (h : cache j ≠ -1)
    (hnull : ∀ i, i < j → t.isNull i = false) : cache j = attOffset desc t j := by
  obtain ⟨heq, hfixed⟩ := hc.eq h
  rw [heq, attOffset_eq_fixedOffset hnull hfixed]

/-! ## The loop without nulls and varlenas -/

/-- What is known about the attributes `[0, j)` when none is null or varlena. -/
def PlainBefore (desc : TupleDesc) (t : HeapTuple) (j : Nat) : Prop :=
  ∀ i, i < j → t.isNull i = false ∧ 0 < (desc.att i).attlen

theorem PlainBefore.succ {desc : TupleDesc} {t : HeapTuple} {j : Nat} (h : PlainBefore desc t j)
    (hnull : t.isNull j = false) (hlen : 0 < (desc.att j).attlen) : PlainBefore desc t (j + 1) := by
  intro i hi
  rcases Nat.lt_succ_iff_lt_or_eq.mp hi with hlt | rfl
  · exact h i hlt
  · exact ⟨hnull, hlen⟩

theorem PlainBefore.mono {desc : TupleDesc} {t : HeapTuple} {i j : Nat} (h : PlainBefore desc t j)
    (hij : i ≤ j) : PlainBefore desc t i := fun k hk => h k (by omega)

theorem PlainBefore.attOffset {desc : TupleDesc} {t : HeapTuple} {j : Nat}
    (h : PlainBefore desc t j) : attOffset desc t j = fixedOffset desc j :=
  attOffset_eq_fixedOffset (fun i hi => (h i hi).1) fun i hi => (h i hi).2

theorem skipCached_spec (cache : AttCache) (k j : Nat) :
    j ≤ skipCached cache k j ∧ skipCached cache k j ≤ j + k ∧
    ∀ i, j ≤ i → i < skipCached cache k j → 0 < cache i := by
  induction k generalizing j with
  | zero => exact ⟨Nat.le_refl j, Nat.le_refl j, fun i h1 h2 => absurd h2 (by rw [skipCached]; omega)⟩
  | succ k ih =>
    rw [skipCached]
    by_cases hpos : cache j > 0
    · obtain ⟨h1, h2, h3⟩ := ih (j + 1)
      rw [if_pos hpos]
      refine ⟨by omega, by omega, fun i hi hlt => ?_⟩
      by_cases hij : i = j
      · subst hij
        exact hpos
      · exact h3 i (by omega) hlt
    · rw [if_neg hpos]
      exact ⟨Nat.le_refl j, by omega, fun i h1 h2 => absurd h2 (by omega)⟩

/-- The loop caches fixed offsets only, and the one of `attnum` among them. -/
theorem cacheOffsets_spec {desc : TupleDesc} {t : HeapTuple} {attnum : Nat}
    (hw : WellFormed desc t) (hn : attnum < t.tNatts) (hplain : PlainBefore desc t (attnum + 1))
    (k j : Nat) (cache : AttCache) (hc : CacheOk desc cache) (hj : PlainBefore desc t j)
    (hk : attnum < j + k) (hdone : attnum < j → cache attnum = fixedOffset desc attnum) :
    CacheOk desc (cacheOffsets desc t attnum k j (fixedStop desc j) cache) ∧
    cacheOffsets desc t attnum k j (fixedStop desc j) cache attnum = fixedOffset desc attnum := by
  induction k generalizing j cache with
  | zero => exact ⟨hc, hdone (by omega)⟩
  | succ k ih =>
    rw [cacheOffsets]
    by_cases hcond : j ≤ attnum ∨ (j < t.tNatts ∧ cache j = -1 ∧
        (t.noNulls = true ∨ attIsNull j t.tBits = false) ∧
        (t.allFixed = true ∨ (desc.att j).attlen > 0))
    · have hjn : j < t.tNatts := by omega
      -- attribute `j` is there and of fixed length, whichever side of the test let it in
      have hhere : t.isNull j = false ∧ 0 < (desc.att j).attlen := by
        rcases hcond with hle | ⟨-, -, hnull, hlen⟩
        · exact hplain j (by omega)
        · have hnj : t.isNull j = false := by
            unfold HeapTuple.isNull
            rcases hnull with h | h <;> simp [h]
          refine ⟨hnj, ?_⟩
          rcases hlen with h | h
          · exact hw.fixed h j hjn hnj
          · exact h
      have hoff : attAlign (fixedStop desc j) (desc.att j).attalign = fixedOffset desc j :=
        attAlign_natCast _ _
      have hint : toInt32 (fixedOffset desc j) = fixedOffset desc j := by
        apply toInt32_natCast
        rw [← hj.attOffset]
        exact (attOffset_lt hw hjn hhere.1).trans (by decide)
      have hadd : attAddLength (fixedOffset desc j) (desc.att j).attlen
          (varattSize t.mem (t.tData + t.tHoff + (fixedOffset desc j : Int)).toNat) =
          fixedStop desc (j + 1) := by
        rw [attAddLength_natCast (desc.valid j), attSize_of_fixed _ _ hhere.2, fixedStop_succ]
      rw [if_pos hcond]
      simp only [hoff, hint, hadd]
      have hfixed : FixedBefore desc j := fun i hi => (hj i hi).2
      refine ih (j + 1) _ (hc.update hfixed) (hj.succ hhere.1 hhere.2) (by omega) fun _ => ?_
      by_cases hja : attnum = j
      · subst hja
        exact Function.update_self _ _ _
      · rw [Function.update_of_ne hja]
        exact hdone (by omega)
    · rw [if_neg hcond]
      exact ⟨hc, hdone (by omega)⟩

/-! ## The careful walk -/

/-- The walk computes the plain offsets; while it may use the cache, it also
fills it with fixed ones. -/
theorem walkTuple_spec {desc : TupleDesc} {t : HeapTuple} (hw : WellFormed desc t)
    (k i : Nat) (usecache : Bool) (cache : AttCache) (hn : i + k ≤ t.tNatts)
    (hc : CacheOk desc cache) (huse : usecache = true → PlainBefore desc t i) :
    (walkTuple desc t k i (walkStop desc t i) usecache cache).1 = walkStop desc t (i + k) ∧
    CacheOk desc (walkTuple desc t k i (walkStop desc t i) usecache cache).2 := by
  induction k generalizing i usecache cache with
  | zero => exact ⟨rfl, hc⟩
  | succ k ih =>
    rw [walkTuple, show i + (k + 1) = i + 1 + k by omega]
    by_cases hnull : t.noNulls = false ∧ attIsNull i t.tBits = true
    · have hni : t.isNull i = true := by
        unfold HeapTuple.isNull
        simp [hnull.1, hnull.2]
      rw [if_pos hnull, ← walkStop_of_isNull desc hni]
      exact ih (i + 1) false cache (by omega) hc fun h => absurd h (by decide)
    · have hni : t.isNull i = false := by
        unfold HeapTuple.isNull
        cases hb : t.noNulls with
        | true => rfl
        | false =>
          rw [Bool.not_false, Bool.true_and]
          by_contra hne
          exact hnull ⟨hb, by simpa using hne⟩
      have hlt := attOffset_lt hw (show i < t.tNatts by omega) hni
      have hstop := walkStop_lt hw (show i < t.tNatts by omega)
      -- cached or computed, the offset is the plain one
      have hoff : (if usecache = true ∧ cache i ≠ -1 then cache i
          else toInt32 (attAlign (walkStop desc t i) (desc.att i).attalign)) = attOffset desc t i := by
        by_cases hknown : usecache = true ∧ cache i ≠ -1
        · rw [if_pos hknown]
          exact hc.attOffset hknown.2 fun j hj => (huse hknown.1 j hj).1
        · rw [if_neg hknown, attAlign_natCast, ← attOffset_eq]
          exact toInt32_natCast (by omega)
      have hptr : ((t.tData + t.tHoff + (attOffset desc t i : Int) : Int)).toNat =
          t.dataStart + attOffset desc t i := by
        unfold HeapTuple.dataStart
        omega
      have hadd : toInt32 (attAddLength (attOffset desc t i) (desc.att i).attlen
          (varattSize t.mem ((t.tData + t.tHoff + (attOffset desc t i : Int) : Int)).toNat)) =
          walkStop desc t (i + 1) := by
        rw [hptr, attAddLength_natCast (desc.valid i), ← walkStop_succ hni]
        exact toInt32_natCast (by omega)
      have hcache : CacheOk desc (if usecache = true ∧ ¬(usecache = true ∧ cache i ≠ -1)
          then Function.update cache i (attOffset desc t i : Int) else cache) := by
        by_cases hset : usecache = true ∧ ¬(usecache = true ∧ cache i ≠ -1)
        · rw [if_pos hset, (huse hset.1).attOffset]
          exact hc.update fun j hj => (huse hset.1 j hj).2
        · rw [if_neg hset]
          exact hc
      rw [if_neg hnull]
      simp only [hoff, hadd]
      refine ih (i + 1) _ _ (by omega) hcache fun hu => ?_
      rw [Bool.and_eq_true, bne_iff_ne] at hu
      exact (huse hu.1).succ hni ((desc.valid i).len.resolve_right hu.2)

/-! ## One fetch -/

/-- `slow` is computed right: if it stays false, no earlier attribute is null. -/
theorem not_slow_iff (t : HeapTuple) (attnum : Nat) :
    (if t.noNulls then false else nullsBefore t.tBits attnum) = false ↔
      ∀ i, i < attnum → t.isNull i = false := by
  unfold HeapTuple.isNull
  cases t.noNulls with
  | true => simp
  | false =>
    rw [if_neg Bool.false_ne_true, Bool.eq_false_iff, Ne, nullsBefore_iff]
    simp

/-- `no_cache_get_attr` on an attribute that is not null: the plain datum, and
a cache that is still right. -/
theorem noCacheGetAttr_spec {desc : TupleDesc} {t : HeapTuple} {cache : AttCache} {attnum : Nat}
    (hw : WellFormed desc t) (hc : CacheOk desc cache) (h1 : 1 ≤ attnum) (hn : attnum ≤ t.tNatts)
    (hnull : t.isNull (attnum - 1) = false) :
    (noCacheGetAttr desc t attnum cache).1 = fetchAtt t.mem (desc.att (attnum - 1))
      (t.dataStart + attOffset desc t (attnum - 1)) ∧
    CacheOk desc (noCacheGetAttr desc t attnum cache).2 := by
  obtain ⟨a, rfl⟩ : ∃ a, attnum = a + 1 := ⟨attnum - 1, by omega⟩
  rw [Nat.add_sub_cancel] at hnull ⊢
  have hlt := attOffset_lt hw hn hnull
  have hptr : ((t.tData + t.tHoff : Int) + (attOffset desc t a : Int)).toNat =
      t.dataStart + attOffset desc t a := by
    unfold HeapTuple.dataStart
    omega
  have hslow := not_slow_iff t a
  unfold noCacheGetAttr
  simp only [Nat.add_sub_cancel]
  generalize hs : (if t.noNulls then false else nullsBefore t.tBits a) = slow at hslow
  by_cases hfast : slow = false ∧ cache a ≠ -1
  · rw [if_pos hfast, hc.attOffset hfast.2 (hslow.mp hfast.1), hptr]
    exact ⟨rfl, hc⟩
  · rw [if_neg hfast]
    by_cases hwalk : (slow || (!t.allFixed &&
        (List.range (a + 1)).any (fun j => decide ((desc.att j).attlen ≤ 0)))) = false
    · -- no nulls before the attribute, no varlena up to it
      rw [if_pos hwalk]
      rw [Bool.or_eq_false_iff] at hwalk
      have hplain : PlainBefore desc t (a + 1) := by
        intro i hi
        have hni : t.isNull i = false := by
          rcases Nat.lt_succ_iff_lt_or_eq.mp hi with h | rfl
          · exact hslow.mp hwalk.1 i h
          · exact hnull
        refine ⟨hni, ?_⟩
        cases hall : t.allFixed with
        | true => exact hw.fixed hall i (by omega) hni
        | false =>
          have hany := hwalk.2
          rw [hall, Bool.not_false, Bool.true_and, List.any_eq_false] at hany
          have hpos := hany i (List.mem_range.mpr hi)
          simpa using hpos
      have hc0 : CacheOk desc (Function.update cache 0 0) := by
        have hz := hc.update (j := 0) fun i hi => absurd hi (Nat.not_lt_zero i)
        rwa [fixedOffset_zero] at hz
      obtain ⟨hj1, hj2, hpos⟩ := skipCached_spec (Function.update cache 0 0) (a - 1) 1
      generalize skipCached (Function.update cache 0 0) (a - 1) 1 = j at hj1 hj2 hpos ⊢
      have hprev : Function.update cache 0 0 (j - 1) = fixedOffset desc (j - 1) := by
        by_cases hj : j = 1
        · rw [hj, Nat.sub_self, Function.update_self, fixedOffset_zero]
          rfl
        · have hp := hpos (j - 1) (by omega) (by omega)
          exact (hc0.eq (by omega)).1
      have hoff : Function.update cache 0 0 (j - 1) + (desc.att (j - 1)).attlen =
          fixedStop desc j := by
        have hlen := (hplain (j - 1) (by omega)).2
        obtain ⟨i, rfl⟩ : ∃ i, j = i + 1 := ⟨j - 1, by omega⟩
        rw [Nat.add_sub_cancel] at hprev hlen ⊢
        rw [hprev, fixedStop_succ]
        push_cast
        omega
      have hdone : a < j → Function.update cache 0 0 a = fixedOffset desc a := by
        intro haj
        have ha : a = 0 := by omega
        rw [ha, Function.update_self, fixedOffset_zero]
        rfl
      have hspec := cacheOffsets_spec hw hn hplain (max (a + 1) t.tNatts - j) j _ hc0
        (hplain.mono (by omega)) (by omega) hdone
      rw [hoff]
      refine ⟨?_, hspec.1⟩
      rw [hspec.2, ← (hplain.mono (Nat.le_succ a)).attOffset, hptr]
    · rw [if_neg hwalk]
      have hspec := walkTuple_spec hw a 0 true cache (by omega) hc
        fun _ i hi => absurd hi (Nat.not_lt_zero i)
      rw [show walkStop desc t 0 = 0 from rfl, Nat.zero_add] at hspec
      refine ⟨?_, hspec.2⟩
      have hfirst : (walkTuple desc t a 0 0 true cache).1 = walkStop desc t a := hspec.1
      rw [hfirst, attAlign_natCast, ← attOffset_eq, toInt32_natCast (by omega), hptr]

/-- `FAST_GET_ATTR` on any attribute of the tuple. -/
theorem fastGetAttr_spec {desc : TupleDesc} {t : HeapTuple} {cache : AttCache} {attnum : Nat}
    (hw : WellFormed desc t) (hc : CacheOk desc cache) (h1 : 1 ≤ attnum) (hn : attnum ≤ t.tNatts) :
    ((fastGetAttr desc t attnum cache).datum, (fastGetAttr desc t attnum cache).isnull) =
      plainGetAttr desc t attnum ∧
    CacheOk desc (fastGetAttr desc t attnum cache).cache := by
  have hplain : t.isNull (attnum - 1) = false → plainGetAttr desc t attnum =
      (fetchAtt t.mem (desc.att (attnum - 1)) (t.dataStart + attOffset desc t (attnum - 1)), false) :=
    fun h => by rw [plainGetAttr, if_neg (by simp [h])]
  unfold fastGetAttr
  cases hno : t.noNulls with
  | true =>
    have hnone : ∀ i, t.isNull i = false := fun i => by simp [HeapTuple.isNull, hno]
    rw [if_pos rfl, hplain (hnone _)]
    by_cases hcached : cache (attnum - 1) ≥ 0
    · have hptr : (t.tData + t.tHoff + (attOffset desc t (attnum - 1) : Int)).toNat =
          t.dataStart + attOffset desc t (attnum - 1) := by
        unfold HeapTuple.dataStart
        omega
      rw [if_pos hcached, hc.attOffset (by omega) fun i _ => hnone i]
      exact ⟨by rw [hptr], hc⟩
    · obtain ⟨hd, hcache⟩ := noCacheGetAttr_spec hw hc h1 hn (hnone _)
      rw [if_neg hcached, ← hd]
      exact ⟨rfl, hcache⟩
  | false =>
    have hsame : t.isNull (attnum - 1) = attIsNull (attnum - 1) t.tBits := by
      simp [HeapTuple.isNull, hno]
    rw [if_neg Bool.false_ne_true]
    cases hnull : attIsNull (attnum - 1) t.tBits with
    | true =>
      rw [if_pos rfl, plainGetAttr, if_pos (by rw [hsame, hnull])]
      exact ⟨rfl, hc⟩
    | false =>
      rw [← hsame] at hnull
      obtain ⟨hd, hcache⟩ := noCacheGetAttr_spec hw hc h1 hn hnull
      rw [if_neg Bool.false_ne_true, hplain hnull, ← hd]
      exact ⟨rfl, hcache⟩

/-! ## Histories of fetches -/

/-- One fetch: through the macro, or by calling `no_cache_get_attr` itself. -/
structure Fetch where
  tuple : HeapTuple
  attnum : Nat
  viaMacro : Bool

/-- The caller's side: a valid attribute number, and `no_cache_get_attr` is only
called where the value is not null. -/
structure Fetch.Pre (desc : TupleDesc) (f : Fetch) : Prop where
  wellFormed : WellFormed desc f.tuple
  pos : 1 ≤ f.attnum
  le : f.attnum ≤ f.tuple.tNatts
  notNull : f.viaMacro = false → f.tuple.isNull (f.attnum - 1) = false

def Fetch.run (desc : TupleDesc) (cache : AttCache) (f : Fetch) : Fetched :=
  if f.viaMacro then fastGetAttr desc f.tuple f.attnum cache
  else
    let r := noCacheGetAttr desc f.tuple f.attnum cache
    { datum := r.1, isnull := false, cache := r.2 }

/-- What the fetches return, and the cache after the last one. -/
def fetchAll (desc : TupleDesc) : AttCache → List Fetch → List (Datum × Bool) × AttCache
  | cache, [] => ([], cache)
  | cache, f :: fs =>
    let r := f.run desc cache
    let rest := fetchAll desc r.cache fs
    ((r.datum, r.isnull) :: rest.1, rest.2)

theorem Fetch.run_spec {desc : TupleDesc} {cache : AttCache} {f : Fetch} (hf : f.Pre desc)
    (hc : CacheOk desc cache) :
    ((f.run desc cache).datum, (f.run desc cache).isnull) = plainGetAttr desc f.tuple f.attnum ∧
    CacheOk desc (f.run desc cache).cache := by
  unfold Fetch.run
  cases hm : f.viaMacro with
  | true => exact fastGetAttr_spec hf.wellFormed hc hf.pos hf.le
  | false =>
    have hnull := hf.notNull hm
    obtain ⟨hd, hcache⟩ := noCacheGetAttr_spec hf.wellFormed hc hf.pos hf.le hnull
    rw [if_neg Bool.false_ne_true]
    refine ⟨?_, hcache⟩
    rw [plainGetAttr, if_neg (by simp [hnull])]
    simp only [hd]

theorem fetchAll_spec {desc : TupleDesc} (fs : List Fetch) {cache : AttCache}
    (hc : CacheOk desc cache) (hfs : ∀ f ∈ fs, f.Pre desc) :
    (fetchAll desc cache fs).1 = fs.map (fun f => plainGetAttr desc f.tuple f.attnum) ∧
    CacheOk desc (fetchAll desc cache fs).2 := by
  induction fs generalizing cache with
  | nil => exact ⟨rfl, hc⟩
  | cons f fs ih =>
    obtain ⟨hr, hc'⟩ := Fetch.run_spec (hfs f List.mem_cons_self) hc
    obtain ⟨hrs, hcs⟩ := ih hc' fun g hg => hfs g (List.mem_cons_of_mem f hg)
    exact ⟨by rw [fetchAll, List.map_cons, ← hr, ← hrs], hcs⟩

/-- The cache of a fresh descriptor. -/
def emptyCache : AttCache := fun _ => -1

theorem cacheOk_emptyCache (desc : TupleDesc) : CacheOk desc emptyCache := fun _ => Or.inl rfl

/-- Any history of fetches from any tuples returns what the plain walk returns,
and leaves in the cache only offsets that hold for every tuple whose earlier
attributes are all there, all of them of fixed length. -/
theorem fetchAll_eq_plain (desc : TupleDesc) (fs : List Fetch) (hfs : ∀ f ∈ fs, f.Pre desc) :
    (fetchAll desc emptyCache fs).1 = fs.map (fun f => plainGetAttr desc f.tuple f.attnum) ∧
    ∀ j, (fetchAll desc emptyCache fs).2 j = -1 ∨
      (∀ i, i < j → 0 < (desc.att i).attlen) ∧
      ∀ t : HeapTuple, (∀ i, i < j → t.isNull i = false) →
        (fetchAll desc emptyCache fs).2 j = attOffset desc t j := by
  obtain ⟨hr, hc⟩ := fetchAll_spec fs (cacheOk_emptyCache desc) hfs
  refine ⟨hr, fun j => ?_⟩
  by_cases hj : (fetchAll desc emptyCache fs).2 j = -1
  · exact Or.inl hj
  · exact Or.inr ⟨(hc.eq hj).2, fun t hnull => hc.attOffset hj hnull⟩

/-- A descriptor of an `int4` and a `text`. -/
def exampleDesc : TupleDesc where
  natts := 2
  att i := if i = 0 then ⟨4, true, .int⟩ else ⟨-1, false, .int⟩
  valid i := by
    split
    · exact ⟨by decide, by decide, by decide⟩
    · exact ⟨by decide, by decide, by decide⟩

/-- The tuple `(7, 'hi')`. -/
def exampleTuple : HeapTuple where
  tLen := 42
  tSelf := itemPointerInvalid
  tTableOid := INVALID_OID
  tData := 0
  mem a := ([(26, 2), (28, 2), (30, 32), (32, 7), (36, 6), (40, 104), (41, 105)].lookup a).getD 0

/-- The text is walked to twice; the second time its offset is cached. -/
theorem fetchAll_eq_plain_example :
    (fetchAll exampleDesc emptyCache
      [⟨exampleTuple, 2, true⟩, ⟨exampleTuple, 1, true⟩, ⟨exampleTuple, 2, false⟩]).1 =
      [(36, false), (7, false), (36, false)] := by
  have hw : WellFormed exampleDesc exampleTuple :=
    ⟨by decide, by decide, by decide, by decide⟩
  have hfs : ∀ f ∈ [Fetch.mk exampleTuple 2 true, ⟨exampleTuple, 1, true⟩, ⟨exampleTuple, 2, false⟩],
      f.Pre exampleDesc := by
    intro f hf
    simp only [List.mem_cons, List.not_mem_nil, or_false] at hf
    rcases hf with rfl | rfl | rfl
    · exact ⟨hw, by decide, by decide, by decide⟩
    · exact ⟨hw, by decide, by decide, by decide⟩
    · exact ⟨hw, by decide, by decide, by decide⟩
  rw [(fetchAll_eq_plain exampleDesc _ hfs).1]
  decide

end PostgresV7.Heap
