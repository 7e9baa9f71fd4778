import PostgresV7.HeapTuple.Copy
import PostgresV7.Lib.Outcomes

/-!
# Hash buckets of a catalog cache (`catcache.c`, `fmgr.c`)

A row enters the bucket that its own bytes hash to, and is searched for in the bucket that the keys
of the search hash to. These have to be the same bucket.
-/

namespace PostgresV7.Catcache

open ByteMem Heap Outcomes

/-- A function called through the manager: what it returns for an argument, and whether it set `is_null`.
It may follow the argument into memory. -/
abbrev PGFunction := Mem → Datum → Datum × Bool

inductive CacheFault where
  | elog (message : String)
  | assertion
  deriving DecidableEq, Repr

/-- What hashing reads of a `CatCache`; `ccSkey` are the arguments in its scan keys. -/
structure CatCache where
  ccTupDesc : TupleDesc
  ccSize : Int
  ccNkeys : Int
  ccKey : Nat → Int
  ccHashFunc : Nat → PGFunction
  ccSkey : Nat → Datum

def OBJECT_ID_ATTRIBUTE_NUMBER : Int := -2

/-- `DATUM_GET_UINT32`. -/
def datumGetUint32 (x : Datum) : UInt32 := UInt32.ofNat (x &&& 0xffffffff)

/-- `OBJECT_ID_GET_DATUM`. -/
def objectIdGetDatum (x : Nat) : Datum := x &&& 0xffffffff

/-- `t_oid`, the first field of the header. -/
def tOid (t : HeapTuple) : Nat := load t.mem t.tData 4

/-- `direct_function_call1`. -/
def directFunctionCall1 (func : PGFunction) (m : Mem) (arg1 : Datum) : Except CacheFault Datum :=
  let (result, isNull) := func m arg1
  if isNull then .error (.elog "%s: function %p returned NULL") else .ok result

/-- The cases of the first switch from `case n` down; key `i` is shifted by `3 * i`. -/
def hashKeys (cache : CatCache) (m : Mem) (curSkey : Nat → Datum) : Nat → UInt32 → Except CacheFault UInt32
  | 0, hashIndex => .ok hashIndex
  | n + 1, hashIndex => do
    let hash ← directFunctionCall1 (cache.ccHashFunc n) m (curSkey n)
    hashKeys cache m curSkey n (hashIndex ^^^ (datumGetUint32 hash <<< UInt32.ofNat (3 * n)))

/-- `catalog_cache_compute_hash_index`. -/
def catalogCacheComputeHashIndex (cache : CatCache) (m : Mem) (curSkey : Nat → Datum) :
    Except CacheFault UInt32 := do
  if 1 ≤ cache.ccNkeys ∧ cache.ccNkeys ≤ 4 then
    let hashIndex ← hashKeys cache m curSkey cache.ccNkeys.toNat 0
    .ok (hashIndex % UInt32.ofInt cache.ccSize)
  else .error (.elog "%s: %d cc_nkeys")

/-- The `sk_argument` of one key, with the assertions on it. -/
def keyArgument (cache : CatCache) (tuple : HeapTuple) (key : Int) (attCache : AttCache) :
    Except CacheFault (Datum × AttCache) :=
  if key = OBJECT_ID_ATTRIBUTE_NUMBER then .ok (objectIdGetDatum (tOid tuple), attCache)
  else if key ≤ 0 then .error .assertion
  else
    let r := fastGetAttr cache.ccTupDesc tuple key.toNat attCache
    if r.isnull then .error .assertion else .ok (r.datum, r.cache)

/-- The cases of the second switch from `case n` down. -/
def extractKeys (cache : CatCache) (tuple : HeapTuple) :
    Nat → (Nat → Datum) → AttCache → Except CacheFault ((Nat → Datum) × AttCache)
  | 0, curSkey, attCache => .ok (curSkey, attCache)
  | n + 1, curSkey, attCache => do
    let (argument, attCache) ← keyArgument cache tuple (cache.ccKey n) attCache
    extractKeys cache tuple n (Function.update curSkey n argument) attCache

/-- `catalog_cache_compute_tuple_hash_index`. -/
def catalogCacheComputeTupleHashIndex (cache : CatCache) (tuple : HeapTuple) (attCache : AttCache) :
    Except CacheFault (UInt32 × AttCache) := do
  if 1 ≤ cache.ccNkeys ∧ cache.ccNkeys ≤ 4 then
    let (curSkey, attCache) ← extractKeys cache tuple cache.ccNkeys.toNat cache.ccSkey attCache
    let hashIndex ← catalogCacheComputeHashIndex cache tuple.mem curSkey
    .ok (hashIndex, attCache)
  else .error (.elog "%s: %d cc_nkeys")

/-! ## Keys and their hash functions -/

/-- The same value of a type: equal up to the width, or the same bytes. -/
def SameKey (a : FormPgAttribute) (m : Mem) (d : Datum) (m' : Mem) (d' : Datum) : Prop :=
  if a.attbyval then d % 2 ^ (8 * a.attlen.toNat) = d' % 2 ^ (8 * a.attlen.toNat)
  else attSize m a d = attSize m' a d' ∧ slice m d (attSize m a d) = slice m' d' (attSize m a d)

/-- A hash function looks at the value, not at where it is. -/
def HashesValue (func : PGFunction) (a : FormPgAttribute) : Prop :=
  ∀ m d m' d', SameKey a m d m' d' → func m d = func m' d'

/-- An `oid`. -/
def oidAttribute : FormPgAttribute := ⟨4, true, .int⟩

/-- The type of a key. -/
def CatCache.keyAttribute (cache : CatCache) (i : Nat) : FormPgAttribute :=
  if cache.ccKey i = OBJECT_ID_ATTRIBUTE_NUMBER then oidAttribute
  else cache.ccTupDesc.att (cache.ccKey i - 1).toNat

/-- The keys are the oid and attributes that are not null in the row. -/
def CatCache.HasKeys (cache : CatCache) (nulls : Nat → Char) : Prop :=
  ∀ i, i < cache.ccNkeys.toNat → cache.ccKey i = OBJECT_ID_ATTRIBUTE_NUMBER ∨
    ∃ j < cache.ccTupDesc.natts, cache.ccKey i = (j : Int) + 1 ∧ nulls j = ' '

/-- The search is for the row: its arguments are the oid and the values the row was made of. -/
def CatCache.SearchesFor (cache : CatCache) (m : Mem) (curSkey : Nat → Datum) (src : Mem)
    (value : Nat → Datum) (oid : Nat) : Prop :=
  ∀ i, i < cache.ccNkeys.toNat → SameKey (cache.keyAttribute i) m (curSkey i) src
    (if cache.ccKey i = OBJECT_ID_ATTRIBUTE_NUMBER then oid else value (cache.ccKey i - 1).toNat)

variable {a : FormPgAttribute} {m m' m'' : Mem} {d d' d'' : Datum}

theorem SameKey.symm (h : SameKey a m d m' d') : SameKey a m' d' m d := by
  unfold SameKey at h ⊢
  by_cases hbyval : a.attbyval = true
  · rw [if_pos hbyval] at h ⊢
    exact Eq.symm h
  · rw [if_neg hbyval] at h ⊢
    exact ⟨h.1.symm, h.1 ▸ h.2.symm⟩

theorem SameKey.trans (h : SameKey a m d m' d') (h' : SameKey a m' d' m'' d'') : SameKey a m d m'' d'' := by
  unfold SameKey at h h' ⊢
  by_cases hbyval : a.attbyval = true
  · rw [if_pos hbyval] at h h' ⊢
    exact Eq.trans h h'
  · rw [if_neg hbyval] at h h' ⊢
    exact ⟨h.1.trans h'.1, h.2.trans (h.1 ▸ h'.2)⟩

/-- What a formed tuple gives for an attribute is the value it was formed of. -/
theorem sameKey_of_sameValue {src : Mem} {t : HeapTuple} {value datum : Datum}
    (hfour : a.attlen = -1 → 4 ≤ varattSize src value) (h : SameValue src t a value datum) :
    SameKey a t.mem datum src value := by
  unfold SameValue at h
  unfold SameKey
  by_cases hbyval : a.attbyval = true
  · rw [if_pos hbyval] at h ⊢
    rw [h, Nat.mod_mod]
  · rw [if_neg hbyval] at h ⊢
    have hsize := attSize_of_slice hfour h
    exact ⟨hsize, hsize ▸ h⟩

theorem objectIdGetDatum_eq (x : Nat) : objectIdGetDatum x = x % 2 ^ 32 := Nat.and_two_pow_sub_one_eq_mod x 32

/-! ## The two functions -/

variable {cache : CatCache} {t : HeapTuple} {args args' : Nat → Datum} {n : Nat} {attCache : AttCache}

theorem hashKeys_congr (h : ∀ i, i < n → cache.ccHashFunc i m (args i) = cache.ccHashFunc i m' (args' i))
    (hashIndex : UInt32) : hashKeys cache m args n hashIndex = hashKeys cache m' args' n hashIndex := by
  induction n generalizing hashIndex with
  | zero => rfl
  | succ n ih =>
    have hhere : directFunctionCall1 (cache.ccHashFunc n) m (args n) =
        directFunctionCall1 (cache.ccHashFunc n) m' (args' n) := by
      unfold directFunctionCall1
      rw [h n (Nat.lt_succ_self n)]
    rw [hashKeys, hashKeys, hhere]
    exact bind_congr fun hash => ih (fun i hi => h i (Nat.lt_succ_of_lt hi)) _

/-- The bucket is there. -/
theorem hash_index_lt (hsize : 0 < cache.ccSize) (hshort : cache.ccSize < 2 ^ 15) {index : UInt32}
    (h : catalogCacheComputeHashIndex cache m args = .ok index) : (index.toNat : Int) < cache.ccSize := by
  unfold catalogCacheComputeHashIndex at h
  split at h
  · obtain ⟨hash, -, hmod⟩ := bind_eq_ok h
    rw [← Except.ok.inj hmod, UInt32.toNat_mod]
    have hof : (UInt32.ofInt cache.ccSize).toNat = cache.ccSize.toNat := by
      rw [UInt32.ofInt, UInt32.toNat_ofNat']
      omega
    have hlt := Nat.mod_lt hash.toNat (show 0 < (UInt32.ofInt cache.ccSize).toNat by omega)
    omega
  · exact nomatch h

section

variable {src raw : Mem} {chunk : Nat} {value : Nat → Datum} {nulls : Nat → Char} {t₀ : HeapTuple}
  (hin : FormInput src chunk cache.ccTupDesc value nulls)
  (hform : heapFormTuple src raw chunk cache.ccTupDesc value nulls = .ok t₀) (hsame : SameBytes t₀ t)

include hin hform hsame

/-- One key is taken from the row. -/
theorem keyArgument_spec {i : Nat} (hcache : CacheOk cache.ccTupDesc attCache)
    (hkey : cache.ccKey i = OBJECT_ID_ATTRIBUTE_NUMBER ∨
      ∃ j < cache.ccTupDesc.natts, cache.ccKey i = (j : Int) + 1 ∧ nulls j = ' ') :
    ∃ argument attCache', keyArgument cache t (cache.ccKey i) attCache = .ok (argument, attCache') ∧
      CacheOk cache.ccTupDesc attCache' ∧ SameKey (cache.keyAttribute i) t.mem argument src
        (if cache.ccKey i = OBJECT_ID_ATTRIBUTE_NUMBER then tOid t else value (cache.ccKey i - 1).toNat) := by
  unfold keyArgument CatCache.keyAttribute
  by_cases hoid : cache.ccKey i = OBJECT_ID_ATTRIBUTE_NUMBER
  · rw [if_pos hoid, if_pos hoid, if_pos hoid]
    refine ⟨_, _, rfl, hcache, ?_⟩
    rw [SameKey, oidAttribute, if_pos rfl, objectIdGetDatum_eq]
    exact Nat.mod_mod _ _
  · obtain ⟨j, hj, hkey, hval⟩ := hkey.resolve_left hoid
    obtain ⟨hc, hnatts, -⟩ := formed_complete hin hform
    have hreads := (formed_readsBack hin hform).moved hin hc hnatts hsame
    have htnatts : j + 1 ≤ t.tNatts := by
      rw [hc.tNatts_eq hsame, hnatts]
      exact hj
    have hget : heapGetAttr cache.ccTupDesc t (j + 1) attCache = fastGetAttr cache.ccTupDesc t (j + 1) attCache :=
      if_neg (Nat.not_lt.mpr htnatts)
    have hnull := hreads.isnull attCache hcache j hj
    have hdatum := hreads.datum attCache hcache j hj hval
    rw [hget, hval] at hnull
    rw [hget] at hdatum
    have hnotnull : ¬ (fastGetAttr cache.ccTupDesc t (j + 1) attCache).isnull = true := fun h =>
      absurd (hnull.mp h) (by decide)
    have hnat : cache.ccKey i = ((j + 1 : Nat) : Int) := hkey
    have hpred : (cache.ccKey i - 1).toNat = j := by omega
    rw [if_neg hoid, if_neg hoid, if_neg hoid, if_neg (by omega), hpred, hnat, Int.toNat_natCast]
    dsimp only
    rw [if_neg hnotnull]
    exact ⟨_, _, rfl, (fastGetAttr_spec (hc.moved hsame).wellFormed hcache (by omega) htnatts).2,
      sameKey_of_sameValue (hin.varlena j hj hval) hdatum⟩

/-- All keys are. -/
theorem extractKeys_spec (args : Nat → Datum) (hcache : CacheOk cache.ccTupDesc attCache)
    (hkeys : ∀ i, i < n → cache.ccKey i = OBJECT_ID_ATTRIBUTE_NUMBER ∨
      ∃ j < cache.ccTupDesc.natts, cache.ccKey i = (j : Int) + 1 ∧ nulls j = ' ') :
    ∃ curSkey attCache', extractKeys cache t n args attCache = .ok (curSkey, attCache') ∧
      CacheOk cache.ccTupDesc attCache' ∧ (∀ i, n ≤ i → curSkey i = args i) ∧
      ∀ i, i < n → SameKey (cache.keyAttribute i) t.mem (curSkey i) src
        (if cache.ccKey i = OBJECT_ID_ATTRIBUTE_NUMBER then tOid t else value (cache.ccKey i - 1).toNat) := by
  induction n generalizing args attCache with
  | zero => exact ⟨args, attCache, rfl, hcache, fun _ _ => rfl, fun i hi => absurd hi (Nat.not_lt_zero i)⟩
  | succ n ih =>
    obtain ⟨argument, attCache₁, hone, hcache₁, hkey⟩ :=
      keyArgument_spec hin hform hsame hcache (hkeys n (Nat.lt_succ_self n))
    obtain ⟨curSkey, attCache₂, hrest, hcache₂, hkept, hall⟩ :=
      ih (Function.update args n argument) hcache₁ fun i hi => hkeys i (Nat.lt_succ_of_lt hi)
    refine ⟨curSkey, attCache₂, ?_, hcache₂, fun i hi => ?_, fun i hi => ?_⟩
    · rw [extractKeys, hone]
      exact hrest
    · rw [hkept i (by omega), Function.update_of_ne (by omega)]
    · rcases Nat.lt_succ_iff_lt_or_eq.mp hi with hlt | rfl
      · exact hall i hlt
      · rw [hkept i (Nat.le_refl i), Function.update_self]
        exact hkey

/-- A row is in the bucket that a search for it looks in, wherever its tuple was copied to and whatever its
attribute offsets were cached from. -/
theorem tuple_hash_index_eq (hcount : 1 ≤ cache.ccNkeys ∧ cache.ccNkeys ≤ 4) (hsize : 0 < cache.ccSize)
    (hshort : cache.ccSize < 2 ^ 15) (hkeys : cache.HasKeys nulls)
    (hhash : ∀ i, i < cache.ccNkeys.toNat → HashesValue (cache.ccHashFunc i) (cache.keyAttribute i))
    (hcache : CacheOk cache.ccTupDesc attCache) (hsearch : cache.SearchesFor m args src value (tOid t)) :
    ∃ attCache', CacheOk cache.ccTupDesc attCache' ∧
      catalogCacheComputeTupleHashIndex cache t attCache =
        (catalogCacheComputeHashIndex cache m args).map (fun index => (index, attCache')) ∧
      ∀ index, catalogCacheComputeHashIndex cache m args = .ok index → (index.toNat : Int) < cache.ccSize := by
  obtain ⟨curSkey, attCache', hextract, hcache', -, hall⟩ :=
    extractKeys_spec hin hform hsame cache.ccSkey hcache hkeys
  have hindex : catalogCacheComputeHashIndex cache t.mem curSkey = catalogCacheComputeHashIndex cache m args := by
    unfold catalogCacheComputeHashIndex
    rw [if_pos hcount, if_pos hcount, hashKeys_congr fun i hi =>
      hhash i hi _ _ _ _ ((hall i hi).trans (hsearch i hi).symm)]
  refine ⟨attCache', hcache', ?_, fun index => hash_index_lt hsize hshort⟩
  unfold catalogCacheComputeTupleHashIndex
  rw [if_pos hcount, hextract, ← hindex]
  cases hrun : catalogCacheComputeHashIndex cache t.mem curSkey <;> simp [hrun, bind, Except.bind, Except.map]

end

/-- A hash of a word, and one of a text. -/
def hashWord : PGFunction := fun _ d => (d % 2 ^ 32, false)
def hashText : PGFunction := fun m d =>
  ((slice m d (varattSize m d)).foldl (fun hash b => 31 * hash + b.toNat) 0, false)

/-- The keys are the text, the oid and the number. -/
def exampleCache : CatCache where
  ccTupDesc := exampleDesc
  ccSize := 500
  ccNkeys := 3
  ccKey i := if i = 0 then 2 else if i = 1 then OBJECT_ID_ATTRIBUTE_NUMBER else 1
  ccHashFunc i := if i = 0 then hashText else hashWord
  ccSkey _ := 0

theorem exampleCache_hashes {i : Nat} (hi : i < 3) :
    HashesValue (exampleCache.ccHashFunc i) (exampleCache.keyAttribute i) := by
  have hword : ∀ m d m' d', SameKey ⟨4, true, .int⟩ m d m' d' → hashWord m d = hashWord m' d' :=
    fun m d m' d' h => congrArg (·, false) h
  have htext : ∀ m d m' d', SameKey ⟨-1, false, .int⟩ m d m' d' → hashText m d = hashText m' d' := by
    rintro m d m' d' ⟨hsize, hbytes⟩
    have hsize' : varattSize m d = varattSize m' d' := hsize
    have hbytes' : slice m d (varattSize m d) = slice m' d' (varattSize m d) := hbytes
    rw [hashText, hashText, hbytes', hsize']
  match i, hi with
  | 0, _ => exact htext
  | 1, _ => exact hword
  | 2, _ => exact hword

/-- A copy of the row `(7, 'hi')`, searched for by the text, the oid and the number. -/
theorem tuple_hash_index_eq_example : ∃ t attCache,
    heapFormTuple exampleText (fun _ => 0xFF) 4096 exampleDesc (fun i => if i = 0 then 7 else 16) (fun _ => ' ') =
      .ok t ∧
    catalogCacheComputeTupleHashIndex exampleCache (t.copyTo (fun _ => 0) 8192) emptyCache =
      (catalogCacheComputeHashIndex exampleCache exampleText fun i =>
        if i = 0 then 16 else if i = 1 then tOid (t.copyTo (fun _ => 0) 8192) else 7).map
          fun index => (index, attCache) := by
  have hin : FormInput exampleText 4096 exampleCache.ccTupDesc (fun i => if i = 0 then 7 else 16) (fun _ => ' ') :=
    ⟨by decide, by decide, fun _ _ => Or.inl rfl, by decide, by decide⟩
  have hsmall : ¬ 2 ^ 32 ≤ dataStop exampleText exampleDesc (fun i => if i = 0 then 7 else 16) (fun _ => ' ') 2 := by
    decide
  have hfits : ¬ Refused exampleText exampleDesc (fun i => if i = 0 then 7 else 16) (fun _ => ' ') := by
    unfold Refused
    decide
  rcases heapFormTuple_cases (fun _ => 0xFF) hin with ⟨href, -⟩ | ⟨-, hwrap, -⟩ | ⟨-, t, hform, -⟩
  · exact absurd href hfits
  · exact absurd hwrap hsmall
  · have hkeys : exampleCache.HasKeys fun _ => ' ' := fun i hi => match i, hi with
      | 0, _ => .inr ⟨1, by decide, rfl, rfl⟩
      | 1, _ => .inl rfl
      | 2, _ => .inr ⟨0, by decide, rfl, rfl⟩
    have hsearch : exampleCache.SearchesFor exampleText
        (fun i => if i = 0 then 16 else if i = 1 then tOid (t.copyTo (fun _ => 0) 8192) else 7) exampleText
        (fun i => if i = 0 then 7 else 16) (tOid (t.copyTo (fun _ => 0) 8192)) := fun i hi => match i, hi with
      | 0, _ => ⟨rfl, rfl⟩
      | 1, _ => rfl
      | 2, _ => rfl
    obtain ⟨attCache, -, heq, -⟩ := tuple_hash_index_eq hin hform (sameBytes_copyTo t (fun _ => 0) 8192)
      (by decide) (by decide) (by decide) hkeys (fun i hi => exampleCache_hashes hi)
      (cacheOk_emptyCache exampleDesc) hsearch
    exact ⟨t, attCache, hform, heq⟩

end PostgresV7.Catcache
