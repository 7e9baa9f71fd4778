import PostgresV7.Dynahash.Refine

/-!
# Hash functions that read on behind the key

`call_hash` passes a pointer on. A hash function may look at more than the key: at what
the caller has behind it and, when `expand_table` hashes the keys in the elements, at
what these have behind theirs. For keys whose hash does not depend on that, the code
does what it does with a function of the key alone.
-/

namespace PostgresV7.Dynahash

open Regions Chains Outcomes

variable {Key Rest : Type}

/-! ## The code -/

/-- `expand_table`; `rehash e` is the hash value of the key in the element `e`. -/
def expandTableAt (rehash : Nat → Int) (A : Allocator) (hashp : HashTable) (w : World Key) :
    Except Fault (HashTable × World Key) := do
  let (room, hashp, w) ← newSegment A hashp w
  if room = false then .ok (hashp, w)
  else
    let newBucket := w.hctl.maxBucket + 1
    let oldBucket := newBucket &&& w.hctl.lowMask
    let w := { w with hctl := growMasks w.hctl }
    let old := bucketCell hashp w oldBucket
    let cells ← splitChain rehash w.hctl id oldBucket w.hctl.nkeys old
      (bucketCell hashp w newBucket) (w.cells old) w.cells
    .ok (hashp, { w with cells := cells })

/-- Behind the key of the element `e` is `behind e`. -/
def expandIfFullAt (hash : Key → Rest → Int) (A : Allocator) (hashp : HashTable) (w : World Key)
    (behind : Nat → Rest) : Except Fault (HashTable × World Key) :=
  if Full w.hctl then expandTableAt (fun e => hash (w.keys e) (behind e)) A hashp w else .ok (hashp, w)

/-- `HASH_ENTER` of a key that was not found. -/
def enterElementAt (hash : Key → Rest → Int) (A : Allocator) (hashp : HashTable) (w : World Key)
    (prev : Cell) (key : Key) (behind : Nat → Rest) : Except Fault (Result × HashTable × World Key) := do
  let (room, w) ← ensureElement A hashp w
  if room = false then .ok (.null, hashp, w)
  else
    let currIndex := w.hctl.freeBucketIndex
    let (hashp, w) ← expandIfFullAt hash A hashp (insertElement w prev key) behind
    .ok (.element currIndex, hashp, w)

/-- `hash_search`; behind the caller's key is `rest`. -/
def hashSearchAt [DecidableEq Key] (hash : Key → Rest → Int) (A : Allocator) (hashp : HashTable) (w : World Key)
    (key : Key) (rest : Rest) (behind : Nat → Rest) (action : HashAction) :
    Except Fault (Result × Bool × HashTable × World Key) := do
  let bucket := callHash w.hctl (hash key rest)
  let (prev, currIndex) ← followChain w key w.hctl.nkeys (bucketCell hashp w bucket)
  let found := currIndex != INVALID_INDEX
  match action with
  | .HASH_FIND => .ok (if found then .element currIndex else .yes, found, hashp, w)
  | .HASH_REMOVE =>
    if found then .ok (.element currIndex, found, hashp, removeElement w prev currIndex)
    else .ok (.yes, found, hashp, w)
  | .HASH_ENTER =>
    if found then .ok (.element currIndex, found, hashp, w)
    else
      let (result, hashp, w) ← enterElementAt hash A hashp w prev key behind
      .ok (result, found, hashp, w)

/-! ## A function of the key -/

variable {hash : Key → Rest → Int} {hash' : Key → Int} {A : Allocator} {hashp : HashTable}
  {w : World Key} {chains : Nat → List Nat} {free : List Nat} {m : Dict Key} {key : Key}

/-- The hash of the key is the value of `hash'`, whatever is behind the key. -/
def HashedAs (hash : Key → Rest → Int) (hash' : Key → Int) (key : Key) : Prop :=
  ∀ rest, hash key rest = hash' key

/-- The loop of `expand_table` hashes the elements of one chain. -/
theorem splitChain_congr {hctl : HashHeader} {keys : Nat → Key} {ob k x : Nat} {old newbi : Cell}
    {cells : Cell → Nat} {rehash : Nat → Int} {l : List Nat} (hl : Linked Cell.next 0 cells x l)
    (hagree : ∀ e ∈ l, rehash e = hash' (keys e)) (hold : ∀ e ∈ l, old ≠ .next e)
    (hnew : ∀ e ∈ l, newbi ≠ .next e) :
    splitChain rehash hctl id ob k old newbi x cells = splitChain hash' hctl keys ob k old newbi x cells := by
  induction l generalizing k x old newbi cells with
  | nil =>
    obtain rfl : x = INVALID_INDEX := hl
    unfold splitChain
    rw [if_pos rfl, if_pos rfl]
  | cons e l ih =>
    have hnd := List.nodup_cons.mp hl.nodup
    have hnext : ∀ e' ∈ l, Cell.next e ≠ .next e' := by
      intro e' he' heq
      rw [Cell.next.inj heq] at hnd
      exact hnd.1 he'
    have hagree' : ∀ e' ∈ l, rehash e' = hash' (keys e') :=
      fun e' he' => hagree e' (List.mem_cons_of_mem e he')
    have hold' : ∀ e' ∈ l, old ≠ .next e' := fun e' he' => hold e' (List.mem_cons_of_mem e he')
    have hnew' : ∀ e' ∈ l, newbi ≠ .next e' := fun e' he' => hnew e' (List.mem_cons_of_mem e he')
    obtain ⟨rfl, hx, -⟩ := id hl
    unfold splitChain
    rw [if_neg (show x ≠ INVALID_INDEX from hx), if_neg (show x ≠ INVALID_INDEX from hx)]
    cases k with
    | zero => rfl
    | succ k =>
      have hvalue : rehash (id x) = hash' (keys x) := hagree x List.mem_cons_self
      dsimp only
      by_cases hP : callHash hctl (hash' (keys x)) = ob
      · rw [if_pos hP, if_pos (hvalue ▸ hP)]
        have htail : Linked Cell.next 0 (Function.update cells old x) (cells (.next x)) l :=
          hl.tail.move fun e' he' => Function.update_of_ne (hold' e' he').symm _ _
        exact ih htail hagree' hnext hnew'
      · rw [if_neg hP, if_neg (hvalue ▸ hP)]
        have htail : Linked Cell.next 0 (Function.update cells newbi x) (cells (.next x)) l :=
          hl.tail.move fun e' he' => Function.update_of_ne (hnew' e' he').symm _ _
        exact ih htail hagree' hold' hnext

theorem expandTableAt_eq (h : Table hash' hashp w chains free) {rehash : Nat → Int}
    (hagree : ∀ e, OnChain w chains e → rehash e = hash' (w.keys e)) :
    expandTableAt rehash A hashp w = expandTable hash' A hashp w := by
  unfold expandTableAt expandTable
  cases hroom : newSegment A hashp w with
  | error f => rfl
  | ok r =>
    obtain ⟨room, hashp₁, w₁⟩ := r
    obtain ⟨htable, hgrown, -⟩ := (newSegment_spec h).of_ok hroom
    obtain ⟨dsize, nsegs, hctl⟩ := hgrown.hctl
    have hkeys := hgrown.keys
    dsimp only at htable hctl hkeys
    cases room with
    | false => rfl
    | true =>
      obtain ⟨j, hj⟩ := htable.masked
      have hob := oldBucket_le hj
      have hagree₁ : ∀ e ∈ chains (oldBucket w₁.hctl), rehash e = hash' (w₁.keys e) := by
        intro e he
        rw [hkeys]
        refine hagree e ⟨oldBucket w₁.hctl, ?_, he⟩
        rw [hctl] at hob ⊢
        exact hob
      have hcell : ∀ b, bucketCell hashp₁ { w₁ with hctl := growMasks w₁.hctl } b =
          bucketCell hashp₁ w₁ b := by
        intro b
        obtain ⟨low, high, hgm⟩ := growMasks_eq w₁.hctl
        rw [hgm]
        rfl
      have hchain := chain_iff_linked.mp (htable.chain _ hob)
      have hsplit : splitChain rehash (growMasks w₁.hctl) id (oldBucket w₁.hctl)
          (growMasks w₁.hctl).nkeys (bucketCell hashp₁ w₁ (oldBucket w₁.hctl))
          (bucketCell hashp₁ w₁ (w₁.hctl.maxBucket + 1))
          (w₁.cells (bucketCell hashp₁ w₁ (oldBucket w₁.hctl))) w₁.cells =
          splitChain hash' (growMasks w₁.hctl) w₁.keys (oldBucket w₁.hctl)
          (growMasks w₁.hctl).nkeys (bucketCell hashp₁ w₁ (oldBucket w₁.hctl))
          (bucketCell hashp₁ w₁ (w₁.hctl.maxBucket + 1))
          (w₁.cells (bucketCell hashp₁ w₁ (oldBucket w₁.hctl))) w₁.cells :=
        splitChain_congr hchain hagree₁ (fun e _ => Cell.noConfusion) fun e _ => Cell.noConfusion
      rw [← hcell, ← hcell] at hsplit
      exact congrArg (· >>= fun cells => Except.ok (hashp₁, { w₁ with
        hctl := growMasks w₁.hctl, cells := cells })) hsplit

variable [DecidableEq Key]

/-- The keys of the map are those on the chains. -/
theorem Holds.mem (hm : Holds w chains m) {e : Nat} (he : OnChain w chains e) : w.keys e ∈ m :=
  Finmap.mem_iff.mpr ⟨e, (hm _ e).mpr ⟨he, rfl⟩⟩

/-- The table once the key is on its chain, before the table grows. -/
theorem Represents.entered (h : Table hash' hashp w chains free) (hm : Holds w chains m)
    (hcard : w.hctl.nkeys = m.keys.card)
    (hmiss : ∀ e ∈ chains (callHash w.hctl (hash' key)), w.keys e ≠ key) {w₀ : World Key}
    (hroom : ensureElement A hashp w = .ok (true, w₀)) :
    Represents hash' hashp (insertElement w₀ (lastCell Cell.next (bucketCell hashp w
      (callHash w.hctl (hash' key))) (chains (callHash w.hctl (hash' key)))) key)
      (m.insert key w₀.hctl.freeBucketIndex) := by
  rcases (ensureElement_spec h).of_ok hroom with ⟨hr, -⟩ | ⟨-, -, e, fr, heap, cells, hw₀, -, ht⟩
  · exact absurd hr.symm Bool.false_ne_true
  · dsimp only at hw₀ ht
    subst hw₀
    exact (Represents.insert (w := { w with
      hctl := { w.hctl with freeBucketIndex := e }, cells := cells, heap := heap }) ht hm hcard hmiss).2.2

theorem enterElementAt_eq (h : Table hash' hashp w chains free) (hm : Holds w chains m)
    (hcard : w.hctl.nkeys = m.keys.card)
    (hmiss : ∀ e ∈ chains (callHash w.hctl (hash' key)), w.keys e ≠ key)
    (hstored : ∀ k ∈ m, HashedAs hash hash' k) (hkey : HashedAs hash hash' key) (behind : Nat → Rest) :
    enterElementAt hash A hashp w (lastCell Cell.next (bucketCell hashp w
        (callHash w.hctl (hash' key))) (chains (callHash w.hctl (hash' key)))) key behind =
      enterElement hash' A hashp w (lastCell Cell.next (bucketCell hashp w
        (callHash w.hctl (hash' key))) (chains (callHash w.hctl (hash' key)))) key := by
  have hentered := fun (w₀ : World Key) (hroom : ensureElement A hashp w = .ok (true, w₀)) =>
    Represents.entered h hm hcard hmiss hroom
  generalize lastCell Cell.next (bucketCell hashp w (callHash w.hctl (hash' key)))
    (chains (callHash w.hctl (hash' key))) = prev at hentered ⊢
  unfold enterElementAt enterElement
  cases hroom : ensureElement A hashp w with
  | error f => rfl
  | ok r =>
    obtain ⟨_ | _, w₀⟩ := r
    · rfl
    · obtain ⟨chains', free', ht', hm', -⟩ := hentered w₀ hroom
      have hagree : ∀ e, OnChain (insertElement w₀ prev key) chains' e →
          hash ((insertElement w₀ prev key).keys e) (behind e) =
            hash' ((insertElement w₀ prev key).keys e) := by
        intro e he
        rcases Finmap.mem_insert.mp (hm'.mem he) with heq | hin
        · rw [heq]
          exact hkey _
        · exact hstored _ hin _
      have hexpand : expandIfFullAt hash A hashp (insertElement w₀ prev key) behind =
          expandIfFull hash' A hashp (insertElement w₀ prev key) := by
        unfold expandIfFullAt expandIfFull
        rw [expandTableAt_eq ht' hagree]
      exact congrArg (· >>= fun r => Except.ok (Result.element w₀.hctl.freeBucketIndex, r.1, r.2)) hexpand

/-- `hash_search` does what it does with a function of the key, when that is what the
hash of the stored keys is, and of a key that is entered. -/
theorem hashSearchAt_eq (h : Represents hash' hashp w m) (hstored : ∀ k ∈ m, HashedAs hash hash' k)
    {rest : Rest} (hrest : hash key rest = hash' key) {action : HashAction}
    (hkey : action = .HASH_ENTER → HashedAs hash hash' key) (behind : Nat → Rest) :
    hashSearchAt hash A hashp w key rest behind action = hashSearch hash' A hashp w key action := by
  obtain ⟨chains, free, ht, hm, hcard⟩ := h
  have hb := ht.hash_le (hash' key)
  obtain ⟨⟨prev, currIndex⟩, hfollow, hres⟩ := followChain_spec key (ht.chain _ hb)
    (ht.length_le hm hcard hb)
  unfold hashSearchAt hashSearch
  rw [hrest]
  dsimp only
  rw [hfollow]
  cases action with
  | HASH_FIND => rfl
  | HASH_REMOVE => rfl
  | HASH_ENTER =>
    cases hres with
    | miss hmiss =>
      exact congrArg (· >>= fun r : Result × HashTable × World Key => Except.ok (r.1, false, r.2.1, r.2.2))
        (enterElementAt_eq ht hm hcard hmiss hstored (hkey rfl) behind)
    | hit _ _ hne _ =>
      have hfound : (currIndex != INVALID_INDEX) = true := bne_iff_ne.mpr hne
      dsimp only [bind, Except.bind]
      rw [hfound]
      rfl

end PostgresV7.Dynahash
