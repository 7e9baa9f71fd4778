import Mathlib.Data.Finmap
import Mathlib.Data.Fintype.Basic
import PostgresV7.Dynahash.Create
import PostgresV7.Dynahash.Expand
import PostgresV7.Lib.Runs

/-!
# A hash table is a finite map

What the table is for: a map from keys to elements. `hash_search` agrees with it on
every call and through every handle, as long as each request for memory is one the
allocator gets in full.
-/

namespace PostgresV7.Dynahash

open Regions Chains Outcomes Runs

/-! ## The map -/

/-- Keys and where their elements are. -/
abbrev Dict (Key : Type) := Finmap fun _ : Key => Nat

/-- A call of `hash_search` and what came of it. `refused` tells that the allocator
would not give elements. -/
structure Call (Key : Type) where
  key : Key
  action : HashAction
  refused : Bool
  result : Result
  found : Bool

variable {Key : Type} [DecidableEq Key]

/-- What the map answers, and what it becomes. -/
inductive Dict.Answers (m : Dict Key) : Call Key → Dict Key → Prop where
  | hit {k : Key} {a : HashAction} {r : Bool} {e : Nat} : m.lookup k = some e → a ≠ .HASH_REMOVE →
      Answers m ⟨k, a, r, .element e, true⟩ m
  | miss {k : Key} {a : HashAction} {r : Bool} : k ∉ m → a ≠ .HASH_ENTER →
      Answers m ⟨k, a, r, .yes, false⟩ m
  | remove {k : Key} {r : Bool} {e : Nat} : m.lookup k = some e →
      Answers m ⟨k, .HASH_REMOVE, r, .element e, true⟩ (m.erase k)
  | enter {k : Key} {e : Nat} : k ∉ m → (∀ k', m.lookup k' ≠ some e) → e ≠ INVALID_INDEX →
      Answers m ⟨k, .HASH_ENTER, false, .element e, false⟩ (m.insert k e)
  | refused {k : Key} : k ∉ m → Answers m ⟨k, .HASH_ENTER, true, .null, false⟩ m

theorem Dict.card_insert {m : Dict Key} {k : Key} {e : Nat} (h : k ∉ m) :
    (m.insert k e).keys.card = m.keys.card + 1 := by
  have hkeys : (m.insert k e).keys = Insert.insert k m.keys := by
    ext a
    rw [Finmap.mem_keys, Finmap.mem_insert, Finset.mem_insert, Finmap.mem_keys]
  rw [hkeys, Finset.card_insert_of_notMem fun hm => h (Finmap.mem_keys.mp hm)]

theorem Dict.card_erase {m : Dict Key} {k : Key} (h : k ∈ m) :
    (m.erase k).keys.card = m.keys.card - 1 := by
  rw [Finmap.keys_erase, Finset.card_erase_of_mem (Finmap.mem_keys.mpr h)]

/-! ## The table stands for the map -/

variable {hash : Key → Int} {A : Allocator} {hashp hashp' : HashTable} {w w' : World Key}
  {chains : Nat → List Nat} {free : List Nat} {m : Dict Key} {key : Key}

/-- The elements on the chains are those of the map. -/
def Holds (w : World Key) (chains : Nat → List Nat) (m : Dict Key) : Prop :=
  ∀ k e, m.lookup k = some e ↔ OnChain w chains e ∧ w.keys e = k

/-- The table stands for `m`. -/
def Represents (hash : Key → Int) (hashp : HashTable) (w : World Key) (m : Dict Key) : Prop :=
  ∃ chains free, Table hash hashp w chains free ∧ Holds w chains m ∧ w.hctl.nkeys = m.keys.card

/-- From the key's bucket the chain leads to `e`. -/
def Reached (hash : Key → Int) (hashp : HashTable) (w : World Key) (key : Key) (e : Nat) : Prop :=
  ∃ l, Chain Cell.next 0 w.cells (bucketCell hashp w (callHash w.hctl (hash key))) l ∧ e ∈ l ∧
    w.keys e = key

omit [DecidableEq Key] in
theorem Table.onChain_iff (h : Table hash hashp w chains free) {e : Nat} :
    OnChain w chains e ∧ w.keys e = key ↔
      e ∈ chains (callHash w.hctl (hash key)) ∧ w.keys e = key := by
  constructor
  · rintro ⟨⟨b, hb, he⟩, hkey⟩
    have hhome := h.home b hb e he
    rw [hkey] at hhome
    exact ⟨hhome ▸ he, hkey⟩
  · rintro ⟨he, hkey⟩
    exact ⟨⟨_, h.hash_le _, he⟩, hkey⟩

theorem Represents.reached_iff (h : Represents hash hashp w m) {e : Nat} :
    Reached hash hashp w key e ↔ m.lookup key = some e := by
  obtain ⟨chains, free, ht, hm, -⟩ := h
  rw [hm key e, ht.onChain_iff]
  have hchain := ht.chain _ (ht.hash_le (hash key))
  constructor
  · rintro ⟨l, hl, he, hkey⟩
    rw [Chain.unique hl hchain] at he
    exact ⟨he, hkey⟩
  · rintro ⟨he, hkey⟩
    exact ⟨_, hchain, he, hkey⟩

/-- A chain is no longer than there are keys. -/
theorem Table.length_le (h : Table hash hashp w chains free) (hm : Holds w chains m)
    (hcard : w.hctl.nkeys = m.keys.card) {b : Nat} (hb : b ≤ w.hctl.maxBucket) :
    (chains b).length ≤ w.hctl.nkeys := by
  have hnd : ((chains b).map w.keys).Nodup :=
    (List.nodup_map_iff_inj_on (h.chain b hb).nodup).mpr (h.keys_inj b hb)
  rw [hcard, ← List.length_map (f := w.keys), ← List.toFinset_card_of_nodup hnd]
  refine Finset.card_le_card fun k hk => ?_
  obtain ⟨e, he, rfl⟩ := List.mem_map.mp (List.mem_toFinset.mp hk)
  exact Finmap.mem_keys.mpr (Finmap.mem_iff.mpr ⟨e, (hm _ e).mpr ⟨⟨b, hb, he⟩, rfl⟩⟩)

omit [DecidableEq Key] in
/-- The cells determine the chains. -/
theorem Table.chains_unique {chains' : Nat → List Nat} {free' : List Nat}
    (h : Table hash hashp w chains free) (h' : Table hash hashp w chains' free') {b : Nat}
    (hb : b ≤ w.hctl.maxBucket) : chains b = chains' b := Chain.unique (h.chain b hb) (h'.chain b hb)

/-- The chains of any table in this memory hold the elements of the map. -/
theorem Represents.holds (h : Represents hash hashp w m) (ht : Table hash hashp w chains free) :
    Holds w chains m ∧ w.hctl.nkeys = m.keys.card := by
  obtain ⟨chains', free', ht', hm, hcard⟩ := h
  refine ⟨fun k e => ?_, hcard⟩
  rw [hm k e]
  unfold OnChain
  constructor
  · intro ⟨⟨b, hb, hin⟩, hkey⟩
    exact ⟨⟨b, hb, ht.chains_unique ht' hb ▸ hin⟩, hkey⟩
  · intro ⟨⟨b, hb, hin⟩, hkey⟩
    exact ⟨⟨b, hb, ht.chains_unique ht' hb ▸ hin⟩, hkey⟩

theorem Represents.length_le (h : Represents hash hashp w m) (ht : Table hash hashp w chains free)
    {b : Nat} (hb : b ≤ w.hctl.maxBucket) : (chains b).length ≤ w.hctl.nkeys :=
  ht.length_le (h.holds ht).1 (h.holds ht).2 hb

theorem Table.notMem (h : Table hash hashp w chains free) (hm : Holds w chains m)
    (hmiss : ∀ e ∈ chains (callHash w.hctl (hash key)), w.keys e ≠ key) : key ∉ m := by
  intro hmem
  obtain ⟨e, he⟩ := Finmap.mem_iff.mp hmem
  obtain ⟨hin, hkey⟩ := h.onChain_iff.mp ((hm key e).mp he)
  exact hmiss e hin hkey

/-! ## Removing -/

theorem Represents.remove (h : Table hash hashp w chains free) (hm : Holds w chains m)
    (hcard : w.hctl.nkeys = m.keys.card) {b e : Nat} {l₁ l₂ : List Nat} (hb : b ≤ w.hctl.maxBucket)
    (hl : chains b = l₁ ++ e :: l₂) (hkey : w.keys e = key) :
    Represents hash hashp (removeElement w (lastCell Cell.next (bucketCell hashp w b) l₁) e)
      (m.erase key) := by
  have hnd : (l₁ ++ e :: l₂).Nodup := hl ▸ (h.chain b hb).nodup
  have he : e ∈ chains b := hl ▸ List.mem_append_right l₁ List.mem_cons_self
  have hon : ∀ e', OnChain w (Function.update chains b (l₁ ++ l₂)) e' ↔ OnChain w chains e' ∧ e' ≠ e := by
    intro e'
    have hmem : e' ∈ l₁ ++ l₂ ↔ e' ∈ chains b ∧ e' ≠ e := by
      have hperm : (l₁ ++ e :: l₂).Perm (e :: (l₁ ++ l₂)) := List.perm_middle
      have hnd' := List.nodup_cons.mp (hperm.nodup_iff.mp hnd)
      rw [hl, hperm.mem_iff, List.mem_cons]
      constructor
      · exact fun hin => ⟨Or.inr hin, fun heq => hnd'.1 (heq ▸ hin)⟩
      · exact fun hin => hin.1.resolve_left hin.2
    constructor
    · rintro ⟨b', hb', hin⟩
      by_cases hbb : b' = b
      · subst hbb
        rw [Function.update_self] at hin
        exact ⟨⟨b', hb, (hmem.mp hin).1⟩, (hmem.mp hin).2⟩
      · rw [Function.update_of_ne hbb] at hin
        refine ⟨⟨b', hb', hin⟩, ?_⟩
        rintro rfl
        exact hbb (h.chain_inj hb' hb hin he)
    · rintro ⟨⟨b', hb', hin⟩, hne⟩
      refine ⟨b', hb', ?_⟩
      by_cases hbb : b' = b
      · subst hbb
        rw [Function.update_self]
        exact hmem.mpr ⟨hin, hne⟩
      · rwa [Function.update_of_ne hbb]
  have hin : key ∈ m := Finmap.mem_iff.mpr ⟨e, (hm key e).mpr ⟨⟨b, hb, he⟩, hkey⟩⟩
  refine ⟨_, _, h.remove hb hl, fun k e' => ?_, ?_⟩
  · show _ ↔ OnChain w (Function.update chains b (l₁ ++ l₂)) e' ∧ w.keys e' = k
    rw [hon]
    by_cases hk : k = key
    · subst hk
      rw [Finmap.lookup_erase]
      refine iff_of_false (fun hf => nomatch hf) ?_
      rintro ⟨⟨hon', hne⟩, hkey'⟩
      have h1 := (hm _ e').mpr ⟨hon', hkey'⟩
      have h2 := (hm _ e).mpr ⟨⟨b, hb, he⟩, hkey⟩
      rw [h2] at h1
      exact hne (Option.some.inj h1).symm
    · rw [Finmap.lookup_erase_ne hk, hm]
      constructor
      · rintro ⟨hon', hkey'⟩
        refine ⟨⟨hon', ?_⟩, hkey'⟩
        rintro rfl
        exact hk (hkey'.symm.trans hkey)
      · exact fun ⟨⟨hon', _⟩, hkey'⟩ => ⟨hon', hkey'⟩
  · rw [Dict.card_erase hin, ← hcard]
    rfl

/-! ## Entering -/

/-- The memory a call of `hash_search` asks for is given in full: no request of
`dyna_hash_alloc` reaches 4 GB, and no other allocator's directory is given back. -/
def Safe (hash : Key → Int) (hashp : HashTable) (w : World Key) (key : Key) (action : HashAction) :
    Prop :=
  action = .HASH_ENTER → (∀ e, ¬ Reached hash hashp w key e) →
    (w.hctl.freeBucketIndex = INVALID_INDEX → ElementsFit hashp w.hctl) ∧
    (Full { w.hctl with nkeys := w.hctl.nkeys + 1 } → DirectoryFits hashp w.hctl)

/-- The new key on the first free element. -/
theorem Represents.insert (h : Table hash hashp w chains (w.hctl.freeBucketIndex :: free))
    (hm : Holds w chains m) (hcard : w.hctl.nkeys = m.keys.card)
    (hmiss : ∀ e ∈ chains (callHash w.hctl (hash key)), w.keys e ≠ key) :
    (∀ k', m.lookup k' ≠ some w.hctl.freeBucketIndex) ∧ w.hctl.freeBucketIndex ≠ INVALID_INDEX ∧
      Represents hash hashp (insertElement w (lastCell Cell.next
        (bucketCell hashp w (callHash w.hctl (hash key))) (chains (callHash w.hctl (hash key)))) key)
        (m.insert key w.hctl.freeBucketIndex) := by
  have hb := h.hash_le (hash key)
  have hnotin := h.notMem hm hmiss
  have hfree : ¬ OnChain w chains w.hctl.freeBucketIndex := by
    rintro ⟨b, hb', he⟩
    exact h.apart _ List.mem_cons_self b hb' he
  have hfresh : ∀ k', m.lookup k' ≠ some w.hctl.freeBucketIndex :=
    fun k' heq => hfree ((hm k' _).mp heq).1
  refine ⟨hfresh, h.linked.ne_nil List.mem_cons_self, _, _, h.insert hmiss, fun k e => ?_, ?_⟩
  · have hon : OnChain w (Function.update chains (callHash w.hctl (hash key))
        (chains (callHash w.hctl (hash key)) ++ [w.hctl.freeBucketIndex])) e ↔
        OnChain w chains e ∨ e = w.hctl.freeBucketIndex := by
      constructor
      · rintro ⟨b, hb', he⟩
        by_cases hbb : b = callHash w.hctl (hash key)
        · subst hbb
          rw [Function.update_self] at he
          rcases List.mem_append.mp he with hin | hin
          · exact Or.inl ⟨_, hb', hin⟩
          · exact Or.inr (List.mem_singleton.mp hin)
        · rw [Function.update_of_ne hbb] at he
          exact Or.inl ⟨b, hb', he⟩
      · rintro (⟨b, hb', he⟩ | rfl)
        · refine ⟨b, hb', ?_⟩
          by_cases hbb : b = callHash w.hctl (hash key)
          · subst hbb
            rw [Function.update_self]
            exact List.mem_append_left _ he
          · rwa [Function.update_of_ne hbb]
        · refine ⟨_, hb, ?_⟩
          rw [Function.update_self]
          exact List.mem_append_right _ List.mem_cons_self
    show _ ↔ OnChain w _ e ∧ Function.update w.keys w.hctl.freeBucketIndex key e = k
    rw [hon]
    by_cases he : e = w.hctl.freeBucketIndex
    · subst he
      rw [Function.update_self]
      by_cases hk : k = key
      · subst hk
        rw [Finmap.lookup_insert]
        exact iff_of_true rfl ⟨Or.inr rfl, rfl⟩
      · rw [Finmap.lookup_insert_of_ne _ hk]
        exact iff_of_false (hfresh k) fun hf => hk hf.2.symm
    · rw [Function.update_of_ne he]
      by_cases hk : k = key
      · subst hk
        rw [Finmap.lookup_insert]
        refine iff_of_false (fun hf => he (Option.some.inj hf).symm) ?_
        rintro ⟨hon' | heq, hkey⟩
        · exact hnotin (Finmap.mem_iff.mpr ⟨e, (hm k e).mpr ⟨hon', hkey⟩⟩)
        · exact he heq
      · rw [Finmap.lookup_insert_of_ne _ hk, hm]
        exact and_congr_left fun _ => (or_iff_left he).symm
  · rw [Dict.card_insert hnotin, ← hcard]
    rfl

omit [DecidableEq Key] in
/-- Memory of others does not matter. -/
theorem Table.enlarge (h : Table hash hashp w chains free) {heap : Heap}
    (hmem : ∀ r ∈ w.heap.regions, r ∈ heap.regions) :
    Table hash hashp { w with heap := heap } chains free :=
  h.move (h.segments.move ⟨rfl, rfl, rfl, rfl⟩ (fun _ _ => rfl) hmem) h.fits
    ⟨rfl, rfl, rfl⟩ rfl h.covered rfl (fun _ _ => rfl) (fun _ _ => rfl)
    fun r hr => ⟨hmem r hr.1, hr.2⟩

theorem Represents.enlarge (h : Represents hash hashp w m) {heap : Heap}
    (hmem : ∀ r ∈ w.heap.regions, r ∈ heap.regions) :
    Represents hash hashp { w with heap := heap } m := by
  obtain ⟨chains, free, ht, hm, hcard⟩ := h
  exact ⟨chains, free, ht.enlarge hmem, hm, hcard⟩

omit [DecidableEq Key] in
theorem ensureElement_spec (h : Table hash hashp w chains free) :
    Ends (Allowed hashp (w.hctl.freeBucketIndex = INVALID_INDEX → ElementsFit hashp w.hctl))
      (ensureElement A hashp w) fun r =>
        (r.1 = false ∧ Refuses A hashp w ∧
          ∃ heap, heap.regions = w.heap.regions ∧ r.2 = { w with heap := heap }) ∨
        (r.1 = true ∧ ¬ Refuses A hashp w ∧ ∃ e fr heap cells,
          r.2 = { w with hctl := { w.hctl with freeBucketIndex := e }, cells := cells, heap := heap } ∧
          fr.length + 1 = (if free = [] then BUCKET_ALLOC_INCR else free.length) ∧
          Table hash hashp r.2 chains (e :: fr)) := by
  unfold ensureElement
  split
  · rename_i hnil
    obtain rfl : free = [] := h.linked.eq_nil_iff.mp hnil
    refine (bucketAlloc_spec h).mono (fun e he => ?_) fun a ha => ha
    exact he.imp_right fun hf hfits => hf (hfits hnil)
  · rename_i hne
    refine Or.inr ⟨rfl, fun hr => hne hr.1, ?_⟩
    cases free with
    | nil => exact absurd h.linked hne
    | cons e fr =>
      have he : w.hctl.freeBucketIndex = e := h.linked.1
      exact ⟨e, fr, w.heap, w.cells, by rw [← he], by simp, h⟩

/-- The table has room for the key, and may grow by a bucket. -/
theorem expandIfFull_spec (h : Represents hash hashp w m) :
    Ends (Allowed hashp (Full w.hctl → DirectoryFits hashp w.hctl)) (expandIfFull hash A hashp w)
      fun r => SameHandle hashp r.1 ∧ Represents hash r.1 r.2 m := by
  unfold expandIfFull
  split
  · rename_i hfull
    obtain ⟨chains, free, ht, hm, hcard⟩ := h
    refine (expandTable_spec ht fun b hb => ?_).mono (fun e he => ?_) ?_
    · exact ht.length_le hm hcard hb
    · exact he.imp_right fun hf hfits => hf (hfits hfull)
    · rintro r ⟨hsame, hkeys, hnkeys, chains', ht', hon⟩
      refine ⟨hsame, chains', free, ht', fun k e => ?_, hnkeys.trans hcard⟩
      rw [hm, hkeys, hon]
  · exact ⟨.refl hashp, h⟩

theorem enterElement_spec (h : Table hash hashp w chains free) (hm : Holds w chains m)
    (hcard : w.hctl.nkeys = m.keys.card)
    (hmiss : ∀ e ∈ chains (callHash w.hctl (hash key)), w.keys e ≠ key) :
    Ends (Allowed hashp ((w.hctl.freeBucketIndex = INVALID_INDEX → ElementsFit hashp w.hctl) ∧
        (Full { w.hctl with nkeys := w.hctl.nkeys + 1 } → DirectoryFits hashp w.hctl)))
      (enterElement hash A hashp w (lastCell Cell.next (bucketCell hashp w
        (callHash w.hctl (hash key))) (chains (callHash w.hctl (hash key)))) key) fun r =>
      SameHandle hashp r.2.1 ∧ ∃ m', Represents hash r.2.1 r.2.2 m' ∧
        m.Answers ⟨key, .HASH_ENTER, decide (Refuses A hashp w), r.1, false⟩ m' := by
  have hnotin := h.notMem hm hmiss
  unfold enterElement
  refine ((ensureElement_spec h).mono (fun e he => he.imp_right fun hf hfits => hf hfits.1)
    fun a ha => ha).bind ?_
  rintro ⟨room, w₁⟩ (⟨hroom, href, heap, hheap, hw₁⟩ | ⟨hroom, href, e, fr, heap, cells, hw₁, -, ht⟩) <;>
    dsimp only at hroom hw₁ <;> subst hroom hw₁
  · refine ⟨.refl hashp, m, ⟨chains, free, ?_, hm, hcard⟩, ?_⟩
    · have hmem : ∀ r ∈ w.heap.regions, r ∈ heap.regions := fun r hr => hheap ▸ hr
      exact h.enlarge hmem
    · rw [decide_eq_true href]
      exact .refused hnotin
  · obtain ⟨hfresh, hne, hins⟩ := Represents.insert (w := { w with
      hctl := { w.hctl with freeBucketIndex := e }, cells := cells, heap := heap }) ht hm hcard hmiss
    refine ((expandIfFull_spec (A := A) hins).mono (fun e he => ?_) fun a ha => ha).bind ?_
    · exact he.imp_right fun hf hfits => hf hfits.2
    · rintro ⟨hashp₁, w₂⟩ ⟨hsame, hrep⟩
      refine ⟨hsame, _, hrep, ?_⟩
      rw [decide_eq_false href]
      exact .enter hnotin hfresh hne

/-! ## `hash_search` -/

/-- Every call answers what the map answers, and the table then stands for what the
map has become. -/
theorem hashSearch_spec (h : Represents hash hashp w m) (key : Key) (action : HashAction) :
    Ends (Allowed hashp (Safe hash hashp w key action)) (hashSearch hash A hashp w key action)
      fun r => SameHandle hashp r.2.2.1 ∧ ∃ m', Represents hash r.2.2.1 r.2.2.2 m' ∧
        m.Answers ⟨key, action, decide (Refuses A hashp w), r.1, r.2.1⟩ m' := by
  obtain ⟨chains, free, ht, hm, hcard⟩ := id h
  have hb := ht.hash_le (hash key)
  obtain ⟨⟨prev, currIndex⟩, hfollow, hres⟩ := followChain_spec key (ht.chain _ hb)
    (ht.length_le hm hcard hb)
  unfold hashSearch
  dsimp only
  rw [hfollow, ok_bind]
  dsimp only
  cases hres with
  | miss hmiss =>
    have hnotin := ht.notMem hm hmiss
    cases action with
    | HASH_FIND => exact ⟨.refl hashp, m, h, .miss hnotin fun hf => nomatch hf⟩
    | HASH_REMOVE => exact ⟨.refl hashp, m, h, .miss hnotin fun hf => nomatch hf⟩
    | HASH_ENTER =>
      refine ((enterElement_spec (A := A) ht hm hcard hmiss).mono (fun e he => ?_) fun a ha => ha).bind
        fun r hr => hr
      refine he.imp_right fun hf hsafe => hf (hsafe rfl fun e hreach => ?_)
      exact hnotin (Finmap.mem_iff.mpr ⟨e, h.reached_iff.mp hreach⟩)
  | @hit l₁ l₂ _ hl hne hkey =>
    have hfound : (currIndex != INVALID_INDEX) = true := bne_iff_ne.mpr hne
    have hin : currIndex ∈ chains (callHash w.hctl (hash key)) :=
      hl ▸ List.mem_append_right l₁ List.mem_cons_self
    have hlook : m.lookup key = some currIndex := (hm key _).mpr ⟨⟨_, hb, hin⟩, hkey⟩
    rw [hfound]
    cases action with
    | HASH_FIND => exact ⟨.refl hashp, m, h, .hit hlook fun hf => nomatch hf⟩
    | HASH_REMOVE => exact ⟨.refl hashp, _, Represents.remove ht hm hcard hb hl hkey, .remove hlook⟩
    | HASH_ENTER => exact ⟨.refl hashp, m, h, .hit hlook fun hf => nomatch hf⟩

/-! ## Any number of handles -/

/-- The memory, and the handles on the table. -/
structure System (Key : Type) where
  world : World Key
  handles : List HashTable

inductive Event (Key : Type) where
  | attach
  | search (handle : Nat) (call : Call Key)

/-- What the map makes of an event. -/
inductive Dict.Step : Dict Key → Event Key → Dict Key → Prop where
  | attach (m : Dict Key) : Step m .attach m
  | search {m m' : Dict Key} {call : Call Key} (i : Nat) : m.Answers call m' →
      Step m (.search i call) m'

/-- One more handle on a shared table, or a call through some handle. -/
inductive Step (hash : Key → Int) (A : Allocator) (flags : HashFlags) (info : HashCtrl) :
    System Key → Event Key → System Key → Prop where
  | attach {s : System Key} : flags.sharedMem = true → info.dir ≠ 0 →
      Step hash A flags info s .attach { s with handles := s.handles ++ [hashAttach info] }
  | search {s : System Key} {i : Nat} {hashp hashp' : HashTable} {w' : World Key} {key : Key}
      {action : HashAction} {result : Result} {found : Bool} : s.handles[i]? = some hashp →
      Safe hash hashp s.world key action →
      hashSearch hash A hashp s.world key action = .ok (result, found, hashp', w') →
      Step hash A flags info s
        (.search i ⟨key, action, decide (Refuses A hashp s.world), result, found⟩)
        { world := w', handles := s.handles.set i hashp' }

/-- All handles are the same, and there is one only if the table is not shared. -/
structure Shared (hash : Key → Int) (flags : HashFlags) (info : HashCtrl) (s : System Key)
    (m : Dict Key) (hashp : HashTable) : Prop where
  same : ∀ h ∈ s.handles, h = hashp
  represents : Represents hash hashp s.world m
  shared : flags.sharedMem = true → info.dir ≠ 0 → hashp = hashAttach info
  single : ¬ (flags.sharedMem = true ∧ info.dir ≠ 0) → s.handles = [hashp]

variable {flags : HashFlags} {info : HashCtrl}

/-- After what a call through handle `i` did to the memory and to its handle. -/
theorem Shared.called {hash' : Key → Int} {s : System Key} {m' : Dict Key} {i : Nat}
    (h : Shared hash flags info s m hashp) (hi : i < s.handles.length) (hsame : SameHandle hashp hashp')
    (hrep : Represents hash' hashp' w' m') :
    Shared hash' flags info { world := w', handles := s.handles.set i hashp' } m' hashp' := by
  refine ⟨fun h' hin => ?_, hrep, fun hflag hdir => ?_, fun hn => ?_⟩
  · by_cases hmem : flags.sharedMem = true ∧ info.dir ≠ 0
    · have hfix : hashp' = hashp := hsame.2 (by rw [h.shared hmem.1 hmem.2]; rfl)
      rcases List.mem_or_eq_of_mem_set hin with hin | rfl
      · exact (h.same h' hin).trans hfix.symm
      · rfl
    · have hone := h.single hmem
      rw [hone] at hi hin
      cases i with
      | zero => exact List.mem_singleton.mp hin
      | succ i => exact absurd (Nat.lt_of_succ_lt_succ hi) (Nat.not_lt_zero i)
  · exact (hsame.2 (by rw [h.shared hflag hdir]; rfl)).trans (h.shared hflag hdir)
  · have hone := h.single hn
    rw [hone] at hi
    cases i with
    | zero => exact congrArg (fun l => List.set l 0 hashp') hone
    | succ i => exact absurd (Nat.lt_of_succ_lt_succ hi) (Nat.not_lt_zero i)

/-- A handle more. -/
theorem Shared.attached {s : System Key} (h : Shared hash flags info s m hashp)
    (hflag : flags.sharedMem = true) (hdir : info.dir ≠ 0) :
    Shared hash flags info { s with handles := s.handles ++ [hashAttach info] } m hashp := by
  have hattach := h.shared hflag hdir
  refine ⟨fun h' hin => ?_, h.represents, h.shared, fun hn => ?_⟩
  · rcases List.mem_append.mp hin with hin | hin
    · exact h.same h' hin
    · rw [List.mem_singleton.mp hin, hattach]
  · exact absurd ⟨hflag, hdir⟩ hn

theorem Shared.step {s s' : System Key} {ev : Event Key} (h : Shared hash flags info s m hashp)
    (hs : Step hash A flags info s ev s') :
    ∃ m', m.Step ev m' ∧ ∃ hashp', Shared hash flags info s' m' hashp' := by
  cases hs with
  | attach hflag hdir => exact ⟨m, .attach m, hashp, h.attached hflag hdir⟩
  | @search i hashp₀ hashp' w' key action result found hi _ hrun =>
    obtain rfl : hashp₀ = hashp := h.same _ (List.mem_of_getElem? hi)
    obtain ⟨hsame, m', hrep, hans⟩ := (hashSearch_spec h.represents _ action).of_ok hrun
    obtain ⟨hlt, -⟩ := List.getElem?_eq_some_iff.mp hi
    exact ⟨m', .search i hans, hashp', h.called hlt hsame hrep⟩

/-- A table out of `hash_create` stands for the empty map. -/
theorem Shared.create {nelem : Int} {w₀ : World Key} (hasked : Asked flags info w₀)
    (hcreate : hashCreate A w₀ nelem info flags = .ok (some (hashp, w))) :
    Shared hash flags info ⟨w, [hashp]⟩ ∅ hashp := by
  obtain ⟨ht, hnkeys, hshared⟩ := hashCreate_table hash hasked hcreate
  refine ⟨fun h' hin => List.mem_singleton.mp hin, ⟨_, _, ht, fun k e => ?_, ?_⟩, hshared,
    fun _ => rfl⟩
  · rw [Finmap.lookup_empty]
    refine iff_of_false (fun hf => nomatch hf) ?_
    rintro ⟨⟨b, -, he⟩, -⟩
    exact List.not_mem_nil he
  · rw [hnkeys, Finmap.keys_empty, Finset.card_empty]

/-- In every run whose calls ask for memory that is given in full, the results are
those of a finite map, `nkeys` is its size, every key of the map is reached at its
element through every handle, and the next call returns; only `dyna_hash_alloc` may
leave it with `elog`. -/
theorem table_run_refines_dict {nelem : Int} {w₀ : World Key} (hasked : Asked flags info w₀)
    (hcreate : hashCreate A w₀ nelem info flags = .ok (some (hashp, w)))
    {l : List (Event Key)} {s : System Key}
    (hrun : Run (Step hash A flags info) ⟨w, [hashp]⟩ l s) :
    ∃ m, Run Dict.Step ∅ l m ∧ s.world.hctl.nkeys = m.keys.card ∧
      ∀ h ∈ s.handles,
        (∀ key e, Reached hash h s.world key e ↔ m.lookup key = some e) ∧
        ∀ key action, Safe hash h s.world key action →
          (∃ r, hashSearch hash A h s.world key action = .ok r) ∨
          (h.memAlloc = true ∧ hashSearch hash A h s.world key action = .error .elog) := by
  have hsim : ∃ m, Run Dict.Step ∅ l m ∧ ∃ hashp', Shared hash flags info s m hashp' :=
    hrun.simulation (fun s m => ∃ hashp', Shared hash flags info s m hashp') Dict.Step
      (fun s t a s' ⟨_, hR⟩ hs => hR.step hs) ⟨hashp, .create hasked hcreate⟩
  obtain ⟨m, hruns, hashp', hR⟩ := hsim
  obtain ⟨chains, free, ht, hm, hcard⟩ := id hR.represents
  refine ⟨m, hruns, hcard, fun h hin => ?_⟩
  obtain rfl := hR.same h hin
  refine ⟨fun key e => hR.represents.reached_iff, fun key action hsafe => ?_⟩
  have hspec := hashSearch_spec (A := A) hR.represents key action
  cases hq : hashSearch hash A h s.world key action with
  | ok r => exact Or.inl ⟨r, rfl⟩
  | error f =>
    rcases hspec.of_error hq with ⟨rfl, hmem⟩ | hn
    · exact Or.inr ⟨hmem, rfl⟩
    · exact absurd hsafe hn

/-- Memory before anything is allocated. -/
def freshWorld (blank : Key) : World Key where
  hctl := hdefault
  cells _ := 0
  keys _ := blank
  dirs _ _ := 0
  heap := ⟨0, []⟩

/-- A run that enters the key 5 in a new table, and a test of where it leads. -/
theorem five_entered {p : HashTable → World UInt64 → Bool}
    (h : okAnd (hashCreate bumpAllocator (freshWorld (0 : UInt64)) 1 {} {}) (fun r => r.any fun t =>
      okAnd (hashSearch (fun key => (key.toNat : Int)) bumpAllocator t.1 t.2 5 .HASH_ENTER) fun t₁ =>
        decide (t₁.1 = .element 4144 ∧ ElementsFit t.1 t.2.hctl ∧
          ¬ Full { t.2.hctl with nkeys := t.2.hctl.nkeys + 1 }) && p t₁.2.2.1 t₁.2.2.2) = true) :
    ∃ hashp w call hashp₁ w₁,
      hashCreate bumpAllocator (freshWorld (0 : UInt64)) 1 {} {} = .ok (some (hashp, w)) ∧
      Run (Step (fun key => (key.toNat : Int)) bumpAllocator {} {}) ⟨w, [hashp]⟩ [.search 0 call]
        ⟨w₁, [hashp₁]⟩ ∧
      call.key = 5 ∧ call.action = .HASH_ENTER ∧ call.result = .element 4144 ∧ p hashp₁ w₁ = true := by
  obtain ⟨r, hcreate, hsome⟩ := okAnd_iff.mp h
  obtain ⟨⟨hashp, w⟩, rfl, hentered⟩ := (Option.any_eq_true _ _).mp hsome
  obtain ⟨⟨result, found, hashp₁, w₁⟩, hsearch, htest⟩ := okAnd_iff.mp hentered
  obtain ⟨hcond, hp⟩ := Bool.and_eq_true_iff.mp htest
  obtain ⟨hresult, hfit, hfull⟩ := of_decide_eq_true hcond
  have hs := @Step.search _ _ _ _ {} {} ⟨w, [hashp]⟩ 0 _ _ _ _ _ _ _ rfl
    (fun _ _ => ⟨fun _ => hfit, fun hf => absurd hf hfull⟩) hsearch
  exact ⟨hashp, w, _, hashp₁, w₁, hcreate, .cons hs (.nil _), rfl, rfl, hresult, hp⟩

theorem table_run_refines_dict_example : ∃ hashp w call s,
    hashCreate bumpAllocator (freshWorld (0 : UInt64)) 1 {} {} = .ok (some (hashp, w)) ∧
    Run (Step (fun key => (key.toNat : Int)) bumpAllocator {} {}) ⟨w, [hashp]⟩ [.search 0 call] s ∧
    call.key = 5 ∧ call.result = .element 4144 ∧
    ∃ m : Dict UInt64, Run Dict.Step ∅ [.search 0 call] m ∧ s.world.hctl.nkeys = m.keys.card := by
  have hasked : Asked {} {} (freshWorld (0 : UInt64)) := ⟨(nomatch ·), (nomatch ·)⟩
  obtain ⟨hashp, w, call, hashp₁, w₁, hcreate, hrun, hkey, -, hresult, -⟩ :=
    five_entered (p := fun _ _ => true) (by decide +kernel)
  obtain ⟨m, hm, hcard, -⟩ := table_run_refines_dict hasked hcreate hrun
  exact ⟨hashp, w, call, _, hcreate, hrun, hkey, hresult, m, hm, hcard⟩

/-- Keys of 143165568 bytes make 30 elements of 143165584 bytes; their request is for
224 bytes more than 4 GB, and `dyna_hash_alloc` asks for the 224 bytes only. -/
theorem hashSearch_overruns : ∃ hashp w,
    Asked { elem := true } { keysize := 143165568, datasize := 8 }
      (freshWorld fun _ : Fin 143165568 => (0 : UInt8)) ∧
    hashCreate bumpAllocator (freshWorld fun _ : Fin 143165568 => (0 : UInt8)) 1
      { keysize := 143165568, datasize := 8 } { elem := true } = .ok (some (hashp, w)) ∧
    hashSearch (fun _ => 0) bumpAllocator hashp w (fun _ => 0) .HASH_ENTER = .error .overrun := by
  have hrun : okAnd (hashCreate bumpAllocator (freshWorld fun _ : Fin 143165568 => (0 : UInt8)) 1
      { keysize := 143165568, datasize := 8 } { elem := true }) (fun r => r.any fun t => decide (errorOf
        (hashSearch (fun _ => 0) bumpAllocator t.1 t.2 (fun _ => 0) .HASH_ENTER) = some .overrun)) = true := by
    decide +kernel
  obtain ⟨r, hcreate, hsome⟩ := okAnd_iff.mp hrun
  obtain ⟨⟨hashp, w⟩, rfl, hover⟩ := (Option.any_eq_true _ _).mp hsome
  exact ⟨hashp, w, ⟨(nomatch ·), (nomatch ·)⟩, hcreate, errorOf_eq_some.mp (of_decide_eq_true hover)⟩

end PostgresV7.Dynahash
