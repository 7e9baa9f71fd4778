import PostgresV7.Dynahash.Hashfn
import PostgresV7.Dynahash.Rehash
import PostgresV7.Dynahash.Save

/-!
# Masks, segments and chains of every table

What `expand_table` has to find, and what it has to leave: the masks around the number
of buckets, a segment for each bucket, and every element on the chain of the bucket
`call_hash` makes of its key. That holds in every table whose keys hash alike whatever
is behind them, between the calls and where an `elog` ends one.
-/

namespace PostgresV7.Dynahash

open Regions Chains Outcomes Runs

variable {Key Rest : Type} {hash : Key → Rest → Int} {hash' : Key → Int}
  {A : Allocator} {hashp hashp' : HashTable} {w w' : World Key} {chains : Nat → List Nat}
  {free : List Nat} {m : Dict Key} {flags : HashFlags} {info : HashCtrl}

/-! ## A table -/

/-- Masks and segments fit the buckets, and the elements are where `call_hash` looks
for them, whatever is behind their keys. -/
structure Consistent (hash : Key → Rest → Int) (hashp : HashTable) (w : World Key)
    (chains : Nat → List Nat) : Prop where
  masks : ∃ k, w.hctl.lowMask = 2 ^ k - 1 ∧ 2 ^ k - 1 ≤ w.hctl.maxBucket ∧
    w.hctl.maxBucket ≤ w.hctl.highMask ∧ w.hctl.highMask = 2 ^ (k + 1) - 1
  covered : w.hctl.maxBucket < w.hctl.nsegs * w.hctl.ssize
  nsegs_le : w.hctl.nsegs ≤ w.hctl.dsize
  chain : ∀ b ≤ w.hctl.maxBucket, Chain Cell.next 0 w.cells (bucketCell hashp w b) (chains b)
  home : ∀ b ≤ w.hctl.maxBucket, ∀ e ∈ chains b, ∀ rest, callHash w.hctl (hash (w.keys e) rest) = b

/-- The keys on the chains hash as `hash'` says. -/
def Stored (hash : Key → Rest → Int) (hash' : Key → Int) (w : World Key) (chains : Nat → List Nat) :
    Prop :=
  ∀ e, OnChain w chains e → HashedAs hash hash' (w.keys e)

theorem Table.consistent (h : Table hash' hashp w chains free) (hstored : Stored hash hash' w chains) :
    Consistent hash hashp w chains := by
  refine ⟨?_, ?_, h.segments.nsegs_le, h.chain, fun b hb e he rest => ?_⟩
  · obtain ⟨k, hlow, hhigh, hge, hle⟩ := h.masked
    exact ⟨k, hlow, by omega, by omega, hhigh⟩
  · have hcov := h.covered
    rw [Nat.shiftRight_eq_div_pow, Nat.div_lt_iff_lt_mul (Nat.two_pow_pos _)] at hcov
    rw [h.segments.ssize]
    exact hcov
  · rw [hstored e ⟨b, hb, he⟩ rest]
    exact h.home b hb e he

/-- Another function of the key that gives the stored keys the same values. -/
theorem Table.rehash (h : Table hash' hashp w chains free) {hash'' : Key → Int}
    (heq : ∀ e, OnChain w chains e → hash'' (w.keys e) = hash' (w.keys e)) :
    Table hash'' hashp w chains free := by
  refine { h with home := fun b hb e he => ?_ }
  rw [heq e ⟨b, hb, he⟩]
  exact h.home b hb e he

/-! ## `expand_table` -/

/-- Without room for a bucket, all is as it was. -/
structure Unexpanded (hash : Key → Rest → Int) (w : World Key) (chains : Nat → List Nat)
    (hashp' : HashTable) (w' : World Key) : Prop where
  maxBucket : w'.hctl.maxBucket = w.hctl.maxBucket
  lowMask : w'.hctl.lowMask = w.hctl.lowMask
  highMask : w'.hctl.highMask = w.hctl.highMask
  keys : w'.keys = w.keys
  consistent : Consistent hash hashp' w' chains

/-- With one bucket more, the elements of the old bucket whose `call_hash` changes are in
the new one; these and the others keep their order. No other bucket changes. -/
structure BucketAdded (hash : Key → Rest → Int) (w : World Key) (chains : Nat → List Nat)
    (behind : Nat → Rest) (hashp' : HashTable) (w' : World Key) (chains' : Nat → List Nat) : Prop where
  maxBucket : w'.hctl.maxBucket = w.hctl.maxBucket + 1
  keys : w'.keys = w.keys
  moved : chains' (w.hctl.maxBucket + 1) = (chains ((w.hctl.maxBucket + 1) &&& w.hctl.lowMask)).filter
    fun e => callHash w'.hctl (hash (w.keys e) (behind e)) ≠ callHash w.hctl (hash (w.keys e) (behind e))
  stayed : chains' ((w.hctl.maxBucket + 1) &&& w.hctl.lowMask) =
    (chains ((w.hctl.maxBucket + 1) &&& w.hctl.lowMask)).filter
    fun e => callHash w'.hctl (hash (w.keys e) (behind e)) = callHash w.hctl (hash (w.keys e) (behind e))
  others : ∀ b ≤ w.hctl.maxBucket, b ≠ (w.hctl.maxBucket + 1) &&& w.hctl.lowMask →
    chains' b = chains b ∧ ∀ e ∈ chains b,
      callHash w'.hctl (hash (w.keys e) (behind e)) = callHash w.hctl (hash (w.keys e) (behind e))
  consistent : Consistent hash hashp' w' chains'

/-- Where an `elog` may leave `expand_table`: at the beginning, or with a larger directory
when `seg_alloc` finds no memory. -/
inductive LeftAt (A : Allocator) (hashp : HashTable) (w : World Key) : HashTable → World Key → Prop where
  | start : LeftAt A hashp w hashp w
  | segment {hashp' : HashTable} {w' : World Key} : newSegnum w.hctl ≥ w.hctl.nsegs →
      ensureDirectory A hashp w (newSegnum w.hctl) = .ok (true, hashp', w') → LeftAt A hashp w hashp' w'

/-- `expand_table` adds a bucket or leaves all as it was, also when it does not return. -/
structure Expands (hash : Key → Rest → Int) (A : Allocator) (hashp : HashTable) (w : World Key)
    (chains : Nat → List Nat) (behind : Nat → Rest) : Prop where
  returned : Ends (Allowed hashp (DirectoryFits hashp w.hctl))
    (expandTableAt (fun e => hash (w.keys e) (behind e)) A hashp w) fun r =>
      Unexpanded hash w chains r.1 r.2 ∨ ∃ chains', BucketAdded hash w chains behind r.1 r.2 chains'
  left : ∀ hashp' w', LeftAt A hashp w hashp' w' → Unexpanded hash w chains hashp' w'

/-- The sizes of the directory do not matter to `call_hash`. -/
theorem callHash_growMasks (hctl : HashHeader) (dsize nsegs : Nat) (v : Int) :
    callHash (growMasks { hctl with dsize := dsize, nsegs := nsegs }) v = callHash (growMasks hctl) v := by
  unfold growMasks
  dsimp only
  split <;> rfl

theorem Grown.unexpanded (hgrown : Grown hashp w hashp' w') (h : Table hash' hashp' w' chains free)
    (hstored : Stored hash hash' w chains) : Unexpanded hash w chains hashp' w' := by
  obtain ⟨dsize, nsegs, hctl⟩ := hgrown.hctl
  have hkeys := hgrown.keys
  have hmax : w'.hctl.maxBucket = w.hctl.maxBucket := by rw [hctl]
  refine ⟨hmax, by rw [hctl], by rw [hctl], hkeys, h.consistent fun e he => ?_⟩
  rw [hkeys]
  obtain ⟨b, hb, he⟩ := he
  exact hstored e ⟨b, hmax ▸ hb, he⟩

/-- The split, for elements that hash alike. -/
theorem Table.bucketAdded (h : Table hash' hashp w chains free) (hstored : Stored hash hash' w chains)
    {dsize nsegs : Nat} (hctl : w'.hctl = growMasks { w.hctl with dsize := dsize, nsegs := nsegs })
    (hkeys : w'.keys = w.keys) (h' : Table hash' hashp' w' (splitChains hash' w chains) free)
    (behind : Nat → Rest) :
    BucketAdded hash w chains behind hashp' w' (splitChains hash' w chains) := by
  obtain ⟨j, hj⟩ := h.masked
  have hob := oldBucket_le hj
  have hmax : w'.hctl.maxBucket = w.hctl.maxBucket + 1 := by rw [hctl, growMasks_maxBucket]
  have hcall : ∀ v, callHash w'.hctl v = callHash (growMasks w.hctl) v := by
    intro v
    rw [hctl, callHash_growMasks]
  have hvalue : ∀ b ≤ w.hctl.maxBucket, ∀ e ∈ chains b, hash (w.keys e) (behind e) = hash' (w.keys e) :=
    fun b hb e he => hstored e ⟨b, hb, he⟩ (behind e)
  have hold : ∀ e ∈ chains (oldBucket w.hctl),
      callHash w.hctl (hash (w.keys e) (behind e)) = oldBucket w.hctl := by
    intro e he
    rw [hvalue _ hob e he]
    exact h.home _ hob e he
  refine ⟨hmax, hkeys, ?_, ?_, fun b hb hne => ⟨?_, fun e he => ?_⟩, h'.consistent fun e he => ?_⟩
  · show splitChains hash' w chains _ = (chains (oldBucket w.hctl)).filter _
    unfold splitChains
    dsimp only
    rw [if_pos rfl]
    refine List.filter_congr fun e he => ?_
    rw [hold e he, hcall, hvalue _ hob e he]
  · show splitChains hash' w chains (oldBucket w.hctl) = (chains (oldBucket w.hctl)).filter _
    unfold splitChains
    dsimp only
    rw [if_neg (by omega), if_pos rfl]
    refine List.filter_congr fun e he => ?_
    rw [hold e he, hcall, hvalue _ hob e he]
  · unfold splitChains
    dsimp only
    rw [if_neg (by omega)]
    exact if_neg hne
  · rw [hcall]
    refine (callHash_grow hj _).resolve_right fun hf => hne ?_
    rw [hvalue b hb e he, h.home b hb e he] at hf
    exact hf.1
  · rw [hkeys]
    obtain ⟨b, hb, he⟩ := he
    rw [hmax] at hb
    obtain ⟨-, b', hb', hin, -⟩ := h.mem_splitChains hb he
    exact hstored e ⟨b', hb', hin⟩

theorem LeftAt.grown (h : Table hash' hashp w chains free) (hleft : LeftAt A hashp w hashp' w') :
    Table hash' hashp' w' chains free ∧ Grown hashp w hashp' w' := by
  cases hleft with
  | start => exact ⟨h, .refl hashp w⟩
  | segment hge hroom =>
    have hnum : newSegnum w.hctl = w.hctl.nsegs := Nat.le_antisymm h.newSegnum_le hge
    obtain ⟨htable, hgrown, -⟩ := (ensureDirectory_spec h hnum).of_ok hroom
    exact ⟨htable, hgrown⟩

theorem Table.expands (h : Table hash' hashp w chains free) (hstored : Stored hash hash' w chains)
    (hlen : ∀ b ≤ w.hctl.maxBucket, (chains b).length ≤ w.hctl.nkeys) (behind : Nat → Rest) :
    Expands hash A hashp w chains behind := by
  refine ⟨?_, fun hashp' w' hleft => ?_⟩
  · rw [expandTableAt_eq h fun e he => hstored e he (behind e)]
    refine (expandTable_chains h hlen).mono (fun e he => he) ?_
    rintro ⟨hashp', w'⟩ ⟨hsame, hkeys, dsize, nsegs, ⟨hctl, ht⟩ | ⟨hctl, ht⟩⟩
    · exact Or.inl (Grown.unexpanded ⟨hsame, ⟨dsize, nsegs, hctl⟩, hkeys⟩ ht hstored)
    · exact Or.inr ⟨_, h.bucketAdded hstored hctl hkeys ht behind⟩
  · obtain ⟨ht, hgrown⟩ := hleft.grown h
    exact hgrown.unexpanded ht hstored

/-! ## Every run -/

variable [DecidableEq Key]

/-- A call of `hash_search` that enters its key comes to `expand_table`. -/
inductive Entered (hash : Key → Rest → Int) (A : Allocator) (hashp : HashTable) (w : World Key)
    (key : Key) (rest : Rest) : World Key → Prop where
  | mk {prev : Cell} {w₀ : World Key} :
      followChain w key w.hctl.nkeys (bucketCell hashp w (callHash w.hctl (hash key rest))) =
        .ok (prev, INVALID_INDEX) →
      ensureElement A hashp w = .ok (true, w₀) → Entered hash A hashp w key rest (insertElement w₀ prev key)

/-- What happens to a table, without what it answers. -/
inductive Move (Key : Type) where
  | attach
  | others
  | call (key : Key) (action : HashAction)
  | removeSaved (handle : Nat) (locals : Locals)

/-- One more handle, memory given to others, and calls through some handle: one that returns,
one that an `elog` ends once the key is entered, and one that removes what its variables
hold. -/
inductive TableStep (hash : Key → Rest → Int) (A : Allocator) (flags : HashFlags) (info : HashCtrl) :
    System Key → Move Key → System Key → Prop where
  | attach {s : System Key} : flags.sharedMem = true → info.dir ≠ 0 →
      TableStep hash A flags info s .attach { s with handles := s.handles ++ [hashAttach info] }
  | others {s : System Key} {heap : Heap} : (∀ r ∈ s.world.heap.regions, r ∈ heap.regions) →
      TableStep hash A flags info s .others { s with world := { s.world with heap := heap } }
  | search {s : System Key} {i : Nat} {hashp hashp' : HashTable} {w' : World Key} {key : Key}
      {action : HashAction} {rest : Rest} {behind : Nat → Rest} {result : Result} {found : Bool} :
      s.handles[i]? = some hashp →
      hashSearchAt hash A hashp s.world key rest behind action = .ok (result, found, hashp', w') →
      TableStep hash A flags info s (.call key action) { world := w', handles := s.handles.set i hashp' }
  | left {s : System Key} {i : Nat} {hashp hashp' : HashTable} {w₁ w' : World Key} {key : Key}
      {rest : Rest} : s.handles[i]? = some hashp → Entered hash A hashp s.world key rest w₁ →
      LeftAt A hashp w₁ hashp' w' →
      TableStep hash A flags info s (.call key .HASH_ENTER)
        { world := w', handles := s.handles.set i hashp' }
  | removeSaved {s : System Key} {i : Nat} {hashp hashp' : HashTable} {w' : World Key}
      {saveState : SaveState} {locals : Locals} {result : Result} {found : Bool} :
      s.handles[i]? = some hashp →
      hashSearchRemoveSaved hashp s.world saveState locals = .ok (result, found, hashp', w') →
      TableStep hash A flags info s (.removeSaved i locals)
        { world := w', handles := s.handles.set i hashp' }

/-- The hash of the key does not depend on what is behind it. -/
def Settled (hash : Key → Rest → Int) (key : Key) : Prop := ∀ rest rest', hash key rest = hash key rest'

/-- The variables of `hash_search` hold an element of some chain and the cell before it, or
none. -/
def Locals.OnChain (hashp : HashTable) (w : World Key) (locals : Locals) : Prop :=
  locals.currIndex = INVALID_INDEX ∨ ∃ b ≤ w.hctl.maxBucket, ∃ l₁ e l₂,
    Chain Cell.next 0 w.cells (bucketCell hashp w b) (l₁ ++ e :: l₂) ∧
      locals = ⟨e, e, some (lastCell Cell.next (bucketCell hashp w b) l₁)⟩

/-- A key that is entered hashes alike everywhere, and `HASH_REMOVE_SAVED` finds its variables
set. -/
def Move.Proper (hash : Key → Rest → Int) (s : System Key) : Move Key → Prop
  | .call key .HASH_ENTER => Settled hash key
  | .removeSaved i locals => ∀ hashp, s.handles[i]? = some hashp → locals.OnChain hashp s.world
  | _ => True

theorem Holds.stored (hm : Holds w chains m) (hkeys : ∀ k ∈ m, HashedAs hash hash' k) :
    Stored hash hash' w chains := fun _ he => hkeys _ (hm.mem he)

theorem Represents.rehash (h : Represents hash' hashp w m) {hash'' : Key → Int}
    (heq : ∀ k ∈ m, hash'' k = hash' k) : Represents hash'' hashp w m := by
  obtain ⟨chains, free, ht, hm, hcard⟩ := h
  exact ⟨chains, free, ht.rehash fun e he => heq _ (hm.mem he), hm, hcard⟩

theorem Grown.represents (hgrown : Grown hashp w hashp' w') (h : Table hash' hashp' w' chains free)
    (hm : Holds w chains m) (hcard : w.hctl.nkeys = m.keys.card) : Represents hash' hashp' w' m := by
  obtain ⟨dsize, nsegs, hctl⟩ := hgrown.hctl
  refine ⟨chains, free, h, fun k e => ?_, by rw [hctl]; exact hcard⟩
  rw [hm k e, hgrown.keys]
  unfold OnChain
  rw [hctl]

/-- The keys of the map hash as `hash''` says, which is `hash'` but for the key of a call. -/
theorem update_hashedAs (hkeys : ∀ k ∈ m, HashedAs hash hash' k) (key : Key) (rest : Rest) {k : Key}
    (hk : k ∈ m) : Function.update hash' key (hash key rest) k = hash' k ∧
      HashedAs hash (Function.update hash' key (hash key rest)) k := by
  have hsame : Function.update hash' key (hash key rest) k = hash' k := by
    by_cases heq : k = key
    · subst heq
      rw [Function.update_self]
      exact hkeys k hk rest
    · exact Function.update_of_ne heq _ _
  exact ⟨hsame, fun rest' => (hkeys k hk rest').trans hsame.symm⟩

/-- The key of a call is the only one that may come to the map. -/
theorem Dict.Answers.mem {call : Call Key} {m' : Dict Key} (h : m.Answers call m') {k : Key} (hk : k ∈ m') :
    k ∈ m ∨ k = call.key ∧ call.action = .HASH_ENTER := by
  cases h with
  | hit _ _ => exact Or.inl hk
  | miss _ _ => exact Or.inl hk
  | remove _ => exact Or.inl (Finmap.mem_erase.mp hk).2
  | enter _ _ _ =>
    rcases Finmap.mem_insert.mp hk with heq | hin
    · exact Or.inr ⟨heq, rfl⟩
    · exact Or.inl hin
  | refused _ => exact Or.inl hk

/-- The table stands for a map whose keys hash alike whatever is behind them. -/
def SettledKeys (hash : Key → Rest → Int) (flags : HashFlags) (info : HashCtrl) (s : System Key) : Prop :=
  ∃ hash' m hashp, Shared hash' flags info s m hashp ∧ ∀ k ∈ m, HashedAs hash hash' k

theorem Entered.represents (h : Represents hash' hashp w m) {key : Key} {rest : Rest}
    (hrest : hash key rest = hash' key) {w₁ : World Key} (hent : Entered hash A hashp w key rest w₁) :
    ∃ e, Represents hash' hashp w₁ (m.insert key e) := by
  obtain ⟨chains, free, ht, hm, hcard⟩ := h
  have hb := ht.hash_le (hash' key)
  obtain ⟨r, hfollow, hres⟩ := followChain_spec key (ht.chain _ hb) (ht.length_le hm hcard hb)
  obtain ⟨hprev, hroom⟩ := hent
  rw [hrest, hfollow] at hprev
  obtain rfl := Except.ok.inj hprev
  cases hres with
  | miss hmiss => exact ⟨_, Represents.entered ht hm hcard hmiss hroom⟩
  | hit _ _ hne _ => exact absurd rfl hne

/-- With its variables set, `HASH_REMOVE_SAVED` removes an element. -/
theorem Represents.removeSaved (h : Represents hash' hashp w m) {saveState : SaveState} {locals : Locals}
    (hlocals : locals.OnChain hashp w) {result : Result} {found : Bool}
    (hrun : hashSearchRemoveSaved hashp w saveState locals = .ok (result, found, hashp', w')) :
    ∃ m', SameHandle hashp hashp' ∧ Represents hash' hashp' w' m' ∧ ∀ k ∈ m', k ∈ m := by
  rcases hlocals with hnil | ⟨b, hb, l₁, e, l₂, hl, rfl⟩
  · rcases hashSearchRemoveSaved_cases hrun with ⟨-, heq⟩ | ⟨hne, -⟩
    · obtain ⟨-, -, rfl, rfl⟩ : result = .yes ∧ found = false ∧ hashp' = hashp ∧ w' = w := by
        simpa only [Prod.mk.injEq] using heq
      exact ⟨m, .refl _, h, fun k hk => hk⟩
    · exact absurd hnil hne
  · obtain ⟨chains, free, ht, hm, hcard⟩ := h
    have hchains := Chain.unique (ht.chain b hb) hl
    have hin : e ∈ chains b := hchains ▸ List.mem_append_right l₁ List.mem_cons_self
    have hpos : 0 < w.hctl.nkeys :=
      Nat.lt_of_lt_of_le (List.length_pos_of_mem hin) (ht.length_le hm hcard hb)
    rw [hashSearchRemoveSaved_match ((ht.chain b hb).ne_nil hin) hpos] at hrun
    obtain ⟨-, -, rfl, rfl⟩ : Result.element e = result ∧ true = found ∧ hashp = hashp' ∧ _ = w' := by
      simpa only [Except.ok.injEq, Prod.mk.injEq] using hrun
    exact ⟨_, .refl _, Represents.remove ht hm hcard hb hchains rfl,
      fun k hk => (Finmap.mem_erase.mp hk).2⟩

theorem SettledKeys.step {s s' : System Key} {mv : Move Key} (h : SettledKeys hash flags info s)
    (hs : mv.Proper hash s ∧ TableStep hash A flags info s mv s') : SettledKeys hash flags info s' := by
  obtain ⟨hash', m, hashp₁, hshared, hkeys⟩ := h
  obtain ⟨hproper, hs⟩ := hs
  cases hs with
  | attach hflag hdir => exact ⟨hash', m, hashp₁, hshared.attached hflag hdir, hkeys⟩
  | others hmem =>
    exact ⟨hash', m, hashp₁, ⟨hshared.same, hshared.represents.enlarge hmem, hshared.shared,
      hshared.single⟩, hkeys⟩
  | @search i hashp hashp' w' key action rest behind result found hi hrun =>
    obtain rfl : hashp = hashp₁ := hshared.same _ (List.mem_of_getElem? hi)
    obtain ⟨hlt, -⟩ := List.getElem?_eq_some_iff.mp hi
    have hnew := fun k hk => update_hashedAs hkeys key rest (k := k) hk
    have hown : hash key rest = Function.update hash' key (hash key rest) key := by
      rw [Function.update_self]
    have hrep := hshared.represents.rehash fun k hk => (hnew k hk).1
    have hentered : action = .HASH_ENTER →
        HashedAs hash (Function.update hash' key (hash key rest)) key := by
      rintro rfl rest'
      exact (hproper rest' rest).trans hown
    rw [hashSearchAt_eq hrep (fun k hk => (hnew k hk).2) hown hentered behind] at hrun
    obtain ⟨hsame, m', hrep', hans⟩ := (hashSearch_spec hrep _ action).of_ok hrun
    refine ⟨_, m', hashp', hshared.called hlt hsame hrep', fun k hk => ?_⟩
    rcases hans.mem hk with hin | ⟨rfl, haction⟩
    · exact (hnew k hin).2
    · exact hentered haction
  | @left i hashp hashp' w₁ w' key rest hi hent hleft =>
    obtain rfl : hashp = hashp₁ := hshared.same _ (List.mem_of_getElem? hi)
    obtain ⟨hlt, -⟩ := List.getElem?_eq_some_iff.mp hi
    have hnew := fun k hk => update_hashedAs hkeys key rest (k := k) hk
    have hown : hash key rest = Function.update hash' key (hash key rest) key := by
      rw [Function.update_self]
    have hrep := hshared.represents.rehash fun k hk => (hnew k hk).1
    obtain ⟨e, chains, free, ht, hm, hcard⟩ := hent.represents hrep hown
    obtain ⟨ht', hgrown⟩ := hleft.grown ht
    refine ⟨_, _, hashp', hshared.called hlt hgrown.handle (hgrown.represents ht' hm hcard),
      fun k hk => ?_⟩
    rcases Finmap.mem_insert.mp hk with rfl | hin
    · exact fun rest' => (hproper rest' rest).trans hown
    · exact (hnew k hin).2
  | @removeSaved i hashp hashp' w' saveState locals result found hi hrun =>
    obtain rfl : hashp = hashp₁ := hshared.same _ (List.mem_of_getElem? hi)
    obtain ⟨hlt, -⟩ := List.getElem?_eq_some_iff.mp hi
    obtain ⟨m', hsame, hrep, hsub⟩ := hshared.represents.removeSaved (hproper _ hi) hrun
    exact ⟨hash', m', hashp', hshared.called hlt hsame hrep, fun k hk => hkeys k (hsub k hk)⟩

/-- In every run that enters only keys whose hash does not depend on what is behind them, and
removes saved elements only with its variables set, masks, segments and chains are consistent
at all times. `expand_table` keeps them so: it moves the elements of one bucket whose
`call_hash` changes, or changes nothing. -/
theorem tables_stay_consistent {nelem : Int} {w₀ : World Key} (hasked : Asked flags info w₀)
    (hcreate : hashCreate A w₀ nelem info flags = .ok (some (hashp, w)))
    {l : List (Move Key)} {s : System Key}
    (hrun : Run (fun s mv s' => mv.Proper hash s ∧ TableStep hash A flags info s mv s') ⟨w, [hashp]⟩ l s) :
    ∀ h ∈ s.handles, ∃ chains, Consistent hash h s.world chains ∧
      ∀ behind, Expands hash A h s.world chains behind := by
  have hstart : SettledKeys hash flags info ⟨w, [hashp]⟩ := by
    refine ⟨fun _ => 0, ∅, hashp, .create hasked hcreate, fun k hk => absurd hk Finmap.notMem_empty⟩
  have hkept := hrun.invariant (fun _ _ _ => SettledKeys.step) hstart
  obtain ⟨hash', m, hashp', hshared, hkeys⟩ := hkept
  obtain ⟨chains, free, ht, hm, hcard⟩ := hshared.represents
  intro h hin
  obtain rfl := hshared.same h hin
  have hstored := hm.stored hkeys
  exact ⟨chains, ht.consistent hstored,
    ht.expands hstored fun b hb => ht.length_le hm hcard hb⟩

/-- The hash of a key of `keysize` bytes in a memory with a zero somewhere behind it. -/
def keyHash (f : HashFunction) (keysize : Nat) (key rest : List UInt8) : Int :=
  (f.run (key ++ (rest ++ [0])) (Int.bmod keysize (2 ^ 32))).getD 0

/-- Keys for `tag_hash`, and terminated ones for `string_hash`. -/
theorem keyHash_settled {f : HashFunction} (key : List UInt8) (h : f = .tag_hash ∨ 0 ∈ key) :
    Settled (keyHash f key.length) key := by
  intro rest rest'
  obtain ⟨v, hv⟩ := HashFunction.run_append h
  unfold keyHash
  rw [hv, hv]

/-- Two terminated keys make a table of one bucket grow. -/
theorem tables_stay_consistent_example : ∃ hashp w s,
    hashCreate bumpAllocator (freshWorld ([] : List UInt8)) 1 { keysize := 2, datasize := 8 }
      { elem := true } = .ok (some (hashp, w)) ∧
    Run (fun s mv s' => mv.Proper (keyHash .string_hash 2) s ∧ TableStep (keyHash .string_hash 2)
      bumpAllocator { elem := true } { keysize := 2, datasize := 8 } s mv s')
      ⟨w, [hashp]⟩ [.call [65, 0] .HASH_ENTER, .call [66, 0] .HASH_ENTER] s ∧
    s.world.hctl.maxBucket = 1 ∧
    ∀ h ∈ s.handles, ∃ chains, Consistent (keyHash .string_hash 2) h s.world chains ∧
      ∀ behind, Expands (keyHash .string_hash 2) bumpAllocator h s.world chains behind := by
  have hasked : Asked { elem := true } { keysize := 2, datasize := 8 } (freshWorld ([] : List UInt8)) :=
    ⟨(nomatch ·), (nomatch ·)⟩
  have heval : okAnd (hashCreate bumpAllocator (freshWorld ([] : List UInt8)) 1
      { keysize := 2, datasize := 8 } { elem := true }) (fun r => r.any fun t =>
      okAnd (hashSearchAt (keyHash .string_hash 2) bumpAllocator t.1 t.2 [65, 0] [1] (fun _ => [2])
        .HASH_ENTER) fun t₁ =>
        okAnd (hashSearchAt (keyHash .string_hash 2) bumpAllocator t₁.2.2.1 t₁.2.2.2 [66, 0] [3] (fun _ => [4])
          .HASH_ENTER) fun t₂ => decide (t₂.2.2.2.hctl.maxBucket = 1)) = true := by decide +kernel
  obtain ⟨r, hcreate, hsome⟩ := okAnd_iff.mp heval
  obtain ⟨⟨hashp, w⟩, rfl, hone⟩ := (Option.any_eq_true _ _).mp hsome
  obtain ⟨⟨r₁, f₁, hashp₁, w₁⟩, hfirst, htwo⟩ := okAnd_iff.mp hone
  obtain ⟨⟨r₂, f₂, hashp₂, w₂⟩, hsecond, hgrown⟩ := okAnd_iff.mp htwo
  have henter : TableStep (keyHash .string_hash 2) bumpAllocator { elem := true }
      { keysize := 2, datasize := 8 } ⟨w, [hashp]⟩ (.call [65, 0] .HASH_ENTER) ⟨w₁, [hashp₁]⟩ :=
    .search (i := 0) rfl hfirst
  have henter' : TableStep (keyHash .string_hash 2) bumpAllocator { elem := true }
      { keysize := 2, datasize := 8 } ⟨w₁, [hashp₁]⟩ (.call [66, 0] .HASH_ENTER) ⟨w₂, [hashp₂]⟩ :=
    .search (i := 0) rfl hsecond
  have hrun : Run (fun s mv s' => mv.Proper (keyHash .string_hash 2) s ∧
      TableStep (keyHash .string_hash 2) bumpAllocator { elem := true } { keysize := 2, datasize := 8 }
        s mv s') ⟨w, [hashp]⟩ [.call [65, 0] .HASH_ENTER, .call [66, 0] .HASH_ENTER] ⟨w₂, [hashp₂]⟩ :=
    .cons ⟨keyHash_settled [65, 0] (Or.inr (by decide)), henter⟩
      (.cons ⟨keyHash_settled [66, 0] (Or.inr (by decide)), henter'⟩ (.nil _))
  exact ⟨hashp, w, _, hcreate, hrun, of_decide_eq_true hgrown,
    tables_stay_consistent hasked hcreate hrun⟩

/-- A name of 50 characters in a key of 50 bytes: what the caller has behind it leads to
bucket 88, where `hash_search` puts the element, and what the element has behind it to
bucket 122. -/
theorem string_hash_misplaces : ∃ hashp w e s,
    Asked { elem := true } { keysize := 50, datasize := 8 } (freshWorld ([] : List UInt8)) ∧
    hashCreate bumpAllocator (freshWorld ([] : List UInt8)) 128 { keysize := 50, datasize := 8 }
      { elem := true } = .ok (some (hashp, w)) ∧
    Run (TableStep (keyHash .string_hash 50) bumpAllocator { elem := true } { keysize := 50, datasize := 8 })
      ⟨w, [hashp]⟩ [.call (List.replicate 50 65) .HASH_ENTER] s ∧ s.handles = [hashp] ∧
    Chain Cell.next 0 s.world.cells (bucketCell hashp s.world 88) [e] ∧
    s.world.keys e = List.replicate 50 65 ∧
    callHash s.world.hctl (keyHash .string_hash 50 (s.world.keys e) []) = 122 := by
  have heval : okAnd (hashCreate bumpAllocator (freshWorld ([] : List UInt8)) 128
      { keysize := 50, datasize := 8 } { elem := true }) (fun r => r.any fun t =>
      okAnd (hashSearchAt (keyHash .string_hash 50) bumpAllocator t.1 t.2 (List.replicate 50 65) [33]
        (fun _ => []) .HASH_ENTER) fun t₁ =>
        decide (t₁.2.2.1 = t.1 ∧ t₁.2.2.2.cells (bucketCell t.1 t₁.2.2.2 88) = 4144 ∧
          t₁.2.2.2.cells (.next 4144) = 0 ∧ t₁.2.2.2.keys 4144 = List.replicate 50 65 ∧
          callHash t₁.2.2.2.hctl (keyHash .string_hash 50 (t₁.2.2.2.keys 4144) []) = 122)) = true := by
    decide +kernel
  obtain ⟨r, hcreate, hsome⟩ := okAnd_iff.mp heval
  obtain ⟨⟨hashp, w⟩, rfl, hone⟩ := (Option.any_eq_true _ _).mp hsome
  obtain ⟨⟨result, found, hashp', w'⟩, hsearch, htest⟩ := okAnd_iff.mp hone
  obtain ⟨rfl, hcell, hnext, hkey, hcall⟩ := of_decide_eq_true htest
  refine ⟨hashp', w, 4144, ⟨w', [hashp']⟩, ⟨(nomatch ·), (nomatch ·)⟩, hcreate, ?_, rfl,
    ⟨hcell, by decide, hnext⟩, hkey, hcall⟩
  exact .cons (TableStep.search (i := 0) rfl hsearch) (.nil _)

end PostgresV7.Dynahash
