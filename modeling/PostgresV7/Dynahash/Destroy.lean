import PostgresV7.Dynahash.Asserts

/-!
# `hash_destroy`

It frees every element of every chain, although elements come in groups of thirty, and
none of the free list. What it frees is what the table holds only when the elements on
chains are the first ones of the groups.
-/

namespace PostgresV7.Dynahash

open Regions Chains Outcomes Runs

def SIZEOF_HTAB : Nat := 40

variable {Key : Type}

/-- `hash_create` of a table that is not shared, with the handle and the header it
allocates first. -/
def hashCreateOwned (A : Allocator) (w : World Key) (nelem : Int) (info : HashCtrl)
    (flags : HashFlags) : Except Fault (Option (Nat × Nat × HashTable × World Key)) := do
  let memAlloc : HashTable := { dir := 0, memAlloc := true }
  match ← hashAlloc A memAlloc w.heap SIZEOF_HTAB with
  | (none, _) => .ok none
  | (some (htab, _), heap) =>
    match ← hashAlloc A memAlloc heap SIZEOF_HASH_HEADER with
    | (none, _) => .ok none
    | (some (hctl, _), heap) =>
      match ← hashCreate A { w with heap := heap } nelem info flags with
      | none => .ok none
      | some (hashp, w) => .ok (some (htab, hctl, hashp, w))

/-! ## `hash_destroy` -/

/-- The loop along a chain, with `k` elements left: what it passes to `MEM_FREE`. -/
def destroyChain (cells : Cell → Nat) : Nat → Nat → Except Fault (List Nat)
  | k, p =>
    if p = INVALID_INDEX then .ok []
    else
      match k with
      | 0 => .error .endless
      | k + 1 => do
        let q := cells (.next p)
        let rest ← destroyChain cells k q
        .ok (p :: rest)

/-- The loop over the buckets of a segment; `n` are left. -/
def destroyBuckets (w : World Key) (segp : Nat) : Nat → Nat → Except Fault (List Nat)
  | 0, _ => .ok []
  | n + 1, j => do
    let chain ← destroyChain w.cells w.hctl.nkeys (w.cells (.bucket segp j))
    let rest ← destroyBuckets w segp n (j + 1)
    .ok (chain ++ rest)

/-- The loop over the segments; `n` are left. -/
def destroySegments (hashp : HashTable) (w : World Key) : Nat → Nat → Except Fault (List Nat)
  | 0, _ => .ok []
  | n + 1, segNum => do
    let segp := w.dirs hashp.dir segNum
    let elements ← destroyBuckets w segp w.hctl.ssize 0
    let rest ← destroySegments hashp w n (segNum + 1)
    .ok (elements ++ segp :: rest)

/-- `hash_destroy` of the handle at `htab` with its header at `hctl`: the addresses it
passes to `MEM_FREE`, in their order. The table has no `segbase`. -/
def hashDestroy (htab hctl : Nat) (hashp : HashTable) (w : World Key) : Except Fault (List Nat) := do
  check (hashp.memAlloc = true)
  let freed ← destroySegments hashp w w.hctl.nsegs 0
  .ok (freed ++ [hashp.dir, hctl, htab])

/-- `hash_destroy` frees what is allocated now and was not `before`, each address once. -/
def FreesHeld (htab hctl : Nat) (hashp : HashTable) (w : World Key) (before : List Region) : Prop :=
  ∃ freed, hashDestroy htab hctl hashp w = .ok freed ∧
    (freed ++ before.map Region.base).Perm (w.heap.regions.map Region.base)

/-! ## The loops -/

variable {hash : Key → Int} {A : Allocator} {hashp : HashTable} {w w' : World Key}
  {chains : Nat → List Nat} {free groups : List Nat} {others : List Region}

theorem destroyChain_spec {cells : Cell → Nat} {k p : Nat} {l : List Nat}
    (h : Linked Cell.next 0 cells p l) (hk : l.length ≤ k) : destroyChain cells k p = .ok l := by
  induction l generalizing k p with
  | nil =>
    unfold destroyChain
    exact if_pos h
  | cons e l ih =>
    obtain ⟨rfl, hne, -⟩ := id h
    cases k with
    | zero => exact absurd hk (Nat.not_succ_le_zero _)
    | succ k =>
      unfold destroyChain
      rw [if_neg (show p ≠ INVALID_INDEX from hne)]
      dsimp only
      rw [ih h.tail (Nat.le_of_succ_le_succ hk)]
      rfl

theorem destroyBuckets_spec {segp n j : Nat} {chainOf : Nat → List Nat}
    (h : ∀ i, j ≤ i → i < j + n → Chain Cell.next 0 w.cells (.bucket segp i) (chainOf i) ∧
      (chainOf i).length ≤ w.hctl.nkeys) :
    destroyBuckets w segp n j = .ok ((List.range' j n).flatMap chainOf) := by
  induction n generalizing j with
  | zero => rfl
  | succ n ih =>
    obtain ⟨hchain, hlen⟩ := h j (Nat.le_refl j) (by omega)
    unfold destroyBuckets
    rw [destroyChain_spec (chain_iff_linked.mp hchain) hlen,
      ih fun i hi hlt => h i (Nat.le_of_succ_le hi) (by omega)]
    rfl

theorem destroySegments_spec {n segNum : Nat} {elementsOf : Nat → List Nat}
    (h : ∀ i, segNum ≤ i → i < segNum + n →
      destroyBuckets w (w.dirs hashp.dir i) w.hctl.ssize 0 = .ok (elementsOf i)) :
    destroySegments hashp w n segNum =
      .ok ((List.range' segNum n).flatMap fun i => elementsOf i ++ [w.dirs hashp.dir i]) := by
  induction n generalizing segNum with
  | zero => rfl
  | succ n ih =>
    unfold destroySegments
    dsimp only
    rw [h segNum (Nat.le_refl segNum) (by omega),
      ih fun i hi hlt => h i (Nat.le_of_succ_le hi) (by omega)]
    rw [List.range'_succ, List.flatMap_cons, List.append_assoc]
    rfl

/-! ## The elements it frees -/

/-- The chain of each bucket there is a segment for. -/
def allChains (w : World Key) (chains : Nat → List Nat) (b : Nat) : List Nat :=
  if b ≤ w.hctl.maxBucket then chains b else []

def chainedElements (w : World Key) (chains : Nat → List Nat) : List Nat :=
  (List.range (w.hctl.nsegs * w.hctl.ssize)).flatMap (allChains w chains)

theorem flatMap_range_mul {α : Type} (f : Nat → List α) (n k : Nat) :
    (List.range (n * k)).flatMap f =
      (List.range n).flatMap fun i => (List.range k).flatMap fun j => f (i * k + j) := by
  induction n with
  | zero => rw [Nat.zero_mul]; rfl
  | succ n ih =>
    rw [Nat.succ_mul, List.range_add, List.flatMap_append, ih, List.range_succ, List.flatMap_append,
      List.flatMap_map]
    simp only [List.flatMap_cons, List.flatMap_nil, List.append_nil]

theorem mem_allChains {b e : Nat} :
    e ∈ allChains w chains b ↔ b ≤ w.hctl.maxBucket ∧ e ∈ chains b := by
  unfold allChains
  split
  · rename_i hb
    exact (and_iff_right hb).symm
  · rename_i hb
    exact iff_of_false List.not_mem_nil fun h => hb h.1

theorem Table.mem_chainedElements (h : Table hash hashp w chains free) {e : Nat} :
    e ∈ chainedElements w chains ↔ OnChain w chains e := by
  unfold chainedElements
  rw [List.mem_flatMap]
  constructor
  · rintro ⟨b, -, he⟩
    exact ⟨b, mem_allChains.mp he⟩
  · rintro ⟨b, hb, he⟩
    refine ⟨b, List.mem_range.mpr ?_, mem_allChains.mpr ⟨hb, he⟩⟩
    have hcov := h.covered_le hb
    rw [Nat.shiftRight_eq_div_pow, ← h.segments.ssize] at hcov
    exact (Nat.div_lt_iff_lt_mul (h.segments.ssize ▸ Nat.two_pow_pos _)).mp hcov

theorem Table.nodup_chainedElements (h : Table hash hashp w chains free) :
    (chainedElements w chains).Nodup := by
  unfold chainedElements
  refine List.nodup_flatMap.mpr ⟨fun b _ => ?_, List.nodup_range.imp fun {b b'} hne => ?_⟩
  · unfold allChains
    split
    · rename_i hb
      exact (h.chain b hb).nodup
    · exact List.nodup_nil
  · intro e he he'
    obtain ⟨hb, he⟩ := mem_allChains.mp he
    obtain ⟨hb', he'⟩ := mem_allChains.mp he'
    exact hne (h.chain_inj hb hb' he he')

/-- The buckets of segment `i`. -/
theorem Segments.bucketCell_at (h : Segments hashp w) {i j : Nat} (hj : j < w.hctl.ssize) :
    (i * w.hctl.ssize + j) >>> w.hctl.sshift = i ∧
      bucketCell hashp w (i * w.hctl.ssize + j) = .bucket (w.dirs hashp.dir i) j := by
  have hpos : 0 < w.hctl.ssize := Nat.zero_lt_of_lt hj
  have hseg : (i * w.hctl.ssize + j) >>> w.hctl.sshift = i := by
    rw [Nat.shiftRight_eq_div_pow, ← h.ssize, Nat.add_comm, Nat.add_mul_div_right _ _ hpos,
      Nat.div_eq_of_lt hj, Nat.zero_add]
  have hndx : (i * w.hctl.ssize + j) &&& (w.hctl.ssize - 1) = j := by
    rw [h.ssize, Nat.and_two_pow_sub_one_eq_mod, ← h.ssize, Nat.add_comm, Nat.add_mul_mod_self_right,
      Nat.mod_eq_of_lt hj]
  refine ⟨hseg, ?_⟩
  unfold bucketCell
  rw [hseg, hndx]

/-- The loops free the elements on chains and the segments. -/
theorem Table.destroySegments (h : Table hash hashp w chains free)
    (hled : Ledger hashp w groups others)
    (hlen : ∀ b ≤ w.hctl.maxBucket, (chains b).length ≤ w.hctl.nkeys) :
    ∃ freed, destroySegments hashp w w.hctl.nsegs 0 = .ok freed ∧
      freed.Perm (chainedElements w chains ++ (List.range w.hctl.nsegs).map (w.dirs hashp.dir)) := by
  have hsegment : ∀ i, i < w.hctl.nsegs →
      destroyBuckets w (w.dirs hashp.dir i) w.hctl.ssize 0 = .ok ((List.range' 0 w.hctl.ssize).flatMap
        fun j => allChains w chains (i * w.hctl.ssize + j)) := by
    intro i hi
    refine destroyBuckets_spec fun j _ hj => ?_
    rw [Nat.zero_add] at hj
    obtain ⟨hseg, hcell⟩ := h.segments.bucketCell_at (i := i) hj
    rw [← hcell]
    unfold allChains
    split
    · rename_i hb
      exact ⟨h.chain _ hb, hlen _ hb⟩
    · rename_i hb
      exact ⟨hled.unused _ (Nat.not_le.mp hb) (hseg.symm ▸ hi), Nat.zero_le _⟩
  refine ⟨_, destroySegments_spec fun i _ hi => hsegment i (by omega), ?_⟩
  unfold chainedElements
  rw [flatMap_range_mul, ← List.range_eq_range', ← List.range_eq_range', List.map_eq_flatMap]
  exact (List.flatMap_append_perm _ _ _).symm

/-- What `hash_destroy` frees is what the table holds if and only if the elements on chains
are the groups. -/
theorem Table.destroy_iff [DecidableEq Key] {m : Dict Key} (h : Table hash hashp w chains free)
    (hm : Holds w chains m) (hcard : w.hctl.nkeys = m.keys.card) {htab hctl : Nat} {before : List Region}
    (hled : Ledger hashp w groups (⟨hctl, SIZEOF_HASH_HEADER⟩ :: ⟨htab, SIZEOF_HTAB⟩ :: before)) :
    FreesHeld htab hctl hashp w before ↔
      hashp.memAlloc = true ∧ ∀ e, OnChain w chains e ↔ e ∈ groups := by
  obtain ⟨freed, hrun, hperm⟩ := h.destroySegments hled fun b hb => h.length_le hm hcard hb
  generalize hsegs : (List.range w.hctl.nsegs).map (w.dirs hashp.dir) = segs at hperm
  have hheld : (w.heap.regions.map Region.base).Perm
      (groups ++ (segs ++ [hashp.dir, hctl, htab] ++ before.map Region.base)) := by
    have hbases := hled.regions.map Region.base
    unfold tableRegions at hbases
    simp only [List.map_cons, List.map_append, List.map_map] at hbases
    have hgroups : groups.map (Region.base ∘ groupRegion w.hctl) = groups := List.map_id groups
    have hdirs : (List.range w.hctl.nsegs).map (Region.base ∘ segRegion hashp w) = segs := hsegs
    rw [hgroups, hdirs] at hbases
    refine hbases.trans (List.perm_iff_count.mpr fun a => ?_)
    simp only [List.count_append, List.count_cons, List.count_nil, dirRegion]
    omega
  have hfrees : (freed ++ [hashp.dir, hctl, htab] ++ before.map Region.base).Perm
      (chainedElements w chains ++ (segs ++ [hashp.dir, hctl, htab] ++ before.map Region.base)) := by
    rw [← List.append_assoc, ← List.append_assoc]
    exact (hperm.append_right _).append_right _
  have hsame : (freed ++ [hashp.dir, hctl, htab] ++ before.map Region.base).Perm
      (w.heap.regions.map Region.base) ↔ ∀ e, OnChain w chains e ↔ e ∈ groups := by
    calc (freed ++ [hashp.dir, hctl, htab] ++ before.map Region.base).Perm
          (w.heap.regions.map Region.base)
        ↔ (chainedElements w chains ++ (segs ++ [hashp.dir, hctl, htab] ++ before.map Region.base)).Perm
            (groups ++ (segs ++ [hashp.dir, hctl, htab] ++ before.map Region.base)) :=
          ⟨fun hp => hfrees.symm.trans (hp.trans hheld), fun hp => hfrees.trans (hp.trans hheld.symm)⟩
      _ ↔ (chainedElements w chains).Perm groups := List.perm_append_right_iff _
      _ ↔ ∀ e, e ∈ chainedElements w chains ↔ e ∈ groups :=
          List.perm_ext_iff_of_nodup h.nodup_chainedElements hled.nodup
      _ ↔ ∀ e, OnChain w chains e ↔ e ∈ groups :=
          forall_congr' fun e => iff_congr h.mem_chainedElements Iff.rfl
  unfold FreesHeld hashDestroy
  by_cases hmem : hashp.memAlloc = true
  · rw [check_holds hmem, hrun]
    constructor
    · rintro ⟨freed', heq, hp⟩
      obtain rfl := Except.ok.inj heq
      exact ⟨hmem, hsame.mp hp⟩
    · rintro ⟨-, hon⟩
      exact ⟨_, rfl, hsame.mpr hon⟩
  · rw [check_fails hmem]
    exact iff_of_false (fun ⟨_, heq, _⟩ => nomatch heq) fun hf => hmem hf.1

/-! ## Runs -/

variable [DecidableEq Key] {flags : HashFlags} {info : HashCtrl}

omit [DecidableEq Key] in
/-- The handle and the header are allocated before the rest. -/
theorem hashCreateOwned_cases {nelem : Int} {w₀ : World Key} {htab hctl : Nat}
    (h : hashCreateOwned A w₀ nelem info flags = .ok (some (htab, hctl, hashp, w))) :
    ∃ heap, heap.regions = ⟨hctl, SIZEOF_HASH_HEADER⟩ :: ⟨htab, SIZEOF_HTAB⟩ :: w₀.heap.regions ∧
      hashCreate A { w₀ with heap := heap } nelem info flags = .ok (some (hashp, w)) := by
  unfold hashCreateOwned at h
  obtain ⟨⟨chunk, heap₁⟩, hhtab, h⟩ := bind_eq_ok h
  have hspec₁ := (hashAlloc_spec A _ _ _).of_ok hhtab
  cases chunk with
  | none => cases h
  | some chunk =>
    obtain ⟨p, room⟩ := chunk
    obtain ⟨⟨chunk', heap₂⟩, hhctl, h⟩ := bind_eq_ok h
    have hspec₂ := (hashAlloc_spec A _ _ _).of_ok hhctl
    cases chunk' with
    | none => cases h
    | some chunk' =>
      obtain ⟨p', room'⟩ := chunk'
      obtain ⟨table, hcreate, h⟩ := bind_eq_ok h
      cases table with
      | none => cases h
      | some table =>
        simp only [Except.ok.injEq, Option.some.injEq, Prod.mk.injEq] at h
        obtain ⟨rfl, rfl, rfl, rfl⟩ := h
        refine ⟨heap₂, ?_, hcreate⟩
        obtain rfl := hspec₁.2.2.1 (by decide)
        obtain rfl := hspec₂.2.2.1 (by decide)
        rw [hspec₂.1.regions, hspec₁.1.regions]

/-- In every state a table of its own reaches, it holds its groups, segments and directory,
its header and its handle; `hash_destroy` frees just these if and only if they come from
`dyna_hash_alloc` and the elements that keys are at are the first ones of the groups. -/
theorem hash_destroy_frees_iff {nelem : Int} {w₀ : World Key} {htab hctl : Nat}
    (hasked : Asked flags info w₀) (hshared : flags.sharedMem = false)
    (hcreate : hashCreateOwned A w₀ nelem info flags = .ok (some (htab, hctl, hashp, w)))
    {l : List (Event Key)} {s : System Key}
    (hrun : Run (Step hash A flags info) ⟨w, [hashp]⟩ l s) :
    ∃ hashp' groups, s.handles = [hashp'] ∧
      s.world.heap.regions.Perm (tableRegions hashp' s.world groups ++
        ⟨hctl, SIZEOF_HASH_HEADER⟩ :: ⟨htab, SIZEOF_HTAB⟩ :: w₀.heap.regions) ∧
      (FreesHeld htab hctl hashp' s.world w₀.heap.regions ↔
        hashp'.memAlloc = true ∧ ∀ e, (∃ key, Reached hash hashp' s.world key e) ↔ e ∈ groups) := by
  obtain ⟨heap, hheap, hcreate⟩ := hashCreateOwned_cases hcreate
  have hasked' : Asked flags info { w₀ with heap := heap } :=
    ⟨hasked.segment, fun hs => absurd (hshared.symm.trans hs) Bool.false_ne_true⟩
  obtain ⟨others, hothers, m, hashp', groups, hR, hled⟩ := run_ledger hasked' hcreate hrun
  obtain rfl := (hothers hshared).trans hheap
  obtain ⟨chains, free, ht, hm, hcard⟩ := id hR.represents
  refine ⟨hashp', groups, hR.single fun hs => ?_, hled.regions, ?_⟩
  · exact absurd (hshared.symm.trans hs.1) Bool.false_ne_true
  · rw [ht.destroy_iff hm hcard hled]
    have hon : ∀ e, OnChain s.world chains e ↔ ∃ key, Reached hash hashp' s.world key e := by
      intro e
      simp only [hR.represents.reached_iff, hm _ e]
      exact ⟨fun he => ⟨_, he, rfl⟩, fun ⟨_, he, _⟩ => he⟩
    simp only [hon]

theorem hash_destroy_frees_iff_example : ∃ htab hctl hashp w call s,
    hashCreateOwned bumpAllocator (freshWorld (0 : UInt64)) 4 {} {} =
      .ok (some (htab, hctl, hashp, w)) ∧
    Run (Step (fun key => (key.toNat : Int)) bumpAllocator {} {}) ⟨w, [hashp]⟩ [.search 0 call] s ∧
    call.key = 5 ∧ ∃ hashp', ∃ groups : List Nat, s.handles = [hashp'] ∧
      (FreesHeld htab hctl hashp' s.world [] ↔ hashp'.memAlloc = true ∧
        ∀ e, (∃ key, Reached (fun key => (key.toNat : Int)) hashp' s.world key e) ↔ e ∈ groups) := by
  have hasked : Asked {} {} (freshWorld (0 : UInt64)) := ⟨(nomatch ·), (nomatch ·)⟩
  have hruns : okAnd (hashCreateOwned bumpAllocator (freshWorld (0 : UInt64)) 4 {} {}) (fun r => r.any fun t =>
      okAnd (hashSearch (fun key => (key.toNat : Int)) bumpAllocator t.2.2.1 t.2.2.2 5 .HASH_ENTER) fun _ =>
        decide (ElementsFit t.2.2.1 t.2.2.2.hctl ∧
          ¬ Full { t.2.2.2.hctl with nkeys := t.2.2.2.hctl.nkeys + 1 })) = true := by decide +kernel
  obtain ⟨r, hcreate, hsome⟩ := okAnd_iff.mp hruns
  obtain ⟨⟨htab, hctl, hashp, w⟩, rfl, hsearched⟩ := (Option.any_eq_true _ _).mp hsome
  obtain ⟨⟨result, found, hashp₁, w₁⟩, hsearch, htest⟩ := okAnd_iff.mp hsearched
  obtain ⟨hfit, hfull⟩ := of_decide_eq_true htest
  have hs := @Step.search _ _ _ _ {} {} ⟨w, [hashp]⟩ 0 _ _ _ _ _ _ _ rfl
    (fun _ _ => ⟨fun _ => hfit, fun hf => absurd hf hfull⟩) hsearch
  obtain ⟨hashp', groups, hone, -, hiff⟩ :=
    hash_destroy_frees_iff hasked rfl hcreate (.cons hs (.nil _))
  exact ⟨htab, hctl, hashp, w, _, _, hcreate, .cons hs (.nil _), rfl, hashp', groups, hone, hiff⟩

/-- Two keys: the second element is freed, which is in the middle of a group. -/
theorem hash_destroy_frees_element : ∃ htab hctl hashp w call call' s hashp',
    Asked {} {} (freshWorld (0 : UInt64)) ∧
    hashCreateOwned bumpAllocator (freshWorld (0 : UInt64)) 4 {} {} =
      .ok (some (htab, hctl, hashp, w)) ∧
    Run (Step (fun key => (key.toNat : Int)) bumpAllocator {} {}) ⟨w, [hashp]⟩
      [.search 0 call, .search 0 call'] s ∧
    call.key = 5 ∧ call'.key = 6 ∧ s.handles = [hashp'] ∧
    ¬ FreesHeld htab hctl hashp' s.world [] := by
  have hruns : okAnd (hashCreateOwned bumpAllocator (freshWorld (0 : UInt64)) 4 {} {}) (fun r => r.any fun t =>
      okAnd (hashSearch (fun key => (key.toNat : Int)) bumpAllocator t.2.2.1 t.2.2.2 5 .HASH_ENTER) fun t₁ =>
        okAnd (hashSearch (fun key => (key.toNat : Int)) bumpAllocator t₁.2.2.1 t₁.2.2.2 6 .HASH_ENTER) fun t₂ =>
          okAnd (hashDestroy t.1 t.2.1 t₂.2.2.1 t₂.2.2.2) fun freed =>
            decide (ElementsFit t.2.2.1 t.2.2.2.hctl ∧
              ¬ Full { t.2.2.2.hctl with nkeys := t.2.2.2.hctl.nkeys + 1 } ∧
              t₁.2.2.2.hctl.freeBucketIndex ≠ INVALID_INDEX ∧
              ¬ Full { t₁.2.2.2.hctl with nkeys := t₁.2.2.2.hctl.nkeys + 1 } ∧
              ¬ (freed ++ []).Perm (t₂.2.2.2.heap.regions.map Region.base))) = true := by decide +kernel
  obtain ⟨r, hcreate, hsome⟩ := okAnd_iff.mp hruns
  obtain ⟨⟨htab, hctl, hashp, w⟩, rfl, hfirst⟩ := (Option.any_eq_true _ _).mp hsome
  obtain ⟨⟨result, found, hashp₁, w₁⟩, hsearch, hsecond⟩ := okAnd_iff.mp hfirst
  obtain ⟨⟨result', found', hashp₂, w₂⟩, hsearch', hlast⟩ := okAnd_iff.mp hsecond
  obtain ⟨freed, hdestroy, htest⟩ := okAnd_iff.mp hlast
  obtain ⟨hfit, hfull, hfree, hfull', hperm⟩ := of_decide_eq_true htest
  have hs := @Step.search _ _ _ _ {} {} ⟨w, [hashp]⟩ 0 _ _ _ _ _ _ _ rfl
    (fun _ _ => ⟨fun _ => hfit, fun hf => absurd hf hfull⟩) hsearch
  have hs' := @Step.search _ _ _ _ {} {} ⟨w₁, [hashp₁]⟩ 0 _ _ _ _ _ _ _ rfl
    (fun _ _ => ⟨fun hf => absurd hf hfree, fun hf => absurd hf hfull'⟩) hsearch'
  refine ⟨htab, hctl, hashp, w, _, _, _, hashp₂, ⟨(nomatch ·), (nomatch ·)⟩, hcreate,
    .cons hs (.cons hs' (.nil _)), rfl, rfl, rfl, ?_⟩
  rintro ⟨freed', hrun, hperm'⟩
  rw [hdestroy] at hrun
  obtain rfl := Except.ok.inj hrun
  exact hperm hperm'

end PostgresV7.Dynahash
