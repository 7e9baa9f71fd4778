import PostgresV7.Dynahash.Invariant

/-!
# `hash_create`

A table that comes out of `hash_create` has all its segments, and every bucket
starts an empty chain.
-/

namespace PostgresV7.Dynahash

open Regions Chains Outcomes

/-! ## `my_log2` -/

theorem myLog2From_pow {n k i : Nat} (hi : i ≤ n) (hk : n ≤ i + k) :
    myLog2From (2 ^ n : Nat) k i (2 ^ i : Nat) = n := by
  induction k generalizing i with
  | zero => exact Nat.le_antisymm hi hk
  | succ k ih =>
    unfold myLog2From
    split
    · rename_i hlt
      have hlt' : i < n := (Nat.pow_lt_pow_iff_right (by decide)).mp (Int.ofNat_lt.mp hlt)
      have hnext : ((2 ^ i : Nat) : Int) * 2 = ((2 ^ (i + 1) : Nat) : Int) := by
        rw [pow_succ]
        push_cast
        rfl
      rw [hnext]
      exact ih hlt' (by omega)
    · rename_i hge
      have hle : ¬ i < n := fun hlt =>
        hge (Int.ofNat_lt.mpr ((Nat.pow_lt_pow_iff_right (by decide)).mpr hlt))
      omega

theorem myLog2_pow {n : Nat} (h : n ≤ 63) : myLog2 ((2 ^ n : Nat) : Int) = n :=
  myLog2From_pow (i := 0) (Nat.zero_le n) (by omega)

theorem le_myLog2From {k i : Nat} {num : Int} (h : num ≤ 2 ^ (i + k)) :
    num ≤ 2 ^ myLog2From num k i (2 ^ i) := by
  induction k generalizing i with
  | zero => exact h
  | succ k ih =>
    unfold myLog2From
    split
    · have hih := ih (i := i + 1) (by rwa [Nat.add_right_comm])
      rwa [pow_succ 2 i] at hih
    · rename_i hge
      exact Int.not_lt.mp hge

theorem le_myLog2 (num : Int) (h : num ≤ 2 ^ 63) : num ≤ 2 ^ myLog2 num :=
  le_myLog2From (i := 0) (by simpa using h)

/-! ## The segments -/

variable {Key : Type} {hash : Key → Int} {A : Allocator} {hashp : HashTable} {w w' : World Key}

/-- Every bucket of every segment is empty. -/
def Cleared (hashp : HashTable) (w : World Key) : Prop :=
  ∀ i < w.hctl.nsegs, ∀ ndx, w.cells (.bucket (w.dirs hashp.dir i) ndx) = INVALID_INDEX

theorem initSegments_spec {k : Nat} (h : Segments hashp w) (hclear : Cleared hashp w)
    (hle : w.hctl.nsegs + k ≤ w.hctl.dsize) :
    Ends (fun _ => True) (initSegments A hashp k w) fun r => r.1 = true →
      Segments hashp r.2 ∧ Cleared hashp r.2 ∧
      r.2.hctl = { w.hctl with nsegs := w.hctl.nsegs + k } ∧
      (0 < k → Fits hashp (SIZEOF_BUCKET_INDEX * w.hctl.ssize)) := by
  induction k generalizing w with
  | zero => exact fun _ => ⟨h, hclear, rfl, fun h0 => absurd h0 (Nat.lt_irrefl 0)⟩
  | succ k ih =>
    unfold initSegments
    refine ((segAlloc_spec A hashp w).mono (fun _ _ => trivial) fun a ha => ha).bind ?_
    rintro ⟨seg, w₁⟩ hseg
    rcases hseg with ⟨hnull, heap, hheap, hw₁⟩ | ⟨heap, hg, hfits, hw₁⟩ <;> dsimp only at hw₁ <;>
      subst hw₁
    · dsimp only
      rw [if_pos hnull]
      exact fun hf => absurd hf Bool.false_ne_true
    · dsimp only [World.setDir]
      rw [if_neg (Nat.ne_of_gt hg.pos)]
      have hdirs : Function.update w.dirs hashp.dir
          (Function.update (w.dirs hashp.dir) w.hctl.nsegs seg) hashp.dir =
          Function.update (w.dirs hashp.dir) w.hctl.nsegs seg := Function.update_self _ _ _
      have hadd := h.add { w with
        hctl := { w.hctl with nsegs := w.hctl.nsegs + 1 }, cells := clearSegment seg w.cells,
        dirs := Function.update w.dirs hashp.dir
          (Function.update (w.dirs hashp.dir) w.hctl.nsegs seg), heap := heap }
        (by omega) hg rfl hdirs rfl
      refine (ih hadd ?_ (by dsimp only; omega)).mono (fun _ _ => trivial) fun r hr hdone => ?_
      · intro i hi ndx
        dsimp only at hi ⊢
        rw [hdirs]
        rcases Nat.lt_or_eq_of_le (Nat.le_of_lt_succ hi) with hlt | rfl
        · rw [Function.update_of_ne (Nat.ne_of_lt hlt)]
          unfold clearSegment
          dsimp only
          split
          · rfl
          · exact hclear i hlt ndx
        · rw [Function.update_self]
          exact if_pos rfl
      · obtain ⟨h1, h2, h3, -⟩ := hr hdone
        refine ⟨h1, h2, ?_, fun _ => hfits⟩
        rw [h3]
        dsimp only
        rw [Nat.add_right_comm, Nat.add_assoc]

/-! ## The table -/

/-- A table with its segments and no elements. -/
theorem table_of_cleared (h : Segments hashp w) (hclear : Cleared hashp w)
    (hfits : Fits hashp (SIZEOF_BUCKET_INDEX * w.hctl.ssize)) {j : Nat} (hj : w.hctl.Masked j)
    (hcov : w.hctl.maxBucket >>> w.hctl.sshift < w.hctl.nsegs)
    (hfree : w.hctl.freeBucketIndex = INVALID_INDEX) :
    Table hash hashp w (fun _ => []) [] where
  segments := h
  fits := hfits
  masked := ⟨j, hj⟩
  covered := hcov
  chain b hb := by
    refine hclear _ (Nat.lt_of_le_of_lt ?_ hcov) _
    rw [Nat.shiftRight_eq_div_pow, Nat.shiftRight_eq_div_pow]
    exact Nat.div_le_div_right hb
  linked := hfree
  home _ _ e he := absurd he List.not_mem_nil
  keys_inj _ _ e he := absurd he List.not_mem_nil
  apart e he := absurd he List.not_mem_nil
  held e he := by
    rcases he with he | ⟨_, _, he⟩ <;> exact absurd he List.not_mem_nil

/-- What `hash_create` is promised: a segment size that is a power of two, and for
a shared table a directory of the size it says. -/
structure Asked (flags : HashFlags) (info : HashCtrl) (w : World Key) : Prop where
  segment : flags.segment = true → ∃ n ≤ 62, info.ssize = 2 ^ n
  directory : flags.sharedMem = true → info.dir ≠ 0 →
    ⟨info.dir, (headerOf flags info).dsize * SIZEOF_SEG_OFFSET⟩ ∈ w.heap.regions

theorem headerOf_fields (flags : HashFlags) (info : HashCtrl) :
    (headerOf flags info).nkeys = 0 ∧ (headerOf flags info).nsegs = 0 ∧
      (headerOf flags info).freeBucketIndex = INVALID_INDEX ∧
      (flags.segment = true → (headerOf flags info).ssize = info.ssize ∧
        (headerOf flags info).sshift = myLog2 info.ssize) ∧
      (flags.segment = false → (headerOf flags info).ssize = DEF_SEGSIZE ∧
        (headerOf flags info).sshift = DEF_SEGSIZE_SHIFT) := by
  rcases flags with ⟨_ | _, _ | _, _ | _, _ | _, _, _⟩ <;> simp [headerOf, hdefault]

theorem Asked.ssize {flags : HashFlags} {info : HashCtrl} (h : Asked flags info w) :
    (headerOf flags info).ssize = 2 ^ (headerOf flags info).sshift := by
  obtain ⟨-, -, -, hseg, hdef⟩ := headerOf_fields flags info
  cases hf : flags.segment with
  | false =>
    obtain ⟨h1, h2⟩ := hdef hf
    rw [h1, h2]
    rfl
  | true =>
    obtain ⟨h1, h2⟩ := hseg hf
    obtain ⟨n, hn, hs⟩ := h.segment hf
    rw [h1, h2, hs]
    have hlog := myLog2_pow (n := n) (by omega)
    rw [Nat.cast_pow, Nat.cast_ofNat] at hlog
    push_cast
    rw [hlog]

/-- The segments of an empty table, with the directory at hand. -/
theorem initSegments_table (hash : Key → Int) (w : World Key) {n nsegs : Nat} (hn : n ≤ 29)
    (hnsegs : nsegs = 2 ^ myLog2 (((2 ^ n - 1) / w.hctl.ssize + 1 : Nat) : Int))
    (hssize : w.hctl.ssize = 2 ^ w.hctl.sshift) (h0 : w.hctl.nsegs = 0)
    (hfree : w.hctl.freeBucketIndex = INVALID_INDEX) (hle : nsegs ≤ w.hctl.dsize)
    (hmask : w.hctl.maxBucket = 2 ^ n - 1 ∧ w.hctl.lowMask = 2 ^ n - 1 ∧
      w.hctl.highMask = 2 ^ n * 2 - 1)
    (hdir : dirRegion hashp w ∈ w.heap.regions) :
    Ends (fun _ => True) (initSegments A hashp nsegs w) fun r => r.1 = true →
      Table hash hashp r.2 (fun _ => []) [] ∧ r.2.hctl.nkeys = w.hctl.nkeys := by
  have hnone : ∀ i, ¬ i < w.hctl.nsegs := fun i hi => Nat.not_lt_zero i (h0 ▸ hi)
  have hseg : Segments hashp w :=
    ⟨hssize, by omega, hdir, fun i hi => absurd hi (hnone i), fun i hi => absurd hi (hnone i)⟩
  have hclear : Cleared hashp w := fun i hi => absurd hi (hnone i)
  refine (initSegments_spec (A := A) (k := nsegs) hseg hclear (by omega)).mono (fun _ _ => trivial)
    fun r hr hdone => ?_
  obtain ⟨h1, h2, h3, h4⟩ := hr hdone
  have hpow := Nat.two_pow_pos n
  have hpos : 0 < nsegs := hnsegs ▸ Nat.two_pow_pos _
  have hquot : (2 ^ n - 1) / w.hctl.ssize + 1 ≤ 2 ^ 63 := by
    have hpow29 : 2 ^ n ≤ 2 ^ 29 := Nat.pow_le_pow_right (by decide) hn
    have hdiv := Nat.div_le_self (2 ^ n - 1) w.hctl.ssize
    omega
  have hcov : (2 ^ n - 1) / w.hctl.ssize + 1 ≤ nsegs := by
    have hlog := le_myLog2 (((2 ^ n - 1) / w.hctl.ssize + 1 : Nat) : Int)
      (by exact_mod_cast hquot)
    rw [hnsegs]
    exact_mod_cast hlog
  obtain ⟨hmax, hlow, hhigh⟩ := hmask
  refine ⟨table_of_cleared (j := n) h1 h2 ?_ ?_ ?_ ?_, ?_⟩
  · rw [h3]
    exact h4 hpos
  · rw [h3]
    refine ⟨hlow, ?_, ?_, ?_⟩
    · rw [pow_succ]
      exact hhigh
    · dsimp only
      rw [hmax]
      omega
    · dsimp only
      rw [hmax, pow_succ]
      omega
  · rw [h3]
    dsimp only
    rw [h0, Nat.zero_add, hmax, Nat.shiftRight_eq_div_pow, ← hssize]
    exact hcov
  · rw [h3]
    exact hfree
  · rw [h3]

/-- `init_htab` makes an empty table, with the directory it was given if there was
one. -/
theorem initHtab_spec (hash : Key → Int) (w : World Key) (nelem : Int)
    (hssize : w.hctl.ssize = 2 ^ w.hctl.sshift)
    (h0 : w.hctl.nsegs = 0) (hfree : w.hctl.freeBucketIndex = INVALID_INDEX)
    (hdir : hashp.dir ≠ 0 → dirRegion hashp w ∈ w.heap.regions) :
    Ends (fun _ => True) (initHtab A hashp w nelem) fun r => r.1 = true →
      Table hash r.2.1 r.2.2 (fun _ => []) [] ∧ r.2.2.hctl.nkeys = w.hctl.nkeys ∧
      r.2.1.memAlloc = hashp.memAlloc ∧ (hashp.dir ≠ 0 → r.2.1 = hashp) := by
  unfold initHtab
  split
  · trivial
  dsimp only
  generalize Int.bmod (Int.tdiv (nelem - 1) w.hctl.ffactor + 1) (2 ^ 32) = num
  split
  · trivial
  rename_i hlog
  have hlog := Nat.not_lt.mp hlog
  generalize hnsegs : 2 ^ myLog2 (((2 ^ myLog2 num - 1) / w.hctl.ssize + 1 : Nat) : Int) = nsegs
  split
  · exact fun hf => absurd hf Bool.false_ne_true
  rename_i hroom
  have hle : nsegs ≤ (sizeHeader w.hctl (2 ^ myLog2 num) nsegs).dsize := by
    unfold sizeHeader
    dsimp only
    split
    · exact Nat.le_refl _
    · rename_i hgt
      exact Nat.not_lt.mp hgt
  unfold initDirectory
  split
  · rename_i hgiven
    have hkeep : dirRegion hashp { w with hctl := sizeHeader w.hctl (2 ^ myLog2 num) nsegs } =
        dirRegion hashp w := by
      unfold dirRegion sizeHeader
      dsimp only
      rw [if_neg fun hgt => hroom ⟨hgt, hgiven⟩]
    refine (initSegments_table (A := A) hash { w with
      hctl := sizeHeader w.hctl (2 ^ myLog2 num) nsegs } hlog hnsegs.symm hssize h0 hfree hle
      ⟨rfl, rfl, rfl⟩ (hkeep ▸ hdir hgiven)).bind ?_
    rintro ⟨done, w₁⟩ hr hdone
    exact ⟨(hr hdone).1, (hr hdone).2, rfl, fun _ => rfl⟩
  · rename_i hnew
    refine ((hashAlloc_spec A hashp w.heap _).mono (fun _ _ => trivial) fun a ha => ha).bind ?_
    rintro ⟨_ | ⟨dir, room⟩, heap⟩ ha
    · exact fun hf => absurd hf Bool.false_ne_true
    dsimp only
    split
    · trivial
    rename_i hfull
    obtain ⟨hg, hsize, -⟩ := ha
    have hmod := Nat.mod_le ((sizeHeader w.hctl (2 ^ myLog2 num) nsegs).dsize * SIZEOF_SEG_OFFSET)
      (2 ^ 64)
    have hroom : room = (sizeHeader w.hctl (2 ^ myLog2 num) nsegs).dsize * SIZEOF_SEG_OFFSET := by
      dsimp only at hsize
      omega
    have hmem : dirRegion { hashp with dir := dir } { w with
        hctl := sizeHeader w.hctl (2 ^ myLog2 num) nsegs, heap := heap } ∈ heap.regions := by
      unfold dirRegion
      rw [hg.regions, hroom]
      exact List.mem_cons_self
    refine (initSegments_table (A := A) hash { w with
      hctl := sizeHeader w.hctl (2 ^ myLog2 num) nsegs, heap := heap } hlog hnsegs.symm hssize h0
      hfree hle ⟨rfl, rfl, rfl⟩ hmem).bind ?_
    rintro ⟨done, w₁⟩ hr hdone
    exact ⟨(hr hdone).1, (hr hdone).2, rfl, fun hgiven => absurd hgiven hnew⟩

/-- What comes out of `hash_create` is an empty table; a shared one has the
directory it was given. -/
theorem hashCreate_table (hash : Key → Int) {nelem : Int} {info : HashCtrl} {flags : HashFlags} (h : Asked flags info w)
    (hcreate : hashCreate A w nelem info flags = .ok (some (hashp, w'))) :
    Table hash hashp w' (fun _ => []) [] ∧ w'.hctl.nkeys = 0 ∧
      (flags.sharedMem = true → info.dir ≠ 0 → hashp = hashAttach info) := by
  obtain ⟨hnkeys, hnsegs, hfree, -, -⟩ := headerOf_fields flags info
  have hspec : Ends (fun _ => True) (hashCreate A w nelem info flags) fun r =>
      r = some (hashp, w') → Table hash hashp w' (fun _ => []) [] ∧ w'.hctl.nkeys = 0 ∧
        (flags.sharedMem = true → info.dir ≠ 0 → hashp = hashAttach info) := by
    unfold hashCreate
    dsimp only
    generalize hp : (if flags.sharedMem = true then ({ dir := info.dir, memAlloc := false } : HashTable)
      else { dir := 0, memAlloc := true }) = hashp₀
    generalize hp' : (if flags.alloc = true then
      ({ dir := hashp₀.dir, memAlloc := false } : HashTable) else hashp₀) = hashp₁
    have hdir : hashp₁.dir = hashp₀.dir := by
      rw [← hp']
      split <;> rfl
    have hshared : flags.sharedMem = true → hashp₁ = hashAttach info := by
      intro hs
      rw [if_pos hs] at hp
      rw [← hp', ← hp]
      split <;> rfl
    have hgiven : hashp₁.dir ≠ 0 → dirRegion hashp₁ { w with hctl := headerOf flags info } ∈ w.heap.regions := by
      intro hne
      cases hs : flags.sharedMem with
      | true =>
        rw [hshared hs] at hne ⊢
        exact h.directory hs hne
      | false =>
        rw [if_neg (by rw [hs]; exact Bool.false_ne_true)] at hp
        rw [hdir, ← hp] at hne
        exact absurd rfl hne
    refine (initHtab_spec (A := A) hash { w with hctl := headerOf flags info } nelem
      h.ssize hnsegs hfree hgiven).bind ?_
    rintro ⟨done, hashp₂, w₂⟩ hr heq
    cases hdone : done with
    | true =>
      rw [hdone] at heq
      obtain ⟨rfl, rfl⟩ := Prod.mk.inj (Option.some.inj heq)
      obtain ⟨htable, hkeys, -, hsame⟩ := hr hdone
      refine ⟨htable, hkeys.trans hnkeys, fun hs hne => ?_⟩
      have hkept := hsame (by rw [hshared hs]; exact hne)
      exact hkept.trans (hshared hs)
    | false =>
      rw [hdone] at heq
      cases heq
  exact hspec.of_ok hcreate rfl

end PostgresV7.Dynahash
