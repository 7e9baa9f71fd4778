import PostgresV7.Dynahash.Ledger

/-!
# The asserts of `hash_search`

All but one hold in every state a table reaches. The last one is to make sure of the free
element a new key is to have, and says the contrary.
-/

namespace PostgresV7.Dynahash

open Regions Chains Outcomes Runs

/-- `assert(condition)`. -/
def check (condition : Prop) [Decidable condition] : Except Fault Unit :=
  if condition then .ok () else .error .assertFailed

variable {Key : Type} [DecidableEq Key]

/-- `hash_search` with its asserts on. That the handle, the key and the action are valid is
in their types; a segment that is not a null pointer has an offset that is not zero. -/
def hashSearchChecked (hash : Key → Int) (A : Allocator) (hashp : HashTable) (w : World Key)
    (key : Key) (action : HashAction) : Except Fault (Result × Bool × HashTable × World Key) := do
  let bucket := callHash w.hctl (hash key)
  check (w.dirs hashp.dir (bucket >>> w.hctl.sshift) ≠ 0)
  let (prev, currIndex) ← followChain w key w.hctl.nkeys (bucketCell hashp w bucket)
  let found := currIndex != INVALID_INDEX
  match action with
  | .HASH_FIND => .ok (if found then .element currIndex else .yes, found, hashp, w)
  | .HASH_REMOVE =>
    if found then do
      check (0 < w.hctl.nkeys)
      .ok (.element currIndex, found, hashp, removeElement w prev currIndex)
    else .ok (.yes, found, hashp, w)
  | .HASH_ENTER =>
    if found then .ok (.element currIndex, found, hashp, w)
    else do
      check (currIndex = INVALID_INDEX)
      let (room, w) ← ensureElement A hashp w
      if room = false then .ok (.null, found, hashp, w)
      else
        let currIndex := w.hctl.freeBucketIndex
        check (currIndex = INVALID_INDEX)
        let (hashp, w) ← expandIfFull hash A hashp (insertElement w prev key)
        .ok (.element currIndex, found, hashp, w)

/-- The elements the call may have to ask for are given. -/
def Grants (A : Allocator) (hashp : HashTable) (w : World Key) : Prop :=
  w.hctl.freeBucketIndex = INVALID_INDEX → ∃ chunk heap,
    hashAlloc A hashp w.heap (BUCKET_ALLOC_INCR * w.hctl.bucketSize % 2 ^ 64) = .ok (some chunk, heap)

variable {hash : Key → Int} {A : Allocator} {hashp : HashTable} {w w' : World Key}
  {chains : Nat → List Nat} {free : List Nat} {m : Dict Key} {key : Key} {action : HashAction}

theorem check_holds {condition : Prop} [Decidable condition] (h : condition) :
    check condition = .ok () := if_pos h

theorem check_fails {condition : Prop} [Decidable condition] (h : ¬ condition) :
    check condition = .error .assertFailed := if_neg h

omit [DecidableEq Key] in
/-- Given its elements, a new key gets a valid one. -/
theorem ensureElement_valid (h : Table hash hashp w chains free)
    (hfit : w.hctl.freeBucketIndex = INVALID_INDEX → ElementsFit hashp w.hctl)
    (hgrants : Grants A hashp w) :
    ∃ w', ensureElement A hashp w = .ok (true, w') ∧ w'.hctl.freeBucketIndex ≠ INVALID_INDEX := by
  unfold ensureElement
  split
  · rename_i hnil
    obtain rfl : free = [] := h.linked.eq_nil_iff.mp hnil
    obtain ⟨⟨p, room⟩, heap, halloc⟩ := hgrants hnil
    have hspec := bucketAlloc_spec (A := A) h
    have hrun : bucketAlloc A hashp w = .error .overrun ∨
        ∃ w', bucketAlloc A hashp w = .ok (true, w') := by
      unfold bucketAlloc
      rw [if_neg (Nat.not_le.mpr (hfit hnil).1)]
      dsimp only
      rw [halloc]
      dsimp only [bind, Except.bind]
      split
      · exact Or.inl rfl
      · exact Or.inr ⟨_, rfl⟩
    rcases hrun with hrun | ⟨w', hrun⟩
    · rcases hspec.of_error hrun with ⟨hf, -⟩ | hf
      · cases hf
      · exact absurd (hfit hnil) hf
    · rcases hspec.of_ok hrun with ⟨hf, -⟩ | ⟨-, -, e, fr, heap, cells, hw', -, ht⟩
      · cases hf
      · exact ⟨w', hrun, ht.linked.ne_nil (by dsimp only at hw'; rw [hw']; exact List.mem_cons_self)⟩
  · rename_i hne
    exact ⟨w, rfl, hne⟩

/-- The asserts change nothing but where they fail. -/
theorem hashSearchChecked_ok {r : Result × Bool × HashTable × World Key}
    (h : hashSearchChecked hash A hashp w key action = .ok r) :
    hashSearch hash A hashp w key action = .ok r := by
  unfold hashSearchChecked at h
  obtain ⟨-, -, h⟩ := bind_eq_ok h
  obtain ⟨⟨prev, currIndex⟩, hfollow, h⟩ := bind_eq_ok h
  unfold hashSearch
  dsimp only at hfollow h ⊢
  rw [hfollow]
  cases action with
  | HASH_FIND => exact h
  | HASH_REMOVE =>
    dsimp only at h ⊢
    split at h
    · rename_i hfound
      obtain ⟨-, -, h⟩ := bind_eq_ok h
      exact (if_pos hfound).trans h
    · rename_i hfound
      exact (if_neg hfound).trans h
  | HASH_ENTER =>
    dsimp only at h ⊢
    split at h
    · rename_i hfound
      exact (if_pos hfound).trans h
    · rename_i hfound
      refine (if_neg hfound).trans ?_
      obtain ⟨-, -, h⟩ := bind_eq_ok h
      obtain ⟨⟨room, w₁⟩, hroom, h⟩ := bind_eq_ok h
      unfold enterElement
      rw [hroom]
      dsimp only at h
      dsimp only [bind, Except.bind]
      split at h
      · rename_i hr
        rw [if_pos hr]
        exact h
      · rename_i hr
        rw [if_neg hr]
        obtain ⟨-, -, h⟩ := bind_eq_ok h
        obtain ⟨⟨hashp₁, w₂⟩, hexpand, h⟩ := bind_eq_ok h
        rw [hexpand]
        exact h

/-- A call of a table in order fails an assert when it comes to a new key, and in no other
case. -/
theorem hashSearchChecked_spec (hr : Represents hash hashp w m)
    (hseg : ∀ i < w.hctl.nsegs, w.dirs hashp.dir i ≠ 0) (hsafe : Safe hash hashp w key action)
    (hgrants : Grants A hashp w) :
    (action = .HASH_ENTER ∧ (∀ e, ¬ Reached hash hashp w key e) ∧
      hashSearchChecked hash A hashp w key action = .error .assertFailed) ∨
    (¬ (action = .HASH_ENTER ∧ ∀ e, ¬ Reached hash hashp w key e) ∧
      ∃ r, hashSearchChecked hash A hashp w key action = .ok r) := by
  obtain ⟨chains, free, ht, hm, hcard⟩ := id hr
  have hb := ht.hash_le (hash key)
  obtain ⟨⟨prev, currIndex⟩, hfollow, hres⟩ := followChain_spec key (ht.chain _ hb)
    (ht.length_le hm hcard hb)
  have hsegp : w.dirs hashp.dir (callHash w.hctl (hash key) >>> w.hctl.sshift) ≠ 0 :=
    hseg _ (ht.covered_le hb)
  unfold hashSearchChecked
  dsimp only
  rw [check_holds hsegp, hfollow]
  cases hres with
  | miss hmiss =>
    have habsent : ∀ e, ¬ Reached hash hashp w key e := fun e hreach =>
      ht.notMem hm hmiss (Finmap.mem_iff.mpr ⟨e, hr.reached_iff.mp hreach⟩)
    cases action with
    | HASH_FIND => exact Or.inr ⟨fun hf => HashAction.noConfusion hf.1, _, rfl⟩
    | HASH_REMOVE => exact Or.inr ⟨fun hf => HashAction.noConfusion hf.1, _, rfl⟩
    | HASH_ENTER =>
      obtain ⟨w', hroom, hvalid⟩ := ensureElement_valid (A := A) ht (hsafe rfl habsent).1 hgrants
      refine Or.inl ⟨rfl, habsent, ?_⟩
      dsimp only [bind, Except.bind]
      rw [if_neg (show ¬ (INVALID_INDEX != INVALID_INDEX) = true from Bool.false_ne_true),
        check_holds rfl, hroom]
      dsimp only
      rw [if_neg Bool.true_eq_false_eq_False, check_fails hvalid]
  | @hit l₁ l₂ _ hl hne hkey =>
    have hfound : (currIndex != INVALID_INDEX) = true := bne_iff_ne.mpr hne
    have hin : currIndex ∈ chains (callHash w.hctl (hash key)) :=
      hl ▸ List.mem_append_right l₁ List.mem_cons_self
    have hreach : Reached hash hashp w key currIndex := ⟨_, ht.chain _ hb, hin, hkey⟩
    refine Or.inr ⟨fun hf => hf.2 _ hreach, ?_⟩
    dsimp only [bind, Except.bind]
    rw [hfound]
    cases action with
    | HASH_FIND => exact ⟨_, rfl⟩
    | HASH_REMOVE =>
      have hpos : 0 < w.hctl.nkeys :=
        Nat.lt_of_lt_of_le (List.length_pos_of_mem hin) (ht.length_le hm hcard hb)
      rw [check_holds hpos]
      exact ⟨_, rfl⟩
    | HASH_ENTER => exact ⟨_, rfl⟩

variable {flags : HashFlags} {info : HashCtrl}

/-- In every state of every run, a call whose requests are granted fails no assert if and
only if it does not enter a key the table lacks; the element for such a key is valid, and
the assert that should tell so is the one that fails. -/
theorem hash_search_asserts_iff {nelem : Int} {w₀ : World Key} (hasked : Asked flags info w₀)
    (hcreate : hashCreate A w₀ nelem info flags = .ok (some (hashp, w)))
    {l : List (Event Key)} {s : System Key}
    (hrun : Run (Step hash A flags info) ⟨w, [hashp]⟩ l s) :
    ∀ h ∈ s.handles, ∀ key action, Safe hash h s.world key action → Grants A h s.world →
      (hashSearchChecked hash A h s.world key action ≠ .error .assertFailed ↔
        ¬ (action = .HASH_ENTER ∧ ∀ e, ¬ Reached hash h s.world key e)) ∧
      (action = .HASH_ENTER → (∀ e, ¬ Reached hash h s.world key e) → ∃ w',
        ensureElement A h s.world = .ok (true, w') ∧ w'.hctl.freeBucketIndex ≠ INVALID_INDEX) := by
  obtain ⟨others, -, m, hashp', groups, hR, hled⟩ := run_ledger hasked hcreate hrun
  intro h hin key action hsafe hgrants
  obtain rfl := hR.same h hin
  refine ⟨?_, fun henter habsent => ?_⟩
  · rcases hashSearchChecked_spec (A := A) hR.represents hled.seg_ne hsafe hgrants with
      ⟨henter, habsent, hfail⟩ | ⟨hcond, r, hok⟩
    · rw [hfail]
      exact iff_of_false (fun hf => hf rfl) fun hf => hf ⟨henter, habsent⟩
    · rw [hok]
      exact iff_of_true (fun hf => nomatch hf) hcond
  · obtain ⟨chains, free, ht, -⟩ := hR.represents
    exact ensureElement_valid ht (hsafe henter habsent).1 hgrants

theorem hash_search_asserts_iff_example : ∃ hashp w call s,
    hashCreate bumpAllocator (freshWorld (0 : UInt64)) 1 {} {} = .ok (some (hashp, w)) ∧
    Run (Step (fun key => (key.toNat : Int)) bumpAllocator {} {}) ⟨w, [hashp]⟩ [.search 0 call] s ∧
    call.key = 5 ∧ call.action = .HASH_ENTER ∧ ∃ h ∈ s.handles,
      Safe (fun key => (key.toNat : Int)) h s.world 6 .HASH_FIND ∧ Grants bumpAllocator h s.world ∧
      hashSearchChecked (fun key => (key.toNat : Int)) bumpAllocator h s.world 6 .HASH_FIND ≠
        .error .assertFailed := by
  have hasked : Asked {} {} (freshWorld (0 : UInt64)) := ⟨(nomatch ·), (nomatch ·)⟩
  obtain ⟨hashp, w, call, h, w₁, hcreate, hrun, hkey, haction, -, hfree⟩ :=
    five_entered (p := fun _ w₁ => decide (w₁.hctl.freeBucketIndex ≠ INVALID_INDEX)) (by decide +kernel)
  have hsafe : Safe (fun key => (key.toNat : Int)) h w₁ 6 .HASH_FIND := fun hf => nomatch hf
  have hgrants : Grants bumpAllocator h w₁ := fun hnil => absurd hnil (of_decide_eq_true hfree)
  refine ⟨hashp, w, call, _, hcreate, hrun, hkey, haction, h, List.mem_singleton_self h, hsafe, hgrants, ?_⟩
  exact (hash_search_asserts_iff hasked hcreate hrun h (List.mem_singleton_self h) 6 .HASH_FIND hsafe
    hgrants).1.mpr fun hf => nomatch hf.1

/-- The first key of a new table, whose elements are granted. -/
theorem hash_search_assert_fails : ∃ hashp w,
    Asked {} {} (freshWorld (0 : UInt64)) ∧
    hashCreate bumpAllocator (freshWorld (0 : UInt64)) 1 {} {} = .ok (some (hashp, w)) ∧
    Safe (fun key => (key.toNat : Int)) hashp w 5 .HASH_ENTER ∧ Grants bumpAllocator hashp w ∧
    hashSearchChecked (fun key => (key.toNat : Int)) bumpAllocator hashp w 5 .HASH_ENTER =
      .error .assertFailed := by
  have hcall : ∀ {hashp w}, hashCreate bumpAllocator (freshWorld (0 : UInt64)) 1 {} {} =
      .ok (some (hashp, w)) →
      Safe (fun key => (key.toNat : Int)) hashp w 5 .HASH_ENTER ∧ Grants bumpAllocator hashp w ∧
      hashSearchChecked (fun key => (key.toNat : Int)) bumpAllocator hashp w 5 .HASH_ENTER =
        .error .assertFailed := by
    intro hashp w hcreate
    obtain ⟨rfl, rfl⟩ := Prod.mk.inj (Option.some.inj (Except.ok.inj hcreate))
    exact ⟨fun _ _ => ⟨fun _ => by decide, fun hf => absurd hf (by decide)⟩, fun _ => ⟨_, _, rfl⟩, rfl⟩
  obtain ⟨hashp, w, hcreate⟩ : ∃ hashp w,
    hashCreate bumpAllocator (freshWorld (0 : UInt64)) 1 {} {} = .ok (some (hashp, w)) := ⟨_, _, rfl⟩
  exact ⟨hashp, w, ⟨(nomatch ·), (nomatch ·)⟩, hcreate, hcall hcreate⟩

end PostgresV7.Dynahash
