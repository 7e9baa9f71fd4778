import PostgresV7.Dynahash.Asserts

/-!
# `HASH_FIND_SAVE` and `HASH_REMOVE_SAVED`

The first saves where it found the element. The branch of the second that should take it
from there is empty, so the call goes by whatever its variables hold.
-/

namespace PostgresV7.Dynahash

open Regions Chains Outcomes Runs

/-- `save_state`. -/
structure SaveState where
  currElem : Nat
  currIndex : Nat
  prevIndex : Option Cell
  deriving DecidableEq, Repr

/-- `curr`, `curr_index` and `prev_index_ptr` as a call finds them before it sets them; a
pointer to no `BUCKET_INDEX` is `none`. -/
structure Locals where
  curr : Nat
  currIndex : Nat
  prevIndexPtr : Option Cell
  deriving DecidableEq, Repr

variable {Key : Type} [DecidableEq Key]

/-- `hash_search` with `HASH_FIND_SAVE`: the result, `*found_ptr` and `save_state`. -/
def hashSearchFindSave (hash : Key → Int) (hashp : HashTable) (w : World Key) (key : Key)
    (saveState : SaveState) : Except Fault (Result × Bool × SaveState) := do
  let bucket := callHash w.hctl (hash key)
  let (prev, currIndex) ← followChain w key w.hctl.nkeys (bucketCell hashp w bucket)
  let found := currIndex != INVALID_INDEX
  if found then
    .ok (.element currIndex, found,
      { currElem := currIndex, currIndex := currIndex, prevIndex := some prev })
  else .ok (.yes, found, saveState)

/-- `hash_search` with `HASH_REMOVE_SAVED`; nothing reads `save_state`. -/
def hashSearchRemoveSaved (hashp : HashTable) (w : World Key) (_saveState : SaveState)
    (locals : Locals) : Except Fault (Result × Bool × HashTable × World Key) :=
  let found := locals.currIndex != INVALID_INDEX
  if found then do
    check (0 < w.hctl.nkeys)
    match locals.prevIndexPtr with
    | none => .error .undefined
    | some prev =>
      let cells := Function.update w.cells prev (w.cells (.next locals.curr))
      .ok (.element locals.curr, found, hashp, { w with
        cells := Function.update cells (.next locals.curr) w.hctl.freeBucketIndex
        hctl := { w.hctl with
          nkeys := w.hctl.nkeys - 1, freeBucketIndex := locals.currIndex } })
  else .ok (.yes, found, hashp, w)

/-- One right after the other. -/
def hashSearchSaved (hash : Key → Int) (hashp : HashTable) (w : World Key) (key : Key)
    (saveState : SaveState) (locals : Locals) :
    Except Fault (Result × Bool × HashTable × World Key) := do
  let (_, _, saveState) ← hashSearchFindSave hash hashp w key saveState
  hashSearchRemoveSaved hashp w saveState locals

/-- The variables hold what following the chain would have set them to. -/
def Locals.Match (hash : Key → Int) (hashp : HashTable) (w : World Key) (key : Key)
    (locals : Locals) : Prop :=
  (locals.currIndex = INVALID_INDEX ∧ ∀ e, ¬ Reached hash hashp w key e) ∨
  ∃ l₁ e l₂, Chain Cell.next 0 w.cells (bucketCell hashp w (callHash w.hctl (hash key)))
      (l₁ ++ e :: l₂) ∧ w.keys e = key ∧
    locals = ⟨e, e, some (lastCell Cell.next (bucketCell hashp w (callHash w.hctl (hash key))) l₁)⟩

variable {hash : Key → Int} {A : Allocator} {hashp : HashTable} {w w' : World Key}
  {chains : Nat → List Nat} {free : List Nat} {m : Dict Key} {key : Key} {locals : Locals}
  {saveState : SaveState}

omit [DecidableEq Key] in
theorem hashSearchRemoveSaved_cases {r : Result × Bool × HashTable × World Key}
    (h : hashSearchRemoveSaved hashp w saveState locals = .ok r) :
    (locals.currIndex = INVALID_INDEX ∧ r = (.yes, false, hashp, w)) ∨
    (locals.currIndex ≠ INVALID_INDEX ∧ ∃ prev, locals.prevIndexPtr = some prev ∧
      r.1 = .element locals.curr ∧ r.2.1 = true ∧
      r.2.2.2.cells = (removeElement w prev locals.curr).cells ∧
      r.2.2.2.hctl.freeBucketIndex = locals.currIndex) := by
  unfold hashSearchRemoveSaved at h
  by_cases hnil : locals.currIndex = INVALID_INDEX
  · rw [hnil] at h
    exact Or.inl ⟨hnil, (Except.ok.inj h).symm⟩
  · have hfound : (locals.currIndex != INVALID_INDEX) = true := bne_iff_ne.mpr hnil
    dsimp only at h
    rw [hfound, if_pos rfl] at h
    obtain ⟨-, -, h⟩ := bind_eq_ok h
    cases hprev : locals.prevIndexPtr with
    | none =>
      rw [hprev] at h
      cases h
    | some prev =>
      rw [hprev] at h
      obtain rfl := Except.ok.inj h
      exact Or.inr ⟨hnil, prev, rfl, rfl, rfl, rfl, rfl⟩

omit [DecidableEq Key] in
theorem hashSearchRemoveSaved_match {prev : Cell} {e : Nat} (hne : e ≠ INVALID_INDEX)
    (hpos : 0 < w.hctl.nkeys) :
    hashSearchRemoveSaved hashp w saveState ⟨e, e, some prev⟩ =
      .ok (.element e, true, hashp, removeElement w prev e) := by
  have hfound : (e != INVALID_INDEX) = true := bne_iff_ne.mpr hne
  unfold hashSearchRemoveSaved
  dsimp only
  rw [hfound, if_pos rfl, check_holds hpos]
  rfl

omit [DecidableEq Key] in
/-- Which cell was before an element shows after it is off its chain. -/
theorem removeElement_prev_inj {c prev : Cell} {l₁ l₂ : List Nat} {e : Nat}
    (h : Chain Cell.next 0 w.cells c (l₁ ++ e :: l₂)) (hne : lastCell Cell.next c l₁ ≠ .next e)
    (hcells : (removeElement w prev e).cells = (removeElement w (lastCell Cell.next c l₁) e).cells) :
    prev = lastCell Cell.next c l₁ := by
  by_contra hprev
  have hat := congrFun hcells (lastCell Cell.next c l₁)
  rw [removeElement_cells, removeElement_cells, Function.update_of_ne hne,
    Function.update_of_ne (Ne.symm hprev), Function.update_of_ne hne, Function.update_self,
    h.right.1] at hat
  have htail := h.right.2.2
  have hnd := List.nodup_cons.mp h.right.nodup
  cases l₂ with
  | nil => exact h.right.2.1 (hat.trans htail)
  | cons e' l₂ =>
    rw [hat.trans htail.1] at hnd
    exact hnd.1 List.mem_cons_self

omit [DecidableEq Key] in
/-- Where an element is on a chain. -/
theorem Table.split_unique (h : Table hash hashp w chains free) {b e e' : Nat}
    {l₁ l₂ l₁' l₂' : List Nat} (hb : b ≤ w.hctl.maxBucket) (hl : chains b = l₁ ++ e :: l₂)
    (hl' : chains b = l₁' ++ e' :: l₂') (hkey : w.keys e = w.keys e') : l₁ = l₁' ∧ e = e' := by
  have he : e ∈ chains b := hl ▸ List.mem_append_right l₁ List.mem_cons_self
  have he' : e' ∈ chains b := hl' ▸ List.mem_append_right l₁' List.mem_cons_self
  obtain rfl := h.keys_inj b hb e he e' he' hkey
  have hnd : (l₁ ++ e :: l₂).Nodup := hl ▸ (h.chain b hb).nodup
  have hparts := List.nodup_append.mp hnd
  have hleft : e ∉ l₁ := fun hm => hparts.2.2 e hm e List.mem_cons_self rfl
  have hright : e ∉ l₂ := (List.nodup_cons.mp hparts.2.1).1
  exact ⟨((List.append_cons_inj_of_notMem hleft hright).mp (hl.symm.trans hl')).1, rfl⟩

/-- Both steps agree with `HASH_REMOVE` if and only if the variables match. -/
theorem hashSearchSaved_iff (hr : Represents hash hashp w m) :
    hashSearchSaved hash hashp w key saveState locals = hashSearch hash A hashp w key .HASH_REMOVE ↔
      locals.Match hash hashp w key := by
  obtain ⟨chains, free, ht, hm, hcard⟩ := id hr
  have hb := ht.hash_le (hash key)
  have hchain := ht.chain _ hb
  obtain ⟨⟨prev, currIndex⟩, hfollow, hres⟩ := followChain_spec key hchain (ht.length_le hm hcard hb)
  unfold hashSearchSaved hashSearchFindSave hashSearch
  dsimp only [bind, Except.bind]
  rw [hfollow]
  cases hres with
  | miss hmiss =>
    have habsent : ∀ e, ¬ Reached hash hashp w key e := fun e hreach =>
      ht.notMem hm hmiss (Finmap.mem_iff.mpr ⟨e, hr.reached_iff.mp hreach⟩)
    show hashSearchRemoveSaved hashp w saveState locals = .ok (.yes, false, hashp, w) ↔ _
    constructor
    · intro heq
      rcases hashSearchRemoveSaved_cases heq with ⟨hnil, -⟩ | ⟨-, prev', -, -, hf, -⟩
      · exact Or.inl ⟨hnil, habsent⟩
      · cases hf
    · rintro (⟨hnil, -⟩ | ⟨l₁, e, l₂, hl, hkey, -⟩)
      · unfold hashSearchRemoveSaved
        rw [hnil]
        rfl
      · exact absurd ⟨_, hl, List.mem_append_right l₁ List.mem_cons_self, hkey⟩ (habsent e)
  | @hit l₁ l₂ _ hl hne hkey =>
    have hfound : (currIndex != INVALID_INDEX) = true := bne_iff_ne.mpr hne
    have hin : currIndex ∈ chains (callHash w.hctl (hash key)) :=
      hl ▸ List.mem_append_right l₁ List.mem_cons_self
    have hpos : 0 < w.hctl.nkeys :=
      Nat.lt_of_lt_of_le (List.length_pos_of_mem hin) (ht.length_le hm hcard hb)
    rw [hl] at hchain
    dsimp only
    rw [hfound]
    show hashSearchRemoveSaved hashp w _ locals =
      .ok (.element currIndex, true, hashp, removeElement w _ currIndex) ↔ _
    constructor
    · intro heq
      rcases hashSearchRemoveSaved_cases heq with ⟨-, hf⟩ | ⟨-, prev', hprev, he, -, hcells, hfree⟩
      · cases hf
      · dsimp only at he hcells hfree
        obtain rfl := Result.element.inj he
        have hnext : lastCell Cell.next (bucketCell hashp w (callHash w.hctl (hash key))) l₁ ≠
            .next locals.curr := by
          intro hlast
          have hmem : lastCell Cell.next (bucketCell hashp w (callHash w.hctl (hash key))) l₁ ∈
              cellsOf hashp w (callHash w.hctl (hash key)) l₁ := lastCell_mem _ _
          rw [hlast] at hmem
          exact (List.nodup_append.mp hchain.nodup).2.2 _ (next_mem_cellsOf.mp hmem) _
            List.mem_cons_self rfl
        refine Or.inr ⟨l₁, locals.curr, l₂, hchain, hkey, ?_⟩
        rw [← removeElement_prev_inj hchain hnext hcells.symm, ← hprev]
        exact congrArg (fun i => Locals.mk locals.curr i locals.prevIndexPtr) hfree.symm
    · rintro (⟨-, habsent⟩ | ⟨l₁', e, l₂', hl', hkey', rfl⟩)
      · exact absurd ⟨_, hchain, List.mem_append_right l₁ List.mem_cons_self, hkey⟩ (habsent _)
      · have hchains := Chain.unique (ht.chain _ hb) hl'
        obtain ⟨rfl, rfl⟩ := ht.split_unique hb hl hchains (hkey.trans hkey'.symm)
        exact hashSearchRemoveSaved_match hne hpos

variable {flags : HashFlags} {info : HashCtrl}

/-- In every state of every run, saving and removing does what removing does if and only if
the variables the second call does not set hold what the first one saved. -/
theorem hash_search_remove_saved_iff {nelem : Int} {w₀ : World Key} (hasked : Asked flags info w₀)
    (hcreate : hashCreate A w₀ nelem info flags = .ok (some (hashp, w)))
    {l : List (Event Key)} {s : System Key}
    (hrun : Run (Step hash A flags info) ⟨w, [hashp]⟩ l s) :
    ∀ h ∈ s.handles, ∀ key saveState locals,
      hashSearchSaved hash h s.world key saveState locals =
        hashSearch hash A h s.world key .HASH_REMOVE ↔ Locals.Match hash h s.world key locals := by
  obtain ⟨others, -, m, hashp', groups, hR, -⟩ := run_ledger hasked hcreate hrun
  intro h hin key saveState locals
  obtain rfl := hR.same h hin
  exact hashSearchSaved_iff hR.represents

theorem hash_search_remove_saved_iff_example : ∃ hashp w call s,
    hashCreate bumpAllocator (freshWorld (0 : UInt64)) 1 {} {} = .ok (some (hashp, w)) ∧
    Run (Step (fun key => (key.toNat : Int)) bumpAllocator {} {}) ⟨w, [hashp]⟩ [.search 0 call] s ∧
    call.key = 5 ∧ call.result = .element 4144 ∧ ∃ h ∈ s.handles,
      (hashSearchSaved (fun key => (key.toNat : Int)) h s.world 5 ⟨0, 0, none⟩ ⟨0, 0, none⟩ =
        hashSearch (fun key => (key.toNat : Int)) bumpAllocator h s.world 5 .HASH_REMOVE ↔
        Locals.Match (fun key => (key.toNat : Int)) h s.world 5 ⟨0, 0, none⟩) := by
  have hasked : Asked {} {} (freshWorld (0 : UInt64)) := ⟨(nomatch ·), (nomatch ·)⟩
  obtain ⟨hashp, w, call, h, w₁, hcreate, hrun, hkey, -, hresult, -⟩ :=
    five_entered (p := fun _ _ => true) (by decide +kernel)
  exact ⟨hashp, w, call, _, hcreate, hrun, hkey, hresult, h, List.mem_singleton_self h,
    hash_search_remove_saved_iff hasked hcreate hrun h (List.mem_singleton_self h) 5 ⟨0, 0, none⟩ ⟨0, 0, none⟩⟩

/-- A key that is there, and variables that hold zeros: nothing is found. -/
theorem hash_search_remove_saved_misses : ∃ hashp w call s,
    Asked {} {} (freshWorld (0 : UInt64)) ∧
    hashCreate bumpAllocator (freshWorld (0 : UInt64)) 1 {} {} = .ok (some (hashp, w)) ∧
    Run (Step (fun key => (key.toNat : Int)) bumpAllocator {} {}) ⟨w, [hashp]⟩ [.search 0 call] s ∧
    call.key = 5 ∧ ∃ h ∈ s.handles,
      (hashSearchSaved (fun key => (key.toNat : Int)) h s.world 5 ⟨0, 0, none⟩ ⟨0, 0, none⟩).map
        (fun r => (r.1, r.2.1)) = .ok (.yes, false) ∧
      (hashSearch (fun key => (key.toNat : Int)) bumpAllocator h s.world 5 .HASH_REMOVE).map
        (fun r => (r.1, r.2.1)) = .ok (.element 4144, true) := by
  obtain ⟨hashp, w, call, h, w₁, hcreate, hrun, hkey, -, -, hboth⟩ := five_entered (p := fun h w₁ => decide
      ((hashSearchSaved (fun key => (key.toNat : Int)) h w₁ 5 ⟨0, 0, none⟩ ⟨0, 0, none⟩).map
        (fun r => (r.1, r.2.1)) = .ok (.yes, false) ∧
      (hashSearch (fun key => (key.toNat : Int)) bumpAllocator h w₁ 5 .HASH_REMOVE).map
        (fun r => (r.1, r.2.1)) = .ok (.element 4144, true))) (by decide +kernel)
  exact ⟨hashp, w, call, _, ⟨(nomatch ·), (nomatch ·)⟩, hcreate, hrun, hkey, h, List.mem_singleton_self h,
    of_decide_eq_true hboth⟩

end PostgresV7.Dynahash
