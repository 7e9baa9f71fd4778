import PostgresV7.Dynahash.Ledger
import PostgresV7.Lib.Cursor

/-!
# Going through a table (`hash_seq`)

Between two calls the position is a bucket and the next element of its chain. Elements
that were returned may be removed meanwhile: they are behind the position, on a chain
or not.
-/

namespace PostgresV7.Dynahash

open Regions Chains Outcomes Runs Cursors

/-- The static variables of `hash_seq`. -/
structure SeqState where
  sCurBucket : Nat
  sCurIndex : Nat
  deriving DecidableEq, Repr

variable {Key : Type}

/-- The loop of `hash_seq`, with `k` iterations left. -/
def hashSeqFrom (hashp : HashTable) (w : World Key) : Nat → SeqState → Except Fault (Result × SeqState)
  | k, st =>
    if st.sCurBucket ≤ w.hctl.maxBucket then
      match k with
      | 0 => .error .endless
      | k + 1 =>
        if st.sCurIndex ≠ INVALID_INDEX then
          let next := w.cells (.next st.sCurIndex)
          let bucket := if next = INVALID_INDEX then st.sCurBucket + 1 else st.sCurBucket
          .ok (.element st.sCurIndex, ⟨bucket, next⟩)
        -- the segment is a null pointer when its offset is zero
        else if w.dirs hashp.dir (st.sCurBucket >>> w.hctl.sshift) = 0 then .ok (.null, st)
        else
          let first := w.cells (bucketCell hashp w st.sCurBucket)
          let bucket := if first = INVALID_INDEX then st.sCurBucket + 1 else st.sCurBucket
          hashSeqFrom hashp w k ⟨bucket, first⟩
    else .ok (.yes, st)

/-- `hash_seq`; a null pointer starts over. Each bucket takes an iteration, and the
element that is returned one more. -/
def hashSeq (hashp : Option HashTable) (w : World Key) (st : SeqState) :
    Except Fault (Result × SeqState) :=
  match hashp with
  | none => .ok (.null, ⟨0, INVALID_INDEX⟩)
  | some hashp => hashSeqFrom hashp w (w.hctl.maxBucket + 2) st

variable {hash : Key → Int} {A : Allocator} {hashp hashp' : HashTable} {w w' : World Key}
  {chains : Nat → List Nat} {free : List Nat} {st : SeqState} {pending : List Nat}

/-! ## The position -/

/-- The elements still to be returned are `pending`. -/
def Position (w : World Key) (chains : Nat → List Nat) (st : SeqState) (pending : List Nat) : Prop :=
  ∃ l, Ahead chains (w.hctl.maxBucket + 1) st.sCurBucket l pending ∧ st.sCurIndex = l.headD INVALID_INDEX

/-- Reading a list: its first element, or the end. -/
inductive Reads : List Nat → Result → List Nat → Prop where
  | element (e : Nat) (l : List Nat) : Reads (e :: l) (.element e) l
  | done : Reads [] .yes []

/-- What a cell holds is the first element of its chain. -/
theorem cells_eq_headD {c : Cell} {l : List Nat} (h : Chain Cell.next 0 w.cells c l) :
    w.cells c = l.headD INVALID_INDEX := by
  cases l with
  | nil => exact h
  | cons e l => exact h.1

/-- The saved index is a valid one inside of a chain only. -/
theorem sCurIndex_eq (ht : Table hash hashp w chains free) {l : List Nat}
    (ha : Ahead chains (w.hctl.maxBucket + 1) st.sCurBucket l pending)
    (hi : st.sCurIndex = l.headD INVALID_INDEX) : st.sCurIndex = INVALID_INDEX ↔ l = [] := by
  cases ha with
  | between => exact iff_of_true hi rfl
  | @within e l₁ l₂ hb hl =>
    have hne : e ≠ INVALID_INDEX := by
      apply (ht.chain _ (Nat.le_of_lt_succ hb)).ne_nil
      simp [hl]
    rw [hi]
    exact iff_of_false hne (List.cons_ne_nil e l₂)

/-- Inside of a chain an iteration returns the element. -/
theorem hashSeqFrom_within (ht : Table hash hashp w chains free) {e k : Nat} {l : List Nat}
    (ha : Ahead chains (w.hctl.maxBucket + 1) st.sCurBucket (e :: l) pending)
    (hi : st.sCurIndex = e) (hb : st.sCurBucket ≤ w.hctl.maxBucket) :
    ∃ result st' pending', hashSeqFrom hashp w (k + 1) st = .ok (result, st') ∧
      Reads pending result pending' ∧ Position w chains st' pending' := by
  have hvalid : st.sCurIndex ≠ INVALID_INDEX := by
    intro hnil
    exact List.cons_ne_nil e l ((sCurIndex_eq ht ha hi).mp hnil)
  obtain ⟨pending', rfl, hlast, hmore⟩ := ha.take
  have hnext : w.cells (.next e) = l.headD INVALID_INDEX := by
    cases ha with
    | @within _ l₁ _ _ hl =>
      have hchain := ht.chain _ hb
      rw [hl] at hchain
      exact cells_eq_headD hchain.right.2.2
  rw [hashSeqFrom, if_pos hb]
  dsimp only
  rw [if_pos hvalid, hi, hnext]
  refine ⟨_, _, pending', rfl, .element e pending', l, ?_, rfl⟩
  cases l with
  | nil => exact hlast rfl
  | cons e' l =>
    have hne : (e' :: l).headD INVALID_INDEX ≠ INVALID_INDEX := by
      apply (ht.chain _ hb).ne_nil
      cases ha with
      | within _ hl => simp [hl]
    rw [if_neg hne]
    exact hmore (List.cons_ne_nil e' l)

/-- A call reads the next element of those that are left, and says so when there is
none. -/
theorem hashSeqFrom_spec (ht : Table hash hashp w chains free)
    (hseg : ∀ i < w.hctl.nsegs, w.dirs hashp.dir i ≠ 0) {k : Nat} (hp : Position w chains st pending)
    (hk : w.hctl.maxBucket + 2 ≤ st.sCurBucket + k) :
    ∃ result st' pending', hashSeqFrom hashp w k st = .ok (result, st') ∧
      Reads pending result pending' ∧ Position w chains st' pending' := by
  induction k generalizing st with
  | zero =>
    obtain ⟨l, ha, hi⟩ := id hp
    obtain rfl := ha.done (by omega)
    refine ⟨.yes, st, [], ?_, .done, hp⟩
    rw [hashSeqFrom, if_neg (by omega)]
  | succ k ih =>
    obtain ⟨l, ha, hi⟩ := id hp
    by_cases hb : st.sCurBucket ≤ w.hctl.maxBucket
    · have hb' : st.sCurBucket < w.hctl.maxBucket + 1 := Nat.lt_succ_of_le hb
      have hchain := ht.chain _ hb
      cases l with
      | cons e l => exact hashSeqFrom_within ht ha hi hb
      | nil =>
        rw [hashSeqFrom, if_pos hb]
        dsimp only
        have hidx : st.sCurIndex = INVALID_INDEX := hi
        rw [if_neg (not_not.mpr hidx), if_neg (hseg _ (ht.covered_le hb)), cells_eq_headD hchain]
        cases hl : chains st.sCurBucket with
        | nil =>
          apply ih
          · exact ⟨[], ha.skip hb' hl, rfl⟩
          · simp
            omega
        | cons e l =>
          have hne : (e :: l).headD INVALID_INDEX ≠ INVALID_INDEX := hchain.ne_nil (by simp [hl])
          obtain ⟨k, rfl⟩ : ∃ k', k = k' + 1 := Nat.exists_eq_succ_of_ne_zero (by omega)
          rw [if_neg hne]
          exact hashSeqFrom_within ht (ha.enter hb' hl) rfl hb
    · obtain rfl := ha.done (by omega)
      refine ⟨.yes, st, [], ?_, .done, hp⟩
      rw [hashSeqFrom, if_neg hb]

theorem hashSeq_spec (ht : Table hash hashp w chains free)
    (hseg : ∀ i < w.hctl.nsegs, w.dirs hashp.dir i ≠ 0) (hp : Position w chains st pending) :
    ∃ result st' pending', hashSeq (some hashp) w st = .ok (result, st') ∧
      Reads pending result pending' ∧ Position w chains st' pending' :=
  hashSeqFrom_spec ht hseg hp (Nat.le_add_left _ _)

/-- All elements of the table, chain by chain. -/
def elementsOf (w : World Key) (chains : Nat → List Nat) : List Nat :=
  fromList chains (w.hctl.maxBucket + 1) 0

theorem mem_elementsOf {e : Nat} : e ∈ elementsOf w chains ↔ OnChain w chains e := by
  unfold elementsOf OnChain
  simp only [mem_fromList, Nat.zero_le, Nat.lt_succ_iff, true_and]

theorem elementsOf_nodup (h : Table hash hashp w chains free) : (elementsOf w chains).Nodup := by
  apply fromList_nodup
  · intro b hb
    exact (h.chain b (Nat.le_of_lt_succ hb)).nodup
  · intro b hb b' hb' e he he'
    exact h.chain_inj (Nat.le_of_lt_succ hb) (Nat.le_of_lt_succ hb') he he'

/-- A scan starts in front of all elements. -/
theorem Position.start : Position w chains ⟨0, INVALID_INDEX⟩ (elementsOf w chains) :=
  ⟨[], .between, rfl⟩

/-! ## Calls between two calls -/

/-- The position stands when an element that is not ahead of it is removed. -/
theorem Position.remove (ht : Table hash hashp w chains free) {b e : Nat} {l₁ l₂ : List Nat} {prev : Cell}
    (hb : b ≤ w.hctl.maxBucket) (hl : chains b = l₁ ++ e :: l₂) (he : e ∉ pending)
    (hp : Position w chains st pending) :
    Position (removeElement w prev e) (Function.update chains b (l₁ ++ l₂)) st pending := by
  obtain ⟨l, ha, hi⟩ := hp
  refine ⟨l, ha.erase (Nat.lt_succ_of_le hb) hl ?_ he, hi⟩
  intro b' hb' hin
  exact ht.chain_inj (Nat.le_of_lt_succ hb') hb hin (by simp [hl])

variable [DecidableEq Key] {m : Dict Key} {key : Key} {action : HashAction}

/-- A call that enters no key changes nothing, or takes an element off its chain. -/
theorem hashSearch_kept (hr : Represents hash hashp w m) (ht : Table hash hashp w chains free)
    {result : Result} {found : Bool}
    (hrun : hashSearch hash A hashp w key action = .ok (result, found, hashp', w'))
    (hold : action = .HASH_ENTER → found = true) : hashp' = hashp ∧ (w' = w ∨
      ∃ b l₁ l₂ e, b ≤ w.hctl.maxBucket ∧ chains b = l₁ ++ e :: l₂ ∧ action = .HASH_REMOVE ∧
        result = .element e ∧
        w' = removeElement w (lastCell Cell.next (bucketCell hashp w b) l₁) e) := by
  have hb := ht.hash_le (hash key)
  obtain ⟨⟨prev, currIndex⟩, hfollow, hres⟩ := followChain_spec key (ht.chain _ hb)
    (hr.length_le ht hb)
  unfold hashSearch at hrun
  dsimp only at hrun
  rw [hfollow] at hrun
  dsimp only [bind, Except.bind] at hrun
  cases action with
  | HASH_FIND =>
    simp only [Except.ok.injEq, Prod.mk.injEq] at hrun
    exact ⟨hrun.2.2.1.symm, Or.inl hrun.2.2.2.symm⟩
  | HASH_REMOVE =>
    dsimp only at hrun
    cases hres with
    | miss hmiss =>
      simp at hrun
      exact ⟨hrun.2.2.1.symm, Or.inl hrun.2.2.2.symm⟩
    | @hit l₁ l₂ _ hl hne hkey =>
      have hfound : (currIndex != INVALID_INDEX) = true := bne_iff_ne.mpr hne
      rw [hfound, if_pos rfl] at hrun
      simp only [Except.ok.injEq, Prod.mk.injEq] at hrun
      obtain ⟨hresult, -, hhandle, hw'⟩ := hrun
      exact ⟨hhandle.symm, Or.inr ⟨_, l₁, l₂, currIndex, hb, hl, rfl, hresult.symm, hw'.symm⟩⟩
  | HASH_ENTER =>
    dsimp only at hrun
    split at hrun
    · simp only [Except.ok.injEq, Prod.mk.injEq] at hrun
      exact ⟨hrun.2.2.1.symm, Or.inl hrun.2.2.2.symm⟩
    · rename_i hmiss
      obtain ⟨r, -, heq⟩ := bind_eq_ok hrun
      simp only [Except.ok.injEq, Prod.mk.injEq] at heq
      rw [← heq.2.1] at hold
      exact absurd (hold rfl) hmiss

/-! ## Scans -/

/-- The system, the position of the scan, and the elements it has returned. -/
structure Scan (Key : Type) where
  system : System Key
  seq : SeqState
  returned : List Nat

inductive ScanEvent (Key : Type) where
  | seq (handle : Nat) (result : Result)
  | other (event : Event Key)

/-- The elements returned so far, after one more result. -/
def Result.addTo (returned : List Nat) : Result → List Nat
  | .element e => returned ++ [e]
  | _ => returned

/-- No key is entered, and an element that is removed was returned before. -/
def Harmless (returned : List Nat) : Event Key → Prop
  | .attach => True
  | .search _ call =>
    (call.action = .HASH_ENTER → call.found = true) ∧
    (call.action = .HASH_REMOVE → ∀ e, call.result = .element e → e ∈ returned)

/-- A call of `hash_seq` on the table, or a harmless event between two of them. -/
inductive ScanStep (hash : Key → Int) (A : Allocator) (flags : HashFlags) (info : HashCtrl) :
    Scan Key → ScanEvent Key → Scan Key → Prop where
  | seq {t : Scan Key} {i : Nat} {hashp : HashTable} {result : Result} {st : SeqState} :
      t.system.handles[i]? = some hashp →
      hashSeq (some hashp) t.system.world t.seq = .ok (result, st) →
      ScanStep hash A flags info t (.seq i result)
        { t with seq := st, returned := result.addTo t.returned }
  | other {t : Scan Key} {event : Event Key} {system : System Key} :
      Harmless t.returned event → Step hash A flags info t.system event system →
      ScanStep hash A flags info t (.other event) { t with system := system }

/-- Some key leads to the element, through some handle. -/
def Present (hash : Key → Int) (s : System Key) (e : Nat) : Prop :=
  ∃ h ∈ s.handles, ∃ key, Reached hash h s.world key e

variable {flags : HashFlags} {info : HashCtrl}

/-- The elements of `all` were returned, or are still ahead of the position. -/
structure Scanning (hash : Key → Int) (flags : HashFlags) (info : HashCtrl) (all : List Nat)
    (t : Scan Key) (m : Dict Key) (hashp : HashTable) (chains : Nat → List Nat)
    (free pending : List Nat) : Prop where
  shared : Shared hash flags info t.system m hashp
  table : Table hash hashp t.system.world chains free
  segments : ∀ i < t.system.world.hctl.nsegs, t.system.world.dirs hashp.dir i ≠ 0
  position : Position t.system.world chains t.seq pending
  account : t.returned ++ pending = all

/-- A call of `hash_seq` moves an element from those ahead to those returned. -/
theorem Scanning.seq {all : List Nat} {t : Scan Key}
    (h : Scanning hash flags info all t m hashp chains free pending) :
    ∃ result st pending', hashSeq (some hashp) t.system.world t.seq = .ok (result, st) ∧
      Reads pending result pending' ∧ Scanning hash flags info all
        { t with seq := st, returned := result.addTo t.returned } m hashp chains free pending' := by
  obtain ⟨result, st, pending', hrun, hreads, hpos⟩ := hashSeq_spec h.table h.segments h.position
  refine ⟨result, st, pending', hrun, hreads, h.shared, h.table, h.segments, hpos, ?_⟩
  cases hreads with
  | element e l =>
    rw [← h.account]
    exact List.append_assoc _ _ _
  | done => exact h.account

/-- A call between two calls of `hash_seq` leaves what is ahead where it is. -/
theorem Scanning.other {all : List Nat} {t : Scan Key} {event : Event Key} {system : System Key}
    (h : Scanning hash flags info all t m hashp chains free pending) (hall : all.Nodup)
    (hharmless : Harmless t.returned event) (hs : Step hash A flags info t.system event system) :
    ∃ m' chains' free',
      Scanning hash flags info all { t with system := system } m' hashp chains' free' pending := by
  obtain ⟨m', -, hashp₁, hshared⟩ := h.shared.step hs
  cases hs with
  | attach hflag hdir =>
    have hin : hashAttach info = hashp₁ :=
      hshared.same _ (List.mem_append_right _ (List.mem_singleton_self _))
    obtain rfl : hashp = hashp₁ := (h.shared.shared hflag hdir).trans hin
    exact ⟨m', chains, free, hshared, h.table, h.segments, h.position, h.account⟩
  | @search i hashp₀ hashp' w' key action result found hi hsafe hcall =>
    obtain rfl : hashp₀ = hashp := h.shared.same _ (List.mem_of_getElem? hi)
    have hin : hashp' ∈ t.system.handles.set i hashp' :=
      List.mem_set (List.getElem?_eq_some_iff.mp hi).1 hashp'
    obtain rfl : hashp' = hashp₁ := hshared.same _ hin
    obtain ⟨rfl, rfl | ⟨b, l₁, l₂, e, hb, hl, haction, hresult, rfl⟩⟩ :=
      hashSearch_kept h.shared.represents h.table hcall hharmless.1
    · exact ⟨m', chains, free, hshared, h.table, h.segments, h.position, h.account⟩
    · have hreturned : e ∈ t.returned := hharmless.2 haction e hresult
      have hahead : e ∉ pending := by
        intro hmem
        rw [← h.account] at hall
        exact (List.nodup_append.mp hall).2.2 e hreturned e hmem rfl
      exact ⟨m', _, _, hshared, h.table.remove hb hl, h.segments,
        h.position.remove h.table hb hl hahead, h.account⟩

theorem Scanning.run {all : List Nat} {t t' : Scan Key} {l : List (ScanEvent Key)}
    (h : Scanning hash flags info all t m hashp chains free pending) (hall : all.Nodup)
    (hrun : Run (ScanStep hash A flags info) t l t') :
    ∃ m' chains' free' pending', Scanning hash flags info all t' m' hashp chains' free' pending' := by
  apply hrun.invariant (I := fun t => ∃ m chains free pending,
    Scanning hash flags info all t m hashp chains free pending)
  · intro s event s' ⟨m, chains, free, pending, hscan⟩ hs
    cases hs with
    | @seq i hashp₀ result st hi hcall =>
      obtain rfl : hashp₀ = hashp := hscan.shared.same _ (List.mem_of_getElem? hi)
      obtain ⟨result', st', pending', hcall', -, hnext⟩ := hscan.seq
      rw [hcall] at hcall'
      obtain ⟨rfl, rfl⟩ := Prod.mk.inj (Except.ok.inj hcall')
      exact ⟨m, chains, free, pending', hnext⟩
    | other hharmless hs =>
      obtain ⟨m', chains', free', hnext⟩ := hscan.other hall hharmless hs
      exact ⟨m', chains', free', pending, hnext⟩
  · exact ⟨m, chains, free, pending, h⟩

/-- There is an element for each key. -/
theorem length_elementsOf (h : Table hash hashp w chains free) (hm : Holds w chains m) :
    (elementsOf w chains).length = m.keys.card := by
  have hinj : ∀ e ∈ elementsOf w chains, ∀ e' ∈ elementsOf w chains, w.keys e = w.keys e' → e = e' := by
    intro e he e' he' hkey
    have h₁ := (hm _ e).mpr ⟨mem_elementsOf.mp he, rfl⟩
    have h₂ := (hm _ e').mpr ⟨mem_elementsOf.mp he', hkey.symm⟩
    rw [h₁] at h₂
    exact Option.some.inj h₂
  have hnd : ((elementsOf w chains).map w.keys).Nodup :=
    (List.nodup_map_iff_inj_on (elementsOf_nodup h)).mpr hinj
  have hset : ((elementsOf w chains).map w.keys).toFinset = m.keys := by
    ext key
    simp only [List.mem_toFinset, List.mem_map, Finmap.mem_keys, Finmap.mem_iff, mem_elementsOf]
    exact exists_congr fun e => (hm key e).symm
  rw [← hset, List.toFinset_card_of_nodup hnd, List.length_map]

theorem Shared.present_iff {s : System Key} (h : Shared hash flags info s m hashp)
    (hin : hashp ∈ s.handles) (ht : Table hash hashp s.world chains free) {e : Nat} :
    Present hash s e ↔ e ∈ elementsOf s.world chains := by
  rw [mem_elementsOf]
  constructor
  · intro ⟨h', hin', key, l, hl, he, hkey⟩
    obtain rfl := h.same h' hin'
    have hb := ht.hash_le (hash key)
    rw [Chain.unique hl (ht.chain _ hb)] at he
    exact ⟨_, hb, he⟩
  · intro hon
    obtain ⟨hmem, hkey⟩ := ht.onChain_iff.mp ⟨hon, rfl⟩
    exact ⟨hashp, hin, _, _, ht.chain _ (ht.hash_le _), hmem, hkey⟩

theorem handles_ne_nil {s s' : System Key} {l : List (Event Key)}
    (hrun : Run (Step hash A flags info) s l s') (h : s.handles ≠ []) : s'.handles ≠ [] := by
  apply hrun.invariant (I := fun s => s.handles ≠ []) _ h
  intro s event s' hne hs
  cases hs with
  | attach _ _ => simp
  | search _ _ _ =>
    intro hnil
    exact hne ((List.set_eq_nil_iff _ _).mp hnil)

/-- From any state a table reaches, after `hash_seq(NULL)` each call of `hash_seq` returns,
whatever was removed of what it had returned: an element that was there at the start and
has not been returned, or `TRUE` when all of them have been. -/
theorem hash_seq_returns_each_once {nelem : Int} {w₀ : World Key} (hasked : Asked flags info w₀)
    (hcreate : hashCreate A w₀ nelem info flags = .ok (some (hashp, w)))
    {l : List (Event Key)} {s : System Key}
    (hrun : Run (Step hash A flags info) ⟨w, [hashp]⟩ l s) {st₀ st : SeqState} {result₀ : Result}
    (hreset : hashSeq none s.world st₀ = .ok (result₀, st))
    {l' : List (ScanEvent Key)} {t : Scan Key}
    (hscan : Run (ScanStep hash A flags info) ⟨s, st, []⟩ l' t) :
    t.returned.Nodup ∧ (∀ e ∈ t.returned, Present hash s e) ∧
    t.returned.length ≤ s.world.hctl.nkeys ∧
    ∀ h ∈ t.system.handles, ∃ result st',
      hashSeq (some h) t.system.world t.seq = .ok (result, st') ∧
      ((∃ e, result = .element e ∧ Present hash s e ∧ e ∉ t.returned) ∨
        (result = .yes ∧ t.returned.length = s.world.hctl.nkeys ∧
          ∀ e, Present hash s e → e ∈ t.returned)) := by
  obtain ⟨others, -, m, hashp₁, groups, hR, hled⟩ := run_ledger hasked hcreate hrun
  obtain ⟨chains, free, ht, hm, hcard⟩ := id hR.represents
  have hin : hashp₁ ∈ s.handles := by
    obtain ⟨h, hh⟩ := List.exists_mem_of_ne_nil _ (handles_ne_nil hrun (List.cons_ne_nil _ _))
    exact hR.same h hh ▸ hh
  have hpresent : ∀ e, Present hash s e ↔ e ∈ elementsOf s.world chains :=
    fun e => hR.present_iff hin ht
  have hnd := elementsOf_nodup ht
  obtain ⟨-, rfl⟩ := Prod.mk.inj (Except.ok.inj hreset)
  have hstart : Scanning hash flags info (elementsOf s.world chains) ⟨s, ⟨0, INVALID_INDEX⟩, []⟩ m
      hashp₁ chains free (elementsOf s.world chains) :=
    ⟨hR, ht, hled.seg_ne, .start, rfl⟩
  obtain ⟨m', chains', free', pending, hat⟩ := hstart.run hnd hscan
  have hlen : t.returned.length + pending.length = s.world.hctl.nkeys := by
    rw [hcard, ← length_elementsOf ht hm, ← hat.account, List.length_append]
  rw [← hat.account] at hnd
  refine ⟨(List.nodup_append.mp hnd).1, ?_, by omega, ?_⟩
  · intro e he
    rw [hpresent, ← hat.account]
    exact List.mem_append_left _ he
  · intro h hh
    obtain rfl := hat.shared.same h hh
    obtain ⟨result, st', pending', hcall, hreads, -⟩ := hat.seq
    refine ⟨result, st', hcall, ?_⟩
    cases hreads with
    | element e rest =>
      refine Or.inl ⟨e, rfl, ?_, ?_⟩
      · rw [hpresent, ← hat.account]
        exact List.mem_append_right _ List.mem_cons_self
      · intro hback
        exact (List.nodup_append.mp hnd).2.2 e hback e List.mem_cons_self rfl
    | done =>
      refine Or.inr ⟨rfl, hlen, ?_⟩
      intro e he
      rw [hpresent, ← hat.account, List.append_nil] at he
      exact he

/-- A key is entered, its element returned and removed, and the scan goes on. -/
theorem hash_seq_returns_each_once_example : ∃ hashp w call s l t,
    hashCreate bumpAllocator (freshWorld (0 : UInt64)) 1 {} {} = .ok (some (hashp, w)) ∧
    Run (Step (fun key => (key.toNat : Int)) bumpAllocator {} {}) ⟨w, [hashp]⟩ [.search 0 call] s ∧
    call.action = .HASH_ENTER ∧
    Run (ScanStep (fun key => (key.toNat : Int)) bumpAllocator {} {}) ⟨s, ⟨0, INVALID_INDEX⟩, []⟩ l t ∧
    l.length = 2 ∧ t.returned = [4144] ∧ Present (fun key : UInt64 => (key.toNat : Int)) s 4144 := by
  have hasked : Asked {} {} (freshWorld (0 : UInt64)) := ⟨(nomatch ·), (nomatch ·)⟩
  obtain ⟨hashp, w, call, hashp₁, w₁, hcreate, hrun, -, haction, -, htest⟩ := five_entered (p := fun h w₁ =>
    okAnd (hashSeq (some h) w₁ ⟨0, INVALID_INDEX⟩) fun t =>
      okAnd (hashSearch (fun key : UInt64 => (key.toNat : Int)) bumpAllocator h w₁ 5 .HASH_REMOVE) fun t' =>
        decide (t.1 = .element 4144 ∧ t'.1 = .element 4144 ∧ t'.2.1 = true)) (by decide +kernel)
  obtain ⟨⟨returned, st⟩, hseq, hremoves⟩ := okAnd_iff.mp htest
  obtain ⟨⟨removed, found, hashp₂, w₂⟩, hremove, hresults⟩ := okAnd_iff.mp hremoves
  obtain ⟨rfl, rfl, rfl⟩ := of_decide_eq_true hresults
  have hread : ScanStep (fun key : UInt64 => (key.toNat : Int)) bumpAllocator {} {}
      ⟨⟨w₁, [hashp₁]⟩, ⟨0, INVALID_INDEX⟩, []⟩ (.seq 0 (.element 4144))
      ⟨⟨w₁, [hashp₁]⟩, st, [4144]⟩ := .seq rfl hseq
  have htake : ScanStep (fun key : UInt64 => (key.toNat : Int)) bumpAllocator {} {}
      ⟨⟨w₁, [hashp₁]⟩, st, [4144]⟩ (.other (.search 0
        ⟨5, .HASH_REMOVE, decide (Refuses bumpAllocator hashp₁ w₁), .element 4144, true⟩))
      ⟨⟨w₂, [hashp₂]⟩, st, [4144]⟩ := by
    refine .other ⟨fun hf => (nomatch hf), fun _ e he => ?_⟩
      (.search rfl (fun hf => nomatch hf) hremove)
    exact Result.element.inj he ▸ List.mem_singleton_self _
  have hscan := Run.cons hread (.cons htake (.nil _))
  have hreset : hashSeq none w₁ ⟨7, 9⟩ = .ok (.null, ⟨0, INVALID_INDEX⟩) := rfl
  obtain ⟨-, hpresent, -⟩ := hash_seq_returns_each_once hasked hcreate hrun hreset hscan
  exact ⟨hashp, w, _, _, _, _, hcreate, hrun, haction, hscan, rfl, rfl,
    hpresent 4144 (List.mem_singleton_self _)⟩

end PostgresV7.Dynahash
