import PostgresV7.Buffer.BufInternals
import PostgresV7.Shmem.ShmemHash

/-!
# The buffer lookup table (`buf_table.c`)

A shared hash table leads from the tag of a buffer to its descriptor, and
`BM_DELETED` tells whether the table knows the descriptor. The callers hold the
buffer manager's lock. Asserts are read as no-ops.
-/

namespace PostgresV7.Buffer

open Dynahash Shmem Regions Outcomes Runs

/-- The descriptors and the table; `ids` are the `id` fields of its elements. -/
structure BufTable where
  descs : Descriptors
  hashp : HashTable
  world : World BufferTag
  ids : Nat → Int

def SIZEOF_BUFFER_TAG : Nat := 12
def SIZEOF_BUFFER : Nat := 4

/-- `init_buf_table`. -/
def initBufTable (A : Allocator) (w : World BufferTag) (location : Nat) (nBuffers : Nat) :
    Except Fault (Option (HashTable × World BufferTag)) :=
  shmemInitHash A w location nBuffers nBuffers
    { keysize := SIZEOF_BUFFER_TAG, datasize := SIZEOF_BUFFER } { elem := true }

/-- `buf_table_delete`. -/
def bufTableDelete (hash : BufferTag → Int) (A : Allocator) (i : Int) (t : BufTable) :
    Except Fault (Bool × BufTable) := do
  if Has (t.descs i).flags BM_DELETED then .ok (true, t)
  else
    let t := { t with descs := setFlags t.descs i ((t.descs i).flags ||| BM_DELETED) }
    let (result, found, hashp, world) ←
      hashSearch hash A t.hashp t.world (t.descs i).tag .HASH_REMOVE
    .ok (result ≠ .null ∧ found = true, { t with hashp := hashp, world := world })

/-- `buf_table_insert`. -/
def bufTableInsert (hash : BufferTag → Int) (A : Allocator) (i : Int) (t : BufTable) :
    Except Fault (Bool × BufTable) := do
  let t := { t with descs := setFlags t.descs i ((t.descs i).flags &&& ~~~BM_DELETED) }
  let (result, found, hashp, world) ←
    hashSearch hash A t.hashp t.world (t.descs i).tag .HASH_ENTER
  let t := { t with hashp := hashp, world := world }
  match result with
  | .element e =>
    if found then .ok (false, t)
    else .ok (true, { t with ids := Function.update t.ids e (t.descs i).bufId })
  | _ => .ok (false, t)

/-! ## What flag and table tell -/

variable {hash : BufferTag → Int} {A : Allocator} {n : Nat} {t t' : BufTable} {i : Int}
  {m : Dict BufferTag}

/-- The table leads from the tag to the buffer. -/
def Maps (hash : BufferTag → Int) (t : BufTable) (tag : BufferTag) (id : Int) : Prop :=
  ∃ e, Reached hash t.hashp t.world tag e ∧ t.ids e = id

/-- `BM_DELETED` is clear on those descriptors the table leads to. -/
def Agrees (hash : BufferTag → Int) (n : Nat) (t : BufTable) : Prop :=
  ∀ i : Int, 0 ≤ i → i < n →
    (¬ Has (t.descs i).flags BM_DELETED ↔ Maps hash t (t.descs i).tag (t.descs i).bufId)

/-- The tag is not in the table, and there is an element for it. -/
def Enterable (hash : BufferTag → Int) (A : Allocator) (t : BufTable) (i : Int) : Prop :=
  (∀ e, ¬ Reached hash t.hashp t.world (t.descs i).tag e) ∧ ¬ Refuses A t.hashp t.world

/-- The table stands for `m`, whose elements belong to the buffers that are not
marked as deleted. -/
structure Known (hash : BufferTag → Int) (n : Nat) (t : BufTable) (m : Dict BufferTag) : Prop where
  inShmem : InShmem t.hashp t.world
  represents : Represents hash t.hashp t.world m
  bufId : ∀ i : Int, 0 ≤ i → i < n → (t.descs i).bufId = i
  owner : ∀ tag e, m.lookup tag = some e →
    0 ≤ t.ids e ∧ t.ids e < n ∧ (t.descs (t.ids e)).tag = tag ∧
      ¬ Has (t.descs (t.ids e)).flags BM_DELETED
  entry : ∀ i : Int, 0 ≤ i → i < n → ¬ Has (t.descs i).flags BM_DELETED →
    ∃ e, m.lookup (t.descs i).tag = some e ∧ t.ids e = i

theorem Known.maps_iff (h : Known hash n t m) {tag : BufferTag} {id : Int} :
    Maps hash t tag id ↔ ∃ e, m.lookup tag = some e ∧ t.ids e = id :=
  exists_congr fun _ => and_congr_left fun _ => h.represents.reached_iff

theorem Known.agrees (h : Known hash n t m) : Agrees hash n t := by
  intro i h0 hi
  rw [h.maps_iff, h.bufId i h0 hi]
  constructor
  · exact h.entry i h0 hi
  · rintro ⟨e, he, rfl⟩
    exact (h.owner _ e he).2.2.2

/-! ## Descriptors -/

theorem setFlags_self (descs : Descriptors) (i : Int) (flags : BufFlags) :
    setFlags descs i flags i = { descs i with flags := flags } := Function.update_self _ _ _

theorem setFlags_of_ne {descs : Descriptors} {i j : Int} (flags : BufFlags) (h : j ≠ i) :
    setFlags descs i flags j = descs j := Function.update_of_ne h _ _

theorem setFlags_tag (descs : Descriptors) (i : Int) (flags : BufFlags) (j : Int) :
    (setFlags descs i flags j).tag = (descs j).tag := by
  by_cases h : j = i
  · rw [h, setFlags_self]
  · rw [setFlags_of_ne flags h]

theorem setFlags_bufId (descs : Descriptors) (i : Int) (flags : BufFlags) (j : Int) :
    (setFlags descs i flags j).bufId = (descs j).bufId := by
  by_cases h : j = i
  · rw [h, setFlags_self]
  · rw [setFlags_of_ne flags h]

/-! ## Deleting -/

/-- Without the entry of a buffer, and the buffer marked as deleted. -/
theorem Known.erase (h : Known hash n t m) (h0 : 0 ≤ i) (hi : i < n)
    (hclear : ¬ Has (t.descs i).flags BM_DELETED) {w' : World BufferTag} (hkept : Kept t.world w')
    (hrep : Represents hash t.hashp w' (m.erase (t.descs i).tag)) :
    Known hash n ⟨setFlags t.descs i ((t.descs i).flags ||| BM_DELETED), t.hashp, w', t.ids⟩
      (m.erase (t.descs i).tag) where
  inShmem := h.inShmem.kept hkept
  represents := hrep
  bufId j hj0 hj := by
    dsimp only
    rw [setFlags_bufId]
    exact h.bufId j hj0 hj
  owner tag e he := by
    have htag : tag ≠ (t.descs i).tag := by
      rintro rfl
      rw [Finmap.lookup_erase] at he
      cases he
    rw [Finmap.lookup_erase_ne htag] at he
    obtain ⟨hj0, hj, hown, hcl⟩ := h.owner tag e he
    have hother : t.ids e ≠ i := fun heq => htag (by rw [← hown, heq])
    refine ⟨hj0, hj, ?_, ?_⟩ <;> dsimp only
    · rw [setFlags_tag]
      exact hown
    · rw [setFlags_of_ne _ hother]
      exact hcl
  entry j hj0 hj hcl := by
    have hji : j ≠ i := by
      rintro rfl
      dsimp only at hcl
      rw [setFlags_self] at hcl
      exact hcl (has_or (by decide))
    dsimp only at hcl ⊢
    rw [setFlags_of_ne _ hji] at hcl ⊢
    obtain ⟨e, he, hid⟩ := h.entry j hj0 hj hcl
    obtain ⟨e', he', hid'⟩ := h.entry i h0 hi hclear
    refine ⟨e, ?_, hid⟩
    rw [Finmap.lookup_erase_ne fun htag => ?_]
    · exact he
    · rw [htag, he'] at he
      exact hji (by rw [← hid, ← hid', Option.some.inj he])

/-- A buffer that is deleted takes its own entry out of the table. -/
theorem Known.delete (h : Known hash n t m) (h0 : 0 ≤ i) (hi : i < n) :
    ∃ t' m', bufTableDelete hash A i t = .ok (true, t') ∧ Known hash n t' m' ∧
      ∀ tag id, id ≠ i → (Maps hash t' tag id ↔ Maps hash t tag id) := by
  unfold bufTableDelete
  split
  · exact ⟨t, m, rfl, h, fun _ _ _ => Iff.rfl⟩
  · rename_i hclear
    obtain ⟨e, he, hid⟩ := h.entry i h0 hi hclear
    obtain ⟨result, found, w', m', hrun, hkept, hrep, hans⟩ :=
      h.inShmem.search (A := A) h.represents (t.descs i).tag .HASH_REMOVE
    dsimp only
    rw [setFlags_tag, hrun]
    cases hans with
    | hit hlook hne => exact absurd rfl hne
    | miss hnot => exact absurd (Finmap.mem_iff.mpr ⟨e, he⟩) hnot
    | remove hlook =>
      have hknown := h.erase h0 hi hclear hkept hrep
      refine ⟨_, _, rfl, hknown, fun tag id hne => ?_⟩
      rw [hknown.maps_iff, h.maps_iff]
      by_cases htag : tag = (t.descs i).tag
      · rw [htag, Finmap.lookup_erase]
        refine iff_of_false (fun hf => nomatch hf.choose_spec.1) ?_
        rintro ⟨e', he', hid'⟩
        rw [Option.some.inj (he'.symm.trans he), hid] at hid'
        exact hne hid'.symm
      · rw [Finmap.lookup_erase_ne htag]

/-! ## Inserting -/

/-- With a new entry for a buffer, and the buffer not marked any more. -/
theorem Known.enter (h : Known hash n t m) (h0 : 0 ≤ i) (hi : i < n)
    (hdel : Has (t.descs i).flags BM_DELETED) {w' : World BufferTag} (hkept : Kept t.world w')
    {e : Nat} (hnot : (t.descs i).tag ∉ m) (hfresh : ∀ k, m.lookup k ≠ some e)
    (hrep : Represents hash t.hashp w' (m.insert (t.descs i).tag e)) :
    Known hash n ⟨setFlags t.descs i ((t.descs i).flags &&& ~~~BM_DELETED), t.hashp, w',
      Function.update t.ids e i⟩ (m.insert (t.descs i).tag e) where
  inShmem := h.inShmem.kept hkept
  represents := hrep
  bufId j hj0 hj := by
    dsimp only
    rw [setFlags_bufId]
    exact h.bufId j hj0 hj
  owner tag e' he' := by
    dsimp only
    by_cases htag : tag = (t.descs i).tag
    · rw [htag, Finmap.lookup_insert] at he'
      obtain rfl : e = e' := Option.some.inj he'
      rw [Function.update_self, setFlags_self]
      exact ⟨h0, hi, htag.symm, not_has_clear _ _⟩
    · rw [Finmap.lookup_insert_of_ne _ htag] at he'
      have hne : e' ≠ e := fun heq => hfresh tag (heq ▸ he')
      obtain ⟨hj0, hj, hown, hcl⟩ := h.owner tag e' he'
      have hother : t.ids e' ≠ i := fun heq => hcl (heq ▸ hdel)
      rw [Function.update_of_ne hne, setFlags_of_ne _ hother]
      exact ⟨hj0, hj, hown, hcl⟩
  entry j hj0 hj hcl := by
    dsimp only at hcl ⊢
    by_cases hji : j = i
    · rw [hji, setFlags_tag]
      exact ⟨e, Finmap.lookup_insert m, Function.update_self _ _ _⟩
    · rw [setFlags_of_ne _ hji] at hcl ⊢
      obtain ⟨e', he', hid⟩ := h.entry j hj0 hj hcl
      have hne : e' ≠ e := fun heq => hfresh _ (heq ▸ he')
      have htag : (t.descs j).tag ≠ (t.descs i).tag := fun heq =>
        hnot (Finmap.mem_iff.mpr ⟨e', heq ▸ he'⟩)
      refine ⟨e', ?_, ?_⟩
      · rw [Finmap.lookup_insert_of_ne _ htag]
        exact he'
      · rw [Function.update_of_ne hne]
        exact hid

/-- No entry for a buffer, and still it is not marked any more: then flag and table
disagree. -/
theorem Known.not_agrees (h : Known hash n t m) (h0 : 0 ≤ i) (hi : i < n)
    (hdel : Has (t.descs i).flags BM_DELETED) {w' : World BufferTag}
    (hrep : Represents hash t.hashp w' m) :
    ¬ Agrees hash n
      ⟨setFlags t.descs i ((t.descs i).flags &&& ~~~BM_DELETED), t.hashp, w', t.ids⟩ := by
  intro hag
  have hcl : ¬ Has (setFlags t.descs i ((t.descs i).flags &&& ~~~BM_DELETED) i).flags BM_DELETED := by
    rw [setFlags_self]
    exact not_has_clear _ _
  obtain ⟨e, hreach, hid⟩ := (hag i h0 hi).mp hcl
  dsimp only at hreach hid
  rw [setFlags_bufId, h.bufId i h0 hi] at hid
  have hown := (h.owner _ e (hrep.reached_iff.mp hreach)).2.2.2
  exact hown (hid ▸ hdel)

/-- A buffer marked as deleted gets its entry exactly when its tag has none and there
is an element for it; otherwise flag and table disagree afterwards. -/
theorem Known.insert (h : Known hash n t m) (h0 : 0 ≤ i) (hi : i < n)
    (hdel : Has (t.descs i).flags BM_DELETED) :
    ∃ done t', bufTableInsert hash A i t = .ok (done, t') ∧
      (Enterable hash A t i → done = true ∧ ∃ m', Known hash n t' m') ∧
      (¬ Enterable hash A t i → done = false ∧ ¬ Agrees hash n t') := by
  obtain ⟨result, found, w', m', hrun, hkept, hrep, hans⟩ :=
    h.inShmem.search (A := A) h.represents (t.descs i).tag .HASH_ENTER
  have habsent : (∀ e, ¬ Reached hash t.hashp t.world (t.descs i).tag e) ↔ (t.descs i).tag ∉ m := by
    rw [Finmap.mem_iff, not_exists]
    exact forall_congr' fun e => not_congr h.represents.reached_iff
  unfold bufTableInsert
  dsimp only
  rw [setFlags_tag, hrun]
  generalize hr : decide (Refuses A t.hashp t.world) = r at hans
  cases hans with
  | @hit _ _ _ e hlook hne =>
    refine ⟨_, _, rfl, fun hent => ?_, fun _ => ⟨rfl, h.not_agrees h0 hi hdel hrep⟩⟩
    exact absurd (Finmap.mem_iff.mpr ⟨e, hlook⟩) (habsent.mp hent.1)
  | miss hnot hne => exact absurd rfl hne
  | @enter _ e hnot hfresh hne =>
    refine ⟨_, _, rfl, fun _ => ⟨rfl, m.insert (t.descs i).tag e, ?_⟩, fun hent => ?_⟩
    · dsimp only
      rw [setFlags_bufId, h.bufId i h0 hi]
      exact h.enter h0 hi hdel hkept hnot hfresh hrep
    · exact absurd ⟨habsent.mpr hnot, of_decide_eq_false hr⟩ hent
  | refused hnot =>
    refine ⟨_, _, rfl, fun hent => ?_, fun _ => ⟨rfl, h.not_agrees h0 hi hdel hrep⟩⟩
    exact absurd (of_decide_eq_true hr) hent.2

/-! ## Runs -/

/-- A call and what it returned, or a new tag. -/
inductive BufCall where
  | delete (i : Int) (done : Bool)
  | insert (i : Int) (done : Bool)
  | retag (i : Int) (tag : BufferTag)

/-- The calls. Buffers are entered when they are marked as deleted, their tag is not in
the table and there is an element; only then do they get other tags as well. -/
inductive BufStep (hash : BufferTag → Int) (A : Allocator) (n : Nat) :
    BufTable → BufCall → BufTable → Prop where
  | delete {t t' : BufTable} {i : Int} {done : Bool} : 0 ≤ i → i < n →
      bufTableDelete hash A i t = .ok (done, t') → BufStep hash A n t (.delete i done) t'
  | insert {t t' : BufTable} {i : Int} {done : Bool} : 0 ≤ i → i < n →
      Has (t.descs i).flags BM_DELETED → Enterable hash A t i →
      bufTableInsert hash A i t = .ok (done, t') → BufStep hash A n t (.insert i done) t'
  | retag {t : BufTable} {i : Int} {tag : BufferTag} : Has (t.descs i).flags BM_DELETED →
      BufStep hash A n t (.retag i tag)
        { t with descs := Function.update t.descs i { t.descs i with tag := tag } }

theorem Known.retag (h : Known hash n t m) (hdel : Has (t.descs i).flags BM_DELETED)
    (tag : BufferTag) :
    Known hash n { t with descs := Function.update t.descs i { t.descs i with tag := tag } } m where
  inShmem := h.inShmem
  represents := h.represents
  bufId j hj0 hj := by
    dsimp only
    by_cases hji : j = i
    · subst hji
      rw [Function.update_self]
      exact h.bufId j hj0 hj
    · rw [Function.update_of_ne hji]
      exact h.bufId j hj0 hj
  owner tag' e he := by
    have hown := h.owner tag' e he
    have hother : t.ids e ≠ i := fun heq => hown.2.2.2 (heq ▸ hdel)
    dsimp only
    rw [Function.update_of_ne hother]
    exact hown
  entry j hj0 hj hcl := by
    have hji : j ≠ i := by
      rintro rfl
      dsimp only at hcl
      rw [Function.update_self] at hcl
      exact hcl hdel
    dsimp only at hcl ⊢
    rw [Function.update_of_ne hji] at hcl ⊢
    exact h.entry j hj0 hj hcl

theorem Known.step {c : BufCall} (h : Known hash n t m) (hs : BufStep hash A n t c t') :
    ∃ m', Known hash n t' m' := by
  cases hs with
  | delete h0 hi hrun =>
    obtain ⟨t₁, m₁, hrun₁, hknown, -⟩ := h.delete (A := A) h0 hi
    obtain ⟨-, rfl⟩ := Prod.mk.inj (Except.ok.inj (hrun₁.symm.trans hrun))
    exact ⟨m₁, hknown⟩
  | insert h0 hi hdel hent hrun =>
    obtain ⟨done, t₁, hrun₁, hyes, -⟩ := h.insert (A := A) h0 hi hdel
    obtain ⟨-, rfl⟩ := Prod.mk.inj (Except.ok.inj (hrun₁.symm.trans hrun))
    exact (hyes hent).2
  | retag hdel => exact ⟨m, h.retag hdel _⟩

/-- A new pool and a new table: all buffers are marked, and the table is empty. -/
theorem Known.init {w world : World BufferTag} {location : Nat} {hashp : HashTable}
    (hdir : directoryRegion location n ∈ w.heap.regions)
    (hinit : initBufTable A w location n = .ok (some (hashp, world))) (descs : Descriptors)
    (ids : Nat → Int) : Known hash n ⟨initBufferPool n descs, hashp, world, ids⟩ ∅ := by
  obtain ⟨hshmem, hrep, -⟩ := shmemInitHash_spec hash (by decide) hdir hinit
  refine ⟨hshmem, hrep, fun i h0 hi => (initBufferPool_desc descs h0 hi).2.1, fun tag e he => ?_,
    fun i h0 hi hcl => absurd ?_ hcl⟩
  · rw [Finmap.lookup_empty] at he
    cases he
  · dsimp only
    rw [(initBufferPool_desc descs h0 hi).2.2.1]
    show Has (BM_DELETED ||| BM_FREE ||| BM_VALID) BM_DELETED
    decide

/-- In every run that enters a buffer only when its tag has no entry yet and there is an
element for it, `BM_DELETED` is clear on those descriptors the table leads to. Deleting
then takes out no other buffer's entry, and entering one more buffer keeps flag and table
in agreement exactly under that condition. -/
theorem buf_table_run_agrees {w world : World BufferTag} {location : Nat} {hashp : HashTable}
    (hdir : directoryRegion location n ∈ w.heap.regions)
    (hinit : initBufTable A w location n = .ok (some (hashp, world)))
    {descs : Descriptors} {ids : Nat → Int} {l : List BufCall}
    (hrun : Run (BufStep hash A n) ⟨initBufferPool n descs, hashp, world, ids⟩ l t) :
    Agrees hash n t ∧ ∀ i : Int, 0 ≤ i → i < n →
      (∃ t', bufTableDelete hash A i t = .ok (true, t') ∧ Agrees hash n t' ∧
        ∀ tag id, id ≠ i → (Maps hash t' tag id ↔ Maps hash t tag id)) ∧
      (Has (t.descs i).flags BM_DELETED → ∃ done t', bufTableInsert hash A i t = .ok (done, t') ∧
        (done = true ↔ Enterable hash A t i) ∧ (Agrees hash n t' ↔ Enterable hash A t i)) := by
  have hinv : ∃ m, Known hash n t m :=
    Run.invariant (I := fun t => ∃ m, Known hash n t m) (fun _ _ _ hI hs => hI.choose_spec.step hs) hrun
      ⟨∅, Known.init hdir hinit descs ids⟩
  obtain ⟨m, h⟩ := hinv
  refine ⟨h.agrees, fun i h0 hi => ⟨?_, fun hdel => ?_⟩⟩
  · obtain ⟨t', m', hrun', hknown, hothers⟩ := h.delete (A := A) h0 hi
    exact ⟨t', hrun', hknown.agrees, hothers⟩
  · obtain ⟨done, t', hrun', hyes, hno⟩ := h.insert (A := A) h0 hi hdel
    refine ⟨done, t', hrun', ?_⟩
    by_cases hent : Enterable hash A t i
    · obtain ⟨hdone, m', hknown⟩ := hyes hent
      exact ⟨iff_of_true hdone hent, iff_of_true hknown.agrees hent⟩
    · obtain ⟨hdone, hnot⟩ := hno hent
      rw [hdone]
      exact ⟨iff_of_false Bool.false_ne_true hent, iff_of_false hnot hent⟩

/-- Memory with room for the directory only. -/
def directoryWorld : World BufferTag :=
  { freshWorld clearBufferTag with heap := ⟨0, [⟨120, 2048⟩]⟩ }

/-- Two buffers with the same tag. -/
def twoBuffers : Descriptors := initBufferPool 2 fun _ => freshDesc 0

/-- The first one of them is entered. -/
theorem twoBuffers_insert : ∃ hashp world t,
    initBufTable bumpAllocator directoryWorld 0 2 = .ok (some (hashp, world)) ∧
    bufTableInsert (fun _ => 0) bumpAllocator 0 ⟨twoBuffers, hashp, world, fun _ => 0⟩ = .ok (true, t) ∧
    ¬ Has (t.descs 0).flags BM_DELETED ∧ Has (t.descs 1).flags BM_DELETED ∧
    (t.descs 1).tag = (t.descs 0).tag := by
  have hrun : okAnd (initBufTable bumpAllocator directoryWorld 0 2) (fun r => r.any fun p =>
      okAnd (bufTableInsert (fun _ => 0) bumpAllocator 0 ⟨twoBuffers, p.1, p.2, fun _ => 0⟩) fun q =>
        decide (q.1 = true ∧ ¬ Has (q.2.descs 0).flags BM_DELETED ∧ Has (q.2.descs 1).flags BM_DELETED ∧
          (q.2.descs 1).tag = (q.2.descs 0).tag)) = true := by decide +kernel
  obtain ⟨r, hinit, hsome⟩ := okAnd_iff.mp hrun
  obtain ⟨⟨hashp, world⟩, rfl, hentered⟩ := (Option.any_eq_true _ _).mp hsome
  obtain ⟨⟨done, t⟩, hinsert, htest⟩ := okAnd_iff.mp hentered
  obtain ⟨rfl, hflags⟩ := of_decide_eq_true htest
  exact ⟨hashp, world, t, hinit, hinsert, hflags⟩

theorem buf_table_run_agrees_example : ∃ hashp world t,
    initBufTable bumpAllocator directoryWorld 0 2 = .ok (some (hashp, world)) ∧
    Run (BufStep (fun _ => 0) bumpAllocator 2) ⟨twoBuffers, hashp, world, fun _ => 0⟩
      [.insert 0 true] t ∧ Agrees (fun _ => 0) 2 t := by
  obtain ⟨hashp, world, t, hinit, hins, -⟩ := twoBuffers_insert
  have hdir : directoryRegion 0 (2 : Nat) ∈ directoryWorld.heap.regions := by decide
  have hknown : Known (fun _ => 0) 2 ⟨twoBuffers, hashp, world, fun _ => 0⟩ ∅ :=
    Known.init hdir hinit _ _
  have hdel : Has (twoBuffers 0).flags BM_DELETED := by decide
  have hent : Enterable (fun _ => 0) bumpAllocator ⟨twoBuffers, hashp, world, fun _ => 0⟩ 0 := by
    by_contra hno
    obtain ⟨done, t', hins', -, hf⟩ := hknown.insert (A := bumpAllocator) (i := 0) (by decide) (by decide) hdel
    rw [hins] at hins'
    obtain ⟨rfl, -⟩ := Prod.mk.inj (Except.ok.inj hins')
    exact absurd (hf hno).1 (by decide)
  have hrun : Run (BufStep (fun _ => 0) bumpAllocator 2) ⟨twoBuffers, hashp, world, fun _ => 0⟩
      [.insert 0 true] t := .cons (.insert (by decide) (by decide) hdel hent hins) (.nil t)
  exact ⟨hashp, world, t, hinit, hrun, (buf_table_run_agrees hdir hinit hrun).1⟩

/-- Entering the other one as well fails, and unmarks it all the same. -/
theorem bufTableInsert_disagrees : ∃ hashp world t t',
    initBufTable bumpAllocator directoryWorld 0 2 = .ok (some (hashp, world)) ∧
    bufTableInsert (fun _ => 0) bumpAllocator 0 ⟨twoBuffers, hashp, world, fun _ => 0⟩ = .ok (true, t) ∧
    Has (t.descs 1).flags BM_DELETED ∧
    bufTableInsert (fun _ => 0) bumpAllocator 1 t = .ok (false, t') ∧ ¬ Agrees (fun _ => 0) 2 t' := by
  obtain ⟨hashp, world, t, hinit, hins, hclear, hdel, htag⟩ := twoBuffers_insert
  have hknown : Known (fun _ => 0) 2 ⟨twoBuffers, hashp, world, fun _ => 0⟩ ∅ :=
    Known.init (by decide) hinit _ _
  obtain ⟨m, ht⟩ : ∃ m, Known (fun _ => 0) 2 t m := by
    have hdel₀ : Has (twoBuffers 0).flags BM_DELETED := by decide
    obtain ⟨done, t', hins', hyes, hf⟩ := hknown.insert (A := bumpAllocator) (i := 0) (by decide) (by decide)
      hdel₀
    rw [hins] at hins'
    obtain ⟨rfl, rfl⟩ := Prod.mk.inj (Except.ok.inj hins')
    by_cases hent : Enterable (fun _ => 0) bumpAllocator ⟨twoBuffers, hashp, world, fun _ => 0⟩ 0
    · exact (hyes hent).2
    · exact absurd (hf hent).1 (by decide)
  obtain ⟨done, t', hins', -, hf⟩ := ht.insert (A := bumpAllocator) (i := 1) (by decide) (by decide) hdel
  obtain ⟨e, he, -⟩ := (ht.agrees 0 (by decide) (by decide)).mp hclear
  obtain ⟨hdone, hno⟩ := hf fun hent => hent.1 e (htag ▸ he)
  exact ⟨hashp, world, t, t', hinit, hins, hdel, hdone ▸ hins', hno⟩

end PostgresV7.Buffer
