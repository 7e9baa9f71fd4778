import PostgresV7.Dynahash.Invariant

/-!
# Elements on chains and on the free list

Following a chain, taking an element off it, appending one, and making new
elements when the free list is empty.
-/

namespace PostgresV7.Dynahash

open Regions Chains Outcomes

variable {Key : Type} {hash : Key → Int} {A : Allocator} {hashp : HashTable} {w w' : World Key}
  {chains : Nat → List Nat} {free : List Nat}

/-! ## The cells of a chain -/

/-- The cells of the chain through `l` from bucket `b`. -/
def cellsOf (hashp : HashTable) (w : World Key) (b : Nat) (l : List Nat) : List Cell :=
  bucketCell hashp w b :: l.map Cell.next

theorem next_mem_cellsOf {b e : Nat} {l : List Nat} : Cell.next e ∈ cellsOf hashp w b l ↔ e ∈ l := by
  unfold cellsOf
  constructor
  · intro h
    rcases List.mem_cons.mp h with heq | hm
    · exact Cell.noConfusion heq
    · obtain ⟨e', he', heq⟩ := List.mem_map.mp hm
      rw [← Cell.next.inj heq]
      exact he'
  · exact fun h => List.mem_cons_of_mem _ (List.mem_map.mpr ⟨e, h, rfl⟩)

theorem bucket_mem_cellsOf {b : Nat} {l : List Nat} : bucketCell hashp w b ∈ cellsOf hashp w b l :=
  List.mem_cons_self

theorem lastCell_mem_cellsOf {b : Nat} {l l' : List Nat} :
    lastCell Cell.next (bucketCell hashp w b) l ∈ cellsOf hashp w b (l ++ l') := by
  have h : lastCell Cell.next (bucketCell hashp w b) l ∈ bucketCell hashp w b :: l.map Cell.next :=
    lastCell_mem _ l
  unfold cellsOf
  rw [List.map_append]
  exact List.mem_append_left (l'.map Cell.next) h

/-- Chains of different buckets share no cell. -/
theorem Table.cells_disjoint (h : Table hash hashp w chains free) {b b' : Nat} {d : Cell}
    (hb : b ≤ w.hctl.maxBucket) (hb' : b' ≤ w.hctl.maxBucket) (hne : b' ≠ b)
    (hd : d ∈ cellsOf hashp w b (chains b)) : d ∉ cellsOf hashp w b' (chains b') := by
  intro hd'
  rcases List.mem_cons.mp hd with rfl | hm
  · rcases List.mem_cons.mp hd' with heq | hm'
    · exact hne (h.bucket_inj hb hb' heq).symm
    · obtain ⟨e, -, heq⟩ := List.mem_map.mp hm'
      exact Cell.noConfusion heq
  · obtain ⟨e, he, rfl⟩ := List.mem_map.mp hm
    exact hne (h.chain_inj hb' hb (next_mem_cellsOf.mp hd') he)

/-- The free list shares no cell with a chain. -/
theorem Table.free_disjoint (h : Table hash hashp w chains free) {b e : Nat}
    (hb : b ≤ w.hctl.maxBucket) (he : e ∈ free) : Cell.next e ∉ cellsOf hashp w b (chains b) :=
  fun hm => h.apart e he b hb (next_mem_cellsOf.mp hm)

/-! ## `followChain` -/

/-- What following the chain from the cell `c` through `l` comes to. -/
inductive Followed (w : World Key) (key : Key) (c : Cell) (l : List Nat) : Cell × Nat → Prop where
  | miss : (∀ e ∈ l, w.keys e ≠ key) → Followed w key c l (lastCell Cell.next c l, INVALID_INDEX)
  | hit (l₁ : List Nat) {l₂ : List Nat} {e : Nat} : l = l₁ ++ e :: l₂ → e ≠ INVALID_INDEX → w.keys e = key →
      Followed w key c l (lastCell Cell.next c l₁, e)

theorem followChain_spec [DecidableEq Key] (key : Key) {k : Nat} {c : Cell} {l : List Nat}
    (h : Chain Cell.next 0 w.cells c l) (hk : l.length ≤ k) :
    ∃ r, followChain w key k c = .ok r ∧ Followed w key c l r := by
  induction l generalizing c k with
  | nil =>
    have hnil : w.cells c = INVALID_INDEX := h
    refine ⟨(c, INVALID_INDEX), ?_, .miss fun e he => absurd he List.not_mem_nil⟩
    unfold followChain
    dsimp only
    rw [if_pos hnil, hnil]
  | cons e l ih =>
    obtain ⟨h1, h2, h3⟩ := h
    cases k with
    | zero => exact absurd hk (Nat.not_succ_le_zero _)
    | succ k =>
      unfold followChain
      dsimp only
      rw [h1, if_neg (show e ≠ INVALID_INDEX from h2)]
      by_cases hkey : w.keys e = key
      · rw [if_pos hkey]
        exact ⟨_, rfl, .hit [] rfl h2 hkey⟩
      · rw [if_neg hkey]
        obtain ⟨r, hr, hf⟩ := ih h3 (Nat.le_of_succ_le_succ hk)
        refine ⟨r, hr, ?_⟩
        cases hf with
        | miss hmiss =>
          refine .miss (l := e :: l) fun e' he' => ?_
          rcases List.mem_cons.mp he' with rfl | hm
          · exact hkey
          · exact hmiss e' hm
        | hit l₁ heq hne hkey' => exact .hit (e :: l₁) (by rw [heq]; rfl) hne hkey'

/-! ## `removeElement` -/

theorem removeElement_cells (w : World Key) (prev : Cell) (e : Nat) :
    (removeElement w prev e).cells = Function.update
      (Function.update w.cells prev (w.cells (.next e))) (.next e) w.hctl.freeBucketIndex := rfl

theorem Table.remove (h : Table hash hashp w chains free) {b e : Nat} {l₁ l₂ : List Nat}
    (hb : b ≤ w.hctl.maxBucket) (hl : chains b = l₁ ++ e :: l₂) :
    Table hash hashp (removeElement w (lastCell Cell.next (bucketCell hashp w b) l₁) e)
      (Function.update chains b (l₁ ++ l₂)) (e :: free) := by
  have hnd : (cellsOf hashp w b (l₁ ++ e :: l₂)).Nodup := hl ▸ h.cells_nodup hb
  have hlast : lastCell Cell.next (bucketCell hashp w b) l₁ ∈ cellsOf hashp w b (chains b) := by
    rw [hl]
    exact lastCell_mem_cellsOf
  have he : e ∈ chains b := by
    rw [hl]
    exact List.mem_append_right l₁ List.mem_cons_self
  have hlast' : lastCell Cell.next (bucketCell hashp w b) l₁ ∈ bucketCell hashp w b :: l₁.map Cell.next :=
    lastCell_mem _ _
  have hnd₁ : (bucketCell hashp w b :: l₁.map Cell.next).Nodup ∧
      (∀ d ∈ bucketCell hashp w b :: l₁.map Cell.next, d ≠ .next e) ∧
      (∀ e' ∈ l₂, Cell.next e' ∉ bucketCell hashp w b :: l₁.map Cell.next) ∧ (∀ e' ∈ l₂, e' ≠ e) := by
    unfold cellsOf at hnd
    rw [List.map_append, List.map_cons, ← List.cons_append] at hnd
    obtain ⟨hleft, hright, hdisj⟩ := List.nodup_append.mp hnd
    refine ⟨hleft, fun d hd => hdisj d hd _ List.mem_cons_self, fun e' he' hm => ?_, fun e' he' heq => ?_⟩
    · exact hdisj _ hm _ (List.mem_cons_of_mem _ (List.mem_map.mpr ⟨e', he', rfl⟩)) rfl
    · rw [heq] at he'
      exact (List.nodup_cons.mp hright).1 (List.mem_map.mpr ⟨e, he', rfl⟩)
  generalize hprev : lastCell Cell.next (bucketCell hashp w b) l₁ = prev at hlast hlast'
  have hprev_ne : prev ≠ .next e := hnd₁.2.1 prev hlast'
  -- the two cells written to are cells of the chain of `b`
  have hframe : ∀ d, d ≠ prev → d ≠ .next e →
      (removeElement w prev e).cells d = w.cells d := by
    intro d h1 h2
    rw [removeElement_cells, Function.update_of_ne h2, Function.update_of_ne h1]
  have hother : ∀ b' ≤ w.hctl.maxBucket, b' ≠ b → ∀ d ∈ cellsOf hashp w b' (chains b'),
      (removeElement w prev e).cells d = w.cells d := by
    intro b' hb' hne d hd
    have hd' := h.cells_disjoint hb' hb hne.symm hd
    refine hframe d ?_ ?_
    · rintro rfl
      exact hd' hlast
    · rintro rfl
      exact hd' (next_mem_cellsOf.mpr he)
  have hsub : ∀ b' e', e' ∈ Function.update chains b (l₁ ++ l₂) b' → e' ∈ chains b' := by
    intro b' e' he'
    by_cases hbb : b' = b
    · subst hbb
      rw [Function.update_self] at he'
      rw [hl]
      rcases List.mem_append.mp he' with hm | hm
      · exact List.mem_append_left _ hm
      · exact List.mem_append_right _ (List.mem_cons_of_mem _ hm)
    · rwa [Function.update_of_ne hbb] at he'
  refine ⟨h.segments.move ⟨rfl, rfl, rfl, rfl⟩ (fun _ _ => rfl) (fun _ hr => hr), h.fits, h.masked,
    h.covered, ?_, ?_, ?_, ?_, ?_, ?_⟩
  · intro b' hb'
    by_cases hbb : b' = b
    · subst hbb
      rw [Function.update_self]
      refine Chain.unlink (hl ▸ h.chain b' hb) hnd₁.1 ?_ ?_ ?_
      · show (removeElement w prev e).cells (lastCell Cell.next (bucketCell hashp w b') l₁) = _
        rw [hprev]
        rw [removeElement_cells, Function.update_of_ne hprev_ne, Function.update_self]
      · intro d hd hdlast
        exact hframe d (fun hdp => hdlast (hdp.trans hprev.symm)) (hnd₁.2.1 d hd)
      · intro e' he'
        refine hframe _ ?_ fun heq => hnd₁.2.2.2 e' he' (Cell.next.inj heq)
        rintro rfl
        exact hnd₁.2.2.1 e' he' hlast'
    · rw [Function.update_of_ne hbb]
      exact (h.chain b' hb').move (hother b' hb' hbb _ bucket_mem_cellsOf)
        fun e' he' => hother b' hb' hbb _ (next_mem_cellsOf.mpr he')
  · show Linked Cell.next 0 (removeElement w prev e).cells e (e :: free)
    refine Linked.cons ?_ ((h.chain b hb).ne_nil he)
    have hself : (removeElement w prev e).cells (.next e) = w.hctl.freeBucketIndex := by
      rw [removeElement_cells, Function.update_self]
    rw [hself]
    refine h.linked.move fun e' he' => hframe _ ?_ fun heq => ?_
    · rintro rfl
      exact h.free_disjoint hb he' hlast
    · rw [Cell.next.inj heq] at he'
      exact h.apart e he' b hb he
  · exact fun b' hb' e' he' => h.home b' hb' e' (hsub b' e' he')
  · exact fun b' hb' e₁ h₁ e₂ h₂ => h.keys_inj b' hb' e₁ (hsub b' e₁ h₁) e₂ (hsub b' e₂ h₂)
  · intro e' he' b' hb' hm
    rcases List.mem_cons.mp he' with rfl | hfree
    · have hbb : b' = b := h.chain_inj hb' hb (hsub b' e' hm) he
      subst hbb
      rw [Function.update_self] at hm
      rcases List.mem_append.mp hm with hm | hm
      · exact hnd₁.2.1 _ (List.mem_cons_of_mem _ (List.mem_map.mpr ⟨e', hm, rfl⟩)) rfl
      · exact hnd₁.2.2.2 e' hm rfl
    · exact h.apart e' hfree b' hb' (hsub b' e' hm)
  · rintro e' (he' | ⟨b', hb', he'⟩)
    · rcases List.mem_cons.mp he' with rfl | hfree
      · exact h.held e' (Or.inr ⟨b, hb, he⟩)
      · exact h.held e' (Or.inl hfree)
    · exact h.held e' (Or.inr ⟨b', hb', hsub b' e' he'⟩)

/-! ## `insertElement` -/

theorem insertElement_cells (w : World Key) (prev : Cell) (key : Key) :
    (insertElement w prev key).cells = Function.update
      (Function.update w.cells prev w.hctl.freeBucketIndex) (.next w.hctl.freeBucketIndex)
      INVALID_INDEX := rfl

theorem Table.insert (h : Table hash hashp w chains (w.hctl.freeBucketIndex :: free)) {key : Key}
    (hmiss : ∀ e ∈ chains (callHash w.hctl (hash key)), w.keys e ≠ key) :
    Table hash hashp
      (insertElement w (lastCell Cell.next (bucketCell hashp w (callHash w.hctl (hash key)))
        (chains (callHash w.hctl (hash key)))) key)
      (Function.update chains (callHash w.hctl (hash key))
        (chains (callHash w.hctl (hash key)) ++ [w.hctl.freeBucketIndex])) free := by
  generalize he : w.hctl.freeBucketIndex = e at h
  generalize hbucket : callHash w.hctl (hash key) = b at hmiss
  have hb : b ≤ w.hctl.maxBucket := hbucket ▸ h.hash_le _
  have hnd := h.cells_nodup hb
  have hlast : lastCell Cell.next (bucketCell hashp w b) (chains b) ∈ cellsOf hashp w b (chains b) :=
    lastCell_mem _ _
  have hfree : ∀ b' ≤ w.hctl.maxBucket, e ∉ chains b' := h.apart e List.mem_cons_self
  generalize hprev : lastCell Cell.next (bucketCell hashp w b) (chains b) = prev at hlast
  have hprev_ne : prev ≠ .next e := by
    rintro rfl
    exact h.free_disjoint hb List.mem_cons_self hlast
  have hframe : ∀ d, d ≠ prev → d ≠ .next e → (insertElement w prev key).cells d = w.cells d := by
    intro d h1 h2
    rw [insertElement_cells, he, Function.update_of_ne h2, Function.update_of_ne h1]
  have hother : ∀ b' ≤ w.hctl.maxBucket, b' ≠ b → ∀ d ∈ cellsOf hashp w b' (chains b'),
      (insertElement w prev key).cells d = w.cells d := by
    intro b' hb' hne d hd
    refine hframe d ?_ ?_
    · rintro rfl
      exact h.cells_disjoint hb' hb hne.symm hd hlast
    · rintro rfl
      exact hfree b' hb' (next_mem_cellsOf.mp hd)
  have hkeys : ∀ e', e' ≠ e → (insertElement w prev key).keys e' = w.keys e' := by
    intro e' hne
    show Function.update w.keys w.hctl.freeBucketIndex key e' = w.keys e'
    rw [he, Function.update_of_ne hne]
  have hkey : (insertElement w prev key).keys e = key := by
    show Function.update w.keys w.hctl.freeBucketIndex key e = key
    rw [he, Function.update_self]
  have hcases : ∀ b' e', e' ∈ Function.update chains b (chains b ++ [e]) b' →
      e' ∈ chains b' ∨ (b' = b ∧ e' = e) := by
    intro b' e' he'
    by_cases hbb : b' = b
    · subst hbb
      rw [Function.update_self] at he'
      rcases List.mem_append.mp he' with hm | hm
      · exact Or.inl hm
      · exact Or.inr ⟨rfl, List.mem_singleton.mp hm⟩
    · rw [Function.update_of_ne hbb] at he'
      exact Or.inl he'
  have hold : ∀ b' ≤ w.hctl.maxBucket, ∀ e' ∈ chains b', e' ≠ e := by
    rintro b' hb' e' hm rfl
    exact hfree b' hb' hm
  refine ⟨h.segments.move ⟨rfl, rfl, rfl, rfl⟩ (fun _ _ => rfl) (fun _ hr => hr), h.fits, h.masked,
    h.covered, ?_, ?_, ?_, ?_, ?_, ?_⟩
  · intro b' hb'
    by_cases hbb : b' = b
    · subst hbb
      rw [Function.update_self]
      refine (h.chain b' hb).snoc hnd (h.linked.ne_nil List.mem_cons_self) ?_ ?_ ?_
      · show (insertElement w prev key).cells (lastCell Cell.next (bucketCell hashp w b') (chains b')) = e
        rw [hprev]
        rw [insertElement_cells, he, Function.update_of_ne hprev_ne, Function.update_self]
      · rw [insertElement_cells, he, Function.update_self]
        rfl
      · intro d hd hdlast
        refine hframe d (fun hdp => hdlast (hdp.trans hprev.symm)) ?_
        rintro rfl
        exact h.free_disjoint hb List.mem_cons_self hd
    · rw [Function.update_of_ne hbb]
      exact (h.chain b' hb').move (hother b' hb' hbb _ bucket_mem_cellsOf)
        fun e' he' => hother b' hb' hbb _ (next_mem_cellsOf.mpr he')
  · have htail := h.linked.tail
    have hfbi : (insertElement w prev key).hctl.freeBucketIndex = w.cells (.next e) := he ▸ rfl
    rw [hfbi]
    refine htail.move fun e' he' => hframe _ ?_ fun heq => ?_
    · rintro rfl
      exact h.free_disjoint hb (List.mem_cons_of_mem e he') hlast
    · rw [Cell.next.inj heq] at he'
      exact (List.nodup_cons.mp h.linked.nodup).1 he'
  · intro b' hb' e' he'
    rcases hcases b' e' he' with hm | ⟨rfl, rfl⟩
    · rw [hkeys e' (hold b' hb' e' hm)]
      exact h.home b' hb' e' hm
    · rw [hkey]
      exact hbucket
  · intro b' hb' e₁ h₁ e₂ h₂ heq
    rcases hcases b' e₁ h₁ with hm₁ | ⟨rfl, rfl⟩ <;> rcases hcases _ e₂ h₂ with hm₂ | ⟨hbb, rfl⟩
    · rw [hkeys e₁ (hold b' hb' e₁ hm₁), hkeys e₂ (hold b' hb' e₂ hm₂)] at heq
      exact h.keys_inj b' hb' e₁ hm₁ e₂ hm₂ heq
    · subst hbb
      rw [hkeys e₁ (hold _ hb' e₁ hm₁), hkey] at heq
      exact absurd heq (hmiss e₁ hm₁)
    · rw [hkey, hkeys e₂ (hold _ hb' e₂ hm₂)] at heq
      exact absurd heq.symm (hmiss e₂ hm₂)
    · rfl
  · intro e' he' b' hb' hm
    rcases hcases b' e' hm with hm | ⟨-, rfl⟩
    · exact h.apart e' (List.mem_cons_of_mem e he') b' hb' hm
    · exact (List.nodup_cons.mp h.linked.nodup).1 he'
  · rintro e' (he' | ⟨b', hb', he'⟩)
    · exact h.held e' (Or.inl (List.mem_cons_of_mem e he'))
    · rcases hcases b' e' he' with hm | ⟨-, rfl⟩
      · exact h.held e' (Or.inr ⟨b', hb', hm⟩)
      · exact h.held e' (Or.inl List.mem_cons_self)

/-! ## `bucketAlloc` -/

/-- The first `k` pieces of `size` bytes from `p` on. -/
def carve (size : Nat) : Nat → Nat → List Nat
  | 0, _ => []
  | k + 1, p => p :: carve size k (p + size)

theorem length_carve (size k p : Nat) : (carve size k p).length = k := by
  induction k generalizing p with
  | zero => rfl
  | succ k ih => exact congrArg Nat.succ (ih (p + size))

theorem mem_carve {size k p e : Nat} : e ∈ carve size k p ↔ ∃ i < k, e = p + i * size := by
  induction k generalizing p with
  | zero => exact iff_of_false List.not_mem_nil fun ⟨i, hi, _⟩ => Nat.not_lt_zero i hi
  | succ k ih =>
    have hshift : ∀ i, p + size + i * size = p + (i + 1) * size := by
      intro i
      rw [Nat.add_one_mul]
      omega
    rw [carve, List.mem_cons, ih]
    constructor
    · rintro (rfl | ⟨i, hi, rfl⟩)
      · exact ⟨0, Nat.succ_pos k, by omega⟩
      · exact ⟨i + 1, Nat.succ_lt_succ hi, hshift i⟩
    · rintro ⟨i, hi, rfl⟩
      cases i with
      | zero => exact Or.inl (by omega)
      | succ i => exact Or.inr ⟨i, Nat.lt_of_succ_lt_succ hi, (hshift i).symm⟩

/-- Only next pointers of the pieces are written. -/
theorem linkBuckets_frame {size k p : Nat} {cells : Cell → Nat} {c : Cell}
    (hc : ∀ i < k, c ≠ .next (p + i * size)) : linkBuckets size k p cells c = cells c := by
  induction k generalizing p cells with
  | zero => rfl
  | succ k ih =>
    unfold linkBuckets
    rw [ih, Function.update_of_ne]
    · have h0 := hc 0 (Nat.succ_pos k)
      rwa [Nat.zero_mul, Nat.add_zero] at h0
    · intro i hi
      have hi' := hc (i + 1) (Nat.succ_lt_succ hi)
      rwa [Nat.add_one_mul, Nat.add_comm (i * size), ← Nat.add_assoc] at hi'

/-- The pieces become a list once the last one is made to end it. -/
theorem linkBuckets_linked {size k p : Nat} (cells : Cell → Nat) (hsize : 0 < size) (hp : 0 < p) :
    Linked Cell.next 0
      (Function.update (linkBuckets size (k + 1) p cells) (.next (p + k * size)) INVALID_INDEX) p
      (carve size (k + 1) p) := by
  induction k generalizing p cells with
  | zero =>
    refine ⟨rfl, Nat.ne_of_gt hp, ?_⟩
    rw [Nat.zero_mul]
    exact Function.update_self _ _ _
  | succ k ih =>
    have hrest := ih (Function.update cells (.next p) (p + size)) (Nat.add_pos_left hp size)
    have hlast : p + size + k * size = p + (k + 1) * size := by
      rw [Nat.add_one_mul]
      omega
    rw [hlast] at hrest
    refine Linked.cons ?_ (Nat.ne_of_gt hp)
    have hnext : Function.update (linkBuckets size (k + 1 + 1) p cells) (.next (p + (k + 1) * size))
        INVALID_INDEX (.next p) = p + size := by
      have hpos : 0 < (k + 1) * size := Nat.mul_pos (Nat.succ_pos k) hsize
      rw [Function.update_of_ne (fun heq => absurd (Cell.next.inj heq) (by omega)), linkBuckets,
        linkBuckets_frame, Function.update_self]
      intro i _ heq
      exact absurd (Cell.next.inj heq) (by omega)
    rw [hnext]
    exact hrest

/-- The allocator refuses the elements a call asks for. -/
def Refuses (A : Allocator) (hashp : HashTable) (w : World Key) : Prop :=
  w.hctl.freeBucketIndex = INVALID_INDEX ∧ hashp.memAlloc = false ∧
    A.answer w.heap.calls w.heap.regions (BUCKET_ALLOC_INCR * w.hctl.bucketSize % 2 ^ 64) = none

instance (A : Allocator) (hashp : HashTable) (w : World Key) : Decidable (Refuses A hashp w) :=
  inferInstanceAs (Decidable (_ ∧ _ ∧ _))

/-- The new elements of the table fit into one request. -/
def ElementsFit (hashp : HashTable) (hctl : HashHeader) : Prop :=
  SIZEOF_BUCKET_INDEX + hctl.keysize + hctl.datasize < 2 ^ 63 ∧
    Fits hashp (BUCKET_ALLOC_INCR * hctl.bucketSize)

instance (hashp : HashTable) (hctl : HashHeader) : Decidable (ElementsFit hashp hctl) :=
  inferInstanceAs (Decidable (_ ∧ _))

/-- The chunk holds the header of each of its elements. -/
theorem Granted.carved {heap heap' : Heap} {p room size : Nat} (h : Granted heap heap' p room)
    (hroom : p + (BUCKET_ALLOC_INCR - 1) * size + SIZEOF_BUCKET_INDEX ≤ p + room) {e : Nat}
    (he : e ∈ carve size BUCKET_ALLOC_INCR p) :
    Region.Holds ⟨p, room⟩ e ∧ ∀ r ∈ heap.regions, ¬ r.Holds e := by
  obtain ⟨i, hi, rfl⟩ := mem_carve.mp he
  have hle : i * size ≤ (BUCKET_ALLOC_INCR - 1) * size :=
    Nat.mul_le_mul_right size (Nat.le_sub_one_of_lt hi)
  have hin : Region.Holds ⟨p, room⟩ (p + i * size) := by
    unfold SIZEOF_BUCKET_INDEX at hroom
    constructor <;> dsimp only <;> omega
  exact ⟨hin, fun r hr hold => (h.fresh r hr).ne hin hold rfl⟩

/-- New elements on an empty free list. -/
theorem Table.grow (h : Table hash hashp w chains []) {heap : Heap} {p room size : Nat}
    (hg : Granted w.heap heap p room) (hsize : 0 < size)
    (hroom : p + (BUCKET_ALLOC_INCR - 1) * size + SIZEOF_BUCKET_INDEX ≤ p + room)
    (hhctl : w'.hctl = { w.hctl with freeBucketIndex := p })
    (hcells : w'.cells = Function.update (linkBuckets size BUCKET_ALLOC_INCR p w.cells)
      (.next (p + (BUCKET_ALLOC_INCR - 1) * size)) INVALID_INDEX)
    (hkeys : w'.keys = w.keys) (hdirs : w'.dirs = w.dirs) (hheap : w'.heap = heap) :
    Table hash hashp w' chains (carve size BUCKET_ALLOC_INCR p) := by
  have hnotin : ∀ e, Element w chains [] e → e ∉ carve size BUCKET_ALLOC_INCR p := by
    intro e he hm
    obtain ⟨r, hr, hold⟩ := h.held e he
    exact (hg.carved hroom hm).2 r hr.1 hold
  have hframe : ∀ c, (∀ e ∈ carve size BUCKET_ALLOC_INCR p, c ≠ .next e) → w'.cells c = w.cells c := by
    intro c hc
    have hpiece : ∀ i < BUCKET_ALLOC_INCR, c ≠ .next (p + i * size) :=
      fun i hi => hc _ (mem_carve.mpr ⟨i, hi, rfl⟩)
    rw [hcells, Function.update_of_ne (hpiece _ (by decide)), linkBuckets_frame hpiece]
  have hmem' : ∀ r ∈ w.heap.regions, r ∈ w'.heap.regions := by
    intro r hr
    rw [hheap, hg.regions]
    exact List.mem_cons_of_mem _ hr
  have huse : ∀ r, InUse hashp w r → InUse hashp w' r := by
    intro r hr
    have hdir : dirRegion hashp w' = dirRegion hashp w := by
      unfold dirRegion
      rw [hhctl]
    unfold InUse
    rw [hdir]
    exact ⟨hmem' r hr.1, hr.2⟩
  have hbucket : ∀ b, bucketCell hashp w' b = bucketCell hashp w b := by
    intro b
    unfold bucketCell
    rw [hdirs, hhctl]
  have hcall : ∀ v, callHash w'.hctl v = callHash w.hctl v := fun v => by rw [hhctl]; rfl
  have hmax : w'.hctl.maxBucket = w.hctl.maxBucket := by rw [hhctl]
  refine ⟨?_, ?_, ?_, ?_, ?_, ?_, ?_, ?_, ?_, ?_⟩
  · exact h.segments.move (by rw [hhctl]; exact ⟨rfl, rfl, rfl, rfl⟩) (fun i _ => by rw [hdirs]) hmem'
  · rw [hhctl]
    exact h.fits
  · rw [hhctl]
    exact h.masked
  · rw [hhctl]
    exact h.covered
  · intro b hb
    rw [hmax] at hb
    rw [hbucket]
    refine (h.chain b hb).move (hframe _ fun e _ => Cell.noConfusion) fun e he => hframe _ ?_
    intro e' he' heq
    rw [← Cell.next.inj heq] at he'
    exact hnotin e (Or.inr ⟨b, hb, he⟩) he'
  · rw [hhctl, hcells]
    exact linkBuckets_linked _ hsize hg.pos
  · rw [hmax, hkeys]
    intro b hb e he
    rw [hcall]
    exact h.home b hb e he
  · rw [hmax, hkeys]
    exact h.keys_inj
  · rw [hmax]
    exact fun e he b hb hm => hnotin e (Or.inr ⟨b, hb, hm⟩) he
  · rintro e (he | ⟨b, hb, he⟩)
    · refine ⟨⟨p, room⟩, ⟨?_, ?_⟩, (hg.carved hroom he).1⟩
      · rw [hheap, hg.regions]
        exact List.mem_cons_self
      · have hdir : dirRegion hashp w' = dirRegion hashp w := by
          unfold dirRegion
          rw [hhctl]
        rw [hdir]
        unfold SIZEOF_BUCKET_INDEX at hroom
        exact (hg.ne (by omega) h.segments.dir_mem).symm
    · rw [hmax] at hb
      obtain ⟨r, hr, hold⟩ := h.held e (Or.inr ⟨b, hb, he⟩)
      exact ⟨r, huse r hr, hold⟩

/-- `bucketAlloc` leaves the table as it was, or with new elements on the free
list. -/
theorem bucketAlloc_spec (h : Table hash hashp w chains []) :
    Ends (Allowed hashp (ElementsFit hashp w.hctl)) (bucketAlloc A hashp w) fun r =>
      (r.1 = false ∧ Refuses A hashp w ∧
        ∃ heap, heap.regions = w.heap.regions ∧ r.2 = { w with heap := heap }) ∨
      (r.1 = true ∧ ¬ Refuses A hashp w ∧ ∃ e fr heap cells,
        r.2 = { w with hctl := { w.hctl with freeBucketIndex := e }, cells := cells, heap := heap } ∧
        fr.length + 1 = BUCKET_ALLOC_INCR ∧ Table hash hashp r.2 chains (e :: fr)) := by
  have hnil : w.hctl.freeBucketIndex = INVALID_INDEX := h.linked
  unfold bucketAlloc
  split
  · rename_i hge
    exact Or.inr fun hf => absurd hf.1 (Nat.not_lt.mpr hge)
  · rename_i hlt
    have hsize : 0 < w.hctl.bucketSize := by
      have hle := le_maxAlign (n := SIZEOF_BUCKET_INDEX + w.hctl.keysize + w.hctl.datasize) (by omega)
      unfold SIZEOF_BUCKET_INDEX at hle
      exact Nat.lt_of_lt_of_le (by omega) hle
    dsimp only
    refine ((hashAlloc_spec A hashp w.heap (BUCKET_ALLOC_INCR * w.hctl.bucketSize % 2 ^ 64)).mono
      (fun e he => Or.inl (he.resolve_right fun h => h trivial)) (fun a ha => ha)).bind ?_
    rintro ⟨_ | ⟨p, room⟩, heap⟩ ha
    · exact Or.inl ⟨rfl, ⟨hnil, ha.1, ha.2.1⟩, heap, ha.2.2, rfl⟩
    · obtain ⟨hg, -, hfull, hans, -⟩ := ha
      dsimp only
      split
      · rename_i hshort
        refine Or.inr fun hf => ?_
        have hmod : BUCKET_ALLOC_INCR * w.hctl.bucketSize % 2 ^ 64 =
            BUCKET_ALLOC_INCR * w.hctl.bucketSize := by
          have hfit := hf.2
          unfold Fits at hfit
          split at hfit <;> exact Nat.mod_eq_of_lt (by omega)
        rw [hmod] at hfull
        have hroom := hfull hf.2
        have hle := dvd_maxAlign (SIZEOF_BUCKET_INDEX + w.hctl.keysize + w.hctl.datasize)
        have hge := Nat.le_of_dvd hsize hle
        unfold BUCKET_ALLOC_INCR SIZEOF_BUCKET_INDEX at *
        omega
      · rename_i hge
        refine Or.inr ⟨rfl, ?_, p, carve w.hctl.bucketSize (BUCKET_ALLOC_INCR - 1) (p + w.hctl.bucketSize),
          heap, _, rfl, ?_, ?_⟩
        · rintro ⟨-, hm, hnone⟩
          rcases hans with htrue | hsome
          · rw [hm] at htrue
            cases htrue
          · exact hsome hnone
        · rw [length_carve]
          rfl
        · rw [hnil]
          exact h.grow hg hsize (Nat.not_lt.mp hge) rfl rfl rfl rfl rfl

end PostgresV7.Dynahash
