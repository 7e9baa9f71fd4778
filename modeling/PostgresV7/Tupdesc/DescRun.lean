import PostgresV7.Tupdesc.Free

/-!
# Runs of copying and freeing (`tupdesc.c`)

Any number of descriptor variables. Descriptors are copied with or without their constraints and
freed in any order; what else is allocated belongs to somebody else.
-/

namespace PostgresV7.Tupdesc

open BlockHeap

/-! ## `create_tuple_desc_copy` -/

/-- What is not copied of an attribute. -/
def FormDataPgAttribute.plain (attr : FormDataPgAttribute) : FormDataPgAttribute :=
  { attr with attnotnull := false, atthasdef := false }

def TupleDescData.plain {σ : Type} (desc : TupleDescData σ) : TupleDescData σ where
  natts := desc.natts
  attrs := desc.attrs.map FormDataPgAttribute.plain
  constr := none
  attrs_length := by rw [List.length_map, desc.attrs_length]

section

variable (A : Allocator Block)

/-- The two assignments to the fields of a new attribute. -/
def clearAttr (dst : Ptr) (i : Nat) (h : DescHeap) : Option DescHeap := do
  let p ← (← deref Block.attrArray? h dst)[i]?
  let attr ← deref Block.attr? h p
  h.store p (.attr attr.plain)

def copyPlainAttr (src dst : Ptr) (i : Nat) (h : DescHeap) : Option DescHeap := do
  let h ← copyAttr A src dst i h
  clearAttr dst i h

def createTupleDescCopy (junk tupdesc : Ptr) (h : DescHeap) : Option (Ptr × DescHeap) := do
  let src ← deref Block.desc? h tupdesc
  let (desc, h) := h.alloc A (.desc ⟨src.natts, junk, junk⟩)
  let (attrs, h) := h.alloc A (.attrArray (List.replicate src.natts.toNat junk))
  let h ← h.store desc (.desc ⟨src.natts, attrs, junk⟩)
  let h ← forUp (copyPlainAttr A src.attrs attrs) src.natts.toNat h
  let h ← h.store desc (.desc ⟨src.natts, attrs, NULL⟩)
  return (desc, h)

end

variable {h h' : DescHeap} {A : Allocator Block} {src dst junk : Ptr}

/-- One more attribute is copied. -/
theorem copyAttr_spec {srcPtrs pre rest : List Ptr} {q p : Ptr} {attr : FormDataPgAttribute}
    (hsrc : h.get src = some (.attrArray srcPtrs)) (hdst : h.get dst = some (.attrArray (pre ++ q :: rest)))
    (hp : srcPtrs[pre.length]? = some p) (hattr : h.get p = some (.attr attr)) :
    ∃ h' r, copyAttr A src dst pre.length h = some h' ∧ h'.get dst = some (.attrArray (pre ++ r :: rest)) ∧
      h'.get r = some (.attr attr) ∧ Changes [dst] h h' [r] := by
  obtain ⟨r, h₁, halloc, hnew, hc₁⟩ := alloc_spec A h (.attr attr)
  have hdst₁ := hc₁.keeps dst _ List.not_mem_nil hdst
  obtain ⟨h₂, hset, hget, hc₂⟩ := setEntry_spec Block.attrArray? (fun _ => rfl) hdst₁ fun _ => r
  have hwritten : ∀ q ∈ [dst], h₁.get q ≠ some (.attr attr) := Heap.get_singleton_ne hdst₁ Block.noConfusion
  refine ⟨h₂, r, ?_, hget, hc₂.keep hnew hwritten, ?_⟩
  · rw [copyAttr, bind_eq (deref_eq Block.attrArray? hsrc rfl), bind_eq hp, bind_eq (deref_eq Block.attr? hattr rfl),
      halloc]
    exact hset
  · exact (hc₁.mono (List.nil_subset [dst])).trans hc₂ fun q hq => .inl hq

/-- And its two flags are cleared. -/
theorem copyPlainAttr_spec {srcPtrs pre rest : List Ptr} {q p : Ptr} {attr : FormDataPgAttribute}
    (hsrc : h.get src = some (.attrArray srcPtrs)) (hdst : h.get dst = some (.attrArray (pre ++ q :: rest)))
    (hp : srcPtrs[pre.length]? = some p) (hattr : h.get p = some (.attr attr)) :
    ∃ h' r, copyPlainAttr A src dst pre.length h = some h' ∧ h'.get dst = some (.attrArray (pre ++ r :: rest)) ∧
      h'.get r = some (.attr attr.plain) ∧ Changes [dst] h h' [r] := by
  obtain ⟨h₁, r, hrun, hdst₁, hr, hc₁⟩ := copyAttr_spec (A := A) hsrc hdst hp hattr
  obtain ⟨h₂, hstore, hr₂, hc₂⟩ := store_spec hr (.attr attr.plain)
  have hentry : (pre ++ r :: rest)[pre.length]? = some r := by
    rw [List.getElem?_append_right (Nat.le_refl _), Nat.sub_self]
    rfl
  refine ⟨h₂, r, ?_, ?_, hr₂, ?_⟩
  · rw [copyPlainAttr, bind_eq hrun, clearAttr, bind_eq (deref_eq Block.attrArray? hdst₁ rfl), bind_eq hentry,
      bind_eq (deref_eq Block.attr? hr rfl)]
    exact hstore
  · exact hc₂.keep hdst₁ (Heap.get_singleton_ne hr Block.noConfusion)
  · have htotal := hc₁.trans hc₂ fun q hq => .inr hq
    rwa [List.append_nil] at htotal

theorem copyPlainAttrs_spec {srcPtrs : List Ptr} {attrs : List FormDataPgAttribute}
    (hsrc : h.get src = some (.attrArray srcPtrs))
    (hdst : h.get dst = some (.attrArray (List.replicate srcPtrs.length junk))) (hne : src ≠ dst)
    (hr : List.Forall₂ (fun p attr => h.get p = some (.attr attr)) srcPtrs attrs) :
    ∃ h' ptrs, forUp (copyPlainAttr A src dst) srcPtrs.length h = some h' ∧ h'.get dst = some (.attrArray ptrs) ∧
      List.Forall₂ (fun p attr => h'.get p = some (.attr attr)) ptrs (attrs.map FormDataPgAttribute.plain) ∧
      Changes [dst] h h' ptrs := by
  have hlen := hr.length_eq
  let inv : Nat → DescHeap → Prop := fun i h' =>
    ∃ ptrs, h'.get dst = some (.attrArray (ptrs ++ List.replicate (srcPtrs.length - i) junk)) ∧
      List.Forall₂ (fun p attr => h'.get p = some (.attr attr)) ptrs
        ((attrs.take i).map FormDataPgAttribute.plain) ∧ Changes [dst] h h' ptrs
  have hstart : inv 0 h := ⟨[], hdst, .nil, Changes.refl _ h⟩
  have hwritten : ∀ {h : DescHeap} {l attr}, h.get dst = some (.attrArray l) → ∀ q ∈ [dst], h.get q ≠ some (.attr attr) :=
    fun hget => Heap.get_singleton_ne hget Block.noConfusion
  have hstep : ∀ i < srcPtrs.length, ∀ mid, inv i mid →
      ∃ h', copyPlainAttr A src dst i mid = some h' ∧ inv (i + 1) h' := by
    rintro i hi mid ⟨ptrs, hget, hrep, hc⟩
    have hi' : i < attrs.length := hlen ▸ hi
    have hptrs : ptrs.length = i := by
      rw [hrep.length_eq, List.length_map, List.length_take, Nat.min_eq_left (Nat.le_of_lt hi')]
    have hattr : mid.get srcPtrs[i] = some (.attr attrs[i]) := hc.keep (hr.get hi hi') (hwritten hdst)
    rw [show srcPtrs.length - i = srcPtrs.length - (i + 1) + 1 by omega, List.replicate_succ] at hget
    have hentry : srcPtrs[ptrs.length]? = some srcPtrs[i] := by
      rw [hptrs]
      exact List.getElem?_eq_getElem hi
    obtain ⟨h', r, hrun, hget', hr', hc'⟩ := copyPlainAttr_spec (A := A)
      (hc.keeps src _ (mt List.mem_singleton.mp hne) hsrc) hget hentry hattr
    rw [hptrs] at hrun
    refine ⟨h', hrun, ptrs ++ [r], ?_, ?_, hc.trans hc' fun q hq => .inl hq⟩
    · rw [List.append_assoc]
      exact hget'
    · rw [List.take_succ_eq_append_getElem hi', List.map_append]
      refine List.rel_append (forall₂_keep hrep fun q _ attr hq => ?_) (.cons hr' .nil)
      exact hc'.keep hq (hwritten hget)
  obtain ⟨h', hrun, ptrs, hget, hrep, hc⟩ := forUp_rule hstep hstart
  rw [Nat.sub_self, List.replicate_zero, List.append_nil] at hget
  rw [hlen, List.take_length] at hrep
  exact ⟨h', ptrs, hrun, hget, hrep, hc⟩

/-- The copy holds the attributes in blocks of its own, and no constraints. -/
theorem createTupleDescCopy_spec (A : Allocator Block) (junk : Ptr) {L : Layout}
    {value : TupleDescData (Option CString)} (hr : Represents h L value) :
    ∃ p h' L', createTupleDescCopy A junk L.desc h = some (p, h') ∧ L'.desc = p ∧ Represents h' L' value.plain ∧
      Changes [] h h' L'.blocks := by
  have hnatts : value.natts.toNat = L.attrPtrs.length := by
    rw [← value.attrs_length, Int.toNat_natCast, hr.attrs.length_eq]
  have hwritten : ∀ {h : DescHeap} {desc d b}, h.get desc = some (.desc d) → (∀ d, b ≠ .desc d) →
      ∀ q ∈ [desc], h.get q ≠ some b := fun hget hb => Heap.get_singleton_ne hget (hb _).symm
  obtain ⟨desc, h₁, halloc₁, hdesc₁, hc₁⟩ := alloc_spec A h (.desc ⟨value.natts, junk, junk⟩)
  obtain ⟨attrs, h₂, halloc₂, hattrs₂, hc₂⟩ := alloc_spec A h₁ (.attrArray (List.replicate value.natts.toNat junk))
  have hdesc₂ := hc₂.keeps desc _ List.not_mem_nil hdesc₁
  obtain ⟨h₃, hstore₃, hdesc₃, hc₃⟩ := store_spec hdesc₂ (.desc ⟨value.natts, attrs, junk⟩)
  have hattrs₃ := hc₃.keep hattrs₂ (hwritten hdesc₂ fun _ => Block.noConfusion)
  rw [hnatts] at hattrs₃
  have hc₀₃ := (hc₁.trans hc₂ fun q hq => .inl hq).trans hc₃ fun q hq => .inr (List.mem_append_left _ hq)
  -- what was there before is still there when the attributes are copied
  have hkeeps₃ : ∀ q b, h.get q = some b → h₃.get q = some b := fun q b => hc₀₃.keeps q b List.not_mem_nil
  have hne : L.attrs ≠ attrs :=
    hc₂.ne_of_mem (List.mem_singleton.mpr rfl) (hc₁.keeps L.attrs _ List.not_mem_nil hr.attrArray)
  obtain ⟨h₄, ptrs, hrun₄, hattrs₄, hr₄, hc₄⟩ := copyPlainAttrs_spec (A := A) (hkeeps₃ _ _ hr.attrArray) hattrs₃ hne
    (forall₂_keep hr.attrs fun q _ attr hq => hkeeps₃ q _ hq)
  have hc₀₄ := hc₀₃.trans hc₄ fun q hq => .inr (List.mem_append_left _ (List.mem_append_right _ hq))
  have hdesc₄ : h₄.get desc = some (.desc ⟨value.natts, attrs, junk⟩) :=
    hc₄.keeps desc _ (mt List.mem_singleton.mp (hc₂.ne_of_mem (List.mem_singleton.mpr rfl) hdesc₁)) hdesc₃
  obtain ⟨h₅, hstore₅, hdesc₅, hc₅⟩ := store_spec hdesc₄ (.desc ⟨value.natts, attrs, NULL⟩)
  have hkeeps₅ : ∀ {q b}, h₄.get q = some b → (∀ d, b ≠ .desc d) → h₅.get q = some b := fun hq hb =>
    hc₅.keep hq (hwritten hdesc₄ hb)
  refine ⟨desc, h₅, ⟨desc, attrs, ptrs, none⟩, ?_, rfl, ⟨hdesc₅, ?_, ?_, .none⟩, ?_⟩
  · rw [createTupleDescCopy, bind_eq (deref_eq Block.desc? hr.desc rfl)]
    dsimp only
    rw [halloc₁]
    dsimp only
    rw [halloc₂]
    dsimp only
    rw [bind_eq hstore₃, hnatts, bind_eq hrun₄]
    exact bind_eq hstore₅ _
  · exact hkeeps₅ hattrs₄ fun _ => Block.noConfusion
  · exact forall₂_keep hr₄ fun q _ attr hq => hkeeps₅ hq fun _ => Block.noConfusion
  · have htotal := hc₀₄.trans hc₅ fun q hq =>
      .inr (List.mem_append_left _ (List.mem_append_left _ (List.mem_append_left _ hq)))
    simpa [Layout.blocks] using htotal

/-- The copy counts as equal where there was nothing to leave out. -/
theorem equal_plain_iff (tupdesc : TupleDescData CString) : equalTupleDescs tupdesc tupdesc.plain = true ↔
    tupdesc.constr = none ∧ ∀ attr ∈ tupdesc.attrs, attr.attnotnull = false := by
  have hattrs : List.Forall₂ SameAttr tupdesc.attrs tupdesc.plain.attrs ↔
      ∀ attr ∈ tupdesc.attrs, attr.attnotnull = false := by
    show List.Forall₂ SameAttr tupdesc.attrs (tupdesc.attrs.map FormDataPgAttribute.plain) ↔ _
    rw [List.forall₂_map_right_iff, List.forall₂_same]
    refine forall₂_congr fun attr _ => ?_
    exact ⟨fun h => h.2.2.2.2, fun h => ⟨rfl, rfl, rfl, rfl, h⟩⟩
  have hplain : tupdesc.plain.constr = none := rfl
  rw [equal_iff_agreeExceptCcbin, AgreeExceptCcbin, AgreeOn, hattrs, hplain]
  cases tupdesc.constr with
  | none => simp [TupleDescData.plain]
  | some constr => simp

/-! ## Calls -/

section

variable {ι : Type} [DecidableEq ι]

/-- The heap and descriptor variables. -/
structure Descs (ι : Type) where
  heap : DescHeap
  var : ι → Ptr

inductive DescCall (ι : Type) where
  | copy (i j : ι)
  | copyConstr (i j : ι)
  | free (i : ι)

/-- The variable on the left gets the copy of the descriptor in the other one. -/
def DescCall.run (A : Allocator Block) (junk : Ptr) (pfre : Ptr → DescHeap → Option DescHeap) (s : Descs ι) :
    DescCall ι → Option (Descs ι)
  | .copy i j => do
    let (p, h) ← createTupleDescCopy A junk (s.var j) s.heap
    return ⟨h, Function.update s.var i p⟩
  | .copyConstr i j => do
    let (p, h) ← createTupleDescCopyConstr A junk (s.var j) s.heap
    return ⟨h, Function.update s.var i p⟩
  | .free i => do return ⟨← freeTupleDesc pfre (s.var i) s.heap, s.var⟩

/-- What the variables denote afterwards. -/
def DescCall.after (a : ι → Option (TupleDescData (Option CString))) :
    DescCall ι → ι → Option (TupleDescData (Option CString))
  | .copy i j => Function.update a i ((a j).map TupleDescData.plain)
  | .copyConstr i j => Function.update a i (a j)
  | .free i => Function.update a i none

/-- Only descriptors that have not been freed are used. -/
def DescCall.Allowed (a : ι → Option (TupleDescData (Option CString))) : DescCall ι → Prop
  | .copy _ j => a j ≠ none
  | .copyConstr _ j => a j ≠ none
  | .free i => a i ≠ none

def runDescs (A : Allocator Block) (junk : Ptr) (pfre : Ptr → DescHeap → Option DescHeap) (s : Descs ι) :
    List (DescCall ι) → Option (Descs ι)
  | [] => some s
  | c :: calls => (c.run A junk pfre s).bind fun s => runDescs A junk pfre s calls

def afterAll (a : ι → Option (TupleDescData (Option CString))) (calls : List (DescCall ι)) :
    ι → Option (TupleDescData (Option CString)) :=
  calls.foldl DescCall.after a

def AllowedAll (a : ι → Option (TupleDescData (Option CString))) : List (DescCall ι) → Prop
  | [] => True
  | c :: calls => c.Allowed a ∧ AllowedAll (c.after a) calls

/-- The descriptor of a variable, in the blocks of `L`. -/
def Stands (h : DescHeap) (p : Ptr) : Option Layout → Option (TupleDescData (Option CString)) → Prop
  | some L, some value => L.desc = p ∧ Represents h L value ∧ L.blocks.Nodup
  | none, none => True
  | _, _ => False

def blocksOf (L : Option Layout) : List Ptr := (L.map Layout.blocks).getD []

/-- Every variable has blocks of its own, and what others have allocated is as it was. -/
structure Owns (others : Ptr → Option Block) (s : Descs ι) (L : ι → Option Layout)
    (a : ι → Option (TupleDescData (Option CString))) : Prop where
  stands : ∀ i, Stands s.heap (s.var i) (L i) (a i)
  apart : ∀ i j, i ≠ j → List.Disjoint (blocksOf (L i)) (blocksOf (L j))
  outside : ∀ p b, others p = some b → s.heap.get p = some b
  not_block : ∀ p b, others p = some b → ∀ i, p ∉ blocksOf (L i)

/-- A block that is not of the descriptor in `i`. -/
def Foreign (others : Ptr → Option Block) (L : ι → Option Layout) (i : ι) (p : Ptr) : Prop :=
  (∃ j, j ≠ i ∧ p ∈ blocksOf (L j)) ∨ ∃ b, others p = some b

variable {others : Ptr → Option Block} {s : Descs ι} {L : ι → Option Layout} {pfre : Ptr → DescHeap → Option DescHeap}
  {a : ι → Option (TupleDescData (Option CString))} {i j : ι} {p : Ptr} {new : Option Layout}
  {value : Option (TupleDescData (Option CString))} {calls : List (DescCall ι)}

omit [DecidableEq ι] in
theorem Stands.live (h : Stands s.heap p new value) {q : Ptr} (hq : q ∈ blocksOf new) : s.heap.get q ≠ none := by
  match new, value, h with
  | some L, some value, ⟨_, hr, _⟩ => exact hr.live q hq
  | none, none, _ => exact absurd hq List.not_mem_nil

omit [DecidableEq ι] in
/-- A descriptor in use, with its blocks. -/
theorem Owns.of_ne_none (ho : Owns others s L a) (hi : a i ≠ none) :
    ∃ M v, L i = some M ∧ a i = some v ∧ M.desc = s.var i ∧ Represents s.heap M v ∧ M.blocks.Nodup := by
  obtain ⟨v, hv⟩ := Option.ne_none_iff_exists'.mp hi
  have hstands := ho.stands i
  rw [hv] at hstands ⊢
  match hM : L i, hstands with
  | some M, ⟨hdesc, hr, hnodup⟩ => exact ⟨M, v, rfl, rfl, hdesc, hr, hnodup⟩

omit [DecidableEq ι] in
theorem Owns.foreign_live (ho : Owns others s L a) {q : Ptr} (hq : Foreign others L i q) : s.heap.get q ≠ none := by
  rcases hq with ⟨j, -, hq⟩ | ⟨b, hb⟩
  · exact (ho.stands j).live hq
  · rw [ho.outside q b hb]
    exact Option.some_ne_none b

omit [DecidableEq ι] in
theorem Owns.foreign_not_mem (ho : Owns others s L a) {q : Ptr} (hq : Foreign others L i q) : q ∉ blocksOf (L i) := by
  rcases hq with ⟨j, hj, hq⟩ | ⟨b, hb⟩
  · exact fun hin => ho.apart j i hj hq hin
  · exact ho.not_block q b hb i

/-- One variable gets a descriptor in new blocks or none at all; what is not its own stays as it was. -/
theorem Owns.set (ho : Owns others s L a) (hnew : Stands h' p new value)
    (hkeep : ∀ q, Foreign others L i q → ∀ b, s.heap.get q = some b → h'.get q = some b)
    (hapart : ∀ q ∈ blocksOf new, ¬ Foreign others L i q) :
    Owns others ⟨h', Function.update s.var i p⟩ (Function.update L i new) (Function.update a i value) where
  stands j := by
    by_cases hj : j = i
    · subst hj
      simpa using hnew
    · simp only [Function.update_of_ne hj]
      have hstands := ho.stands j
      have hkept : ∀ q ∈ blocksOf (L j), ∀ b, s.heap.get q = some b → h'.get q = some b :=
        fun q hq => hkeep q (.inl ⟨j, hj, hq⟩)
      match hL : L j, ha : a j, hstands with
      | some M, some v, ⟨hdesc, hr, hnodup⟩ =>
        rw [hL] at hkept
        exact ⟨hdesc, hr.keep hkept, hnodup⟩
      | none, none, _ => trivial
  apart j k hjk := by
    by_cases hj : j = i
    · subst hj
      rw [Function.update_self, Function.update_of_ne hjk.symm]
      exact fun q hq hq' => hapart q hq (.inl ⟨k, hjk.symm, hq'⟩)
    · rw [Function.update_of_ne hj]
      by_cases hk : k = i
      · subst hk
        rw [Function.update_self]
        exact fun q hq hq' => hapart q hq' (.inl ⟨j, hj, hq⟩)
      · rw [Function.update_of_ne hk]
        exact ho.apart j k hjk
  outside q b hb := hkeep q (.inr ⟨b, hb⟩) b (ho.outside q b hb)
  not_block q b hb j hq := by
    by_cases hj : j = i
    · subst hj
      rw [Function.update_self] at hq
      exact hapart q hq (.inr ⟨b, hb⟩)
    · rw [Function.update_of_ne hj] at hq
      exact ho.not_block q b hb j hq

/-- A copy is in new blocks. -/
theorem Owns.copied (ho : Owns others s L a) {M : Layout} {v : TupleDescData (Option CString)}
    (hr : Represents h' M v) (hc : Changes [] s.heap h' M.blocks) :
    Owns others ⟨h', Function.update s.var i M.desc⟩ (Function.update L i (some M)) (Function.update a i (some v)) := by
  refine ho.set ⟨rfl, hr, hc.nodup⟩ (fun q _ b hq => hc.keeps q b List.not_mem_nil hq) fun q hq hforeign => ?_
  exact ho.foreign_live hforeign (hc.fresh q hq)

/-- No call goes wrong. -/
theorem Owns.call (A : Allocator Block) (junk : Ptr)
    (hpfre : ∀ {h : DescHeap} {p b}, h.get p = some b → pfre p h = h.free p) (ho : Owns others s L a) {c : DescCall ι} (hc : c.Allowed a) :
    ∃ s' L', c.run A junk pfre s = some s' ∧ Owns others s' L' (c.after a) := by
  cases c with
  | copy i j =>
    obtain ⟨M, v, -, hv, hdesc, hr, -⟩ := ho.of_ne_none hc
    obtain ⟨p, h', M', hrun, rfl, hr', hchanges⟩ := createTupleDescCopy_spec A junk hr
    have hafter : DescCall.after a (.copy i j) = Function.update a i (some v.plain) := by
      rw [DescCall.after, hv]
      rfl
    refine ⟨_, _, ?_, hafter ▸ ho.copied hr' hchanges⟩
    rw [DescCall.run, ← hdesc, bind_eq hrun]
    rfl
  | copyConstr i j =>
    obtain ⟨M, v, -, hv, hdesc, hr, -⟩ := ho.of_ne_none hc
    obtain ⟨p, h', M', hrun, rfl, hr', hchanges⟩ := createTupleDescCopyConstr_spec A junk hr
    have hafter : DescCall.after a (.copyConstr i j) = Function.update a i (some v) := by
      rw [DescCall.after, hv]
    refine ⟨_, _, ?_, hafter ▸ ho.copied hr' hchanges⟩
    rw [DescCall.run, ← hdesc, bind_eq hrun]
    rfl
  | free i =>
    obtain ⟨M, v, hM, -, hdesc, hr, hnodup⟩ := ho.of_ne_none hc
    obtain ⟨h', gone, hrun, hperm, hfrees⟩ := freeTupleDesc_spec hpfre hr hnodup
    have hblocks : blocksOf (L i) = M.blocks := by rw [hM]; rfl
    have hnone : Stands h' (s.var i) none none := trivial
    have hkeep : ∀ q, Foreign others L i q → ∀ b, s.heap.get q = some b → h'.get q = some b := by
      intro q hq b hget
      have hout : q ∉ gone := fun hin => ho.foreign_not_mem hq (hblocks ▸ hperm.mem_iff.mp hin)
      rw [hfrees.keeps q hout]
      exact hget
    have hafter := ho.set hnone hkeep fun q hq => absurd hq List.not_mem_nil
    rw [Function.update_eq_self] at hafter
    refine ⟨_, _, ?_, hafter⟩
    rw [DescCall.run, ← hdesc, bind_eq hrun]
    rfl

/-- Copies and frees in any order go through: no descriptor is used that has been freed and no block is
freed twice. Every descriptor holds what it was copied from, and blocks of others stay as they were. -/
theorem desc_run (A : Allocator Block) (junk : Ptr) (pfre : Ptr → DescHeap → Option DescHeap)
    (hpfre : ∀ {h : DescHeap} {p b}, h.get p = some b → pfre p h = h.free p) (ho : Owns others s L a) (hcalls : AllowedAll a calls) :
    ∃ s' L', runDescs A junk pfre s calls = some s' ∧ Owns others s' L' (afterAll a calls) := by
  induction calls generalizing s L a with
  | nil => exact ⟨s, L, rfl, ho⟩
  | cons c calls ih =>
    obtain ⟨s₁, L₁, hrun₁, ho₁⟩ := ho.call A junk hpfre hcalls.1
    obtain ⟨s', L', hrun, ho'⟩ := ih ho₁ hcalls.2
    refine ⟨s', L', ?_, ho'⟩
    rw [runDescs, hrun₁]
    exact hrun

end

/-- One descriptor, and a variable without one. -/
def oneDesc : Descs Bool := ⟨aHeap, fun i => if i then 1 else NULL⟩

theorem oneDesc_owns : Owns (fun _ => none) oneDesc (fun i => if i then some aLayout else none)
    (fun i => if i then some aDesc else none) where
  stands i := by
    cases i with
    | false => trivial
    | true => exact ⟨rfl, represents_aDesc, by decide⟩
  apart i j hij := by
    cases i with
    | false => exact fun q hq => absurd hq List.not_mem_nil
    | true =>
      cases j with
      | false => exact fun q _ hq => absurd hq List.not_mem_nil
      | true => exact absurd rfl hij
  outside p b hb := absurd hb.symm (Option.some_ne_none b)
  not_block p b hb := absurd hb.symm (Option.some_ne_none b)

/-- The first copy outlives the descriptor and is copied without its constraints. -/
theorem desc_run_example : ∃ s' M, runDescs (Allocator.above Block) NULL (fun p h => h.free p) oneDesc
      [.copyConstr false true, .free true, .copy true false, .free false] = some s' ∧
    M.desc = s'.var true ∧ Represents s'.heap M aDesc.plain := by
  have hallowed : AllowedAll (fun i => if i then some aDesc else none)
      [.copyConstr false true, .free true, .copy true false, .free false] :=
    ⟨Option.some_ne_none _, Option.some_ne_none _, Option.some_ne_none _, Option.some_ne_none _, trivial⟩
  obtain ⟨s', L', hrun, ho⟩ := desc_run (Allocator.above Block) NULL (fun p h => h.free p) (fun _ => rfl)
    oneDesc_owns hallowed
  obtain ⟨M, v, -, hv, hdesc, hr, -⟩ := ho.of_ne_none (i := true) (Option.some_ne_none aDesc.plain)
  obtain rfl : aDesc.plain = v := Option.some.inj hv
  exact ⟨s', M, hrun, hdesc, hr⟩

end PostgresV7.Tupdesc
