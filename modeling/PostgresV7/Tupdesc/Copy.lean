import PostgresV7.Tupdesc.Blocks

/-!
# What `create_tuple_desc_copy_constr` does

An array is first a copy of the other one, pointers included. Every round of a loop replaces the pointers
of one more entry by pointers to new strings.
-/

namespace PostgresV7.Tupdesc

open BlockHeap

variable {h h' h'' : DescHeap} {A : Allocator Block} {p q src dst cpy junk : Ptr} {b : Block} {ws new : List Ptr}
  {α : Type} {s : Option CString}

theorem deref_eq (type : Block → Option α) {a : α} (hp : h.get p = some b) (hb : type b = some a) :
    deref type h p = some a := by
  rw [deref, hp]
  exact hb

theorem bind_eq {β : Type} {x : Option α} {a : α} (hx : x = some a) (f : α → Option β) : (x >>= f) = f a := by
  rw [hx]
  rfl

theorem modify_append_cons (pre : List α) (x : α) (t : List α) (f : α → α) :
    (pre ++ x :: t).modify pre.length f = pre ++ f x :: t := by
  induction pre with
  | nil => rfl
  | cons y pre ih => exact congrArg (y :: ·) ih

theorem setEntry_spec (type : Block → Option (List α)) {block : List α → Block} (htype : ∀ l, type (block l) = some l)
    {pre t : List α} {x : α} (hdst : h.get dst = some (block (pre ++ x :: t))) (f : α → α) :
    ∃ h', setEntry type block dst pre.length f h = some h' ∧ h'.get dst = some (block (pre ++ f x :: t)) ∧
      Changes [dst] h h' [] := by
  obtain ⟨h', hstore, hget, hc⟩ := store_spec hdst (block ((pre ++ x :: t).modify pre.length f))
  have hlt : pre.length < (pre ++ x :: t).length := by
    rw [List.length_append, List.length_cons]
    omega
  refine ⟨h', ?_, by rw [hget, modify_append_cons], hc⟩
  rw [setEntry, bind_eq (deref_eq type hdst (htype _)), if_pos hlt]
  exact hstore

/-! ## A string -/

theorem RepStr.after (hr : RepStr h p s) (hc : Changes ws h h' new) (hws : ∀ q ∈ ws, ∀ s, h.get q ≠ some (.str s)) :
    RepStr h' p s := by
  cases s with
  | none => exact hr
  | some s => exact hc.keep hr fun q hq => hws q hq s

/-- A string of an entry is duplicated, and the entry gets the new pointer. -/
theorem dupEntry_spec (type : Block → Option (List α)) (block : List α → Block) (htype : ∀ l, type (block l) = some l)
    (hblock : ∀ l s, block l ≠ .str s) {pre t : List α} {x : α} (hdst : h.get dst = some (block (pre ++ x :: t)))
    (hp : RepStr h p s) (f : Ptr → α → α) (hf : f p x = x) :
    ∃ h' q, dupString A p (fun q => setEntry type block dst pre.length (f q)) h = some h' ∧
      h'.get dst = some (block (pre ++ f q x :: t)) ∧ RepStr h' q s ∧ Changes [dst] h h' (strBlocks q) := by
  unfold dupString
  cases s with
  | none =>
    obtain rfl : p = NULL := hp
    refine ⟨h, NULL, if_pos rfl, by rw [hf]; exact hdst, rfl, ?_⟩
    rw [strBlocks, if_pos rfl]
    exact Changes.refl _ h
  | some s =>
    have hp : h.get p = some (.str s) := hp
    obtain ⟨q, h₁, halloc, hnew, hc⟩ := alloc_spec A h (.str s)
    have hdst₁ := hc.keeps dst _ List.not_mem_nil hdst
    obtain ⟨h₂, hset, hget, hc₂⟩ := setEntry_spec type htype hdst₁ (f q)
    have hstr := hc₂.keep hnew (Heap.get_singleton_ne hdst₁ (hblock _ s))
    refine ⟨h₂, q, ?_, hget, hstr, ?_⟩
    · rw [if_neg (Heap.ne_null_of_get hp), pstrdup, bind_eq (deref_eq Block.str? hp rfl), halloc]
      exact hset
    · rw [strBlocks, if_neg (Heap.ne_null_of_get hstr)]
      exact (hc.mono (List.nil_subset _)).trans hc₂ fun r hr => .inl hr

/-! ## An array -/

section

variable {γ : Type} {block : List α → Block} {blocks : α → List Ptr} {R : DescHeap → α → γ → Prop}
  {round : Nat → DescHeap → Option DescHeap} {d : List α} {v : List γ}

/-- If a round makes one more entry a copy with blocks of its own, the loop makes the whole array one. -/
theorem copyEntries_spec (hblock : ∀ l s, block l ≠ .str s)
    (hafter : ∀ {h h' : DescHeap} {ws new x value}, R h x value → Changes ws h h' new →
      (∀ q ∈ ws, ∀ s, h.get q ≠ some (.str s)) → R h' x value)
    (hround : ∀ {h : DescHeap} {pre x rest t value}, d = pre ++ x :: rest → h.get src = some (block d) →
      h.get dst = some (block (pre ++ x :: t)) → R h x value →
      ∃ h' y, round pre.length h = some h' ∧ h'.get dst = some (block (pre ++ y :: t)) ∧ R h' y value ∧
        Changes [dst] h h' (blocks y))
    (hsrc : h.get src = some (block d)) (hdst : h.get dst = some (block d)) (hne : src ≠ dst)
    (hr : List.Forall₂ (R h) d v) :
    ∃ h' t, forDown round d.length h = some h' ∧ h'.get dst = some (block t) ∧ List.Forall₂ (R h') t v ∧
      Changes [dst] h h' (t.flatMap blocks) := by
  have hlen := hr.length_eq
  have hnostr : ∀ {h : DescHeap} {l}, h.get dst = some (block l) → ∀ q ∈ [dst], ∀ s, h.get q ≠ some (.str s) :=
    fun hget q hq s => Heap.get_singleton_ne hget (hblock _ s) q hq
  let inv : Nat → DescHeap → Prop := fun i h' =>
    ∃ t, h'.get dst = some (block (d.take i ++ t)) ∧ List.Forall₂ (R h') t (v.drop i) ∧
      Changes [dst] h h' (t.flatMap blocks)
  have hstart : inv d.length h := by
    refine ⟨[], ?_, ?_, Changes.refl _ h⟩
    · rw [List.take_length, List.append_nil]
      exact hdst
    · rw [hlen, List.drop_length]
      exact .nil
  have hstep : ∀ i < d.length, ∀ mid, inv (i + 1) mid → ∃ h', round i mid = some h' ∧ inv i h' := by
    rintro i hi mid ⟨t, hget, hrep, hc⟩
    have hiv : i < v.length := hlen ▸ hi
    have hsplit : d = d.take i ++ d[i] :: d.drop (i + 1) := by
      rw [← List.drop_eq_getElem_cons hi, List.take_append_drop]
    have hvalue := hafter (hr.get hi hiv) hc (hnostr hdst)
    have hsrc' := hc.keeps src _ (mt List.mem_singleton.mp hne) hsrc
    rw [List.take_succ_eq_append_getElem hi, List.append_assoc, List.singleton_append] at hget
    obtain ⟨h', y, hrun, hget', hy, hc'⟩ := hround hsplit hsrc' hget hvalue
    rw [List.length_take, Nat.min_eq_left (Nat.le_of_lt hi)] at hrun
    refine ⟨h', hrun, y :: t, hget', ?_, ?_⟩
    · rw [List.drop_eq_getElem_cons hiv]
      exact .cons hy (forall₂_keep hrep fun x _ value hx => hafter hx hc' (hnostr hget))
    · rw [List.flatMap_cons]
      exact (hc.trans hc' fun q hq => .inl hq).perm List.perm_append_comm
  obtain ⟨h', hrun, t, hget, hrep, hc⟩ := forDown_rule hstep hstart
  exact ⟨h', t, hrun, hget, hrep, hc⟩

/-- A new array is put into the copy, if there is one to be copied. -/
theorem copyArray_spec (type : Block → Option (List α)) (block : List α → Block) (set : Ptr → ConstrBlock → ConstrBlock)
    (blocks : α → List Ptr) (round : Ptr → Nat → DescHeap → Option DescHeap) (num : UInt16) (none : Ptr) {c : ConstrBlock}
    (htype : ∀ l, type (block l) = some l) (hblock : ∀ l s, block l ≠ .str s) (hconstr : ∀ l c, block l ≠ .constr c)
    (hafter : ∀ {h h' : DescHeap} {ws new x value}, R h x value → Changes ws h h' new →
      (∀ q ∈ ws, ∀ s, h.get q ≠ some (.str s)) → R h' x value)
    (hround : ∀ {h : DescHeap} {dst pre x rest t value}, d = pre ++ x :: rest → h.get src = some (block d) →
      h.get dst = some (block (pre ++ x :: t)) → R h x value →
      ∃ h' y, round dst pre.length h = some h' ∧ h'.get dst = some (block (pre ++ y :: t)) ∧ R h' y value ∧
        Changes [dst] h h' (blocks y))
    (hnum : num.toNat = d.length) (hsrc : d ≠ [] → h.get src = some (block d)) (hcpy : h.get cpy = some (.constr c))
    (hnone : set none c = c) (hr : List.Forall₂ (R h) d v) :
    ∃ h' p t, copyArray A type block set round num src cpy h = some h' ∧ h'.get cpy = some (.constr (set p c)) ∧
      (t ≠ [] → h'.get p = some (block t)) ∧ List.Forall₂ (R h') t v ∧ Changes [cpy] h h' (arrayBlocks p t blocks) := by
  unfold copyArray
  by_cases hempty : d = []
  · subst hempty
    cases hr
    have hzero : ¬ 0 < num := by
      rw [UInt16.lt_iff_toNat_lt, hnum]
      exact Nat.lt_irrefl 0
    exact ⟨h, none, [], if_neg hzero, by rw [hnone]; exact hcpy, fun hne => absurd rfl hne, .nil, Changes.refl _ h⟩
  have hpos : 0 < num := by
    rw [UInt16.lt_iff_toNat_lt, hnum]
    exact List.length_pos_iff.mpr hempty
  have hsrc := hsrc hempty
  obtain ⟨p, h₁, halloc, hnew, hc⟩ := alloc_spec A h (block d)
  have hp : p ∈ [p] := List.mem_singleton.mpr rfl
  have hcpy₁ := hc.keeps cpy _ List.not_mem_nil hcpy
  have hwritten : ∀ {b}, (∀ c, b ≠ .constr c) → ∀ q ∈ [cpy], h₁.get q ≠ some b :=
    fun hb => Heap.get_singleton_ne hcpy₁ (hb c).symm
  obtain ⟨h₂, hstore, hget, hc₂⟩ := store_spec hcpy₁ (.constr (set p c))
  have hr₂ : List.Forall₂ (R h₂) d v :=
    forall₂_keep hr fun x _ value hx => hafter (hafter hx hc fun q hq => absurd hq List.not_mem_nil) hc₂
      fun q hq s => hwritten (fun _ => Block.noConfusion) q hq
  obtain ⟨h₃, t, hrun, hget₃, hr₃, hc₃⟩ := copyEntries_spec (R := R) hblock hafter hround
    (hc₂.keep (hc.keeps src _ List.not_mem_nil hsrc) (hwritten (hconstr d)))
    (hc₂.keep hnew (hwritten (hconstr d))) (hc.ne_of_mem hp hsrc) hr₂
  have hne : t ≠ [] := by
    rintro rfl
    have hlen := hr.length_eq.trans hr₃.length_eq.symm
    exact hempty (List.length_eq_zero_iff.mp hlen)
  refine ⟨h₃, p, t, ?_, ?_, fun _ => hget₃, hr₃, ?_⟩
  · have hcopy : memcpy d num.toNat = some d := by rw [memcpy, hnum, if_pos (Nat.le_refl _), List.take_length]
    rw [if_pos hpos, bind_eq (deref_eq type hsrc (htype d)), bind_eq hcopy, halloc]
    dsimp only
    rw [bind_eq (deref_eq Block.constr? hcpy₁ rfl), bind_eq hstore, hnum]
    exact hrun
  · exact hc₃.keeps cpy _ (mt List.mem_singleton.mp (hc.ne_of_mem hp hcpy)) hget
  · have htotal := ((hc.mono (List.nil_subset [cpy])).trans hc₂ fun q hq => .inl hq).trans hc₃ fun q hq => .inr hq
    rw [arrayBlocks, if_neg (by simpa using hne)]
    exact htotal

end

theorem RepDefval.after {defval : AttrDefault Ptr} {value : AttrDefault (Option CString)} (hr : RepDefval h defval value)
    (hc : Changes ws h h' new) (hws : ∀ q ∈ ws, ∀ s, h.get q ≠ some (.str s)) : RepDefval h' defval value :=
  ⟨hr.adnum, hr.adbin.after hc hws⟩

theorem RepCheck.after {check : ConstrCheck Ptr} {value : ConstrCheck (Option CString)} (hr : RepCheck h check value)
    (hc : Changes ws h h' new) (hws : ∀ q ∈ ws, ∀ s, h.get q ≠ some (.str s)) : RepCheck h' check value :=
  ⟨hr.ccname.after hc hws, hr.ccbin.after hc hws⟩

theorem copyDefval_spec {pre rest t d : List (AttrDefault Ptr)} {x : AttrDefault Ptr} {value : AttrDefault (Option CString)}
    (hd : d = pre ++ x :: rest) (hsrc : h.get src = some (.defvalArray d))
    (hdst : h.get dst = some (.defvalArray (pre ++ x :: t))) (hx : RepDefval h x value) :
    ∃ h' y, copyDefval A src dst pre.length h = some h' ∧ h'.get dst = some (.defvalArray (pre ++ y :: t)) ∧
      RepDefval h' y value ∧ Changes [dst] h h' (defvalBlocks y) := by
  obtain ⟨h', q, hrun, hget, hq, hc⟩ := dupEntry_spec (A := A) Block.defvalArray? .defvalArray
    (fun _ => rfl) (fun _ _ => Block.noConfusion) hdst hx.adbin (fun q defval => { defval with adbin := q }) rfl
  refine ⟨h', { x with adbin := q }, ?_, hget, ⟨hx.adnum, hq⟩, hc⟩
  have hentry : d[pre.length]? = some x := by rw [hd, List.getElem?_append_right (Nat.le_refl _), Nat.sub_self]; rfl
  rw [copyDefval, bind_eq (deref_eq Block.defvalArray? hsrc rfl), bind_eq hentry]
  exact hrun

theorem copyCheck_spec {pre rest t d : List (ConstrCheck Ptr)} {x : ConstrCheck Ptr} {value : ConstrCheck (Option CString)}
    (hd : d = pre ++ x :: rest) (hsrc : h.get src = some (.checkArray d))
    (hdst : h.get dst = some (.checkArray (pre ++ x :: t))) (hx : RepCheck h x value) :
    ∃ h' y, copyCheck A src dst pre.length h = some h' ∧ h'.get dst = some (.checkArray (pre ++ y :: t)) ∧
      RepCheck h' y value ∧ Changes [dst] h h' (checkBlocks y) := by
  have hnostr : ∀ {h : DescHeap} {l}, h.get dst = some (.checkArray l) → ∀ q ∈ [dst], ∀ s, h.get q ≠ some (.str s) :=
    fun hget q hq s => Heap.get_singleton_ne hget Block.noConfusion q hq
  obtain ⟨h₁, q₁, hrun₁, hget₁, hq₁, hc₁⟩ := dupEntry_spec (A := A) Block.checkArray? .checkArray
    (fun _ => rfl) (fun _ _ => Block.noConfusion) hdst hx.ccname (fun q check => { check with ccname := q }) rfl
  obtain ⟨h₂, q₂, hrun₂, hget₂, hq₂, hc₂⟩ := dupEntry_spec (A := A) Block.checkArray? .checkArray
    (fun _ => rfl) (fun _ _ => Block.noConfusion) hget₁ (hx.ccbin.after hc₁ (hnostr hdst))
    (fun q check => { check with ccbin := q }) rfl
  refine ⟨h₂, _, ?_, hget₂, ⟨hq₁.after hc₂ (hnostr hget₁), hq₂⟩, hc₁.trans hc₂ fun q hq => .inl hq⟩
  have hentry : d[pre.length]? = some x := by rw [hd, List.getElem?_append_right (Nat.le_refl _), Nat.sub_self]; rfl
  rw [copyCheck, bind_eq (deref_eq Block.checkArray? hsrc rfl), bind_eq hentry, bind_eq hrun₁]
  exact hrun₂

/-! ## The constraints -/

theorem copyConstr_spec (A : Allocator Block) (junk : Ptr) {l : ConstrLayout} {value : TupleConstr (Option CString)} (hr : RepConstr h l value) :
    ∃ cpy h' l', copyConstr A junk l.constr h = some (cpy, h') ∧ l'.constr = cpy ∧ RepConstr h' l' value ∧
      Changes [] h h' l'.blocks := by
  obtain ⟨cpy, h₁, halloc, hnew, hc⟩ :=
    alloc_spec A h (.constr ⟨junk, junk, value.numDefval, value.numCheck, value.hasNotNull⟩)
  have hold : ∀ q ∈ ([] : List Ptr), ∀ s, h.get q ≠ some (.str s) := fun q hq => absurd hq List.not_mem_nil
  obtain ⟨h₂, p, t, hrun₂, hget₂, harray₂, hr₂, hc₂⟩ := copyArray_spec (A := A) (R := RepDefval) Block.defvalArray?
    .defvalArray (fun p cpy => { cpy with defval := p }) defvalBlocks (copyDefval A l.defval) value.numDefval junk (fun _ => rfl) (fun _ _ => Block.noConfusion)
    (fun _ _ => Block.noConfusion) RepDefval.after copyDefval_spec
    (value.defval_length.symm.trans hr.defvals.length_eq.symm)
    (fun hne => hc.keeps l.defval _ List.not_mem_nil (hr.defvalArray hne)) hnew rfl
    (forall₂_keep hr.defvals fun x _ _ hx => hx.after hc hold)
  have hwritten : ∀ {h : DescHeap} {c b}, h.get cpy = some (.constr c) → (∀ c, b ≠ .constr c) →
      ∀ q ∈ [cpy], h.get q ≠ some b := fun hget hb => Heap.get_singleton_ne hget (hb _).symm
  obtain ⟨h₃, p', t', hrun₃, hget₃, harray₃, hr₃, hc₃⟩ := copyArray_spec (A := A) (R := RepCheck) Block.checkArray?
    .checkArray (fun p cpy => { cpy with check := p }) checkBlocks (copyCheck A l.check) value.numCheck junk (fun _ => rfl) (fun _ _ => Block.noConfusion)
    (fun _ _ => Block.noConfusion) RepCheck.after copyCheck_spec
    (value.check_length.symm.trans hr.checks.length_eq.symm)
    (fun hne => hc₂.keep (hc.keeps l.check _ List.not_mem_nil (hr.checkArray hne))
      (hwritten hnew fun _ => Block.noConfusion)) hget₂ rfl
    (forall₂_keep hr.checks fun x _ _ hx => (hx.after hc hold).after hc₂ fun q hq s =>
      hwritten hnew (fun _ => Block.noConfusion) q hq)
  refine ⟨cpy, h₃, ⟨cpy, p, p', t, t'⟩, ?_, rfl, ⟨hget₃, fun hne => ?_, harray₃, ?_, hr₃⟩, ?_⟩
  · rw [copyConstr, if_neg (Heap.ne_null_of_get hr.block), bind_eq (deref_eq Block.constr? hr.block rfl)]
    dsimp only
    rw [halloc]
    dsimp only
    rw [copyDefvals, bind_eq hrun₂, copyChecks, bind_eq hrun₃]
    rfl
  · exact hc₃.keep (harray₂ hne) (hwritten hget₂ fun _ => Block.noConfusion)
  · exact forall₂_keep hr₂ fun x _ _ hx => hx.after hc₃ fun q hq s => hwritten hget₂ (fun _ => Block.noConfusion) q hq
  · have htotal := (hc.trans hc₂ fun q hq => .inr hq).trans hc₃ fun q hq => .inr (List.mem_append_left _ hq)
    rw [List.append_assoc] at htotal
    exact htotal

/-! ## The attributes -/

theorem copyAttrs_spec {srcPtrs : List Ptr} {attrs : List FormDataPgAttribute} (hsrc : h.get src = some (.attrArray srcPtrs))
    (hdst : h.get dst = some (.attrArray (List.replicate srcPtrs.length junk))) (hne : src ≠ dst)
    (hr : List.Forall₂ (fun p attr => h.get p = some (.attr attr)) srcPtrs attrs) :
    ∃ h' ptrs, forUp (copyAttr A src dst) srcPtrs.length h = some h' ∧ h'.get dst = some (.attrArray ptrs) ∧
      List.Forall₂ (fun p attr => h'.get p = some (.attr attr)) ptrs attrs ∧ Changes [dst] h h' ptrs := by
  have hlen := hr.length_eq
  let inv : Nat → DescHeap → Prop := fun i h' =>
    ∃ ptrs, h'.get dst = some (.attrArray (ptrs ++ List.replicate (srcPtrs.length - i) junk)) ∧
      List.Forall₂ (fun p attr => h'.get p = some (.attr attr)) ptrs (attrs.take i) ∧ Changes [dst] h h' ptrs
  have hstart : inv 0 h := ⟨[], hdst, .nil, Changes.refl _ h⟩
  have hwritten : ∀ {h : DescHeap} {l attr}, h.get dst = some (.attrArray l) → ∀ q ∈ [dst], h.get q ≠ some (.attr attr) :=
    fun hget => Heap.get_singleton_ne hget Block.noConfusion
  have hstep : ∀ i < srcPtrs.length, ∀ mid, inv i mid → ∃ h', copyAttr A src dst i mid = some h' ∧ inv (i + 1) h' := by
    rintro i hi mid ⟨ptrs, hget, hrep, hc⟩
    have hi' : i < attrs.length := hlen ▸ hi
    have hptrs : ptrs.length = i := by
      rw [hrep.length_eq, List.length_take, Nat.min_eq_left (Nat.le_of_lt hi')]
    have hentry : srcPtrs[i]? = some srcPtrs[i] := List.getElem?_eq_getElem hi
    have hattr : mid.get srcPtrs[i] = some (.attr attrs[i]) := hc.keep (hr.get hi hi') (hwritten hdst)
    obtain ⟨p, h₁, halloc, hnew, hc₁⟩ := alloc_spec A mid (.attr attrs[i])
    have hget₁ := hc₁.keeps dst _ List.not_mem_nil hget
    rw [show srcPtrs.length - i = srcPtrs.length - (i + 1) + 1 by omega, List.replicate_succ] at hget₁
    obtain ⟨h₂, hset, hget₂, hc₂⟩ := setEntry_spec Block.attrArray? (fun _ => rfl) hget₁ fun _ => p
    rw [hptrs] at hset
    refine ⟨h₂, ?_, ptrs ++ [p], ?_, ?_, ?_⟩
    · rw [copyAttr, bind_eq (deref_eq Block.attrArray? (hc.keeps src _ (mt List.mem_singleton.mp hne) hsrc) rfl),
        bind_eq hentry, bind_eq (deref_eq Block.attr? hattr rfl), halloc]
      exact hset
    · rw [List.append_assoc]
      exact hget₂
    · rw [List.take_succ_eq_append_getElem hi']
      refine List.rel_append (forall₂_keep hrep fun q _ attr hq => ?_) (.cons ?_ .nil)
      · exact hc₂.keep (hc₁.keeps q _ List.not_mem_nil hq) (hwritten hget₁)
      · exact hc₂.keep hnew (hwritten hget₁)
    · have htotal := hc.trans ((hc₁.mono (List.nil_subset [dst])).trans hc₂ fun q hq => .inl hq) fun q hq => .inl hq
      rwa [List.append_nil] at htotal
  obtain ⟨h', hrun, ptrs, hget, hrep, hc⟩ := forUp_rule hstep hstart
  rw [Nat.sub_self, List.replicate_zero, List.append_nil] at hget
  rw [hlen, List.take_length] at hrep
  exact ⟨h', ptrs, hrun, hget, hrep, hc⟩

/-! ## The descriptor -/

/-- There may be no constraints. -/
theorem copyConstr_option_spec (A : Allocator Block) (junk : Ptr) {l : Option ConstrLayout}
    {value : Option (TupleConstr (Option CString))} (hr : Option.Rel (RepConstr h) l value) :
    ∃ cpy h' l', copyConstr A junk ((l.map ConstrLayout.constr).getD NULL) h = some (cpy, h') ∧
      (Option.map ConstrLayout.constr l').getD NULL = cpy ∧ Option.Rel (RepConstr h') l' value ∧
      Changes [] h h' ((l'.map ConstrLayout.blocks).getD []) := by
  cases hr with
  | none => exact ⟨NULL, h, none, if_pos rfl, rfl, .none, Changes.refl _ h⟩
  | some hr =>
    obtain ⟨cpy, h', l', hrun, hcpy, hr', hc⟩ := copyConstr_spec A junk hr
    exact ⟨cpy, h', some l', hrun, hcpy, .some hr', hc⟩

/-- The copy holds the same descriptor in blocks of its own, and nothing else is touched. -/
theorem createTupleDescCopyConstr_spec (A : Allocator Block) (junk : Ptr) {L : Layout}
    {value : TupleDescData (Option CString)} (hr : Represents h L value) :
    ∃ p h' L', createTupleDescCopyConstr A junk L.desc h = some (p, h') ∧ L'.desc = p ∧ Represents h' L' value ∧
      Changes [] h h' L'.blocks := by
  have hnatts : value.natts.toNat = L.attrPtrs.length := by
    rw [← value.attrs_length, Int.toNat_natCast, hr.attrs.length_eq]
  have hwritten : ∀ {h : DescHeap} {desc d b}, h.get desc = some (.desc d) → (∀ d, b ≠ .desc d) →
      ∀ q ∈ [desc], h.get q ≠ some b := fun hget hb => Heap.get_singleton_ne hget (hb _).symm
  obtain ⟨desc, h₁, halloc₁, hdesc₁, hc₁⟩ := alloc_spec A h (.desc ⟨value.natts, junk, junk⟩)
  obtain ⟨attrs, h₂, halloc₂, hattrs₂, hc₂⟩ := alloc_spec A h₁ (.attrArray (List.replicate value.natts.toNat junk))
  have hdesc₂ := hc₂.keeps desc _ List.not_mem_nil hdesc₁
  obtain ⟨h₃, hstore₃, hdesc₃, hc₃⟩ := store_spec hdesc₂ (.desc ⟨value.natts, attrs, junk⟩)
  have hattrs₃ := hc₃.keep hattrs₂ (hwritten hdesc₂ fun _ => Block.noConfusion)
  rw [hnatts] at hattrs₃
  have hc₀₃ := (hc₁.trans hc₂ fun q hq => .inl hq).trans hc₃ fun q hq => .inr (List.mem_append_left _ hq)
  -- what was there before is still there when the attributes are copied
  have hkeeps₃ : ∀ q b, h.get q = some b → h₃.get q = some b := fun q b => hc₀₃.keeps q b List.not_mem_nil
  have hne : L.attrs ≠ attrs :=
    hc₂.ne_of_mem (List.mem_singleton.mpr rfl) (hc₁.keeps L.attrs _ List.not_mem_nil hr.attrArray)
  obtain ⟨h₄, ptrs, hrun₄, hattrs₄, hr₄, hc₄⟩ := copyAttrs_spec (A := A) (hkeeps₃ _ _ hr.attrArray) hattrs₃ hne
    (forall₂_keep hr.attrs fun q _ attr hq => hkeeps₃ q _ hq)
  have hc₀₄ := hc₀₃.trans hc₄ fun q hq =>
    .inr (List.mem_append_left _ (List.mem_append_right _ hq))
  have hdesc₄ : h₄.get desc = some (.desc ⟨value.natts, attrs, junk⟩) :=
    hc₄.keeps desc _ (mt List.mem_singleton.mp (hc₂.ne_of_mem (List.mem_singleton.mpr rfl) hdesc₁)) hdesc₃
  obtain ⟨cpy, h₅, l', hrun₅, hcpy, hr₅, hc₅⟩ := copyConstr_option_spec A junk
    (relConstr_keep hr.constr fun q _ b => hc₀₄.keeps q b List.not_mem_nil)
  have hdesc₅ := hc₅.keeps desc _ List.not_mem_nil hdesc₄
  obtain ⟨h₆, hstore₆, hdesc₆, hc₆⟩ := store_spec hdesc₅ (.desc ⟨value.natts, attrs, cpy⟩)
  have hkeeps₆ : ∀ {q b}, h₄.get q = some b → (∀ d, b ≠ .desc d) → h₆.get q = some b := fun {q b} hq hb =>
    hc₆.keep (hc₅.keeps q b List.not_mem_nil hq) (hwritten hdesc₅ hb)
  refine ⟨desc, h₆, ⟨desc, attrs, ptrs, l'⟩, ?_, rfl, ⟨?_, ?_, ?_, ?_⟩, ?_⟩
  · rw [createTupleDescCopyConstr, bind_eq (deref_eq Block.desc? hr.desc rfl)]
    dsimp only
    rw [halloc₁]
    dsimp only
    rw [halloc₂]
    dsimp only
    rw [bind_eq hstore₃, hnatts, bind_eq hrun₄, bind_eq hrun₅]
    exact bind_eq hstore₆ _
  · rw [hcpy]
    exact hdesc₆
  · exact hkeeps₆ hattrs₄ fun _ => Block.noConfusion
  · exact forall₂_keep hr₄ fun q _ attr hq => hkeeps₆ hq fun _ => Block.noConfusion
  · refine relConstr_keep hr₅ fun q hq b => hc₆.keeps q b (mt List.mem_singleton.mp ?_)
    exact Ne.symm (hc₅.ne_of_mem hq hdesc₄)
  · have htotal := (hc₀₄.trans hc₅ fun q hq => .inl hq).trans hc₆ fun q hq =>
      .inr (List.mem_append_left _ (List.mem_append_left _ (List.mem_append_left _ (List.mem_append_left _ hq))))
    simpa [Layout.blocks] using htotal

end PostgresV7.Tupdesc
