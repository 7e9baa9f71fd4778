import PostgresV7.Tupdesc.Copy

/-!
# What `free_tuple_desc` does

Every block of a descriptor is freed once, and the blocks of another one stay. A pointer is read before its
block is freed.
-/

namespace PostgresV7.Tupdesc

open BlockHeap

variable {h h' mid : DescHeap} {p array junk : Ptr} {gone : List Ptr} {α : Type}

/-- What is not freed stays as it is. -/
theorem Frees.keeps_of_disjoint {ps : List Ptr} (hf : Frees h h' gone) (hd : List.Disjoint ps gone) : Keeps h h' ps :=
  fun p hp b hget => by
    rw [hf.keeps p (hd hp)]
    exact hget

/-! ## Strings and arrays -/

theorem RepStr.live {s : Option CString} (hr : RepStr h p s) : ∀ q ∈ strBlocks p, h.get q ≠ none := by
  intro q hq
  cases s with
  | none =>
    obtain rfl : p = NULL := hr
    rw [strBlocks, if_pos rfl] at hq
    cases hq
  | some s =>
    have hr : h.get p = some (.str s) := hr
    rw [strBlocks, if_neg (Heap.ne_null_of_get hr)] at hq
    rw [List.mem_singleton.mp hq, hr]
    exact Option.some_ne_none _

theorem pfreeString_spec (hlive : ∀ q ∈ strBlocks p, h.get q ≠ none) :
    ∃ h', pfreeString p h = some h' ∧ Frees h h' (strBlocks p) := by
  unfold pfreeString
  by_cases hnull : p = NULL
  · rw [if_pos hnull, strBlocks, if_pos hnull]
    exact ⟨h, rfl, Frees.refl h⟩
  · rw [strBlocks, if_neg hnull] at hlive ⊢
    obtain ⟨b, hb⟩ := Option.ne_none_iff_exists'.mp (hlive p (List.mem_singleton.mpr rfl))
    rw [if_neg hnull]
    exact free_spec hb

theorem freeDefval_spec {d : List (AttrDefault Ptr)} {i : Nat} {x : AttrDefault Ptr} (hx : d[i]? = some x)
    (hget : h.get array = some (.defvalArray d)) (hlive : ∀ q ∈ defvalBlocks x, h.get q ≠ none) (_ : (defvalBlocks x).Nodup) :
    ∃ h', freeDefval array i h = some h' ∧ Frees h h' (defvalBlocks x) := by
  rw [freeDefval, bind_eq (deref_eq Block.defvalArray? hget rfl), bind_eq hx]
  exact pfreeString_spec hlive

theorem freeCheck_spec {d : List (ConstrCheck Ptr)} {i : Nat} {x : ConstrCheck Ptr} (hx : d[i]? = some x)
    (hget : h.get array = some (.checkArray d)) (hlive : ∀ q ∈ checkBlocks x, h.get q ≠ none)
    (hnodup : (checkBlocks x).Nodup) : ∃ h', freeCheck array i h = some h' ∧ Frees h h' (checkBlocks x) := by
  obtain ⟨-, -, hdisjoint⟩ := List.nodup_append'.mp hnodup
  obtain ⟨h₁, hrun₁, hf₁⟩ := pfreeString_spec (p := x.ccname) fun q hq => hlive q (List.mem_append_left _ hq)
  obtain ⟨h₂, hrun₂, hf₂⟩ := pfreeString_spec (h := h₁) (p := x.ccbin) fun q hq => by
    rw [hf₁.keeps q fun hmem => hdisjoint hmem hq]
    exact hlive q (List.mem_append_right _ hq)
  rw [freeCheck, bind_eq (deref_eq Block.checkArray? hget rfl), bind_eq hx, bind_eq hrun₁]
  exact ⟨h₂, hrun₂, hf₁.trans hf₂⟩

section

variable {block : List α → Block} {blocks : α → List Ptr} {round : Nat → DescHeap → Option DescHeap} {l : List α}

/-- If a round frees what one entry owns, the loop frees what all of them own. -/
theorem freeEntries_spec
    (hround : ∀ {h : DescHeap} {i x}, l[i]? = some x → h.get array = some (block l) → (∀ q ∈ blocks x, h.get q ≠ none) →
      (blocks x).Nodup → ∃ h', round i h = some h' ∧ Frees h h' (blocks x))
    (hget : h.get array = some (block l)) (hlive : ∀ x ∈ l, ∀ q ∈ blocks x, h.get q ≠ none)
    (hnodup : (array :: l.flatMap blocks).Nodup) :
    ∃ h', forDown round l.length h = some h' ∧ Frees h h' (l.reverse.flatMap blocks) := by
  obtain ⟨harray, hentries⟩ := List.nodup_cons.mp hnodup
  let inv : Nat → DescHeap → Prop := fun i h' => Frees h h' ((l.drop i).reverse.flatMap blocks)
  have hmem : ∀ {i q}, q ∈ (l.drop i).reverse.flatMap blocks ↔ q ∈ (l.drop i).flatMap blocks := by
    intro i q
    simp only [List.mem_flatMap, List.mem_reverse]
  have hstart : inv l.length h := by
    show Frees h h ((l.drop l.length).reverse.flatMap blocks)
    rw [List.drop_length]
    exact Frees.refl h
  have hstep : ∀ i < l.length, ∀ mid, inv (i + 1) mid → ∃ h', round i mid = some h' ∧ inv i h' := by
    intro i hi mid hf
    have hsplit : l = l.take i ++ l[i] :: l.drop (i + 1) := by
      rw [← List.drop_eq_getElem_cons hi, List.take_append_drop]
    have hx : l[i] ∈ l := List.getElem_mem hi
    have hnodup' := hentries
    rw [hsplit, List.flatMap_append, List.flatMap_cons] at hnodup'
    obtain ⟨-, hrest, -⟩ := List.nodup_append'.mp hnodup'
    obtain ⟨hentry, -, hdisjoint⟩ := List.nodup_append'.mp hrest
    have hout : array ∉ (l.drop (i + 1)).reverse.flatMap blocks := fun hin => by
      obtain ⟨y, hy, hq⟩ := List.mem_flatMap.mp (hmem.mp hin)
      exact harray (List.mem_flatMap.mpr ⟨y, List.mem_of_mem_drop hy, hq⟩)
    obtain ⟨h', hrun, hf'⟩ := hround (List.getElem?_eq_getElem hi) ((hf.keeps array hout).trans hget)
      (fun q hq => by
        rw [hf.keeps q fun hin => hdisjoint hq (hmem.mp hin)]
        exact hlive l[i] hx q hq) hentry
    refine ⟨h', hrun, ?_⟩
    show Frees h h' ((l.drop i).reverse.flatMap blocks)
    rw [List.drop_eq_getElem_cons hi, List.reverse_cons, List.flatMap_append, List.flatMap_singleton]
    exact hf.trans hf'
  exact forDown_rule hstep hstart

theorem freeArray_spec {num : UInt16} (round : Nat → DescHeap → Option DescHeap) (block : List α → Block)
    (hround : ∀ {h : DescHeap} {i x}, l[i]? = some x → h.get array = some (block l) → (∀ q ∈ blocks x, h.get q ≠ none) →
      (blocks x).Nodup → ∃ h', round i h = some h' ∧ Frees h h' (blocks x))
    (hnum : num.toNat = l.length) (hget : l ≠ [] → h.get array = some (block l))
    (hlive : ∀ x ∈ l, ∀ q ∈ blocks x, h.get q ≠ none) (hnodup : (arrayBlocks array l blocks).Nodup) :
    ∃ h' gone, freeArray round num array h = some h' ∧ gone.Perm (arrayBlocks array l blocks) ∧ Frees h h' gone := by
  unfold freeArray
  by_cases hempty : l = []
  · subst hempty
    have hzero : ¬ 0 < num := by
      rw [UInt16.lt_iff_toNat_lt, hnum]
      exact Nat.lt_irrefl 0
    exact ⟨h, [], if_neg hzero, .refl _, Frees.refl h⟩
  have hpos : 0 < num := by
    rw [UInt16.lt_iff_toNat_lt, hnum]
    exact List.length_pos_iff.mpr hempty
  have hblocks : arrayBlocks array l blocks = array :: l.flatMap blocks := if_neg (by simpa using hempty)
  rw [hblocks] at hnodup ⊢
  have hperm : (l.reverse.flatMap blocks).Perm (l.flatMap blocks) := l.reverse_perm.flatMap_right blocks
  obtain ⟨h₁, hrun₁, hf₁⟩ := freeEntries_spec hround (hget hempty) hlive hnodup
  have hout : array ∉ l.reverse.flatMap blocks := fun hin => (List.nodup_cons.mp hnodup).1 (hperm.mem_iff.mp hin)
  obtain ⟨h₂, hrun₂, hf₂⟩ := free_spec ((hf₁.keeps array hout).trans (hget hempty))
  refine ⟨h₂, _, ?_, ?_, hf₁.trans hf₂⟩
  · rw [if_pos hpos, hnum, bind_eq hrun₁]
    exact hrun₂
  · exact (List.perm_append_singleton _ _).trans (hperm.cons array)

end

/-! ## The constraints -/

theorem forall₂_live {γ : Type} {R : α → γ → Prop} {l : List α} {values : List γ} {b : α → List Ptr}
    (hr : List.Forall₂ R l values) (hlive : ∀ x value, R x value → ∀ q ∈ b x, h.get q ≠ none) :
    ∀ x ∈ l, ∀ q ∈ b x, h.get q ≠ none := by
  induction hr with
  | nil => exact fun x hx => absurd hx List.not_mem_nil
  | cons hx _ ih => exact List.forall_mem_cons.mpr ⟨hlive _ _ hx, ih⟩

theorem freeConstr_spec {l : ConstrLayout} {value : TupleConstr (Option CString)} (hr : RepConstr h l value)
    (hnodup : l.blocks.Nodup) :
    ∃ h' gone, freeConstr l.constr h = some h' ∧ gone.Perm l.blocks ∧ Frees h h' gone := by
  obtain ⟨hconstr, harrays⟩ := List.nodup_cons.mp hnodup
  obtain ⟨hdefvals, hchecks, hdisjoint⟩ := List.nodup_append'.mp harrays
  obtain ⟨h₁, gone₁, hrun₁, hperm₁, hf₁⟩ := freeArray_spec (freeDefval l.defval) .defvalArray
    freeDefval_spec (value.defval_length.symm.trans hr.defvals.length_eq.symm) hr.defvalArray
    (forall₂_live hr.defvals fun _ _ hx => hx.adbin.live) hdefvals
  -- the other array is still there
  have hkeeps₁ : ∀ q ∈ arrayBlocks l.check l.checks checkBlocks, h₁.get q = h.get q := fun q hq =>
    hf₁.keeps q fun hin => hdisjoint (hperm₁.mem_iff.mp hin) hq
  have hlive : ∀ x ∈ l.checks, ∀ q ∈ checkBlocks x, h.get q ≠ none :=
    forall₂_live hr.checks fun _ _ hx => List.forall_mem_append.mpr ⟨hx.ccname.live, hx.ccbin.live⟩
  obtain ⟨h₂, gone₂, hrun₂, hperm₂, hf₂⟩ := freeArray_spec (h := h₁) (freeCheck l.check) .checkArray
    freeCheck_spec (value.check_length.symm.trans hr.checks.length_eq.symm)
    (fun hne => (hkeeps₁ _ (mem_arrayBlocks _ hne)).trans (hr.checkArray hne))
    (fun x hx q hq => by
      rw [hkeeps₁ q (entry_subset _ hx hq)]
      exact hlive x hx q hq) hchecks
  have hperm := hperm₁.append hperm₂
  have hf := hf₁.trans hf₂
  obtain ⟨h₃, hrun₃, hf₃⟩ := free_spec ((hf.keeps l.constr fun hin => hconstr (hperm.mem_iff.mp hin)).trans hr.block)
  refine ⟨h₃, _, ?_, ?_, hf.trans hf₃⟩
  · rw [freeConstr, if_neg (Heap.ne_null_of_get hr.block), bind_eq (deref_eq Block.constr? hr.block rfl), bind_eq hrun₁,
      bind_eq hrun₂]
    exact hrun₃
  · exact (List.perm_append_singleton _ _).trans (hperm.cons _)

theorem freeConstr_option_spec {l : Option ConstrLayout} {value : Option (TupleConstr (Option CString))}
    (hr : Option.Rel (RepConstr h) l value) (hnodup : ((l.map ConstrLayout.blocks).getD []).Nodup) :
    ∃ h' gone, freeConstr ((l.map ConstrLayout.constr).getD NULL) h = some h' ∧
      gone.Perm ((l.map ConstrLayout.blocks).getD []) ∧ Frees h h' gone := by
  cases hr with
  | none => exact ⟨h, [], if_pos rfl, .refl _, Frees.refl h⟩
  | some hr => exact freeConstr_spec hr hnodup

/-! ## The descriptor -/

theorem freeAttrs_spec {ptrs : List Ptr} {attrs : List FormDataPgAttribute} (hget : h.get array = some (.attrArray ptrs))
    (hr : List.Forall₂ (fun p attr => h.get p = some (.attr attr)) ptrs attrs) (hnodup : (array :: ptrs).Nodup) :
    ∃ h', forUp (freeAttr array) ptrs.length h = some h' ∧ Frees h h' ptrs := by
  obtain ⟨harray, hptrs⟩ := List.nodup_cons.mp hnodup
  let inv : Nat → DescHeap → Prop := fun i h' => Frees h h' (ptrs.take i)
  have hstart : inv 0 h := Frees.refl h
  have hstep : ∀ i < ptrs.length, ∀ mid, inv i mid → ∃ h', freeAttr array i mid = some h' ∧ inv (i + 1) h' := by
    intro i hi mid hf
    have hi' : i < attrs.length := hr.length_eq ▸ hi
    have hnext := hptrs.sublist (List.take_sublist (i + 1) ptrs)
    rw [List.take_succ_eq_append_getElem hi] at hnext
    obtain ⟨-, -, hdisjoint⟩ := List.nodup_append'.mp hnext
    have hattr : h.get ptrs[i] = some (.attr attrs[i]) := hr.get hi hi'
    have hout : ptrs[i] ∉ ptrs.take i := fun hin => hdisjoint hin (List.mem_singleton.mpr rfl)
    obtain ⟨h', hrun, hf'⟩ := free_spec ((hf.keeps _ hout).trans hattr)
    have hread := (hf.keeps array fun hin => harray (List.mem_of_mem_take hin)).trans hget
    refine ⟨h', ?_, ?_⟩
    · rw [freeAttr, bind_eq (deref_eq Block.attrArray? hread rfl), bind_eq (List.getElem?_eq_getElem hi)]
      exact hrun
    · show Frees h h' (ptrs.take (i + 1))
      rw [List.take_succ_eq_append_getElem hi]
      exact hf.trans hf'
  obtain ⟨h', hrun, hf⟩ := forUp_rule hstep hstart
  have hf : Frees h h' (ptrs.take ptrs.length) := hf
  rw [List.take_length] at hf
  exact ⟨h', hrun, hf⟩

section

variable {pfre : Ptr → DescHeap → Option DescHeap} {L L' : Layout} {value : TupleDescData (Option CString)}

/-- Every block of the descriptor is freed once, and no other one. -/
theorem freeTupleDesc_spec (hpfre : ∀ {h : DescHeap} {p b}, h.get p = some b → pfre p h = h.free p)
    (hr : Represents h L value) (hnodup : L.blocks.Nodup) :
    ∃ h' gone, freeTupleDesc pfre L.desc h = some h' ∧ gone.Perm L.blocks ∧ Frees h h' gone := by
  have hnatts : value.natts.toNat = L.attrPtrs.length := by
    rw [← value.attrs_length, Int.toNat_natCast, hr.attrs.length_eq]
  obtain ⟨hdesc, hrest⟩ := List.nodup_cons.mp hnodup
  obtain ⟨hattrs, hparts⟩ := List.nodup_cons.mp hrest
  obtain ⟨hptrs, hconstr, hdisjoint⟩ := List.nodup_append'.mp hparts
  have hout : L.attrs ∉ L.attrPtrs := fun hin => hattrs (List.mem_append_left _ hin)
  obtain ⟨h₁, hrun₁, hf₁⟩ := freeAttrs_spec hr.attrArray hr.attrs (List.nodup_cons.mpr ⟨hout, hptrs⟩)
  obtain ⟨h₂, hrun₂, hf₂⟩ := free_spec ((hf₁.keeps _ hout).trans hr.attrArray)
  have hf₁₂ := hf₁.trans hf₂
  -- the constraints are still there
  have hkeeps : Keeps h h₂ ((L.constr.map ConstrLayout.blocks).getD []) := Frees.keeps_of_disjoint hf₁₂ fun q hq hin => by
    rcases List.mem_append.mp hin with hin | hin
    · exact hdisjoint hin hq
    · rw [List.mem_singleton.mp hin] at hq
      exact hattrs (List.mem_append_right _ hq)
  obtain ⟨h₃, gone, hrun₃, hperm, hf₃⟩ := freeConstr_option_spec (relConstr_keep hr.constr hkeeps) hconstr
  have hf₁₃ := hf₁₂.trans hf₃
  have hall : (L.attrPtrs ++ [L.attrs] ++ gone).Perm
      (L.attrs :: (L.attrPtrs ++ (L.constr.map ConstrLayout.blocks).getD [])) :=
    (List.perm_append_singleton L.attrs L.attrPtrs).append hperm
  have hlast := (hf₁₃.keeps L.desc fun hin => hdesc (hall.mem_iff.mp hin)).trans hr.desc
  obtain ⟨h₄, hrun₄, hf₄⟩ := free_spec hlast
  refine ⟨h₄, _, ?_, ?_, hf₁₃.trans hf₄⟩
  · rw [freeTupleDesc, bind_eq (deref_eq Block.desc? hr.desc rfl), hnatts, bind_eq hrun₁, bind_eq hrun₂, bind_eq hrun₃,
      hpfre hlast]
    exact hrun₄
  · exact (List.perm_append_singleton _ _).trans (hall.cons L.desc)

/-- Freeing both descriptors, the first one first: each call frees the blocks of its own descriptor, each
once, and the first one leaves the other descriptor as it is. -/
def FreesBoth (pfre : Ptr → DescHeap → Option DescHeap) (h : DescHeap) (L L' : Layout)
    (value : TupleDescData (Option CString)) : Prop :=
  ∃ h₁ h₂ gone gone', freeTupleDesc pfre L.desc h = some h₁ ∧ gone.Perm L.blocks ∧ Frees h h₁ gone ∧
    Represents h₁ L' value ∧ freeTupleDesc pfre L'.desc h₁ = some h₂ ∧ gone'.Perm L'.blocks ∧ Frees h₁ h₂ gone'

theorem freesBoth (hpfre : ∀ {h : DescHeap} {p b}, h.get p = some b → pfre p h = h.free p) (hr : Represents h L value)
    (hr' : Represents h L' value) (hnodup : L.blocks.Nodup) (hnodup' : L'.blocks.Nodup)
    (hdisjoint : List.Disjoint L.blocks L'.blocks) : FreesBoth pfre h L L' value := by
  obtain ⟨h₁, gone, hrun, hperm, hf⟩ := freeTupleDesc_spec hpfre hr hnodup
  have hother := hr'.keep (Frees.keeps_of_disjoint hf fun q hq hin => hdisjoint (hperm.mem_iff.mp hin) hq)
  obtain ⟨h₂, gone', hrun', hperm', hf'⟩ := freeTupleDesc_spec hpfre hother hnodup'
  exact ⟨h₁, h₂, gone, gone', hrun, hperm, hf, hother, hrun', hperm', hf'⟩

theorem Represents.live (hr : Represents h L value) : ∀ q ∈ L.blocks, h.get q ≠ none := by
  have hsome : ∀ {q b}, h.get q = some b → h.get q ≠ none := fun hq => by
    rw [hq]
    exact Option.some_ne_none _
  have harray : ∀ {α : Type} {array : Ptr} {l : List α} {blocks : α → List Ptr} {block : List α → Block},
      (l ≠ [] → h.get array = some (block l)) → (∀ x ∈ l, ∀ q ∈ blocks x, h.get q ≠ none) →
      ∀ q ∈ arrayBlocks array l blocks, h.get q ≠ none := by
    intro α array l blocks block hget hlive q hq
    unfold arrayBlocks at hq
    split at hq
    · cases hq
    · rename_i hne
      rcases List.mem_cons.mp hq with rfl | hq
      · exact hsome (hget (by simpa using hne))
      · obtain ⟨x, hx, hq⟩ := List.mem_flatMap.mp hq
        exact hlive x hx q hq
  have hattrs : ∀ q ∈ L.attrPtrs, h.get q ≠ none := fun q hq =>
    forall₂_live (b := fun p => [p]) hr.attrs (fun p attr hp r hr => by
      rw [List.mem_singleton.mp hr]
      exact hsome hp) q hq q (List.mem_singleton.mpr rfl)
  refine List.forall_mem_cons.mpr ⟨hsome hr.desc, List.forall_mem_cons.mpr ⟨hsome hr.attrArray,
    List.forall_mem_append.mpr ⟨hattrs, ?_⟩⟩⟩
  have hconstr := hr.constr
  generalize L.constr = l at hconstr ⊢
  generalize value.constr = c at hconstr
  cases hconstr with
  | none => exact fun q hq => absurd hq List.not_mem_nil
  | some hr =>
    refine List.forall_mem_cons.mpr ⟨hsome hr.block, List.forall_mem_append.mpr ⟨?_, ?_⟩⟩
    · exact harray hr.defvalArray (forall₂_live hr.defvals fun _ _ hx => hx.adbin.live)
    · exact harray hr.checkArray (forall₂_live hr.checks fun _ _ hx =>
        List.forall_mem_append.mpr ⟨hx.ccname.live, hx.ccbin.live⟩)

end

/-! ## A descriptor in the heap -/

def anAttr : FormDataPgAttribute where
  attrelid := 1247
  attname := ⟨List.replicate NAME_DATA_LEN 0, rfl, by decide⟩
  atttypid := 19
  attdispersion := 0
  attlen := 32
  attnum := 1
  attnelems := 0
  attcacheoff := -1
  atttypmod := -1
  attbyval := false
  attstorage := 112
  attisset := false
  attalign := 105
  attnotnull := false
  atthasdef := false

def aString : CString := ⟨[120], by decide⟩

/-- One attribute, a default, and a check without a name. -/
def aDesc : TupleDescData (Option CString) where
  natts := 1
  attrs := [anAttr]
  constr := some ⟨[⟨1, some aString⟩], [⟨none, some aString⟩], 1, 1, false, rfl, rfl⟩
  attrs_length := rfl

def aHeap : DescHeap where
  blocks := List.toFinmap [⟨1, .desc ⟨1, 2, 4⟩⟩, ⟨2, .attrArray [3]⟩, ⟨3, .attr anAttr⟩, ⟨4, .constr ⟨5, 7, 1, 1, false⟩⟩,
    ⟨5, .defvalArray [⟨1, 6⟩]⟩, ⟨6, .str aString⟩, ⟨7, .checkArray [⟨NULL, 8⟩]⟩, ⟨8, .str aString⟩]
  calls := 0
  freed := []
  null := by decide

def aLayout : Layout := ⟨1, 2, [3], some ⟨4, 5, 7, [⟨1, 6⟩], [⟨NULL, 8⟩]⟩⟩

theorem represents_aDesc : Represents aHeap aLayout aDesc where
  desc := rfl
  attrArray := rfl
  attrs := .cons rfl .nil
  constr := .some ⟨rfl, fun _ => rfl, fun _ => rfl, .cons ⟨rfl, rfl⟩ .nil, .cons ⟨rfl, rfl⟩ .nil⟩

end PostgresV7.Tupdesc
