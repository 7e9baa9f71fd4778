import Mathlib.Data.FinEnum
import Mathlib.Data.Finset.Dedup
import Mathlib.Data.List.Perm.Subperm
import PostgresV7.Nodes.Append

/-!
# Integer lists as sets (`list.c`)

Membership, inclusion and equality of sets only read their lists. Difference and
union copy and append, so they inherit what `list_copy` makes of `NIL` and what
`lappendi` makes of lists that have grown.
-/

namespace PostgresV7.Nodes

variable {h : Heap} {m m₀ : Memory} {a b l : Ptr} {cs : List (Ptr × ListCell)} {fuel : Nat}
  {xs ys : List UInt32}

/-! ## Appending what is not found -/

section Added

variable {α : Type} {read : ListCell → α}

/-- What becomes of `r` when the elements that are not found are appended one after
the other. -/
def added (found : List α → α → Bool) (r zs : List α) : List α :=
  zs.foldl (fun r z => if found r z then r else r.take 1 ++ [z]) r

theorem added_concat (found : List α → α → Bool) (r zs : List α) (z : α) :
    added found r (zs ++ [z]) =
      if found (added found r zs) z then added found r zs
      else (added found r zs).take 1 ++ [z] := by
  rw [added, List.foldl_append]
  rfl

theorem length_added_le (found : List α → α → Bool) (r zs : List α) :
    (added found r zs).length ≤ max r.length 2 := by
  induction zs generalizing r with
  | nil => exact Nat.le_max_left _ _
  | cons z zs ih =>
    have hstep : (if found r z then r else r.take 1 ++ [z]).length ≤ max r.length 2 := by
      have htake := List.length_take_le 1 r
      split
      · exact Nat.le_max_left _ _
      · simp only [List.length_append, List.length_singleton]
        omega
    have htail := ih (if found r z then r else r.take 1 ++ [z])
    exact htail.trans (by omega)

/-- The loop appends to a list under construction whatever is not found. -/
theorem forEach_addUnless {found : Memory → ListCell → Ptr → Except Fault Bool}
    {append : Memory → Ptr → ListCell → Except Fault (Ptr × Memory)} {m₁ : Memory} {r zs : List α}
    (isIn : List α → α → Bool) (ha : ListOf read m.heap a zs) (hzs : zs.length ≤ fuel)
    (hr : max r.length 2 ≤ fuel)
    (hfound : ∀ m' l' zs c, Built read m m' l' zs → m.Extends m' → zs.length ≤ fuel →
      found m' c l' = .ok (isIn zs (read c)))
    (happend : ∀ m' l' zs c, Built read m m' l' zs → m.Extends m' → zs.length ≤ fuel →
      ∃ l'' m'', append m' l' c = .ok (l'', m'') ∧
        Built read m m'' l'' (zs.take 1 ++ [read c]) ∧ m.Extends m'')
    (hb : Built read m m₁ l r) (hext : m.Extends m₁) :
    ∃ l' m', forEach (addUnless found append) fuel a l m₁ = .ok (l', m') ∧
      Built read m m' l' (added isIn r zs) ∧ m.Extends m' := by
  obtain ⟨cs, hl, rfl⟩ := ha
  have hcs : cs.length ≤ fuel := by simpa using hzs
  have hstep : ∀ (done : List ListCell) var m',
      Built read m m' var (added isIn r (done.map read)) ∧ m.Extends m' → ∀ x ∈ cs, ∃ var' m'',
        addUnless found append x.2 var m' = .ok (var', m'') ∧
          Built read m m'' var' (added isIn r ((done ++ [x.2]).map read)) ∧ m.Extends m'' := by
    intro done var m' ⟨hbuilt, hext'⟩ x _
    have hlen := (length_added_le isIn r (done.map read)).trans hr
    rw [List.map_append, List.map_singleton, added_concat, addUnless,
      hfound m' var _ x.2 hbuilt hext' hlen]
    cases hin : isIn (added isIn r (done.map read)) (read x.2) with
    | true => exact ⟨var, m', rfl, by simpa using hbuilt, hext'⟩
    | false =>
      obtain ⟨l'', m'', hrun, hbuilt', hext''⟩ := happend m' var _ x.2 hbuilt hext' hlen
      refine ⟨l'', m'', ?_, by simpa using hbuilt', hext''⟩
      simp [hrun, bind, Except.bind]
  have hstart : Built read m m₁ l (added isIn r (([] : List ListCell).map read)) ∧ m.Extends m₁ :=
    ⟨hb, hext⟩
  obtain ⟨l', m', hrun, hbuilt, hext'⟩ :=
    forEach_run hl hcs (fun done var m' hP => hP.2) hstep hstart
  exact ⟨l', m', hrun, by simpa [Function.comp_def] using hbuilt, hext'⟩

end Added

/-! ## Membership, inclusion, equality -/

theorem intMember_eq (hb : ListOf ListCell.firstI h b ys) (hfuel : ys.length ≤ fuel) (d : UInt32) :
    intMember h fuel d b = .ok (decide (d ∈ ys)) := by
  obtain ⟨cs, hl, rfl⟩ := hb
  have hfound : forEachUntil h (fun c => .ok (d == c.firstI)) fuel b =
      .ok (cs.any fun x => d == x.2.firstI) :=
    forEachUntil_eq (fun c => d == c.firstI) hl (by simpa using hfuel) fun x _ => rfl
  have hany : (cs.any fun x => d == x.2.firstI) =
      decide (d ∈ cs.map fun x => x.2.firstI) := by
    rw [Bool.eq_iff_iff]
    simp [@eq_comm _ d]
  rw [intMember, hfound, hany]

/-- The loop of `is_subseti` and `same_seti` looks for an element that is missing. -/
theorem missing_eq (ha : ListOf ListCell.firstI h a xs) (hb : ListOf ListCell.firstI h b ys)
    (hxs : xs.length ≤ fuel) (hys : ys.length ≤ fuel) :
    forEachUntil h (fun c => do return !(← intMember h fuel c.firstI b)) fuel a =
      .ok (!decide (xs ⊆ ys)) := by
  obtain ⟨cs, hl, rfl⟩ := ha
  have hfound : forEachUntil h (fun c => do return !(← intMember h fuel c.firstI b)) fuel a =
      .ok (cs.any fun x => !decide (x.2.firstI ∈ ys)) := by
    apply forEachUntil_eq (fun c => !decide (c.firstI ∈ ys)) hl (by simpa using hxs)
    intro x hx
    simp only [intMember_eq hb hys]
    rfl
  have hany : (cs.any fun x => !decide (x.2.firstI ∈ ys)) =
      !decide (cs.map (fun x => x.2.firstI) ⊆ ys) := by
    rw [Bool.eq_iff_iff]
    simp [List.subset_def]
  rw [hfound, hany]

theorem isSubseti_eq (ha : ListOf ListCell.firstI h a xs) (hb : ListOf ListCell.firstI h b ys)
    (hxs : xs.length ≤ fuel) (hys : ys.length ≤ fuel) :
    isSubseti h fuel a b = .ok (decide (xs ⊆ ys)) := by
  rw [isSubseti, missing_eq ha hb hxs hys]
  simp [bind, Except.bind, pure, Except.pure]

theorem nonOverlapSetsi_eq (ha : ListOf ListCell.firstI h a xs)
    (hb : ListOf ListCell.firstI h b ys) (hxs : xs.length ≤ fuel) (hys : ys.length ≤ fuel) :
    nonOverlapSetsi h fuel a b = .ok (decide (∀ x ∈ xs, x ∉ ys)) := by
  obtain ⟨cs, hl, rfl⟩ := ha
  have hfound : forEachUntil h (fun c => intMember h fuel c.firstI b) fuel a =
      .ok (cs.any fun x => decide (x.2.firstI ∈ ys)) :=
    forEachUntil_eq (fun c => decide (c.firstI ∈ ys)) hl (by simpa using hxs)
      fun x _ => intMember_eq hb hys x.2.firstI
  have hany : (!cs.any fun x => decide (x.2.firstI ∈ ys)) =
      decide (∀ d ∈ cs.map fun x : Ptr × ListCell => x.2.firstI, d ∉ ys) := by
    rw [Bool.eq_iff_iff]
    simp only [decide_eq_true_eq, List.forall_mem_map]
    simp
  rw [nonOverlapSetsi, hfound, ← hany]
  rfl

theorem ListOf.eq_nil_iff {α : Type} {read : ListCell → α} {zs : List α}
    (ha : ListOf read h a zs) : a = NIL ↔ zs = [] := by
  obtain ⟨cs, hl, rfl⟩ := ha
  rw [hl.eq_nil_iff, List.map_eq_nil_iff]

theorem ListOf.length_eq {α : Type} {read : ListCell → α} {zs : List α}
    (ha : ListOf read h a zs) (hfuel : zs.length ≤ fuel) : length h fuel a = .ok zs.length := by
  obtain ⟨cs, hl, rfl⟩ := ha
  rw [PostgresV7.Nodes.length_eq hl (by simpa using hfuel), List.length_map]

/-- `same_seti` compares the lengths and looks in one direction. -/
theorem sameSeti_eq (ha : ListOf ListCell.firstI h a xs) (hb : ListOf ListCell.firstI h b ys)
    (hxs : xs.length ≤ fuel) (hys : ys.length ≤ fuel) :
    sameSeti h fuel a b = .ok (decide (xs.length = ys.length ∧ xs ⊆ ys)) := by
  by_cases hnil : xs = []
  · have ha' : a = NIL := ha.eq_nil_iff.2 hnil
    by_cases hb' : b = NIL
    · simp [sameSeti, ha', hb', hnil, hb.eq_nil_iff.1 hb', pure, Except.pure]
    · have hys' : ys ≠ [] := fun hys' => hb' (hb.eq_nil_iff.2 hys')
      have hlen : ¬0 = ys.length := fun hlen => hys' (List.length_eq_zero_iff.1 hlen.symm)
      simp [sameSeti, ha', hb', hnil, hlen, pure, Except.pure]
  · have ha' : a ≠ NIL := fun ha' => hnil (ha.eq_nil_iff.1 ha')
    by_cases hys' : ys = []
    · have hb' : b = NIL := hb.eq_nil_iff.2 hys'
      simp [sameSeti, ha', hb', hys', hnil, pure, Except.pure]
    · have hb' : b ≠ NIL := fun hb' => hys' (hb.eq_nil_iff.1 hb')
      by_cases hlen : xs.length = ys.length
      · simp only [sameSeti, missing_eq ha hb hxs hys, ha.length_eq hxs, hb.length_eq hys]
        simp [ha', hb', hlen, bind, Except.bind, pure, Except.pure]
      · simp [sameSeti, ha', hb', ha.length_eq hxs, hb.length_eq hys, hlen, bind, Except.bind, pure,
          Except.pure]

/-- Without duplicates one inclusion between lists of one length is enough. -/
theorem length_and_subset_iff (hx : xs.Nodup) (hy : ys.Nodup) :
    xs.length = ys.length ∧ xs ⊆ ys ↔ xs ⊆ ys ∧ ys ⊆ xs := by
  constructor
  · intro ⟨hlen, hsub⟩
    have hperm := (hx.subperm hsub).perm_of_length_le hlen.ge
    exact ⟨hsub, hperm.symm.subset⟩
  · intro ⟨hsub, hsub'⟩
    have hle := (hx.subperm hsub).length_le
    have hge := (hy.subperm hsub').length_le
    exact ⟨Nat.le_antisymm hle hge, hsub⟩

/-- On lists without duplicates `same_seti` decides equality of the two sets, which is
inclusion both ways, and it is symmetric. -/
theorem sameSeti_iff (ha : ListOf ListCell.firstI h a xs) (hb : ListOf ListCell.firstI h b ys)
    (hxs : xs.length ≤ fuel) (hys : ys.length ≤ fuel) (hx : xs.Nodup) (hy : ys.Nodup) :
    sameSeti h fuel a b = .ok (decide (xs.toFinset = ys.toFinset)) ∧
      (sameSeti h fuel a b = .ok true ↔
        isSubseti h fuel a b = .ok true ∧ isSubseti h fuel b a = .ok true) ∧
      sameSeti h fuel a b = sameSeti h fuel b a := by
  have hab := sameSeti_eq ha hb hxs hys
  have hba := sameSeti_eq hb ha hys hxs
  simp only [length_and_subset_iff hx hy] at hab
  simp only [length_and_subset_iff hy hx] at hba
  have hset : xs.toFinset = ys.toFinset ↔ xs ⊆ ys ∧ ys ⊆ xs := by
    rw [Finset.Subset.antisymm_iff]
    simp [Finset.subset_iff, List.subset_def]
  refine ⟨?_, ?_, ?_⟩
  · simp only [hab, hset]
  · rw [hab, isSubseti_eq ha hb hxs hys, isSubseti_eq hb ha hys hxs]
    simp
  · simp only [hab, hba, and_comm]

/-- One set in two orders. -/
def twoOrders : Memory := cellMemory [(10, ⟨1, 20⟩), (20, ⟨2, NIL⟩), (30, ⟨2, 40⟩), (40, ⟨1, NIL⟩)]

theorem twoOrders_up : ListOf ListCell.firstI twoOrders.heap 10 [1, 2] :=
  ⟨[(10, ⟨1, 20⟩), (20, ⟨2, NIL⟩)], ⟨rfl, by decide, rfl, rfl, by decide, rfl, rfl⟩, rfl⟩

theorem twoOrders_down : ListOf ListCell.firstI twoOrders.heap 30 [2, 1] :=
  ⟨[(30, ⟨2, 40⟩), (40, ⟨1, NIL⟩)], ⟨rfl, by decide, rfl, rfl, by decide, rfl, rfl⟩, rfl⟩

/-- The order of the elements does not matter to `same_seti`. -/
theorem sameSeti_twoOrders : sameSeti twoOrders.heap 2 10 30 = .ok true := by
  have hlen : ∀ l : List UInt32, l.length = 2 → l.length ≤ 2 := fun l hl => hl.le
  have hsame := (sameSeti_iff twoOrders_up twoOrders_down (hlen _ rfl) (hlen _ rfl) (by decide)
    (by decide)).1
  rw [hsame]
  rfl

/-! ## Difference and union -/

theorem added_mem_eq_ends (r : List UInt32) :
    added (fun _ z => decide (z ∈ ys)) r xs = ends r (xs.filter (· ∉ ys)) := by
  rw [ends, List.foldl_filter, added]
  apply congrFun (congrFun (congrArg List.foldl _) r) xs
  funext r z
  by_cases hz : z ∈ ys <;> simp [hz]

/-- `lappendi` on a list under construction. -/
theorem Built.lappendi {l : Ptr} {m' : Memory} {zs : List UInt32} (palloc : Palloc) (d : UInt32)
    (hb : Built ListCell.firstI m m' l zs) (hext : m.Extends m') (hfuel : zs.length ≤ fuel) :
    ∃ l'' m'', lappendi palloc m' fuel l d = .ok (l'', m'') ∧
      Built ListCell.firstI m m'' l'' (zs.take 1 ++ [d]) ∧ m.Extends m'' := by
  have happend := hb.lappend palloc readsElem_firstI d.toNat hext hfuel
  have hd : ListCell.firstI ⟨d.toNat, NIL⟩ = d := UInt32.ofNat_toNat
  rwa [hd] at happend

/-- With an empty second list the first one is copied; otherwise the elements that
are not in the second one are appended one after the other. -/
theorem setDifferencei_built (palloc : Palloc) (ha : ListOf ListCell.firstI m.heap a xs)
    (hb : ListOf ListCell.firstI m.heap b ys) (hys : ys ≠ []) (hfuel : xs.length + ys.length + 2 ≤ fuel) :
    ∃ l m', setDifferencei palloc m fuel a b = .ok (l, m') ∧
      Built ListCell.firstI m m' l (ends [] (xs.filter (· ∉ ys))) ∧ m.Extends m' := by
  have hb' : b ≠ NIL := fun hb' => hys (hb.eq_nil_iff.1 hb')
  rw [setDifferencei, if_neg hb', ← added_mem_eq_ends]
  apply forEach_addUnless _ ha (by omega) (by simp; omega) _ _ (built_nil m m)
    (Memory.Extends.refl m)
  · intro m' l' zs c _ hext _
    exact intMember_eq (hb.extends hext) (by omega) c.firstI
  · intro m' l' zs c hbuilt hext hzs
    exact hbuilt.lappendi palloc c.firstI hext hzs

/-- A copy of a list that is not empty. -/
theorem listCopy_built {α : Type} {read : ListCell → α} {zs : List α} (palloc : Palloc)
    (hread : ReadsElem read) (ha : ListOf read m.heap a zs) (hzs : zs ≠ [])
    (hfuel : zs.length ≤ fuel) :
    ∃ l m', listCopy palloc m fuel a = .ok (l, m') ∧ Built read m m' l zs ∧ m.Extends m' := by
  obtain ⟨cs, hl, rfl⟩ := ha
  cases cs with
  | nil => exact absurd rfl hzs
  | cons x cs => exact listCopy_cons palloc hread hl (Nat.le_of_succ_le (by simpa using hfuel))

/-- The elements that are not in the result yet are appended one after the other. -/
theorem lispUnioni_built (palloc : Palloc) (ha : ListOf ListCell.firstI m.heap a xs)
    (hb : ListOf ListCell.firstI m.heap b ys) (hxs : xs ≠ [])
    (hfuel : xs.length + ys.length + 2 ≤ fuel) :
    ∃ l m', lispUnioni palloc m fuel a b = .ok (l, m') ∧
      Built ListCell.firstI m m' l (added (fun zs z => decide (z ∈ zs)) xs ys) ∧ m.Extends m' := by
  obtain ⟨l₁, m₁, hcopy, hbuilt₁, hext₁⟩ :=
    listCopy_built palloc readsElem_firstI ha hxs (by omega : xs.length ≤ fuel)
  rw [lispUnioni, hcopy]
  apply forEach_addUnless _ hb (by omega) (by omega) _ _ hbuilt₁ hext₁
  · intro m' l' zs c hbuilt _ hzs
    exact intMember_eq hbuilt.listOf hzs c.firstI
  · intro m' l' zs c hbuilt hext hzs
    exact hbuilt.lappendi palloc c.firstI hext hzs

/-- Nothing is appended when everything is there. -/
theorem added_mem_of_subset (h : ys ⊆ xs) :
    added (fun zs z => decide (z ∈ zs)) xs ys = xs := by
  induction ys with
  | nil => rfl
  | cons y ys ih =>
    have hy : y ∈ xs := h (by simp)
    rw [added, List.foldl_cons, if_pos (by simpa using hy)]
    exact ih fun z hz => h (List.mem_cons_of_mem y hz)

/-- With one element before, one more value is appended once. -/
theorem added_mem_singleton {x z : UInt32} (h : ∀ y ∈ ys, y = x ∨ y = z) :
    added (fun zs z => decide (z ∈ zs)) [x] ys =
      [x] ++ (ys.filter (· ∉ [x])).eraseDups := by
  induction ys with
  | nil => rfl
  | cons y ys ih =>
    have htail := ih fun w hw => h w (List.mem_cons_of_mem y hw)
    by_cases hy : y = x
    · rw [added, List.foldl_cons, if_pos (by simpa using hy), List.filter_cons_of_neg (by simp [hy])]
      exact htail
    · obtain rfl : y = z := (h y (by simp)).resolve_left hy
      have hall : ys ⊆ [x, y] := by
        intro w hw
        simpa using h w (List.mem_cons_of_mem y hw)
      have hnone : ((ys.filter (· ∉ [x])).filter fun w => !w == y) = [] := by
        rw [List.filter_eq_nil_iff]
        intro w hw
        have hw' := List.mem_filter.1 hw
        have hwx : w ≠ x := by simpa using hw'.2
        simp [(h w (List.mem_cons_of_mem y hw'.1)).resolve_left hwx]
      rw [added, List.foldl_cons, if_neg (by simpa using hy), List.filter_cons_of_pos (by simpa using hy),
        List.eraseDups_cons, hnone]
      exact added_mem_of_subset hall

/-- What the union loop makes is the union exactly when there is nothing to add, or
there is one element before and one value to add. -/
theorem added_mem_eq_union_iff (hxs : xs ≠ []) :
    added (fun zs z => decide (z ∈ zs)) xs ys = xs ++ (ys.filter (· ∉ xs)).eraseDups ↔
      ys ⊆ xs ∨ xs.length = 1 ∧ ∃ z, ∀ y ∈ ys, y ∈ xs ∨ y = z := by
  constructor
  · intro heq
    by_cases hsub : ys ⊆ xs
    · exact .inl hsub
    right
    have hle := length_added_le (fun zs z => decide (z ∈ zs)) xs ys
    have hpos : 0 < xs.length := List.length_pos_iff.2 hxs
    obtain ⟨y, hy, hyx⟩ : ∃ y ∈ ys, y ∉ xs := by simpa [List.subset_def] using hsub
    have hmem : y ∈ (ys.filter (· ∉ xs)).eraseDups := by simp [hy, hyx]
    have hnew := List.length_pos_of_mem hmem
    rw [heq, List.length_append] at hle
    obtain ⟨z, hz⟩ := List.length_eq_one_iff.1 (by omega :
      (ys.filter (· ∉ xs)).eraseDups.length = 1)
    refine ⟨by omega, z, fun w hw => ?_⟩
    by_cases hwx : w ∈ xs
    · exact .inl hwx
    · have hw' : w ∈ (ys.filter (· ∉ xs)).eraseDups := by simp [hw, hwx]
      rw [hz] at hw'
      exact .inr (List.mem_singleton.1 hw')
  · intro hcond
    rcases hcond with hsub | ⟨hone, z, hz⟩
    · have hnone : ys.filter (· ∉ xs) = [] := by
        rw [List.filter_eq_nil_iff]
        intro y hy
        simpa using hsub hy
      rw [added_mem_of_subset hsub, hnone]
      simp
    · obtain ⟨x, rfl⟩ := List.length_eq_one_iff.1 hone
      apply added_mem_singleton
      intro y hy
      simpa using hz y hy

/-- A result denotes the integers `zs`, and nothing that was there has changed. -/
def YieldsInts (m : Memory) (r : Except Fault (Ptr × Memory)) (zs : List UInt32) : Prop :=
  ∃ l m', r = .ok (l, m') ∧ ListOf ListCell.firstI m'.heap l zs ∧ m.Extends m'

/-- What a result that changes nothing denotes is determined. -/
theorem yieldsInts_iff {r : Except Fault (Ptr × Memory)} {zs ws : List UInt32}
    (h : ∃ l m', r = .ok (l, m') ∧ Built ListCell.firstI m m' l zs ∧ m.Extends m') :
    YieldsInts m r ws ↔ zs = ws := by
  obtain ⟨l, m', rfl, hbuilt, hext⟩ := h
  constructor
  · intro ⟨l', m'', hr, hlist, _⟩
    cases hr
    exact hbuilt.listOf.unique hlist
  · rintro rfl
    exact ⟨l, m', rfl, hbuilt.listOf, hext⟩

/-- A routine that first reads the first cell of `NIL` does not return. -/
theorem not_yieldsInts_of_copy_nil {r : Except Fault (Ptr × Memory)} {zs : List UInt32}
    (h : r = .error .badPointer) : ¬YieldsInts m r zs := by
  intro ⟨l, m', hr, _⟩
  cases h.symm.trans hr

/-- When the routines on integer lists do what they are for: `list_copy` copies exactly
the lists that are not empty; `set_differencei` copies likewise when there is
nothing to take away, and otherwise keeps the elements that stay exactly when
there are at most two; `lisp_unioni` is the union exactly when the first list is not
empty and there is nothing to add, or it has one element and there is one value
to add. -/
theorem integer_routines_iff (palloc : Palloc) (ha : ListOf ListCell.firstI m.heap a xs)
    (hb : ListOf ListCell.firstI m.heap b ys) (hfuel : xs.length + ys.length + 2 ≤ fuel) :
    ((∃ l m', listCopy palloc m fuel a = .ok (l, m') ∧ Built ListCell.firstI m m' l xs ∧
      m.Extends m') ↔ xs ≠ []) ∧
    (YieldsInts m (setDifferencei palloc m fuel a b) (xs.filter (· ∉ ys)) ↔
      if ys = [] then xs ≠ [] else (xs.filter (· ∉ ys)).length ≤ 2) ∧
    (YieldsInts m (lispUnioni palloc m fuel a b) (xs ++ (ys.filter (· ∉ xs)).eraseDups) ↔
      xs ≠ [] ∧ (ys ⊆ xs ∨ xs.length = 1 ∧ ∃ z, ∀ y ∈ ys, y ∈ xs ∨ y = z)) := by
  have hcopy : xs ≠ [] → ∃ l m', listCopy palloc m fuel a = .ok (l, m') ∧
      Built ListCell.firstI m m' l xs ∧ m.Extends m' := fun hxs =>
    listCopy_built palloc readsElem_firstI ha hxs (by omega)
  have hnil : xs = [] → listCopy palloc m fuel a = .error .badPointer := by
    intro hxs
    rw [ha.eq_nil_iff.2 hxs]
    exact listCopy_nil palloc m fuel
  refine ⟨⟨fun ⟨l, m', hrun, _⟩ hxs => ?_, hcopy⟩, ?_, ?_⟩
  · cases (hnil hxs).symm.trans hrun
  · by_cases hys : ys = []
    · have hrun : setDifferencei palloc m fuel a b = listCopy palloc m fuel a := by
        rw [setDifferencei, if_pos (hb.eq_nil_iff.2 hys)]
      rw [if_pos hys, hrun]
      by_cases hxs : xs = []
      · exact iff_of_false (not_yieldsInts_of_copy_nil (hnil hxs)) (fun hne => hne hxs)
      · rw [yieldsInts_iff (hcopy hxs)]
        simp [hys, hxs]
    · rw [if_neg hys, yieldsInts_iff (setDifferencei_built palloc ha hb hys hfuel),
        ends_nil_eq_iff]
  · by_cases hxs : xs = []
    · have hrun : lispUnioni palloc m fuel a b = .error .badPointer := by
        rw [lispUnioni, hnil hxs]
        rfl
      exact iff_of_false (not_yieldsInts_of_copy_nil hrun) (fun hne => hne.1 hxs)
    · rw [yieldsInts_iff (lispUnioni_built palloc ha hb hxs hfuel), added_mem_eq_union_iff hxs]
      simp [hxs]

/-- A list of three and a list of one. -/
def threeAndOne : Memory :=
  cellMemory [(10, ⟨1, 20⟩), (20, ⟨2, 30⟩), (30, ⟨3, NIL⟩), (40, ⟨4, NIL⟩)]

theorem threeAndOne_three : ListOf ListCell.firstI threeAndOne.heap 10 [1, 2, 3] :=
  ⟨[(10, ⟨1, 20⟩), (20, ⟨2, 30⟩), (30, ⟨3, NIL⟩)],
    ⟨rfl, by decide, rfl, rfl, by decide, rfl, rfl, by decide, rfl, rfl⟩, rfl⟩

theorem threeAndOne_one : ListOf ListCell.firstI threeAndOne.heap 40 [4] :=
  ⟨[(40, ⟨4, NIL⟩)], ⟨rfl, by decide, rfl, rfl⟩, rfl⟩

/-- One element and up to two to keep or to add are handled. -/
theorem integer_routines_one :
    YieldsInts threeAndOne (setDifferencei atLimit threeAndOne 6 40 10) [4] ∧
      YieldsInts threeAndOne (lispUnioni atLimit threeAndOne 6 40 40) [4] := by
  have hfuel : [(4 : UInt32)].length + [(1 : UInt32), 2, 3].length + 2 ≤ 6 := by decide
  have hfuel' : [(4 : UInt32)].length + [(4 : UInt32)].length + 2 ≤ 6 := by decide
  have hdiff := (integer_routines_iff atLimit threeAndOne_one threeAndOne_three hfuel).2.1
  have hunion := (integer_routines_iff atLimit threeAndOne_one threeAndOne_one hfuel').2.2
  exact ⟨hdiff.2 (by decide), hunion.2 ⟨by decide, .inl (List.Subset.refl _)⟩⟩

/-- `list_copy` fails on `NIL`; of three elements to keep, and of three with one to
add, only the first and the last are left. -/
theorem integer_routines_lose :
    listCopy atLimit threeAndOne 6 NIL = .error .badPointer ∧
      ¬YieldsInts threeAndOne (setDifferencei atLimit threeAndOne 6 10 40) [1, 2, 3] ∧
      ¬YieldsInts threeAndOne (lispUnioni atLimit threeAndOne 6 10 40) [1, 2, 3, 4] := by
  have hfuel : [(1 : UInt32), 2, 3].length + [(4 : UInt32)].length + 2 ≤ 6 := by decide
  have hdiff := setDifferencei_built atLimit threeAndOne_three threeAndOne_one (by decide) hfuel
  have hunion := lispUnioni_built atLimit threeAndOne_three threeAndOne_one (by decide) hfuel
  refine ⟨listCopy_nil atLimit threeAndOne 6, ?_, ?_⟩
  · rw [yieldsInts_iff hdiff]
    decide
  · rw [yieldsInts_iff hunion]
    decide

end PostgresV7.Nodes
