import PostgresV7.Nodes.ListSets
import PostgresV7.Nodes.Equality

/-!
# Node lists as sets modulo `equal` (`list.c`)

`member` finds nothing, so difference and union append every element they look at,
and appending keeps the first element and the last one.
-/

namespace PostgresV7.Nodes

variable {h : Heap} {m : Memory} {a b : Ptr} {fuel : Nat} {xs ys : List Ptr}

/-- `equal` returns `true`. -/
def EqualTo (h : Heap) (x y : Ptr) : Prop := ∃ fuel, equal h fuel x y = .ok true

theorem equalTo_self (h : Heap) (x : Ptr) : EqualTo h x x := ⟨0, equal_self h 0 x⟩

open Classical in
/-- The elements of a sequence that have no equal before them: neither in `before` nor
earlier in the sequence. -/
noncomputable def withoutEqual (h : Heap) : List Ptr → List Ptr → List Ptr
  | _, [] => []
  | before, y :: ys =>
    if ∃ z ∈ before, EqualTo h y z then withoutEqual h (before ++ [y]) ys
    else y :: withoutEqual h (before ++ [y]) ys

theorem member_iff (datum list : Ptr) :
    (member datum list = true ↔ ∃ y ∈ ys, EqualTo h datum y) ↔
      ∀ y ∈ ys, ¬EqualTo h datum y := by
  simp [member]

theorem added_never_eq_ends (r zs : List Ptr) : added (fun _ _ => false) r zs = ends r zs := rfl

/-- The difference with a list that is not empty is what is left of the first list
when its elements are appended one after the other. -/
theorem setDifference_built (palloc : Palloc) (ha : ListOf ListCell.first m.heap a xs)
    (hb : ListOf ListCell.first m.heap b ys) (hys : ys ≠ []) (hfuel : xs.length + ys.length + 2 ≤ fuel) :
    ∃ l m', setDifference palloc m fuel a b = .ok (l, m') ∧
      Built ListCell.first m m' l (ends [] xs) ∧ m.Extends m' := by
  have hb' : b ≠ NIL := fun hb' => hys (hb.eq_nil_iff.1 hb')
  rw [setDifference, if_neg hb', ← added_never_eq_ends]
  apply forEach_addUnless _ ha (by omega) (by simp; omega) _ _ (built_nil m m)
    (Memory.Extends.refl m)
  · intro m' l' zs c _ _ _
    rfl
  · intro m' l' zs c hbuilt hext hzs
    exact hbuilt.lappend palloc readsElem_first c.first hext hzs

/-- The union appends the elements of the second list to a copy of the first. -/
theorem lispUnion_built (palloc : Palloc) (ha : ListOf ListCell.first m.heap a xs)
    (hb : ListOf ListCell.first m.heap b ys) (hxs : xs ≠ [])
    (hfuel : xs.length + ys.length + 2 ≤ fuel) :
    ∃ l m', lispUnion palloc m fuel a b = .ok (l, m') ∧
      Built ListCell.first m m' l (ends xs ys) ∧ m.Extends m' := by
  obtain ⟨l₁, m₁, hcopy, hbuilt₁, hext₁⟩ :=
    listCopy_built palloc readsElem_first ha hxs (by omega : xs.length ≤ fuel)
  rw [lispUnion, hcopy, ← added_never_eq_ends]
  apply forEach_addUnless _ hb (by omega) (by omega) _ _ hbuilt₁ hext₁
  · intro m' l' zs c _ _ _
    rfl
  · intro m' l' zs c hbuilt hext hzs
    exact hbuilt.lappend palloc readsElem_first c.first hext hzs

theorem mem_ends_nil {z : Ptr} (hxs : xs ≠ []) :
    z ∈ ends [] xs ↔ z = xs.head hxs ∨ z = xs.getLast hxs := by
  rcases List.eq_nil_or_concat xs with rfl | ⟨ws, w, rfl⟩
  · exact absurd rfl hxs
  · simp only [List.concat_eq_append, ends_concat, List.nil_append]
    cases ws <;> simp

/-- A list of two elements is its first and its last. -/
theorem pair_eq_cons_iff {α : Type} {x v : α} {r : List α} :
    [x, v] = x :: r ↔ (x :: r).length = 2 ∧ (x :: r).getLast? = some v := by
  match r with
  | [] => simp
  | [w] => simp [eq_comm]
  | w :: w' :: r => simp

/-- The union loop makes `xs` with `ws` behind exactly when these are two elements, the
second being the last that was appended. -/
theorem ends_eq_append_iff {ws : List Ptr} (hxs : xs ≠ []) (hys : ys ≠ []) :
    ends xs ys = xs ++ ws ↔
      (xs ++ ws).length = 2 ∧ (xs ++ ws).getLast? = some (ys.getLast hys) := by
  rcases List.eq_nil_or_concat ys with rfl | ⟨vs, v, rfl⟩
  · exact absurd rfl hys
  · cases xs with
    | nil => exact absurd rfl hxs
    | cons x xs =>
      simp only [List.concat_eq_append, ends_concat, List.getLast_append_singleton]
      exact pair_eq_cons_iff

/-- When the routines on node lists do what they are for. `member` is right exactly
where no element is equal. `set_difference` has exactly the elements without an
equal in `b` exactly when these are the first and the last element of `a`.
`lisp_union` is the union exactly when the union has two elements, the second being
the node `b` ends with. -/
theorem node_routines_iff (palloc : Palloc) (ha : ListOf ListCell.first m.heap a xs)
    (hb : ListOf ListCell.first m.heap b ys) (hxs : xs ≠ []) (hys : ys ≠ [])
    (hfuel : xs.length + ys.length + 2 ≤ fuel) :
    (∀ x, (member x b = true ↔ ∃ y ∈ ys, EqualTo m.heap x y) ↔
      ∀ y ∈ ys, ¬EqualTo m.heap x y) ∧
    ((∃ zs, Yields ListCell.first (setDifference palloc m fuel a b) zs ∧
        ∀ z, z ∈ zs ↔ z ∈ xs ∧ ∀ y ∈ ys, ¬EqualTo m.heap z y) ↔
      ∀ x ∈ xs, (x = xs.head hxs ∨ x = xs.getLast hxs) ↔ ∀ y ∈ ys, ¬EqualTo m.heap x y) ∧
    (Yields ListCell.first (lispUnion palloc m fuel a b) (xs ++ withoutEqual m.heap xs ys) ↔
      (xs ++ withoutEqual m.heap xs ys).length = 2 ∧
        (xs ++ withoutEqual m.heap xs ys).getLast? = some (ys.getLast hys)) := by
  refine ⟨fun x => member_iff x b, ?_, ?_⟩
  · obtain ⟨l, m', hrun, hbuilt, -⟩ := setDifference_built palloc ha hb hys hfuel
    have hyields : Yields ListCell.first (setDifference palloc m fuel a b) (ends [] xs) :=
      ⟨l, m', hrun, hbuilt.listOf⟩
    constructor
    · intro ⟨zs, hzs, hmem⟩ x hx
      obtain rfl := hyields.iff_eq.1 hzs
      rw [← mem_ends_nil hxs, hmem x]
      simp [hx]
    · intro hcond
      refine ⟨ends [] xs, hyields, fun z => ?_⟩
      constructor
      · intro hz
        have hends := (mem_ends_nil hxs).1 hz
        have hzx : z ∈ xs := by
          rcases hends with rfl | rfl
          · exact List.head_mem hxs
          · exact List.getLast_mem hxs
        exact ⟨hzx, (hcond z hzx).1 hends⟩
      · intro ⟨hzx, hnone⟩
        exact (mem_ends_nil hxs).2 ((hcond z hzx).2 hnone)
  · obtain ⟨l, m', hrun, hbuilt, -⟩ := lispUnion_built palloc ha hb hxs hfuel
    have hyields : Yields ListCell.first (lispUnion palloc m fuel a b) (ends xs ys) :=
      ⟨l, m', hrun, hbuilt.listOf⟩
    rw [hyields.iff_eq, ends_eq_append_iff hxs hys]

/-- Lists of one node each: an integer node and another one. -/
def twoNodeLists : Memory :=
  ((cellMemory [(10, ⟨100, NIL⟩), (20, ⟨200, NIL⟩)]).write 100 ⟨.integer, 1⟩).write 200
    ⟨.integer, 2⟩

theorem twoNodeLists_one : ListOf ListCell.first twoNodeLists.heap 10 [100] :=
  ⟨[(10, ⟨100, NIL⟩)], ⟨rfl, by decide, rfl, rfl⟩, rfl⟩

theorem twoNodeLists_two : ListOf ListCell.first twoNodeLists.heap 20 [200] :=
  ⟨[(20, ⟨200, NIL⟩)], ⟨rfl, by decide, rfl, rfl⟩, rfl⟩

theorem twoNodeLists_differ : ¬EqualTo twoNodeLists.heap 100 200 ∧
    ¬EqualTo twoNodeLists.heap 200 100 := by
  constructor
  · intro ⟨fuel, hequal⟩
    cases fuel <;> cases hequal
  · intro ⟨fuel, hequal⟩
    cases fuel <;> cases hequal

/-- Lists of one node each, with nothing in common. -/
theorem node_routines_apart :
    (∃ zs, Yields ListCell.first (setDifference atLimit twoNodeLists 4 10 20) zs ∧
      ∀ z, z ∈ zs ↔ z ∈ [100] ∧ ∀ y ∈ [200], ¬EqualTo twoNodeLists.heap z y) ∧
    Yields ListCell.first (lispUnion atLimit twoNodeLists 4 10 20)
      ([100] ++ withoutEqual twoNodeLists.heap [100] [200]) := by
  have hfuel : [(100 : Ptr)].length + [(200 : Ptr)].length + 2 ≤ 4 := by decide
  obtain ⟨-, hdiff, hunion⟩ := node_routines_iff atLimit twoNodeLists_one twoNodeLists_two
    (by decide) (by decide) hfuel
  exact ⟨hdiff.2 (by simp [twoNodeLists_differ.1]),
    hunion.2 (by simp [withoutEqual, twoNodeLists_differ.2])⟩

/-- A list against itself: nothing is found, nothing is taken away, and the one node
is there twice. -/
theorem node_routines_same :
    ¬(member 100 10 = true ↔ ∃ y ∈ [100], EqualTo twoNodeLists.heap 100 y) ∧
    (¬∃ zs, Yields ListCell.first (setDifference atLimit twoNodeLists 4 10 10) zs ∧
      ∀ z, z ∈ zs ↔ z ∈ [100] ∧ ∀ y ∈ [100], ¬EqualTo twoNodeLists.heap z y) ∧
    ¬Yields ListCell.first (lispUnion atLimit twoNodeLists 4 10 10)
      ([100] ++ withoutEqual twoNodeLists.heap [100] [100]) := by
  have hfuel : [(100 : Ptr)].length + [(100 : Ptr)].length + 2 ≤ 4 := by decide
  have hself := equalTo_self twoNodeLists.heap 100
  refine ⟨by simp [member, hself], ?_, ?_⟩
  · obtain ⟨l, m', hrun, hbuilt, -⟩ :=
      setDifference_built atLimit twoNodeLists_one twoNodeLists_one (by decide) hfuel
    intro ⟨zs, hzs, hmem⟩
    have hyields : Yields ListCell.first (setDifference atLimit twoNodeLists 4 10 10) [100] :=
      ⟨l, m', hrun, hbuilt.listOf⟩
    obtain rfl := hyields.iff_eq.1 hzs
    have hnone := ((hmem 100).1 (by simp)).2 100 (by simp)
    exact hnone hself
  · obtain ⟨l, m', hrun, hbuilt, -⟩ :=
      lispUnion_built atLimit twoNodeLists_one twoNodeLists_one (by decide) hfuel
    have hyields : Yields ListCell.first (lispUnion atLimit twoNodeLists 4 10 10) [100, 100] :=
      ⟨l, m', hrun, hbuilt.listOf⟩
    rw [hyields.iff_eq]
    simp [withoutEqual, hself]

end PostgresV7.Nodes
