import PostgresV7.Nodes.ListContents
import Mathlib.Data.List.TakeDrop

/-!
# Appending to lists and building them (`list.c`)

`nconc` writes the link into the first cell whatever its length, so everything
between the first cell and the new link is lost. `make_list` never learns where
its list ends and returns its last cell.
-/

namespace PostgresV7.Nodes

variable {m : Memory} {l l₁ l₂ : Ptr} {cs cs₁ cs₂ : List (Ptr × ListCell)} {fuel : Nat}

/-- What a result of a list routine denotes, if it denotes `xs` at all. -/
def Yields {α : Type} (read : ListCell → α) (r : Except Fault (Ptr × Memory)) (xs : List α) : Prop :=
  ∃ l m, r = .ok (l, m) ∧ ListOf read m.heap l xs

/-- A result denotes one sequence. -/
theorem Yields.iff_eq {α : Type} {read : ListCell → α} {r : Except Fault (Ptr × Memory)}
    {xs ys : List α} (hx : Yields read r xs) : Yields read r ys ↔ xs = ys := by
  constructor
  · intro hy
    obtain ⟨l, m, rfl, hl⟩ := hx
    obtain ⟨l', m', hr, hl'⟩ := hy
    cases hr
    exact hl.unique hl'
  · intro heq
    rwa [← heq]

theorem take_one_append_eq_iff {α : Type} {xs ys : List α} :
    xs.take 1 ++ ys = xs ++ ys ↔ xs.length ≤ 1 := by
  rw [List.append_left_inj, List.take_eq_self_iff]

/-! ## Appending -/

/-- `nconc` yields what is in the first cell and then the second list. -/
theorem nconc_yields (h₁ : IsList m.heap l₁ cs₁) (h₂ : IsList m.heap l₂ cs₂) (hds : cs₂ ≠ [])
    (hshare : ∀ x ∈ cs₁, ∀ y ∈ cs₂, x.1 ≠ y.1) (hfuel : cs₁.length ≤ fuel) :
    Yields ListCell.elem (nconc m fuel l₁ l₂)
      ((cs₁.map fun x => x.2.elem).take 1 ++ cs₂.map fun x => x.2.elem) := by
  cases cs₁ with
  | nil =>
    have hnil : l₁ = NIL := h₁
    refine ⟨l₂, m, ?_, cs₂, h₂, by simp⟩
    simp [nconc, hnil, pure, Except.pure]
  | cons x cs₁ =>
    obtain ⟨m', hrun, -, hl⟩ := nconc_cons h₁ h₂ hds
      (fun y hy => (hshare x (by simp) y hy).symm) hfuel
    exact ⟨l₁, m', hrun, _, hl, by simp⟩

theorem nconc_yields_append_iff (h₁ : IsList m.heap l₁ cs₁) (h₂ : IsList m.heap l₂ cs₂)
    (hshare : ∀ x ∈ cs₁, ∀ y ∈ cs₂, x.1 ≠ y.1) (hfuel : cs₁.length ≤ fuel) :
    Yields ListCell.elem (nconc m fuel l₁ l₂)
        ((cs₁.map fun x => x.2.elem) ++ cs₂.map fun x => x.2.elem) ↔
      cs₁.length ≤ 1 ∨ cs₂ = [] := by
  by_cases hds : cs₂ = []
  · have hnil : l₂ = NIL := h₂.eq_nil_iff.2 hds
    have hrun : nconc m fuel l₁ l₂ = .ok (l₁, m) := by
      by_cases hl₁ : l₁ = NIL <;> simp [nconc, hl₁, hnil, pure, Except.pure]
    simp only [hds, List.map_nil, List.append_nil, or_true, iff_true]
    exact ⟨l₁, m, hrun, cs₁, h₁, rfl⟩
  · rw [(nconc_yields h₁ h₂ hds hshare hfuel).iff_eq, take_one_append_eq_iff]
    simp [hds]

theorem lappend_yields {α : Type} {read : ListCell → α} (palloc : Palloc) (hread : ReadsElem read)
    (d : Ptr) (hl : IsList m.heap l cs) (hfuel : cs.length ≤ fuel) :
    Yields read (lappend palloc m fuel l d)
      ((cs.map fun x => read x.2).take 1 ++ [read ⟨d, NIL⟩]) := by
  obtain ⟨l', m', ds, hrun, hlist, hds, -⟩ := lappend_spec palloc hread d hl hfuel
  exact ⟨l', m', hrun, ds, hlist, hds⟩

/-- Appending puts an element at the end exactly when there is at most one before
it. -/
theorem lappend_yields_iff {α : Type} {read : ListCell → α} (palloc : Palloc)
    (hread : ReadsElem read) (d : Ptr) (hl : IsList m.heap l cs) (hfuel : cs.length ≤ fuel) :
    Yields read (lappend palloc m fuel l d) ((cs.map fun x => read x.2) ++ [read ⟨d, NIL⟩]) ↔
      cs.length ≤ 1 := by
  rw [(lappend_yields palloc hread d hl hfuel).iff_eq, take_one_append_eq_iff,
    List.length_map]

/-! ## Building by repeated `lappend` -/

/-- Appending elements one after the other. -/
def lappendAll (palloc : Palloc) (fuel : Nat) (m : Memory) (l : Ptr) :
    List Ptr → Except Fault (Ptr × Memory)
  | [] => .ok (l, m)
  | x :: xs => do
    let (l, m) ← lappend palloc m fuel l x
    lappendAll palloc fuel m l xs

/-- What becomes of `r` when elements are appended one after the other. -/
def ends {α : Type} (r xs : List α) : List α := xs.foldl (fun r x => r.take 1 ++ [x]) r

section Ends

variable {α : Type} {r xs : List α}

/-- Only the first element and the last one are left. -/
theorem ends_concat (r xs : List α) (x : α) : ends r (xs ++ [x]) = (r ++ xs).take 1 ++ [x] := by
  induction xs generalizing r with
  | nil => simp [ends]
  | cons y xs ih =>
    have hfirst : ((r.take 1 ++ [y]) ++ xs).take 1 = (r ++ y :: xs).take 1 := by
      cases r <;> simp
    rw [← hfirst]
    exact ih (r.take 1 ++ [y])

theorem ends_nil_eq_iff : ends [] xs = xs ↔ xs.length ≤ 2 := by
  rcases List.eq_nil_or_concat xs with rfl | ⟨ys, x, rfl⟩
  · simp [ends]
  · rw [List.concat_eq_append, ends_concat, List.nil_append, take_one_append_eq_iff]
    simp

end Ends

theorem lappendAll_built {α : Type} {read : ListCell → α} {m₀ : Memory} {r : List α}
    (palloc : Palloc) (hread : ReadsElem read) (xs : List Ptr) (hb : Built read m₀ m l r)
    (hext : m₀.Extends m) (hfuel : r.length + xs.length ≤ fuel) :
    ∃ l' m', lappendAll palloc fuel m l xs = .ok (l', m') ∧
      Built read m₀ m' l' (ends r (xs.map fun x => read ⟨x, NIL⟩)) := by
  induction xs generalizing m l r with
  | nil => exact ⟨l, m, rfl, hb⟩
  | cons x xs ih =>
    rw [List.length_cons] at hfuel
    have hr : r.length ≤ fuel := by omega
    obtain ⟨l₁, m₁, hrun, hb₁, hext₁⟩ := hb.lappend palloc hread x hext hr
    have hlen : (r.take 1 ++ [read ⟨x, NIL⟩]).length + xs.length ≤ fuel := by
      have htake := List.length_take_le 1 r
      have htake' := List.length_take_le' 1 r
      simp only [List.length_append, List.length_singleton]
      omega
    obtain ⟨l', m', hrest, hb'⟩ := ih hb₁ hext₁ hlen
    refine ⟨l', m', ?_, hb'⟩
    simp [lappendAll, hrun, hrest, bind, Except.bind]

/-- A list built by repeated `lappend` has its elements in order exactly when there
are no more than two. -/
theorem lappendAll_yields_iff (palloc : Palloc) {xs : List Ptr} (hfuel : xs.length ≤ fuel) :
    Yields ListCell.first (lappendAll palloc fuel m NIL xs) xs ↔ xs.length ≤ 2 := by
  obtain ⟨l, m', hrun, hb⟩ := lappendAll_built palloc readsElem_first xs (built_nil m m)
    (Memory.Extends.refl m) (by simpa using hfuel)
  have hmap : (xs.map fun x => ListCell.first ⟨x, NIL⟩) = xs := List.map_id xs
  rw [hmap] at hb
  have hyields : Yields ListCell.first (lappendAll palloc fuel m NIL xs) (ends [] xs) :=
    ⟨l, m', hrun, hb.listOf⟩
  rw [hyields.iff_eq, ends_nil_eq_iff]

/-- When the appending routines do what they are for: `nconc` concatenates exactly
when the first list has at most one cell or the second one none, `lappend` and
`lappendi` append exactly to lists of at most one cell, and a list built by
repeated `lappend` is right exactly up to two elements. -/
theorem append_routines_iff (palloc : Palloc) (h₁ : IsList m.heap l₁ cs₁)
    (h₂ : IsList m.heap l₂ cs₂) (hshare : ∀ x ∈ cs₁, ∀ y ∈ cs₂, x.1 ≠ y.1)
    (hfuel : cs₁.length ≤ fuel) :
    (Yields ListCell.elem (nconc m fuel l₁ l₂)
        ((cs₁.map fun x => x.2.elem) ++ cs₂.map fun x => x.2.elem) ↔
      cs₁.length ≤ 1 ∨ cs₂ = []) ∧
    (∀ d, Yields ListCell.first (lappend palloc m fuel l₁ d)
        ((cs₁.map fun x => x.2.first) ++ [d]) ↔ cs₁.length ≤ 1) ∧
    (∀ d, Yields ListCell.firstI (lappendi palloc m fuel l₁ d)
        ((cs₁.map fun x => x.2.firstI) ++ [d]) ↔ cs₁.length ≤ 1) ∧
    ∀ xs : List Ptr, xs.length ≤ fuel →
      (Yields ListCell.first (lappendAll palloc fuel m NIL xs) xs ↔ xs.length ≤ 2) := by
  refine ⟨nconc_yields_append_iff h₁ h₂ hshare hfuel, ?_, ?_, ?_⟩
  · intro d
    exact lappend_yields_iff palloc readsElem_first d h₁ hfuel
  · intro d
    have hd : ListCell.firstI ⟨d.toNat, NIL⟩ = d := UInt32.ofNat_toNat
    have happend := lappend_yields_iff palloc readsElem_firstI d.toNat h₁ hfuel
    rwa [hd] at happend
  · intro xs hxs
    exact lappendAll_yields_iff palloc hxs

/-- Addresses from the limit of the memory on. -/
def atLimit : Palloc where
  address m := m.limit + 1
  address_ne_nil m := Nat.succ_ne_zero m.limit
  address_unused m := m.unused _ (Nat.le_succ m.limit)

/-- Memory with the given cells. -/
def cellMemory (cs : List (Ptr × ListCell)) : Memory :=
  cs.foldl (fun m x => m.write x.1 ⟨.list, x.2⟩) ⟨⟨fun _ => none, fun _ => []⟩, 0, fun _ _ => rfl⟩

/-- A list of two cells and a list of one. -/
def twoAndOne : Memory := cellMemory [(10, ⟨1, 20⟩), (20, ⟨2, NIL⟩), (30, ⟨3, NIL⟩)]

theorem twoAndOne_two : IsList twoAndOne.heap 10 [(10, ⟨1, 20⟩), (20, ⟨2, NIL⟩)] :=
  ⟨rfl, by decide, rfl, rfl, by decide, rfl, rfl⟩

theorem twoAndOne_one : IsList twoAndOne.heap 30 [(30, ⟨3, NIL⟩)] := ⟨rfl, by decide, rfl, rfl⟩

/-- A list of one cell takes what is appended to it. -/
theorem append_routines_one :
    Yields ListCell.elem (nconc twoAndOne 2 30 10) [3, 1, 2] ∧
      Yields ListCell.first (lappend atLimit twoAndOne 2 30 7) [3, 7] ∧
      Yields ListCell.first (lappendAll atLimit 2 twoAndOne NIL [5, 6]) [5, 6] := by
  have hshort : [((30 : Ptr), (⟨3, NIL⟩ : ListCell))].length ≤ 2 := by decide
  obtain ⟨hnconc, happend, -, hbuild⟩ :=
    append_routines_iff atLimit twoAndOne_one twoAndOne_two (by decide) hshort
  exact ⟨hnconc.2 (by decide), (happend 7).2 (by decide), (hbuild [5, 6] (by decide)).2 (by decide)⟩

/-- Concatenating to a list of two cells loses the second one, and so does appending. -/
theorem append_routines_lose :
    ¬Yields ListCell.elem (nconc twoAndOne 2 10 30) [1, 2, 3] ∧
      ¬Yields ListCell.first (lappend atLimit twoAndOne 2 10 7) [1, 2, 7] ∧
      ¬Yields ListCell.firstI (lappendi atLimit twoAndOne 2 10 7) [1, 2, 7] ∧
      ¬Yields ListCell.first (lappendAll atLimit 3 twoAndOne NIL [5, 6, 7]) [5, 6, 7] := by
  have hlong : [((10 : Ptr), (⟨1, 20⟩ : ListCell)), (20, ⟨2, NIL⟩)].length ≤ 2 := by decide
  refine ⟨fun hy => ?_, fun hy => ?_, fun hy => ?_, fun hy => ?_⟩
  · have hiff := nconc_yields_append_iff twoAndOne_two twoAndOne_one (by decide) hlong
    exact absurd (hiff.1 hy) (by decide)
  · have hiff := lappend_yields_iff atLimit readsElem_first 7 twoAndOne_two hlong
    exact absurd (hiff.1 hy) (by decide)
  · have hiff := lappend_yields_iff atLimit readsElem_firstI 7 twoAndOne_two hlong
    exact absurd (hiff.1 hy) (by decide)
  · exact absurd ((lappendAll_yields_iff atLimit (by decide)).1 hy) (by decide)

/-! ## `make_list` -/

/-- The loop returns a list of its last argument alone, or what it was given if it
reads none. -/
theorem makeListLoop_last (palloc : Palloc) (retval : Ptr) (m : Memory) {xs : List Ptr}
    (rest : List Ptr) (hxs : ∀ x ∈ xs, x ≠ END_OF_LIST) :
    ∃ l m', makeListLoop palloc NIL (xs ++ END_OF_LIST :: rest) retval m = .ok (l, m') ∧
      (xs = [] → l = retval ∧ m' = m) ∧
      ∀ x, xs.getLast? = some x → IsList m'.heap l [(l, ⟨x, NIL⟩)] := by
  induction xs generalizing retval m with
  | nil =>
    refine ⟨retval, m, ?_, fun _ => ⟨rfl, rfl⟩, by simp⟩
    simp [makeListLoop, pure, Except.pure]
  | cons x xs ih =>
    have hx : x ≠ END_OF_LIST := hxs x (by simp)
    obtain ⟨l, m', hrun, hempty, hlast⟩ := ih (lcons palloc m x NIL).1 (lcons palloc m x NIL).2
      fun y hy => hxs y (List.mem_cons_of_mem x hy)
    refine ⟨l, m', ?_, by simp, ?_⟩
    · simpa [makeListLoop, hx] using hrun
    · intro y hy
      cases xs with
      | nil =>
        obtain ⟨rfl, rfl⟩ := hempty rfl
        obtain rfl : x = y := by simpa using hy
        exact lcons_node palloc m x
      | cons z xs => exact hlast y (by simpa using hy)

/-- `make_list` returns its arguments in order, on cells of the result alone, exactly
when there is at most one. -/
theorem makeList_yields_iff (palloc : Palloc) (m : Memory) {xs : List Ptr} (rest : List Ptr)
    (hxs : ∀ x ∈ xs, x ≠ END_OF_LIST) :
    (∃ l m' cs, makeList palloc m (xs ++ END_OF_LIST :: rest) = .ok (l, m') ∧
      IsList m'.heap l cs ∧ cs.length = xs.length ∧ cs.map (fun x => x.2.first) = xs ∧
      ∀ p, m.heap.node p = none → m'.heap.node p ≠ none → ∃ x ∈ cs, x.1 = p) ↔
    xs.length ≤ 1 := by
  obtain ⟨l, m', hrun, hempty, hlast⟩ := makeListLoop_last palloc NIL m rest hxs
  constructor
  · intro ⟨l', m'', cs, hrun', hl, hlen, _⟩
    obtain ⟨rfl, rfl⟩ : l = l' ∧ m' = m'' := by simpa using hrun.symm.trans hrun'
    cases hx : xs.getLast? with
    | none => simp [List.getLast?_eq_none_iff.1 hx]
    | some x =>
      have hcs := hl.unique (hlast x hx)
      simp [← hlen, hcs]
  · intro hshort
    cases xs with
    | nil =>
      obtain ⟨rfl, rfl⟩ := hempty rfl
      exact ⟨NIL, m', [], hrun, rfl, rfl, rfl, fun p hfree hused => absurd hfree hused⟩
    | cons x xs =>
      obtain rfl : xs = [] := by simpa using hshort
      have hx : x ≠ END_OF_LIST := hxs x (by simp)
      refine ⟨_, _, [(palloc.address m, ⟨x, NIL⟩)], ?_, lcons_node palloc m x, rfl, rfl, ?_⟩
      · simp [makeList, makeListLoop, hx, lcons, pure, Except.pure]
      · intro p hfree hused
        by_contra hp
        have hne : p ≠ palloc.address m := by simpa [eq_comm] using hp
        exact hused ((Memory.write_node_of_ne m _ hne).trans hfree)

/-- One argument makes a list of one. -/
theorem makeList_yields_one :
    ∃ l m' cs, makeList atLimit twoAndOne ([7] ++ END_OF_LIST :: []) = .ok (l, m') ∧
      IsList m'.heap l cs ∧ cs.length = [7].length ∧ cs.map (fun x => x.2.first) = [7] ∧
      ∀ p, twoAndOne.heap.node p = none → m'.heap.node p ≠ none → ∃ x ∈ cs, x.1 = p :=
  (makeList_yields_iff atLimit twoAndOne [] (by decide)).2 (by decide)

/-- Two arguments make a list of the second one. -/
theorem makeList_loses_first :
    ¬∃ l m' cs, makeList atLimit twoAndOne [7, 8, END_OF_LIST] = .ok (l, m') ∧
      IsList m'.heap l cs ∧ cs.map (fun x => x.2.first) = [7, 8] := by
  intro ⟨l, m', cs, hrun, hl, hcs⟩
  have hxs : ∀ x ∈ [7, 8], x ≠ END_OF_LIST := by decide
  obtain ⟨l', m'', hrun', -, hlast⟩ := makeListLoop_last atLimit NIL twoAndOne [] hxs
  obtain ⟨rfl, rfl⟩ : l' = l ∧ m'' = m' := by simpa using hrun'.symm.trans hrun
  have heq := hl.unique (hlast 8 rfl)
  simp [heq] at hcs

end PostgresV7.Nodes
