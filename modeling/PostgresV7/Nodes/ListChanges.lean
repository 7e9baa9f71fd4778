import PostgresV7.Nodes.ListContents
import Mathlib.Data.List.TakeDrop

/-!
# Changing lists in place (`list.c`)

Removing, truncating and overwriting write one cell of the list; `free_list` gives back all of them.
-/

namespace PostgresV7.Nodes

variable {h h' : Heap} {m m' : Memory} {l : Ptr} {cs : List (Ptr × ListCell)} {fuel : Nat}

/-! ## The routines -/

/-- `pfree` of a cell. -/
def Memory.free (m : Memory) (p : Ptr) : Memory where
  heap := { m.heap with node := Function.update m.heap.node p none }
  limit := m.limit
  unused q hq := by
    by_cases hqp : q = p
    · rw [hqp]
      exact Function.update_self ..
    · exact (Function.update_of_ne hqp ..).trans (m.unused q hq)

/-- The loop of `lremove` and `lisp_remove`: `l` and `prev` behind it. -/
def findCell (h : Heap) (matches_ : ListCell → Except Fault Bool) (fuel : Nat) (l prev : Ptr) :
    Except Fault (Ptr × Ptr) :=
  if l = NIL then .ok (l, prev)
  else
    match fuel with
    | 0 => .error .depth
    | fuel + 1 => do
      let c ← cellAt h l
      if ← matches_ c then return (l, prev)
      findCell h matches_ fuel c.next l

/-- What `lremove` and `lisp_remove` have in common: the first cell that matches is taken out. -/
def removeFirst (m : Memory) (fuel : Nat) (matches_ : ListCell → Except Fault Bool) (list : Ptr) :
    Except Fault (Ptr × Memory) := do
  let (l, prev) ← findCell m.heap matches_ fuel list NIL
  if l ≠ NIL then
    let c ← cellAt m.heap l
    if prev = NIL then return (c.next, m)
    let m ← setNext m prev c.next
    return (list, m)
  return (list, m)

/-- `lremove`. -/
def lremove (m : Memory) (fuel : Nat) (elem list : Ptr) : Except Fault (Ptr × Memory) :=
  removeFirst m fuel (fun c => .ok (elem == c.first)) list

/-- `lisp_remove`. -/
def lispRemove (m : Memory) (fuel : Nat) (elem list : Ptr) : Except Fault (Ptr × Memory) :=
  removeFirst m fuel (fun c => equal m.heap fuel elem c.first) list

/-- The loop of `ltruncate`, with `n` before it is decremented. -/
def truncateLoop (m : Memory) (fuel : Nat) (n : Nat) (ptr : Ptr) : Except Fault Memory :=
  if ptr = NIL then .ok m
  else
    match fuel with
    | 0 => .error .depth
    | fuel + 1 =>
      if n - 1 = 0 then setNext m ptr NIL
      else do
        let c ← cellAt m.heap ptr
        truncateLoop m fuel (n - 1) c.next

/-- `ltruncate`. -/
def ltruncate (m : Memory) (fuel : Nat) (n : Int) (list : Ptr) : Except Fault (Ptr × Memory) := do
  if n ≤ 0 then return (NIL, m)
  let m ← truncateLoop m fuel n.toNat list
  return (list, m)

/-- The loop of `nth`, `nthi` and `set_nth`, which do not look for the end of the list. -/
def nthCell (h : Heap) : Nat → Ptr → Except Fault Ptr
  | 0, l => .ok l
  | n + 1, l => do
    let c ← cellAt h l
    nthCell h n c.next

/-- `nth`. -/
def nth (h : Heap) (n : Int) (l : Ptr) : Except Fault Ptr := do
  let l ← nthCell h n.toNat l
  let c ← cellAt h l
  return c.first

/-- `nthi`. -/
def nthi (h : Heap) (n : Int) (l : Ptr) : Except Fault UInt32 := do
  let l ← nthCell h n.toNat l
  let c ← cellAt h l
  return c.firstI

/-- `set_nth`. -/
def setNth (m : Memory) (l : Ptr) (n : Int) (elem : Ptr) : Except Fault Memory := do
  let l ← nthCell m.heap n.toNat l
  let c ← cellAt m.heap l
  return m.write l ⟨.list, { c with elem := elem }⟩

/-- `free_list`. -/
def freeList (m : Memory) (fuel : Nat) (list : Ptr) : Except Fault Memory :=
  if list = NIL then .ok m
  else
    match fuel with
    | 0 => .error .depth
    | fuel + 1 => do
      let c ← cellAt m.heap list
      freeList (m.free list) fuel c.next

/-! ## One cell is written -/

/-- The list goes on from the cell that was written. -/
theorem IsList.rewrite {pre post ds : List (Ptr × ListCell)} {x : Ptr × ListCell} {c : ListCell}
    (hl : IsList h l (pre ++ x :: post)) (hx : h'.node x.1 = some ⟨.list, c⟩)
    (hpre : ∀ y ∈ pre, h'.node y.1 = h.node y.1) (hds : IsList h' c.next ds) :
    IsList h' l (pre ++ (x.1, c) :: ds) := by
  induction pre generalizing l with
  | nil =>
    obtain ⟨hlx, hne, -, -⟩ := hl
    exact ⟨hlx, hne, hx, hds⟩
  | cons y pre ih =>
    obtain ⟨hly, hne, hnode, hrest⟩ := hl
    have hy : h'.node y.1 = h.node y.1 := hpre y List.mem_cons_self
    exact ⟨hly, hne, hy.trans hnode, ih hrest fun z hz => hpre z (List.mem_cons_of_mem y hz)⟩

theorem IsList.tail {pre post : List (Ptr × ListCell)} {x : Ptr × ListCell} (hl : IsList h l (pre ++ x :: post)) :
    IsList h x.1 (x :: post) ∧ IsList h x.2.next post := by
  induction pre generalizing l with
  | nil =>
    obtain ⟨hlx, hne, hnode, hrest⟩ := hl
    exact ⟨⟨rfl, hne, hnode, hrest⟩, hrest⟩
  | cons y pre ih => exact ih hl.2.2.2

theorem IsList.ne_of_mem {pre post : List (Ptr × ListCell)} {x y : Ptr × ListCell}
    (hl : IsList h l (pre ++ x :: post)) (hy : y ∈ pre ∨ y ∈ post) : y.1 ≠ x.1 := by
  have hnodup := hl.nodup
  rw [List.map_append, List.map_cons] at hnodup
  intro heq
  rcases hy with hy | hy
  · exact (List.disjoint_of_nodup_append hnodup) (List.mem_map_of_mem hy) (heq ▸ List.mem_cons_self)
  · exact (List.nodup_cons.mp (List.nodup_append.mp hnodup).2.1).1 (heq ▸ List.mem_map_of_mem hy)

/-- What a routine that changes the list `cs` in place leaves: a list of some of its cells, with
all other nodes as they were. -/
structure Changed (m : Memory) (cs : List (Ptr × ListCell)) (m' : Memory) (l' : Ptr)
    (ds : List (Ptr × ListCell)) : Prop where
  list : IsList m'.heap l' ds
  within : ∀ y ∈ ds, ∃ x ∈ cs, y.1 = x.1
  frame : ∀ p, (∀ x ∈ cs, p ≠ x.1) → m'.heap.node p = m.heap.node p

/-- Writing a cell of the list, and leaving it to go on from there. -/
theorem IsList.changed {pre post ds : List (Ptr × ListCell)} {x : Ptr × ListCell} {c : ListCell}
    (hl : IsList m.heap l (pre ++ x :: post)) (hds : IsList m.heap c.next ds) (hsub : ∀ y ∈ ds, y ∈ post) :
    Changed m (pre ++ x :: post) (m.write x.1 ⟨.list, c⟩) l (pre ++ (x.1, c) :: ds) where
  list := by
    refine hl.rewrite (m.write_node_self x.1 _) (fun y hy => ?_) (hds.congr fun y hy => ?_)
    · exact m.write_node_of_ne _ (hl.ne_of_mem (.inl hy))
    · exact m.write_node_of_ne _ (hl.ne_of_mem (.inr (hsub y hy)))
  within y hy := by
    rcases List.mem_append.mp hy with hy | hy
    · exact ⟨y, List.mem_append_left _ hy, rfl⟩
    · rcases List.mem_cons.mp hy with rfl | hy
      · exact ⟨x, List.mem_append_right _ List.mem_cons_self, rfl⟩
      · exact ⟨y, List.mem_append_right _ (List.mem_cons_of_mem _ (hsub y hy)), rfl⟩
  frame p hp := m.write_node_of_ne _ (hp x (List.mem_append_right _ List.mem_cons_self))

theorem cellAt_mem {x : Ptr × ListCell} (hl : IsList h l cs) (hx : x ∈ cs) : cellAt h x.1 = .ok x.2 :=
  cellAt_eq (hl.linked.ne_nil (List.mem_map_of_mem hx)) (hl.node hx)

/-! ## Removing -/

/-- The search ends at the first cell that matches, with the one before it. -/
theorem findCell_found {matches_ : ListCell → Except Fault Bool} {pre post : List (Ptr × ListCell)}
    {x : Ptr × ListCell} (hl : IsList h l (pre ++ x :: post)) (hfuel : (pre ++ x :: post).length ≤ fuel)
    (hpre : ∀ y ∈ pre, matches_ y.2 = .ok false) (hx : matches_ x.2 = .ok true) (prev : Ptr) :
    findCell h matches_ fuel l prev = .ok (x.1, (pre.map Prod.fst).getLastD prev) := by
  induction pre generalizing l fuel prev with
  | nil =>
    obtain ⟨rfl, hne, hnode, -⟩ := hl
    cases fuel with
    | zero => simp at hfuel
    | succ fuel =>
      rw [findCell.eq_def, if_neg hne]
      simp [cellAt_eq hne hnode, hx, bind, Except.bind, pure, Except.pure]
  | cons y pre ih =>
    obtain ⟨rfl, hne, hnode, hrest⟩ := hl
    cases fuel with
    | zero => simp at hfuel
    | succ fuel =>
      have hhere : matches_ y.2 = .ok false := hpre y List.mem_cons_self
      have htail := ih hrest (by simpa using hfuel) (fun z hz => hpre z (List.mem_cons_of_mem y hz)) y.1
      rw [findCell.eq_def, if_neg hne]
      simp only [cellAt_eq hne hnode, hhere, htail, bind, Except.bind, Bool.false_eq_true, if_false]
      rw [List.map_cons, List.getLastD_cons]

theorem findCell_missing {matches_ : ListCell → Except Fault Bool} (hl : IsList h l cs)
    (hfuel : cs.length ≤ fuel) (hcs : ∀ y ∈ cs, matches_ y.2 = .ok false) (prev : Ptr) :
    ∃ last, findCell h matches_ fuel l prev = .ok (NIL, last) := by
  induction cs generalizing l fuel prev with
  | nil =>
    have hnil : l = NIL := hl
    exact ⟨prev, by rw [findCell.eq_def, if_pos hnil, hnil]⟩
  | cons y cs ih =>
    obtain ⟨rfl, hne, hnode, hrest⟩ := hl
    cases fuel with
    | zero => simp at hfuel
    | succ fuel =>
      have hhere : matches_ y.2 = .ok false := hcs y List.mem_cons_self
      obtain ⟨last, htail⟩ := ih hrest (by simpa using hfuel) (fun z hz => hcs z (List.mem_cons_of_mem y hz)) y.1
      refine ⟨last, ?_⟩
      rw [findCell.eq_def, if_neg hne]
      simp only [cellAt_eq hne hnode, hhere, htail, bind, Except.bind, Bool.false_eq_true, if_false]

/-- The first cell that matches is gone, and all others are left in their order. -/
theorem removeFirst_spec (matches_ : ListCell → Except Fault Bool) (found : ListCell → Bool)
    (hl : IsList m.heap l cs) (hfuel : cs.length ≤ fuel) (hmatch : ∀ x ∈ cs, matches_ x.2 = .ok (found x.2)) :
    ∃ l' m' ds, removeFirst m fuel matches_ l = .ok (l', m') ∧ Changed m cs m' l' ds ∧
      ds.map (fun x => x.2.first) = (cs.eraseP fun x => found x.2).map fun x => x.2.first := by
  by_cases hany : ∃ x ∈ cs, found x.2 = true
  · obtain ⟨x, hx, hfound⟩ := hany
    obtain ⟨x, pre, post, hno, hyes, rfl, herase⟩ := List.exists_of_eraseP (p := fun x => found x.2) hx hfound
    rw [herase]
    have hmem : x ∈ pre ++ x :: post := List.mem_append_right _ List.mem_cons_self
    have hmatches : matches_ x.2 = .ok true := by
      rw [hmatch x hmem, hyes]
    have hpre : ∀ y ∈ pre, matches_ y.2 = .ok false := by
      intro y hy
      rw [hmatch y (List.mem_append_left _ hy), Bool.eq_false_iff.mpr (hno y hy)]
    have hfind := findCell_found hl hfuel hpre hmatches NIL
    have hcell := cellAt_mem hl hmem
    have hxnil : x.1 ≠ NIL := hl.linked.ne_nil (List.mem_map_of_mem hmem)
    unfold removeFirst
    rw [hfind]
    simp only [bind, Except.bind, if_pos hxnil, hcell]
    rcases List.eq_nil_or_concat pre with rfl | ⟨before, y, rfl⟩
    -- the first cell: the list starts behind it
    · have htail : IsList m.heap x.2.next post := hl.tail.2
      exact ⟨x.2.next, m, post, rfl,
        ⟨htail, fun z hz => ⟨z, List.mem_cons_of_mem _ hz, rfl⟩, fun _ _ => rfl⟩, rfl⟩
    -- a later cell: the one in front of it goes on behind it
    · have htail : IsList m.heap x.2.next post := hl.tail.2
      have hlast : ((before ++ [y]).map Prod.fst).getLastD NIL = y.1 := by simp
      rw [List.concat_eq_append] at hl ⊢
      rw [List.append_assoc] at hl
      have hy : y ∈ before ++ ([y] ++ x :: post) := List.mem_append_right _ List.mem_cons_self
      have hynil : y.1 ≠ NIL := hl.linked.ne_nil (List.mem_map_of_mem hy)
      rw [hlast, if_neg hynil, setNext_eq hynil (hl.node hy)]
      have hchanged := IsList.changed (c := { y.2 with next := x.2.next }) hl htail
        fun z hz => List.mem_cons_of_mem x hz
      rw [List.append_assoc]
      refine ⟨l, _, _, rfl, hchanged, ?_⟩
      simp [ListCell.first]
  · have hno : ∀ x ∈ cs, ¬ found x.2 = true := fun x hx hfound => hany ⟨x, hx, hfound⟩
    have hmiss : ∀ x ∈ cs, matches_ x.2 = .ok false := by
      intro x hx
      rw [hmatch x hx, Bool.eq_false_iff.mpr (hno x hx)]
    obtain ⟨last, hfind⟩ := findCell_missing hl hfuel hmiss NIL
    rw [List.eraseP_of_forall_not hno]
    refine ⟨l, m, cs, ?_, ⟨hl, fun y hy => ⟨y, hy, rfl⟩, fun _ _ => rfl⟩, rfl⟩
    unfold removeFirst
    rw [hfind]
    simp [bind, Except.bind, pure, Except.pure]

/-- `lremove` takes the first occurrence out. -/
theorem lremove_spec (hl : IsList m.heap l cs) (hfuel : cs.length ≤ fuel) (elem : Ptr) :
    ∃ l' m' ds, lremove m fuel elem l = .ok (l', m') ∧ Changed m cs m' l' ds ∧
      ds.map (fun x => x.2.first) = (cs.map fun x => x.2.first).erase elem := by
  obtain ⟨l', m', ds, hrun, hchanged, hds⟩ := removeFirst_spec (fun c => .ok (elem == c.first))
    (fun c => elem == c.first) hl hfuel fun _ _ => rfl
  refine ⟨l', m', ds, hrun, hchanged, hds.trans ?_⟩
  rw [List.erase_eq_eraseP, List.eraseP_map]
  rfl

/-- `lisp_remove` takes out the first element that `equal` finds to be `elem`. -/
theorem lispRemove_spec {elem : Ptr} (same : ListCell → Bool) (hl : IsList m.heap l cs)
    (hfuel : cs.length ≤ fuel) (hequal : ∀ x ∈ cs, equal m.heap fuel elem x.2.first = .ok (same x.2)) :
    ∃ l' m' ds, lispRemove m fuel elem l = .ok (l', m') ∧ Changed m cs m' l' ds ∧
      ds.map (fun x => x.2.first) = (cs.eraseP fun x => same x.2).map fun x => x.2.first :=
  removeFirst_spec _ same hl hfuel hequal

/-! ## Truncating -/

/-- The loop, when it has come to `here`. -/
theorem truncateLoop_from {pre post : List (Ptr × ListCell)} {n : Nat} {here : Ptr}
    (hl : IsList m.heap l (pre ++ post)) (hhere : IsList m.heap here post) (hfuel : post.length ≤ fuel)
    (hn : n ≠ 0) :
    ∃ m' ds, truncateLoop m fuel n here = .ok m' ∧ Changed m (pre ++ post) m' l ds ∧
      ds.map (fun x => x.2.first) = ((pre ++ post).map fun x => x.2.first).take (pre.length + n) := by
  induction post generalizing pre n fuel here with
  | nil =>
    have hnil : here = NIL := hhere
    refine ⟨m, pre ++ [], ?_, ⟨hl, fun y hy => ⟨y, hy, rfl⟩, fun _ _ => rfl⟩, ?_⟩
    · rw [truncateLoop.eq_def, if_pos hnil]
    · rw [List.take_of_length_le]
      simp
  | cons x post ih =>
    obtain ⟨rfl, hne, hnode, hrest⟩ := hhere
    cases fuel with
    | zero => simp at hfuel
    | succ fuel =>
      rw [truncateLoop.eq_def, if_neg hne]
      by_cases hlast : n - 1 = 0
      · have hone : n = 1 := by omega
        have hnone : IsList m.heap { x.2 with next := NIL }.next [] := rfl
        have hchanged := hl.changed hnone fun y hy => absurd hy List.not_mem_nil
        refine ⟨_, _, ?_, hchanged, ?_⟩
        · simp only [if_pos hlast, setNext_eq hne hnode]
        · have hlen : pre.length + n = (pre.map fun x => x.2.first).length + 1 := by
            rw [hone, List.length_map]
          rw [hlen, List.map_append, List.map_append, List.take_length_add_append]
          simp [ListCell.first]
      · rw [List.append_cons] at hl ⊢
        obtain ⟨m', ds, hloop, hchanged, hds⟩ := ih hl hrest (by simpa using hfuel) hlast
        have hlen : (pre ++ [x]).length + (n - 1) = pre.length + n := by
          rw [List.length_append, List.length_singleton]
          omega
        refine ⟨m', ds, ?_, hchanged, hlen ▸ hds⟩
        simp [if_neg hlast, cellAt_eq hne hnode, hloop, bind, Except.bind]

/-- `ltruncate` keeps the first `n` elements. -/
theorem ltruncate_spec (hl : IsList m.heap l cs) (hfuel : cs.length ≤ fuel) (n : Int) :
    ∃ l' m' ds, ltruncate m fuel n l = .ok (l', m') ∧ Changed m cs m' l' ds ∧
      ds.map (fun x => x.2.first) = (cs.map fun x => x.2.first).take n.toNat := by
  unfold ltruncate
  by_cases hn : n ≤ 0
  · refine ⟨NIL, m, [], by rw [if_pos hn]; rfl, ⟨rfl, fun y hy => absurd hy List.not_mem_nil,
      fun _ _ => rfl⟩, ?_⟩
    rw [Int.toNat_of_nonpos hn]
    rfl
  · have hsplit : IsList m.heap l ([] ++ cs) := hl
    obtain ⟨m', ds, hloop, hchanged, hds⟩ := truncateLoop_from (n := n.toNat) hsplit hl hfuel (by omega)
    rw [List.length_nil, Nat.zero_add] at hds
    exact ⟨l, m', ds, by simp [if_neg hn, hloop, bind, Except.bind, pure, Except.pure], hchanged, hds⟩

/-! ## One element -/

theorem nthCell_eq {pre post : List (Ptr × ListCell)} {x : Ptr × ListCell} (hl : IsList h l (pre ++ x :: post)) :
    nthCell h pre.length l = .ok x.1 := by
  induction pre generalizing l with
  | nil => exact congrArg Except.ok hl.1
  | cons y pre ih =>
    obtain ⟨rfl, hne, hnode, hrest⟩ := hl
    rw [List.length_cons, nthCell, cellAt_eq hne hnode]
    exact ih hrest

/-- The cell at an index, with the list around it. -/
theorem nthCell_spec {n : Nat} (hl : IsList h l cs) (hn : n < cs.length) :
    ∃ pre x post, cs = pre ++ x :: post ∧ pre.length = n ∧ nthCell h n l = .ok x.1 := by
  have hsplit : cs = cs.take n ++ cs[n] :: cs.drop (n + 1) := by
    rw [List.cons_getElem_drop_succ, List.take_append_drop]
  have hlen : (cs.take n).length = n := List.length_take_of_le hn.le
  have hcell := nthCell_eq (hsplit ▸ hl)
  rw [hlen] at hcell
  exact ⟨_, _, _, hsplit, hlen, hcell⟩

/-- Past the end the link of `NIL` or its element is read. -/
theorem nthCell_beyond {β : Type} {n : Nat} (hl : IsList h l cs) (hn : cs.length ≤ n)
    (body : Ptr → ListCell → Except Fault β) :
    (do let l ← nthCell h n l
        let c ← cellAt h l
        body l c) = .error .badPointer := by
  induction cs generalizing l n with
  | nil =>
    have hnil : l = NIL := hl
    cases n with
    | zero => simp [nthCell, hnil, cellAt_nil, bind, Except.bind]
    | succ n => simp [nthCell, hnil, cellAt_nil, bind, Except.bind]
  | cons x cs ih =>
    obtain ⟨rfl, hne, hnode, hrest⟩ := hl
    cases n with
    | zero => simp at hn
    | succ n =>
      rw [nthCell, cellAt_eq hne hnode]
      exact ih hrest (by simpa using hn)

/-- `nth` and `nthi` read the element. -/
theorem nth_spec {n : Int} (hl : IsList h l cs) (hn : n.toNat < cs.length) :
    ∃ d, (cs.map fun x => x.2.first)[n.toNat]? = some d ∧ nth h n l = .ok d ∧
      nthi h n l = .ok (UInt32.ofNat d) := by
  obtain ⟨pre, x, post, rfl, hpre, hcell⟩ := nthCell_spec hl hn
  have hx : x ∈ pre ++ x :: post := List.mem_append_right _ List.mem_cons_self
  refine ⟨x.2.first, ?_, ?_, ?_⟩
  · simp [← hpre]
  · simp [nth, hcell, cellAt_mem hl hx, bind, Except.bind, pure, Except.pure]
  · simp [nthi, hcell, cellAt_mem hl hx, bind, Except.bind, pure, Except.pure, ListCell.firstI, ListCell.first]

/-- `set_nth` overwrites the element. -/
theorem setNth_spec {n : Int} (hl : IsList m.heap l cs) (hn : n.toNat < cs.length) (elem : Ptr) :
    ∃ m' ds, setNth m l n elem = .ok m' ∧ Changed m cs m' l ds ∧
      ds.map (fun x => x.2.first) = (cs.map fun x => x.2.first).set n.toNat elem := by
  obtain ⟨pre, x, post, rfl, hpre, hcell⟩ := nthCell_spec hl hn
  have hx : x ∈ pre ++ x :: post := List.mem_append_right _ List.mem_cons_self
  have hchanged := IsList.changed (c := { x.2 with elem := elem }) hl hl.tail.2 fun y hy => hy
  refine ⟨_, _, ?_, hchanged, ?_⟩
  · simp [setNth, hcell, cellAt_mem hl hx, bind, Except.bind, pure, Except.pure]
  · simp [← hpre, ListCell.first]

/-! ## Freeing -/

/-- `free_list` gives back the cells and nothing else. -/
theorem freeList_spec (hl : IsList m.heap l cs) (hfuel : cs.length ≤ fuel) :
    ∃ m', freeList m fuel l = .ok m' ∧ (∀ x ∈ cs, m'.heap.node x.1 = none) ∧
      ∀ p, (∀ x ∈ cs, p ≠ x.1) → m'.heap.node p = m.heap.node p := by
  induction cs generalizing l m fuel with
  | nil =>
    have hnil : l = NIL := hl
    exact ⟨m, by rw [freeList.eq_def, if_pos hnil], fun x hx => absurd hx List.not_mem_nil, fun _ _ => rfl⟩
  | cons x cs ih =>
    have hsplit : IsList m.heap l ([] ++ x :: cs) := hl
    have hothers : ∀ y ∈ cs, y.1 ≠ x.1 := fun y hy => hsplit.ne_of_mem (.inr hy)
    obtain ⟨rfl, hne, hnode, hrest⟩ := hl
    cases fuel with
    | zero => simp at hfuel
    | succ fuel =>
      have hgone : (m.free x.1).heap.node x.1 = none := Function.update_self ..
      have hkept : ∀ p, p ≠ x.1 → (m.free x.1).heap.node p = m.heap.node p :=
        fun p hp => Function.update_of_ne hp ..
      have hrest' : IsList (m.free x.1).heap x.2.next cs := hrest.congr fun y hy => hkept y.1 (hothers y hy)
      obtain ⟨m', hrun, hfreed, hframe⟩ := ih hrest' (by simpa using hfuel)
      refine ⟨m', ?_, fun y hy => ?_, fun p hp => ?_⟩
      · rw [freeList.eq_def, if_neg hne]
        simp [cellAt_eq hne hnode, hrun, bind, Except.bind]
      · rcases List.mem_cons.mp hy with rfl | hy
        · exact (hframe y.1 fun z hz => (hothers z hz).symm).trans hgone
        · exact hfreed y hy
      · rw [hframe p fun z hz => hp z (List.mem_cons_of_mem x hz)]
        exact hkept p (hp x List.mem_cons_self)

end PostgresV7.Nodes
