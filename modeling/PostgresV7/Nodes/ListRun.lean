import PostgresV7.Nodes.Append
import PostgresV7.Nodes.ListChanges

/-!
# Runs of list calls (`list.c`)

Any number of list variables. A call stores its result in the variable its list was in; what
`nconc` has linked into one list is no longer used through the other variable.
-/

namespace PostgresV7.Nodes

variable {ι : Type} [DecidableEq ι]

structure Lists (ι : Type) where
  memory : Memory
  root : ι → Ptr

def Lists.set (s : Lists ι) (i : ι) (l : Ptr) (m : Memory) : Lists ι := ⟨m, Function.update s.root i l⟩

inductive ListCall (ι : Type) where
  | cons (i : ι) (d : Ptr)
  | append (i : ι) (d : Ptr)
  | concat (i j : ι)
  | copy (i j : ι)
  | remove (i : ι) (d : Ptr)
  | truncate (i : ι) (n : Int)
  | setNth (i : ι) (n : Int) (d : Ptr)
  | nth (i : ι) (n : Int)
  | nthi (i : ι) (n : Int)
  | length (i : ι)
  | free (i : ι)

inductive Answer where
  | none
  | elem (d : Ptr)
  | int (d : UInt32)
  | length (n : Nat)

/-- The call as the code makes it. -/
def ListCall.run (palloc : Palloc) (fuel : Nat) (s : Lists ι) : ListCall ι → Except Fault (Answer × Lists ι)
  | .cons i d =>
    let (l, m) := lcons palloc s.memory d (s.root i)
    .ok (.none, s.set i l m)
  | .append i d => do
    let (l, m) ← lappend palloc s.memory fuel (s.root i) d
    return (.none, s.set i l m)
  | .concat i j => do
    let (l, m) ← nconc s.memory fuel (s.root i) (s.root j)
    return (.none, (s.set j NIL m).set i l m)
  | .copy i j => do
    let (l, m) ← listCopy palloc s.memory fuel (s.root j)
    return (.none, s.set i l m)
  | .remove i d => do
    let (l, m) ← lremove s.memory fuel d (s.root i)
    return (.none, s.set i l m)
  | .truncate i n => do
    let (l, m) ← ltruncate s.memory fuel n (s.root i)
    return (.none, s.set i l m)
  | .setNth i n d => do
    let m ← PostgresV7.Nodes.setNth s.memory (s.root i) n d
    return (.none, s.set i (s.root i) m)
  | .nth i n => do
    let d ← PostgresV7.Nodes.nth s.memory.heap n (s.root i)
    return (.elem d, s)
  | .nthi i n => do
    let d ← PostgresV7.Nodes.nthi s.memory.heap n (s.root i)
    return (.int d, s)
  | .length i => do
    let n ← PostgresV7.Nodes.length s.memory.heap fuel (s.root i)
    return (.length n, s)
  | .free i => do
    let m ← freeList s.memory fuel (s.root i)
    return (.none, s.set i NIL m)

/-- What the call does to the sequences in the variables. What is appended goes behind the first
element, and the rest of the list is lost. -/
def ListCall.meaning (a : ι → List Ptr) : ListCall ι → Except Fault (Answer × (ι → List Ptr))
  | .cons i d => .ok (.none, Function.update a i (d :: a i))
  | .append i d => .ok (.none, Function.update a i ((a i).take 1 ++ [d]))
  | .concat i j =>
    if i = j ∧ a i ≠ [] then .error .elogError
    else
      .ok (.none, Function.update (Function.update a j []) i
        (if a j = [] then a i else (a i).take 1 ++ a j))
  | .copy i j => if a j = [] then .error .badPointer else .ok (.none, Function.update a i (a j))
  | .remove i d => .ok (.none, Function.update a i ((a i).erase d))
  | .truncate i n => .ok (.none, Function.update a i ((a i).take n.toNat))
  | .setNth i n d =>
    if n.toNat < (a i).length then .ok (.none, Function.update a i ((a i).set n.toNat d))
    else .error .badPointer
  | .nth i n =>
    match (a i)[n.toNat]? with
    | some d => .ok (.elem d, a)
    | none => .error .badPointer
  | .nthi i n =>
    match (a i)[n.toNat]? with
    | some d => .ok (.int (UInt32.ofNat d), a)
    | none => .error .badPointer
  | .length i => .ok (.length (a i).length, a)
  | .free i => .ok (.none, Function.update a i [])

def runLists (palloc : Palloc) (fuel : Nat) (s : Lists ι) : List (ListCall ι) →
    Except Fault (List Answer × Lists ι)
  | [] => .ok ([], s)
  | c :: calls => do
    let (v, s) ← c.run palloc fuel s
    let (vs, s) ← runLists palloc fuel s calls
    return (v :: vs, s)

def meaningAll (a : ι → List Ptr) : List (ListCall ι) → Except Fault (List Answer × (ι → List Ptr))
  | [] => .ok ([], a)
  | c :: calls => do
    let (v, a) ← c.meaning a
    let (vs, a) ← meaningAll a calls
    return (v :: vs, a)

/-! ## Lists that share no cell -/

/-- Every variable has cells of its own, and the nodes that are in no list are among the memory. -/
structure Owns (others : Ptr → Option Node) (s : Lists ι) (cells : ι → List (Ptr × ListCell)) : Prop where
  list : ∀ i, IsList s.memory.heap (s.root i) (cells i)
  apart : ∀ i j, i ≠ j → ∀ x ∈ cells i, ∀ y ∈ cells j, x.1 ≠ y.1
  outside : ∀ p x, others p = some x → s.memory.heap.node p = some x
  not_cell : ∀ p x, others p = some x → ∀ i, ∀ z ∈ cells i, p ≠ z.1

def Lists.Holds (others : Ptr → Option Node) (s : Lists ι) (a : ι → List Ptr) : Prop :=
  ∃ cells, Owns others s cells ∧ ∀ i, (cells i).map (fun x => x.2.first) = a i

/-- Both return the same and leave matching states, or both fail with the same fault. -/
inductive SameOutcome {β : Type} (others : Ptr → Option Node) :
    Except Fault (β × Lists ι) → Except Fault (β × (ι → List Ptr)) → Prop
  | ok {v : β} {s : Lists ι} {a : ι → List Ptr} (hs : s.Holds others a) :
      SameOutcome others (.ok (v, s)) (.ok (v, a))
  | error (e : Fault) : SameOutcome others (.error e) (.error e)

/-- An address that is not for the routines to touch when they work on the list in `i`. -/
def Foreign (others : Ptr → Option Node) (cells : ι → List (Ptr × ListCell)) (i : ι) (p : Ptr) : Prop :=
  (∃ j, j ≠ i ∧ ∃ z ∈ cells j, p = z.1) ∨ ∃ x, others p = some x

variable {others : Ptr → Option Node} {s : Lists ι} {cells : ι → List (Ptr × ListCell)} {a : ι → List Ptr}
  {m : Memory} {l p : Ptr} {ds : List (Ptr × ListCell)} {xs : List Ptr} {i : ι} {fuel : Nat}

omit [DecidableEq ι] in
theorem Owns.foreign_ne (ho : Owns others s cells) (hp : Foreign others cells i p) : ∀ x ∈ cells i, p ≠ x.1 := by
  rcases hp with ⟨j, hj, z, hz, rfl⟩ | ⟨x, hx⟩
  · exact ho.apart j i hj z hz
  · exact ho.not_cell p x hx i

omit [DecidableEq ι] in
theorem Owns.foreign_used (ho : Owns others s cells) (hp : Foreign others cells i p) :
    ∃ x, s.memory.heap.node p = some x := by
  rcases hp with ⟨j, -, z, hz, rfl⟩ | ⟨x, hx⟩
  · exact ⟨_, (ho.list j).node hz⟩
  · exact ⟨x, ho.outside p x hx⟩

omit [DecidableEq ι] in
theorem Owns.foreign_ne_free {q : Ptr} (ho : Owns others s cells) (hp : Foreign others cells i p)
    (hq : s.memory.heap.node q = none) : p ≠ q := by
  obtain ⟨x, hx⟩ := ho.foreign_used hp
  rintro rfl
  exact absurd (hx.symm.trans hq) (Option.some_ne_none x)

/-- One variable gets a list; what is not its own stays as it was. -/
theorem Owns.set (ho : Owns others s cells) (hl : IsList m.heap l ds)
    (hapart : ∀ y ∈ ds, ¬ Foreign others cells i y.1)
    (hframe : ∀ p, Foreign others cells i p → m.heap.node p = s.memory.heap.node p) :
    Owns others (s.set i l m) (Function.update cells i ds) where
  list j := by
    by_cases hj : j = i
    · subst hj
      simpa [Lists.set] using hl
    · simp only [Lists.set, Function.update_of_ne hj]
      exact (ho.list j).congr fun z hz => hframe z.1 (.inl ⟨j, hj, z, hz, rfl⟩)
  apart j k hjk x hx y hy := by
    by_cases hj : j = i
    · subst hj
      rw [Function.update_self] at hx
      rw [Function.update_of_ne hjk.symm] at hy
      exact fun hxy => hapart x hx (.inl ⟨k, hjk.symm, y, hy, hxy⟩)
    · rw [Function.update_of_ne hj] at hx
      by_cases hk : k = i
      · subst hk
        rw [Function.update_self] at hy
        exact fun hxy => hapart y hy (.inl ⟨j, hj, x, hx, hxy.symm⟩)
      · rw [Function.update_of_ne hk] at hy
        exact ho.apart j k hjk x hx y hy
  outside p x hp := (hframe p (.inr ⟨x, hp⟩)).trans (ho.outside p x hp)
  not_cell p x hp j z hz := by
    by_cases hj : j = i
    · subst hj
      rw [Function.update_self] at hz
      rintro rfl
      exact hapart z hz (.inr ⟨x, hp⟩)
    · rw [Function.update_of_ne hj] at hz
      exact ho.not_cell p x hp j z hz

/-- What the cells hold after one list has been replaced. -/
theorem map_update (hcells : ∀ i, (cells i).map (fun x => x.2.first) = a i)
    (hds : ds.map (fun x => x.2.first) = xs) (j : ι) :
    (Function.update cells i ds j).map (fun x => x.2.first) = Function.update a i xs j := by
  by_cases hj : j = i
  · subst hj
    rw [Function.update_self, Function.update_self, hds]
  · rw [Function.update_of_ne hj, Function.update_of_ne hj, hcells]

/-! ## One call -/

/-- A list changed in place. -/
theorem Owns.change (ho : Owns others s cells) (hcells : ∀ i, (cells i).map (fun x => x.2.first) = a i)
    (hc : Changed s.memory (cells i) m l ds) (hds : ds.map (fun x => x.2.first) = xs) :
    (s.set i l m).Holds others (Function.update a i xs) := by
  refine ⟨_, ho.set hc.list (fun y hy hp => ?_) fun p hp => ?_, map_update hcells hds⟩
  · obtain ⟨x, hx, hyx⟩ := hc.within y hy
    exact ho.foreign_ne hp x hx hyx
  · exact hc.frame p (ho.foreign_ne hp)

theorem Owns.cons (ho : Owns others s cells) (hcells : ∀ i, (cells i).map (fun x => x.2.first) = a i)
    (palloc : Palloc) (i : ι) (d : Ptr) :
    (s.set i (lcons palloc s.memory d (s.root i)).1 (lcons palloc s.memory d (s.root i)).2).Holds others
      (Function.update a i (d :: a i)) := by
  have hfree := palloc.address_unused s.memory
  have hkept : ∀ z ∈ cells i, (lcons palloc s.memory d (s.root i)).2.heap.node z.1 = s.memory.heap.node z.1 := by
    intro z hz
    refine Memory.write_node_of_ne _ _ fun hnew => ?_
    have hnode := (ho.list i).node hz
    rw [hnew, hfree] at hnode
    cases hnode
  have hl : IsList (lcons palloc s.memory d (s.root i)).2.heap (palloc.address s.memory)
      ((palloc.address s.memory, ⟨d, s.root i⟩) :: cells i) :=
    ⟨rfl, palloc.address_ne_nil _, Memory.write_node_self .., (ho.list i).congr hkept⟩
  refine ⟨_, ho.set hl (fun y hy hp => ?_) fun p hp => ?_, map_update hcells ?_⟩
  · rcases List.mem_cons.mp hy with rfl | hy
    · exact ho.foreign_ne_free hp hfree rfl
    · exact ho.foreign_ne hp y hy rfl
  · exact Memory.write_node_of_ne _ _ (ho.foreign_ne_free hp hfree)
  · rw [List.map_cons, hcells]
    rfl

theorem Owns.append (ho : Owns others s cells) (hcells : ∀ i, (cells i).map (fun x => x.2.first) = a i)
    (palloc : Palloc) (hfuel : (cells i).length ≤ fuel) (d : Ptr) :
    ∃ l m, lappend palloc s.memory fuel (s.root i) d = .ok (l, m) ∧
      (s.set i l m).Holds others (Function.update a i ((a i).take 1 ++ [d])) := by
  have hfree := palloc.address_unused s.memory
  obtain ⟨l, m, ds, hrun, hlist, hds, hfoot, hframe⟩ :=
    lappend_spec palloc readsElem_first d (ho.list i) hfuel
  refine ⟨l, m, hrun, _, ho.set hlist (fun y hy hp => ?_) fun p hp => ?_, map_update hcells (hds.trans ?_)⟩
  · rcases hfoot y hy with hnew | ⟨x, hx, hyx⟩
    · exact ho.foreign_ne_free hp hfree hnew
    · exact ho.foreign_ne hp x hx hyx
  · exact hframe p (ho.foreign_ne_free hp hfree) (ho.foreign_ne hp)
  · rw [hcells]
    rfl

theorem Owns.copy (ho : Owns others s cells) (hcells : ∀ i, (cells i).map (fun x => x.2.first) = a i)
    (palloc : Palloc) {j : ι} (hfuel : (cells j).length ≤ fuel) (hj : a j ≠ []) :
    ∃ l m, listCopy palloc s.memory fuel (s.root j) = .ok (l, m) ∧
      (s.set i l m).Holds others (Function.update a i (a j)) := by
  have hl := ho.list j
  have hmap := hcells j
  cases hcs : cells j with
  | nil =>
    rw [hcs] at hmap
    exact absurd hmap.symm hj
  | cons x cs =>
    rw [hcs] at hl hmap hfuel
    have hshort : cs.length ≤ fuel := by
      rw [List.length_cons] at hfuel
      omega
    obtain ⟨l, m, hrun, ⟨ds, hlist, hds, hfresh⟩, hext⟩ := listCopy_cons palloc readsElem_first hl hshort
    refine ⟨l, m, hrun, _, ho.set hlist (fun y hy hp => ?_) fun p hp => ?_, map_update hcells (hds.trans hmap)⟩
    · exact ho.foreign_ne_free hp (hfresh y hy) rfl
    · obtain ⟨x, hnode⟩ := ho.foreign_used hp
      exact (hext _ _ hnode).trans hnode.symm

/-- The first of two lists takes over cells of both, and the second is dropped. -/
theorem Owns.take (ho : Owns others s cells) (hcells : ∀ i, (cells i).map (fun x => x.2.first) = a i) {j : ι}
    (hl : IsList m.heap l ds) (hwithin : ∀ y ∈ ds, (∃ x ∈ cells i, y.1 = x.1) ∨ ∃ x ∈ cells j, y.1 = x.1)
    (hframe : ∀ p, (∀ x ∈ cells i, p ≠ x.1) → m.heap.node p = s.memory.heap.node p)
    (hds : ds.map (fun x => x.2.first) = xs) :
    ((s.set j NIL m).set i l m).Holds others (Function.update (Function.update a j []) i xs) := by
  have hempty : IsList s.memory.heap NIL [] := rfl
  have hdrop : Owns others (s.set j NIL s.memory) (Function.update cells j []) :=
    ho.set hempty (fun y hy => absurd hy List.not_mem_nil) fun _ _ => rfl
  -- what is foreign to `i` with `j` dropped was foreign to both
  have hforeign : ∀ p, Foreign others (Function.update cells j []) i p →
      Foreign others cells i p ∧ Foreign others cells j p := by
    rintro p (⟨k, hk, z, hz, hpz⟩ | hp)
    · by_cases hkj : k = j
      · rw [hkj, Function.update_self] at hz
        exact absurd hz List.not_mem_nil
      · rw [Function.update_of_ne hkj] at hz
        exact ⟨.inl ⟨k, hk, z, hz, hpz⟩, .inl ⟨k, hkj, z, hz, hpz⟩⟩
    · exact ⟨.inr hp, .inr hp⟩
  refine ⟨_, hdrop.set hl (fun y hy hp => ?_) fun p hp => ?_, map_update (map_update hcells rfl) hds⟩
  · obtain ⟨hpi, hpj⟩ := hforeign _ hp
    rcases hwithin y hy with ⟨x, hx, hyx⟩ | ⟨x, hx, hyx⟩
    · exact ho.foreign_ne hpi x hx hyx
    · exact ho.foreign_ne hpj x hx hyx
  · exact hframe p (ho.foreign_ne (hforeign p hp).1)

theorem Owns.concat (ho : Owns others s cells) (hcells : ∀ i, (cells i).map (fun x => x.2.first) = a i) {j : ι}
    (hfuel : (cells i).length ≤ fuel) (hij : i = j → a i = []) :
    ∃ l m, nconc s.memory fuel (s.root i) (s.root j) = .ok (l, m) ∧
      ((s.set j NIL m).set i l m).Holds others (Function.update (Function.update a j []) i
        (if a j = [] then a i else (a i).take 1 ++ a j)) := by
  have hi := ho.list i
  have hj := ho.list j
  have hai := hcells i
  have haj := hcells j
  by_cases hempty : cells j = []
  -- nothing to link
  · rw [hempty] at haj hj
    have hroot : s.root j = NIL := hj
    have hnone : a j = [] := haj.symm
    rw [if_pos hnone]
    refine ⟨s.root i, s.memory, ?_, ho.take hcells hi (fun y hy => .inl ⟨y, hy, rfl⟩) (fun _ _ => rfl) hai⟩
    by_cases hnil : s.root i = NIL
    · simp [nconc, hnil, hroot, pure, Except.pure]
    · simp [nconc, hnil, hroot, pure, Except.pure]
  · have hsome : a j ≠ [] := fun h => hempty (List.map_eq_nil_iff.mp (haj.trans h))
    have hne : i ≠ j := fun h => hsome (h ▸ hij h)
    rw [if_neg hsome, ← hai, ← haj]
    cases hcs : cells i with
    -- the second list becomes the first
    | nil =>
      rw [hcs] at hi
      have hroot : s.root i = NIL := hi
      refine ⟨s.root j, s.memory, ?_, ho.take hcells hj (fun y hy => .inr ⟨y, hy, rfl⟩) (fun _ _ => rfl) rfl⟩
      simp [nconc, hroot, pure, Except.pure]
    | cons x cs =>
      have hx : x ∈ cells i := hcs ▸ List.mem_cons_self
      rw [hcs] at hi hfuel
      obtain ⟨m, hrun, rfl, hlist⟩ :=
        nconc_cons hi hj hempty (fun y hy => ho.apart j i hne.symm y hy x hx) hfuel
      refine ⟨_, _, hrun, ho.take hcells hlist (fun y hy => ?_) (fun p hp => ?_) rfl⟩
      · rcases List.mem_cons.mp hy with rfl | hy
        · exact .inl ⟨x, hx, rfl⟩
        · exact .inr ⟨y, hy, rfl⟩
      · exact Memory.write_node_of_ne _ _ (hp x hx)

/-- A list is not linked to itself. -/
theorem nconc_self (hi : IsList m.heap l ds) (hds : ds ≠ []) : nconc m fuel l l = .error .elogError := by
  have hnil : l ≠ NIL := fun h => hds (hi.eq_nil_iff.mp h)
  simp [nconc, hnil, throw, throwThe, MonadExceptOf.throw, bind, Except.bind]

theorem Owns.free (ho : Owns others s cells) (hcells : ∀ i, (cells i).map (fun x => x.2.first) = a i) (i : ι)
    (hfuel : (cells i).length ≤ fuel) :
    ∃ m, freeList s.memory fuel (s.root i) = .ok m ∧ (s.set i NIL m).Holds others (Function.update a i []) := by
  obtain ⟨m, hrun, -, hframe⟩ := freeList_spec (ho.list i) hfuel
  have hempty : IsList m.heap NIL [] := rfl
  exact ⟨m, hrun, ho.change hcells ⟨hempty, fun y hy => absurd hy List.not_mem_nil, hframe⟩ rfl⟩

/-! ## Any calls -/

theorem ListCall.same_outcome (palloc : Palloc) (hs : s.Holds others a) (hfuel : ∀ i, (a i).length ≤ fuel)
    (c : ListCall ι) : SameOutcome others (c.run palloc fuel s) (c.meaning a) := by
  obtain ⟨cells, ho, hcells⟩ := hs
  have hcount : ∀ i, (a i).length = (cells i).length := by
    intro i
    rw [← hcells, List.length_map]
  have hlen : ∀ i, (cells i).length ≤ fuel := by
    intro i
    rw [← hcount]
    exact hfuel i
  cases c with
  | cons i d => exact .ok (ho.cons hcells palloc i d)
  | append i d =>
    obtain ⟨l, m, hrun, hholds⟩ := ho.append hcells palloc (hlen i) d
    rw [run, hrun]
    exact .ok hholds
  | concat i j =>
    rw [run, meaning]
    by_cases hself : i = j ∧ a i ≠ []
    · obtain ⟨rfl, hne⟩ := hself
      have hsome : cells i ≠ [] := fun h => hne (by rw [← hcells, h]; rfl)
      rw [if_pos ⟨rfl, hne⟩, nconc_self (ho.list i) hsome]
      exact .error _
    · have hij : i = j → a i = [] := fun h => by_contra fun hne => hself ⟨h, hne⟩
      obtain ⟨l, m, hrun, hholds⟩ := ho.concat hcells (hlen i) hij
      rw [if_neg hself, hrun]
      exact .ok hholds
  | copy i j =>
    rw [run, meaning]
    by_cases hj : a j = []
    · have hempty : cells j = [] := List.map_eq_nil_iff.mp ((hcells j).trans hj)
      have hroot : s.root j = NIL := (ho.list j).eq_nil_iff.mpr hempty
      rw [if_pos hj, hroot, listCopy_nil]
      exact .error _
    · obtain ⟨l, m, hrun, hholds⟩ := ho.copy hcells palloc (hlen j) hj
      rw [if_neg hj, hrun]
      exact .ok hholds
  | remove i d =>
    obtain ⟨l, m, ds, hrun, hchanged, hds⟩ := lremove_spec (ho.list i) (hlen i) d
    rw [run, hrun]
    exact .ok (ho.change hcells hchanged (hds.trans (by rw [hcells])))
  | truncate i n =>
    obtain ⟨l, m, ds, hrun, hchanged, hds⟩ := ltruncate_spec (ho.list i) (hlen i) n
    rw [run, hrun]
    exact .ok (ho.change hcells hchanged (hds.trans (by rw [hcells])))
  | setNth i n d =>
    rw [run, meaning]
    by_cases hn : n.toNat < (a i).length
    · obtain ⟨m, ds, hrun, hchanged, hds⟩ := setNth_spec (ho.list i) (hcount i ▸ hn) d
      rw [if_pos hn, hrun]
      exact .ok (ho.change hcells hchanged (hds.trans (by rw [hcells])))
    · have hbeyond : PostgresV7.Nodes.setNth s.memory (s.root i) n d = .error .badPointer :=
        nthCell_beyond (ho.list i) (hcount i ▸ Nat.le_of_not_lt hn)
          fun l c => .ok (s.memory.write l ⟨.list, { c with elem := d }⟩)
      rw [if_neg hn, hbeyond]
      exact .error _
  | nth i n =>
    rw [run, meaning]
    by_cases hn : n.toNat < (a i).length
    · obtain ⟨d, hd, hrun, -⟩ := nth_spec (ho.list i) (hcount i ▸ hn)
      rw [hcells] at hd
      rw [hrun, hd]
      exact .ok ⟨cells, ho, hcells⟩
    · have hbeyond : PostgresV7.Nodes.nth s.memory.heap n (s.root i) = .error .badPointer :=
        nthCell_beyond (ho.list i) (hcount i ▸ Nat.le_of_not_lt hn) fun _ c => .ok c.first
      rw [hbeyond, List.getElem?_eq_none (Nat.le_of_not_lt hn)]
      exact .error _
  | nthi i n =>
    rw [run, meaning]
    by_cases hn : n.toNat < (a i).length
    · obtain ⟨d, hd, -, hrun⟩ := nth_spec (ho.list i) (hcount i ▸ hn)
      rw [hcells] at hd
      rw [hrun, hd]
      exact .ok ⟨cells, ho, hcells⟩
    · have hbeyond : PostgresV7.Nodes.nthi s.memory.heap n (s.root i) = .error .badPointer :=
        nthCell_beyond (ho.list i) (hcount i ▸ Nat.le_of_not_lt hn) fun _ c => .ok c.firstI
      rw [hbeyond, List.getElem?_eq_none (Nat.le_of_not_lt hn)]
      exact .error _
  | length i =>
    rw [run, length_eq (ho.list i) (hlen i)]
    rw [meaning, hcount]
    exact .ok ⟨cells, ho, hcells⟩
  | free i =>
    obtain ⟨m, hrun, hholds⟩ := ho.free hcells i (hlen i)
    rw [run, hrun]
    exact .ok hholds

omit [DecidableEq ι] in
/-- What goes on from the same result in matching states. -/
theorem SameOutcome.bind {β γ : Type} {r : Except Fault (β × Lists ι)} {b : Except Fault (β × (ι → List Ptr))}
    {next : β × Lists ι → Except Fault (γ × Lists ι)}
    {next' : β × (ι → List Ptr) → Except Fault (γ × (ι → List Ptr))} (h : SameOutcome others r b)
    (hnext : ∀ v s a, b = .ok (v, a) → s.Holds others a → SameOutcome others (next (v, s)) (next' (v, a))) :
    SameOutcome others (r >>= next) (b >>= next') := by
  cases h with
  | ok hs => exact hnext _ _ _ rfl hs
  | error e => exact .error e

theorem length_update {n : Nat} (ha : ∀ i, (a i).length ≤ n) (hxs : xs.length ≤ n) (k : ι) :
    (Function.update a i xs k).length ≤ n := by
  by_cases hk : k = i
  · rw [hk, Function.update_self]
    exact hxs
  · rw [Function.update_of_ne hk]
    exact ha k

/-- No list gets longer than the longest by more than one element. -/
theorem ListCall.length_meaning {a' : ι → List Ptr} {c : ListCall ι} {v : Answer} {n : Nat}
    (hc : c.meaning a = .ok (v, a')) (hlen : ∀ i, (a i).length ≤ n) : ∀ i, (a' i).length ≤ n + 1 := by
  have hall : ∀ i, (a i).length ≤ n + 1 := fun i => (hlen i).trans (Nat.le_succ n)
  have hbehind : ∀ (i : ι) (xs : List Ptr), xs.length ≤ n → ((a i).take 1 ++ xs).length ≤ n + 1 := by
    intro i xs hxs
    rw [List.length_append, List.length_take]
    omega
  cases c with
  | cons i d =>
    cases hc
    exact length_update hall (Nat.succ_le_succ (hlen i))
  | append i d =>
    cases hc
    refine length_update hall ?_
    have hi := hlen i
    rw [List.length_append, List.length_take, List.length_singleton]
    omega
  | concat i j =>
    rw [meaning] at hc
    split at hc
    · cases hc
    · cases hc
      refine length_update (length_update hall (Nat.zero_le _)) ?_
      split
      · exact hall i
      · exact hbehind i _ (hlen j)
  | copy i j =>
    rw [meaning] at hc
    split at hc
    · cases hc
    · cases hc
      exact length_update hall (hall j)
  | remove i d =>
    cases hc
    exact length_update hall (List.length_erase_le.trans (hall i))
  | truncate i n =>
    cases hc
    exact length_update hall ((List.length_take_le' ..).trans (hall i))
  | setNth i n d =>
    rw [meaning] at hc
    split at hc
    · cases hc
      exact length_update hall (List.length_set.le.trans (hall i))
    · cases hc
  | nth i n =>
    rw [meaning] at hc
    split at hc
    · cases hc
      exact hall
    · cases hc
  | nthi i n =>
    rw [meaning] at hc
    split at hc
    · cases hc
      exact hall
    · cases hc
  | length i =>
    cases hc
    exact hall
  | free i =>
    cases hc
    exact length_update hall (Nat.zero_le _)

/-- Any calls on any number of lists return what the sequences say, or fail where they do, and no
node that was in no list is touched. -/
theorem list_run (palloc : Palloc) {calls : List (ListCall ι)} (hs : s.Holds others a)
    (hfuel : ∀ i, (a i).length + calls.length ≤ fuel) :
    SameOutcome others (runLists palloc fuel s calls) (meaningAll a calls) := by
  induction calls generalizing s a with
  | nil => exact .ok hs
  | cons c calls ih =>
    have hlen : ∀ i, (a i).length ≤ fuel := fun i => (Nat.le_add_right ..).trans (hfuel i)
    refine (c.same_outcome palloc hs hlen).bind fun v s' a' hc hs' => ?_
    have hlen' : ∀ i, (a' i).length + calls.length ≤ fuel := by
      have hgrow := c.length_meaning hc (n := fuel - calls.length - 1) fun i => by
        have hi := hfuel i
        rw [List.length_cons] at hi
        omega
      intro i
      have hi := hfuel i
      have hi' := hgrow i
      rw [List.length_cons] at hi
      omega
    exact (ih hs' hlen').bind fun vs s'' a'' _ hs'' => .ok hs''

/-- Two variables without a cell, beside a node that is in no list. -/
def besideNode : Lists Bool := ⟨cellMemory [(50, ⟨7, NIL⟩)], fun _ => NIL⟩

theorem besideNode_holds : besideNode.Holds besideNode.memory.heap.node fun _ => [] :=
  ⟨fun _ => [], ⟨fun _ => rfl, fun _ _ _ _ hx => absurd hx List.not_mem_nil, fun _ _ hp => hp,
    fun _ _ _ _ _ hz => absurd hz List.not_mem_nil⟩, fun _ => rfl⟩

def twoListCalls : List (ListCall Bool) :=
  [.cons false 1, .cons true 2, .append false 3, .concat true false, .length true, .nth true 1,
    .setNth true 0 9, .copy false true, .remove false 3, .free true, .nth false 0, .length false]

theorem meaningAll_twoListCalls : ∃ a, meaningAll (fun _ => []) twoListCalls = .ok ([.none, .none, .none,
    .none, .length 3, .elem 1, .none, .none, .none, .none, .elem 9, .length 2], a) := by
  simp [twoListCalls, meaningAll, ListCall.meaning, bind, Except.bind, pure, Except.pure]

theorem list_run_example : ∃ s', runLists atLimit 12 besideNode twoListCalls = .ok ([.none, .none, .none,
      .none, .length 3, .elem 1, .none, .none, .none, .none, .elem 9, .length 2], s') ∧
    s'.memory.heap.node 50 = some ⟨.list, ⟨7, NIL⟩⟩ := by
  have hfuel : ∀ _i : Bool, ([] : List Ptr).length + twoListCalls.length ≤ 12 := fun _ => by decide
  have hrun := list_run atLimit besideNode_holds hfuel
  obtain ⟨a, ha⟩ := meaningAll_twoListCalls
  rw [ha] at hrun
  cases hr : runLists atLimit 12 besideNode twoListCalls with
  | error e =>
    rw [hr] at hrun
    cases hrun
  | ok r =>
    rw [hr] at hrun
    cases hrun with
    | ok hs =>
      obtain ⟨cells, ho, -⟩ := hs
      exact ⟨_, rfl, ho.outside 50 _ rfl⟩

end PostgresV7.Nodes
