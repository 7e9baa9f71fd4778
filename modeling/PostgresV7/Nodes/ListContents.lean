import PostgresV7.Nodes.PgList
import PostgresV7.Lib.Chain

/-!
# What a list in memory denotes

A `NIL`-terminated list is the cells its links lead through, each with its
address. Walks over such a list return once their fuel covers its length, and a
list under construction is made of cells that were free before.
-/

namespace PostgresV7.Nodes

variable {α : Type} {h h' : Heap} {m m₀ m₁ m₂ : Memory} {l p : Ptr} {c : ListCell}
  {cs : List (Ptr × ListCell)} {fuel : Nat}

/-- The list at `l` has exactly the cells `cs`, in order, and ends in `NIL`. -/
def IsList (h : Heap) : Ptr → List (Ptr × ListCell) → Prop
  | l, [] => l = NIL
  | l, (p, c) :: cs => l = p ∧ p ≠ NIL ∧ h.node p = some ⟨.list, c⟩ ∧ IsList h c.next cs

/-- The list at `l` denotes the sequence `xs` of what `read` finds in its cells. -/
def ListOf (read : ListCell → α) (h : Heap) (l : Ptr) (xs : List α) : Prop :=
  ∃ cs, IsList h l cs ∧ cs.map (fun x => read x.2) = xs

/-- Every node of `m` is still there in `m'`, unchanged. -/
def Memory.Extends (m m' : Memory) : Prop :=
  ∀ p x, m.heap.node p = some x → m'.heap.node p = some x

/-! ## Cells -/

theorem IsList.eq_nil_iff (hl : IsList h l cs) : l = NIL ↔ cs = [] := by
  cases cs with
  | nil => exact iff_of_true hl rfl
  | cons x cs =>
    obtain ⟨rfl, hne, -⟩ := hl
    simp [hne]

theorem IsList.node (hl : IsList h l cs) {x : Ptr × ListCell} (hx : x ∈ cs) :
    h.node x.1 = some ⟨.list, x.2⟩ := by
  induction cs generalizing l with
  | nil => cases hx
  | cons y cs ih =>
    obtain ⟨-, -, hnode, hrest⟩ := hl
    cases hx with
    | head => exact hnode
    | tail _ hx => exact ih hrest hx

/-- A list depends on its own cells only. -/
theorem IsList.congr (hl : IsList h l cs)
    (hsame : ∀ x ∈ cs, h'.node x.1 = h.node x.1) : IsList h' l cs := by
  induction cs generalizing l with
  | nil => exact hl
  | cons x cs ih =>
    obtain ⟨hlx, hne, hnode, hrest⟩ := hl
    have hx : h'.node x.1 = h.node x.1 := hsame x (by simp)
    have htail := ih hrest fun y hy => hsame y (List.mem_cons_of_mem x hy)
    exact ⟨hlx, hne, hx.trans hnode, htail⟩

theorem IsList.extends (hl : IsList m.heap l cs) (hext : m.Extends m₁) :
    IsList m₁.heap l cs := by
  apply hl.congr
  intro x hx
  rw [hl.node hx]
  exact hext x.1 _ (hl.node hx)

theorem ListOf.extends {read : ListCell → α} {xs : List α} (hl : ListOf read m.heap l xs)
    (hext : m.Extends m₁) : ListOf read m₁.heap l xs := by
  obtain ⟨cs, hcs, hread⟩ := hl
  exact ⟨cs, hcs.extends hext, hread⟩

/-- One address starts one list. -/
theorem IsList.unique {ds : List (Ptr × ListCell)} (hl : IsList h l cs) (hl' : IsList h l ds) :
    cs = ds := by
  induction cs generalizing l ds with
  | nil => exact (hl'.eq_nil_iff.1 hl).symm
  | cons x cs ih =>
    obtain ⟨hlx, hne, hnode, hrest⟩ := hl
    cases ds with
    | nil => exact absurd (hlx.symm.trans hl') hne
    | cons y ds =>
      obtain ⟨hly, -, hnode', hrest'⟩ := hl'
      have haddr : x.1 = y.1 := hlx.symm.trans hly
      have hcell : x.2 = y.2 := by
        rw [haddr, hnode'] at hnode
        simpa using hnode.symm
      have hxy : x = y := Prod.ext haddr hcell
      rw [hcell] at hrest
      rw [hxy, ih hrest hrest']

/-- The link of the cell at an address. -/
def nextOf (h : Heap) (p : Ptr) : Ptr :=
  match h.node p with
  | some ⟨.list, c⟩ => c.next
  | _ => NIL

/-- The addresses of a list are linked through the cells. -/
theorem IsList.linked (hl : IsList h l cs) :
    Chains.Linked id NIL (nextOf h) l (cs.map Prod.fst) := by
  induction cs generalizing l with
  | nil => exact hl
  | cons x cs ih =>
    obtain ⟨rfl, hne, hnode, hrest⟩ := hl
    have hnext : nextOf h x.1 = x.2.next := by simp [nextOf, hnode]
    have htail := ih hrest
    rw [← hnext] at htail
    exact htail.cons hne

theorem IsList.nodup (hl : IsList h l cs) : (cs.map Prod.fst).Nodup := hl.linked.nodup

/-- Linking a list behind the last cell of another one. -/
theorem IsList.relink {x : Ptr × ListCell} {q : Ptr} {ds : List (Ptr × ListCell)}
    (hl : IsList h l (cs ++ [x])) (hx : h'.node x.1 = some ⟨.list, { x.2 with next := q }⟩)
    (hcs : ∀ y ∈ cs, h'.node y.1 = h.node y.1) (hq : IsList h' q ds) :
    IsList h' l (cs ++ (x.1, { x.2 with next := q }) :: ds) := by
  induction cs generalizing l with
  | nil =>
    obtain ⟨hlx, hne, -, -⟩ := hl
    exact ⟨hlx, hne, hx, hq⟩
  | cons y cs ih =>
    obtain ⟨hly, hne, hnode, hrest⟩ := hl
    have hy : h'.node y.1 = h.node y.1 := hcs y (by simp)
    have htail := ih hrest fun z hz => hcs z (List.mem_cons_of_mem y hz)
    exact ⟨hly, hne, hy.trans hnode, htail⟩

theorem cellAt_eq (hne : l ≠ NIL) (hnode : h.node l = some ⟨.list, c⟩) : cellAt h l = .ok c := by
  simp [cellAt, hne, hnode]

theorem cellAt_nil : cellAt h NIL = .error .badPointer := by simp [cellAt]

theorem setNext_eq (hne : l ≠ NIL) (hnode : m.heap.node l = some ⟨.list, c⟩) (next : Ptr) :
    setNext m l next = .ok (m.write l ⟨.list, { c with next := next }⟩) := by
  rw [setNext, cellAt_eq hne hnode]
  rfl

/-! ## Walks -/

theorem cells_eq (hl : IsList h l cs) (hfuel : cs.length ≤ fuel) :
    cells h fuel l = .ok (cs.map Prod.snd) := by
  induction cs generalizing l fuel with
  | nil =>
    have hnil : l = NIL := hl
    rw [cells.eq_def, if_pos hnil]
    rfl
  | cons x cs ih =>
    obtain ⟨rfl, hne, hnode, hrest⟩ := hl
    cases fuel with
    | zero => simp at hfuel
    | succ fuel =>
      have hcells := ih hrest (by simpa using hfuel)
      rw [cells.eq_def, if_neg hne]
      simp [hnode, hcells, Except.map]

theorem length_eq (hl : IsList h l cs) (hfuel : cs.length ≤ fuel) :
    length h fuel l = .ok cs.length := by
  simp [length, cells_eq hl hfuel, Except.map]

/-- A walk that looks for a cell finds out whether there is one. -/
theorem forEachUntil_eq {body : ListCell → Except Fault Bool} (found : ListCell → Bool)
    (hl : IsList h l cs) (hfuel : cs.length ≤ fuel)
    (hbody : ∀ x ∈ cs, body x.2 = .ok (found x.2)) :
    forEachUntil h body fuel l = .ok (cs.any fun x => found x.2) := by
  induction cs generalizing l fuel with
  | nil =>
    have hnil : l = NIL := hl
    rw [forEachUntil.eq_def, if_pos hnil]
    rfl
  | cons x cs ih =>
    obtain ⟨rfl, hne, hnode, hrest⟩ := hl
    cases fuel with
    | zero => simp at hfuel
    | succ fuel =>
      have htail := ih hrest (by simpa using hfuel) fun y hy =>
        hbody y (List.mem_cons_of_mem x hy)
      have hhead : body x.2 = .ok (found x.2) := hbody x (by simp)
      rw [forEachUntil.eq_def, if_neg hne]
      cases hfound : found x.2 <;>
        simp [cellAt_eq hne hnode, hhead, htail, hfound, bind, Except.bind, pure, Except.pure]

/-- The walk of `nconc` returns. -/
theorem lastCell_returns (hl : IsList h l cs) (hne : cs ≠ []) (hfuel : cs.length ≤ fuel) :
    ∃ temp, lastCell h fuel l = .ok temp := by
  induction cs generalizing l fuel with
  | nil => exact absurd rfl hne
  | cons x cs ih =>
    obtain ⟨rfl, hnil, hnode, hrest⟩ := hl
    cases fuel with
    | zero => simp at hfuel
    | succ fuel =>
      rw [lastCell, cellAt_eq hnil hnode]
      by_cases hend : x.2.next = NIL
      · exact ⟨x.1, by simp [bind, Except.bind, hend]; rfl⟩
      · have hcs : cs ≠ [] := fun hcs => hend (hrest.eq_nil_iff.2 hcs)
        obtain ⟨temp, htemp⟩ := ih hrest hcs (by simpa using hfuel)
        exact ⟨temp, by simp [bind, Except.bind, hend, htemp]⟩

/-- A walk that works on memory keeps what its body keeps, as long as the list it
walks along stays as it is. -/
theorem forEach_run {body : ListCell → Ptr → Memory → Except Fault (Ptr × Memory)}
    {P : List ListCell → Ptr → Memory → Prop} {done : List ListCell} {var : Ptr}
    (hl : IsList m₀.heap l cs) (hfuel : cs.length ≤ fuel)
    (hkeep : ∀ done var m, P done var m → m₀.Extends m)
    (hstep : ∀ done var m, P done var m → ∀ x ∈ cs, ∃ var' m',
      body x.2 var m = .ok (var', m') ∧ P (done ++ [x.2]) var' m')
    (hP : P done var m) :
    ∃ var' m', forEach body fuel l var m = .ok (var', m') ∧ P (done ++ cs.map Prod.snd) var' m' := by
  induction cs generalizing l fuel done var m with
  | nil =>
    have hnil : l = NIL := hl
    refine ⟨var, m, ?_, by simpa using hP⟩
    rw [forEach.eq_def, if_pos hnil]
  | cons x cs ih =>
    obtain ⟨rfl, hne, hnode, hrest⟩ := hl
    cases fuel with
    | zero => simp at hfuel
    | succ fuel =>
      obtain ⟨var₁, m₁, hbody, hP₁⟩ := hstep done var m hP x (by simp)
      have hread : cellAt m.heap x.1 = .ok x.2 := cellAt_eq hne (hkeep _ _ _ hP _ _ hnode)
      have hread₁ : cellAt m₁.heap x.1 = .ok x.2 := cellAt_eq hne (hkeep _ _ _ hP₁ _ _ hnode)
      obtain ⟨var', m', hrun, hP'⟩ := ih hrest (by simpa using hfuel)
        (fun done var m hP y hy => hstep done var m hP y (List.mem_cons_of_mem x hy)) hP₁
      refine ⟨var', m', ?_, by simpa using hP'⟩
      rw [forEach.eq_def, if_neg hne]
      simp [hread, hbody, hread₁, hrun, bind, Except.bind]

/-! ## New cells -/

theorem Memory.Extends.refl (m : Memory) : m.Extends m := fun _ _ hp => hp

theorem Memory.Extends.trans (h₁ : m.Extends m₁) (h₂ : m₁.Extends m₂) : m.Extends m₂ :=
  fun p x hp => h₂ p x (h₁ p x hp)

/-- What was free may be written. -/
theorem Memory.Extends.write (hext : m₀.Extends m) (hfree : m₀.heap.node p = none) (x : Node) :
    m₀.Extends (m.write p x) := by
  intro q y hq
  have hne : q ≠ p := by
    intro hqp
    rw [hqp, hfree] at hq
    cases hq
  rw [write_node_of_ne m x hne]
  exact hext q y hq

/-- What is free now was free before. -/
theorem Memory.Extends.free (hext : m₀.Extends m) (hfree : m.heap.node p = none) :
    m₀.heap.node p = none := by
  cases hnode : m₀.heap.node p with
  | none => rfl
  | some x =>
    rw [hext p x hnode] at hfree
    cases hfree

/-- The list at `l` denotes `xs`, and its cells have come after `m₀`. -/
def Built (read : ListCell → α) (m₀ m : Memory) (l : Ptr) (xs : List α) : Prop :=
  ∃ cs, IsList m.heap l cs ∧ cs.map (fun x => read x.2) = xs ∧
    ∀ x ∈ cs, m₀.heap.node x.1 = none

/-- What is read from a cell does not depend on its link. -/
def ReadsElem (read : ListCell → α) : Prop :=
  ∀ c next, read { c with next := next } = read c

theorem readsElem_first : ReadsElem ListCell.first := fun _ _ => rfl

theorem readsElem_firstI : ReadsElem ListCell.firstI := fun _ _ => rfl

variable {palloc : Palloc} {read : ListCell → α}

theorem built_nil (m₀ m : Memory) : Built read m₀ m NIL [] :=
  ⟨[], rfl, rfl, fun _ hx => absurd hx List.not_mem_nil⟩

theorem Built.listOf {xs : List α} (hb : Built read m₀ m l xs) : ListOf read m.heap l xs := by
  obtain ⟨cs, hl, hread, -⟩ := hb
  exact ⟨cs, hl, hread⟩

theorem lcons_node (palloc : Palloc) (m : Memory) (d : Ptr) :
    IsList (lcons palloc m d NIL).2.heap (palloc.address m) [(palloc.address m, ⟨d, NIL⟩)] :=
  ⟨rfl, palloc.address_ne_nil m, by simp [lcons], rfl⟩

theorem lcons_extends (palloc : Palloc) (m : Memory) (d l : Ptr) :
    m.Extends (lcons palloc m d l).2 :=
  (Memory.Extends.refl m).write (palloc.address_unused m) _

/-- `nconc` links the second list to the first cell of the first one. -/
theorem nconc_cons {l₂ : Ptr} {x : Ptr × ListCell} {ds : List (Ptr × ListCell)}
    (h₁ : IsList m.heap l (x :: cs)) (h₂ : IsList m.heap l₂ ds) (hds : ds ≠ [])
    (hx : ∀ y ∈ ds, y.1 ≠ x.1) (hfuel : (x :: cs).length ≤ fuel) :
    ∃ m', nconc m fuel l l₂ = .ok (l, m') ∧
      m' = m.write x.1 ⟨.list, { x.2 with next := l₂ }⟩ ∧
      IsList m'.heap l ((x.1, { x.2 with next := l₂ }) :: ds) := by
  obtain ⟨temp, htemp⟩ := lastCell_returns h₁ (by simp) hfuel
  obtain ⟨rfl, hne, hnode, -⟩ := h₁
  have hl₂ : l₂ ≠ NIL := fun hnil => hds (h₂.eq_nil_iff.1 hnil)
  have hdiff : x.1 ≠ l₂ := by
    cases ds with
    | nil => exact absurd rfl hds
    | cons y ds =>
      obtain ⟨rfl, -⟩ := h₂
      exact (hx y (by simp)).symm
  refine ⟨_, ?_, rfl, rfl, hne, by simp, ?_⟩
  · simp [nconc, hne, hl₂, hdiff, htemp, setNext_eq hne hnode, bind, Except.bind, pure,
      Except.pure]
  · apply h₂.congr
    intro y hy
    simp [hx y hy]

/-- `lappend` keeps the first element and puts the new one right behind it. It
writes the new cell and cells of the list only. -/
theorem lappend_spec (palloc : Palloc) (hread : ReadsElem read) (d : Ptr)
    (hl : IsList m.heap l cs) (hfuel : cs.length ≤ fuel) :
    ∃ l' m' ds, lappend palloc m fuel l d = .ok (l', m') ∧ IsList m'.heap l' ds ∧
      ds.map (fun x => read x.2) = (cs.map fun x => read x.2).take 1 ++ [read ⟨d, NIL⟩] ∧
      (∀ y ∈ ds, y.1 = palloc.address m ∨ ∃ x ∈ cs, y.1 = x.1) ∧
      ∀ p, p ≠ palloc.address m → (∀ x ∈ cs, p ≠ x.1) → m'.heap.node p = m.heap.node p := by
  have hnew := lcons_node palloc m d
  have hext := lcons_extends palloc m d NIL
  have hframe : ∀ p, p ≠ palloc.address m → (lcons palloc m d NIL).2.heap.node p =
      m.heap.node p := fun p hp => Memory.write_node_of_ne m _ hp
  cases cs with
  | nil =>
    have hnil : l = NIL := hl
    refine ⟨_, _, _, ?_, hnew, by simp, by simp, fun p hp _ => hframe p hp⟩
    simp [lappend, nconc, hnil, lcons, pure, Except.pure]
  | cons x cs =>
    have hx : palloc.address m ≠ x.1 := by
      intro heq
      have hnode := hl.node (List.mem_cons_self (a := x) (l := cs))
      rw [← heq, palloc.address_unused m] at hnode
      cases hnode
    obtain ⟨m', hrun, rfl, hlist⟩ := nconc_cons (hl.extends hext) hnew (by simp)
      (fun y hy => by simpa [List.mem_singleton.1 hy] using hx) hfuel
    refine ⟨l, _, _, hrun, hlist, ?_, ?_, ?_⟩
    · simp [hread x.2 (palloc.address m)]
    · intro y hy
      obtain rfl | rfl : y = (x.1, { x.2 with next := palloc.address m }) ∨
          y = (palloc.address m, ⟨d, NIL⟩) := by simpa using hy
      · exact .inr ⟨x, by simp, rfl⟩
      · exact .inl rfl
    · intro p hp hcells
      rw [Memory.write_node_of_ne _ _ (hcells x (by simp))]
      exact hframe p hp

/-- Appending to a list under construction. -/
theorem Built.lappend {xs : List α} (palloc : Palloc) (hread : ReadsElem read) (d : Ptr)
    (hb : Built read m₀ m l xs) (hext : m₀.Extends m) (hfuel : xs.length ≤ fuel) :
    ∃ l' m', lappend palloc m fuel l d = .ok (l', m') ∧
      Built read m₀ m' l' (xs.take 1 ++ [read ⟨d, NIL⟩]) ∧ m₀.Extends m' := by
  obtain ⟨cs, hl, rfl, hfresh⟩ := hb
  obtain ⟨l', m', ds, hrun, hlist, hds, hfoot, hframe⟩ :=
    lappend_spec palloc hread d hl (by simpa using hfuel)
  have hfree : m₀.heap.node (palloc.address m) = none := hext.free (palloc.address_unused m)
  refine ⟨l', m', hrun, ⟨ds, hlist, hds, ?_⟩, ?_⟩
  · intro y hy
    rcases hfoot y hy with haddr | ⟨x, hx, haddr⟩
    · rw [haddr, hfree]
    · rw [haddr, hfresh x hx]
  · intro p x hp
    have hne : p ≠ palloc.address m := by
      rintro rfl
      simp [hfree] at hp
    have hcells : ∀ y ∈ cs, p ≠ y.1 := by
      rintro y hy rfl
      simp [hfresh y hy] at hp
    rw [hframe p hne hcells]
    exact hext p x hp

/-- The cells copied this far end in the one at `nl`. -/
structure Copying (read : ListCell → α) (m₀ m : Memory) (l nl : Ptr) (xs : List α) : Prop where
  extends_ : m₀.Extends m
  cells : ∃ cs c, IsList m.heap l (cs ++ [(nl, c)]) ∧
    (cs ++ [(nl, c)]).map (fun x => read x.2) = xs ∧
    ∀ y ∈ cs ++ [(nl, c)], m₀.heap.node y.1 = none

/-- One more cell is copied. -/
theorem Copying.step {xs : List α} {nl : Ptr} (palloc : Palloc) (hread : ReadsElem read)
    (hcopy : Copying read m₀ m l nl xs) (e : ListCell) :
    ∃ nl' m', copyCell palloc e nl m = .ok (nl', m') ∧
      Copying read m₀ m' l nl' (xs ++ [read e]) := by
  obtain ⟨hext, cs, c, hl, rfl, hfresh⟩ := hcopy
  have hlist := hl.extends (lcons_extends palloc m e.first NIL)
  have hnl : nl ≠ NIL := hl.linked.ne_nil (by simp)
  have hnode := hlist.node (x := (nl, c)) (by simp)
  have haddr : palloc.address m ≠ nl := by
    intro heq
    have hold := hl.node (x := (nl, c)) (by simp)
    simp [← heq, palloc.address_unused m] at hold
  have hfree : m₀.heap.node (palloc.address m) = none := hext.free (palloc.address_unused m)
  have hnlfree : m₀.heap.node nl = none := hfresh (nl, c) (by simp)
  have hset := setNext_eq hnl hnode (palloc.address m)
  have hbody : copyCell palloc e nl m = .ok (palloc.address m,
      (lcons palloc m e.first NIL).2.write nl ⟨.list, { c with next := palloc.address m }⟩) := by
    rw [copyCell]
    change (setNext (lcons palloc m e.first NIL).2 nl (palloc.address m) >>= _) = _
    rw [hset]
    rfl
  refine ⟨_, _, hbody, ?_, ?_⟩
  · exact (hext.trans (lcons_extends palloc m e.first NIL)).write hnlfree _
  · refine ⟨cs ++ [(nl, { c with next := palloc.address m })], ⟨e.first, NIL⟩, ?_, ?_, ?_⟩
    · rw [List.append_assoc]
      apply hlist.relink (by simp)
      · intro y hy
        have hne : y.1 ≠ nl := by
          intro heq
          have hnodup := hl.nodup
          simp only [List.map_append, List.map_cons, List.map_nil] at hnodup
          have hdisj := List.disjoint_of_nodup_append hnodup
          exact hdisj (List.mem_map_of_mem hy) (by simp [heq])
        simp [hne]
      · have hnew := lcons_node palloc m e.first
        apply hnew.congr
        intro y hy
        simp [List.mem_singleton.1 hy, haddr]
    · have he : read ⟨e.first, NIL⟩ = read e := hread e NIL
      simp [hread c (palloc.address m), he]
    · intro y hy
      rcases List.mem_append.1 hy with hy | hy
      · rcases List.mem_append.1 hy with hy | hy
        · exact hfresh y (by simp [hy])
        · simpa [List.mem_singleton.1 hy] using hnlfree
      · simpa [List.mem_singleton.1 hy] using hfree

/-- `list_copy` builds a list of what the cells hold. -/
theorem listCopy_cons {x : Ptr × ListCell} (palloc : Palloc) (hread : ReadsElem read)
    (hl : IsList m.heap l (x :: cs)) (hfuel : cs.length ≤ fuel) :
    ∃ l' m', listCopy palloc m fuel l = .ok (l', m') ∧
      Built read m m' l' ((x :: cs).map fun y => read y.2) ∧ m.Extends m' := by
  obtain ⟨rfl, hne, hnode, hrest⟩ := hl
  have hext := lcons_extends palloc m x.2.first NIL
  have hfirst : Copying read m (lcons palloc m x.2.first NIL).2 (palloc.address m)
      (palloc.address m) ([x.2].map read) := by
    refine ⟨hext, [], ⟨x.2.first, NIL⟩, lcons_node palloc m x.2.first, ?_, ?_⟩
    · exact congrArg (fun v => [v]) (hread x.2 NIL)
    · intro y hy
      simpa [List.mem_singleton.1 hy] using palloc.address_unused m
  have hstep : ∀ (done : List ListCell) nl m',
      Copying read m m' (palloc.address m) nl (done.map read) → ∀ y ∈ cs, ∃ nl' m'',
        copyCell palloc y.2 nl m' = .ok (nl', m'') ∧
          Copying read m m'' (palloc.address m) nl' ((done ++ [y.2]).map read) := by
    intro done nl m' hcopy y _
    rw [List.map_append]
    exact hcopy.step palloc hread y.2
  obtain ⟨nl, m', hrun, hext', ds, c, hds, hmap, hfresh⟩ := forEach_run hrest hfuel
    (fun done nl m' hcopy => hcopy.extends_) hstep hfirst
  refine ⟨palloc.address m, m', ?_, ⟨ds ++ [(nl, c)], hds, by simpa [Function.comp_def] using hmap, hfresh⟩, hext'⟩
  have hread₁ : cellAt m.heap x.1 = .ok x.2 := cellAt_eq hne hnode
  have hread₂ : cellAt (lcons palloc m x.2.first NIL).2.heap x.1 = .ok x.2 :=
    cellAt_eq hne (hext _ _ hnode)
  rw [listCopy, hread₁]
  change (cellAt (lcons palloc m x.2.first NIL).2.heap x.1 >>= _) = _
  rw [hread₂]
  change (forEach (copyCell palloc) fuel x.2.next (palloc.address m)
    (lcons palloc m x.2.first NIL).2 >>= _) = _
  rw [hrun]
  rfl

/-- `list_copy` reads the first cell of `NIL`. -/
theorem listCopy_nil (palloc : Palloc) (m : Memory) (fuel : Nat) :
    listCopy palloc m fuel NIL = .error .badPointer := by
  rw [listCopy, cellAt_nil]
  rfl

/-- What one list denotes is determined. -/
theorem ListOf.unique {xs ys : List α} (hx : ListOf read h l xs) (hy : ListOf read h l ys) :
    xs = ys := by
  obtain ⟨cs, hl, rfl⟩ := hx
  obtain ⟨ds, hl', rfl⟩ := hy
  rw [hl.unique hl']

end PostgresV7.Nodes
