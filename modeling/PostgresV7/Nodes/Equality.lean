import PostgresV7.Nodes.Routines

/-!
# `equal` as equality of what it looks at

Following the compared fields from a pointer gives its view, a tree in which a
node that no routine can compare stands for itself. `equal` decides whether two
views are the same, however the two structures share their nodes. With the
fields the routines overlook added, the view becomes the node tree itself.
-/

namespace PostgresV7.Nodes

open TermGraph

/-- A node as `equal` sees it: the tag, the compared fields and the children
among them. -/
def viewLook (h : Heap) (depth : Nat) (p : Ptr) : Option ((NodeTag × List Field) × List Ptr) :=
  if p = NIL then none
  else
    match h.node p with
    | none => none
    | some ⟨t, x⟩ =>
      if sound h depth t x then
        some ((t, (compared h depth t x).map Field.shape), pointers (compared h depth t x))
      else
        none

/-- What `equal` looks at from a pointer, to a depth. -/
def view (h : Heap) : Nat → Ptr → Tree Ptr (NodeTag × List Field) := unfold (viewLook h)

theorem viewLook_eq_some {h : Heap} {n : Nat} {p : Ptr} {l : NodeTag × List Field}
    {ks : List Ptr} :
    viewLook h n p = some (l, ks) ↔ p ≠ NIL ∧ ∃ t x, h.node p = some ⟨t, x⟩ ∧
      sound h n t x = true ∧ l = (t, (compared h n t x).map Field.shape) ∧
      ks = pointers (compared h n t x) := by
  unfold viewLook
  by_cases hp : p = NIL
  · simp [hp]
  · cases hx : h.node p with
    | none => simp [hp]
    | some x =>
      obtain ⟨t, x⟩ := x
      by_cases hs : sound h n t x = true
      · simp only [hp, if_false, hs, if_true, Option.some.injEq, Prod.mk.injEq, ne_eq,
          not_false_eq_true, true_and, Node.mk.injEq]
        refine ⟨fun he => ⟨t, x, ⟨rfl, HEq.rfl⟩, hs, he.1.symm, he.2.symm⟩, ?_⟩
        intro ⟨t', x', ⟨ht, hx'⟩, _, hl, hk⟩
        subst ht
        cases hx'
        exact ⟨hl.symm, hk.symm⟩
      · simp only [hp, if_false, hs, reduceCtorEq, false_iff, not_and, Option.some.injEq]
        intro _ ⟨t', x', hx', hs', _⟩
        cases hx'
        exact hs hs'

theorem equal_self (h : Heap) (n : Nat) (p : Ptr) : equal h n p p = .ok true := by
  rw [equal.eq_def, if_pos rfl]

/-- On two different nodes in memory `equal` compares tags and then payloads. -/
theorem equal_succ_iff {h : Heap} {n : Nat} {p q : Ptr} (hpq : p ≠ q) :
    equal h (n + 1) p q = .ok true ↔ p ≠ NIL ∧ q ≠ NIL ∧ ∃ t a b, h.node p = some ⟨t, a⟩ ∧
      h.node q = some ⟨t, b⟩ ∧ Passes h n (equal h n) t a b := by
  rw [equal.eq_def, if_neg hpq]
  by_cases hnil : p = NIL ∨ q = NIL
  · rw [if_pos hnil]
    simp only [Except.ok.injEq, Bool.false_eq_true, false_iff]
    exact fun ⟨hp, hq, _⟩ => hnil.elim hp hq
  · rw [if_neg hnil]
    have hp : p ≠ NIL := fun e => hnil (.inl e)
    have hq : q ≠ NIL := fun e => hnil (.inr e)
    simp only [hp, hq, ne_eq, not_false_eq_true, true_and]
    cases hx : h.node p with
    | none => simp
    | some x =>
      cases hy : h.node q with
      | none => simp
      | some y =>
        obtain ⟨t, a⟩ := x
        obtain ⟨t', b⟩ := y
        by_cases ht : t = t'
        · subst ht
          simp only [dite_true, equalNode_returns]
          refine ⟨fun hpass => ⟨t, a, b, rfl, rfl, hpass⟩, ?_⟩
          intro ⟨t', a', b', ha, hb, hpass⟩
          cases ha
          cases hb
          exact hpass
        · simp only [ht, dite_false, Except.ok.injEq, Bool.false_eq_true, false_iff]
          intro ⟨s, a', b', ha, hb, _⟩
          cases ha
          cases hb
          exact ht rfl

theorem walks_eq_of_intList {h : Heap} {n : Nat} {l k : Ptr}
    (he : intList h n l = intList h n k) : walks h n l = walks h n k := by
  unfold intList at he
  unfold walks
  cases hl : cells h n l <;> cases hk : cells h n k <;> simp_all [Except.map, Except.isOk,
    Except.toBool]

theorem param_sound {h : Heap} {n : Nat} {a b : Param} (hk : a.paramKind = b.paramKind)
    (hs : sound h n .param a = true)
    (hm : a.identity.map Field.shape = b.identity.map Field.shape) :
    sound h n .param b = true := by
  have hname : b.byName ↔ a.byName := by rw [Param.byName, Param.byName, hk]
  have hnum : b.byNumber ↔ a.byNumber := by rw [Param.byNumber, Param.byNumber, hk]
  simp only [sound, Param.identity, hname, hnum, ← hk] at hs hm ⊢
  by_cases hn : a.byName
  · simp_all [Field.shape]
  · simpa only [hn, if_false] using hs

/-- Soundness shows in the compared fields. -/
theorem sound_of_shape {h : Heap} {n : Nat} {t : NodeTag} {a b : Payload t}
    (hs : sound h n t a = true)
    (hm : (compared h n t a).map Field.shape = (compared h n t b).map Field.shape) :
    sound h n t b = true := by
  cases t with
  | stream =>
    simp only [sound, compared, List.map_cons, Field.shape, List.cons.injEq,
      Field.number.injEq] at hs hm ⊢
    rw [← Double.isNaN_of_key_eq hm.2.2.1, ← Double.isNaN_of_key_eq hm.2.2.2.1]
    exact hs
  | attr => simp_all [sound, compared, Field.shape]
  | const =>
    simp only [sound, compared, List.cons_append, List.map_cons, Field.shape, List.cons.injEq,
      Field.flag.injEq, constDatum] at hs hm ⊢
    obtain ⟨-, -, hn, hv, hd⟩ := hm
    rw [← hn, ← hv] at hd ⊢
    cases hna : a.constIsNull <;> cases hva : a.constByVal <;> simp_all [Field.shape]
  | param =>
    simp only [compared, Param.compared, List.cons_append, List.map_cons, Field.shape,
      List.cons.injEq, Field.int.injEq, List.nil_append] at hm
    obtain ⟨hk, -, -, hi⟩ := hm
    exact param_sound hk hs hi
  | aggref => simp_all [sound, compared, Field.shape]
  | relOptInfo =>
    simp only [sound, compared, List.map_cons, Field.shape, List.cons.injEq,
      Field.ints.injEq] at hs hm ⊢
    rw [← walks_eq_of_intList hm.1]
    exact hs
  | indexPath =>
    simp only [sound, compared, Path.compared, List.cons_append, List.map_cons, Field.shape,
      List.nil_append, List.cons.injEq, Field.ints.injEq] at hs hm ⊢
    obtain ⟨-, -, -, hi, -, -, hj, -⟩ := hm
    rw [← walks_eq_of_intList hi, ← walks_eq_of_intList hj]
    exact hs
  | tidPath =>
    simp only [sound, compared, Path.compared, List.cons_append, List.map_cons, Field.shape,
      List.nil_append, List.cons.injEq, Field.ints.injEq] at hs hm ⊢
    obtain ⟨-, -, -, -, hi, -⟩ := hm
    rw [← walks_eq_of_intList hi]
    exact hs
  | joinInfo =>
    simp only [sound, compared, List.map_cons, Field.shape, List.cons.injEq,
      Field.ints.injEq] at hs hm ⊢
    rw [← walks_eq_of_intList hm.1]
    exact hs
  | float => simp_all [sound, compared, Field.shape]
  | string => simp_all [sound, compared, Field.shape]
  | list =>
    simp only [sound, walks, compared] at hs hm ⊢
    cases ha : cells h n a.next <;> cases hb : cells h n b.next <;>
      simp_all [Except.isOk, Except.toBool]
  | other code => exact absurd hs Bool.false_ne_true
  | _ => rfl

/-- `equal` is a comparison with a pointer shortcut. -/
theorem equal_compares (h : Heap) :
    Compares (viewLook h) fun n p q => equal h n p q = .ok true where
  zero p q := by
    refine ⟨fun he => ?_, fun he => he ▸ equal_self h 0 p⟩
    by_contra hpq
    rw [equal.eq_def, if_neg hpq] at he
    split at he <;> cases he
  succ n p q := by
    by_cases hpq : p = q
    · exact iff_of_true (hpq ▸ equal_self h (n + 1) p) (.inl hpq)
    · rw [equal_succ_iff hpq]
      simp only [hpq, false_or, viewLook_eq_some]
      refine ⟨fun ⟨hp, hq, t, a, b, ha, hb, hs, hm⟩ => ?_, ?_⟩
      · obtain ⟨hshape, hkids⟩ := forall₂_matches_iff.1 hm
        exact ⟨_, _, _, ⟨hp, t, a, ha, hs, rfl, rfl⟩,
          ⟨hq, t, b, hb, sound_of_shape hs hshape, by rw [hshape], rfl⟩, hkids⟩
      · intro ⟨l, ks, ls, ⟨hp, t, a, ha, hs, hl, hk⟩, ⟨hq, t', b, hb, hs', hl', hk'⟩, hkids⟩
        rw [hl] at hl'
        obtain ⟨ht, hshape⟩ := Prod.mk.inj hl'
        subst ht hk hk'
        exact ⟨hp, hq, t, a, b, ha, hb, hs, forall₂_matches_iff.2 ⟨hshape, hkids⟩⟩

/-- `equal` returns `true` exactly when it looks at the same from both
pointers. -/
theorem equal_iff_view {h : Heap} {n : Nat} {p q : Ptr} :
    equal h n p q = .ok true ↔ view h n p = view h n q :=
  (equal_compares h).iff_unfold n p q

theorem view_succ_iff {h : Heap} {n : Nat} {p q : Ptr} (hpq : p ≠ q) :
    view h (n + 1) p = view h (n + 1) q ↔ p ≠ NIL ∧ q ≠ NIL ∧ ∃ t a b,
      h.node p = some ⟨t, a⟩ ∧ h.node q = some ⟨t, b⟩ ∧ sound h n t a = true ∧
      List.Forall₂ (Matches fun k l => view h n k = view h n l) (compared h n t a)
        (compared h n t b) := by
  simp only [← equal_iff_view]
  exact equal_succ_iff hpq

/-! ## Node trees -/

/-- The label of a node in its tree: the tag, the compared fields and the
overlooked ones. -/
abbrev TreeLabel := NodeTag × List Field × List Field

/-- A node with every field but those the routines set aside in a comment. -/
def treeLook (h : Heap) (depth : Nat) (p : Ptr) : Option (TreeLabel × List Ptr) :=
  if p = NIL then none
  else
    match h.node p with
    | none => none
    | some ⟨t, x⟩ =>
      some ((t, (compared h depth t x).map Field.shape, (overlooked h depth t x).map Field.shape),
        pointers (compared h depth t x) ++ pointers (overlooked h depth t x))

/-- The node tree at a pointer, to a depth. Two pointers have one tree when each
leads to a structural copy of what the other leads to. -/
def tree (h : Heap) : Nat → Ptr → Tree Ptr TreeLabel := unfold (treeLook h)

theorem treeLook_eq_some {h : Heap} {n : Nat} {p : Ptr} {l : TreeLabel} {ks : List Ptr} :
    treeLook h n p = some (l, ks) ↔ p ≠ NIL ∧ ∃ t x, h.node p = some ⟨t, x⟩ ∧
      l = (t, (compared h n t x).map Field.shape, (overlooked h n t x).map Field.shape) ∧
      ks = pointers (compared h n t x) ++ pointers (overlooked h n t x) := by
  unfold treeLook
  by_cases hp : p = NIL
  · simp [hp]
  · cases hx : h.node p with
    | none => simp [hp]
    | some x =>
      obtain ⟨t, x⟩ := x
      simp only [hp, if_false, Option.some.injEq, Prod.mk.injEq, ne_eq, not_false_eq_true,
        true_and]
      refine ⟨fun he => ⟨t, x, rfl, he.1.symm, he.2.symm⟩, ?_⟩
      intro ⟨t', x', hx', hl, hk⟩
      cases hx'
      exact ⟨hl.symm, hk.symm⟩

/-- One step of two equal trees: matching fields, compared and overlooked. -/
theorem tree_succ_iff {h : Heap} {n : Nat} {p q : Ptr} (hpq : p ≠ q) :
    tree h (n + 1) p = tree h (n + 1) q ↔ p ≠ NIL ∧ q ≠ NIL ∧ ∃ t a b,
      h.node p = some ⟨t, a⟩ ∧ h.node q = some ⟨t, b⟩ ∧
      List.Forall₂ (Matches fun k l => tree h n k = tree h n l) (compared h n t a)
        (compared h n t b) ∧
      List.Forall₂ (Matches fun k l => tree h n k = tree h n l) (overlooked h n t a)
        (overlooked h n t b) := by
  simp only [tree, unfold_succ_eq_iff, hpq, false_or, treeLook_eq_some]
  refine ⟨?_, fun ⟨hp, hq, t, a, b, ha, hb, hc, ho⟩ => ?_⟩
  · intro ⟨l, ks, ls, ⟨hp, t, a, ha, hl, hk⟩, ⟨hq, t', b, hb, hl', hk'⟩, hkids⟩
    rw [hl] at hl'
    obtain ⟨ht, hshapes⟩ := Prod.mk.inj hl'
    obtain ⟨hc, ho⟩ := Prod.mk.inj hshapes
    subst ht hk hk'
    obtain ⟨hkc, hko⟩ := (forall₂_append_iff (length_pointers_of_shape hc)).1 hkids
    exact ⟨hp, hq, t, a, b, ha, hb, forall₂_matches_iff.2 ⟨hc, hkc⟩,
      forall₂_matches_iff.2 ⟨ho, hko⟩⟩
  · obtain ⟨hcs, hck⟩ := forall₂_matches_iff.1 hc
    obtain ⟨hos, hok⟩ := forall₂_matches_iff.1 ho
    refine ⟨_, _, _, ⟨hp, t, a, ha, rfl, rfl⟩, ⟨hq, t, b, hb, by rw [hcs, hos], rfl⟩, ?_⟩
    exact (forall₂_append_iff (length_pointers_of_shape hcs)).2 ⟨hck, hok⟩

/-- A finite tree of nodes that can all be compared: from a pointer only sound
nodes are reached, within the depth. -/
def Proper (h : Heap) : Nat → Ptr → Prop
  | 0, p => p = NIL
  | n + 1, p => p = NIL ∨ ∃ t x, h.node p = some ⟨t, x⟩ ∧ sound h n t x = true ∧
      ∀ k ∈ pointers (compared h n t x), Proper h n k

/-- A structural copy of a proper tree has the same view. -/
theorem view_of_tree {h : Heap} {n : Nat} {p q : Ptr} (hp : Proper h n p)
    (ht : tree h n p = tree h n q) : view h n p = view h n q := by
  induction n generalizing p q with
  | zero =>
    have hpq : p = q := by simpa [tree, unfold] using ht
    rw [hpq]
  | succ n ih =>
    by_cases hpq : p = q
    · rw [hpq]
    · obtain ⟨hpn, hqn, t, a, b, ha, hb, hc, -⟩ := (tree_succ_iff hpq).1 ht
      obtain ⟨t', a', ha', hs, hkids⟩ := hp.resolve_left hpn
      rw [ha] at ha'
      cases ha'
      refine (view_succ_iff hpq).2 ⟨hpn, hqn, t, a, b, ha, hb, hs, ?_⟩
      obtain ⟨hshape, hk⟩ := forall₂_matches_iff.1 hc
      refine forall₂_matches_iff.2 ⟨hshape, ?_⟩
      have hboth := (List.forall₂_and_left _ _).2 ⟨hkids, hk⟩
      exact hboth.imp fun k l hkl => ih hkl.1 hkl.2

/-- `equal` is an equivalence relation: it holds between a proper tree and every
structural copy of it, and it is symmetric and transitive, whatever the trees
share. -/
theorem equal_equivalence (h : Heap) (n : Nat) :
    (∀ a a', Proper h n a → tree h n a = tree h n a' → equal h n a a' = .ok true) ∧
    (∀ a b, equal h n a b = .ok true → equal h n b a = .ok true) ∧
    (∀ a b c, equal h n a b = .ok true → equal h n b c = .ok true →
      equal h n a c = .ok true) := by
  simp only [equal_iff_view]
  refine ⟨fun a a' ha ht => view_of_tree ha ht, fun a b hab => hab.symm, ?_⟩
  exact fun a b c hab hbc => hab.trans hbc

/-- A node and a copy of it at two addresses. -/
def twoNodes (t : NodeTag) (x y : Payload t) : Heap where
  node p := if p = 100 then some ⟨t, x⟩ else if p = 200 then some ⟨t, y⟩ else none
  object _ := []

def aVar : Var where
  varno := 1
  varAttno := 2
  varType := 23
  varTypeMod := -1
  varLevelsUp := 0
  varnoOld := 1
  varOattno := 2

/-- A variable and its copy at another address. -/
theorem equal_equivalence_example :
    equal (twoNodes .var aVar aVar) 1 100 200 = .ok true ∧
      equal (twoNodes .var aVar aVar) 1 200 100 = .ok true := by
  have hp : Proper (twoNodes .var aVar aVar) 1 100 :=
    .inr ⟨.var, aVar, rfl, rfl, fun k hk => absurd hk List.not_mem_nil⟩
  have hcopy := (equal_equivalence (twoNodes .var aVar aVar) 1).1 100 200 hp rfl
  exact ⟨hcopy, (equal_equivalence _ _).2.1 _ _ hcopy⟩

/-- A stream that costs a NaN. -/
def nanStream : Stream where
  pathPtr := NIL
  cinfo := NIL
  clauseType := 0
  upstream := NIL
  downstream := NIL
  groupUp := false
  groupCost := ⟨0x7FF8000000000000⟩
  groupSel := ⟨0⟩

/-- The copy of a stream with a NaN is a structural copy that `equal` denies. -/
theorem equal_copy_nan :
    tree (twoNodes .stream nanStream nanStream) 2 100 =
        tree (twoNodes .stream nanStream nanStream) 2 200 ∧
      equal (twoNodes .stream nanStream nanStream) 2 100 200 = .ok false :=
  ⟨rfl, by decide⟩

/-! ## What the routines overlook -/

/-- At every place two trees have in common the overlooked fields agree. -/
def SameOverlooked (h : Heap) : Nat → Ptr → Ptr → Prop
  | 0, _, _ => True
  | n + 1, p, q =>
    match h.node p, h.node q with
    | some ⟨t, a⟩, some ⟨u, b⟩ =>
      List.Forall₂ (Matches fun k l => tree h n k = tree h n l) (overlooked h n t a)
        (overlooked h n u b) ∧
      List.Forall₂ (SameOverlooked h n) (pointers (compared h n t a))
        (pointers (compared h n u b))
    | _, _ => True

theorem matches_self {R : Ptr → Ptr → Prop} (hR : ∀ p, R p p) (f : Field) : Matches R f f := by
  cases f <;> simp [Matches, hR]

theorem sameOverlooked_self (h : Heap) (n : Nat) (p : Ptr) : SameOverlooked h n p p := by
  induction n generalizing p with
  | zero => trivial
  | succ n ih =>
    rw [SameOverlooked]
    cases h.node p with
    | none => trivial
    | some x =>
      have hm := matches_self (R := fun k l => tree h n k = tree h n l) fun _ => rfl
      exact ⟨List.forall₂_same.2 fun f _ => hm f, List.forall₂_same.2 fun k _ => ih k⟩

/-- Between two nodes with one view, the trees agree as far as the overlooked
fields do. -/
theorem tree_iff_overlooked {h : Heap} {n : Nat} {p q : Ptr} (hv : view h n p = view h n q) :
    tree h n p = tree h n q ↔ SameOverlooked h n p q := by
  induction n generalizing p q with
  | zero =>
    have hpq : p = q := by simpa [view, unfold] using hv
    rw [hpq]
    exact iff_of_true rfl trivial
  | succ n ih =>
    by_cases hpq : p = q
    · rw [hpq]
      exact iff_of_true rfl (sameOverlooked_self h (n + 1) q)
    · obtain ⟨hp, hq, t, a, b, ha, hb, hs, hm⟩ := (view_succ_iff hpq).1 hv
      obtain ⟨hshape, hview⟩ := forall₂_matches_iff.1 hm
      rw [tree_succ_iff hpq, SameOverlooked, ha, hb]
      have hkids : List.Forall₂ (fun k l => tree h n k = tree h n l)
          (pointers (compared h n t a)) (pointers (compared h n t b)) ↔
          List.Forall₂ (SameOverlooked h n) (pointers (compared h n t a))
            (pointers (compared h n t b)) := by
        refine ⟨fun hk => ?_, fun hk => ?_⟩
        · exact List.Forall₂.mp (fun k l hkl => (ih hkl).1) hview hk
        · exact List.Forall₂.mp (fun k l hkl => (ih hkl).2) hview hk
      constructor
      · rintro ⟨-, -, t', a', b', ha', hb', hc, ho⟩
        cases ha'
        cases hb'
        exact ⟨ho, hkids.1 (forall₂_matches_iff.1 hc).2⟩
      · rintro ⟨ho, hk⟩
        exact ⟨hp, hq, t, a, b, rfl, rfl, forall₂_matches_iff.2 ⟨hshape, hkids.2 hk⟩, ho⟩

/-- `equal` returns `true` only on structural copies exactly where agreement of
the compared fields brings agreement of the overlooked ones. -/
theorem equal_faithful_iff (h : Heap) (n : Nat) (a b : Ptr) :
    (equal h n a b = .ok true → tree h n a = tree h n b) ↔
      (view h n a = view h n b → SameOverlooked h n a b) := by
  rw [equal_iff_view]
  exact ⟨fun hf hv => (tree_iff_overlooked hv).1 (hf hv),
    fun hf hv => (tree_iff_overlooked hv).2 (hf hv)⟩

/-- The result vector of one node, done or not. -/
def oneFjoin (done : Bool) : Fjoin where
  fjInitialized := true
  fjNNodes := 1
  fjInnerNode := NIL
  fjResults := [7]
  fjAlwaysDone := [done]
  results_length := by decide
  alwaysDone_length := by
    show toSize 1 ≤ 1
    decide

/-- Two result vectors that differ in the entry compared with itself. -/
theorem equal_fjoin_differs :
    equal (twoNodes .fjoin (oneFjoin true) (oneFjoin false)) 2 100 200 = .ok true ∧
      tree (twoNodes .fjoin (oneFjoin true) (oneFjoin false)) 2 100 ≠
        tree (twoNodes .fjoin (oneFjoin true) (oneFjoin false)) 2 200 := by
  refine ⟨by decide, fun ht => ?_⟩
  obtain ⟨-, -, t, a, b, ha, hb, -, ho⟩ := (tree_succ_iff (by decide)).1 ht
  cases ha
  cases hb
  have hdone := Field.flags.inj (List.forall₂_cons.1 ho).1
  exact absurd hdone (by decide)

end PostgresV7.Nodes
