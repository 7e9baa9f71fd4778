import Mathlib.Data.List.Nodup
import Mathlib.Logic.Function.Basic

/-!
# Forests linked by first child and next sibling

Every node has a pointer to its parent, one to its first child and one to its
next sibling. A forest says which nodes hang below a cell, in order; replacing
the children of one node is the operation the others are cases of.
-/

namespace Forests

/-- Trees side by side: a node, what is below it, and what follows it. -/
inductive Forest (α : Type) where
  | nil
  | cons (a : α) (kids rest : Forest α)
  deriving DecidableEq

namespace Forest

variable {α : Type}

/-- All nodes. -/
def nodes : Forest α → List α
  | nil => []
  | cons a kids rest => a :: (kids.nodes ++ rest.nodes)

/-- The nodes no other node is above of. -/
def roots : Forest α → List α
  | nil => []
  | cons a _ rest => a :: rest.roots

theorem roots_subset (F : Forest α) : F.roots ⊆ F.nodes := by
  induction F with
  | nil => exact List.Subset.refl _
  | cons a kids rest _ ih =>
    intro x hx
    rcases List.mem_cons.mp hx with rfl | hx
    · exact List.mem_cons_self
    · exact List.mem_cons_of_mem _ (List.mem_append_right _ (ih hx))

theorem nodup_cons {a : α} {kids rest : Forest α} (h : (cons a kids rest).nodes.Nodup) :
    a ∉ kids.nodes ∧ a ∉ rest.nodes ∧ kids.nodes.Nodup ∧ rest.nodes.Nodup ∧
      ∀ x ∈ kids.nodes, x ∉ rest.nodes := by
  obtain ⟨ha, happ⟩ := List.nodup_cons.mp h
  rw [List.mem_append, not_or] at ha
  obtain ⟨hk, hr, hd⟩ := List.nodup_append.mp happ
  exact ⟨ha.1, ha.2, hk, hr, fun x hx hx' => hd x hx x hx' rfl⟩

theorem roots_length_le (F : Forest α) : F.roots.length ≤ F.nodes.length := by
  induction F with
  | nil => exact Nat.le_refl _
  | cons a kids rest _ ih =>
    simp only [roots, nodes, List.length_cons, List.length_append]
    omega

variable [DecidableEq α]

/-- What is below `q`. -/
def kidsOf (q : α) : Forest α → Forest α
  | nil => nil
  | cons a kids rest =>
    if a = q then kids else if q ∈ kids.nodes then kids.kidsOf q else rest.kidsOf q

/-- Another forest below `q`. -/
def setKids (F : Forest α) (q : α) (G : Forest α) : Forest α :=
  match F with
  | nil => nil
  | cons a kids rest =>
    if a = q then cons a G rest else cons a (kids.setKids q G) (rest.setKids q G)

/-- A new first child of `q`. -/
def insert (q n : α) (F : Forest α) : Forest α :=
  F.setKids q (cons n nil (F.kidsOf q))

/-- Nothing below `q`. -/
def clear (q : α) (F : Forest α) : Forest α := F.setKids q nil

/-- The forest without `c` and what is below it. -/
def remove (c : α) : Forest α → Forest α
  | nil => nil
  | cons a kids rest => if a = c then rest else cons a (kids.remove c) (rest.remove c)

theorem kidsOf_subset (q : α) (F : Forest α) : (F.kidsOf q).nodes ⊆ F.nodes := by
  induction F with
  | nil => exact List.Subset.refl _
  | cons a kids rest ihk ihr =>
    rw [kidsOf, nodes]
    split
    · exact fun x hx => List.mem_cons_of_mem _ (List.mem_append_left _ hx)
    · split
      · exact fun x hx => List.mem_cons_of_mem _ (List.mem_append_left _ (ihk hx))
      · exact fun x hx => List.mem_cons_of_mem _ (List.mem_append_right _ (ihr hx))

theorem kidsOf_length_le (q : α) (F : Forest α) :
    (F.kidsOf q).nodes.length ≤ F.nodes.length := by
  induction F with
  | nil => exact Nat.le_refl _
  | cons a kids rest ihk ihr =>
    rw [kidsOf]
    simp only [nodes, List.length_cons, List.length_append]
    split
    · omega
    · split <;> omega

theorem setKids_of_not_mem {q : α} {F G : Forest α} (h : q ∉ F.nodes) : F.setKids q G = F := by
  induction F with
  | nil => rfl
  | cons a kids rest ihk ihr =>
    rw [nodes, List.mem_cons, List.mem_append, not_or, not_or] at h
    rw [setKids, if_neg (fun e => h.1 e.symm), ihk h.2.1, ihr h.2.2]

theorem remove_of_not_mem {c : α} {F : Forest α} (h : c ∉ F.nodes) : F.remove c = F := by
  induction F with
  | nil => rfl
  | cons a kids rest ihk ihr =>
    rw [nodes, List.mem_cons, List.mem_append, not_or, not_or] at h
    rw [remove, if_neg (fun e => h.1 e.symm), ihk h.2.1, ihr h.2.2]

theorem kidsOf_nodup {q : α} {F : Forest α} (h : F.nodes.Nodup) : (F.kidsOf q).nodes.Nodup := by
  induction F with
  | nil => exact List.nodup_nil
  | cons a kids rest ihk ihr =>
    obtain ⟨-, -, hk, hr, -⟩ := nodup_cons h
    rw [kidsOf]
    split
    · exact hk
    · split
      · exact ihk hk
      · exact ihr hr

theorem roots_setKids (F : Forest α) (q : α) (G : Forest α) : (F.setKids q G).roots = F.roots := by
  induction F with
  | nil => rfl
  | cons a kids rest _ ih =>
    rw [setKids]
    split
    · rfl
    · rw [roots, ih, roots]

/-- A node is not below itself. -/
theorem not_mem_kidsOf {q : α} {F : Forest α} (h : F.nodes.Nodup) : q ∉ (F.kidsOf q).nodes := by
  induction F with
  | nil => exact List.not_mem_nil
  | cons a kids rest ihk ihr =>
    obtain ⟨hak, -, hk, hr, -⟩ := nodup_cons h
    rw [kidsOf]
    split
    · rename_i heq
      exact heq ▸ hak
    · split
      · exact ihk hk
      · exact ihr hr

/-- Where the nodes of a forest with other children come from. -/
theorem count_setKids {q : α} {F : Forest α} (G : Forest α) (h : F.nodes.Nodup)
    (hq : q ∈ F.nodes) (x : α) :
    (F.setKids q G).nodes.count x + (F.kidsOf q).nodes.count x =
      F.nodes.count x + G.nodes.count x := by
  induction F with
  | nil => exact absurd hq List.not_mem_nil
  | cons a kids rest ihk ihr =>
    obtain ⟨-, -, hk, hr, hd⟩ := nodup_cons h
    rw [setKids, kidsOf]
    by_cases ha : a = q
    · simp only [ha, if_true, nodes, List.count_cons, List.count_append]
      omega
    · by_cases hqk : q ∈ kids.nodes
      · have hih := ihk hk hqk
        rw [if_neg ha, if_neg ha, if_pos hqk, setKids_of_not_mem (hd q hqk)]
        simp only [nodes, List.count_cons, List.count_append]
        omega
      · have hqr : q ∈ rest.nodes := by
          rcases List.mem_cons.mp hq with rfl | hq
          · exact absurd rfl ha
          · exact (List.mem_append.mp hq).resolve_left hqk
        have hih := ihr hr hqr
        rw [if_neg ha, if_neg ha, if_neg hqk, setKids_of_not_mem hqk]
        simp only [nodes, List.count_cons, List.count_append]
        omega

/-- What a removal takes out. -/
theorem count_remove {c : α} {F : Forest α} (h : F.nodes.Nodup) (hc : c ∈ F.nodes) (x : α) :
    (F.remove c).nodes.count x + (c :: (F.kidsOf c).nodes).count x = F.nodes.count x := by
  induction F with
  | nil => exact absurd hc List.not_mem_nil
  | cons a kids rest ihk ihr =>
    obtain ⟨-, -, hk, hr, hd⟩ := nodup_cons h
    rw [remove, kidsOf]
    by_cases ha : a = c
    · simp only [ha, if_true, nodes, List.count_cons, List.count_append]
      omega
    · by_cases hck : c ∈ kids.nodes
      · have hih := ihk hk hck
        rw [if_neg ha, if_neg ha, if_pos hck, remove_of_not_mem (hd c hck)]
        simp only [nodes, List.count_cons, List.count_append] at hih ⊢
        omega
      · have hcr : c ∈ rest.nodes := by
          rcases List.mem_cons.mp hc with rfl | hc
          · exact absurd rfl ha
          · exact (List.mem_append.mp hc).resolve_left hck
        have hih := ihr hr hcr
        rw [if_neg ha, if_neg ha, if_neg hck, remove_of_not_mem hck]
        simp only [nodes, List.count_cons, List.count_append] at hih ⊢
        omega

theorem insert_perm {q n : α} {F : Forest α} (h : F.nodes.Nodup) (hq : q ∈ F.nodes) :
    (F.insert q n).nodes.Perm (n :: F.nodes) := by
  rw [List.perm_iff_count]
  intro x
  have hx := count_setKids (cons n nil (F.kidsOf q)) h hq x
  simp only [nodes, List.nil_append, List.count_cons] at hx ⊢
  rw [insert]
  omega

theorem remove_perm {c : α} {F : Forest α} (h : F.nodes.Nodup) (hc : c ∈ F.nodes) :
    ((F.remove c).nodes ++ c :: (F.kidsOf c).nodes).Perm F.nodes := by
  rw [List.perm_iff_count]
  intro x
  rw [List.count_append]
  exact count_remove h hc x

/-- Removing a child of `q` is removing it from what is below `q`. -/
theorem remove_eq_setKids {q c : α} {F : Forest α} (h : F.nodes.Nodup)
    (hc : c ∈ (F.kidsOf q).roots) : F.remove c = F.setKids q ((F.kidsOf q).remove c) := by
  induction F with
  | nil => rfl
  | cons a kids rest ihk ihr =>
    obtain ⟨hak, har, hk, hr, hd⟩ := nodup_cons h
    rw [kidsOf] at hc ⊢
    rw [remove, setKids]
    by_cases ha : a = q
    · rw [if_pos ha] at hc
      have hck := kids.roots_subset hc
      have hac : a ≠ c := fun e => hak (e ▸ hck)
      rw [if_neg hac, if_pos ha, if_pos ha, remove_of_not_mem (hd c hck)]
    · rw [if_neg ha] at hc
      by_cases hqk : q ∈ kids.nodes
      · rw [if_pos hqk] at hc
        have hck := kidsOf_subset q kids ((kids.kidsOf q).roots_subset hc)
        have hac : a ≠ c := fun e => hak (e ▸ hck)
        rw [if_neg hac, if_neg ha, if_neg ha, if_pos hqk, ihk hk hc,
          remove_of_not_mem (hd c hck), setKids_of_not_mem (hd q hqk)]
      · rw [if_neg hqk] at hc
        have hcr := kidsOf_subset q rest ((rest.kidsOf q).roots_subset hc)
        have hck : c ∉ kids.nodes := fun hck => hd c hck hcr
        have hac : a ≠ c := fun e => har (e ▸ hcr)
        rw [if_neg hac, if_neg ha, if_neg ha, if_neg hqk, ihr hr hc, remove_of_not_mem hck,
          setKids_of_not_mem hqk]

theorem setKids_kidsOf {q : α} {F : Forest α} (h : F.nodes.Nodup) :
    F.setKids q (F.kidsOf q) = F := by
  induction F with
  | nil => rfl
  | cons a kids rest ihk ihr =>
    obtain ⟨-, -, hk, hr, hd⟩ := nodup_cons h
    rw [setKids, kidsOf]
    by_cases ha : a = q
    · rw [if_pos ha, if_pos ha]
    · rw [if_neg ha, if_neg ha]
      by_cases hqk : q ∈ kids.nodes
      · rw [if_pos hqk, ihk hk, setKids_of_not_mem (hd q hqk)]
      · rw [if_neg hqk, ihr hr, setKids_of_not_mem hqk]

theorem mem_setKids {q : α} {F : Forest α} (G : Forest α) (hq : q ∈ F.nodes) :
    q ∈ (F.setKids q G).nodes := by
  induction F with
  | nil => exact absurd hq List.not_mem_nil
  | cons a kids rest ihk ihr =>
    rw [setKids]
    by_cases ha : a = q
    · rw [if_pos ha, ha]
      exact List.mem_cons_self
    · rw [if_neg ha]
      rcases List.mem_cons.mp hq with rfl | hq
      · exact absurd rfl ha
      · refine List.mem_cons_of_mem _ (List.mem_append.mpr ?_)
        exact (List.mem_append.mp hq).imp ihk ihr

theorem kidsOf_setKids {q : α} {F : Forest α} (G : Forest α) (h : F.nodes.Nodup)
    (hq : q ∈ F.nodes) : (F.setKids q G).kidsOf q = G := by
  induction F with
  | nil => exact absurd hq List.not_mem_nil
  | cons a kids rest ihk ihr =>
    obtain ⟨-, -, hk, hr, hd⟩ := nodup_cons h
    rw [setKids]
    by_cases ha : a = q
    · rw [if_pos ha, kidsOf, if_pos ha]
    · rw [if_neg ha, kidsOf, if_neg ha]
      by_cases hqk : q ∈ kids.nodes
      · rw [if_pos (mem_setKids G hqk)]
        exact ihk hk hqk
      · rw [setKids_of_not_mem hqk, if_neg hqk]
        rcases List.mem_cons.mp hq with rfl | hq
        · exact absurd rfl ha
        · exact ihr hr ((List.mem_append.mp hq).resolve_left hqk)

theorem setKids_setKids (q : α) (F G G' : Forest α) :
    (F.setKids q G).setKids q G' = F.setKids q G' := by
  induction F with
  | nil => rfl
  | cons a kids rest ihk ihr =>
    rw [setKids, setKids]
    by_cases ha : a = q
    · rw [if_pos ha, if_pos ha, setKids, if_pos ha]
    · rw [if_neg ha, if_neg ha, setKids, if_neg ha, ihk, ihr]

/-- It does not matter what is below the node that is removed. -/
theorem remove_setKids (c : α) (F G : Forest α) : (F.setKids c G).remove c = F.remove c := by
  induction F with
  | nil => rfl
  | cons a kids rest ihk ihr =>
    rw [setKids, remove]
    by_cases ha : a = c
    · rw [if_pos ha, if_pos ha, remove, if_pos ha]
    · rw [if_neg ha, if_neg ha, remove, if_neg ha, ihk, ihr]

/-- What is below the first child of `q`. -/
theorem kidsOf_first {q a : α} {F ks rest : Forest α} (h : F.nodes.Nodup)
    (hq : F.kidsOf q = cons a ks rest) : F.kidsOf a = ks := by
  induction F with
  | nil => cases hq
  | cons b kids rest' ihk ihr =>
    obtain ⟨hbk, hbr, hk, hr, hd⟩ := nodup_cons h
    rw [kidsOf] at hq ⊢
    by_cases hb : b = q
    · rw [if_pos hb] at hq
      have ha : a ∈ kids.nodes := hq ▸ List.mem_cons_self
      have hne : b ≠ a := fun e => hbk (e ▸ ha)
      rw [if_neg hne, if_pos ha, hq, kidsOf, if_pos rfl]
    · rw [if_neg hb] at hq
      by_cases hqk : q ∈ kids.nodes
      · rw [if_pos hqk] at hq
        have ha : a ∈ kids.nodes := kidsOf_subset q kids (hq ▸ List.mem_cons_self)
        have hne : b ≠ a := fun e => hbk (e ▸ ha)
        rw [if_neg hne, if_pos ha]
        exact ihk hk hq
      · rw [if_neg hqk] at hq
        have ha : a ∈ rest'.nodes := kidsOf_subset q rest' (hq ▸ List.mem_cons_self)
        have hne : b ≠ a := fun e => hbr (e ▸ ha)
        rw [if_neg hne, if_neg (fun hm => hd a hm ha)]
        exact ihr hr hq

/-- A forest after the removal of the first child of `q`. -/
theorem remove_first {q a : α} {F ks rest : Forest α} (h : F.nodes.Nodup)
    (hq : F.kidsOf q = cons a ks rest) : F.remove a = F.setKids q rest := by
  have ha : a ∈ (F.kidsOf q).roots := by
    rw [hq]
    exact List.mem_cons_self
  rw [remove_eq_setKids h ha, hq, remove, if_pos rfl]

theorem kidsOf_clear {q : α} {F : Forest α} (h : F.nodes.Nodup) (hq : q ∈ F.nodes) :
    (F.clear q).kidsOf q = nil :=
  kidsOf_setKids nil h hq

/-- The nodes that are left when a node without children is removed. -/
theorem mem_remove_leaf {c x : α} {F : Forest α} (h : F.nodes.Nodup) (hc : c ∈ F.nodes)
    (hleaf : F.kidsOf c = nil) : x ∈ (F.remove c).nodes ↔ x ∈ F.nodes ∧ x ≠ c := by
  have hperm := remove_perm h hc
  rw [hleaf] at hperm
  have hnd := hperm.nodup_iff.mpr h
  rw [← hperm.mem_iff]
  obtain ⟨-, -, hd⟩ := List.nodup_append.mp hnd
  refine ⟨fun hx => ⟨List.mem_append_left _ hx, hd x hx c List.mem_cons_self⟩, fun ⟨hx, hne⟩ => ?_⟩
  exact (List.mem_append.mp hx).resolve_right fun hm => hne (List.mem_singleton.mp hm)

theorem remove_sublist (c : α) (F : Forest α) : (F.remove c).nodes.Sublist F.nodes := by
  induction F with
  | nil => exact List.Sublist.refl _
  | cons a kids rest ihk ihr =>
    rw [remove]
    split
    · exact (List.sublist_append_right _ _).cons a
    · exact (ihk.append ihr).cons_cons a

end Forest

/-! ## Forests in memory -/

/-- The three pointers of every node. -/
structure Links (α : Type) where
  parent : α → α
  first : α → α
  next : α → α

namespace Links

variable {α : Type} [DecidableEq α]

def setParent (K : Links α) (a p : α) : Links α := { K with parent := Function.update K.parent a p }

def setFirst (K : Links α) (a c : α) : Links α := { K with first := Function.update K.first a c }

def setNext (K : Links α) (a c : α) : Links α := { K with next := Function.update K.next a c }

end Links

variable {α : Type} {nil : α} {K K' : Links α} {p q c x : α} {F G : Forest α}

/-- The pointer `x` leads to the forest, whose roots have the parent `p`. -/
def Holds (nil : α) (K : Links α) : α → α → Forest α → Prop
  | _, x, .nil => x = nil
  | p, x, .cons a kids rest =>
    x = a ∧ a ≠ nil ∧ K.parent a = p ∧ Holds nil K a (K.first a) kids ∧
      Holds nil K p (K.next a) rest

/-- The two sets of pointers agree on a node. -/
def Links.Same (K K' : Links α) (a : α) : Prop :=
  K'.parent a = K.parent a ∧ K'.first a = K.first a ∧ K'.next a = K.next a

namespace Holds

theorem ne_nil (h : Holds nil K p x F) (hc : c ∈ F.nodes) : c ≠ nil := by
  induction F generalizing p x with
  | nil => exact absurd hc List.not_mem_nil
  | cons a kids rest ihk ihr =>
    obtain ⟨-, ha, -, hk, hr⟩ := h
    rcases List.mem_cons.mp hc with rfl | hc
    · exact ha
    · rcases List.mem_append.mp hc with hc | hc
      · exact ihk hk hc
      · exact ihr hr hc

/-- A forest depends on the pointers of its nodes. -/
theorem move (h : Holds nil K p x F) (hs : ∀ a ∈ F.nodes, K.Same K' a) : Holds nil K' p x F := by
  induction F generalizing p x with
  | nil => exact h
  | cons a kids rest ihk ihr =>
    obtain ⟨hx, ha, hp, hk, hr⟩ := h
    obtain ⟨hsp, hsf, hsn⟩ := hs a List.mem_cons_self
    refine ⟨hx, ha, hsp.trans hp, ?_, ?_⟩
    · rw [hsf]
      exact ihk hk fun b hb => hs b (List.mem_cons_of_mem _ (List.mem_append_left _ hb))
    · rw [hsn]
      exact ihr hr fun b hb => hs b (List.mem_cons_of_mem _ (List.mem_append_right _ hb))

variable [DecidableEq α]

theorem kids (h : Holds nil K p x F) (hq : q ∈ F.nodes) :
    Holds nil K q (K.first q) (F.kidsOf q) := by
  induction F generalizing p x with
  | nil => exact absurd hq List.not_mem_nil
  | cons a kids rest ihk ihr =>
    obtain ⟨-, -, -, hk, hr⟩ := h
    rw [Forest.kidsOf]
    by_cases ha : a = q
    · rw [if_pos ha, ← ha]
      exact hk
    · rw [if_neg ha]
      by_cases hqk : q ∈ kids.nodes
      · rw [if_pos hqk]
        exact ihk hk hqk
      · rw [if_neg hqk]
        rcases List.mem_cons.mp hq with rfl | hq
        · exact absurd rfl ha
        · exact ihr hr ((List.mem_append.mp hq).resolve_left hqk)

/-- Other pointers below one node, and the first child that goes with them. -/
theorem setKids (h : Holds nil K p x F) (hnd : F.nodes.Nodup)
    (hG : Holds nil K' q (K'.first q) G)
    (hs : ∀ a ∈ F.nodes, a ∉ (F.kidsOf q).nodes → K'.parent a = K.parent a ∧
      (a ≠ q → K'.first a = K.first a) ∧ K'.next a = K.next a) :
    Holds nil K' p x (F.setKids q G) := by
  induction F generalizing p x with
  | nil => exact h
  | cons a kids rest ihk ihr =>
    obtain ⟨hx, ha, hp, hk, hr⟩ := h
    obtain ⟨hak, har, hndk, hndr, hd⟩ := Forest.nodup_cons hnd
    have hrest : ∀ b ∈ rest.nodes, b ∈ (Forest.cons a kids rest).nodes := fun b hb =>
      List.mem_cons_of_mem _ (List.mem_append_right _ hb)
    have hkids : ∀ b ∈ kids.nodes, b ∈ (Forest.cons a kids rest).nodes := fun b hb =>
      List.mem_cons_of_mem _ (List.mem_append_left _ hb)
    rw [Forest.setKids]
    rw [Forest.kidsOf] at hs
    by_cases haq : a = q
    · rw [if_pos haq] at hs ⊢
      obtain ⟨hsp, -, hsn⟩ := hs a List.mem_cons_self hak
      refine ⟨hx, ha, hsp.trans hp, haq ▸ hG, ?_⟩
      rw [hsn]
      refine hr.move fun b hb => ?_
      have hbq : b ≠ q := fun e => har (haq ▸ e ▸ hb)
      obtain ⟨h1, h2, h3⟩ := hs b (hrest b hb) fun hbk => hd b hbk hb
      exact ⟨h1, h2 hbq, h3⟩
    · rw [if_neg haq] at hs ⊢
      by_cases hqk : q ∈ kids.nodes
      · rw [if_pos hqk] at hs
        have hsub := Forest.kidsOf_subset q kids
        obtain ⟨hsp, hsf, hsn⟩ := hs a List.mem_cons_self fun hm => hak (hsub hm)
        refine ⟨hx, ha, hsp.trans hp, ?_, ?_⟩
        · rw [hsf haq]
          exact ihk hk hndk fun b hb hbk => hs b (hkids b hb) hbk
        · rw [hsn, Forest.setKids_of_not_mem (hd q hqk)]
          refine hr.move fun b hb => ?_
          have hbq : b ≠ q := fun e => hd q hqk (e ▸ hb)
          obtain ⟨h1, h2, h3⟩ := hs b (hrest b hb) fun hm => hd b (hsub hm) hb
          exact ⟨h1, h2 hbq, h3⟩
      · rw [if_neg hqk] at hs
        have hsub := Forest.kidsOf_subset q rest
        obtain ⟨hsp, hsf, hsn⟩ := hs a List.mem_cons_self fun hm => har (hsub hm)
        refine ⟨hx, ha, hsp.trans hp, ?_, ?_⟩
        · rw [hsf haq, Forest.setKids_of_not_mem hqk]
          refine hk.move fun b hb => ?_
          have hbq : b ≠ q := fun e => hqk (e ▸ hb)
          obtain ⟨h1, h2, h3⟩ := hs b (hkids b hb) fun hm => hd b hb (hsub hm)
          exact ⟨h1, h2 hbq, h3⟩
        · rw [hsn]
          exact ihr hr hndr fun b hb hbk => hs b (hrest b hb) hbk

/-- A node is a root, or one of the children its parent pointer names. -/
theorem parent (h : Holds nil K p x F) (hnd : F.nodes.Nodup) (hc : c ∈ F.nodes) :
    (c ∈ F.roots ∧ K.parent c = p) ∨
      (K.parent c ∈ F.nodes ∧ c ∈ (F.kidsOf (K.parent c)).roots) := by
  induction F generalizing p x with
  | nil => exact absurd hc List.not_mem_nil
  | cons a kids rest ihk ihr =>
    obtain ⟨-, -, hp, hk, hr⟩ := h
    obtain ⟨hak, har, hndk, hndr, hd⟩ := Forest.nodup_cons hnd
    rcases List.mem_cons.mp hc with rfl | hc
    · exact .inl ⟨List.mem_cons_self, hp⟩
    rcases List.mem_append.mp hc with hc | hc
    · right
      rcases ihk hk hndk hc with ⟨hroot, hpar⟩ | ⟨hpar, hroot⟩
      · rw [hpar, Forest.kidsOf, if_pos rfl]
        exact ⟨List.mem_cons_self, hroot⟩
      · have hne : a ≠ K.parent c := fun e => hak (e ▸ hpar)
        rw [Forest.kidsOf, if_neg hne, if_pos hpar]
        exact ⟨List.mem_cons_of_mem _ (List.mem_append_left _ hpar), hroot⟩
    · rcases ihr hr hndr hc with ⟨hroot, hpar⟩ | ⟨hpar, hroot⟩
      · exact .inl ⟨List.mem_cons_of_mem _ hroot, hpar⟩
      · have hne : a ≠ K.parent c := fun e => har (e ▸ hpar)
        rw [Forest.kidsOf, if_neg hne, if_neg fun hm => hd _ hm hpar]
        exact .inr ⟨List.mem_cons_of_mem _ (List.mem_append_right _ hpar), hroot⟩

end Holds

end Forests
