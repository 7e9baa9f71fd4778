import Mathlib.Data.List.Nodup
import Mathlib.Logic.Function.Basic

/-!
# Singly linked chains of cells

A cell holds an element or `nil`; every element has a cell of its own, its next
pointer. A chain hangs off a head cell, so unlinking and appending are one update
of the cell before, whether that is the head or the next pointer of an element.
-/

namespace Chains

variable {γ α : Type*} (cellOf : α → γ) (nil : α)

/-- The cell `c` starts a chain through exactly the elements of `l`. -/
def Chain (cells : γ → α) : γ → List α → Prop
  | c, [] => cells c = nil
  | c, e :: l => cells c = e ∧ e ≠ nil ∧ Chain cells (cellOf e) l

/-- The cell after the elements of `l`, on the way from `c`. -/
def lastCell : γ → List α → γ
  | c, [] => c
  | _, e :: l => lastCell (cellOf e) l

variable {cellOf nil} {cells cells' : γ → α} {c : γ} {e : α} {l l₁ l₂ : List α}

theorem lastCell_append (c : γ) (l₁ l₂ : List α) :
    lastCell cellOf c (l₁ ++ l₂) = lastCell cellOf (lastCell cellOf c l₁) l₂ := by
  induction l₁ generalizing c with
  | nil => rfl
  | cons e l₁ ih => exact ih (cellOf e)

theorem lastCell_mem (c : γ) (l : List α) : lastCell cellOf c l ∈ c :: l.map cellOf := by
  induction l generalizing c with
  | nil => exact List.mem_cons_self
  | cons e l ih => exact List.mem_cons_of_mem c (ih (cellOf e))

/-- A chain depends on its own cells only, and may start from another cell that
holds the same. -/
theorem Chain.move {c' : γ} (h : Chain cellOf nil cells c l) (hc : cells' c' = cells c)
    (hl : ∀ e ∈ l, cells' (cellOf e) = cells (cellOf e)) : Chain cellOf nil cells' c' l := by
  induction l generalizing c c' with
  | nil => exact hc.trans h
  | cons e l ih =>
    obtain ⟨h1, h2, h3⟩ := h
    exact ⟨hc.trans h1, h2, ih h3 (hl e List.mem_cons_self)
      fun e' he' => hl e' (List.mem_cons_of_mem e he')⟩

theorem Chain.append_iff : Chain cellOf nil cells c (l₁ ++ l₂) ↔
    (∀ p e s, l₁ = p ++ e :: s → cells (lastCell cellOf c p) = e ∧ e ≠ nil) ∧
      Chain cellOf nil cells (lastCell cellOf c l₁) l₂ := by
  induction l₁ generalizing c with
  | nil => simp [lastCell]
  | cons e l₁ ih =>
    constructor
    · rintro ⟨h1, h2, h3⟩
      obtain ⟨hpre, hrest⟩ := ih.mp h3
      refine ⟨fun p e' s heq => ?_, hrest⟩
      cases p with
      | nil =>
        obtain ⟨rfl, -⟩ := List.cons.inj heq
        exact ⟨h1, h2⟩
      | cons e'' p =>
        obtain ⟨rfl, hs⟩ := List.cons.inj heq
        exact hpre p e' s hs
    · rintro ⟨hpre, hrest⟩
      obtain ⟨h1, h2⟩ := hpre [] e l₁ rfl
      exact ⟨h1, h2, ih.mpr ⟨fun p e' s hs => hpre (e :: p) e' s (by rw [hs]; rfl), hrest⟩⟩

theorem Chain.right (h : Chain cellOf nil cells c (l₁ ++ l₂)) :
    Chain cellOf nil cells (lastCell cellOf c l₁) l₂ := (Chain.append_iff.mp h).2

theorem Chain.ne_nil (h : Chain cellOf nil cells c l) (he : e ∈ l) : e ≠ nil := by
  obtain ⟨p, s, rfl⟩ := List.append_of_mem he
  exact h.right.2.1

/-- A head cell determines its chain. -/
theorem Chain.unique (h₁ : Chain cellOf nil cells c l₁) (h₂ : Chain cellOf nil cells c l₂) :
    l₁ = l₂ := by
  induction l₁ generalizing c l₂ with
  | nil =>
    cases l₂ with
    | nil => rfl
    | cons e l₂ => exact absurd (h₂.1.symm.trans h₁) h₂.2.1
  | cons e l₁ ih =>
    cases l₂ with
    | nil => exact absurd (h₁.1.symm.trans h₂) h₁.2.1
    | cons e' l₂ =>
      obtain rfl : e = e' := h₁.1.symm.trans h₂.1
      rw [ih h₁.2.2 h₂.2.2]

/-- A chain that ends has no cycle. -/
theorem Chain.nodup (h : Chain cellOf nil cells c l) : l.Nodup := by
  induction l generalizing c with
  | nil => exact List.nodup_nil
  | cons e l ih =>
    obtain ⟨h1, h2, h3⟩ := h
    refine List.nodup_cons.mpr ⟨fun he => ?_, ih h3⟩
    obtain ⟨p, s, rfl⟩ := List.append_of_mem he
    -- the chain from the second `e` is the chain from the first one
    have heq := congrArg List.length (Chain.unique h3 h3.right.2.2)
    simp only [List.length_append, List.length_cons] at heq
    omega

/-- The cells along a chain are distinct when elements have distinct cells. -/
theorem Chain.cells_nodup (h : Chain cellOf nil cells c l) (hinj : Function.Injective cellOf)
    (hc : ∀ e ∈ l, cellOf e ≠ c) : (c :: l.map cellOf).Nodup := by
  refine List.nodup_cons.mpr ⟨fun hm => ?_, h.nodup.map hinj⟩
  obtain ⟨e, he, heq⟩ := List.mem_map.mp hm
  exact hc e he heq

/-- Putting a new element in front. -/
theorem Chain.push (h : Chain cellOf nil cells c l) (hne : e ≠ nil) (hc : cells' c = e)
    (he : cells' (cellOf e) = cells c) (hl : ∀ e' ∈ l, cells' (cellOf e') = cells (cellOf e')) :
    Chain cellOf nil cells' c (e :: l) := ⟨hc, hne, h.move he hl⟩

/-- Everything behind `l₁` may be replaced by writing the last cell of `l₁`. -/
theorem Chain.graft {l₃ : List α} (h : Chain cellOf nil cells c (l₁ ++ l₂))
    (hnd : (c :: l₁.map cellOf).Nodup)
    (hpre : ∀ d ∈ c :: l₁.map cellOf, d ≠ lastCell cellOf c l₁ → cells' d = cells d)
    (h₃ : Chain cellOf nil cells' (lastCell cellOf c l₁) l₃) :
    Chain cellOf nil cells' c (l₁ ++ l₃) := by
  induction l₁ generalizing c with
  | nil => exact h₃
  | cons e l₁ ih =>
    obtain ⟨h1, h2, h3⟩ := h
    have hne : c ≠ lastCell cellOf c (e :: l₁) := by
      intro heq
      have hmem : lastCell cellOf c (e :: l₁) ∈ (e :: l₁).map cellOf := lastCell_mem (cellOf e) l₁
      rw [← heq] at hmem
      exact (List.nodup_cons.mp hnd).1 hmem
    refine ⟨(hpre c List.mem_cons_self hne).trans h1, h2, ?_⟩
    exact ih h3 (List.nodup_cons.mp hnd).2 (fun d hd => hpre d (List.mem_cons_of_mem c hd)) h₃

/-- Unlinking an element: the cell before it takes its next pointer. -/
theorem Chain.unlink (h : Chain cellOf nil cells c (l₁ ++ e :: l₂))
    (hnd : (c :: l₁.map cellOf).Nodup) (hlast : cells' (lastCell cellOf c l₁) = cells (cellOf e))
    (hpre : ∀ d ∈ c :: l₁.map cellOf, d ≠ lastCell cellOf c l₁ → cells' d = cells d)
    (hpost : ∀ e' ∈ l₂, cells' (cellOf e') = cells (cellOf e')) :
    Chain cellOf nil cells' c (l₁ ++ l₂) :=
  h.graft hnd hpre (h.right.2.2.move hlast hpost)

/-- Appending an element: the last cell points to it, and its own cell ends the
chain. -/
theorem Chain.snoc (h : Chain cellOf nil cells c l) (hnd : (c :: l.map cellOf).Nodup) (hne : e ≠ nil)
    (hlast : cells' (lastCell cellOf c l) = e) (hend : cells' (cellOf e) = nil)
    (hpre : ∀ d ∈ c :: l.map cellOf, d ≠ lastCell cellOf c l → cells' d = cells d) :
    Chain cellOf nil cells' c (l ++ [e]) := by
  rw [← List.append_nil l] at h
  exact h.graft hnd hpre ⟨hlast, hne, hend⟩

/-! ## From an element instead of a cell -/

variable (cellOf nil)

/-- `x` is the first of the elements of `l`, or `nil` if there are none. -/
def Linked (cells : γ → α) (x : α) : List α → Prop
  | [] => x = nil
  | e :: l => x = e ∧ e ≠ nil ∧ Chain cellOf nil cells (cellOf e) l

variable {cellOf nil} {x : α}

theorem chain_iff_linked : Chain cellOf nil cells c l ↔ Linked cellOf nil cells (cells c) l := by
  cases l <;> rfl

theorem Linked.tail (h : Linked cellOf nil cells x (e :: l)) :
    Linked cellOf nil cells (cells (cellOf e)) l := chain_iff_linked.mp h.2.2

theorem Linked.cons (h : Linked cellOf nil cells (cells (cellOf e)) l) (hne : e ≠ nil) :
    Linked cellOf nil cells e (e :: l) := ⟨rfl, hne, chain_iff_linked.mpr h⟩

theorem Linked.move (h : Linked cellOf nil cells x l)
    (hl : ∀ e ∈ l, cells' (cellOf e) = cells (cellOf e)) : Linked cellOf nil cells' x l := by
  cases l with
  | nil => exact h
  | cons e l =>
    exact ⟨h.1, h.2.1, h.2.2.move (hl e List.mem_cons_self)
      fun e' he' => hl e' (List.mem_cons_of_mem e he')⟩

theorem Linked.ne_nil (h : Linked cellOf nil cells x l) (he : e ∈ l) : e ≠ nil := by
  cases l with
  | nil => cases he
  | cons e' l =>
    rcases List.mem_cons.mp he with rfl | hm
    · exact h.2.1
    · exact h.2.2.ne_nil hm

theorem Linked.nodup (h : Linked cellOf nil cells x l) : l.Nodup := by
  cases l with
  | nil => exact List.nodup_nil
  | cons e l =>
    refine List.nodup_cons.mpr ⟨fun he => ?_, h.2.2.nodup⟩
    obtain ⟨p, s, rfl⟩ := List.append_of_mem he
    have heq := congrArg List.length (Chain.unique h.2.2 h.2.2.right.2.2)
    simp only [List.length_append, List.length_cons] at heq
    omega

/-- What is behind an element is replaced by writing its cell. -/
theorem Linked.graft {nxt : α → α} {y : α} {l₃ : List α} [DecidableEq α]
    (h : Linked id nil nxt x (l₁ ++ e :: l₂)) (hy : Linked id nil nxt y l₃)
    (hnd : ∀ a ∈ l₁ ++ [e], a ∉ l₃) :
    Linked id nil (Function.update nxt e y) x (l₁ ++ e :: l₃) := by
  have hy' : Linked id nil (Function.update nxt e y) y l₃ := by
    refine hy.move fun a ha => Function.update_of_ne ?_ _ _
    rintro rfl
    exact hnd a (List.mem_append_right l₁ List.mem_cons_self) ha
  induction l₁ generalizing x with
  | nil =>
    refine ⟨h.1, h.2.1, chain_iff_linked.mpr ?_⟩
    rw [id_eq, Function.update_self]
    exact hy'
  | cons a l₁ ih =>
    have hne : a ≠ e := by
      rintro rfl
      exact (List.nodup_cons.mp h.nodup).1 (List.mem_append_right l₁ List.mem_cons_self)
    refine ⟨h.1, h.2.1, chain_iff_linked.mpr ?_⟩
    rw [id_eq, Function.update_of_ne hne]
    exact ih (chain_iff_linked.mp h.2.2) fun b hb => hnd b (List.mem_cons_of_mem a hb)

/-- The first element is the one thing that tells an empty list. -/
theorem Linked.eq_nil_iff (h : Linked cellOf nil cells x l) : x = nil ↔ l = [] := by
  cases l with
  | nil => exact iff_of_true h rfl
  | cons e l => exact iff_of_false (fun hx => h.2.1 (h.1.symm.trans hx)) (List.cons_ne_nil e l)

end Chains
