import PostgresV7.Lib.Chain
import Mathlib.Data.List.Basic

/-!
# Rings linked in both directions

An anchor starts and ends the ring. One map of links leads from it through the
elements in order, the other one back, and both return to the anchor.
-/

namespace Rings

open Chains

variable {α : Type*} {anchor e : α} {next prev : α → α} {l l₁ l₂ : List α}

section PutBefore

variable [DecidableEq α]

/-- The list with `e` put before `p`. -/
def putBefore (p e : α) : List α → List α
  | [] => []
  | x :: l => if x = p then e :: x :: l else x :: putBefore p e l

theorem putBefore_eq {p : α} (h : p ∉ l₁) : putBefore p e (l₁ ++ p :: l₂) = l₁ ++ e :: p :: l₂ := by
  induction l₁ with
  | nil => exact if_pos rfl
  | cons x l₁ ih =>
    have hx : x ≠ p := fun heq => h (heq ▸ List.mem_cons_self)
    have ih := ih fun hmem => h (List.mem_cons_of_mem x hmem)
    simp only [List.cons_append, putBefore, if_neg hx, ih]

theorem putBefore_of_notMem {p : α} (h : p ∉ l) : putBefore p e l = l := by
  induction l with
  | nil => rfl
  | cons x l ih =>
    have hx : x ≠ p := fun heq => h (heq ▸ List.mem_cons_self)
    rw [putBefore, if_neg hx, ih fun hmem => h (List.mem_cons_of_mem x hmem)]

theorem mem_putBefore {p x : α} (hx : x ∈ putBefore p e l) : x = e ∨ x ∈ l := by
  by_cases hp : p ∈ l
  · obtain ⟨l₁, l₂, rfl, hnot⟩ := List.eq_append_cons_of_mem hp
    rw [putBefore_eq hnot] at hx
    rcases List.mem_append.mp hx with hx | hx
    · exact .inr (List.mem_append_left _ hx)
    · exact (List.mem_cons.mp hx).imp_right (List.mem_append_right _)
  · rw [putBefore_of_notMem hp] at hx
    exact .inr hx

end PutBefore

/-- The elements of `l` are linked through the anchor, in order and back. -/
structure Ring (anchor : α) (next prev : α → α) (l : List α) : Prop where
  forth : Chain id anchor next anchor l
  back : Chain id anchor prev anchor l.reverse

namespace Ring

theorem ne_anchor (h : Ring anchor next prev l) (he : e ∈ l) : e ≠ anchor := h.forth.ne_nil he

theorem nodup (h : Ring anchor next prev l) : l.Nodup := h.forth.nodup

/-- What is behind the elements of `l₁`, seen from the anchor, is the last of them. -/
theorem prev_eq (h : Ring anchor next prev (l₁ ++ e :: l₂)) : prev e = lastCell id anchor l₁ := by
  have hback := h.back
  rw [List.reverse_append, List.reverse_cons, List.append_assoc, List.singleton_append] at hback
  have hchain := hback.right.2.2
  rcases List.eq_nil_or_concat' l₁ with rfl | ⟨init, x, rfl⟩
  · exact hchain
  · rw [List.reverse_append] at hchain
    rw [lastCell_append]
    exact hchain.1

theorem flip (h : Ring anchor next prev l) : Ring anchor prev next l.reverse :=
  ⟨h.back, by rw [List.reverse_reverse]; exact h.forth⟩

/-- The anchor leads to the last element, or to itself. -/
theorem last_eq (h : Ring anchor next prev l) : lastCell id anchor l.reverse = next anchor := by
  cases l with
  | nil => exact h.forth.symm
  | cons x l =>
    rw [List.reverse_cons, lastCell_append]
    exact h.forth.1.symm

theorem prev_anchor (h : Ring anchor next prev l) : lastCell id anchor l = prev anchor := by
  have hlast := h.flip.last_eq
  rwa [List.reverse_reverse] at hlast

/-- The anchor and the elements are different. -/
theorem cells_nodup (h : Ring anchor next prev l) : (anchor :: l.map id).Nodup :=
  h.forth.cells_nodup Function.injective_id fun _ he => h.ne_anchor he

/-- The link back from an element does not lead to it. -/
theorem prev_ne (h : Ring anchor next prev l) (he : e ∈ l) : prev e ≠ e := by
  obtain ⟨l₁, l₂, rfl⟩ := List.append_of_mem he
  rw [h.prev_eq]
  intro heq
  have hmem : lastCell id anchor l₁ ∈ anchor :: l₁.map id := lastCell_mem anchor l₁
  rw [heq, List.map_id] at hmem
  rcases List.mem_cons.mp hmem with heq | hm
  · exact h.ne_anchor he heq
  · exact (List.nodup_append.mp h.nodup).2.2 e hm e List.mem_cons_self rfl

/-- The way back from a chain whose steps `prev` undoes. -/
theorem chain_back {c : α} {t : List α} (h : Chain id anchor next c l)
    (hinv : ∀ x ∈ c :: l, prev (next x) = x) (hc : c ≠ anchor) (ht : Chain id anchor prev c t) :
    Chain id anchor prev anchor (l.reverse ++ c :: t) := by
  induction l generalizing c t with
  | nil =>
    have hprev := hinv c List.mem_cons_self
    have hend : next c = anchor := h
    rw [hend] at hprev
    exact ⟨hprev, hc, ht⟩
  | cons e l ih =>
    obtain ⟨h1, h2, h3⟩ := h
    have hprev := hinv c List.mem_cons_self
    rw [h1] at hprev
    rw [List.reverse_cons, List.append_assoc, List.singleton_append]
    exact ih h3 (fun x hx => hinv x (List.mem_cons_of_mem c hx)) h2 ⟨hprev, hc, ht⟩

/-- Links that lead around and are undone by the links back. -/
theorem of_forth (h : Chain id anchor next anchor l)
    (hinv : ∀ x ∈ anchor :: l, prev (next x) = x) : Ring anchor next prev l := by
  refine ⟨h, ?_⟩
  have hprev := hinv anchor List.mem_cons_self
  cases l with
  | nil =>
    have hend : next anchor = anchor := h
    rwa [hend] at hprev
  | cons e l =>
    obtain ⟨h1, h2, h3⟩ := h
    rw [h1] at hprev
    rw [List.reverse_cons]
    exact chain_back h3 (fun x hx => hinv x (List.mem_cons_of_mem anchor hx)) h2 hprev

/-- Links elsewhere do not matter. -/
theorem congr {next' prev' : α → α} (h : Ring anchor next prev l)
    (hsame : ∀ x ∈ anchor :: l, next' x = next x ∧ prev' x = prev x) :
    Ring anchor next' prev' l := by
  have hanchor := hsame anchor List.mem_cons_self
  have hmem : ∀ x ∈ l, next' x = next x ∧ prev' x = prev x :=
    fun x hx => hsame x (List.mem_cons_of_mem anchor hx)
  exact ⟨h.forth.move hanchor.1 fun x hx => (hmem x hx).1,
    h.back.move hanchor.2 fun x hx => (hmem x (List.mem_reverse.mp hx)).2⟩

/-- The link back from an element leads to another one or to the anchor. -/
theorem prev_mem (h : Ring anchor next prev l) (he : e ∈ l) : prev e ∈ anchor :: l := by
  obtain ⟨l₁, l₂, rfl⟩ := List.append_of_mem he
  rw [h.prev_eq]
  have hmem : lastCell id anchor l₁ ∈ anchor :: l₁.map id := lastCell_mem anchor l₁
  rw [List.map_id] at hmem
  rcases List.mem_cons.mp hmem with heq | hm
  · rw [heq]
    exact List.mem_cons_self
  · exact List.mem_cons_of_mem _ (List.mem_append_left _ hm)

theorem next_mem (h : Ring anchor next prev l) (he : e ∈ l) : next e ∈ anchor :: l := by
  have hmem := h.flip.prev_mem (List.mem_reverse.mpr he)
  rwa [List.mem_cons, List.mem_reverse, ← List.mem_cons] at hmem

/-- A link leads to the next element, or back to the anchor. -/
theorem next_last (h : Ring anchor next prev (l₁ ++ l₂)) :
    next (lastCell id anchor l₁) = lastCell id anchor l₂.reverse := by
  have hright := h.forth.right
  cases l₂ with
  | nil => exact hright
  | cons x l₂ =>
    rw [List.reverse_cons, lastCell_append]
    exact hright.1

/-- The link back from there leads to where it came from. -/
theorem prev_first (h : Ring anchor next prev (l₁ ++ l₂)) :
    prev (lastCell id anchor l₂.reverse) = lastCell id anchor l₁ := by
  have hflip := h.flip
  rw [List.reverse_append] at hflip
  have hnext := hflip.next_last
  rwa [List.reverse_reverse] at hnext

variable [DecidableEq α]

/-- A new element behind those of `l₁`. -/
theorem insert_forth (h : Ring anchor next prev (l₁ ++ l₂)) (hne : e ≠ anchor) (he : e ∉ l₁ ++ l₂) :
    Chain id anchor (Function.update (Function.update next e (lastCell id anchor l₂.reverse)) (lastCell id anchor l₁) e)
      anchor (l₁ ++ e :: l₂) := by
  have hnodup := h.cells_nodup
  rw [List.map_id] at hnodup
  have hpre : (anchor :: l₁).Nodup := hnodup.sublist (List.cons_sublist_cons.mpr (List.sublist_append_left _ _))
  have hlast : lastCell id anchor l₁ ∈ anchor :: l₁ := by
    have hmem : lastCell id anchor l₁ ∈ anchor :: l₁.map id := lastCell_mem anchor l₁
    rwa [List.map_id] at hmem
  have hfresh : ∀ d ∈ anchor :: l₁, d ≠ e := by
    rintro d hd rfl
    rcases List.mem_cons.mp hd with heq | hd
    · exact hne heq
    · exact he (List.mem_append_left _ hd)
  refine h.forth.graft (by rwa [List.map_id]) (fun d hd hlast => ?_) ?_
  · rw [List.map_id] at hd
    rw [Function.update_of_ne hlast, Function.update_of_ne (hfresh d hd)]
  · refine h.forth.right.push hne (Function.update_self _ _ _) ?_ fun x hx => ?_
    · rw [id_eq, Function.update_of_ne (hfresh _ hlast).symm, Function.update_self, h.next_last]
    · have hxlast : x ≠ lastCell id anchor l₁ := by
        rintro rfl
        rcases List.mem_cons.mp hlast with heq | hl₁
        · exact h.ne_anchor (List.mem_append_right _ hx) heq
        · exact (List.nodup_append.mp h.nodup).2.2 _ hl₁ _ hx rfl
      have hxe : x ≠ e := fun heq => he (heq ▸ List.mem_append_right _ hx)
      rw [id_eq, Function.update_of_ne hxlast, Function.update_of_ne hxe]

/-- A new element between those of `l₁` and those of `l₂`. -/
theorem insert_between (h : Ring anchor next prev (l₁ ++ l₂)) (hne : e ≠ anchor) (he : e ∉ l₁ ++ l₂) :
    Ring anchor
      (Function.update (Function.update next e (lastCell id anchor l₂.reverse)) (lastCell id anchor l₁) e)
      (Function.update (Function.update prev e (lastCell id anchor l₁)) (lastCell id anchor l₂.reverse) e)
      (l₁ ++ e :: l₂) := by
  refine ⟨h.insert_forth hne he, ?_⟩
  have hflip := h.flip
  rw [List.reverse_append] at hflip
  have hback := hflip.insert_forth hne (by rwa [← List.reverse_append, List.mem_reverse])
  rw [List.reverse_append, List.reverse_cons, List.append_assoc, List.singleton_append]
  rwa [List.reverse_reverse] at hback

/-- A new element before another one; before the anchor is at the end. -/
theorem insert_before {p : α} (h : Ring anchor next prev l) (hp : p ∈ anchor :: l) (hne : e ≠ anchor) (he : e ∉ l) :
    Ring anchor (Function.update (Function.update next e (next (prev p))) (prev p) e)
      (Function.update (Function.update prev e (prev p)) p e)
      (if anchor = p then l ++ [e] else putBefore p e l) := by
  obtain ⟨l₁, l₂, rfl, hp, hput⟩ : ∃ l₁ l₂, l = l₁ ++ l₂ ∧ p = lastCell id anchor l₂.reverse ∧
      (if anchor = p then l ++ [e] else putBefore p e l) = l₁ ++ e :: l₂ := by
    rcases List.mem_cons.mp hp with rfl | hp
    · exact ⟨l, [], (List.append_nil l).symm, rfl, if_pos rfl⟩
    · obtain ⟨l₁, l₂, rfl, hnot⟩ := List.eq_append_cons_of_mem hp
      refine ⟨l₁, p :: l₂, rfl, ?_, ?_⟩
      · rw [List.reverse_cons, lastCell_append]
        rfl
      · rw [if_neg (h.ne_anchor hp).symm, putBefore_eq hnot]
  have hprev : prev p = lastCell id anchor l₁ := by rw [hp, h.prev_first]
  have hnext : next (prev p) = lastCell id anchor l₂.reverse := by rw [hprev, h.next_last]
  rw [hput, hnext, hprev, hp]
  exact h.insert_between hne he

/-- A new element right behind the anchor. -/
theorem insert (h : Ring anchor next prev l) (hne : e ≠ anchor) (he : e ∉ l) :
    Ring anchor (Function.update (Function.update next e (next anchor)) anchor e)
      (Function.update (Function.update prev e anchor) (next anchor) e) (e :: l) := by
  have hlast := h.last_eq
  rw [← hlast]
  exact Ring.insert_between (show Ring anchor next prev ([] ++ l) from h) hne he

/-- Links past an element. -/
theorem unlink_forth (h : Ring anchor next prev (l₁ ++ e :: l₂)) :
    Chain id anchor (Function.update next (prev e) (next e)) anchor (l₁ ++ l₂) := by
  have hnodup := h.cells_nodup
  rw [List.map_id] at hnodup
  obtain ⟨hanchor, hnd⟩ := List.nodup_cons.mp hnodup
  have hpre : (anchor :: l₁.map id).Nodup := by
    rw [List.map_id]
    refine List.nodup_cons.mpr ⟨fun hm => hanchor (List.mem_append_left _ hm), ?_⟩
    exact hnd.sublist (List.sublist_append_left _ _)
  refine h.forth.unlink hpre ?_ (fun d _ hd => ?_) fun x hx => ?_
  · rw [h.prev_eq]
    exact Function.update_self _ _ _
  · rw [h.prev_eq, Function.update_of_ne hd]
  · have hlast : lastCell id anchor l₁ ∈ anchor :: l₁.map id := lastCell_mem anchor l₁
    rw [List.map_id] at hlast
    refine Function.update_of_ne ?_ _ _
    rw [h.prev_eq, id_eq]
    rintro rfl
    rcases List.mem_cons.mp hlast with heq | hm
    · exact hanchor (List.mem_append_right _ (List.mem_cons_of_mem e (heq ▸ hx)))
    · exact (List.nodup_append.mp hnd).2.2 _ hm _ (List.mem_cons_of_mem e hx) rfl

/-- Unlinking an element. -/
theorem unlink (h : Ring anchor next prev (l₁ ++ e :: l₂)) :
    Ring anchor (Function.update next (prev e) (next e)) (Function.update prev (next e) (prev e))
      (l₁ ++ l₂) := by
  refine ⟨h.unlink_forth, ?_⟩
  have hflip := h.flip
  rw [List.reverse_append, List.reverse_cons, List.append_assoc, List.singleton_append] at hflip
  rw [List.reverse_append]
  exact hflip.unlink_forth

theorem erase (h : Ring anchor next prev l) (he : e ∈ l) :
    Ring anchor (Function.update next (prev e) (next e)) (Function.update prev (next e) (prev e))
      (l.erase e) := by
  obtain ⟨l₁, l₂, rfl⟩ := List.append_of_mem he
  have hnot : e ∉ l₁ := fun hm =>
    (List.nodup_append.mp h.nodup).2.2 e hm e List.mem_cons_self rfl
  rw [List.erase_append_right _ hnot, List.erase_cons_head]
  exact h.unlink

end Ring

end Rings
