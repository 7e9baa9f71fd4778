import Mathlib.Data.List.Basic
import Mathlib.Data.List.Flatten
import Mathlib.Data.List.Nodup

/-!
# A cursor over consecutive lists

Lists `lists 0`, `lists 1`, .. below `n` are read one element at a time. The cursor is
the number of a list and what is left of it; before a list is begun nothing of it is
kept. The rules account for every element still ahead, also when one that is already
behind the cursor is taken out of its list.
-/

namespace Cursors

variable {α : Type*} {lists lists' : Nat → List α} {n b c : Nat} {e x : α} {l l₁ l₂ pending : List α}

/-- All elements from the list `b` on. -/
def fromList (lists : Nat → List α) (n b : Nat) : List α := (List.range' b (n - b)).flatMap lists

theorem fromList_end (h : n ≤ b) : fromList lists n b = [] := by
  simp [fromList, Nat.sub_eq_zero_of_le h]

theorem fromList_step (h : b < n) : fromList lists n b = lists b ++ fromList lists n (b + 1) := by
  have hsub : n - b = n - (b + 1) + 1 := by omega
  simp [fromList, hsub, List.range'_succ]

theorem mem_fromList : x ∈ fromList lists n b ↔ ∃ c, b ≤ c ∧ c < n ∧ x ∈ lists c := by
  simp only [fromList, List.mem_flatMap, List.mem_range'_1]
  constructor
  · intro ⟨c, hc, hx⟩
    exact ⟨c, hc.1, by omega, hx⟩
  · intro ⟨c, hbc, hcn, hx⟩
    exact ⟨c, ⟨hbc, by omega⟩, hx⟩

theorem fromList_congr (h : ∀ c, b ≤ c → c < n → lists' c = lists c) :
    fromList lists' n b = fromList lists n b := by
  apply List.flatMap_congr
  intro c hc
  have hbound := List.mem_range'_1.mp hc
  exact h c hbound.1 (by omega)

/-- Lists without repetitions that share no element. -/
theorem fromList_nodup (hnd : ∀ c < n, (lists c).Nodup)
    (hdisj : ∀ c < n, ∀ c' < n, ∀ a, a ∈ lists c → a ∈ lists c' → c = c') :
    (fromList lists n b).Nodup := by
  have hlt : ∀ c ∈ List.range' b (n - b), c < n := by
    intro c hc
    have hbound := List.mem_range'_1.mp hc
    omega
  apply List.nodup_flatMap.mpr
  constructor
  · intro c hc
    exact hnd c (hlt c hc)
  · have hrange : (List.range' b (n - b)).Nodup := List.nodup_range'
    apply hrange.pairwise_of_forall_ne
    intro c hc c' hc' hne a ha ha'
    exact hne (hdisj c (hlt c hc) c' (hlt c' hc') a ha ha')

/-! ## What is ahead -/

/-- The cursor is in the list `b`, of which `l` is left; the elements still ahead are
`pending`. -/
inductive Ahead (lists : Nat → List α) (n b : Nat) : List α → List α → Prop where
  | between : Ahead lists n b [] (fromList lists n b)
  | within {e : α} {l₁ l₂ : List α} : b < n → lists b = l₁ ++ e :: l₂ →
      Ahead lists n b (e :: l₂) (e :: l₂ ++ fromList lists n (b + 1))

theorem Ahead.congr (h : Ahead lists n b l pending) (heq : ∀ c < n, lists' c = lists c) :
    Ahead lists' n b l pending := by
  cases h with
  | between =>
    rw [← fromList_congr fun c _ hc => heq c hc]
    exact .between
  | within hb hl =>
    rw [← fromList_congr fun c _ hc => heq c hc]
    exact .within hb ((heq b hb).trans hl)

/-- All that is ahead is in some list. -/
theorem Ahead.mem (h : Ahead lists n b l pending) (hx : x ∈ pending) : ∃ c < n, x ∈ lists c := by
  cases h with
  | between =>
    obtain ⟨c, -, hc, hin⟩ := mem_fromList.mp hx
    exact ⟨c, hc, hin⟩
  | @within e l₁ l₂ hb hl =>
    rcases List.mem_append.mp hx with hin | hin
    · exact ⟨b, hb, by rw [hl]; exact List.mem_append_right l₁ hin⟩
    · obtain ⟨c, -, hc, hin⟩ := mem_fromList.mp hin
      exact ⟨c, hc, hin⟩

/-- Past the last list nothing is ahead. -/
theorem Ahead.done (h : Ahead lists n b l pending) (hb : n ≤ b) : pending = [] := by
  cases h with
  | between => exact fromList_end hb
  | within hlt _ => omega

/-- An empty list is passed over. -/
theorem Ahead.skip (h : Ahead lists n b [] pending) (hb : b < n) (hl : lists b = []) :
    Ahead lists n (b + 1) [] pending := by
  cases h with
  | between =>
    rw [fromList_step hb, hl, List.nil_append]
    exact .between

/-- A list is begun. -/
theorem Ahead.enter (h : Ahead lists n b [] pending) (hb : b < n) (hl : lists b = e :: l) :
    Ahead lists n b (e :: l) pending := by
  cases h with
  | between =>
    rw [fromList_step hb, hl]
    have hempty : lists b = [] ++ e :: l := hl
    exact .within hb hempty

/-- An element is taken; behind the last one of a list comes the next list. -/
theorem Ahead.take (h : Ahead lists n b (e :: l) pending) : ∃ pending', pending = e :: pending' ∧
    (l = [] → Ahead lists n (b + 1) [] pending') ∧ (l ≠ [] → Ahead lists n b l pending') := by
  cases h with
  | @within e l₁ l₂ hb hl =>
    refine ⟨l ++ fromList lists n (b + 1), rfl, ?_, ?_⟩
    · intro hnil
      rw [hnil, List.nil_append]
      exact .between
    · intro hne
      obtain ⟨a, l', rfl⟩ := List.exists_cons_of_ne_nil hne
      have hsplit : lists b = (l₁ ++ [e]) ++ a :: l' := by simp [hl]
      exact .within hb hsplit

/-- An element behind the cursor may be taken out of its list. -/
theorem Ahead.erase (h : Ahead lists n b l pending) (hc : c < n) (hl : lists c = l₁ ++ e :: l₂)
    (hdisj : ∀ c' < n, e ∈ lists c' → c' = c) (he : e ∉ pending) :
    Ahead (Function.update lists c (l₁ ++ l₂)) n b l pending := by
  have hin : e ∈ lists c := by simp [hl]
  -- the lists that are not begun do not have the element
  have hlater : ∀ a, (∀ x ∈ fromList lists n a, x ∈ pending) →
      fromList (Function.update lists c (l₁ ++ l₂)) n a = fromList lists n a := by
    intro a hsub
    apply fromList_congr
    intro c' hac hcn
    by_cases heq : c' = c
    · subst heq
      exact absurd (hsub e (mem_fromList.mpr ⟨c', hac, hcn, hin⟩)) he
    · exact Function.update_of_ne heq _ _
  cases h with
  | between =>
    rw [← hlater b fun x hx => hx]
    exact .between
  | @within x p q hb hsplit =>
    rw [← hlater (b + 1) fun y hy => List.mem_append_right _ hy]
    by_cases heq : b = c
    · subst heq
      -- the element is before the rest of the list the cursor is in
      have hnotin : e ∉ x :: q := fun hm => he (List.mem_append_left _ hm)
      rcases List.append_eq_append_iff.mp (hl.symm.trans hsplit) with ⟨r, hp, hr⟩ | ⟨r, hp, hr⟩
      · cases r with
        | nil =>
          obtain ⟨rfl, -⟩ := List.cons.inj hr
          exact absurd List.mem_cons_self hnotin
        | cons y r =>
          obtain ⟨rfl, rfl⟩ := List.cons.inj hr
          have hrest : Function.update lists b (l₁ ++ (r ++ x :: q)) b = (l₁ ++ r) ++ x :: q := by simp
          exact .within hb hrest
      · exact absurd (by simp [hr]) hnotin
    · exact .within hb ((Function.update_of_ne heq _ _).trans hsplit)

end Cursors
