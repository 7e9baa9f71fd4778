import Mathlib.Data.List.Chain
import Mathlib.Data.List.Nodup

/-!
# Lists linked in both directions between two ends

A list lies between two ends. One link leads from every place but the last to the one behind
it, another back, and what they hold is a pointer to a place. Different places may have the same
pointer, as two ends have that are no places of their own in memory.
-/

namespace Links

variable {α π : Type*} {ptr : α → π} {next prev next' prev' : α → π} {a b e x y : α} {l l₁ l₂ : List α}

/-- Two places behind each other. -/
def Joined (ptr next prev : α → π) (x y : α) : Prop := next x = ptr y ∧ prev y = ptr x

/-- The elements of `l` are linked between the ends `a` and `b`, there and back. -/
def Linked (ptr next prev : α → π) (a b : α) (l : List α) : Prop :=
  (a :: (l ++ [b])).IsChain (Joined ptr next prev)

/-- The places of a list and its ends. -/
def places (a b : α) (l : List α) : List α := a :: (l ++ [b])

theorem mem_places : x ∈ places a b l ↔ x = a ∨ x ∈ l ∨ x = b := by
  unfold places
  rw [List.mem_cons, List.mem_append, List.mem_singleton]

theorem linked_nil : Linked ptr next prev a b [] ↔ Joined ptr next prev a b := List.isChain_pair

theorem linked_cons : Linked ptr next prev a b (e :: l) ↔ Joined ptr next prev a e ∧ Linked ptr next prev e b l :=
  List.isChain_cons_cons

/-- A list is linked if both of its parts are, and these with each other. -/
theorem linked_append : Linked ptr next prev a b (l₁ ++ e :: l₂) ↔
    Linked ptr next prev a e l₁ ∧ Linked ptr next prev e b l₂ := by
  unfold Linked
  rw [List.append_assoc, List.cons_append, ← List.cons_append, List.isChain_split, List.cons_append]

/-- Links of other places do not matter, nor does a link back from the first end or on from
the last one. -/
theorem Linked.congr (h : Linked ptr next prev a b l) (hnext : ∀ x ∈ a :: l, next' x = next x)
    (hprev : ∀ x ∈ l ++ [b], prev' x = prev x) : Linked ptr next' prev' a b l := by
  induction l generalizing a with
  | nil =>
    obtain ⟨hn, hp⟩ := linked_nil.mp h
    refine linked_nil.mpr ⟨?_, ?_⟩
    · rw [hnext a List.mem_cons_self, hn]
    · rw [hprev b List.mem_cons_self, hp]
  | cons e l ih =>
    obtain ⟨⟨hn, hp⟩, hrest⟩ := linked_cons.mp h
    refine linked_cons.mpr ⟨⟨?_, ?_⟩, ?_⟩
    · rw [hnext a List.mem_cons_self, hn]
    · rw [hprev e List.mem_cons_self, hp]
    · apply ih hrest
      · exact fun x hx => hnext x (List.mem_cons_of_mem a hx)
      · exact fun x hx => hprev x (List.mem_cons_of_mem e hx)

/-- The other way round, with other names for the places. -/
theorem Linked.reverse {β : Type*} {ptr' : β → π} {nextβ prevβ : β → π} {f : α → β}
    (h : Linked ptr next prev a b l) (hptr : ∀ x, ptr' (f x) = ptr x) (hnext : ∀ x, nextβ (f x) = prev x)
    (hprev : ∀ x, prevβ (f x) = next x) : Linked ptr' nextβ prevβ (f b) (f a) (l.reverse.map f) := by
  have hjoined : ∀ {x y}, Joined ptr next prev x y → Joined ptr' nextβ prevβ (f y) (f x) := by
    intro x y h
    refine ⟨?_, ?_⟩
    · rw [hnext, hptr, h.2]
    · rw [hprev, hptr, h.1]
  induction l generalizing a with
  | nil => exact linked_nil.mpr (hjoined (linked_nil.mp h))
  | cons e l ih =>
    obtain ⟨hfirst, hrest⟩ := linked_cons.mp h
    rw [List.reverse_cons, List.map_append]
    exact linked_append.mpr ⟨ih hrest, linked_nil.mpr (hjoined hfirst)⟩

/-! ## Neighbours -/

/-- What is before the rest of a list. -/
theorem Linked.first (h : Linked ptr next prev a b l) : Joined ptr next prev a (l.headD b) := by
  cases l with
  | nil => exact linked_nil.mp h
  | cons e l => exact (linked_cons.mp h).1

theorem Linked.last (h : Linked ptr next prev a b l) : Joined ptr next prev (l.getLastD a) b := by
  induction l generalizing a with
  | nil => exact linked_nil.mp h
  | cons e l ih =>
    rw [List.getLastD_cons]
    exact ih (linked_cons.mp h).2

/-- The places around an element. -/
theorem Linked.around (h : Linked ptr next prev a b (l₁ ++ e :: l₂)) :
    Joined ptr next prev (l₁.getLastD a) e ∧ Joined ptr next prev e (l₂.headD b) :=
  ⟨(linked_append.mp h).1.last, (linked_append.mp h).2.first⟩

/-! ## Names for the elements -/

section Named

variable {ε : Type*} {f : ε → α}

theorem places_map_nodup {L : List ε} (hf : f.Injective) (ha : ∀ e, f e ≠ a) (hb : ∀ e, f e ≠ b) (hab : a ≠ b)
    (hnodup : L.Nodup) : (places a b (L.map f)).Nodup := by
  unfold places
  refine List.nodup_cons.mpr ⟨fun hmem => ?_, List.nodup_append.mpr ⟨?_, List.nodup_singleton _, ?_⟩⟩
  · rcases List.mem_append.mp hmem with hmem | hmem
    · obtain ⟨d, -, hd⟩ := List.mem_map.mp hmem
      exact ha d hd
    · exact hab (List.mem_singleton.mp hmem)
  · exact hnodup.map hf
  · intro z hz z' hz'
    obtain ⟨d, -, rfl⟩ := List.mem_map.mp hz
    rw [List.mem_singleton.mp hz']
    exact hb d

/-- The place before what is behind the elements. -/
theorem getLastD_map_cases (L : List ε) (a : α) :
    (L.map f).getLastD a = a ∨ ∃ p ∈ L, (L.map f).getLastD a = f p := by
  have hmem : (L.map f).getLastD a ∈ a :: L.map f := List.getLastD_mem_cons
  rcases List.mem_cons.mp hmem with heq | hmem
  · exact .inl heq
  · obtain ⟨p, hp, heq⟩ := List.mem_map.mp hmem
    exact .inr ⟨p, hp, heq.symm⟩

theorem headD_map_cases (L : List ε) (b : α) : (L.map f).headD b = b ∨ ∃ s ∈ L, (L.map f).headD b = f s := by
  cases L with
  | nil => exact .inl rfl
  | cons s L => exact .inr ⟨s, List.mem_cons_self, rfl⟩

end Named

/-! ## Taking out and putting in -/

/-- What is in front of the last place of the first part may be put before another one. -/
theorem Linked.replace_last (h : Linked ptr next prev a x l) (hnodup : (a :: l).Nodup)
    (hjoined : Joined ptr next' prev' (l.getLastD a) y)
    (hnext : ∀ z ∈ a :: l, z ≠ l.getLastD a → next' z = next z) (hprev : ∀ z ∈ l, prev' z = prev z) :
    Linked ptr next' prev' a y l := by
  induction l generalizing a with
  | nil => exact linked_nil.mpr hjoined
  | cons e l ih =>
    rw [List.getLastD_cons] at hjoined hnext
    obtain ⟨⟨hn, hp⟩, hrest⟩ := linked_cons.mp h
    obtain ⟨ha, hnodup⟩ := List.nodup_cons.mp hnodup
    have hlast : a ≠ l.getLastD e := by
      intro heq
      exact ha (heq ▸ List.getLastD_mem_cons)
    refine linked_cons.mpr ⟨⟨?_, ?_⟩, ?_⟩
    · rw [hnext a List.mem_cons_self hlast, hn]
    · rw [hprev e List.mem_cons_self, hp]
    · exact ih hrest hnodup hjoined (fun z hz => hnext z (List.mem_cons_of_mem a hz))
        fun z hz => hprev z (List.mem_cons_of_mem e hz)

/-- Likewise for what is behind the first place of the second part. -/
theorem Linked.replace_first (h : Linked ptr next prev x b l) (hnodup : (l ++ [b]).Nodup)
    (hjoined : Joined ptr next' prev' y (l.headD b)) (hnext : ∀ z ∈ l, next' z = next z)
    (hprev : ∀ z ∈ l ++ [b], z ≠ l.headD b → prev' z = prev z) : Linked ptr next' prev' y b l := by
  cases l with
  | nil => exact linked_nil.mpr hjoined
  | cons e l =>
    obtain ⟨he, -⟩ := List.nodup_cons.mp hnodup
    refine linked_cons.mpr ⟨hjoined, (linked_cons.mp h).2.congr hnext fun z hz => ?_⟩
    apply hprev z (List.mem_cons_of_mem e hz)
    rintro rfl
    exact he hz

theorem places_append : places a b (l₁ ++ l₂) = (a :: l₁) ++ (l₂ ++ [b]) := by
  unfold places
  rw [List.append_assoc, List.cons_append]

/-- What is before a cut and what is behind it are apart. -/
theorem nodup_parts (h : (places a b (l₁ ++ l₂)).Nodup) :
    (a :: l₁).Nodup ∧ (l₂ ++ [b]).Nodup ∧ ∀ x ∈ a :: l₁, ∀ y ∈ l₂ ++ [b], x ≠ y := by
  rw [places_append] at h
  exact List.nodup_append.mp h

theorem headD_mem : l.headD b ∈ l ++ [b] := by
  cases l with
  | nil => exact List.mem_singleton_self b
  | cons e l => exact List.mem_cons_self

/-- An element is taken out: its neighbours get its links. -/
theorem Linked.remove (h : Linked ptr next prev a b (l₁ ++ e :: l₂)) (hnodup : (places a b (l₁ ++ e :: l₂)).Nodup)
    (hleft : next' (l₁.getLastD a) = next e) (hright : prev' (l₂.headD b) = prev e)
    (hnext : ∀ z, z ≠ l₁.getLastD a → z ≠ e → next' z = next z)
    (hprev : ∀ z, z ≠ l₂.headD b → z ≠ e → prev' z = prev z) : Linked ptr next' prev' a b (l₁ ++ l₂) := by
  obtain ⟨hpre, hpost⟩ := linked_append.mp h
  obtain ⟨⟨-, hback⟩, hon, -⟩ := h.around
  obtain ⟨hnodup₁, hnodup₂, hapart⟩ := nodup_parts hnodup
  obtain ⟨he, hnodup₂⟩ := List.nodup_cons.mp hnodup₂
  have hapart₁ : ∀ x ∈ a :: l₁, x ≠ e := fun x hx => hapart x hx e List.mem_cons_self
  have hapart₂ : ∀ x ∈ a :: l₁, ∀ y ∈ l₂ ++ [b], x ≠ y := fun x hx y hy => hapart x hx y (List.mem_cons_of_mem e hy)
  have hjoined : Joined ptr next' prev' (l₁.getLastD a) (l₂.headD b) := ⟨hleft.trans hon, hright.trans hback⟩
  have hlast : l₁.getLastD a ∈ a :: l₁ := List.getLastD_mem_cons
  have hpre' : Linked ptr next' prev' a (l₂.headD b) l₁ := by
    refine hpre.replace_last hnodup₁ hjoined (fun z hz hne => hnext z hne (hapart₁ z hz)) fun z hz => ?_
    have hz := List.mem_cons_of_mem a hz
    exact hprev z (hapart₂ z hz _ headD_mem) (hapart₁ z hz)
  cases l₂ with
  | nil =>
    rw [List.append_nil]
    exact hpre'
  | cons s l₂ =>
    refine linked_append.mpr ⟨hpre', (linked_cons.mp hpost).2.congr (fun z hz => ?_) fun z hz => ?_⟩
    · apply hnext
      · exact (hapart₂ _ hlast z (List.mem_append_left [b] hz)).symm
      · rintro rfl
        exact he (List.mem_append_left [b] hz)
    · apply hprev
      · rintro rfl
        exact (List.nodup_cons.mp hnodup₂).1 hz
      · rintro rfl
        exact he (List.mem_cons_of_mem s hz)

/-- An element is put between two neighbours. -/
theorem Linked.insert (h : Linked ptr next prev a b (l₁ ++ l₂)) (hnodup : (places a b (l₁ ++ l₂)).Nodup)
    (he : e ∉ places a b (l₁ ++ l₂)) (hleft : Joined ptr next' prev' (l₁.getLastD a) e)
    (hright : Joined ptr next' prev' e (l₂.headD b)) (hnext : ∀ z, z ≠ l₁.getLastD a → z ≠ e → next' z = next z)
    (hprev : ∀ z, z ≠ l₂.headD b → z ≠ e → prev' z = prev z) : Linked ptr next' prev' a b (l₁ ++ e :: l₂) := by
  obtain ⟨hnodup₁, hnodup₂, hapart⟩ := nodup_parts hnodup
  rw [places_append, List.mem_append, not_or] at he
  have hne₁ : ∀ z ∈ a :: l₁, z ≠ e := by
    rintro z hz rfl
    exact he.1 hz
  have hne₂ : ∀ z ∈ l₂ ++ [b], z ≠ e := by
    rintro z hz rfl
    exact he.2 hz
  have hlast : l₁.getLastD a ∈ a :: l₁ := List.getLastD_mem_cons
  have hparts : ∃ x y, Linked ptr next prev a x l₁ ∧ Linked ptr next prev y b l₂ := by
    cases l₂ with
    | nil =>
      rw [List.append_nil] at h
      exact ⟨b, _, h, linked_nil.mpr h.last⟩
    | cons s l₂ =>
      obtain ⟨hpre, hpost⟩ := linked_append.mp h
      exact ⟨s, _, hpre, linked_cons.mpr ⟨hpre.last, hpost⟩⟩
  obtain ⟨x, y, hpre, hpost⟩ := hparts
  refine linked_append.mpr ⟨?_, ?_⟩
  · refine hpre.replace_last hnodup₁ hleft (fun z hz hz' => hnext z hz' (hne₁ z hz)) fun z hz => ?_
    have hz := List.mem_cons_of_mem a hz
    exact hprev z (hapart z hz _ headD_mem) (hne₁ z hz)
  · refine hpost.replace_first hnodup₂ hright (fun z hz => ?_) fun z hz hz' => hprev z hz' (hne₂ z hz)
    have hz := List.mem_append_left [b] hz
    exact hnext z (hapart _ hlast z hz).symm (hne₂ z hz)

end Links
