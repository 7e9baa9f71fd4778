import PostgresV7.Dllist.Writes

/-!
# Lists as sequences (`dllist.c`)

The memory holds a sequence of elements for every list header, and no element is in two of them.
Every call does to them what it says.
-/

namespace PostgresV7.Dllist

open Links Outcomes

variable {m m' : Memory} {l e : Nat} {x y : Place} {l₁ l₂ : List Nat}

/-! ## What the memory holds -/

/-- The fields agree with the sequences: `dll_head`, `dle_next`, `dle_prev` and `dll_tail` are the
links of each of them, there and back, `dle_list` is the list of every member, and what is in
no list has no links. -/
structure Represents (m : Memory) (lists : Nat → List Nat) : Prop where
  linked : ∀ l, Linked Place.ptr m.next m.prev (.front l) (.back l) ((lists l).map .elem)
  nodup : ∀ l, (lists l).Nodup
  member : ∀ l, ∀ e ∈ lists l, m.dleList e = l ∧ e ≠ NULL ∧ l ≠ NULL
  free : ∀ e, (∀ l, e ∉ lists l) → m.dleNext e = NULL ∧ m.dlePrev e = NULL ∧ m.dleList e = NULL

variable {lists : Nat → List Nat} {L : List Nat}

theorem elem_mem {d : Nat} {L : List Nat} : Place.elem d ∈ L.map Place.elem ↔ d ∈ L :=
  List.mem_map_of_injective fun _ _ => Place.elem.inj

theorem places_nodup (hnodup : L.Nodup) (l : Nat) : (places (.front l) (.back l) (L.map Place.elem)).Nodup :=
  places_map_nodup (fun _ _ => Place.elem.inj) (fun d => elem_ne_front d l) (fun d => elem_ne_back d l)
    (front_ne_back l l) hnodup

namespace Represents

theorem ne_of_split (h : Represents m lists) (hl : lists l = l₁ ++ e :: l₂) {d : Nat} (hd : d ∈ l₁ ++ l₂) : d ≠ e := by
  rintro rfl
  have hnodup := h.nodup l
  rw [hl] at hnodup
  exact (List.nodup_cons.mp (List.perm_middle.nodup_iff.mp hnodup)).1 hd

/-- An element of a list is between its neighbours. -/
theorem between (h : Represents m lists) (hl : lists l = l₁ ++ e :: l₂) :
    Between m l e ((l₁.map Place.elem).getLastD (.front l)) ((l₂.map Place.elem).headD (.back l)) := by
  have hlinked := h.linked l
  rw [hl, List.map_append, List.map_cons] at hlinked
  obtain ⟨hleft, hright⟩ := hlinked.around
  have hmember : ∀ d ∈ l₁ ++ e :: l₂, m.dleList d = l ∧ d ≠ NULL ∧ l ≠ NULL := hl ▸ h.member l
  obtain ⟨hlist, he, hheader⟩ := hmember e (List.mem_append_right _ List.mem_cons_self)
  refine ⟨hleft, hright, ?_, ?_, hlist, hheader, he⟩
  · refine (getLastD_map_cases l₁ (Place.front l)).imp_right ?_
    rintro ⟨p, hp, heq⟩
    exact ⟨p, heq, (hmember p (List.mem_append_left _ hp)).2.1, h.ne_of_split hl (List.mem_append_left _ hp)⟩
  · refine (headD_map_cases l₂ (Place.back l)).imp_right ?_
    rintro ⟨s, hs, heq⟩
    exact ⟨s, heq, (hmember s (List.mem_append_right _ (List.mem_cons_of_mem e hs))).2.1,
      h.ne_of_split hl (List.mem_append_right _ hs)⟩

/-- The header of a list leads to its first element. -/
theorem ahead (h : Represents m lists) (hfree : ∀ l', e ∉ lists l') (l : Nat) :
    Ahead m l e (((lists l).map Place.elem).headD (.back l)) := by
  have hmember := h.member l
  refine ⟨(h.linked l).first.1, ?_, ?_⟩
  · refine (headD_map_cases (lists l) (Place.back l)).imp_right ?_
    rintro ⟨s, hs, heq⟩
    refine ⟨s, heq, (hmember s hs).2.1, ?_⟩
    rintro rfl
    exact hfree l hs
  · have htail : m.dllTail l = _ := (h.linked l).last.2
    rw [htail]
    rcases getLastD_map_cases (lists l) (Place.front l) with heq | ⟨p, hp, heq⟩ <;> rw [heq]
    · have hnil : lists l = [] := by
        rcases List.eq_nil_or_concat' (lists l) with hnil | ⟨L, d, hd⟩
        · exact hnil
        · rw [hd, List.map_append, List.map_singleton, List.getLastD_concat] at heq
          exact absurd heq (elem_ne_front d l)
      rw [hnil]
      exact iff_of_true rfl rfl
    · refine iff_of_false (hmember p hp).2.1 ?_
      cases hL : lists l with
      | nil =>
        rw [hL] at hp
        cases hp
      | cons s L => exact elem_ne_back s l

/-- One list becomes another one. -/
theorem change (h : Represents m lists)
    (hlinked : Linked Place.ptr m'.next m'.prev (.front l) (.back l) (L.map Place.elem)) (hnodup : L.Nodup)
    (hmember : ∀ d ∈ L, m'.dleList d = l ∧ d ≠ NULL ∧ l ≠ NULL) (hapart : ∀ d ∈ L, ∀ l', l' ≠ l → d ∉ lists l')
    (hgone : ∀ d ∈ lists l, d ∉ L → m'.dleNext d = NULL ∧ m'.dlePrev d = NULL ∧ m'.dleList d = NULL)
    (hsame : ∀ z, z ≠ .front l → z ≠ .back l → z ∉ (lists l).map Place.elem → z ∉ L.map Place.elem →
      m'.next z = m.next z ∧ m'.prev z = m.prev z)
    (hlist : ∀ d, d ∉ lists l → d ∉ L → m'.dleList d = m.dleList d) :
    Represents m' (Function.update lists l L) := by
  have hother : ∀ l', l' ≠ l → ∀ d ∈ lists l', d ∉ lists l ∧ d ∉ L := by
    intro l' hne d hd
    refine ⟨fun hd' => hne ?_, fun hd' => hapart d hd' l' hne hd⟩
    exact (h.member l' d hd).1.symm.trans (h.member l d hd').1
  refine ⟨fun l' => ?_, fun l' => ?_, fun l' d hd => ?_, fun d hd => ?_⟩
  · by_cases hne : l' = l
    · subst hne
      rw [Function.update_self]
      exact hlinked
    · rw [Function.update_of_ne hne]
      have hkept : ∀ z ∈ places (.front l') (.back l') ((lists l').map Place.elem),
          m'.next z = m.next z ∧ m'.prev z = m.prev z := by
        intro z hz
        rcases mem_places.mp hz with rfl | hz | rfl
        · refine hsame _ (fun heq => hne (Place.front.inj heq)) nofun (fun hmem => ?_) fun hmem => ?_ <;>
            obtain ⟨d, -, hd⟩ := List.mem_map.mp hmem <;> exact elem_ne_front d l' hd
        · obtain ⟨d, hd, rfl⟩ := List.mem_map.mp hz
          obtain ⟨h₁, h₂⟩ := hother l' hne d hd
          exact hsame _ nofun nofun (fun hmem => h₁ (elem_mem.mp hmem)) fun hmem => h₂ (elem_mem.mp hmem)
        · refine hsame _ nofun (fun heq => hne (Place.back.inj heq)) (fun hmem => ?_) fun hmem => ?_ <;>
            obtain ⟨d, -, hd⟩ := List.mem_map.mp hmem <;> exact elem_ne_back d l' hd
      refine (h.linked l').congr (fun z hz => (hkept z ?_).1) fun z hz => (hkept z ?_).2
      · exact List.cons_subset_cons _ (List.subset_append_left _ _) hz
      · exact List.mem_cons_of_mem _ hz
  · by_cases hne : l' = l
    · subst hne
      rw [Function.update_self]
      exact hnodup
    · rw [Function.update_of_ne hne]
      exact h.nodup l'
  · by_cases hne : l' = l
    · subst hne
      rw [Function.update_self] at hd
      exact hmember d hd
    · rw [Function.update_of_ne hne] at hd
      obtain ⟨h₁, h₂⟩ := hother l' hne d hd
      rw [hlist d h₁ h₂]
      exact h.member l' d hd
  · have hL : d ∉ L := by
      have hd := hd l
      rwa [Function.update_self] at hd
    by_cases hmem : d ∈ lists l
    · exact hgone d hmem hL
    · have hnone : ∀ l', d ∉ lists l' := by
        intro l' hmem'
        by_cases hne : l' = l
        · exact hmem (hne ▸ hmem')
        · have hd := hd l'
          rw [Function.update_of_ne hne] at hd
          exact hd hmem'
      have hkept := hsame (.elem d) nofun nofun (fun hd => hmem (elem_mem.mp hd)) fun hd => hL (elem_mem.mp hd)
      obtain ⟨hn, hp, hl⟩ := h.free d hnone
      exact ⟨hkept.1.trans hn, hkept.2.trans hp, (hlist d hmem hL).trans hl⟩

/-- An element is taken out of its list. -/
theorem removes (h : Represents m lists) (hl : lists l = l₁ ++ e :: l₂)
    (hr : Removes m e ((l₁.map Place.elem).getLastD (.front l)) ((l₂.map Place.elem).headD (.back l)) m') :
    Represents m' (Function.update lists l (l₁ ++ l₂)) := by
  have hlinked := h.linked l
  have hnodup := h.nodup l
  have hplaces := places_nodup hnodup l
  rw [hl] at hlinked hnodup hplaces
  rw [List.map_append, List.map_cons] at hlinked hplaces
  have hmem : ∀ d ∈ l₁ ++ l₂, d ∈ lists l := by
    intro d hd
    rw [hl]
    exact (List.sublist_append_right [e] l₂ |>.append_left l₁).subset hd
  have hlist : ∀ d, d ≠ e → m'.dleList d = m.dleList d := by
    intro d hd
    rw [hr.list, Function.update_of_ne hd]
  refine h.change ?_ ?_ (fun d hd => ?_) (fun d hd l' hne hd' => hne ?_) (fun d hd hd' => ?_)
    (fun z hfront hback hz hz' => ?_) fun d hd _ => hlist d ?_
  · rw [List.map_append]
    exact hlinked.remove hplaces hr.left hr.right hr.next hr.prev
  · exact hnodup.sublist (List.sublist_append_right [e] l₂ |>.append_left l₁)
  · rw [hlist d (h.ne_of_split hl hd)]
    exact h.member l d (hmem d hd)
  · exact (h.member l' d hd').1.symm.trans (h.member l d (hmem d hd)).1
  · have hde : d = e := by
      rw [hl] at hd
      rcases List.mem_append.mp hd with hd | hd
      · exact absurd (List.mem_append_left _ hd) hd'
      · exact (List.mem_cons.mp hd).resolve_right fun hd => hd' (List.mem_append_right _ hd)
    rw [hde, hr.list, Function.update_self]
    exact ⟨hr.gone.1, hr.gone.2, rfl⟩
  · have hze : z ≠ .elem e := by
      rintro rfl
      refine hz (elem_mem.mpr ?_)
      rw [hl]
      exact List.mem_append_right _ List.mem_cons_self
    refine ⟨hr.next z ?_ hze, hr.prev z ?_ hze⟩
    · rintro rfl
      rcases getLastD_map_cases l₁ (Place.front l) with heq | ⟨p, hp, heq⟩
      · exact hfront heq
      · rw [heq] at hz'
        exact hz' (elem_mem.mpr (List.mem_append_left _ hp))
    · rintro rfl
      rcases headD_map_cases l₂ (Place.back l) with heq | ⟨s, hs, heq⟩
      · exact hback heq
      · rw [heq] at hz'
        exact hz' (elem_mem.mpr (List.mem_append_right _ hs))
  · rintro rfl
    refine hd ?_
    rw [hl]
    exact List.mem_append_right _ List.mem_cons_self

/-- An element of no list is put at the head of one. -/
theorem puts (h : Represents m lists) (hfree : ∀ l', e ∉ lists l') (hl : l ≠ NULL) (he : e ≠ NULL) :
    Represents (m.put l e (((lists l).map Place.elem).headD (.back l))) (Function.update lists l (e :: lists l)) := by
  have hi := (h.ahead hfree l).inserts
  have hnot : Place.elem e ∉ places (.front l) (.back l) ((lists l).map Place.elem) := by
    intro hmem
    rcases mem_places.mp hmem with heq | hmem | heq
    · exact elem_ne_front e l heq
    · exact hfree l (elem_mem.mp hmem)
    · exact elem_ne_back e l heq
  refine h.change ?_ (List.nodup_cons.mpr ⟨hfree l, h.nodup l⟩) (fun d hd => ?_) (fun d hd l' hne hd' => ?_)
    (fun d hd hd' => absurd (List.mem_cons_of_mem e hd) hd') (fun z hfront hback hz hz' => ?_) fun d _ hd => ?_
  · have hlinked : Linked Place.ptr m.next m.prev (.front l) (.back l) ([] ++ (lists l).map Place.elem) := h.linked l
    exact hlinked.insert (places_nodup (h.nodup l) l) hnot hi.left hi.right hi.next hi.prev
  · rw [hi.list]
    rcases List.mem_cons.mp hd with rfl | hmem
    · rw [Function.update_self]
      exact ⟨rfl, he, hl⟩
    · have hde : d ≠ e := by
        rintro rfl
        exact hfree l hmem
      rw [Function.update_of_ne hde]
      exact h.member l d hmem
  · rcases List.mem_cons.mp hd with rfl | hd
    · exact hfree l' hd'
    · exact hne ((h.member l' d hd').1.symm.trans (h.member l d hd).1)
  · have hze : z ≠ .elem e := by
      rintro rfl
      exact hz' (elem_mem.mpr List.mem_cons_self)
    refine ⟨hi.next z hfront hze, hi.prev z ?_ hze⟩
    rintro rfl
    rcases headD_map_cases (lists l) (Place.back l) with heq | ⟨s, hs, heq⟩
    · exact hback heq
    · rw [heq] at hz
      exact hz (elem_mem.mpr hs)
  · have hde : d ≠ e := by
      rintro rfl
      exact hd List.mem_cons_self
    rw [hi.list, Function.update_of_ne hde]

/-! ## The calls -/

theorem remove (h : Represents m lists) (he : e ∈ lists l) : ∃ m', dlRemove m e = .ok m' ∧
    Represents m' (Function.update lists l ((lists l).erase e)) := by
  obtain ⟨l₁, l₂, hnot, hl, herase⟩ := List.exists_erase_eq he
  obtain ⟨m', hrun, hr⟩ := (h.between hl).dlRemove
  rw [herase]
  exact ⟨m', hrun, h.removes hl hr⟩

theorem addHead (h : Represents m lists) (hfree : ∀ l', e ∉ lists l') (hl : l ≠ NULL) (he : e ≠ NULL) :
    ∃ m', dlAddHead m l e = .ok m' ∧ Represents m' (Function.update lists l (e :: lists l)) :=
  ⟨_, (h.ahead hfree l).dlAddHead hl he, h.puts hfree hl he⟩

theorem remHead (h : Represents m lists) (hl : l ≠ NULL) :
    ∃ m', dlRemHead m l = .ok ((lists l).headD NULL, m') ∧ Represents m' (Function.update lists l (lists l).tail) := by
  cases hL : lists l with
  | nil =>
    have hhead : m.dllHead l = NULL := by
      have hfirst : m.dllHead l = _ := (h.linked l).first.1
      rw [hfirst, hL]
      rfl
    refine ⟨m, ?_, ?_⟩
    · unfold dlRemHead
      rw [deref, if_neg hl, ok_bind]
      dsimp only
      rw [hhead, if_pos rfl]
      rfl
    · rw [List.tail_nil, ← hL, Function.update_eq_self]
      exact h
  | cons e L =>
    have hsplit : lists l = [] ++ e :: L := hL
    have hbetween := h.between hsplit
    have htail : m.dllTail l = e ↔ (L.map Place.elem).headD (.back l) = .back l := by
      have hlast : m.dllTail l = _ := (h.linked l).last.2
      rw [hlast, hL, List.map_cons, List.getLastD_cons]
      rcases List.eq_nil_or_concat' L with rfl | ⟨L, d, rfl⟩
      · exact iff_of_true rfl rfl
      · rw [List.map_append, List.map_singleton, List.getLastD_concat]
        refine iff_of_false (fun heq : d = e => ?_) ?_
        · have hnodup := h.nodup l
          rw [hL, heq] at hnodup
          exact (List.nodup_cons.mp hnodup).1 (List.mem_append_right _ List.mem_cons_self)
        · cases L with
          | nil => exact elem_ne_back d l
          | cons s L => exact elem_ne_back s l
    obtain ⟨m', hrun, hr⟩ := hbetween.dlRemHead htail
    exact ⟨m', hrun, h.removes hsplit hr⟩

/-- The element goes to the head of its list, as if taken out and added there. -/
theorem moveToFront (h : Represents m lists) (he : e ∈ lists l) : ∃ m₁ m', dlRemove m e = .ok m₁ ∧
    dlAddHead m₁ l e = .ok m' ∧ dlMoveToFront m e = .ok m' ∧
    Represents m' (Function.update lists l (e :: (lists l).erase e)) := by
  obtain ⟨l₁, l₂, hnot, hl, herase⟩ := List.exists_erase_eq he
  have hbetween := h.between hl
  obtain ⟨m₁, hremove, hr⟩ := hbetween.dlRemove
  have h₁ := h.removes hl hr
  have hfree : ∀ l', e ∉ Function.update lists l (l₁ ++ l₂) l' := by
    intro l' hmem
    by_cases hne : l' = l
    · subst hne
      rw [Function.update_self] at hmem
      exact h.ne_of_split hl hmem rfl
    · rw [Function.update_of_ne hne] at hmem
      exact hne ((h.member l' e hmem).1.symm.trans (h.member l e he).1)
  have hahead := h₁.ahead hfree l
  have hput := h₁.puts hfree hbetween.header hbetween.elem
  rw [Function.update_self] at hahead
  rw [Function.update_idem, Function.update_self] at hput
  have hfirst : m.dllHead l = e ↔ (l₁.map Place.elem).getLastD (.front l) = .front l := by
    have hhead : m.dllHead l = _ := (h.linked l).first.1
    rw [hhead, hl]
    cases l₁ with
    | nil => exact iff_of_true rfl rfl
    | cons f l₁ =>
      refine iff_of_false (fun heq : f = e => hnot (heq ▸ List.mem_cons_self)) fun heq => ?_
      rw [List.map_cons, List.getLastD_cons] at heq
      have hmem : (l₁.map Place.elem).getLastD (.elem f) ∈ Place.elem f :: l₁.map Place.elem := List.getLastD_mem_cons
      rw [heq, ← List.map_cons] at hmem
      obtain ⟨d, -, hd⟩ := List.mem_map.mp hmem
      exact elem_ne_front d l hd
  have hhead : m.dllHead l ≠ NULL := by
    have hhead : m.dllHead l = _ := (h.linked l).first.1
    rw [hhead, hl]
    cases l₁ with
    | nil => exact hbetween.elem
    | cons f l₁ =>
      refine (h.member l f ?_).2.1
      rw [hl]
      exact List.mem_cons_self
  rw [herase]
  exact ⟨m₁, _, hremove, hahead.dlAddHead hbetween.header hbetween.elem, hbetween.dlMoveToFront hr hahead hfirst hhead, hput⟩

/-! ## The other end -/

/-- The other way round. -/
theorem flip (h : Represents m lists) : Represents m.flip fun l => (lists l).reverse := by
  refine ⟨fun l => ?_, fun l => List.nodup_reverse.mpr (h.nodup l), fun l e he => ?_, fun e hfree => ?_⟩
  · have hlinked := (h.linked l).reverse (Place.ptr_flip) (m.next_flip) (m.prev_flip)
    have hmap : ((lists l).map Place.elem).reverse.map Place.flip = (lists l).reverse.map Place.elem := by
      rw [← List.map_reverse, List.map_map]
      rfl
    rw [hmap] at hlinked
    exact hlinked
  · exact h.member l e (List.mem_reverse.mp he)
  · obtain ⟨hn, hp, hl⟩ := h.free e fun l he => hfree l (List.mem_reverse.mpr he)
    exact ⟨hp, hn, hl⟩

theorem of_flip {lists' : Nat → List Nat} (h : Represents m lists) (hlists : ∀ l, lists' l = (lists l).reverse) :
    Represents m.flip lists' := by
  obtain rfl : lists' = _ := funext hlists
  exact h.flip

theorem addTail (h : Represents m lists) (hfree : ∀ l', e ∉ lists l') (hl : l ≠ NULL) (he : e ≠ NULL) :
    ∃ m', dlAddTail m l e = .ok m' ∧ Represents m' (Function.update lists l (lists l ++ [e])) := by
  obtain ⟨m', hrun, h'⟩ := h.flip.addHead (fun l' hmem => hfree l' (List.mem_reverse.mp hmem)) hl he
  refine ⟨m'.flip, ?_, h'.of_flip fun l' => ?_⟩
  · rw [dlAddTail_flip, hrun]
    rfl
  · by_cases hne : l' = l
    · subst hne
      rw [Function.update_self, Function.update_self, List.reverse_cons, List.reverse_reverse]
    · rw [Function.update_of_ne hne, Function.update_of_ne hne, List.reverse_reverse]

theorem remTail (h : Represents m lists) (hl : l ≠ NULL) : ∃ m', dlRemTail m l = .ok ((lists l).getLastD NULL, m') ∧
    Represents m' (Function.update lists l (lists l).dropLast) := by
  obtain ⟨m', hrun, h'⟩ := h.flip.remHead hl
  refine ⟨m'.flip, ?_, h'.of_flip fun l' => ?_⟩
  · have hlast : (lists l).reverse.headD NULL = (lists l).getLastD NULL := by
      rw [List.headD_eq_head?_getD, List.head?_reverse, List.getLastD_eq_getLast?]
    rw [dlRemTail_flip, hrun, ← hlast]
    rfl
  · by_cases hne : l' = l
    · subst hne
      rw [Function.update_self, Function.update_self, List.tail_reverse, List.reverse_reverse]
    · rw [Function.update_of_ne hne, Function.update_of_ne hne, List.reverse_reverse]

end Represents

end PostgresV7.Dllist
