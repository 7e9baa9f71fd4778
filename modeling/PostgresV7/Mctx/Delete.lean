import PostgresV7.Mctx.Tree

/-!
# Deleting contexts

`memory_context_delete` always takes out the first child that is left, so every
state in between is a tree too: the one without what has been deleted so far.
-/

namespace PostgresV7.Mctx

open Regions Forests Outcomes

variable {s s' : State} {F : Forest Nat} {c q : Nat}

theorem mem_without {live : List (Nat × Nat)} {p x : Nat} (hx : x ∈ live.map Prod.fst)
    (hne : x ≠ p) : x ∈ (Aset.without live p).map Prod.fst := by
  obtain ⟨y, hy, rfl⟩ := List.mem_map.mp hx
  exact List.mem_map.mpr ⟨y, List.mem_filter.mpr ⟨hy, decide_eq_true hne⟩, rfl⟩

theorem roots_remove {top : Nat} (h : F.roots = [top]) (hc : c ≠ top) :
    (F.remove c).roots = [top] := by
  cases F with
  | nil => cases h
  | cons a kids rest =>
    obtain ⟨rfl, hrest⟩ := List.cons.inj h
    cases rest with
    | cons b _ _ => cases hrest
    | nil =>
      rw [Forest.remove, if_neg (fun e => hc e.symm)]
      rfl

/-- What stays the same when contexts are deleted. -/
structure Remains (s s' : State) : Prop where
  top : s'.topMemoryContext = s.topMemoryContext
  current : s'.currentMemoryContext = s.currentMemoryContext

theorem Remains.trans {s'' : State} (h : Remains s s') (h' : Remains s' s'') : Remains s s'' :=
  ⟨h'.top.trans h.top, h'.current.trans h.current⟩

/-- The end of `memory_context_delete`, once the children are gone. -/
theorem Sound.dropLeaf (h : Sound s F) (hc : c ∈ F.nodes) (htop : c ≠ s.topMemoryContext)
    (hleaf : F.kidsOf c = .nil) :
    ∃ s', (do
        let K ← Mctx.unlink c s.links
        let s ← { s with links := K }.deleteMethod c
        s.pfree c : Except Fault State) = .ok s' ∧ Sound s' (F.remove c) ∧ Remains s s' := by
  obtain ⟨K, hK, hholds⟩ := h.unlink hc htop
  obtain ⟨st, hdelete⟩ := Aset.allocSetDelete_ok (h.fresh c hc htop).listed
  have hlive := h.live c hc htop
  obtain ⟨hpos, hdvd, hlt, -⟩ := live_region h.set hlive
  obtain ⟨st', hfree⟩ : ∃ st', Aset.allocSetFree (s.sets s.topMemoryContext) c = .ok st' := by
    obtain ⟨L, hshape, hback⟩ := h.set
    obtain ⟨c', rfl, hused⟩ := hback.chunk hlive
    obtain ⟨st', -, hfree, -⟩ := Aset.allocSetFree_spec hshape hused
    exact ⟨st', hfree⟩
  have hset := h.set.step (.free (A := bumpAllocator) hlive hfree)
  have halign : c = maxAlign c := by
    rw [maxAlign_eq hlt]
    exact (Align.alignUp_of_dvd (by decide) hdvd).symm
  have htopset : (Function.update s.sets c st) s.topMemoryContext = s.sets s.topMemoryContext :=
    Function.update_of_ne (fun e => htop e.symm) _ _
  have hrun : (do
      let K ← Mctx.unlink c s.links
      let s ← { s with links := K }.deleteMethod c
      s.pfree c : Except Fault State) = .ok
        { ({ s with links := K }.setSet c st).setSet s.topMemoryContext st' with
          live := Aset.without s.live c
          contexts := s.contexts.filter (· ≠ c) } := by
    have hvalid : State.isValid ({ s with links := K }.setSet c st) s.topMemoryContext = true :=
      h.isValid h.top_mem
    rw [hK]
    simp only [bind, Except.bind, State.deleteMethod, hdelete, callAset, Except.mapError]
    rw [State.pfree]
    have hcond : ¬(c = 0 ∨ c ≠ maxAlign c ∨
        ¬State.isValid ({ s with links := K }.setSet c st) s.topMemoryContext = true) := by
      rintro (h0 | hal | hv)
      · omega
      · exact hal halign
      · exact hv hvalid
    refine (if_neg hcond).trans ?_
    simp only [State.setSet, htopset, hfree, callAset, Except.mapError, bind, Except.bind]
  refine ⟨_, hrun, ?_, ⟨rfl, rfl⟩⟩
  have hmem : ∀ x, x ∈ (F.remove c).nodes ↔ x ∈ F.nodes ∧ x ≠ c := fun x =>
    Forest.mem_remove_leaf h.nodup hc hleaf
  refine ⟨⟨hholds, roots_remove h.root htop, h.nodup.sublist (Forest.remove_sublist c F),
    fun x => ?_, fun x hx hxt => ?_⟩, fun x hx => h.valid x ((hmem x).mp hx).1, ?_, ?_,
    fun x hx hxt => ?_, h.below⟩
  · rw [hmem x, ← h.contexts x]
    simp
  · obtain ⟨hxF, hxc⟩ := (hmem x).mp hx
    exact mem_without (h.live x hxF hxt) hxc
  · show Aset.Sound ⟨Function.update (Function.update s.sets c st) s.topMemoryContext st'
      s.topMemoryContext, Aset.without s.live c⟩
    rw [Function.update_self]
    exact hset
  · show Aset.Regional _ (Function.update (Function.update s.sets c st) s.topMemoryContext st'
      s.topMemoryContext)
    rw [Function.update_self]
    exact Aset.allocSetFree_regions h.away hfree
  · obtain ⟨hxF, hxc⟩ := (hmem x).mp hx
    have hsame : Function.update (Function.update s.sets c st) s.topMemoryContext st' x =
        s.sets x :=
      (Function.update_of_ne hxt _ _).trans (Function.update_of_ne hxc _ _)
    show Aset.Fresh (Function.update (Function.update s.sets c st) s.topMemoryContext st' x)
    rw [hsame]
    exact h.fresh x hxF hxt

/-- A deletion is refused only when it comes to the current context. -/
def Refused (s : State) (below : List Nat) (e : Fault) : Prop :=
  e = .assertion ∧ s.currentMemoryContext ∈ below

theorem nil_of_length {G : Forest Nat} (h : G.nodes.length ≤ 0) : G = .nil := by
  cases G with
  | nil => rfl
  | cons a kids rest => exact absurd h (Nat.not_succ_le_zero _)

/-- TopMemoryContext is below no context. -/
theorem Sound.below_ne_top (h : Sound s F) (hc : c ∈ (F.kidsOf q).nodes) :
    c ≠ s.topMemoryContext := by
  have hroot := h.root
  have hnd := h.nodup
  cases F with
  | nil => cases hroot
  | cons a kids rest =>
    obtain ⟨rfl, hrest⟩ := List.cons.inj hroot
    cases rest with
    | cons b _ _ => cases hrest
    | nil =>
      obtain ⟨hak, -⟩ := Forest.nodup_cons hnd
      rintro rfl
      rw [Forest.kidsOf] at hc
      split at hc
      · exact hak hc
      · split at hc
        · exact hak (Forest.kidsOf_subset q kids hc)
        · exact absurd hc List.not_mem_nil

/-- Without children there is nothing to delete. -/
theorem Sound.deleteNone (h : Sound s F) (hc : c ∈ F.nodes) (hnone : F.kidsOf c = .nil) (k : Nat) :
    memoryContextDeleteChildren k c s = .ok s ∧ F.clear c = F := by
  have hfirst := h.holds.kids hc
  have hclear := Forest.setKids_kidsOf (q := c) h.nodup
  rw [hnone] at hfirst hclear
  refine ⟨?_, hclear⟩
  unfold memoryContextDeleteChildren
  exact if_pos hfirst

/-- Deleting a context takes its subtree out of the tree, deleting its children what
is below it; nothing but the current context is in the way. -/
theorem delete_spec (k : Nat) :
    (∀ {s F c}, Sound s F → c ∈ F.nodes → c ≠ s.topMemoryContext →
      2 * (F.kidsOf c).nodes.length + 1 ≤ k →
      Ends (Refused s (c :: (F.kidsOf c).nodes)) (memoryContextDelete k c s)
        fun s' => Sound s' (F.remove c) ∧ Remains s s') ∧
    ∀ {s F c}, Sound s F → c ∈ F.nodes → 2 * (F.kidsOf c).nodes.length ≤ k →
      Ends (Refused s (F.kidsOf c).nodes) (memoryContextDeleteChildren k c s)
        fun s' => Sound s' (F.clear c) ∧ Remains s s' := by
  induction k with
  | zero =>
    refine ⟨fun _ _ _ hk => absurd hk (Nat.not_succ_le_zero _), fun {s F c} h hc hk => ?_⟩
    obtain ⟨hrun, hclear⟩ := h.deleteNone hc (nil_of_length (by omega)) 0
    rw [hrun, hclear]
    exact ⟨h, rfl, rfl⟩
  | succ k ih =>
    obtain ⟨ihd, ihc⟩ := ih
    refine ⟨fun {s F c} h hc htop hk => ?_, fun {s F c} h hc hk => ?_⟩
    · unfold memoryContextDelete
      by_cases hcur : c = s.currentMemoryContext
      · rw [if_pos (.inr (.inr hcur))]
        exact ⟨rfl, hcur ▸ List.mem_cons_self⟩
      · rw [if_neg (by simp [h.isValid hc, htop, hcur])]
        have hkids : Ends (Refused s (c :: (F.kidsOf c).nodes)) _ _ :=
          (ihc h hc (by omega)).mono (fun e he => ⟨he.1, List.mem_cons_of_mem _ he.2⟩)
            fun _ hs => hs
        refine hkids.bind fun s₁ hs₁ => ?_
        obtain ⟨h₁, hsame⟩ := hs₁
        have hc₁ := Forest.mem_setKids .nil hc
        obtain ⟨s₂, hrun, h₂, hsame₂⟩ := h₁.dropLeaf hc₁ (fun e => htop (e.trans hsame.top))
          (Forest.kidsOf_clear h.nodup hc)
        rw [hrun]
        refine ⟨?_, hsame.trans hsame₂⟩
        rw [Forest.clear, Forest.remove_setKids] at h₂
        exact h₂
    · cases hkids : F.kidsOf c with
      | nil =>
        obtain ⟨hrun, hclear⟩ := h.deleteNone hc hkids (k + 1)
        rw [hrun, hclear]
        exact ⟨h, rfl, rfl⟩
      | cons a ks rest =>
        have hfirst := h.holds.kids hc
        rw [hkids] at hfirst hk
        obtain ⟨ha, ha0, -⟩ := hfirst
        have hak : a ∈ (F.kidsOf c).nodes := hkids ▸ List.mem_cons_self
        have haF := Forest.kidsOf_subset c F hak
        have hka := Forest.kidsOf_first h.nodup hkids
        have hremove := Forest.remove_first h.nodup hkids
        simp only [Forest.nodes, List.length_cons, List.length_append] at hk
        unfold memoryContextDeleteChildren
        rw [ha, if_neg ha0]
        have hdel := ihd h haF (h.below_ne_top hak) (by rw [hka]; omega)
        rw [hka, hremove] at hdel
        have hdel : Ends (Refused s (Forest.cons a ks rest).nodes) _ _ := hdel.mono
          (fun e he => ⟨he.1, ?_⟩) fun _ hs => hs
        · refine hdel.bind fun s₁ hs₁ => ?_
          obtain ⟨h₁, hsame⟩ := hs₁
          have hc₁ := Forest.mem_setKids rest hc
          have hrest := Forest.kidsOf_setKids rest h.nodup hc
          have hnext := ihc h₁ hc₁ (by rw [hrest]; omega)
          rw [hrest, Forest.clear, Forest.setKids_setKids] at hnext
          refine hnext.mono (fun e he => ⟨he.1, ?_⟩) fun _ hs => ⟨hs.1, hsame.trans hs.2⟩
          rw [← hsame.current]
          exact List.mem_cons_of_mem _ (List.mem_append_right _ he.2)
        · rcases List.mem_cons.mp he.2 with hm | hm
          · exact hm ▸ List.mem_cons_self
          · exact List.mem_cons_of_mem _ (List.mem_append_left _ hm)

end PostgresV7.Mctx
