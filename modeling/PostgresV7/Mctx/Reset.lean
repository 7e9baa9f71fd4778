import PostgresV7.Mctx.Delete

/-!
# Resetting contexts

A reset touches the sets of the contexts it reaches and no link. The nodes survive
it, unless it is TopMemoryContext that is reset while there are other contexts.
-/

namespace PostgresV7.Mctx

open Regions Forests Outcomes

variable {s s' : State} {F G : Forest Nat} {c p x : Nat}

/-- What stays the same when contexts are reset. -/
structure Untouched (s s' : State) : Prop extends Remains s s' where
  links : s'.links = s.links

theorem Untouched.refl (s : State) : Untouched s s := ⟨⟨rfl, rfl⟩, rfl⟩

theorem Untouched.trans {s'' : State} (h : Untouched s s') (h' : Untouched s' s'') :
    Untouched s s'' :=
  ⟨h.toRemains.trans h'.toRemains, h'.links.trans h.links⟩

namespace Sound

/-- The reset method of a context other than TopMemoryContext. -/
theorem resetOther (h : Sound s F) (hc : c ∈ F.nodes) (htop : c ≠ s.topMemoryContext) :
    ∃ s', s.resetMethod c = .ok s' ∧ Sound s' F ∧ Untouched s s' := by
  obtain ⟨st, hreset, hfresh⟩ := Aset.allocSetReset_fresh (h.fresh c hc htop)
  have htopset : Function.update s.sets c st s.topMemoryContext = s.sets s.topMemoryContext :=
    Function.update_of_ne (fun e => htop e.symm) _ _
  have hrun : s.resetMethod c = .ok { s.setSet c st with live := s.live } := by
    rw [State.resetMethod, hreset, if_neg htop]
    rfl
  refine ⟨_, hrun, ⟨⟨h.holds, h.root, h.nodup, h.contexts, h.live⟩, h.valid, ?_, ?_,
    fun a ha hat => ?_, h.below⟩, ⟨⟨rfl, rfl⟩, rfl⟩⟩
  · show Aset.Sound ⟨Function.update s.sets c st s.topMemoryContext, s.live⟩
    rw [htopset]
    exact h.set
  · show Aset.Regional _ (Function.update s.sets c st s.topMemoryContext)
    rw [htopset]
    exact h.away
  · show Aset.Fresh (Function.update s.sets c st a)
    by_cases hac : a = c
    · rw [hac, Function.update_self]
      exact hfresh
    · rw [Function.update_of_ne hac]
      exact h.fresh a ha hat

/-- The reset method of TopMemoryContext: no node is left. -/
theorem resetTopMethod (h : Sound s F) :
    ∃ st, s.resetMethod s.topMemoryContext =
        .ok { s.setSet s.topMemoryContext st with live := [] } ∧
      Aset.Sound ⟨st, []⟩ ∧ Aset.Regional (fun r => r.Apart (topRegion s.topMemoryContext)) st := by
  obtain ⟨L, hshape, -⟩ := id h.set
  obtain ⟨st, hreset, -⟩ := Aset.allocSetReset_spec hshape
  refine ⟨st, ?_, h.set.step (.reset (A := bumpAllocator) hreset),
    Aset.allocSetReset_regions h.away hreset⟩
  rw [State.resetMethod, hreset, if_pos rfl]
  rfl

/-- TopMemoryContext may be reset when it is the only context. -/
theorem resetTop (h : Sound s F) (hnone : F.kidsOf s.topMemoryContext = .nil) :
    ∃ s', s.resetMethod s.topMemoryContext = .ok s' ∧ Sound s' F ∧ Untouched s s' := by
  obtain ⟨st, hrun, hset, haway⟩ := h.resetTopMethod
  have honly : ∀ a ∈ F.nodes, a = s.topMemoryContext := by
    have hroot := h.root
    cases F with
    | nil => cases hroot
    | cons b kids rest =>
      obtain ⟨rfl, hrest⟩ := List.cons.inj hroot
      cases rest with
      | cons d _ _ => cases hrest
      | nil =>
        rw [Forest.kidsOf, if_pos rfl] at hnone
        subst hnone
        exact fun a ha => List.mem_singleton.mp ha
  have hnew : Function.update s.sets s.topMemoryContext st s.topMemoryContext = st :=
    Function.update_self _ _ _
  refine ⟨_, hrun, ⟨⟨h.holds, h.root, h.nodup, h.contexts, fun a ha hat => ?_⟩, h.valid, ?_, ?_,
    fun a ha hat => ?_, h.below⟩, ⟨⟨rfl, rfl⟩, rfl⟩⟩
  · exact absurd (honly a ha) hat
  · show Aset.Sound ⟨Function.update s.sets s.topMemoryContext st s.topMemoryContext, []⟩
    rw [hnew]
    exact hset
  · show Aset.Regional _ (Function.update s.sets s.topMemoryContext st s.topMemoryContext)
    rw [hnew]
    exact haway
  · exact absurd (honly a ha) hat

/-- The walk over the children resets one after another and leaves the links it
follows alone. -/
theorem resetChildren (h : Sound s F) (hG : Holds 0 s.links p x G)
    (hsub : ∀ a ∈ G.nodes, a ∈ F.nodes ∧ a ≠ s.topMemoryContext) {k : Nat}
    (hk : 2 * G.nodes.length ≤ k) :
    ∃ s', memoryContextResetChildren k x s = .ok s' ∧ Sound s' F ∧ Untouched s s' := by
  induction G generalizing s p x k with
  | nil =>
    refine ⟨s, ?_, h, Untouched.refl s⟩
    unfold memoryContextResetChildren
    exact if_pos hG
  | cons a kids rest ihk ihr =>
    obtain ⟨rfl, hx0, -, hkids, hrest⟩ := hG
    simp only [Forest.nodes, List.length_cons, List.length_append] at hk
    obtain ⟨k, rfl⟩ : ∃ k', k = k' + 1 + 1 := ⟨k - 2, by omega⟩
    obtain ⟨hxF, hxtop⟩ := hsub x List.mem_cons_self
    have hsubk : ∀ b ∈ kids.nodes, b ∈ F.nodes ∧ b ≠ s.topMemoryContext := fun b hb =>
      hsub b (List.mem_cons_of_mem _ (List.mem_append_left _ hb))
    have hsubr : ∀ b ∈ rest.nodes, b ∈ F.nodes ∧ b ≠ s.topMemoryContext := fun b hb =>
      hsub b (List.mem_cons_of_mem _ (List.mem_append_right _ hb))
    obtain ⟨s₁, hrun₁, h₁, hsame₁⟩ := ihk h hkids hsubk (k := k) (by omega)
    obtain ⟨s₂, hrun₂, h₂, hsame₂⟩ := h₁.resetOther hxF (fun e => hxtop (e.trans hsame₁.top))
    have hsame := hsame₁.trans hsame₂
    rw [← hsame.links] at hrest
    obtain ⟨s₃, hrun₃, h₃, hsame₃⟩ := ihr h₂ hrest
      (fun b hb => ⟨(hsubr b hb).1, hsame.top ▸ (hsubr b hb).2⟩) (k := k + 1) (by omega)
    refine ⟨s₃, ?_, h₃, hsame.trans hsame₃⟩
    unfold memoryContextResetChildren
    rw [if_neg hx0]
    dsimp only
    unfold memoryContextReset
    rw [if_pos (h.isValid hxF), hrun₁]
    show (s₁.resetMethod x >>= fun s => memoryContextResetChildren (k + 1) (s.links.next x) s) = _
    rw [hrun₂]
    exact hrun₃

/-- The children are reset before the context itself. -/
theorem reset_eq (h : Sound s F) (hc : c ∈ F.nodes) :
    ∃ s₁, memoryContextReset FUEL c s = s₁.resetMethod c ∧ Sound s₁ F ∧ Untouched s s₁ := by
  have hlen := Nat.le_trans (Forest.kidsOf_length_le c F) h.length_le
  obtain ⟨s₁, hrun₁, h₁, hsame₁⟩ := h.resetChildren (h.holds.kids hc)
    (fun a ha => ⟨Forest.kidsOf_subset c F ha, h.below_ne_top ha⟩) (k := 2 ^ 66 - 1) (by omega)
  refine ⟨s₁, ?_, h₁, hsame₁⟩
  have hfuel : FUEL = 2 ^ 66 - 1 + 1 := rfl
  rw [hfuel]
  unfold memoryContextReset
  rw [if_pos (h.isValid hc), hrun₁]
  rfl

/-- `memory_context_reset` of any context with no node to lose. -/
theorem reset (h : Sound s F) (hc : c ∈ F.nodes)
    (hnone : c = s.topMemoryContext → s.links.first c = 0) :
    ∃ s', memoryContextReset FUEL c s = .ok s' ∧ Sound s' F ∧ Untouched s s' := by
  obtain ⟨s₁, hrun₁, h₁, hsame₁⟩ := h.reset_eq hc
  have hmethod : ∃ s', s₁.resetMethod c = .ok s' ∧ Sound s' F ∧ Untouched s₁ s' := by
    by_cases htop : c = s.topMemoryContext
    · have hkids := h.holds.kids hc
      have hempty : F.kidsOf c = .nil := by
        cases hG : F.kidsOf c with
        | nil => rfl
        | cons a ks rest =>
          rw [hG] at hkids
          exact absurd (hkids.1.symm.trans (hnone htop)) hkids.2.1
      rw [htop, ← hsame₁.top] at hempty ⊢
      exact h₁.resetTop hempty
    · exact h₁.resetOther hc fun e => htop (e.trans hsame₁.top)
  obtain ⟨s₂, hrun₂, h₂, hsame₂⟩ := hmethod
  exact ⟨s₂, hrun₁.trans hrun₂, h₂, hsame₁.trans hsame₂⟩

/-- `memory_context_reset` of TopMemoryContext keeps the links and loses the nodes. -/
theorem reset_top (h : Sound s F) : ∃ s', memoryContextReset FUEL s.topMemoryContext s = .ok s' ∧
    s'.live = [] ∧ Untouched s s' := by
  obtain ⟨s₁, hrun₁, h₁, hsame₁⟩ := h.reset_eq h.top_mem
  obtain ⟨st, hrun₂, -⟩ := h₁.resetTopMethod
  rw [hsame₁.top] at hrun₂
  exact ⟨_, hrun₁.trans hrun₂, rfl, hsame₁.trans ⟨⟨rfl, rfl⟩, rfl⟩⟩

end Sound

/-- A tree none of whose nodes is live has one context at most. -/
theorem Tree.first_of_none (h : Tree s F) (hlive : s.live = []) :
    s.links.first s.topMemoryContext = 0 := by
  obtain ⟨hholds, hroot, hnodup, -, hnodes⟩ := h
  cases F with
  | nil => cases hroot
  | cons a kids rest =>
    obtain ⟨rfl, -, -, hkids, -⟩ := hholds
    cases kids with
    | nil => exact hkids
    | cons b ks rest' =>
      have hmem : b ∈ (Forest.cons s.topMemoryContext (.cons b ks rest') rest).nodes :=
        List.mem_cons_of_mem _ List.mem_cons_self
      have hne : b ≠ s.topMemoryContext := by
        rintro rfl
        exact (Forest.nodup_cons hnodup).1 List.mem_cons_self
      have hb := hnodes b hmem hne
      rw [hlive] at hb
      exact absurd hb List.not_mem_nil

end PostgresV7.Mctx
