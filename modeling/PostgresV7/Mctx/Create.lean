import PostgresV7.Mctx.Reset

/-!
# Creating contexts

A new node is a chunk of TopMemoryContext no other context lives in, so it can be
linked in as the first child of any context there is.
-/

namespace PostgresV7.Mctx

open Regions Forests Outcomes

variable {A : Allocator} {s s' : State} {F : Forest Nat} {node parent needed : Nat}

/-- A node that is not in the tree becomes the first child of its parent. -/
theorem linkNode_holds {K : Links Nat} {top : Nat} (h : Holds 0 K 0 top F) (hnd : F.nodes.Nodup)
    (hp : parent ∈ F.nodes) (hnew : node ∉ F.nodes) (hpos : node ≠ 0) :
    Holds 0 (linkNode K parent node) 0 top (F.insert parent node) := by
  have hp0 := h.ne_nil hp
  have hpn : parent ≠ node := fun e => hnew (e ▸ hp)
  have hfirst : (linkNode K parent node).first =
      Function.update (Function.update K.first node 0) parent node := by
    rw [linkNode, if_pos hp0]
    rfl
  have hparent : (linkNode K parent node).parent =
      Function.update (Function.update K.parent node 0) node parent := by
    rw [linkNode, if_pos hp0]
    rfl
  have hnext : (linkNode K parent node).next = Function.update (Function.update K.next node 0) node
      (Function.update K.first node 0 parent) := by
    rw [linkNode, if_pos hp0]
    rfl
  have hother : ∀ a ∈ F.nodes, (linkNode K parent node).parent a = K.parent a ∧
      (a ≠ parent → (linkNode K parent node).first a = K.first a) ∧
      (linkNode K parent node).next a = K.next a := by
    intro a ha
    have han : a ≠ node := fun e => hnew (e ▸ ha)
    rw [hparent, hfirst, hnext, Function.update_of_ne han, Function.update_of_ne han,
      Function.update_of_ne han, Function.update_of_ne han]
    exact ⟨rfl, fun hap => by rw [Function.update_of_ne hap, Function.update_of_ne han], rfl⟩
  refine h.setKids hnd ⟨?_, hpos, ?_, ?_, ?_⟩ fun a ha _ => hother a ha
  · rw [hfirst, Function.update_self]
  · rw [hparent, Function.update_self]
  · show (linkNode K parent node).first node = 0
    rw [hfirst, Function.update_of_ne hpn.symm, Function.update_self]
  · rw [hnext, Function.update_self, Function.update_of_ne hpn]
    refine (h.kids hp).move fun a ha => ?_
    have haF := Forest.kidsOf_subset parent F ha
    obtain ⟨h1, h2, h3⟩ := hother a haF
    exact ⟨h1, h2 fun e => Forest.not_mem_kidsOf hnd (e ▸ ha), h3⟩

namespace Sound

/-- Space for a node comes from TopMemoryContext, as for any other request. -/
theorem allocNode_ok (h : Sound s F) (hrun : allocNode A s needed = .ok (node, s')) :
    ∃ st, Aset.Step (A.reserve (topRegion s.topMemoryContext))
        ⟨s.sets s.topMemoryContext, s.live⟩ (.alloc needed node) ⟨st, (node, needed) :: s.live⟩ ∧
      Aset.Regional (fun r => r.Apart (topRegion s.topMemoryContext)) st ∧
      s' = { s.setSet s.topMemoryContext st with live := (node, needed) :: s.live } := by
  unfold allocNode at hrun
  dsimp only at hrun
  rw [if_pos (h.ne_zero h.top_mem), if_neg (fun hv => hv (h.isValid h.top_mem))] at hrun
  by_cases hv : 0 < needed ∧ needed ≤ Aset.MAX_ALLOC_SIZE
  · rw [if_pos hv] at hrun
    cases halloc : Aset.allocSetAlloc (A.reserve (topRegion s.topMemoryContext))
        (s.sets s.topMemoryContext) needed with
    | error e =>
      rw [halloc] at hrun
      cases hrun
    | ok r =>
      obtain ⟨p, st⟩ := r
      rw [halloc] at hrun
      obtain ⟨rfl, rfl⟩ := Prod.mk.inj (Except.ok.inj hrun)
      exact ⟨st, .alloc hv halloc, Aset.allocSetAlloc_regions
        (fun _ _ _ _ hq => Allocator.reserve_apart hq) h.away halloc, rfl⟩
  · rw [if_neg hv] at hrun
    cases hrun

/-- Creation adds the node to the tree, and nothing else changes in it. -/
theorem create (h : Sound s F) (hp : parent ∈ F.nodes)
    {nameLen minContextSize initBlockSize maxBlockSize : Nat}
    (hrun : allocSetContextCreate A s parent nameLen minContextSize initBlockSize maxBlockSize =
      .ok (node, s')) :
    Sound s' (F.insert parent node) ∧ node ∉ F.nodes ∧ Remains s s' := by
  have htop0 := h.ne_zero h.top_mem
  unfold allocSetContextCreate memoryContextCreate at hrun
  cases hnode : allocNode A s (SIZEOF_ALLOC_SET_CONTEXT + nameLen + 1) with
  | error e =>
    rw [hnode] at hrun
    cases hrun
  | ok r =>
    obtain ⟨p, s₁⟩ := r
    rw [hnode] at hrun
    obtain ⟨st, hstep, haway, rfl⟩ := h.allocNode_ok hnode
    dsimp only [bind, Except.bind] at hrun
    rw [if_neg htop0] at hrun
    cases hcreate : Aset.allocSetContextCreate A Aset.bareMemory p minContextSize initBlockSize
        maxBlockSize with
    | error e =>
      rw [hcreate] at hrun
      cases hrun
    | ok stnew =>
      rw [hcreate] at hrun
      obtain ⟨rfl, rfl⟩ := Prod.mk.inj (Except.ok.inj hrun)
      have hset := h.set.step hstep
      have hlive : p ∈ ((p, SIZEOF_ALLOC_SET_CONTEXT + nameLen + 1) :: s.live).map Prod.fst :=
        List.mem_cons_self
      have hpos := (live_region hset hlive).1
      have hptop : p ≠ s.topMemoryContext := live_ne_top hset haway hlive
      have hnew : p ∉ F.nodes := by
        intro hm
        obtain ⟨L, -, hback⟩ := hset
        exact (List.nodup_cons.mp hback.nodup).1 (h.live p hm hptop)
      have hperm := Forest.insert_perm (n := p) h.nodup hp
      have hmem : ∀ x, x ∈ (F.insert parent p).nodes ↔ x = p ∨ x ∈ F.nodes := fun x =>
        hperm.mem_iff.trans List.mem_cons
      have hsame : Function.update (Function.update s.sets s.topMemoryContext st) p stnew
          s.topMemoryContext = st := by
        rw [Function.update_of_ne hptop.symm, Function.update_self]
      refine ⟨⟨⟨linkNode_holds h.holds h.nodup hp hnew (Nat.pos_iff_ne_zero.mp hpos), ?_,
        hperm.nodup_iff.mpr (List.nodup_cons.mpr ⟨hnew, h.nodup⟩), fun x => ?_,
        fun x hx hxt => ?_⟩, fun x hx => ?_, ?_, ?_, fun x hx hxt => ?_, h.below⟩, hnew, rfl, rfl⟩
      · exact (Forest.roots_setKids F parent _).trans h.root
      · rw [hmem, ← h.contexts x]
        exact List.mem_cons
      · rcases (hmem x).mp hx with rfl | hx
        · exact hlive
        · exact List.mem_cons_of_mem _ (h.live x hx hxt)
      · show Function.update s.valid p true x = true
        by_cases hxp : x = p
        · rw [hxp, Function.update_self]
        · rw [Function.update_of_ne hxp]
          exact h.valid x (((hmem x).mp hx).resolve_left hxp)
      · show Aset.Sound ⟨Function.update (Function.update s.sets s.topMemoryContext st) p stnew
          s.topMemoryContext, _⟩
        rw [hsame]
        exact hset
      · show Aset.Regional _ (Function.update (Function.update s.sets s.topMemoryContext st) p stnew
          s.topMemoryContext)
        rw [hsame]
        exact haway
      · show Aset.Fresh (Function.update (Function.update s.sets s.topMemoryContext st) p stnew x)
        by_cases hxp : x = p
        · rw [hxp, Function.update_self]
          exact Aset.allocSetContextCreate_fresh hcreate
        · have hxtop : x ≠ s.topMemoryContext := hxt
          rw [Function.update_of_ne hxp, Function.update_of_ne hxtop]
          exact h.fresh x (((hmem x).mp hx).resolve_left hxp) hxt

end Sound

end PostgresV7.Mctx
