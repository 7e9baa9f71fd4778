import PostgresV7.Mctx.Create

/-!
# Runs of the memory context manager

What the calls do to the tree depends on the tree alone. A run keeps to it as long
as TopMemoryContext, where the nodes are, is not reset below its children.
-/

namespace PostgresV7.Mctx

open Regions Forests Outcomes Runs

variable {A : Allocator} {s s' : State} {F : Forest Nat} {c : Nat}

/-- The tree after a call. -/
def Event.apply (F : Forest Nat) : Event → Forest Nat
  | .init top error => .cons top (.cons error .nil .nil) .nil
  | .create parent _ _ _ _ node => F.insert parent node
  | .switchTo _ => F
  | .reset _ => F
  | .resetAndDeleteChildren context => F.clear context
  | .delete context => F.remove context

/-- The tree after a list of calls. -/
def treeAfter (l : List Event) : Forest Nat := l.foldl Event.apply .nil

/-- A reset of TopMemoryContext finds no children there. -/
def Harmless (s : State) (ev : Event) : Prop :=
  ev = .reset s.topMemoryContext → s.links.first s.topMemoryContext = 0

/-- A call that returns and does not reset TopMemoryContext below its children. -/
def HarmlessStep (A : Allocator) (s : State) (ev : Event) (s' : State) : Prop :=
  Step A s ev s' ∧ Harmless s ev

/-! ## The first call -/

/-- TopMemoryContext alone. -/
theorem topMemoryContext_sound {top : Nat}
    (hrun : allocSetContextCreate A bareState 0 16 (8 * 1024) (8 * 1024) (8 * 1024) =
      .ok (top, s)) :
    Sound { s with topMemoryContext := top, currentMemoryContext := top }
      (.cons top .nil .nil) := by
  unfold allocSetContextCreate memoryContextCreate at hrun
  cases hq : A.answer 0 [] (SIZEOF_ALLOC_SET_CONTEXT + 16 + 1) with
  | none =>
    have hnode : allocNode A bareState (SIZEOF_ALLOC_SET_CONTEXT + 16 + 1) = .error .assertion := by
      simp [allocNode, bareState, hq]
    rw [hnode] at hrun
    cases hrun
  | some node =>
    have hnode : allocNode A bareState (SIZEOF_ALLOC_SET_CONTEXT + 16 + 1) =
        .ok (node, bareState) := by
      simp [allocNode, bareState, hq]
    rw [hnode] at hrun
    dsimp only [bind, Except.bind] at hrun
    have hfirst : bareState.topMemoryContext = 0 := rfl
    rw [if_pos hfirst] at hrun
    cases hcreate : Aset.allocSetContextCreate (A.reserve (topRegion node)) Aset.bareMemory node
        (8 * 1024) (8 * 1024) (8 * 1024) with
    | error e =>
      rw [hcreate] at hrun
      cases hrun
    | ok st =>
      rw [hcreate] at hrun
      obtain ⟨rfl, rfl⟩ := Prod.mk.inj (Except.ok.inj hrun)
      have hpos := A.pos hq
      have hbelow := A.inside hq
      have hmem : ∀ {x}, x ∈ (Forest.cons node .nil .nil).nodes ↔ x = node := List.mem_singleton
      have hzero : ∀ g : Nat → Nat, Function.update g node 0 node = 0 := fun g =>
        Function.update_self _ _ _
      have hsets : Function.update bareState.sets node st node = st := Function.update_self _ _ _
      refine ⟨⟨⟨rfl, Nat.pos_iff_ne_zero.mp hpos, hzero _, hzero _, hzero _⟩, rfl,
        List.nodup_singleton _, fun _ => Iff.rfl, fun x hx hxt => absurd (hmem.mp hx) hxt⟩,
        fun x hx => ?_, ?_, ?_, fun x hx hxt => absurd (hmem.mp hx) hxt, ?_⟩
      · rw [hmem.mp hx]
        exact Function.update_self _ _ _
      · show Aset.Sound ⟨Function.update bareState.sets node st node, []⟩
        rw [hsets]
        exact ⟨_, Aset.allocSetContextCreate_spec (by decide) hcreate, List.nodup_nil,
          fun x hx => absurd hx List.not_mem_nil⟩
      · show Aset.Regional _ (Function.update bareState.sets node st node)
        rw [hsets]
        exact Aset.allocSetContextCreate_regions (fun _ _ _ _ h => Allocator.reserve_apart h)
          (fun r hr => absurd hr List.not_mem_nil) hcreate
      · show node < 2 ^ 63
        omega

/-- `memory_context_init` leaves TopMemoryContext with ErrorContext below it. -/
theorem memoryContextInit_sound (hinit : memoryContextInit A bareState = .ok s) :
    Sound s (Event.apply F (.init s.topMemoryContext s.errorContext)) := by
  unfold memoryContextInit at hinit
  rw [if_neg (fun h => h rfl)] at hinit
  cases htop : allocSetContextCreate A bareState 0 16 (8 * 1024) (8 * 1024) (8 * 1024) with
  | error e =>
    rw [htop] at hinit
    cases hinit
  | ok r =>
    obtain ⟨top, s₁⟩ := r
    rw [htop] at hinit
    dsimp only [bind, Except.bind] at hinit
    have h₁ := topMemoryContext_sound htop
    generalize ({ s₁ with topMemoryContext := top, currentMemoryContext := top } : State) = s₂
      at h₁ hinit
    cases herr : allocSetContextCreate A s₂ top 12 (8 * 1024) (8 * 1024) (8 * 1024) with
    | error e =>
      rw [herr] at hinit
      cases hinit
    | ok r =>
      obtain ⟨error, s₃⟩ := r
      rw [herr] at hinit
      obtain rfl := Except.ok.inj hinit
      obtain ⟨h₂, -, hsame⟩ := h₁.create List.mem_cons_self herr
      have htop₃ : top = s₃.topMemoryContext := by
        have hroot := h₁.root
        rw [hsame.top]
        exact (List.cons.inj hroot).1
      have hforest : (Forest.cons top .nil .nil).insert top error =
          .cons s₃.topMemoryContext (.cons error .nil .nil) .nil := by
        rw [Forest.insert, Forest.setKids, if_pos rfl, Forest.kidsOf, if_pos rfl, htop₃]
      rw [hforest] at h₂
      exact ⟨⟨h₂.holds, h₂.root, h₂.nodup, h₂.contexts, h₂.live⟩, h₂.valid, h₂.set, h₂.away,
        h₂.fresh, h₂.below⟩

theorem initStep {top error : Nat} (hinit : memoryContextInit A bareState = .ok s)
    (htop : s.topMemoryContext = top) (herr : s.errorContext = error) :
    Step A bareState (.init top error) s := by
  rw [← htop, ← herr]
  exact .init hinit

/-! ## One call -/

theorem Sound.fuel (h : Sound s F) (c : Nat) : 2 * (F.kidsOf c).nodes.length + 1 ≤ FUEL := by
  have hlen := Nat.le_trans (Forest.kidsOf_length_le c F) h.length_le
  unfold FUEL
  omega

/-- The deletion of a context below TopMemoryContext. -/
theorem Sound.delete (h : Sound s F) (hc : c ∈ F.nodes) (htop : c ≠ s.topMemoryContext) :
    Ends (Refused s (c :: (F.kidsOf c).nodes)) (memoryContextDelete FUEL c s)
      fun s' => Sound s' (F.remove c) :=
  ((delete_spec FUEL).1 h hc htop (h.fuel c)).mono (fun _ he => he) fun _ hs => hs.1

/-- `memory_context_reset_and_delete_children` may be called on TopMemoryContext too:
the children are gone before the reset. -/
theorem Sound.resetAndDeleteChildren (h : Sound s F) (hc : c ∈ F.nodes) :
    Ends (Refused s (F.kidsOf c).nodes) (memoryContextResetAndDeleteChildren c s)
      fun s' => Sound s' (F.clear c) := by
  unfold memoryContextResetAndDeleteChildren
  rw [if_pos (h.isValid hc)]
  refine ((delete_spec FUEL).2 h hc (Nat.le_of_succ_le (h.fuel c))).bind fun s₁ ⟨h₁, hsame⟩ => ?_
  have hc₁ : c ∈ (F.clear c).nodes := Forest.mem_setKids .nil hc
  have hmethod : ∃ s₂, s₁.resetMethod c = .ok s₂ ∧ Sound s₂ (F.clear c) ∧ Untouched s₁ s₂ := by
    by_cases htop : c = s₁.topMemoryContext
    · have hnone := Forest.kidsOf_clear h.nodup hc
      rw [htop] at hnone h₁ ⊢
      exact h₁.resetTop hnone
    · exact h₁.resetOther hc₁ htop
  obtain ⟨s₂, hrun, h₂, -⟩ := hmethod
  rw [hrun]
  exact h₂

/-- A harmless call leads from a tree to the tree after the call. -/
theorem Sound.step {ev : Event} (h : Sound s F) (hs : HarmlessStep A s ev s') :
    Sound s' (ev.apply F) := by
  obtain ⟨hstep, hharm⟩ := hs
  cases hstep with
  | init hrun =>
    unfold memoryContextInit at hrun
    rw [if_pos (h.ne_zero h.top_mem)] at hrun
    cases hrun
  | create hp hrun => exact (h.create ((h.contexts _).mp hp) hrun).1
  | switchTo hc =>
    exact ⟨⟨h.holds, h.root, h.nodup, h.contexts, h.live⟩, h.valid, h.set, h.away, h.fresh, h.below⟩
  | reset hc hrun =>
    obtain ⟨s₁, hrun₁, h₁, -⟩ := h.reset ((h.contexts _).mp hc) fun e => by
      rw [e]
      exact hharm (by rw [e])
    obtain rfl := Except.ok.inj (hrun₁.symm.trans hrun)
    exact h₁
  | resetAndDeleteChildren hc hrun =>
    exact (h.resetAndDeleteChildren ((h.contexts _).mp hc)).of_ok hrun
  | delete hc hrun =>
    rename_i context
    by_cases htop : context = s.topMemoryContext
    · have hfuel : FUEL = 2 ^ 66 - 1 + 1 := rfl
      rw [hfuel] at hrun
      unfold memoryContextDelete at hrun
      rw [if_pos (.inr (.inl htop))] at hrun
      cases hrun
    · exact (h.delete ((h.contexts _).mp hc) htop).of_ok hrun

/-! ## Whole runs -/

/-- Before the first call, or in step with the tree. -/
def InStep (s : State) (F : Forest Nat) : Prop := s = bareState ∧ F = .nil ∨ Sound s F

theorem InStep.step {ev : Event} (h : InStep s F) (hs : HarmlessStep A s ev s') :
    Sound s' (ev.apply F) := by
  rcases h with ⟨rfl, rfl⟩ | h
  · obtain ⟨hstep, -⟩ := hs
    cases hstep with
    | init hrun => exact memoryContextInit_sound hrun
    | create hp _ => exact absurd hp List.not_mem_nil
    | switchTo hc => exact absurd hc List.not_mem_nil
    | reset hc _ => exact absurd hc List.not_mem_nil
    | resetAndDeleteChildren hc _ => exact absurd hc List.not_mem_nil
    | delete hc _ => exact absurd hc List.not_mem_nil
  · exact h.step hs

theorem run_sound {ev : Event} {l : List Event}
    (hrun : Run (HarmlessStep A) bareState (ev :: l) s) : Sound s (treeAfter (ev :: l)) := by
  have hstep : ∀ s F ev s', Sound s F → HarmlessStep A s ev s' → Sound s' (ev.apply F) :=
    fun _ _ _ _ h hs => h.step hs
  cases hrun with
  | cons hs hrest => exact hrest.foldl hstep (InStep.step (.inl ⟨rfl, rfl⟩) hs)

/-- A reset of TopMemoryContext leaves a tree behind just when there is nothing below. -/
theorem Sound.reset_top_iff (h : Sound s F) :
    (∃ s', memoryContextReset FUEL s.topMemoryContext s = .ok s' ∧ ∃ F', Tree s' F') ↔
      s.links.first s.topMemoryContext = 0 := by
  constructor
  · rintro ⟨s', hrun, F', htree⟩
    obtain ⟨s'', hrun', hlive, hsame⟩ := h.reset_top
    obtain rfl := Except.ok.inj (hrun'.symm.trans hrun)
    have hfirst := htree.first_of_none hlive
    rw [hsame.links, hsame.top] at hfirst
    exact hfirst
  · intro hfirst
    obtain ⟨s', hrun, hs', -⟩ := h.reset h.top_mem fun _ => hfirst
    exact ⟨s', hrun, F, hs'.toTree⟩

/-- In every state that calls lead to, as long as TopMemoryContext is not reset below
its children: the contexts are a tree, the one the calls say, whose nodes are live in
TopMemoryContext; a reset changes no link, and one of TopMemoryContext leaves a tree
only if there are no children; and a deletion takes out a subtree and leaves the
others in order, unless it comes to the current context. -/
theorem memory_context_run_tree {ev : Event} {l : List Event}
    (hrun : Run (HarmlessStep A) bareState (ev :: l) s) :
    Tree s (treeAfter (ev :: l)) ∧
    (∀ c ∈ s.contexts, Harmless s (.reset c) → ∃ s', memoryContextReset FUEL c s = .ok s' ∧
      s'.links = s.links ∧ Tree s' (treeAfter (ev :: l))) ∧
    ((∃ s', memoryContextReset FUEL s.topMemoryContext s = .ok s' ∧ ∃ F, Tree s' F) ↔
      Harmless s (.reset s.topMemoryContext)) ∧
    ∀ c ∈ s.contexts, c ≠ s.topMemoryContext →
      Ends (Refused s (c :: ((treeAfter (ev :: l)).kidsOf c).nodes)) (memoryContextDelete FUEL c s)
        fun s' => Tree s' ((treeAfter (ev :: l)).remove c) ∧
          (((treeAfter (ev :: l)).remove c).nodes ++ c :: ((treeAfter (ev :: l)).kidsOf c).nodes).Perm
            (treeAfter (ev :: l)).nodes ∧
          ((treeAfter (ev :: l)).remove c).nodes.Sublist (treeAfter (ev :: l)).nodes := by
  have hsound := run_sound hrun
  generalize treeAfter (ev :: l) = F at hsound ⊢
  refine ⟨hsound.toTree, fun c hc hharm => ?_, ?_, fun c hc htop => ?_⟩
  · obtain ⟨s', hreset, hs', hsame⟩ := hsound.reset ((hsound.contexts c).mp hc) fun e => by
      rw [e]
      exact hharm (by rw [e])
    exact ⟨s', hreset, hsame.links, hs'.toTree⟩
  · exact hsound.reset_top_iff.trans ⟨fun h _ => h, fun h => h rfl⟩
  · have hcF := (hsound.contexts c).mp hc
    exact (hsound.delete hcF htop).mono (fun _ he => he) fun s' hs' =>
      ⟨hs'.toTree, Forest.remove_perm hsound.nodup hcF, Forest.remove_sublist c F⟩

/-- What `memory_context_init` leaves behind in an empty memory. -/
theorem init_bump : ∃ s, memoryContextInit bumpAllocator bareState = .ok s ∧
    s.topMemoryContext = 16 ∧ s.currentMemoryContext = 16 ∧ s.errorContext = 272 ∧
    s.links.first 16 = 272 ∧ s.contexts = [272, 16] := by
  refine ⟨_, rfl, ?_, ?_, ?_, ?_, ?_⟩
  all_goals decide

/-- ErrorContext is reset, and may then be deleted. -/
theorem memory_context_run_tree_example : ∃ s,
    Run (HarmlessStep bumpAllocator) bareState [.init 16 272, .reset 272] s ∧
    Tree s (.cons 16 (.cons 272 .nil .nil) .nil) ∧
    ∃ s', memoryContextDelete FUEL 272 s = .ok s' ∧ Tree s' (.cons 16 .nil .nil) := by
  obtain ⟨s₁, hinit, htop, hcur, herr, -, hmem⟩ := init_bump
  have hsound := memoryContextInit_sound (F := .nil) hinit
  have herrF : 272 ∈ s₁.contexts := by
    rw [hmem]
    decide
  obtain ⟨s, hrun, hs, hsame⟩ := hsound.reset ((hsound.contexts 272).mp herrF) fun h => by
    rw [htop] at h
    cases h
  have hrun : Run (HarmlessStep bumpAllocator) bareState [.init 16 272, .reset 272] s := by
    refine .cons ⟨initStep hinit htop herr, fun h => nomatch h⟩
      (.cons ⟨.reset herrF hrun, fun h => ?_⟩ (.nil _))
    rw [htop] at h
    cases h
  obtain ⟨htree, -, -, hdelete⟩ := memory_context_run_tree hrun
  have hdelete := hdelete 272 ((htree.contexts 272).mpr (by decide))
    (by rw [hsame.top, htop]; decide)
  refine ⟨s, hrun, htree, ?_⟩
  rcases hx : memoryContextDelete FUEL 272 s with e | s'
  · have hcurrent := (hdelete.of_error hx).2
    rw [hsame.current, hcur] at hcurrent
    exact absurd hcurrent (by decide)
  · exact ⟨s', rfl, (hdelete.of_ok hx).1⟩

/-- A reset of TopMemoryContext gives back the node of ErrorContext, which stays its
child. -/
theorem memory_context_reset_top : ∃ s s',
    Run (Step bumpAllocator) bareState [.init 16 272] s ∧
    Step bumpAllocator s (.reset 16) s' ∧ s'.topMemoryContext = 16 ∧
    s'.links.first 16 = 272 ∧ s'.live = [] ∧ ¬∃ F, Tree s' F := by
  obtain ⟨s, hinit, htop, -, herr, hfirst, hmem⟩ := init_bump
  have hsound := memoryContextInit_sound (F := .nil) hinit
  obtain ⟨s', hrun, hlive, hsame⟩ := hsound.reset_top
  rw [htop] at hrun
  refine ⟨s, s', .cons (initStep hinit htop herr) (.nil s), .reset (hmem ▸ by decide) hrun, hsame.top.trans htop, ?_, hlive, ?_⟩
  · rw [hsame.links, hfirst]
  · rintro ⟨F, hF⟩
    have hzero := hF.first_of_none hlive
    rw [hsame.top, htop, hsame.links, hfirst] at hzero
    cases hzero

end PostgresV7.Mctx
