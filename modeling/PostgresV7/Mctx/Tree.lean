import PostgresV7.Aset.Frame
import PostgresV7.Mctx.Mctx

/-!
# The tree of memory contexts

The links form a forest with TopMemoryContext as its only root, and the node of
every other context is a chunk its creator holds of TopMemoryContext.
-/

namespace PostgresV7.Mctx

open Regions Forests Outcomes

/-- The contexts are the tree `F`, and their nodes are live in TopMemoryContext. -/
structure Tree (s : State) (F : Forest Nat) : Prop where
  holds : Holds 0 s.links 0 s.topMemoryContext F
  root : F.roots = [s.topMemoryContext]
  nodup : F.nodes.Nodup
  contexts : ∀ c, c ∈ s.contexts ↔ c ∈ F.nodes
  live : ∀ c ∈ F.nodes, c ≠ s.topMemoryContext → c ∈ s.live.map Prod.fst

/-- The sets behind the tree: TopMemoryContext's is sound, away from the node it lives
in, and the others have their keeper at most. -/
structure Sound (s : State) (F : Forest Nat) : Prop extends Tree s F where
  valid : ∀ c ∈ F.nodes, s.valid c = true
  set : Aset.Sound ⟨s.sets s.topMemoryContext, s.live⟩
  away : Aset.Regional (fun r => r.Apart (topRegion s.topMemoryContext))
    (s.sets s.topMemoryContext)
  fresh : ∀ c ∈ F.nodes, c ≠ s.topMemoryContext → Aset.Fresh (s.sets c)
  below : s.topMemoryContext < 2 ^ 63

variable {A : Allocator} {s s' : State} {F : Forest Nat} {c q : Nat}

/-! ## Nodes in memory -/

/-- A live pointer is inside a region of the heap. -/
theorem live_region {sys : Aset.System} (h : Aset.Sound sys) {p : Nat}
    (hp : p ∈ sys.live.map Prod.fst) : 0 < p ∧ 16 ∣ p ∧ p < 2 ^ 63 ∧
      ∃ r ∈ sys.st.mem.heap.regions, r.Holds p := by
  obtain ⟨L, hshape, hback⟩ := h
  obtain ⟨c, rfl, hused⟩ := hback.chunk hp
  obtain ⟨b, hb, hm⟩ := hused.1
  have hblock := hshape.block b hb
  obtain ⟨h1, h2, h3⟩ := hshape.chunk_in hb hm
  have hsize : 0 < sys.st.mem.size c := by
    rcases hshape.chunk_kind hused.1 with hbig | hsmall
    · omega
    · exact Nat.lt_of_lt_of_le (by decide) hsmall.le.1
  have hbelow := hblock.below
  unfold Aset.ALLOC_CHUNK_HDR_SZ
  refine ⟨by omega, Nat.dvd_add (hblock.chunk_dvd hm) (by decide), by omega, _, hblock.region, ?_⟩
  unfold Region.Holds Aset.blockRegion
  dsimp only
  omega

namespace Sound

theorem top_mem (h : Sound s F) : s.topMemoryContext ∈ F.nodes := by
  refine F.roots_subset ?_
  rw [h.root]
  exact List.mem_cons_self

theorem ne_zero (h : Sound s F) (hc : c ∈ F.nodes) : c ≠ 0 := h.holds.ne_nil hc

theorem isValid (h : Sound s F) (hc : c ∈ F.nodes) : s.isValid c = true := by
  simp [State.isValid, h.ne_zero hc, h.valid c hc]

/-- TopMemoryContext's node is no chunk of its own set. -/
theorem live_ne_top {sys : Aset.System} (hset : Aset.Sound sys)
    (haway : Aset.Regional (fun r => r.Apart (topRegion s.topMemoryContext)) sys.st)
    {p : Nat} (hp : p ∈ sys.live.map Prod.fst) : p ≠ s.topMemoryContext := by
  obtain ⟨-, -, -, r, hr, hin⟩ := live_region hset hp
  refine (haway r hr).ne hin ?_
  unfold topRegion Region.Holds
  dsimp only
  omega

/-- There are no more contexts than addresses. -/
theorem length_le (h : Sound s F) : F.nodes.length ≤ 2 ^ 63 := by
  rw [← List.toFinset_card_of_nodup h.nodup]
  have hsub : F.nodes.toFinset ⊆ Finset.range (2 ^ 63) := by
    intro c hc
    have hc := List.mem_toFinset.mp hc
    rw [Finset.mem_range]
    by_cases htop : c = s.topMemoryContext
    · rw [htop]
      exact h.below
    · exact (live_region h.set (h.live c hc htop)).2.2.1
  calc F.nodes.toFinset.card ≤ (Finset.range (2 ^ 63)).card := Finset.card_le_card hsub
    _ = 2 ^ 63 := Finset.card_range _

/-- Every context but TopMemoryContext is a child of its parent. -/
theorem parent (h : Sound s F) (hc : c ∈ F.nodes) (htop : c ≠ s.topMemoryContext) :
    s.links.parent c ∈ F.nodes ∧ c ∈ (F.kidsOf (s.links.parent c)).roots := by
  refine (h.holds.parent h.nodup hc).resolve_left fun ⟨hroot, _⟩ => htop ?_
  rw [h.root] at hroot
  exact List.mem_singleton.mp hroot

end Sound

/-! ## Unlinking -/

/-- The loop finds the sibling before `c` and takes `c` out behind it. -/
theorem unlinkLoop_spec {K : Links Nat} {p x k : Nat} {G : Forest Nat} (h : Holds 0 K p x G)
    (hnd : G.nodes.Nodup) (hc : c ∈ G.roots) (hx : c ≠ x) (hk : G.roots.length ≤ k) :
    ∃ b ∈ G.nodes, unlinkLoop c k x K = .ok (K.setNext b (K.next c)) ∧
      Holds 0 (K.setNext b (K.next c)) p x (G.remove c) := by
  induction G generalizing x k with
  | nil => exact absurd hc List.not_mem_nil
  | cons a kids rest _ ih =>
    obtain ⟨rfl, hx0, hp, hkids, hrest⟩ := h
    obtain ⟨hak, har, -, hndr, hd⟩ := Forest.nodup_cons hnd
    have hcr : c ∈ rest.roots := (List.mem_cons.mp hc).resolve_left hx
    have hcrest := rest.roots_subset hcr
    have hck : c ∉ kids.nodes := fun hm => hd c hm hcrest
    rw [Forest.remove, if_neg (fun e => hx e.symm), Forest.remove_of_not_mem hck]
    unfold unlinkLoop
    rw [if_neg hx0]
    by_cases hnext : c = K.next x
    · refine ⟨x, List.mem_cons_self, if_pos hnext, rfl, hx0, hp, ?_, ?_⟩
      · refine hkids.move fun b hb => ⟨rfl, rfl, ?_⟩
        exact Function.update_of_ne (fun e => hak (by rw [← e]; exact hb)) _ _
      · rw [← hnext] at hrest
        have hnew : (K.setNext x (K.next c)).next x = K.next c := Function.update_self _ _ _
        rw [hnew]
        cases rest with
        | nil => exact absurd hcr List.not_mem_nil
        | cons c' ks rest' =>
          obtain ⟨rfl, -, -, -, hrest'⟩ := hrest
          rw [Forest.remove, if_pos rfl]
          refine hrest'.move fun b hb => ⟨rfl, rfl, Function.update_of_ne ?_ _ _⟩
          rintro rfl
          exact har (List.mem_cons_of_mem _ (List.mem_append_right _ hb))
    · rw [if_neg hnext]
      cases k with
      | zero => exact absurd hk (Nat.not_succ_le_zero _)
      | succ k =>
        obtain ⟨b, hb, hloop, hholds⟩ := ih hrest hndr hcr hnext (Nat.le_of_succ_le_succ hk)
        have hbx : x ≠ b := fun e => har (e ▸ hb)
        refine ⟨b, List.mem_cons_of_mem _ (List.mem_append_right _ hb), hloop, rfl, hx0, hp, ?_, ?_⟩
        · refine hkids.move fun b' hb' => ⟨rfl, rfl, Function.update_of_ne ?_ _ _⟩
          rintro rfl
          exact hd b' hb' hb
        · have hsame : (K.setNext b (K.next c)).next x = K.next x := Function.update_of_ne hbx _ _
          rw [hsame]
          exact hholds

/-- A context with its children gone leaves its siblings in order. -/
theorem Sound.unlink (h : Sound s F) (hc : c ∈ F.nodes) (htop : c ≠ s.topMemoryContext) :
    ∃ K, unlink c s.links = .ok K ∧ Holds 0 K 0 s.topMemoryContext (F.remove c) := by
  obtain ⟨hq, hroot⟩ := h.parent hc htop
  have hq0 := h.ne_zero hq
  have hG := h.holds.kids hq
  have hnd := Forest.kidsOf_nodup (q := s.links.parent c) h.nodup
  have hqG := Forest.not_mem_kidsOf (q := s.links.parent c) h.nodup
  rw [Forest.remove_eq_setKids h.nodup hroot]
  have hlift : ∀ K' : Links Nat,
      Holds 0 K' (s.links.parent c) (K'.first (s.links.parent c))
        ((F.kidsOf (s.links.parent c)).remove c) →
      (∀ a ∈ F.nodes, a ∉ (F.kidsOf (s.links.parent c)).nodes → K'.parent a = s.links.parent a ∧
        (a ≠ s.links.parent c → K'.first a = s.links.first a) ∧ K'.next a = s.links.next a) →
      Holds 0 K' 0 s.topMemoryContext
        (F.setKids (s.links.parent c) ((F.kidsOf (s.links.parent c)).remove c)) :=
    fun K' hK hsame => h.holds.setKids h.nodup hK hsame
  have hlen : (F.kidsOf (s.links.parent c)).roots.length ≤ FUEL :=
    ((Forest.roots_length_le _).trans (Forest.kidsOf_length_le _ F)).trans
      (h.length_le.trans (Nat.pow_le_pow_right (by decide) (by decide)))
  generalize F.kidsOf (s.links.parent c) = G at hG hroot hnd hqG hlift hlen ⊢
  rw [Mctx.unlink, if_pos hq0]
  by_cases hfirst : c = s.links.first (s.links.parent c)
  · rw [if_pos hfirst]
    refine ⟨_, rfl, hlift _ ?_ ?_⟩
    · have hnew : (s.links.setFirst (s.links.parent c) (s.links.next c)).first (s.links.parent c) =
          s.links.next c := Function.update_self _ _ _
      rw [hnew]
      cases G with
      | nil => exact absurd hroot List.not_mem_nil
      | cons c' ks rest =>
        rw [← hfirst] at hG
        obtain ⟨rfl, -, -, -, hrest⟩ := hG
        rw [Forest.remove, if_pos rfl]
        refine hrest.move fun b hb => ⟨rfl, Function.update_of_ne ?_ _ _, rfl⟩
        rintro rfl
        exact hqG (List.mem_cons_of_mem _ (List.mem_append_right _ hb))
    · exact fun a _ _ => ⟨rfl, fun ha => Function.update_of_ne ha _ _, rfl⟩
  · rw [if_neg hfirst]
    obtain ⟨b, hb, hloop, hholds⟩ := unlinkLoop_spec hG hnd hroot hfirst hlen
    refine ⟨_, hloop, hlift _ hholds fun a _ haG => ⟨rfl, fun _ => rfl, ?_⟩⟩
    exact Function.update_of_ne (fun e => haG (by rw [e]; exact hb)) _ _

end PostgresV7.Mctx
