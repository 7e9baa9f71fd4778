import PostgresV7.Mctx.Apart

/-!
# Whose chunk it is

The header of every chunk in use names its context, whatever is called in whichever order.
The size in the header is what `memory_context_contains` may stumble over.
-/

namespace PostgresV7.Mctx.Debug

open Regions Outcomes Runs
open Aset (Layout Stored New blockRegion ALLOC_CHUNK_HDR_SZ ALLOC_CHUNK_LIMIT MAX_ALLOC_SIZE)
open Aset.Debug (Image Libc Untouched Elsewhere Requested bumpLibc bareImage)

variable {M : Libc} {s s' : Contexts} {Ls : Nat → Layout} {L' : Layout} {i : Image} {a : Nat} {x : Live}
  {gone : List Nat}

/-! ## The calls -/

/-- Between two events. -/
def Ordered (s : Contexts) : Prop := ∃ Ls, Consistent s Ls

theorem ends_callAset {α : Type} {allowed : Aset.Fault × Image → Prop} {P : α → Prop}
    {x : Aset.Debug.Result α} {ok : Contexts → Prop} (h : Ends allowed x P)
    (herr : ∀ e i, allowed (e, i) → ok (s.put a i)) : Ends (fun e => ok e.2) (callAset s a x) P := by
  cases x with
  | ok v => exact h
  | error e => exact herr e.1 e.2 h

theorem mem_of_isValid (h : s.isValid a = true) : a ∈ s.contexts := by
  unfold Contexts.isValid at h
  simp only [Bool.and_eq_true, List.contains_iff_mem] at h
  exact h.2

theorem valid_iff {size : Nat} : allocSizeIsValid size = true ↔ Aset.Valid size := by
  unfold allocSizeIsValid Aset.Valid
  simp only [Bool.and_eq_true, decide_eq_true_eq]
  omega

/-- What was handed out for a request. -/
theorem Alive.of_new {c p size peak : Nat} (hp : p = c + ALLOC_CHUNK_HDR_SZ)
    (hnew : New gone L i.st L' c size) (hreq : i.requested c = size) (hvalid : peak ≤ MAX_ALLOC_SIZE)
    (hpeak : peak ≤ i.st.chunkSize p) (hstored : Stored peak (i.st.chunkSize p)) :
    Alive i L' ⟨a, p, size, peak⟩ := by
  have hc : Live.chunk ⟨a, p, size, peak⟩ = c := by simp [Live.chunk, hp]
  have hsize : i.st.chunkSize p = i.st.mem.size c := by simp [Aset.State.chunkSize, hp]
  rw [hsize] at hpeak hstored
  constructor
  · rw [hc]
    exact hp
  · rw [hc]
    exact hnew.1
  · rw [hc]
    exact hreq
  · exact hvalid
  · rw [hc]
    exact hpeak
  · rw [hc]
    exact hstored

/-- `pfree` and `repalloc` accept what is live, and find its context. -/
structure Accepted (s : Contexts) (x : Live) : Prop where
  pos : x.pointer ≠ 0
  aligned : x.pointer = maxAlign x.pointer
  context : s.mem.aset (x.pointer - STANDARD_CHUNK_HEADER_SIZE) = x.owner
  valid : s.isValid x.owner = true

theorem Accepted.guard (h : Accepted s x) :
    ¬(x.pointer = 0 ∨ x.pointer ≠ maxAlign x.pointer ∨ ¬s.isValid x.owner = true) := by
  rintro (h0 | hal | hv)
  · exact h.pos h0
  · exact hal h.aligned
  · exact hv h.valid

namespace Consistent

theorem accepted (h : Consistent s Ls) (hx : x ∈ s.live) : Accepted s x := by
  have howner := h.owned x hx
  have halive := h.alive x hx
  have hsane := h.sane x.owner howner
  obtain ⟨b, hb, hm⟩ := halive.used.1
  have hblock := hsane.marked.shape.block b hb
  have hin := hsane.marked.shape.chunk_in hb hm
  have hbelow := hblock.below
  have hp := halive.pointer
  unfold ALLOC_CHUNK_HDR_SZ at hp
  constructor
  · omega
  · rw [maxAlign_eq (by omega)]
    refine (Align.alignUp_of_dvd (by decide) ?_).symm
    rw [hp]
    exact Nat.dvd_add (hblock.chunk_dvd hm) (by decide)
  · exact (hsane.marked.used x.chunk halive.used List.not_mem_nil).own.trans (h.self x.owner howner)
  · unfold Contexts.isValid
    simp [h.pos x.owner howner, howner]

theorem alloc (h : Consistent s Ls) (a size : Nat) :
    Ends (fun e => Ordered e.2) (memoryContextAlloc M s a size) fun r =>
      Ordered { r.2 with live := ⟨a, r.1, size, size⟩ :: s.live } := by
  unfold memoryContextAlloc
  split
  · exact ⟨Ls, h⟩
  rename_i hvalid
  split
  · exact ⟨Ls, h⟩
  rename_i hsize
  have ha := mem_of_isValid (not_not.mp hvalid)
  have hv := valid_iff.mp (not_not.mp hsize)
  have hsane := h.sane a ha
  have hspec := (Aset.Debug.allocSetAlloc_spec (M := M) hsane hv.1 hv.2).and
    (Aset.Debug.allocSetAlloc_stored hsane.marked.shape hv.1)
  refine Ends.bind (ends_callAset hspec ?_) ?_
  · intro e i ⟨_, L', hsane', ht⟩
    exact ⟨_, h.turn ha hsane' ht fun x hx => Or.inl ⟨hx, fun _ => List.not_mem_nil⟩⟩
  · intro r ⟨⟨L', c, hp, hsane', ht, hnew, hreq⟩, hstored⟩
    refine ⟨_, h.turn ha hsane' ht fun x hx => ?_⟩
    rcases List.mem_cons.mp hx with rfl | hx
    · refine Or.inr ⟨rfl, .of_new hp hnew hreq hv.2 ?_ hstored⟩
      rw [hp]
      unfold Aset.State.chunkSize
      rw [Nat.add_sub_cancel]
      exact hnew.2.2
    · exact Or.inl ⟨hx, fun _ => List.not_mem_nil⟩

/-- The other pointers are behind other chunks. -/
theorem chunk_ne {y : Live} (h : Consistent s Ls) (hx : x ∈ s.live) (hy : y ∈ without s.live x.pointer) :
    y ∈ s.live ∧ y.chunk ∉ [x.chunk] := by
  obtain ⟨hm, hne⟩ := List.mem_filter.mp hy
  refine ⟨hm, fun hc => of_decide_eq_true hne ?_⟩
  rw [(h.alive y hm).pointer, (h.alive x hx).pointer, List.mem_singleton.mp hc]

theorem pfree (h : Consistent s Ls) (hx : x ∈ s.live) :
    ∃ s', Debug.pfree s x.pointer = .ok s' ∧ Ordered { s' with live := without s.live x.pointer } := by
  have haccepted := h.accepted hx
  have howner := h.owned x hx
  have halive := h.alive x hx
  obtain ⟨i, L', hfree, hsane', ht⟩ := Aset.Debug.allocSetFree_spec (h.sane x.owner howner) halive.used
  rw [← halive.pointer] at hfree
  refine ⟨s.put x.owner i, ?_, _, h.turn howner hsane' ht fun y hy => ?_⟩
  · unfold Debug.pfree
    dsimp only
    rw [haccepted.context, if_neg haccepted.guard, hfree]
    rfl
  · obtain ⟨hm, hne⟩ := h.chunk_ne hx hy
    exact Or.inl ⟨hm, fun _ => hne⟩

theorem repalloc (h : Consistent s Ls) (hx : x ∈ s.live) (size : Nat) :
    Ends (fun e => Ordered e.2) (Debug.repalloc M s x.pointer size) fun r =>
      Ordered { r.2 with live := ⟨x.owner, r.1, size, max x.peak size⟩ :: without s.live x.pointer } := by
  have haccepted := h.accepted hx
  have howner := h.owned x hx
  have halive := h.alive x hx
  have hsane := h.sane x.owner howner
  unfold Debug.repalloc
  dsimp only
  rw [haccepted.context, if_neg haccepted.guard]
  split
  · exact ⟨Ls, h⟩
  rename_i hsize
  have hv := valid_iff.mp (not_not.mp hsize)
  have hspec := (Aset.Debug.allocSetRealloc_spec (M := M) hsane halive.used hv.1 hv.2).and
    (Aset.Debug.allocSetRealloc_stored hsane.marked.shape halive.used hv.1)
  rw [← halive.pointer] at hspec
  refine Ends.bind (ends_callAset hspec ?_) ?_
  · intro e i ⟨_, L', hsane', ht⟩
    exact ⟨_, h.turn howner hsane' ht fun y hy => Or.inl ⟨hy, fun _ => List.not_mem_nil⟩⟩
  · intro r ⟨⟨L', c, hp, hsane', ht, hnew, hreq, _⟩, hstored⟩
    refine ⟨_, h.turn howner hsane' ht fun y hy => ?_⟩
    rcases List.mem_cons.mp hy with rfl | hy
    · have hnewsize : size ≤ r.2.st.chunkSize r.1 := by
        rw [hp]
        unfold Aset.State.chunkSize
        rw [Nat.add_sub_cancel]
        exact hnew.2.2
      have hvalid := Nat.max_le.mpr ⟨halive.valid, hv.2⟩
      rcases hstored with ⟨hle, hsame⟩ | ⟨hgt, hmade⟩
      · have hpeak : x.peak ≤ r.2.st.chunkSize r.1 := hsame ▸ halive.peak
        refine Or.inr ⟨rfl, .of_new hp hnew hreq hvalid (Nat.max_le.mpr ⟨hpeak, hnewsize⟩) ?_⟩
        rw [hsame]
        exact halive.stored.within hv.2 hle
      · have hmax : max x.peak size = size :=
          Nat.max_eq_right (Nat.le_of_lt (Nat.lt_of_le_of_lt halive.peak hgt))
        rw [hmax] at hvalid ⊢
        exact Or.inr ⟨rfl, .of_new hp hnew hreq hvalid hnewsize hmade⟩
    · obtain ⟨hm, hne⟩ := h.chunk_ne hx hy
      exact Or.inl ⟨hm, fun _ => hne⟩

theorem mem_outside {y : Live} (h : Consistent s Ls) (hy : y ∈ outside s.live a) :
    y ∈ s.live ∧ y.owner ∈ s.contexts ∧ y.owner ≠ a := by
  obtain ⟨hm, hne⟩ := List.mem_filter.mp hy
  exact ⟨hm, h.owned y hm, of_decide_eq_true hne⟩

theorem resetMethod (h : Consistent s Ls) (ha : a ∈ s.contexts) :
    ∃ s', Debug.resetMethod s a = .ok s' ∧ Ordered { s' with live := outside s.live a } := by
  obtain ⟨i, hreset, hsane', ht, -⟩ := Aset.Debug.allocSetReset_spec (h.sane a ha)
  refine ⟨s.put a i, ?_, _, h.turn ha hsane' ht fun y hy => ?_⟩
  · unfold Debug.resetMethod
    rw [hreset]
    rfl
  · obtain ⟨hm, -, hne⟩ := h.mem_outside hy
    exact Or.inl ⟨hm, fun heq => absurd heq hne⟩

theorem deleteMethod (h : Consistent s Ls) (ha : a ∈ s.contexts) :
    ∃ s', Debug.deleteMethod s a = .ok s' ∧
      Ordered { s' with contexts := s.contexts.filter (· ≠ a), live := outside s.live a } := by
  obtain ⟨i, hdelete, hd⟩ := Aset.Debug.allocSetDelete_spec (h.sane a ha)
  have hleaves : Leaves s Ls a i := by
    intro a' ha' hne b hb
    have hforeign := h.foreign ha ha' hne hb
    exact ⟨hd.foreign _ hforeign, hd.untouched _ hforeign⟩
  refine ⟨s.put a i, ?_, _, h.aside hleaves (fun a' ha' => ?_) fun y hy => ?_⟩
  · unfold Debug.deleteMethod
    rw [hdelete]
    rfl
  · obtain ⟨hm, hne⟩ := List.mem_filter.mp ha'
    exact ⟨hm, of_decide_eq_true hne⟩
  · obtain ⟨hm, howner, hne⟩ := h.mem_outside hy
    exact ⟨hm, List.mem_filter.mpr ⟨howner, decide_eq_true hne⟩⟩

/-- Whatever leaves all regions alone leaves the other contexts alone. -/
theorem leaves_of_regions (h : Consistent s Ls) (hr : ∀ r ∈ s.mem.heap.regions,
    r ∈ i.st.mem.heap.regions ∧ ∀ x, r.Holds x → Untouched (s.image a) i x) : Leaves s Ls a i :=
  fun a' ha' _ b hb => hr _ ((h.sane a' ha').marked.shape.block b hb).region

theorem create (h : Consistent s Ls) (hpos : a ≠ 0) (ha : a ∉ s.contexts)
    {minContextSize initBlockSize maxBlockSize : Nat} (hmin : minContextSize + 16 ≤ 2 ^ 64) :
    Ends (fun e => Ordered e.2)
      (allocSetContextCreate M s a minContextSize initBlockSize maxBlockSize) Ordered := by
  unfold allocSetContextCreate
  have hnew : ∀ a' ∈ s.contexts, a' ≠ a := fun a' ha' heq => ha (heq ▸ ha')
  cases hcreate : Aset.Debug.allocSetContextCreate M (s.image a) a minContextSize initBlockSize
      maxBlockSize with
  | error e =>
    obtain ⟨heap, hheap, hregions⟩ := Aset.Debug.allocSetContextCreate_refused hcreate
    have hleaves : Leaves s Ls a e.2 := by
      apply h.leaves_of_regions
      intro r hr
      rw [hheap]
      refine ⟨?_, fun x _ => ⟨rfl, rfl, rfl, rfl, rfl, rfl, rfl⟩⟩
      show r ∈ heap.regions
      rw [hregions]
      exact hr
    exact ⟨Ls, h.aside hleaves (fun a' ha' => ⟨ha', hnew a' ha'⟩) fun x hx => ⟨hx, h.owned x hx⟩⟩
  | ok i =>
    have hc := Aset.Debug.allocSetContextCreate_spec hmin hcreate
    have hleaves : Leaves s Ls a i := h.leaves_of_regions fun r hr =>
      ⟨hc.regions r hr, hc.untouched r hr⟩
    refine ⟨_, h.put hleaves hpos hc.sane hc.self ?_ (fun a' ha' => List.mem_cons.mp ha') fun x hx => ?_⟩
    · intro a' ha' _ b hb b' hb'
      exact hc.apart _ ((h.sane a' ha').marked.shape.block b' hb').region b hb
    · have howner := h.owned x hx
      exact ⟨List.mem_cons_of_mem a howner, fun heq => absurd heq (hnew _ howner), fun _ => hx⟩

/-- A client of `a` writes to its own chunks, and these are in the blocks of `a`. -/
theorem write (h : Consistent s Ls) (ha : a ∈ s.contexts) {bytes : Nat → UInt8}
    (hw : ∀ x, ¬ Requested (s.liveOf a) x → bytes x = s.bytes x) :
    Ordered { s with bytes := bytes } := by
  have hheld : ∀ y ∈ s.liveOf a, ∃ c, y.1 = c + ALLOC_CHUNK_HDR_SZ ∧ (Ls a).Used c ∧
      s.requested c = y.2 := by
    intro y hy
    obtain ⟨x, hx, rfl⟩ := List.mem_map.mp hy
    obtain ⟨hm, howner⟩ := List.mem_filter.mp hx
    have halive := h.alive x hm
    rw [of_decide_eq_true howner] at halive
    exact ⟨x.chunk, halive.pointer, halive.used, halive.requested⟩
  have hsane := h.sane a ha
  have hleaves : Leaves s Ls a { s.image a with bytes := bytes } := by
    intro a' ha' hne b hb
    have hforeign := h.foreign ha ha' hne hb
    refine ⟨hforeign.1, fun x hx => ⟨rfl, rfl, rfl, rfl, rfl, rfl, hw x ?_⟩⟩
    rintro ⟨y, hy, h1, h2⟩
    obtain ⟨c, hc, hused, hreq⟩ := hheld y hy
    obtain ⟨b', hb', hm⟩ := hused.1
    have hin := hsane.marked.shape.chunk_in hb' hm
    have hle : s.requested c ≤ (s.image a).st.mem.size c := (hsane.marked.used c hused List.not_mem_nil).le
    unfold ALLOC_CHUNK_HDR_SZ at hc
    exact (hforeign.2.2 b' hb').ne (Aset.Debug.holds_blockRegion (by omega) (by omega)) hx rfl
  have hput : s.put a { s.image a with bytes := bytes } = { s with bytes := bytes } := by
    unfold Contexts.put Contexts.image
    simp
  rw [← hput]
  refine ⟨_, h.put hleaves (h.pos a ha) (hsane.write hheld hw) (h.self a ha) ?_ (fun a' ha' => Or.inr ha')
    fun x hx => ?_⟩
  · intro a' ha' hne b hb b' hb'
    exact h.apart a ha a' ha' (Ne.symm hne) b hb b' hb'
  · refine ⟨h.owned x hx, fun howner => ?_, fun _ => hx⟩
    have halive := h.alive x hx
    rw [howner] at halive
    exact halive.keep halive.used rfl rfl

/-- What goes on elsewhere leaves every context alone. -/
theorem elsewhere (h : Consistent s Ls) (hcontexts : s'.contexts = s.contexts) (hsets : s'.sets = s.sets)
    (hlive : s'.live = s.live) (he : ∀ a ∈ s.contexts, Elsewhere (s.image a) (s'.image a)) :
    Consistent s' Ls := by
  have hbeside : ∀ a ∈ s.contexts, Beside s s' (Ls a) a := by
    intro a ha
    have hshape := (h.sane a ha).marked.shape
    have hin : ∀ b ∈ (Ls a).blocks, ∀ x, (blockRegion s.mem b).Holds x →
        Aset.Debug.InBlock (s.image a).st x := by
      intro b hb x hx
      have hstart := (hshape.block b hb).start_le
      have hfree := (hshape.block b hb).free_le
      unfold blockRegion Region.Holds at hx
      dsimp only at hx
      refine ⟨(Ls a).blocks, hshape.linked, b, hb, hx.1, ?_⟩
      show x < s.mem.endptr b
      change _ ≤ s.mem.endptr b at hfree
      omega
    refine ⟨congrFun hsets a, fun b hb x hx => (he a ha).untouched x (hin b hb x hx), fun b hb => ?_⟩
    refine (he a ha).regions _ (hshape.block b hb).region (hin b hb b ?_)
    have hstart := (hshape.block b hb).start_le
    have hfree := (hshape.block b hb).free_le
    refine Aset.Debug.holds_blockRegion (Nat.le_refl b) ?_
    show b < (s.image a).st.mem.endptr b
    omega
  constructor
  · exact hcontexts ▸ h.pos
  · intro a ha
    rw [hcontexts] at ha
    exact ((hbeside a ha).sane (h.sane a ha)).1
  · intro a ha
    rw [hcontexts] at ha
    rw [hsets]
    exact h.self a ha
  · intro a₁ ha₁ a₂ ha₂ hne b₁ hb₁ b₂ hb₂
    rw [hcontexts] at ha₁ ha₂
    rw [(hbeside a₁ ha₁).region (h.sane a₁ ha₁) b₁ hb₁, (hbeside a₂ ha₂).region (h.sane a₂ ha₂) b₂ hb₂]
    exact h.apart a₁ ha₁ a₂ ha₂ hne b₁ hb₁ b₂ hb₂
  · rw [hcontexts, hlive]
    exact h.owned
  · intro x hx
    rw [hlive] at hx
    have howner := h.owned x hx
    exact (hbeside x.owner howner).alive (h.sane x.owner howner) (h.alive x hx)

end Consistent

/-! ## Over a run -/

theorem Ordered.step {ev : Event} (h : Ordered s) (hs : Step M s ev s') : Ordered s' := by
  obtain ⟨Ls, h⟩ := h
  cases hs with
  | create hpos hnode hmin hrun => exact (h.create hpos hnode hmin).of_ok hrun
  | createFails hpos hnode hmin hrun => exact (h.create hpos hnode hmin).of_error hrun
  | alloc hrun => exact (h.alloc _ _).of_ok hrun
  | allocFails hrun => exact (h.alloc _ _).of_error hrun
  | free hx hrun =>
    obtain ⟨s₁, hfree, hs₁⟩ := h.pfree hx
    obtain rfl := Except.ok.inj (hfree.symm.trans hrun)
    exact hs₁
  | realloc hx hrun => exact (h.repalloc hx _).of_ok hrun
  | reallocFails hx hrun => exact (h.repalloc hx _).of_error hrun
  | reset ha hrun =>
    obtain ⟨s₁, hreset, hs₁⟩ := h.resetMethod ha
    obtain rfl := Except.ok.inj (hreset.symm.trans hrun)
    exact hs₁
  | delete ha hrun =>
    obtain ⟨s₁, hdelete, hs₁⟩ := h.deleteMethod ha
    obtain rfl := Except.ok.inj (hdelete.symm.trans hrun)
    exact hs₁
  | write ha hw => exact h.write ha hw
  | elsewhere hcontexts hsets hlive he => exact ⟨Ls, h.elsewhere hcontexts hsets hlive he⟩

theorem start_ordered (i : Image) : Ordered (Contexts.start i) := by
  refine ⟨fun _ => Layout.empty 0, ?_⟩
  constructor
  · exact fun a ha => absurd ha List.not_mem_nil
  · exact fun a ha => absurd ha List.not_mem_nil
  · exact fun a ha => absurd ha List.not_mem_nil
  · exact fun a ha => absurd ha List.not_mem_nil
  · exact fun x hx => absurd hx List.not_mem_nil
  · exact fun x hx => absurd hx List.not_mem_nil

theorem run_ordered {l : List Event} (hrun : Run (Step M) (Contexts.start i) l s) : Ordered s :=
  hrun.invariant (fun _ _ _ h hs => h.step hs) (start_ordered i)

/-- Only a size in the header that was rounded up past the limit is not a valid one. -/
theorem Alive.size_valid (h : Alive i L x) (hpos : 0 < i.st.mem.size x.chunk) :
    allocSizeIsValid (i.st.mem.size x.chunk) = true ↔ x.peak ≤ MAX_ALLOC_SIZE - 15 := by
  rw [valid_iff]
  have hvalid := h.valid
  have hpeak := h.peak
  have hstored := h.stored
  unfold Aset.Valid
  by_cases hbig : ALLOC_CHUNK_LIMIT < x.peak
  · rw [hstored.large hbig] at hpos hpeak ⊢
    unfold MAX_ALLOC_SIZE at *
    have hlt := maxAlign_lt (n := x.peak) (by omega)
    obtain ⟨k, hk⟩ := dvd_maxAlign x.peak
    omega
  · have hsmall := hstored.small (Nat.not_lt.mp hbig)
    have hlimit : ALLOC_CHUNK_LIMIT = 8192 := rfl
    unfold MAX_ALLOC_SIZE at *
    omega

/-- Exactly: the header names the owner, and its size is the one the request was rounded up
to. -/
theorem Consistent.contains (h : Consistent s Ls) (hx : x ∈ s.live) (context : Nat) :
    memoryContextContains s context x.pointer = true ↔
      context = x.owner ∧ x.peak ≤ MAX_ALLOC_SIZE - 15 := by
  have haccepted := h.accepted hx
  have halive := h.alive x hx
  have hin := (h.sane x.owner (h.owned x hx)).marked.used x.chunk halive.used List.not_mem_nil
  have hguard : ¬(x.pointer = 0 ∨ x.pointer ≠ maxAlign x.pointer) := by
    rintro (h0 | hal)
    · exact haccepted.pos h0
    · exact hal haccepted.aligned
  unfold memoryContextContains
  rw [if_neg hguard]
  dsimp only
  rw [haccepted.context, Bool.and_eq_true, decide_eq_true_eq]
  have hsize := halive.size_valid (Nat.lt_of_lt_of_le hin.pos hin.le)
  change allocSizeIsValid (s.mem.size (x.pointer - STANDARD_CHUNK_HEADER_SIZE)) = true ↔ _ at hsize
  rw [hsize]
  exact and_congr_left' eq_comm

end PostgresV7.Mctx.Debug
