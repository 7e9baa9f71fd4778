import PostgresV7.Aset.MarkedReset

/-!
# Clients of an allocation set

Clients hold pointers with the sizes they asked for and write where those reach. Any
call may run out of memory, and the session goes on with what the error left. The rest of
the program may do anything at any time to memory that is not in a block of the set.
-/

namespace PostgresV7.Aset.Debug

open Regions Chains Tilings Ledgers Outcomes Runs

variable {M : Libc} {s s' : Image} {L L' : Layout} {c : Nat}

/-- The set, and the pointers clients have with the sizes they asked for. -/
structure Session where
  image : Image
  live : List (Nat × Nat)

/-- A call with what it returns, `none` for an error; writes of clients; what goes on
elsewhere. -/
inductive Event where
  | alloc (size : Nat) (pointer : Option Nat)
  | free (pointer : Nat)
  | realloc (pointer size : Nat) (newPointer : Option Nat)
  | reset
  | write
  | elsewhere
  deriving DecidableEq, Repr

/-- The byte at `x` was asked for. -/
def Requested (live : List (Nat × Nat)) (x : Nat) : Prop := ∃ y ∈ live, y.1 ≤ x ∧ x < y.1 + y.2

/-- The address is in a block of the set. -/
def InBlock (st : State) (x : Nat) : Prop :=
  ∃ bs, Linked id 0 st.mem.next st.set.blocks bs ∧ ∃ b ∈ bs, b ≤ x ∧ x < st.mem.endptr b

/-- Anything may have happened elsewhere, but the set's blocks are still allocated. -/
structure Elsewhere (s s' : Image) : Prop where
  set : s'.st.set = s.st.set
  untouched : ∀ x, InBlock s.st x → Untouched s s' x
  regions : ∀ r ∈ s.st.mem.heap.regions, InBlock s.st r.base → r ∈ s'.st.mem.heap.regions
  ledger : s'.ledger = s.ledger
  notices : s'.notices = s.notices

inductive Step (M : Libc) : Session → Event → Session → Prop where
  | alloc {s : Session} {size p : Nat} {image : Image} : Valid size →
      allocSetAlloc M s.image size = .ok (p, image) →
      Step M s (.alloc size (some p)) ⟨image, (p, size) :: s.live⟩
  | allocFails {s : Session} {size : Nat} {e : Fault} {image : Image} : Valid size →
      allocSetAlloc M s.image size = .error (e, image) → Step M s (.alloc size none) ⟨image, s.live⟩
  | free {s : Session} {p : Nat} {image : Image} : p ∈ s.live.map Prod.fst →
      allocSetFree s.image p = .ok image → Step M s (.free p) ⟨image, without s.live p⟩
  | realloc {s : Session} {p size p' : Nat} {image : Image} : p ∈ s.live.map Prod.fst → Valid size →
      allocSetRealloc M s.image p size = .ok (p', image) →
      Step M s (.realloc p size (some p')) ⟨image, (p', size) :: without s.live p⟩
  | reallocFails {s : Session} {p size : Nat} {e : Fault} {image : Image} : p ∈ s.live.map Prod.fst →
      Valid size → allocSetRealloc M s.image p size = .error (e, image) →
      Step M s (.realloc p size none) ⟨image, s.live⟩
  | reset {s : Session} {image : Image} : allocSetReset s.image = .ok image →
      Step M s .reset ⟨image, []⟩
  | write {s : Session} {bytes : Nat → UInt8} :
      (∀ x, ¬ Requested s.live x → bytes x = s.image.bytes x) →
      Step M s .write ⟨{ s.image with bytes := bytes }, s.live⟩
  | elsewhere {s : Session} {image : Image} : Elsewhere s.image image →
      Step M s .elsewhere ⟨image, s.live⟩

/-- A store to a byte that was asked for. -/
theorem Step.store {s : Session} {x : Nat} (hx : Requested s.live x) (b : UInt8) :
    Step M s .write ⟨{ s.image with bytes := Function.update s.image.bytes x b }, s.live⟩ := by
  apply Step.write
  intro y hy
  apply Function.update_of_ne
  rintro rfl
  exact hy hx

/-! ## The invariant -/

/-- A set depends on its own blocks only. -/
theorem Sane.beside (h : Sane s L) (hset : s'.st.set = s.st.set)
    (hx : ∀ b ∈ L.blocks, ∀ x, b ≤ x → x < s.st.mem.endptr b → Untouched s s' x)
    (hr : ∀ b ∈ L.blocks, blockRegion s.st.mem b ∈ s'.st.mem.heap.regions) :
    Sane s' L ∧ Kept [] s.st L s'.st L ∧ ∀ c, L.Chunk c → Untouched s s' c := by
  have hshape := h.marked.shape
  have hb : ∀ b ∈ L.blocks, Untouched s s' b := by
    intro b hb
    have hstart := (hshape.block b hb).start_le
    have hfree := (hshape.block b hb).free_le
    exact hx b hb b (by omega) (by omega)
  have hchunk : ∀ c, L.Chunk c → ∀ x, (chunkRegion s.st.mem c).Holds x → Untouched s s' x := by
    intro c ⟨b, hb, hm⟩ x hcx
    have hin := hshape.chunk_in hb hm
    unfold chunkRegion ALLOC_CHUNK_HDR_SZ Region.Holds at hcx
    dsimp only at hcx
    exact hx b hb x (by omega) (by omega)
  have hc : ∀ c, L.Chunk c → Untouched s s' c := fun c hc => hchunk c hc c (holds_chunk _ c)
  have hregion : ∀ b ∈ L.blocks, blockRegion s'.st.mem b = blockRegion s.st.mem b := by
    intro b hbm
    unfold blockRegion
    rw [(hb b hbm).endptr]
  have hshape' : Shape s'.st L := by
    refine ⟨?_, fun b hbm => ?_, fun b hbm b' hbm' hne => ?_, fun hk => ?_, fun k hk => ?_,
      fun k hk c hm => ?_, hshape.member⟩
    · rw [hset]
      exact hshape.linked.move fun b hbm => (hb b hbm).next
    · exact (hshape.block b hbm).move (hb b hbm).freeptr (hb b hbm).endptr
        (fun c hm => (hc c ⟨b, hbm, hm⟩).size) (hr b hbm)
    · rw [hregion b hbm, hregion b' hbm']
      exact hshape.apart b hbm b' hbm' hne
    · rw [hset] at hk ⊢
      refine ⟨(hshape.keeper hk).1, fun c hm => ?_⟩
      rw [(hc c ⟨_, (hshape.keeper hk).1, hm⟩).size]
      exact (hshape.keeper hk).2 c hm
    · rw [hset]
      exact (hshape.lists k hk).move fun c hm => (hc c (hshape.member k hk c hm)).aset
    · rw [(hc c (hshape.member k hk c hm)).size]
      exact hshape.sizes k hk c hm
  refine ⟨⟨⟨hshape', fun k hk c hm => ?_, fun c hu _ => ?_⟩, fun b hbm hempty => ?_⟩, fun c hu _ => ?_, hc⟩
  · rw [(hc c (hshape.member k hk c hm)).requested]
    exact h.marked.free k hk c hm
  · exact (h.marked.used c hu List.not_mem_nil).keep (by rw [hset]) (hchunk c hu.1)
  · rw [hset]
    exact h.filled b hbm hempty
  · exact ⟨hu, (hc c hu.1).size⟩

theorem Elsewhere.sane (he : Elsewhere s s') (h : Sane s L) :
    Sane s' L ∧ Kept [] s.st L s'.st L ∧ ∀ c, L.Chunk c → Untouched s s' c := by
  have hshape := h.marked.shape
  have hin : ∀ b ∈ L.blocks, ∀ x, b ≤ x → x < s.st.mem.endptr b → InBlock s.st x :=
    fun b hb x h1 h2 => ⟨L.blocks, hshape.linked, b, hb, h1, h2⟩
  refine h.beside he.set (fun b hb x h1 h2 => he.untouched x (hin b hb x h1 h2)) fun b hb => ?_
  have hstart := (hshape.block b hb).start_le
  have hfree := (hshape.block b hb).free_le
  exact he.regions _ (hshape.block b hb).region (hin b hb b (Nat.le_refl _) (by omega))

/-- The live pointers are chunks in use, with the sizes their headers say. -/
structure Held (L : Layout) (s : Session) : Prop where
  backed : Backed L ⟨s.image.st, s.live⟩
  requested : ∀ x ∈ s.live, s.image.requested (x.1 - ALLOC_CHUNK_HDR_SZ) = x.2

/-- A live pointer is behind the header of a chunk in use. -/
theorem Held.chunk {s : Session} {y : Nat × Nat} (h : Held L s) (hy : y ∈ s.live) :
    ∃ c, y.1 = c + ALLOC_CHUNK_HDR_SZ ∧ L.Used c ∧ s.image.requested c = y.2 := by
  obtain ⟨c, hc, hused, -⟩ := h.backed.used y hy
  have hreq := h.requested y hy
  rw [hc, Nat.add_sub_cancel] at hreq
  exact ⟨c, hc, hused, hreq⟩

theorem Held.keep {s : Session} {gone : List Nat} {live : List (Nat × Nat)} (h : Held L s)
    (ht : Turns gone s.image L s' L') (hsub : live.Sublist s.live)
    (hgone : ∀ x ∈ live, ∀ c ∈ gone, x.1 ≠ c + ALLOC_CHUNK_HDR_SZ) : Held L' ⟨s', live⟩ := by
  refine ⟨h.backed.keep ht.kept hsub hgone, fun x hx => ?_⟩
  obtain ⟨c, hc, hused, hreq⟩ := h.chunk (hsub.subset hx)
  rw [hc, Nat.add_sub_cancel]
  exact (ht.requested hused fun hg => hgone x hx c hg hc).trans hreq

theorem Held.cons {s : Session} {gone : List Nat} {live : List (Nat × Nat)} {size : Nat} (h : Held L s)
    (ht : Turns gone s.image L s' L') (hsub : live.Sublist s.live)
    (hgone : ∀ x ∈ live, ∀ c ∈ gone, x.1 ≠ c + ALLOC_CHUNK_HDR_SZ)
    (hnew : New gone L s'.st L' c size) (hreq : s'.requested c = size) :
    Held L' ⟨s', (c + ALLOC_CHUNK_HDR_SZ, size) :: live⟩ := by
  refine ⟨h.backed.cons ht.kept hsub hgone hnew, fun x hx => ?_⟩
  rcases List.mem_cons.mp hx with rfl | hx
  · dsimp only
    rw [Nat.add_sub_cancel]
    exact hreq
  · exact (h.keep ht hsub hgone).requested x hx

/-- Between two events. -/
def Sound (s : Session) : Prop := ∃ L, Sane s.image L ∧ Held L s

/-- Clients that stay within what they asked for never reach a mark. -/
theorem Sane.write (h : Sane s L) {live : List (Nat × Nat)}
    (hlive : ∀ y ∈ live, ∃ c, y.1 = c + ALLOC_CHUNK_HDR_SZ ∧ L.Used c ∧ s.requested c = y.2)
    {bytes : Nat → UInt8} (hw : ∀ x, ¬ Requested live x → bytes x = s.bytes x) :
    Sane { s with bytes := bytes } L := by
  refine ⟨⟨h.marked.shape, h.marked.free, fun c hc _ => ?_⟩, h.filled⟩
  have hin := h.marked.used c hc List.not_mem_nil
  refine ⟨hin.pos, hin.le, hin.own, fun hlt => ?_⟩
  refine (hw _ ?_).trans (hin.marked hlt)
  rintro ⟨y, hy, h1, h2⟩
  obtain ⟨c', hc', hused, hreq⟩ := hlive y hy
  have hle := (h.marked.used c' hused List.not_mem_nil).le
  have hlt : s.requested c < s.st.mem.size c := hlt
  have h1 : y.1 ≤ c + ALLOC_CHUNK_HDR_SZ + s.requested c := h1
  have h2 : c + ALLOC_CHUNK_HDR_SZ + s.requested c < y.1 + y.2 := h2
  by_cases hcc : c = c'
  · subst hcc
    omega
  · have hap := h.marked.shape.chunks_apart hc.1 hused.1 hcc
    unfold ALLOC_CHUNK_HDR_SZ at *
    omega

/-- What an event makes of a set and its clients. -/
structure Follows (s : Session) (L : Layout) (s' : Session) (L' : Layout) : Prop where
  sane : Sane s'.image L'
  held : Held L' s'
  keeper : s'.image.st.set.keeper = s.image.st.set.keeper
  settles : ∃ es, s'.image.ledger = es ++ s.image.ledger ∧ Settles es L.blocks L'.blocks
  notices : s'.image.notices = s.image.notices

theorem Turns.follows {s : Session} {gone : List Nat} {live : List (Nat × Nat)}
    (ht : Turns gone s.image L s' L') (hsane : Sane s' L') (hheld : Held L' ⟨s', live⟩) :
    Follows s L ⟨s', live⟩ L' :=
  ⟨hsane, hheld, ht.keeper, ht.settles, ht.notices⟩

theorem Step.follows {s s' : Session} {ev : Event} (hs : Step M s ev s') (hsane : Sane s.image L)
    (hheld : Held L s) : ∃ L', Follows s L s' L' := by
  cases hs with
  | alloc hv hrun =>
    obtain ⟨L', c, rfl, hsane', ht, hnew, hreq⟩ := (allocSetAlloc_spec hsane hv.1 hv.2).of_ok hrun
    exact ⟨L', ht.follows hsane' (hheld.cons ht (List.Sublist.refl _)
      (fun _ _ _ hc => absurd hc List.not_mem_nil) hnew hreq)⟩
  | allocFails hv hrun =>
    obtain ⟨-, L', hsane', ht⟩ := (allocSetAlloc_spec hsane hv.1 hv.2).of_error hrun
    exact ⟨L', ht.follows hsane' (hheld.keep ht (List.Sublist.refl _)
      fun _ _ _ hc => absurd hc List.not_mem_nil)⟩
  | free hp hrun =>
    obtain ⟨c, rfl, hused⟩ := hheld.backed.chunk hp
    obtain ⟨image, L', hfree, hsane', ht⟩ := allocSetFree_spec hsane hused
    obtain rfl := Except.ok.inj (hfree.symm.trans hrun)
    exact ⟨L', ht.follows hsane' (hheld.keep ht List.filter_sublist (without_gone s.live c))⟩
  | realloc hp hv hrun =>
    obtain ⟨c, rfl, hused⟩ := hheld.backed.chunk hp
    obtain ⟨L', c', rfl, hsane', ht, hnew, hreq, -⟩ :=
      (allocSetRealloc_spec hsane hused hv.1 hv.2).of_ok hrun
    exact ⟨L', ht.follows hsane'
      (hheld.cons ht List.filter_sublist (without_gone s.live c) hnew hreq)⟩
  | reallocFails hp hv hrun =>
    obtain ⟨c, rfl, hused⟩ := hheld.backed.chunk hp
    obtain ⟨-, L', hsane', ht⟩ := (allocSetRealloc_spec hsane hused hv.1 hv.2).of_error hrun
    exact ⟨L', ht.follows hsane' (hheld.keep ht (List.Sublist.refl _)
      fun _ _ _ hc => absurd hc List.not_mem_nil)⟩
  | reset hrun =>
    obtain ⟨image, hreset, hsane', ht, -⟩ := allocSetReset_spec hsane
    obtain rfl := Except.ok.inj (hreset.symm.trans hrun)
    exact ⟨_, ht.follows hsane' ⟨⟨List.nodup_nil, fun x hx => absurd hx List.not_mem_nil⟩,
      fun x hx => absurd hx List.not_mem_nil⟩⟩
  | write hw =>
    exact ⟨L, hsane.write (fun _ hy => hheld.chunk hy) hw, ⟨hheld.backed, hheld.requested⟩, rfl,
      settles_none rfl rfl, rfl⟩
  | elsewhere he =>
    obtain ⟨hsane', hkept, hc⟩ := he.sane hsane
    have hbacked := hheld.backed.keep hkept (List.Sublist.refl _)
      fun _ _ _ hc => absurd hc List.not_mem_nil
    refine ⟨L, hsane', ⟨hbacked, fun x hx => ?_⟩, by rw [he.set], settles_none he.ledger rfl, he.notices⟩
    obtain ⟨c, hxc, hused, hreq⟩ := hheld.chunk hx
    rw [hxc, Nat.add_sub_cancel]
    exact (hc c hused.1).requested.trans hreq

theorem Sound.step {s s' : Session} {ev : Event} (h : Sound s) (hs : Step M s ev s') :
    Sound s' ∧ s'.image.notices = s.image.notices := by
  obtain ⟨L, hsane, hheld⟩ := h
  obtain ⟨L', hf⟩ := hs.follows hsane hheld
  exact ⟨⟨L', hf.sane, hf.held⟩, hf.notices⟩

/-- A set nobody has used yet. -/
theorem Created.sound {s₀ : Image} {node : Nat} (h : Created s₀ node s) : Sound ⟨s, []⟩ :=
  ⟨_, h.sane, ⟨List.nodup_nil, fun _ hx => absurd hx List.not_mem_nil⟩,
    fun _ hx => absurd hx List.not_mem_nil⟩

theorem Created.run {s₀ : Image} {node : Nat} (h : Created s₀ node s) {s' : Session} {l : List Event}
    (hrun : Run (Step M) ⟨s, []⟩ l s') : Sound s' ∧ s'.image.notices = s₀.notices := by
  refine hrun.invariant (I := fun s' => Sound s' ∧ s'.image.notices = s₀.notices) ?_ ⟨h.sound, h.notices⟩
  intro s₁ ev s₂ hI hstep
  obtain ⟨hsound, hnotices⟩ := hI.1.step hstep
  exact ⟨hsound, hnotices.trans hI.2⟩

/-- A call returns, or memory is exhausted. -/
def Returns {α : Type} (x : Result α) : Prop := Ends (fun e => e.1 = .exhausted) x fun _ => True

/-- No call of a client gets stuck. -/
theorem Sound.returns {s : Session} (h : Sound s) :
    Returns (allocSetReset s.image) ∧ (∀ size, Valid size → Returns (allocSetAlloc M s.image size)) ∧
      ∀ p ∈ s.live.map Prod.fst, Returns (allocSetFree s.image p) ∧
        ∀ size, Valid size → Returns (allocSetRealloc M s.image p size) := by
  obtain ⟨L, hsane, hheld⟩ := h
  refine ⟨?_, fun size hv => ?_, fun p hp => ?_⟩
  · obtain ⟨image, hreset, -⟩ := allocSetReset_spec hsane
    unfold Returns
    rw [hreset]
    trivial
  · exact (allocSetAlloc_spec hsane hv.1 hv.2).mono (fun _ he => he.1) fun _ _ => trivial
  · obtain ⟨c, rfl, hused⟩ := hheld.backed.chunk hp
    obtain ⟨image, L', hfree, -⟩ := allocSetFree_spec hsane hused
    refine ⟨?_, fun size hv => ?_⟩
    · unfold Returns
      rw [hfree]
      trivial
    · exact (allocSetRealloc_spec hsane hused hv.1 hv.2).mono (fun _ he => he.1) fun _ _ => trivial

/-! ## Nothing to report -/

/-- Nothing but zeros in memory, from low addresses up. -/
def bumpLibc : Libc := ⟨bumpAllocator, fun _ _ => 0⟩

/-- Memory no set has used yet. -/
def bareImage : Image :=
  { st := ⟨⟨0, 0, fun _ => 0, 0, 0, 0⟩, bareMemory⟩, requested := fun _ => 0, bytes := fun _ => 0,
    ledger := [], notices := [] }

/-- Chunks with the size they had, the size asked for and the bytes asked for. -/
def Keeps (s s' : Image) (live : List (Nat × Nat)) : Prop :=
  ∀ y ∈ live, s'.st.mem.size (y.1 - ALLOC_CHUNK_HDR_SZ) = s.st.mem.size (y.1 - ALLOC_CHUNK_HDR_SZ) ∧
    s'.requested (y.1 - ALLOC_CHUNK_HDR_SZ) = y.2 ∧ ∀ i < y.2, s'.bytes (y.1 + i) = s.bytes (y.1 + i)

theorem Held.keeps {s : Session} {gone : List Nat} {live : List (Nat × Nat)} (h : Held L s)
    (ht : Turns gone s.image L s' L') (hsub : live.Sublist s.live)
    (hgone : ∀ x ∈ live, ∀ c ∈ gone, x.1 ≠ c + ALLOC_CHUNK_HDR_SZ) : Keeps s.image s' live := by
  intro y hy
  obtain ⟨c, hc, hused, hle⟩ := h.backed.used y (hsub.subset hy)
  have hn : c ∉ gone := fun hg => hgone y hy c hg hc
  have hreq := (h.keep ht hsub hgone).requested y hy
  rw [hc, Nat.add_sub_cancel] at hreq ⊢
  refine ⟨(ht.kept c hused hn).2, hreq, fun i hi => ?_⟩
  exact ht.bytes hused hn (Nat.lt_of_lt_of_le hi hle)

end PostgresV7.Aset.Debug
