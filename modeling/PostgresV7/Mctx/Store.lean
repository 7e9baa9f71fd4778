import PostgresV7.Lib.Bytes
import PostgresV7.Lib.Chunks
import PostgresV7.Mctx.Contains

/-!
# What contexts are for (`mctx.c`, `aset.c`)

Everything the clients of all contexts have, as a store of chunks: a call does to it what it is
for, and nothing else.
-/

namespace PostgresV7.Mctx.Debug

open Regions Outcomes Runs ByteMem Chunks
open Aset (Layout New blockRegion ALLOC_CHUNK_HDR_SZ)
open Aset.Debug (Image Libc Untouched Elsewhere Requested Turns bumpLibc bareImage)

/-! ## The store -/

def Contexts.chunk (s : Contexts) (x : Live) : Chunk Nat := ⟨x.owner, x.pointer, slice s.bytes x.pointer x.size⟩

/-- The chunks somebody has, with what is in them. -/
def Contexts.store (s : Contexts) : Store Nat := s.live.map s.chunk

/-- What an event means to the store. -/
def Event.meaning : Event → Chunks.Event Nat
  | .create _ _ _ _ _ => .other
  | .alloc context size pointer => .alloc context size pointer
  | .free pointer => .free pointer
  | .realloc pointer size newPointer => .realloc pointer size newPointer
  | .reset context => .clear context
  | .delete context => .clear context
  | .write context => .write context
  | .elsewhere => .other

/-- A step of the store. -/
def StoreStep (store : Store Nat) (ev : Event) (store' : Store Nat) : Prop :=
  Chunks.Step store ev.meaning store'

variable {M : Libc} {s s' s₁ : Contexts} {Ls : Nat → Layout} {L' : Layout} {i : Image} {a c size : Nat} {x y : Live}
  {gone : List Nat} {ev : Event}

/-! ## Bytes that stay -/

/-- The bytes of a live chunk are as they were. -/
def SameBytes (s s' : Contexts) (x : Live) : Prop := slice s'.bytes x.pointer x.size = slice s.bytes x.pointer x.size

theorem sameBytes_of (h : ∀ k, k < x.size → s'.bytes (x.pointer + k) = s.bytes (x.pointer + k)) :
    SameBytes s s' x :=
  slice_congr h

theorem chunk_eq_of_same (h : SameBytes s s' x) : s'.chunk x = s.chunk x := by
  unfold Contexts.chunk
  rw [show slice s'.bytes x.pointer x.size = _ from h]

/-- The store of those who are left. -/
theorem store_with {live : List Live} (h : ∀ x ∈ live, SameBytes s s' x) :
    Contexts.store { s' with live := live } = live.map s.chunk :=
  List.map_congr_left fun x hx => chunk_eq_of_same (h x hx)

/-- Everybody has what they had. -/
structure SameStore (s s' : Contexts) : Prop where
  live : s'.live = s.live
  bytes : ∀ x ∈ s.live, SameBytes s s' x

theorem SameStore.store_eq (h : SameStore s s') : s'.store = s.store := by
  unfold Contexts.store
  rw [h.live]
  exact List.map_congr_left fun x hx => chunk_eq_of_same (h.bytes x hx)

theorem store_without (s : Contexts) (live : List Live) (pointer : Nat) :
    (Debug.without live pointer).map s.chunk = Chunks.without (live.map s.chunk) pointer := by
  unfold Debug.without Chunks.without
  rw [List.filter_map]
  rfl

theorem store_outside (s : Contexts) (live : List Live) (context : Nat) :
    (Debug.outside live context).map s.chunk = Chunks.outside (live.map s.chunk) context := by
  unfold Debug.outside Chunks.outside
  rw [List.filter_map]
  rfl

/-- The place of a live chunk. -/
def Live.region (x : Live) : Region := ⟨x.pointer, x.size⟩

theorem region_chunk (s : Contexts) (x : Live) : (s.chunk x).region = x.region := by
  unfold Chunk.region Contexts.chunk Live.region
  rw [length_slice]

namespace Consistent

/-- A live chunk lies in a block of its context. -/
theorem held (h : Consistent s Ls) (hx : x ∈ s.live) : ∃ b ∈ (Ls x.owner).blocks,
    b + 64 ≤ x.pointer ∧ x.pointer + x.size ≤ s.mem.endptr b := by
  have halive := h.alive x hx
  have hsane := h.sane x.owner (h.owned x hx)
  obtain ⟨b, hb, hm⟩ := halive.used.1
  obtain ⟨hlow, hend, hfree⟩ := hsane.marked.shape.chunk_in hb hm
  have hle := (hsane.marked.used x.chunk halive.used List.not_mem_nil).le
  have hp := halive.pointer
  have hreq : s.requested x.chunk = x.size := halive.requested
  change s.requested x.chunk ≤ s.mem.size x.chunk at hle
  change x.chunk + 32 + s.mem.size x.chunk ≤ _ at hend
  change _ ≤ s.mem.endptr b at hfree
  unfold ALLOC_CHUNK_HDR_SZ at hp
  exact ⟨b, hb, by omega, by omega⟩

/-- Chunks of different contexts keep apart. -/
theorem apart_owners (h : Consistent s Ls) (hx : x ∈ s.live) (hy : y ∈ s.live) (hne : x.owner ≠ y.owner) :
    x.region.Apart y.region := by
  obtain ⟨b, hb, hlow, hend⟩ := h.held hx
  obtain ⟨b', hb', hlow', hend'⟩ := h.held hy
  have hap := h.apart x.owner (h.owned x hx) y.owner (h.owned y hy) hne b hb b' hb'
  unfold blockRegion Region.Apart at hap
  unfold Live.region Region.Apart
  dsimp only at hap ⊢
  omega

/-- What leaves the blocks of the owner alone leaves its chunks alone. -/
theorem sameBytes_leaves (h : Consistent s Ls) (hl : Leaves s Ls a i) (hx : x ∈ s.live) (hne : x.owner ≠ a) :
    SameBytes s (s.put a i) x := by
  obtain ⟨b, hb, hlow, hend⟩ := h.held hx
  refine sameBytes_of fun k hk => ?_
  exact ((hl x.owner (h.owned x hx) hne b hb).2 _ (Aset.Debug.holds_blockRegion (by omega) (by omega))).bytes

theorem sameBytes_turn (h : Consistent s Ls) (ha : a ∈ s.contexts) (ht : Turns gone (s.image a) (Ls a) i L')
    (hx : x ∈ s.live) (hgone : x.owner = a → x.chunk ∉ gone) : SameBytes s (s.put a i) x := by
  by_cases hne : x.owner = a
  · subst hne
    have halive := h.alive x hx
    have hle := ((h.sane _ ha).marked.used x.chunk halive.used List.not_mem_nil).le
    have hreq : s.requested x.chunk = x.size := halive.requested
    change s.requested x.chunk ≤ s.mem.size x.chunk at hle
    refine sameBytes_of fun k hk => ?_
    rw [halive.pointer]
    exact ht.bytes halive.used (hgone rfl) (Nat.lt_of_lt_of_le hk (by
      show x.size ≤ s.mem.size x.chunk
      omega))
  · exact h.sameBytes_leaves (h.leaves_of_turns ha ht) hx hne

/-- What is handed out is nobody's yet. -/
theorem apart_new (h : Consistent s Ls) (ha : a ∈ s.contexts) (hsane : Aset.Debug.Sane i L')
    (ht : Turns gone (s.image a) (Ls a) i L') (hnew : New gone (Ls a) i.st L' c size) (hy : y ∈ s.live)
    (hgone : y.owner = a → y.chunk ∉ gone) :
    Region.Apart ⟨c + ALLOC_CHUNK_HDR_SZ, size⟩ y.region := by
  obtain ⟨hused, hother, hsize⟩ := hnew
  unfold Live.region Region.Apart ALLOC_CHUNK_HDR_SZ
  dsimp only
  by_cases hne : y.owner = a
  · subst hne
    have halive := h.alive y hy
    obtain ⟨hused', hsame⟩ := ht.kept y.chunk halive.used (hgone rfl)
    have hap := hsane.marked.shape.chunks_apart hused.1 hused'.1 (hother _ halive.used (hgone rfl)).symm
    have hle := ((h.sane _ ha).marked.used y.chunk halive.used List.not_mem_nil).le
    have hreq : (s.image y.owner).requested y.chunk = y.size := halive.requested
    have hp := halive.pointer
    unfold ALLOC_CHUNK_HDR_SZ at hp
    omega
  · obtain ⟨b, hb, hlow, hend⟩ := h.held hy
    obtain ⟨b', hb', hm⟩ := hused.1
    have hin := hsane.marked.shape.chunk_in hb' hm
    have hap := (ht.foreign _ (h.foreign ha (h.owned y hy) hne hb)).2.2 b' hb'
    unfold blockRegion Region.Apart at hap
    dsimp only at hap
    omega

/-! ## The calls -/

/-- A call that takes back the chunks in `gone` leaves the bytes of the rest. -/
theorem alloc_store (h : Consistent s Ls) (a size : Nat) :
    Ends (fun e => SameStore s e.2) (memoryContextAlloc M s a size) fun r =>
      (∀ x ∈ s.live, SameBytes s r.2 x) ∧ ∀ y ∈ s.live, Region.Apart ⟨r.1, size⟩ y.region := by
  unfold memoryContextAlloc
  split
  · exact ⟨rfl, fun _ _ => rfl⟩
  rename_i hvalid
  split
  · exact ⟨rfl, fun _ _ => rfl⟩
  rename_i hsize
  have ha := mem_of_isValid (not_not.mp hvalid)
  have hv := valid_iff.mp (not_not.mp hsize)
  refine Ends.bind (ends_callAset (Aset.Debug.allocSetAlloc_spec (M := M) (h.sane a ha) hv.1 hv.2) ?_) ?_
  · intro e i ⟨_, L', hsane', ht⟩
    exact ⟨rfl, fun x hx => h.sameBytes_turn ha ht hx fun _ => List.not_mem_nil⟩
  · intro r ⟨L', c, hp, hsane', ht, hnew, _⟩
    refine ⟨fun x hx => h.sameBytes_turn ha ht hx fun _ => List.not_mem_nil, fun y hy => ?_⟩
    rw [hp]
    exact h.apart_new ha hsane' ht hnew hy fun _ => List.not_mem_nil

theorem pfree_store (h : Consistent s Ls) (hx : x ∈ s.live) (hrun : Debug.pfree s x.pointer = .ok s') :
    ∀ y ∈ Debug.without s.live x.pointer, SameBytes s s' y := by
  have haccepted := h.accepted hx
  have halive := h.alive x hx
  obtain ⟨i, L', hfree, -, ht⟩ := Aset.Debug.allocSetFree_spec (h.sane x.owner (h.owned x hx)) halive.used
  rw [← halive.pointer] at hfree
  unfold Debug.pfree at hrun
  dsimp only at hrun
  rw [haccepted.context, if_neg haccepted.guard, hfree] at hrun
  obtain rfl := Except.ok.inj hrun
  intro y hy
  obtain ⟨hm, hne⟩ := h.chunk_ne hx hy
  exact h.sameBytes_turn (h.owned x hx) ht hm fun _ => hne

theorem repalloc_store (h : Consistent s Ls) (hx : x ∈ s.live) (size : Nat) :
    Ends (fun e => SameStore s e.2) (Debug.repalloc M s x.pointer size) fun r =>
      (∀ y ∈ Debug.without s.live x.pointer, SameBytes s r.2 y ∧ Region.Apart ⟨r.1, size⟩ y.region) ∧
        ∀ k < min x.size size, r.2.bytes (r.1 + k) = s.bytes (x.pointer + k) := by
  have haccepted := h.accepted hx
  have howner := h.owned x hx
  have halive := h.alive x hx
  unfold Debug.repalloc
  dsimp only
  rw [haccepted.context, if_neg haccepted.guard]
  split
  · exact ⟨rfl, fun _ _ => rfl⟩
  rename_i hsize
  have hv := valid_iff.mp (not_not.mp hsize)
  have hspec := Aset.Debug.allocSetRealloc_spec (M := M) (h.sane x.owner howner) halive.used hv.1 hv.2
  rw [← halive.pointer] at hspec
  refine Ends.bind (ends_callAset hspec ?_) ?_
  · intro e i ⟨_, L', hsane', ht⟩
    exact ⟨rfl, fun y hy => h.sameBytes_turn howner ht hy fun _ => List.not_mem_nil⟩
  · intro r ⟨L', c, hp, hsane', ht, hnew, _, hbytes⟩
    refine ⟨fun y hy => ?_, fun k hk => ?_⟩
    · obtain ⟨hm, hne⟩ := h.chunk_ne hx hy
      rw [hp]
      exact ⟨h.sameBytes_turn howner ht hm fun _ => hne, h.apart_new howner hsane' ht hnew hm fun _ => hne⟩
    · rw [hp, halive.pointer]
      exact hbytes k (halive.requested ▸ hk)

theorem resetMethod_store (h : Consistent s Ls) (ha : a ∈ s.contexts) (hrun : Debug.resetMethod s a = .ok s') :
    ∀ y ∈ Debug.outside s.live a, SameBytes s s' y := by
  obtain ⟨i, hreset, -, ht, -⟩ := Aset.Debug.allocSetReset_spec (h.sane a ha)
  unfold Debug.resetMethod at hrun
  rw [hreset] at hrun
  obtain rfl := Except.ok.inj hrun
  intro y hy
  obtain ⟨hm, -, hne⟩ := h.mem_outside hy
  exact h.sameBytes_turn ha ht hm fun heq => absurd heq hne

theorem deleteMethod_store (h : Consistent s Ls) (ha : a ∈ s.contexts) (hrun : Debug.deleteMethod s a = .ok s') :
    ∀ y ∈ Debug.outside s.live a, SameBytes s s' y := by
  obtain ⟨i, hdelete, hd⟩ := Aset.Debug.allocSetDelete_spec (h.sane a ha)
  unfold Debug.deleteMethod at hrun
  rw [hdelete] at hrun
  obtain rfl := Except.ok.inj hrun
  intro y hy
  obtain ⟨hm, -, hne⟩ := h.mem_outside hy
  refine h.sameBytes_leaves (fun a' ha' hne b hb => ?_) hm hne
  have hforeign := h.foreign ha ha' hne hb
  exact ⟨hd.foreign _ hforeign, hd.untouched _ hforeign⟩

theorem create_store (h : Consistent s Ls) (ha : a ∉ s.contexts) {minContextSize initBlockSize maxBlockSize : Nat}
    (hmin : minContextSize + 16 ≤ 2 ^ 64) :
    Ends (fun e => SameStore s e.2) (allocSetContextCreate M s a minContextSize initBlockSize maxBlockSize)
      (SameStore s) := by
  have hnew : ∀ x ∈ s.live, x.owner ≠ a := fun x hx heq => ha (heq ▸ h.owned x hx)
  unfold allocSetContextCreate
  cases hcreate : Aset.Debug.allocSetContextCreate M (s.image a) a minContextSize initBlockSize maxBlockSize with
  | error e =>
    obtain ⟨heap, hheap, -⟩ := Aset.Debug.allocSetContextCreate_refused hcreate
    refine ⟨rfl, fun x _ => sameBytes_of fun k _ => ?_⟩
    show e.2.bytes _ = _
    rw [hheap]
    rfl
  | ok i =>
    have hc := Aset.Debug.allocSetContextCreate_spec hmin hcreate
    exact ⟨rfl, fun x hx => h.sameBytes_leaves
      (h.leaves_of_regions fun r hr => ⟨hc.regions r hr, hc.untouched r hr⟩) hx (hnew x hx)⟩

/-- A context writes to chunks of its own. -/
theorem write_store (h : Consistent s Ls) {bytes : Nat → UInt8}
    (hw : ∀ p, ¬ Requested (s.liveOf a) p → bytes p = s.bytes p) (hx : x ∈ s.live) (hne : x.owner ≠ a) :
    SameBytes s { s with bytes := bytes } x := by
  refine sameBytes_of fun k hk => hw _ ?_
  rintro ⟨z, hz, hlow, hend⟩
  obtain ⟨y, hy, rfl⟩ := List.mem_map.mp hz
  obtain ⟨hm, howner⟩ := List.mem_filter.mp hy
  have hap := h.apart_owners hm hx ((of_decide_eq_true howner).trans_ne hne.symm)
  exact hap.ne (a := x.pointer + k) (b := x.pointer + k) ⟨hlow, hend⟩
    ⟨Nat.le_add_right _ _, Nat.add_lt_add_left hk _⟩ rfl

theorem elsewhere_store (h : Consistent s Ls) (he : ∀ a ∈ s.contexts, Elsewhere (s.image a) (s'.image a))
    (hx : x ∈ s.live) : SameBytes s s' x := by
  obtain ⟨b, hb, hlow, hend⟩ := h.held hx
  have howner := h.owned x hx
  refine sameBytes_of fun k hk => ((he x.owner howner).untouched _ ?_).bytes
  exact ⟨_, (h.sane _ howner).marked.shape.linked, b, hb, by omega, by
    show _ < s.mem.endptr b
    omega⟩

end Consistent

/-! ## Over a run -/

theorem step_store (h : Ordered s) (hs : Step M s ev s') : StoreStep s.store ev s'.store := by
  obtain ⟨Ls, h⟩ := h
  cases hs with
  | create _ hnode hmin hrun =>
    rw [((h.create_store hnode hmin).of_ok hrun).store_eq]
    exact .other
  | createFails _ hnode hmin hrun =>
    rw [((h.create_store hnode hmin).of_error hrun).store_eq]
    exact .other
  | @alloc s₁ context size p hrun =>
    obtain ⟨hbytes, hapart⟩ := (h.alloc_store context size).of_ok hrun
    have hstore : Contexts.store { s₁ with live := ⟨context, p, size, size⟩ :: s.live } =
        s₁.chunk ⟨context, p, size, size⟩ :: s.store := congrArg _ (store_with hbytes)
    rw [hstore]
    refine .alloc (x := s₁.chunk ⟨context, p, size, size⟩) rfl (length_slice ..) fun y hy => ?_
    obtain ⟨z, hz, rfl⟩ := List.mem_map.mp hy
    rw [region_chunk, region_chunk]
    exact hapart z hz
  | allocFails hrun =>
    rw [((h.alloc_store _ _).of_error hrun).store_eq]
    exact .refused
  | @free s₁ x hx hrun =>
    rw [store_with (h.pfree_store hx hrun), store_without]
    exact .free (List.mem_map_of_mem hx)
  | @realloc s₁ x size p hx hrun =>
    obtain ⟨hrest, hprefix⟩ := (h.repalloc_store hx size).of_ok hrun
    have hstore : Contexts.store
        { s₁ with live := ⟨x.owner, p, size, max x.peak size⟩ :: Debug.without s.live x.pointer } =
        s₁.chunk ⟨x.owner, p, size, max x.peak size⟩ :: Chunks.without s.store x.pointer := by
      refine congrArg _ ((store_with fun y hy => (hrest y hy).1).trans ?_)
      exact store_without s s.live x.pointer
    rw [hstore]
    refine .realloc (y := s₁.chunk ⟨x.owner, p, size, max x.peak size⟩) (List.mem_map_of_mem hx) rfl
      (length_slice ..) ?_ fun y hy => ?_
    · simp only [Contexts.chunk, length_slice]
      refine List.ext_getElem (by simp [Nat.min_comm]) fun k hk _ => ?_
      rw [List.length_take, length_slice] at hk
      rw [List.getElem_take, List.getElem_take, getElem_slice, getElem_slice]
      exact hprefix k hk
    · have hleft : y ∈ (Debug.without s.live x.pointer).map s.chunk := (store_without s s.live x.pointer).symm ▸ hy
      obtain ⟨z, hz, rfl⟩ := List.mem_map.mp hleft
      rw [region_chunk, region_chunk]
      exact (hrest z hz).2
  | reallocFails hx hrun =>
    rw [((h.repalloc_store hx _).of_error hrun).store_eq]
    exact .reallocRefused (List.mem_map_of_mem hx)
  | reset ha hrun =>
    rw [store_with (h.resetMethod_store ha hrun), store_outside]
    exact .clear
  | delete ha hrun =>
    have hstore := store_with (h.deleteMethod_store ha hrun)
    rw [store_outside] at hstore
    exact hstore ▸ .clear
  | write ha hw =>
    refine .write (List.forall₂_map_left_iff.mpr (List.forall₂_map_right_iff.mpr
      (List.forall₂_same.mpr fun x hx => ⟨rfl, ?_, fun hne => ?_⟩)))
    · rw [region_chunk, region_chunk]
    · exact chunk_eq_of_same (h.write_store hw hx hne)
  | elsewhere _ _ hlive he =>
    rw [SameStore.store_eq ⟨hlive, fun x hx => h.elsewhere_store he hx⟩]
    exact .other

theorem run_store {l : List Event} (h : Ordered s) (hrun : Run (Step M) s l s') :
    Run Chunks.Step s.store (l.map Event.meaning) s'.store := by
  obtain ⟨store, hsteps, rfl, -⟩ := hrun.simulation (fun s store => s.store = store ∧ Ordered s) StoreStep
    (fun t _ ev t' ht hs => ⟨t'.store, ht.1 ▸ step_store ht.2 hs, rfl, ht.2.step hs⟩) ⟨rfl, h⟩
  exact hsteps.map Event.meaning

/-- Two contexts, and a chunk of the first. -/
theorem twoContexts_run : ∃ s, Run (Step bumpLibc) (Contexts.start bareImage)
      [.create 0x700000000000 0 8192 8192 true, .create 0x700000001000 0 8192 8192 true,
        .alloc 0x700000000000 3 (some 80)] s ∧
    s.live = [⟨0x700000000000, 80, 3, 3⟩] ∧ s.contexts = [0x700000001000, 0x700000000000] :=
  ⟨_, .cons (.create (by decide) (by decide) (by decide) rfl)
    (.cons (.create (by decide) (by decide) (by decide) rfl) (.cons (.alloc rfl) (.nil _))), rfl, rfl⟩

end PostgresV7.Mctx.Debug
