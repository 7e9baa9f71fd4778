import PostgresV7.Ipc.Recycle

/-!
# Creating a segment of shared memory while others do (`ipc.c`)

The header is marked last, so whoever sees the mark sees who made it.
-/

namespace PostgresV7.SysV

open Threads Owned

variable {ι : Type} {pid : ι → Int} {i j : ι} {k k' : Kernel ι} {id : Int} {g : Segment ι} {st st' : State}
  {tracks : Prop} {granted : List Int} {bound fuel size : Nat} {what what' : Segment ι → Prop}

/-- A segment the process created, and what it wrote to the header so far. -/
structure FreshSegment (i : ι) (what : Segment ι → Prop) (id : Int) (k : Kernel ι) : Prop where
  live : k.life i ≠ .dead → ∃ g, k.segments id = .live g ∧ g.owner = some i ∧ what g

/-- What the others leave as it is. -/
def Kept (what : Segment ι → Prop) : Prop :=
  ∀ g g', what g → (segmentKind ι).keeps g g' → what g'

theorem FreshSegment.rely (h : FreshSegment i what id k) (hwhat : Kept what) (hr : Rely i k k') :
    FreshSegment i what id k' where
  live hlive := by
    obtain ⟨g, hg, ho, hw⟩ := h.live fun he => hlive (hr.ages.dead i he)
    obtain ⟨g', hg', ho', hkeeps⟩ := (hr.segments id).own hlive g hg ho
    exact ⟨g', hg', ho', hwhat g g' hw hkeeps⟩

/-- Not yet marked. -/
def Unmarked (g : Segment ι) : Prop := ¬ g.Marked

/-- Not yet marked, but with the process that will mark it. -/
def Signed (pid : ι → Int) (i : ι) (g : Segment ι) : Prop := ¬ g.Marked ∧ g.header .creatorPid = pid i

theorem kept_unmarked : Kept (Unmarked (ι := ι)) := by
  intro g g' h hkeeps hm
  exact h (hkeeps.2.1.symm.trans hm)

theorem kept_signed : Kept (Signed pid i) := by
  rintro g g' ⟨hunmarked, hpid⟩ hkeeps
  exact ⟨kept_unmarked g g' hunmarked hkeeps, hkeeps.2.2.trans hpid⟩

theorem kept_marked : Kept (Segment.Marked (ι := ι)) := fun _ _ h hkeeps => hkeeps.2.1.trans h

/-- A store into the header of a segment of one's own. -/
theorem spec_store (field : HeaderField) (val : Int) (what' : Segment ι → Prop)
    (h : Local i tracks granted [] bound st k) (hfresh : FreshSegment i what id k) (hkept : Kept what')
    (hput : ∀ g, what g → what' (g.put field val) ∧ (segmentKind ι).stamp g (g.put field val) ∧
      ((g.put field val).Marked → g.Marked ∨ (g.put field val).header .creatorPid = pid i)) :
    Spec pid i tracks (fun _ k' => Local i tracks granted [] bound st k' ∧ FreshSegment i what' id k')
      (perform (.store id field val)) k := by
  refine spec_perform ?_ fun _ _ hfail => hfail.elim
  rintro n k' hinv halive ⟨g, hstore⟩
  obtain ⟨g', hg', ho, hw⟩ := hfresh.live (halive.trans_ne (by decide))
  rcases hstore with ⟨hg, rfl⟩ | ⟨hg, -⟩
  · obtain rfl := Slot.live.inj (hg.symm.trans hg')
    have hmove : Move (segmentKind ι) k.life i (k.segments id) (.live (g.put field val)) :=
      hg ▸ .updated ho ho (hput g hw).2.1
    refine ⟨hinv.putSegment fun g' hg' => ?_, .putSegment hmove, fun k'' hr _ => ?_⟩
    · obtain rfl := Option.some.inj hg'
      have hok := hinv.segments id g (by rw [hg]; rfl)
      refine ⟨fun hn => (nomatch hn.symm.trans ho), fun j hj => ⟨(hok.2 j hj).1, fun hm => ?_⟩⟩
      obtain rfl := Option.some.inj (ho.symm.trans hj)
      rcases (hput g hw).2.2 hm with hold | hsigned
      · exact ((hput g hw).2.1.2 hold).2.trans ((hok.2 i hj).2 hold)
      · exact hsigned
    · have hlocal : Local i tracks granted [] bound st _ :=
        h.putSegment hmove fun _ _ _ ht => h.segments ht id g hg ho
      have hafter : FreshSegment i what' id (k.putSegment id (.live (g.put field val))) :=
        ⟨fun _ => ⟨_, putSegment_self .., ho, (hput g hw).1⟩⟩
      exact ⟨hlocal.rely hr, hafter.rely hkept hr⟩
  · rw [hg] at hg'
    cases hg'

/-- What a round comes to. -/
def MemoryPost (i : ι) (tracks : Prop) (granted : List Int) (bound : Nat) (st : State)
    (r : Option Int × State) (k : Kernel ι) : Prop :=
  Local i tracks granted [] bound r.2 k ∧ SameKeys st r.2 ∧ ∀ id, r.1 = some id → FreshSegment i Unmarked id k

theorem memoryPost_none (h : Local i tracks granted [] bound st k) : MemoryPost i tracks granted bound st (none, st) k :=
  ⟨h, ⟨rfl, rfl⟩, fun _ hid => nomatch hid⟩

theorem MemoryPost.of_same {r : Option Int × State} (hsame : SameKeys st st')
    (h : MemoryPost i tracks granted bound st' r k) : MemoryPost i tracks granted bound st r k :=
  ⟨h.1, ⟨h.2.1.1.trans hsame.1, h.2.1.2.trans hsame.2⟩, h.2.2⟩

/-- `internal_ipc_memory_create`: a new segment that is registered, or nothing. -/
theorem spec_internalIpcMemoryCreate {memKey : Nat} (h : Local i tracks granted [] bound st k) :
    Spec pid i tracks (MemoryPost i tracks granted bound st) (internalIpcMemoryCreate st memKey size) k := by
  refine Meets.bind (spec_perform ?_ ?_)
  · rintro shmId k' hinv halive ⟨hunused, -, -, rfl⟩
    have hmove : Move (segmentKind ι) k.life i (k.segments shmId) (.live ⟨memKey, some i, size, fun _ => 0⟩) :=
      hunused ▸ .created rfl
    have hzero : Unmarked (⟨memKey, some i, size, fun _ => 0⟩ : Segment ι) := (by decide : (0 : Int) ≠ PG_SHMEM_MAGIC)
    refine ⟨hinv.putSegment fun g hg => ?_, .putSegment hmove, fun k₁ hr₁ _ => ?_⟩
    · obtain rfl := Option.some.inj hg
      refine ⟨fun ho => (nomatch ho), fun j hj => ?_⟩
      obtain rfl := Option.some.inj hj
      exact ⟨halive.trans_ne (by decide), fun hm => absurd hm hzero⟩
    have hlocal := (h.createSegment hunused rfl).rely hr₁
    have hfresh : FreshSegment i Unmarked shmId k₁ :=
      FreshSegment.rely ⟨fun _ => ⟨_, putSegment_self .., rfl, hzero⟩⟩ kept_unmarked hr₁
    refine Meets.bind (spec_onShmemExit (Meets.bind (spec_quiet ?_ ?_ ?_)))
    · rintro n k' ⟨-, -, rfl⟩
      rfl
    · rintro memAddr - - ⟨-, rfl, -⟩ k₂ hr₂ -
      refine Meets.bind (spec_onShmemExit (meets_pure ⟨?_, ⟨rfl, rfl⟩, fun id hid => ?_⟩))
      · exact (hlocal.rely hr₂).register trivial fun _ hid => nomatch hid
      · obtain rfl := Option.some.inj hid
        exact hfresh.rely kept_unmarked hr₂
    · intro e _ _ k₂ hr₂ _
      exact spec_procExit (hlocal.rely hr₂)
  · intro e _ _ k₁ hr₁ _
    dsimp only
    split
    · exact memoryPost_none (h.rely hr₁)
    · exact spec_procExit (h.rely hr₁)

/-- A segment that `j` has marked. -/
structure LeftoverSegment (j : ι) (id : Int) (k : Kernel ι) : Prop where
  born : k.life j ≠ .unborn
  contents : ∃ g, (k.segments id).contents? = some g ∧ g.owner = some j ∧ g.Marked

theorem LeftoverSegment.rely (h : LeftoverSegment j id k) (hr : Rely i k k') : LeftoverSegment j id k' where
  born := hr.ages.born j h.born
  contents := by
    obtain ⟨g, hg, ho, hm⟩ := h.contents
    obtain ⟨g', hg', hf⟩ := (hr.segments id).contents g hg
    exact ⟨g', hg', hf.1.trans ho, ((hf.2 (by rw [show (segmentKind ι).owner g = some j from ho]; exact nofun)).2 hm).1⟩

/-- A segment is removed only if its creator has ended or was this process before. -/
theorem spec_zapMemory (hpid : ∀ i, 0 < pid i) {shmId memAddr creatorPid : Int}
    (h : Local i tracks granted [] bound st k) (hleft : LeftoverSegment j shmId k)
    (hnames : creatorPid = pid j ∨ creatorPid = -1) :
    Spec pid i tracks (MemoryPost i tracks granted bound st) (zapMemory st size shmId memAddr creatorPid) k := by
  refine Meets.bind ((spec_isExtant hpid (fun k => Local i tracks granted [] bound st k ∧ LeftoverSegment j shmId k)
    ⟨h, hleft⟩ (fun _ _ h hr => ⟨h.1.rely hr, h.2.rely hr⟩) hleft.born hnames).imp ?_)
  rintro extant k₁ ⟨⟨h₁, hleft₁⟩, hend⟩
  have hdetached : ∀ {p : Ipc (Option Int × State)}, (∀ k₂, Rely i k₁ k₂ →
      Spec pid i tracks (MemoryPost i tracks granted bound st) p k₂) →
      Spec pid i tracks (MemoryPost i tracks granted bound st) (perform (.shmdt memAddr) >>= fun _ => p) k₁ := by
    intro p hp
    refine Meets.bind (spec_quiet (fun _ _ h => h) ?_ ?_)
    · intro _ _ _ _ k₂ hr₂ _
      exact hp k₂ hr₂
    · intro _ _ _ k₂ hr₂ _
      exact hp k₂ hr₂
  cases extant with
  | true => exact hdetached fun k₂ hr₂ => memoryPost_none (h₁.rely hr₂)
  | false =>
    refine hdetached fun k₂ hr₂ => Meets.bind (spec_perform ?_ fun _ _ _ k₃ hr₃ _ =>
      memoryPost_none ((h₁.rely hr₂).rely hr₃))
    rintro n k' hinv halive ⟨g, hg, rfl⟩
    obtain ⟨g', hg', ho, -⟩ := (hleft₁.rely hr₂).contents
    rw [hg] at hg'
    obtain rfl := Option.some.inj hg'
    have hend₂ : j = i ∨ k₂.life j = .dead := (hend rfl).imp_right (hr₂.ages.dead j)
    have hmove : Move (segmentKind ι) k₂.life i (k₂.segments shmId) (.removed g) := hg ▸ .removed ho hend₂
    refine ⟨hinv.putSegment fun g' hg' => hinv.segments shmId g' (by rw [hg]; exact hg'), .putSegment hmove,
      fun k₃ hr₃ _ => ?_⟩
    have h₃ : Local i tracks granted [] bound st _ :=
      (h₁.rely hr₂).putSegment hmove fun _ hlive => nomatch hlive
    exact spec_internalIpcMemoryCreate (h₃.rely hr₃)

/-- Where the mark is found, a process of ours has made it. -/
theorem leftoverSegment_of_magic (hinv : Inv pid k) (hg : (k.segments id).contents? = some g) (hm : g.Marked) :
    ∃ j, LeftoverSegment j id k := by
  have hok := hinv.segments id g hg
  cases ho : g.owner with
  | none => exact absurd hm (hok.1 ho)
  | some j => exact ⟨j, (hok.2 j ho).1, g, hg, ho, hm⟩

theorem spec_ipcMemoryCreateRound (hpid : ∀ i, 0 < pid i) (h : Local i tracks granted [] bound st k) :
    Spec pid i tracks (MemoryPost i tracks granted bound st) (ipcMemoryCreateRound st size) k := by
  refine Meets.bind ((spec_internalIpcMemoryCreate h).imp ?_)
  rintro ⟨memAddr?, st₁⟩ k₁ ⟨h₁, hkeys, hfresh⟩
  cases memAddr? with
  | some memAddr => exact ⟨h₁, hkeys, hfresh⟩
  | none =>
    have hnone : ∀ {k'}, Local i tracks granted [] bound st₁ k' → MemoryPost i tracks granted bound st (none, st₁) k' :=
      fun h' => (memoryPost_none h').of_same hkeys
    refine Meets.bind (spec_quiet ?_ ?_ fun _ _ _ k₂ hr₂ _ => hnone (h₁.rely hr₂))
    · rintro shmId k' ⟨-, -, -, -, rfl⟩
      rfl
    rintro shmId - - - k₂ hr₂ -
    have h₂ := h₁.rely hr₂
    refine Meets.bind (spec_quiet ?_ ?_ fun _ _ _ k₃ hr₃ _ => hnone (h₂.rely hr₃))
    · rintro n k' ⟨-, -, rfl⟩
      rfl
    rintro memAddr - - ⟨-, rfl, -⟩ k₃ hr₃ -
    have h₃ := h₂.rely hr₃
    refine Meets.bind (spec_quiet ?_ ?_ fun _ _ hfail => hfail.elim)
    · rintro n k' ⟨-, -, -, rfl⟩
      rfl
    rintro magic hinv - ⟨g, hg, rfl, -⟩ k₄ hr₄ -
    have h₄ := h₃.rely hr₄
    by_cases hm : g.header .magic = PG_SHMEM_MAGIC
    case neg =>
      rw [returned, if_pos hm]
      refine Meets.bind (spec_quiet (fun _ _ h => h) ?_ ?_)
      · intro _ _ _ _ k₅ hr₅ _
        exact hnone (h₄.rely hr₅)
      · intro _ _ _ k₅ hr₅ _
        exact hnone (h₄.rely hr₅)
    rw [returned, if_neg (not_not.mpr hm)]
    obtain ⟨j, hleft⟩ := leftoverSegment_of_magic hinv hg hm
    replace hleft := hleft.rely hr₄
    refine Meets.bind (spec_quiet ?_ ?_ fun _ _ hfail => hfail.elim)
    · rintro n k' ⟨-, -, -, rfl⟩
      rfl
    rintro creatorPid hinv - ⟨g, hg, rfl, -⟩ k₅ hr₅ -
    obtain ⟨g', hg', ho, hm'⟩ := hleft.contents
    obtain rfl := Option.some.inj (hg.symm.trans hg')
    have hnames := ((hinv.segments memAddr g hg).2 j ho).2 hm'
    exact (spec_zapMemory hpid (h₄.rely hr₅) (hleft.rely hr₅) (.inl hnames)).imp fun _ _ hp => hp.of_same hkeys

theorem spec_ipcMemoryCreateLoop (hpid : ∀ i, 0 < pid i) (h : Local i tracks granted [] bound st k) :
    Spec pid i tracks (fun r k' => Local i tracks granted [] bound r.2 k' ∧ r.2.nextSemaID = st.nextSemaID ∧
        FreshSegment i Unmarked r.1 k') (ipcMemoryCreateLoop size fuel st) k := by
  induction fuel generalizing st k with
  | zero => exact meets_stop trivial
  | succ fuel ih =>
    have h₀ : Local i tracks granted [] bound { st with nextShmemSegID := (st.nextShmemSegID + 1) % 2 ^ 32 } k :=
      h.of_list rfl
    refine Meets.bind ((spec_ipcMemoryCreateRound hpid h₀).imp ?_)
    rintro ⟨memAddr?, st₁⟩ k₁ ⟨h₁, hkeys, hfresh⟩
    cases memAddr? with
    | some memAddr => exact meets_pure ⟨h₁, hkeys.1, hfresh memAddr rfl⟩
    | none =>
      refine (ih h₁).imp ?_
      rintro r k' ⟨h', hkey', hfresh'⟩
      exact ⟨h', hkey'.trans hkeys.1, hfresh'⟩

/-- `ipc_memory_create` marks the segment of its own. -/
theorem spec_ipcMemoryCreate (hpid : ∀ i, 0 < pid i) {makePrivate : Bool}
    (h : Local i tracks granted [] bound st k) :
    Spec pid i tracks (fun r k' => Local i tracks granted [] bound r.2 k' ∧ r.2.nextSemaID = st.nextSemaID ∧
        ∀ id, r.1 = some id → FreshSegment i Segment.Marked id k') (ipcMemoryCreate fuel st size makePrivate) k := by
  unfold ipcMemoryCreate
  split
  · exact meets_stop trivial
  split
  · refine Meets.bind (spec_onShmemExit (meets_pure ⟨?_, rfl, fun _ hid => nomatch hid⟩))
    have hreg : Registered i k .privateMemoryDelete := trivial
    exact (h.register hreg fun _ hid => nomatch hid).of_list rfl
  refine Meets.bind ((spec_ipcMemoryCreateLoop hpid h).imp ?_)
  rintro ⟨memAddr, st₁⟩ k₁ ⟨h₁, hkey, hfresh⟩
  refine Meets.bind (spec_quiet ?_ ?_ fun _ _ hfail => hfail.elim)
  · rintro n k' ⟨-, rfl⟩
    rfl
  rintro self - - ⟨rfl, -⟩ k₂ hr₂ -
  refine Meets.bind ((spec_store .creatorPid (pid i) (Signed pid i) (h₁.rely hr₂) (hfresh.rely kept_unmarked hr₂) kept_signed
    fun g hw => ⟨⟨hw, rfl⟩, ⟨rfl, fun hm => absurd hm hw⟩, fun hm => absurd hm hw⟩).imp ?_)
  rintro - k₃ ⟨h₃, hfresh₃⟩
  refine Meets.bind ((spec_store .magic PG_SHMEM_MAGIC Segment.Marked h₃ hfresh₃ kept_marked
    fun g hw => ⟨rfl, ⟨rfl, fun hm => absurd hm hw.1⟩, fun _ => .inr hw.2⟩).imp ?_)
  rintro - k₄ ⟨h₄, hfresh₄⟩
  refine Meets.bind ((spec_store .totalSize size Segment.Marked h₄ hfresh₄ kept_marked
    fun g hw => ⟨hw, ⟨rfl, fun hm => ⟨hm, rfl⟩⟩, fun hm => .inl hm⟩).imp ?_)
  rintro - k₅ ⟨h₅, hfresh₅⟩
  refine Meets.bind ((spec_store .freeOffset (maxAlign SIZEOF_PG_SHMEM_HEADER) Segment.Marked h₅ hfresh₅ kept_marked
    fun g hw => ⟨hw, ⟨rfl, fun hm => ⟨hm, rfl⟩⟩, fun hm => .inl hm⟩).imp ?_)
  rintro - k₆ ⟨h₆, hfresh₆⟩
  refine meets_pure ⟨h₆, hkey, fun id hid => ?_⟩
  obtain rfl := Option.some.inj hid
  exact hfresh₆

end PostgresV7.SysV
