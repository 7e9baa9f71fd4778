import PostgresV7.Ipc.Local

/-!
# Creating a semaphore set while others do (`ipc.c`)

What each function guarantees whatever the other processes do between its calls.
-/

namespace PostgresV7.SysV

open Threads Owned

variable {ι : Type} {pid : ι → Int} {i j : ι} {k k' : Kernel ι} {id : Int} {q : SemSet ι} {st st' : State}
  {tracks : Prop} {granted extra extra' : List Int} {bound : Nat} {callback : Callback} {α : Type}

/-- A process that has left has left nothing behind. -/
def Stops (i : ι) (tracks : Prop) : Halt → Kernel ι → Prop
  | .exited _, k => tracks → (∀ id q, k.sets id = .live q → q.owner ≠ some i) ∧
      ∀ id g, k.segments id = .live g → g.owner ≠ some i
  | _, _ => True

/-- The program keeps to the protocol and ends with the postcondition. -/
abbrev Spec (pid : ι → Int) (i : ι) (tracks : Prop) (post : α → Kernel ι → Prop) (p : Ipc α) (k : Kernel ι) : Prop :=
  Meets (Kernel.exec pid) (protocol pid) i (Stops i tracks) post p k

theorem spec_perform {c : Call} {post : Answer → Kernel ι → Prop}
    (hok : ∀ n k', Inv pid k → k.life i = .alive → k.does pid i n k' c → Inv pid k' ∧ Guar i k k' ∧
      ∀ k'', Rely i k' k'' → Inv pid k'' → post (.ok n) k'')
    (herror : ∀ e, k.life i = .alive → k.mayFail pid i e c →
      ∀ k'', Rely i k k'' → Inv pid k'' → post (.error e) k'') :
    Spec pid i tracks post (perform c) k := by
  apply meets_perform
  rintro hinv (e | n) k' ⟨halive, hexec⟩
  · obtain ⟨hfail, rfl⟩ := hexec
    exact ⟨⟨hinv, .refl i _⟩, herror e halive hfail⟩
  · obtain ⟨hinv', hguar, hpost⟩ := hok n k' hinv halive hexec
    exact ⟨⟨hinv', hguar⟩, hpost⟩

/-- A call that changes nothing. -/
theorem spec_quiet {c : Call} {post : Answer → Kernel ι → Prop}
    (hsame : ∀ n k', k.does pid i n k' c → k' = k)
    (hok : ∀ n, Inv pid k → k.life i = .alive → k.does pid i n k c → ∀ k', Rely i k k' → Inv pid k' → post (.ok n) k')
    (herror : ∀ e, k.life i = .alive → k.mayFail pid i e c → ∀ k', Rely i k k' → Inv pid k' → post (.error e) k') :
    Spec pid i tracks post (perform c) k := by
  refine spec_perform (fun n k' hinv halive hdoes => ?_) herror
  obtain rfl := hsame n k' hdoes
  exact ⟨hinv, .refl i _, hok n hinv halive hdoes⟩

/-! ## Leaving -/

/-- What the callback is about is gone. -/
def Done (k : Kernel ι) : Callback → Prop
  | .callbackSemaphoreKill semId => ∀ q, k.sets semId ≠ .live q
  | .ipcMemoryDelete shmId => ∀ g, k.segments shmId ≠ .live g
  | _ => True

theorem Local.drop {list : List Callback}
    (h : Local i tracks granted extra bound { st with onShmemExitList := callback :: list } k) (hdone : Done k callback) :
    Local i tracks granted extra bound { st with onShmemExitList := list } k where
  registered callback' hc := h.registered callback' (List.mem_cons_of_mem _ hc)
  sets ht id q hq ho := by
    refine (h.sets ht id q hq ho).imp_left fun hmem => ?_
    rcases List.mem_cons.mp hmem with rfl | hmem
    · exact absurd hq (hdone q)
    · exact hmem
  segments ht id g hg ho := by
    rcases List.mem_cons.mp (h.segments ht id g hg ho) with rfl | hmem
    · exact absurd hg (hdone g)
    · exact hmem
  granted := h.granted

theorem spec_run {list : List Callback}
    (h : Local i tracks [] extra bound { st with onShmemExitList := callback :: list } k) :
    Spec pid i tracks (fun _ => Local i tracks [] extra bound { st with onShmemExitList := list }) callback.run k := by
  have hreg := h.registered callback List.mem_cons_self
  cases callback with
  | callbackSemaphoreKill semId =>
    obtain ⟨q, hq, ho⟩ := hreg
    refine Meets.bind (spec_perform ?_ ?_)
    · rintro n k' hinv - ⟨q', hq', rfl⟩
      rw [hq'] at hq
      obtain rfl := Option.some.inj hq
      have hmove : Move (semKind ι) k.life i (k.sets semId) (.removed q') := hq' ▸ .removed ho (.inl rfl)
      refine ⟨hinv.putSet fun q hq => hinv.sets semId q (by rw [hq']; exact hq), .putSet hmove, fun k'' hr _ => ?_⟩
      have hafter : Local i tracks [] extra bound _ (k.putSet semId (.removed q')) :=
        h.putSet hmove (fun _ hid => nomatch hid) (fun _ hlive => nomatch hlive) fun _ hid _ => hid
      exact (hafter.drop fun q hq => by rw [putSet_self] at hq; cases hq).rely hr
    · intro e _ hfail k'' hr _
      refine (h.drop fun q' hq' => hfail q' hq' ?_).rely hr
      rw [hq'] at hq
      rwa [Option.some.inj hq]
  | ipcMemoryDetach shmAddr =>
    refine Meets.bind (spec_quiet (fun _ _ h => h) (fun _ _ _ _ k'' hr _ => ?_) fun _ _ _ k'' hr _ => ?_)
    · exact (h.drop trivial).rely hr
    · exact (h.drop trivial).rely hr
  | ipcMemoryDelete shmId =>
    obtain ⟨g, hg, ho⟩ := hreg
    refine Meets.bind (spec_perform ?_ ?_)
    · rintro n k' hinv - ⟨g', hg', rfl⟩
      rw [hg'] at hg
      obtain rfl := Option.some.inj hg
      have hmove : Move (segmentKind ι) k.life i (k.segments shmId) (.removed g') := hg' ▸ .removed ho (.inl rfl)
      refine ⟨hinv.putSegment fun g hg => hinv.segments shmId g (by rw [hg']; exact hg), .putSegment hmove,
        fun k'' hr _ => ?_⟩
      have hafter : Local i tracks [] extra bound _ (k.putSegment shmId (.removed g')) :=
        h.putSegment hmove fun _ hlive => nomatch hlive
      exact (hafter.drop fun g hg => by rw [putSegment_self] at hg; cases hg).rely hr
    · intro e _ hfail k'' hr _
      refine (h.drop fun g' hg' => hfail g' hg' ?_).rely hr
      rw [hg'] at hg
      rwa [Option.some.inj hg]
  | privateMemoryDelete => exact h.drop trivial

theorem spec_runCallbacks {list : List Callback}
    (h : Local i tracks [] extra bound { st with onShmemExitList := list } k) :
    Spec pid i tracks (fun _ => Local i tracks [] extra bound { st with onShmemExitList := [] })
      (runCallbacks list) k := by
  induction list generalizing k with
  | nil => exact h
  | cons callback list ih => exact Meets.bind ((spec_run h).imp fun _ _ h => ih h)

theorem spec_shmemExit (h : Local i tracks granted extra bound st k) :
    Spec pid i tracks (fun st' k' => Local i tracks [] extra bound st' k' ∧
      st' = { st with onShmemExitList := [] }) (shmemExit st) k :=
  Meets.bind ((spec_runCallbacks h.ungranted).imp fun _ _ h => ⟨h, rfl⟩)

/-- Leaving, a process removes all that it created. -/
theorem spec_procExit {code : Int} {post : α → Kernel ι → Prop} (h : Local i tracks granted [] bound st k) :
    Spec pid i tracks post (procExit st code) k := by
  refine Meets.bind ((spec_shmemExit h).imp ?_)
  rintro _ k' ⟨h', rfl⟩
  refine meets_stop fun ht => ⟨fun id q hq ho => ?_, fun id g hg ho => ?_⟩
  · rcases h'.sets ht id q hq ho with hmem | hmem
    · cases hmem
    · cases hmem
  · cases h'.segments ht id g hg ho

theorem spec_onShmemExit {post : State → Kernel ι → Prop}
    (h : post { st with onShmemExitList := callback :: st.onShmemExitList } k) :
    Spec pid i tracks post (onShmemExit st callback) k := by
  unfold onShmemExit
  split
  · exact meets_stop trivial
  · exact h

/-! ## A new set -/

/-- The key counters are not touched. -/
def SameKeys (st st' : State) : Prop :=
  st'.nextSemaID = st.nextSemaID ∧ st'.nextShmemSegID = st.nextShmemSegID

/-- A set the process has just created; the value of its last semaphore is known. -/
structure Fresh (i : ι) (granted : List Int) (key n : Nat) (vals : Nat → Prop) (id : Int) (k : Kernel ι) : Prop where
  registered : Registered i k (.callbackSemaphoreKill id)
  apart : id ∉ granted
  live : k.life i ≠ .dead → ∃ q, k.sets id = .live q ∧ q.owner = some i ∧ q.key = key ∧ q.sems.length = n ∧
    ∀ s, q.identity = some s → vals s.val

theorem Fresh.rely {key n : Nat} {vals : Nat → Prop} (h : Fresh i granted key n vals id k) (hr : Rely i k k') :
    Fresh i granted key n vals id k' where
  registered := h.registered.rely hr
  apart := h.apart
  live hlive := by
    obtain ⟨q, hq, ho, hkey, hlen, hvals⟩ := h.live fun he => hlive (hr.ages.dead i he)
    obtain ⟨q', hq', ho', hkeeps⟩ := (hr.sets id).own hlive q hq ho
    exact ⟨q', hq', ho', hkeeps.1.trans hkey, hkeeps.2.1.trans hlen, fun s hs => hvals s (hkeeps.2.2.symm.trans hs)⟩

/-- The process changes a set that is not marked. -/
theorem Fresh.putSet {key n : Nat} {vals : Nat → Prop} {sems : List Sem} {q : SemSet ι} (vals' : Nat → Prop)
    (h : Fresh i granted key n vals id k) (halive : k.life i = .alive) (hq : k.sets id = .live q)
    (hvals : ¬ vals PG_SEMA_MAGIC) (hlen : sems.length = q.sems.length)
    (hvals' : ∀ s, SemSet.identity { q with sems := sems } = some s → vals' s.val) :
    Move (semKind ι) k.life i (k.sets id) (.live { q with sems := sems }) ∧
      Fresh i granted key n vals' id (k.putSet id (.live { q with sems := sems })) := by
  obtain ⟨q', hq', ho, hkey, hlen', hnot⟩ := h.live (halive.trans_ne (by decide))
  obtain rfl := Slot.live.inj (hq.symm.trans hq')
  have hstamp : (semKind ι).stamp q { q with sems := sems } := by
    refine ⟨rfl, hlen, ?_⟩
    rintro ⟨s, hs, hval⟩
    exact absurd (hval ▸ hnot s hs) hvals
  refine ⟨hq ▸ .updated ho ho hstamp, ⟨⟨{ q with sems := sems }, ?_, ho⟩, h.apart, fun _ => ?_⟩⟩
  · rw [putSet_self]
    rfl
  · exact ⟨{ q with sems := sems }, putSet_self .., ho, hkey, hlen.trans hlen', hvals'⟩

theorem mem_of_identity {s : Sem} (h : q.identity = some s) : s ∈ q.sems :=
  List.mem_of_getElem? h

/-- `internal_ipc_semaphore_create`: a new set that is registered, or nothing. -/
theorem spec_internalIpcSemaphoreCreate {semKey numSems semStartValue : Nat} {removeOnExit : Bool}
    (h : Local i tracks granted [] bound st k) (hflag : tracks → removeOnExit = true)
    (hstart : semStartValue % 2 ^ 16 ≠ PG_SEMA_MAGIC) :
    Spec pid i tracks (fun r k' => Local i tracks granted [] bound r.2 k' ∧ SameKeys st r.2 ∧
        ∀ id, r.1 = some id → Fresh i granted semKey numSems (· ≠ PG_SEMA_MAGIC) id k')
      (internalIpcSemaphoreCreate st semKey numSems semStartValue removeOnExit) k := by
  unfold internalIpcSemaphoreCreate
  split
  · exact meets_stop trivial
  refine Meets.bind (spec_perform ?_ ?_)
  · rintro semId k' hinv halive ⟨hunused, -, -, rfl⟩
    have hmove : Move (semKind ι) k.life i (k.sets semId) (.live ⟨semKey, some i, List.replicate numSems ⟨0, 0⟩⟩) :=
      hunused ▸ .created rfl
    have hapart : semId ∉ granted := by
      intro hmem
      obtain ⟨q, hq, -⟩ := h.granted (halive.trans_ne (by decide)) semId hmem
      rw [hunused] at hq
      cases hq
    have hzero : ∀ s ∈ List.replicate numSems (⟨0, 0⟩ : Sem), s.val ≠ PG_SEMA_MAGIC := by
      intro s hs
      rw [List.eq_of_mem_replicate hs]
      decide
    have hlocal : Local i tracks granted [semId] bound st _ :=
      h.putSet hmove (fun _ => hapart) (fun _ _ _ _ => .inr List.mem_cons_self) fun _ hid => nomatch hid
    refine ⟨hinv.putSet fun q hq => ?_, .putSet hmove, fun k₁ hr₁ _ => ?_⟩
    · obtain rfl := Option.some.inj hq
      refine ⟨fun ho => (nomatch ho), fun j hj => ?_⟩
      obtain rfl := Option.some.inj hj
      exact ⟨halive.trans_ne (by decide), fun n s hs hval => absurd hval (hzero s (List.mem_of_getElem? hs))⟩
    have hfresh : Fresh i granted semKey numSems (· ≠ PG_SEMA_MAGIC) semId
        (k.putSet semId (.live ⟨semKey, some i, List.replicate numSems ⟨0, 0⟩⟩)) :=
      ⟨⟨⟨semKey, some i, List.replicate numSems ⟨0, 0⟩⟩, by rw [putSet_self]; rfl, rfl⟩, hapart, fun _ =>
        ⟨_, putSet_self .., rfl, rfl, List.length_replicate, fun s hs => hzero s (mem_of_identity hs)⟩⟩
    replace hlocal := hlocal.rely hr₁
    replace hfresh := hfresh.rely hr₁
    dsimp only
    refine Meets.bind (spec_perform ?_ ?_)
    · rintro n k' hinv halive ⟨q, sems, hq, hlen, hassigned, rfl⟩
      have hlen' : sems.length = q.sems.length := by rw [← hlen, ← hassigned, List.length_map]
      have hvals : ∀ s ∈ sems, s.val ≠ PG_SEMA_MAGIC := by
        intro s hs
        have hmem : s.val ∈ List.replicate numSems (semStartValue % 2 ^ 16) :=
          hassigned ▸ List.mem_map_of_mem hs
        rw [List.eq_of_mem_replicate hmem]
        exact hstart
      obtain ⟨hmove, hfresh'⟩ := hfresh.putSet (· ≠ PG_SEMA_MAGIC) halive hq (fun h => h rfl) hlen'
        fun s hs => hvals s (mem_of_identity hs)
      have hlocal' : Local i tracks granted [semId] bound st _ :=
        hlocal.putSet hmove (fun _ => hapart) (fun _ _ _ _ => .inr List.mem_cons_self) fun _ hid _ => hid
      refine ⟨hinv.putSet fun q' hq' => ?_, .putSet hmove, fun k₂ hr₂ _ => ?_⟩
      · obtain rfl := Option.some.inj hq'
        have hok := hinv.sets semId q (by rw [hq]; rfl)
        exact ⟨fun _ => hvals, fun j hj => ⟨(hok.2 j hj).1, fun m s hs hval =>
          absurd hval (hvals s (List.mem_of_getElem? hs))⟩⟩
      replace hlocal' := hlocal'.rely hr₂
      replace hfresh' := hfresh'.rely hr₂
      cases removeOnExit with
      | true =>
        refine Meets.bind (spec_onShmemExit ?_)
        refine meets_pure ⟨hlocal'.register hfresh'.registered ?_, ⟨rfl, rfl⟩, ?_⟩
        · intro id hid
          exact .inl (by rw [List.mem_singleton.mp hid])
        · intro id hid
          obtain rfl := Option.some.inj hid
          exact hfresh'
      | false =>
        refine meets_pure ⟨⟨hlocal'.registered, fun ht => ?_, hlocal'.segments, hlocal'.granted⟩, ⟨rfl, rfl⟩, ?_⟩
        · cases hflag ht
        · intro id hid
          obtain rfl := Option.some.inj hid
          exact hfresh'
    · intro e _ _ k₂ hr₂ _
      have hkill : Local i tracks [] [] bound
          { st with onShmemExitList := .callbackSemaphoreKill semId :: st.onShmemExitList } k₂ :=
        ((hlocal.rely hr₂).register (hfresh.rely hr₂).registered fun id hid => .inl (by rw [List.mem_singleton.mp hid])).ungranted
      exact Meets.bind ((spec_run hkill).imp fun _ _ h => spec_procExit h)
  · intro e _ _ k₁ hr₁ _
    dsimp only
    split
    · exact meets_pure ⟨h.rely hr₁, ⟨rfl, rfl⟩, fun _ hid => nomatch hid⟩
    · exact spec_procExit (h.rely hr₁)

end PostgresV7.SysV
