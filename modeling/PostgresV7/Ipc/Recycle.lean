import PostgresV7.Ipc.CreateSemaphores

/-!
# Recycling a semaphore set (`ipc.c`)

Between the test whether the creator still exists and the removal of the set anything may
happen, except that the creator comes back or the identifier is used again.
-/

namespace PostgresV7.SysV

open Threads Owned

variable {ι : Type} {pid : ι → Int} {i j : ι} {k k' : Kernel ι} {id : Int} {q : SemSet ι} {st st' : State}
  {tracks : Prop} {granted extra : List Int} {bound key n fuel : Nat}

/-- A set that was found under the key. -/
structure Found (key : Nat) (id : Int) (k : Kernel ι) : Prop where
  used : k.sets id ≠ .unused
  live : ∀ q, k.sets id = .live q → q.owner ≠ none → q.key = key

/-- A set that `j` has marked, which has `n` semaphores to use. -/
structure Leftover (j : ι) (key n : Nat) (id : Int) (k : Kernel ι) : Prop where
  used : k.sets id ≠ .unused
  born : k.life j ≠ .unborn
  live : ∀ q, k.sets id = .live q → q.owner = some j ∧ q.key = key ∧ q.sems.length = n + 1 ∧ q.Marked

theorem Found.rely (h : Found key id k) (hr : Rely i k k') : Found key id k' where
  used := (hr.sets id).used h.used
  live q' hq' hne := by
    obtain ⟨q, hq, hf⟩ := (hr.sets id).live_inv h.used hq'
    have hne' : q.owner ≠ none := fun he => hne (hf.1.trans he)
    exact (hf.2 hne').1.trans (h.live q hq hne')

theorem Leftover.rely (h : Leftover j key n id k) (hr : Rely i k k') : Leftover j key n id k' where
  used := (hr.sets id).used h.used
  born := hr.ages.born j h.born
  live q' hq' := by
    obtain ⟨q, hq, hf⟩ := (hr.sets id).live_inv h.used hq'
    obtain ⟨ho, hkey, hlen, hm⟩ := h.live q hq
    obtain ⟨hkey', hlen', hidentity⟩ := hf.2 (by rw [show (semKind ι).owner q = some j from ho]; exact nofun)
    refine ⟨hf.1.trans ho, hkey'.trans hkey, hlen'.trans hlen, ?_⟩
    obtain ⟨s, hs, hval⟩ := hm
    exact ⟨s, (hidentity ⟨s, hs, hval⟩).trans hs, hval⟩

/-- The mark shows who made it. -/
theorem Leftover.names (h : Leftover j key n id k) (hinv : Inv pid k) {s : Sem} (hq : k.sets id = .live q)
    (hs : q.sems[n]? = some s) : s.pid = pid j := by
  obtain ⟨ho, -, hlen, t, ht, hval⟩ := h.live q hq
  have hok := (hinv.sets id q (by rw [hq]; rfl)).2 j ho
  have hst : s = t := by
    rw [SemSet.identity, hlen, Nat.add_sub_cancel] at ht
    exact Option.some.inj (hs.symm.trans ht)
  exact (hok.2 n s hs (hst ▸ hval)).2

/-- Where the mark is found, a process of ours has made it. -/
theorem Found.leftover (h : Found key id k) (hinv : Inv pid k) {s : Sem} (hq : k.sets id = .live q)
    (hs : q.sems[n]? = some s) (hval : s.val = PG_SEMA_MAGIC) : ∃ j, Leftover j key n id k := by
  have hok := hinv.sets id q (by rw [hq]; rfl)
  cases ho : q.owner with
  | none => exact absurd hval (hok.1 ho s (List.mem_of_getElem? hs))
  | some j =>
    obtain ⟨hborn, hmark⟩ := hok.2 j ho
    obtain ⟨hlen, -⟩ := hmark n s hs hval
    refine ⟨j, h.used, hborn, fun q' hq' => ?_⟩
    obtain rfl := Slot.live.inj (hq.symm.trans hq')
    refine ⟨ho, h.live q hq (by rw [ho]; exact nofun), hlen.symm, s, ?_, hval⟩
    rw [SemSet.identity, ← hlen, Nat.add_sub_cancel]
    exact hs

/-- `isExtant` says no only if the process of that number has ended, or is the caller. -/
theorem spec_isExtant (hpid : ∀ i, 0 < pid i) {creatorPid : Int} (known : Kernel ι → Prop) (hknown : known k)
    (hstable : ∀ k k', known k → Rely i k k' → known k') (hborn : k.life j ≠ .unborn)
    (hnames : creatorPid = pid j ∨ creatorPid = -1) :
    Spec pid i tracks (fun extant k' => known k' ∧ (extant = false → j = i ∨ k'.life j = .dead))
      (isExtant creatorPid) k := by
  have hdead : ∀ {k : Kernel ι}, k.life j ≠ .unborn → k.life j ≠ .alive → k.life j = .dead := by
    intro k hb ha
    cases hl : k.life j with
    | unborn => exact absurd hl hb
    | alive => exact absurd hl ha
    | dead => rfl
  refine Meets.bind (spec_quiet ?_ ?_ fun _ _ h => h.elim)
  · rintro self k' ⟨-, rfl⟩
    rfl
  rintro self hinv halive ⟨rfl, -⟩ k₁ hr₁ -
  by_cases hne : creatorPid ≠ pid i
  · rw [returned, if_pos hne]
    refine Meets.bind (spec_quiet (fun _ _ h => h) ?_ ?_)
    · intro _ _ _ _ k₂ hr₂ _
      exact meets_pure ⟨hstable _ _ (hstable _ _ hknown hr₁) hr₂, fun h => nomatch h⟩
    · intro e halive₁ hfail k₂ hr₂ _
      refine meets_pure ⟨hstable _ _ (hstable _ _ hknown hr₁) hr₂, fun he => ?_⟩
      have hesrch : e = .ESRCH := by simpa using he
      by_cases hji : j = i
      · exact .inl hji
      · refine .inr (hr₂.ages.dead j (hdead (hr₁.ages.born j hborn) fun hj => ?_))
        refine hfail hesrch j hj ?_
        exact hnames.elim .inl fun h => .inr (.inr ⟨h, hji⟩)
  · rw [returned, if_neg hne]
    refine meets_pure ⟨hstable _ _ hknown hr₁, fun _ => ?_⟩
    have hself : creatorPid = pid i := not_not.mp hne
    have hpids : pid j = pid i := by
      rcases hnames with h | h
      · exact h.symm.trans hself
      · have := hpid i
        omega
    by_cases hj : k.life j = .alive
    · exact .inl (hinv.numbers j i hj halive hpids)
    · exact .inr (hr₁.ages.dead j (hdead hborn hj))

/-- What a round comes to. The sets that were granted under smaller keys stay. -/
def RoundPost (i : ι) (tracks : Prop) (granted : List Int) (bound numSems : Nat) (st : State)
    (r : Option Int × State) (k : Kernel ι) : Prop :=
  Local i tracks granted [] bound r.2 k ∧ SameKeys st r.2 ∧
    ∀ id, r.1 = some id → Fresh i granted st.nextSemaID (numSems + 1) (· ≠ PG_SEMA_MAGIC) id k

theorem RoundPost.of_same {numSems : Nat} {r : Option Int × State} (hsame : SameKeys st st')
    (h : RoundPost i tracks granted bound numSems st' r k) : RoundPost i tracks granted bound numSems st r k :=
  ⟨h.1, ⟨h.2.1.1.trans hsame.1, h.2.1.2.trans hsame.2⟩, hsame.1 ▸ h.2.2⟩

theorem roundPost_none {numSems : Nat} (h : Local i tracks granted [] bound st k) :
    RoundPost i tracks granted bound numSems st (none, st) k :=
  ⟨h, ⟨rfl, rfl⟩, fun _ hid => nomatch hid⟩

section

variable {numSems semStartValue : Nat} {removeOnExit : Bool} (hpid : ∀ i, 0 < pid i)
  (hbound : granted ≠ [] → bound = st.nextSemaID) (hflag : tracks → removeOnExit = true)
  (hstart : semStartValue % 2 ^ 16 ≠ PG_SEMA_MAGIC)

include hpid hbound hflag hstart

/-- A set is removed only if its creator has ended or was this process before. -/
theorem spec_zapSemaphores {semId creatorPid : Int} (h : Local i tracks granted [] bound st k)
    (hleft : Leftover j st.nextSemaID numSems semId k) (hnames : creatorPid = pid j ∨ creatorPid = -1) :
    Spec pid i tracks (RoundPost i tracks granted bound numSems st)
      (zapSemaphores st numSems semStartValue removeOnExit semId creatorPid) k := by
  refine Meets.bind ((spec_isExtant hpid (fun k => Local i tracks granted [] bound st k ∧
    Leftover j st.nextSemaID numSems semId k) ⟨h, hleft⟩ (fun _ _ h hr => ⟨h.1.rely hr, h.2.rely hr⟩)
    hleft.born hnames).imp ?_)
  rintro extant k₁ ⟨⟨h₁, hleft₁⟩, hend⟩
  cases extant with
  | true => exact roundPost_none h₁
  | false =>
    refine Meets.bind (spec_perform ?_ fun _ _ _ k₂ hr₂ _ => roundPost_none (h₁.rely hr₂))
    rintro n k' hinv halive ⟨q, hq, rfl⟩
    obtain ⟨ho, hqkey, -, -⟩ := hleft₁.live q hq
    have hmove : Move (semKind ι) k₁.life i (k₁.sets semId) (.removed q) := hq ▸ .removed ho (hend rfl)
    have hapart : semId ∉ granted := by
      intro hmem
      obtain ⟨q', hq', -, hlt, -⟩ := h₁.granted (halive.trans_ne (by decide)) semId hmem
      obtain rfl := Slot.live.inj (hq.symm.trans hq')
      have := hbound (List.ne_nil_of_mem hmem)
      omega
    refine ⟨hinv.putSet fun q' hq' => hinv.sets semId q' (by rw [hq]; exact hq'), .putSet hmove,
      fun k₂ hr₂ _ => ?_⟩
    have h₂ : Local i tracks granted [] bound st _ :=
      h₁.putSet hmove (fun _ => hapart) (fun _ hlive => nomatch hlive) fun _ hid _ => hid
    exact spec_internalIpcSemaphoreCreate (h₂.rely hr₂) hflag hstart

theorem spec_ipcSemaphoreCreateRound (h : Local i tracks granted [] bound st k) :
    Spec pid i tracks (RoundPost i tracks granted bound numSems st)
      (ipcSemaphoreCreateRound st numSems semStartValue removeOnExit) k := by
  refine Meets.bind ((spec_internalIpcSemaphoreCreate h hflag hstart).imp ?_)
  rintro ⟨semId?, st₁⟩ k₁ ⟨h₁, hkeys, hfresh⟩
  cases semId? with
  | some semId => exact ⟨h₁, hkeys, hfresh⟩
  | none =>
    have hnone : ∀ {k'}, Local i tracks granted [] bound st₁ k' → RoundPost i tracks granted bound numSems st (none, st₁) k' :=
      fun h' => (roundPost_none h').of_same hkeys
    refine Meets.bind (spec_quiet ?_ ?_ fun _ _ _ k₂ hr₂ _ => hnone (h₁.rely hr₂))
    · rintro semId k' ⟨-, -, -, -, rfl⟩
      rfl
    rintro semId - - ⟨q, hq, hqkey, -, -⟩ k₂ hr₂ -
    have hfound : Found st₁.nextSemaID semId k₁ := by
      refine ⟨by rw [hq]; exact nofun, fun q' hq' _ => ?_⟩
      obtain rfl := Slot.live.inj (hq.symm.trans hq')
      exact hqkey
    replace hfound := hfound.rely hr₂
    have h₂ := h₁.rely hr₂
    refine Meets.bind (Meets.bind (spec_quiet ?_ ?_ fun _ _ _ k₃ hr₃ _ => hnone (h₂.rely hr₃)))
    · rintro val k' ⟨-, -, -, -, -, rfl⟩
      rfl
    rintro val hinv - ⟨q, s, hq, hs, rfl, -⟩ k₃ hr₃ -
    have h₃ := h₂.rely hr₃
    refine meets_pure ?_
    by_cases hval : s.val = PG_SEMA_MAGIC
    case neg =>
      have hne : (s.val : Int) ≠ (PG_SEMA_MAGIC : Int) := fun he => hval (Int.ofNat.inj he)
      rw [returned, if_pos hne]
      exact hnone h₃
    rw [returned, hval, if_neg (not_not.mpr rfl)]
    obtain ⟨j, hleft⟩ := hfound.leftover hinv hq hs hval
    replace hleft := hleft.rely hr₃
    have hbound₁ : granted ≠ [] → bound = st₁.nextSemaID := fun hne => (hbound hne).trans hkeys.1.symm
    refine Meets.bind (Meets.bind (spec_quiet ?_ ?_ ?_))
    · rintro creatorPid k' ⟨-, -, -, -, -, rfl⟩
      rfl
    · rintro creatorPid hinv - ⟨q, s, hq, hs, rfl, -⟩ k₄ hr₄ -
      exact (spec_zapSemaphores hpid hbound₁ hflag hstart (h₃.rely hr₄) (hleft.rely hr₄)
        (.inl (hleft.names hinv hq hs))).imp fun _ _ hp => hp.of_same hkeys
    · intro e _ _ k₄ hr₄ _
      exact (spec_zapSemaphores hpid hbound₁ hflag hstart (h₃.rely hr₄) (hleft.rely hr₄)
        (.inr rfl)).imp fun _ _ hp => hp.of_same hkeys

omit hbound in
/-- The loop goes from key to key until a set is there. -/
theorem spec_ipcSemaphoreCreateLoop (h : Local i tracks granted [] (st.nextSemaID + 1) st k)
    (hwrap : granted ≠ [] → st.nextSemaID + fuel < 2 ^ 32) :
    Spec pid i tracks (fun r k' => Local i tracks granted [] (r.2.nextSemaID + 1) r.2 k' ∧
        r.2.nextSemaID ≤ st.nextSemaID + fuel ∧
        Fresh i granted r.2.nextSemaID (numSems + 1) (· ≠ PG_SEMA_MAGIC) r.1 k')
      (ipcSemaphoreCreateLoop numSems semStartValue removeOnExit fuel st) k := by
  induction fuel generalizing st k with
  | zero => exact meets_stop trivial
  | succ fuel ih =>
    have hle : (st.nextSemaID + 1) % 2 ^ 32 ≤ st.nextSemaID + 1 := Nat.mod_le _ _
    have hkey : granted ≠ [] → st.nextSemaID + 1 = (st.nextSemaID + 1) % 2 ^ 32 := fun hne =>
      (Nat.mod_eq_of_lt (by have := hwrap hne; omega)).symm
    have h₀ : Local i tracks granted [] (st.nextSemaID + 1) { st with nextSemaID := (st.nextSemaID + 1) % 2 ^ 32 } k :=
      h.of_list rfl
    refine Meets.bind ((spec_ipcSemaphoreCreateRound hpid hkey hflag hstart h₀).imp ?_)
    rintro ⟨semId?, st₁⟩ k₁ ⟨h₁, hkeys, hfresh⟩
    have hkeys' : st₁.nextSemaID = (st.nextSemaID + 1) % 2 ^ 32 := hkeys.1
    replace h₁ : Local i tracks granted [] (st₁.nextSemaID + 1) st₁ k₁ :=
      h₁.rebound fun hne => by have := hkey hne; omega
    cases semId? with
    | some semId => exact meets_pure ⟨h₁, by dsimp only; omega, hkeys.1 ▸ hfresh semId rfl⟩
    | none =>
      refine (ih h₁ fun hne => by have := hwrap hne; omega).imp ?_
      rintro r k' ⟨h', hle', hfresh'⟩
      exact ⟨h', by omega, hfresh'⟩

omit hpid hbound hflag hstart

/-- The semaphore that identifies the set becomes the mark. -/
theorem spec_mark {semId : Int} (h : Local i tracks granted [] bound st k) (hlt : key < bound)
    (hfresh : Fresh i granted key (n + 1) (· + 1 = PG_SEMA_MAGIC) semId k) :
    Spec pid i tracks (fun _ => Local i tracks (semId :: granted) [] bound st)
      (ipcSemaphoreUnlock st semId n fuel) k := by
  induction fuel generalizing k with
  | zero => exact meets_stop trivial
  | succ fuel ih =>
    refine Meets.bind (spec_perform ?_ ?_)
    · rintro val k' hinv halive ⟨q, s, hq, hs, -, rfl⟩
      obtain ⟨q', hq', ho, hkey, hlen, hvals⟩ := hfresh.live (halive.trans_ne (by decide))
      obtain rfl := Slot.live.inj (hq.symm.trans hq')
      have hidentity : q.identity = some s := by rw [SemSet.identity, hlen, Nat.add_sub_cancel]; exact hs
      have hval : ((s.val : Int) + 1).toNat = PG_SEMA_MAGIC := by have := hvals s hidentity; omega
      have hnew : SemSet.identity { q with sems := q.sems.set n ⟨((s.val : Int) + 1).toNat, pid i⟩ } =
          some ⟨PG_SEMA_MAGIC, pid i⟩ := by
        rw [SemSet.identity, List.length_set, hlen, Nat.add_sub_cancel, List.getElem?_set_self (by omega), hval]
      obtain ⟨hmove, hfresh'⟩ := hfresh.putSet (· = PG_SEMA_MAGIC) halive hq (by decide)
        (@List.length_set _ q.sems _ _) fun t ht => by rw [hnew] at ht; rw [← Option.some.inj ht]
      have hlocal : Local i tracks granted [] bound st _ :=
        h.putSet hmove (fun _ => hfresh.apart) (fun q'' hq'' ho'' ht =>
          (h.sets ht semId q hq ho).imp_right fun hid => absurd hid List.not_mem_nil) fun _ hid _ => hid
      refine ⟨hinv.putSet fun q'' hq'' => ?_, .putSet hmove, fun k'' hr _ => ?_⟩
      · obtain rfl := Option.some.inj hq''
        have hok := hinv.sets semId q (by rw [hq]; rfl)
        refine ⟨fun hn => absurd (hn.symm.trans ho) (Option.some_ne_none i).symm, fun j hj =>
          ⟨(hok.2 j hj).1, fun m t ht htval => ?_⟩⟩
        obtain rfl := Option.some.inj (ho.symm.trans hj)
        rw [List.length_set]
        by_cases hm : n = m
        · subst hm
          rw [List.getElem?_set_self (by omega)] at ht
          exact ⟨hlen.symm, by rw [← Option.some.inj ht]⟩
        · rw [List.getElem?_set_ne hm] at ht
          exact (hok.2 i hj).2 m t ht htval
      · refine meets_pure ⟨(hlocal.rely hr).registered, (hlocal.rely hr).sets, (hlocal.rely hr).segments,
          fun hlive id hid => ?_⟩
        rcases List.mem_cons.mp hid with rfl | hid
        · refine Granted.rely ?_ hr hlive
          exact ⟨_, putSet_self .., ho, hkey ▸ hlt, _, hnew, rfl⟩
        · exact (hlocal.rely hr).granted hlive id hid
    · intro e _ _ k'' hr _
      dsimp only
      split
      · exact ih (h.rely hr) (hfresh.rely hr)
      · exact spec_procExit (h.rely hr)

include hpid hflag hstart

/-- `ipc_semaphore_create` grants a set of its own, and leaves those alone that it granted before. -/
theorem spec_ipcSemaphoreCreate (h : Local i tracks granted [] (st.nextSemaID + 1) st k)
    (hwrap : granted ≠ [] → st.nextSemaID + fuel < 2 ^ 32) :
    Spec pid i tracks (fun r k' => Local i tracks (r.1 :: granted) [] (r.2.nextSemaID + 1) r.2 k' ∧
        r.1 ∉ granted ∧ r.2.nextSemaID ≤ st.nextSemaID + fuel)
      (ipcSemaphoreCreate fuel st numSems semStartValue removeOnExit) k := by
  refine Meets.bind ((spec_ipcSemaphoreCreateLoop hpid hflag hstart h hwrap).imp ?_)
  rintro ⟨semId, st₁⟩ k₁ ⟨h₁, hle, hfresh⟩
  refine Meets.bind (spec_perform ?_ ?_)
  · rintro val k' hinv halive ⟨q, p, hq, hlt, rfl⟩
    obtain ⟨q', hq', ho, hkey, hlen, hvals⟩ := hfresh.live (halive.trans_ne (by decide))
    obtain rfl := Slot.live.inj (hq.symm.trans hq')
    have hnew : SemSet.identity { q with sems := q.sems.set numSems ⟨PG_SEMA_MAGIC - 1, p⟩ } =
        some ⟨PG_SEMA_MAGIC - 1, p⟩ := by
      rw [SemSet.identity, List.length_set, hlen, Nat.add_sub_cancel, List.getElem?_set_self hlt]
    obtain ⟨hmove, hfresh'⟩ := hfresh.putSet (· + 1 = PG_SEMA_MAGIC) halive hq (fun h => h rfl)
      (@List.length_set _ q.sems _ _) fun t ht => by
        rw [hnew] at ht
        rw [← Option.some.inj ht]
        rfl
    have hlocal : Local i tracks granted [] (st₁.nextSemaID + 1) st₁ _ :=
      h₁.putSet hmove (fun _ => hfresh.apart) (fun q'' hq'' ho'' ht =>
        (h₁.sets ht semId q hq ho).imp_right fun hid => absurd hid List.not_mem_nil) fun _ hid _ => hid
    refine ⟨hinv.putSet fun q'' hq'' => ?_, .putSet hmove, fun k'' hr _ => ?_⟩
    · obtain rfl := Option.some.inj hq''
      exact (hinv.sets semId q (by rw [hq]; rfl)).set (by decide : PG_SEMA_MAGIC - 1 ≠ PG_SEMA_MAGIC)
    · refine Meets.bind ((spec_mark (hlocal.rely hr) (Nat.lt_succ_self _) (hfresh'.rely hr)).imp fun _ _ h => ?_)
      exact ⟨h, hfresh.apart, hle⟩
  · intro e _ _ k'' hr _
    exact spec_procExit (h₁.rely hr)

end

end PostgresV7.SysV
