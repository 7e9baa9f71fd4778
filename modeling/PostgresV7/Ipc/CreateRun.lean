import PostgresV7.Ipc.CreateMemory

/-!
# Any number of processes that create and remove (`ipc.c`)

Processes start, serve requests and end, by `proc_exit` or without warning, and each call of
one may be followed by any number of calls of the others.
-/

namespace PostgresV7.SysV

open Threads Owned

variable {ι : Type} {pid : ι → Int} {i j : ι} {k k' : Kernel ι} {id : Int} {q : SemSet ι} {g : Segment ι}
  {st : State} {tracks : Prop} {granted : List Int} {fuel : Nat} {requests : List Request} {request : Request}

/-- No semaphore starts with the value of the mark. Where it matters that a process cleans up, its
sets are removed on exit. -/
def Request.Sane (tracks : Prop) : Request → Prop
  | .semaphores _ semStartValue removeOnExit =>
    semStartValue % 2 ^ 16 ≠ PG_SEMA_MAGIC ∧ (tracks → removeOnExit = true)
  | _ => True

/-- The ports there are. With fewer than `2 ^ 32` keys to try, none is tried twice. -/
def Request.PortOk : Request → Prop
  | .keys port => port < 2 ^ 16
  | _ => True

def KeysLast (fuel : Nat) (requests : List Request) : Prop :=
  2 ^ 16 * 1000 + fuel * requests.length < 2 ^ 32 ∧ ∀ request ∈ requests, request.PortOk

/-- What is known of a process between two requests. -/
structure Serving (i : ι) (tracks counts : Prop) (fuel : Nat) (requests : List Request) (granted : List Int)
    (st : State) (k : Kernel ι) : Prop where
  owns : ∃ watched : List Int, Local i tracks watched [] (st.nextSemaID + 1) st k ∧
    (counts → watched = granted ∧ granted.Nodup ∧ st.nextSemaID + fuel * requests.length < 2 ^ 32)

theorem serving_init (hno : ∀ id q, (k.sets id).contents? = some q → q.owner ≠ some i)
    (hno' : ∀ id g, (k.segments id).contents? = some g → g.owner ≠ some i) {counts : Prop}
    (hkeys : counts → KeysLast fuel requests) : Serving i tracks counts fuel requests [] .init k where
  owns := by
    refine ⟨[], ⟨fun _ hc => (nomatch hc), fun _ id q hq ho => ?_, fun _ id g hg ho => ?_, fun _ _ hid =>
      (nomatch hid)⟩,
      fun hcounts => ⟨rfl, List.nodup_nil, ?_⟩⟩
    · exact absurd ho (hno id q (by rw [hq]; rfl))
    · exact absurd ho (hno' id g (by rw [hg]; rfl))
    · have := (hkeys hcounts).1
      simp only [State.init]
      omega

theorem Serving.rely {counts : Prop} (h : Serving i tracks counts fuel requests granted st k) (hr : Rely i k k') :
    Serving i tracks counts fuel requests granted st k' where
  owns := by
    obtain ⟨watched, h, hcounts⟩ := h.owns
    exact ⟨watched, h.rely hr, hcounts⟩

/-- Serving requests, a process keeps to the protocol, and keeps what it is granted. -/
theorem spec_serve (hpid : ∀ i, 0 < pid i) {counts : Prop} (hsane : ∀ request ∈ requests, request.Sane tracks)
    (hkeys : counts → KeysLast fuel requests) (h : Serving i tracks counts fuel requests granted st k) :
    Spec pid i tracks (fun r k' => Serving i tracks counts fuel [] r.1 r.2 k')
      (serve fuel requests granted st) k := by
  induction requests generalizing granted st k with
  | nil => exact meets_pure h
  | cons request requests ih =>
    have hsane' : ∀ request ∈ requests, request.Sane tracks := fun r hr => hsane r (List.mem_cons_of_mem _ hr)
    have hlen : fuel * (request :: requests).length = fuel * requests.length + fuel := Nat.mul_succ _ _
    have hkeys' : counts → KeysLast fuel requests := fun hc =>
      ⟨by have := (hkeys hc).1; omega, fun r hr => (hkeys hc).2 r (List.mem_cons_of_mem _ hr)⟩
    replace ih := fun {granted st k} (h : Serving i tracks counts fuel requests granted st k) => ih hsane' hkeys' h
    obtain ⟨watched, hlocal, hcounts⟩ := h.owns
    cases request with
    | keys port =>
      have hassigned : Local i tracks [] [] (st.nextSemaID + 1) (ipcInitKeyAssignment st port) k :=
        hlocal.ungranted.of_list rfl
      refine ih ⟨[], hassigned.rebound fun h => absurd rfl h, fun hc => ⟨rfl, List.nodup_nil, ?_⟩⟩
      have hport : port < 2 ^ 16 := (hkeys hc).2 (.keys port) List.mem_cons_self
      have := (hkeys hc).1
      have hle : port * 1000 % 2 ^ 32 ≤ port * 1000 := Nat.mod_le _ _
      simp only [ipcInitKeyAssignment]
      omega
    | semaphores numSems semStartValue removeOnExit =>
      obtain ⟨hstart, hflag⟩ := hsane _ List.mem_cons_self
      by_cases hc : counts
      · obtain ⟨rfl, hnodup, hlt⟩ := hcounts hc
        refine Meets.bind ((spec_ipcSemaphoreCreate hpid hflag hstart hlocal fun _ => by omega).imp ?_)
        rintro ⟨semId, st₁⟩ k₁ ⟨h₁, hnew, hle⟩
        exact ih ⟨semId :: watched, h₁, fun _ =>
          ⟨rfl, List.nodup_cons.mpr ⟨hnew, hnodup⟩, by dsimp only at hle ⊢; omega⟩⟩
      · refine Meets.bind ((spec_ipcSemaphoreCreate hpid hflag hstart hlocal.ungranted fun hne => absurd rfl hne).imp ?_)
        rintro ⟨semId, st₁⟩ k₁ ⟨h₁, -, -⟩
        exact ih ⟨_, h₁, fun h => absurd h hc⟩
    | memory size makePrivate =>
      refine Meets.bind ((spec_ipcMemoryCreate hpid hlocal).imp ?_)
      rintro ⟨memAddr, st₁⟩ k₁ ⟨h₁, hkey, -⟩
      refine ih ⟨watched, h₁.rebound fun _ => by dsimp only at hkey ⊢; omega, fun hc => ?_⟩
      obtain ⟨rfl, hnodup, hlt⟩ := hcounts hc
      exact ⟨rfl, hnodup, by dsimp only at hkey ⊢; omega⟩
    | shmemExit =>
      refine Meets.bind ((spec_shmemExit hlocal).imp ?_)
      rintro _ k₁ ⟨h₁, rfl⟩
      refine ih ⟨[], h₁, fun hc => ⟨rfl, List.nodup_nil, ?_⟩⟩
      obtain ⟨-, -, hlt⟩ := hcounts hc
      dsimp only
      omega
    | procExit code => exact spec_procExit hlocal

/-! ## Runs -/

/-- The system has started; what there is belongs to other programs. -/
structure Booted (pid : ι → Int) (k : Kernel ι) : Prop where
  numbers : ∀ i j, k.life i = .alive → k.life j = .alive → pid i = pid j → i = j
  sets : ∀ id q, (k.sets id).contents? = some q → q.owner = none ∧ ∀ s ∈ q.sems, s.val ≠ PG_SEMA_MAGIC
  segments : ∀ id g, (k.segments id).contents? = some g → g.owner = none ∧ ¬ g.Marked

/-- Each process is about to serve its requests. -/
def serving (fuel : ι → Nat) (requests : ι → List Request) (k : Kernel ι) :
    Config Call (fun _ => Answer) Halt ι (Kernel ι) (List Int × State) where
  state := k
  prog i := serve (fuel i) (requests i) [] .init

abbrev Running (pid : ι → Int) [DecidableEq ι] :
    Config Call (fun _ => Answer) Halt ι (Kernel ι) (List Int × State) →
      Config Call (fun _ => Answer) Halt ι (Kernel ι) (List Int × State) → Prop :=
  Reaches (Kernel.exec pid) (Environ pid)

theorem Booted.inv (h : Booted pid k) : Inv pid k where
  numbers := h.numbers
  sets id q hq := ⟨fun _ => (h.sets id q hq).2, fun _ ho => nomatch (h.sets id q hq).1.symm.trans ho⟩
  segments id g hg := ⟨fun _ => (h.segments id g hg).2, fun _ ho => nomatch (h.segments id g hg).1.symm.trans ho⟩

/-- The environment removes none of our objects. -/
theorem Environ.spares [DecidableEq ι] (h : Environ pid k k') :
    (∀ id q, k.sets id = .live q → (∃ q', k'.sets id = .live q' ∧ q'.owner = q.owner) ∨ q.owner = none) ∧
    ∀ id g, k.segments id = .live g → (∃ g', k'.segments id = .live g' ∧ g'.owner = g.owner) ∨ g.owner =
      none := by
  cases h with
  | starts | dies => exact ⟨fun id q hq => .inl ⟨q, hq, rfl⟩, fun id g hg => .inl ⟨g, hg, rfl⟩⟩
  | @otherSet id' slot hlive _ _ _ =>
    refine ⟨fun id q hq => ?_, fun id g hg => .inl ⟨g, hg, rfl⟩⟩
    by_cases he : id = id'
    · subst he
      exact .inr (hlive q hq)
    · exact .inl ⟨q, by simpa only [Kernel.putSet, Function.update_of_ne he] using hq, rfl⟩
  | @used id' q' n s hlive =>
    refine ⟨fun id q hq => .inl ?_, fun id g hg => .inl ⟨g, hg, rfl⟩⟩
    by_cases he : id = id'
    · subst he
      obtain rfl := Slot.live.inj (hlive.symm.trans hq)
      exact ⟨_, putSet_self .., rfl⟩
    · exact ⟨q, by simpa only [Kernel.putSet, Function.update_of_ne he] using hq, rfl⟩
  | @otherSegment id' slot hlive =>
    refine ⟨fun id q hq => .inl ⟨q, hq, rfl⟩, fun id g hg => ?_⟩
    by_cases he : id = id'
    · subst he
      exact .inr (hlive g hg)
    · exact .inl ⟨g, by simpa only [Kernel.putSegment, Function.update_of_ne he] using hg, rfl⟩
  | @allocated id' g' n hlive =>
    refine ⟨fun id q hq => .inl ⟨q, hq, rfl⟩, fun id g hg => .inl ?_⟩
    by_cases he : id = id'
    · subst he
      obtain rfl := Slot.live.inj (hlive.symm.trans hg)
      exact ⟨_, putSegment_self .., rfl⟩
    · exact ⟨g, by simpa only [Kernel.putSegment, Function.update_of_ne he] using hg, rfl⟩
theorem Booted.sound {fuel : ι → Nat} {requests : ι → List Request} (hpid : ∀ i, 0 < pid i) (hboot : Booted pid k)
    (counts : ι → Prop) (hsane : ∀ i, ∀ request ∈ requests i, request.Sane tracks)
    (hkeys : ∀ i, counts i → KeysLast (fuel i) (requests i)) :
    Sound (Kernel.exec pid) (protocol pid) (fun i => Stops i tracks)
      (fun i r k => Serving i tracks (counts i) (fuel i) [] r.1 r.2 k) (serving fuel requests k) := by
  refine ⟨hboot.inv, fun i k' hr _ => spec_serve hpid (hsane i) (hkeys i) (Serving.rely ?_ hr)⟩
  refine serving_init (fun id q hq ho => ?_) (fun id g hg ho => ?_) (hkeys i)
  · exact nomatch (hboot.sets id q hq).1.symm.trans ho
  · exact nomatch (hboot.segments id g hg).1.symm.trans ho

/-! ## Runs of one process -/

/-- A process is alone, and there are no sets and no segments. -/
def Kernel.solo : Kernel Unit where
  sets _ := .unused
  segments _ := .unused
  life _ := .alive

/-- The process has created a set. -/
def Kernel.soloSet (sems : List Sem) : Kernel Unit :=
  Kernel.solo.putSet 0 (.live ⟨1, some (), sems⟩)

/-- One semaphore is to use, the one behind it has our mark. -/
def Kernel.soloGranted : Kernel Unit := .soloSet [⟨1, 0⟩, ⟨PG_SEMA_MAGIC, 7⟩]

/-- The set is removed. -/
def Kernel.soloLeft : Kernel Unit :=
  Kernel.soloGranted.putSet 0 (.removed ⟨1, some (), [⟨1, 0⟩, ⟨PG_SEMA_MAGIC, 7⟩]⟩)

def State.soloGranted : State where
  nextShmemSegID := 0
  nextSemaID := 1
  onShmemExitList := [.callbackSemaphoreKill 0]

theorem solo_booted : Booted (fun _ => 7) Kernel.solo where
  numbers _ _ _ _ _ := rfl
  sets _ _ hq := nomatch hq
  segments _ _ hg := nomatch hg

theorem solo_exec {c : Call} {k k' : Kernel Unit} (n : Int) (hlive : k.life () = .alive)
    (hdoes : k.does (fun _ => 7) () n k' c) : Kernel.exec (fun _ => 7) () c k (.ok n) k' :=
  ⟨hlive, hdoes⟩

theorem soloSet_put (sems sems' : List Sem) :
    Kernel.soloSet sems' = (Kernel.soloSet sems).putSet 0 (.live ⟨1, some (), sems'⟩) := by
  simp only [Kernel.soloSet, Kernel.putSet, Function.update_idem]

/-- It asks for a semaphore with the start value `1` and is granted a set. -/
theorem solo_granted (requests : List Request) :
    Running (fun _ => 7) (serving (fun _ => 1) (fun _ => .semaphores 1 1 true :: requests) Kernel.solo)
      ⟨Kernel.soloGranted, fun _ => serve 1 requests [0] .soloGranted⟩ := by
  have hcreated : Running (fun _ => 7) (serving (fun _ => 1)
      (fun _ => .semaphores 1 1 true :: requests) Kernel.solo)
      ⟨.soloSet [⟨0, 0⟩, ⟨0, 0⟩], fun _ => _⟩ :=
    Reaches.alone .refl _ (solo_exec 0 rfl ⟨rfl, le_rfl, fun _ _ h => (nomatch h), rfl⟩)
  have hset := hcreated.alone _ (solo_exec 0 rfl ⟨_, [⟨1, 0⟩, ⟨1, 0⟩], putSet_self .., rfl, rfl, soloSet_put _ _⟩)
  have hmarked := hset.alone _ (solo_exec 0 rfl ⟨_, 7, putSet_self .., by decide, soloSet_put _ _⟩)
  exact hmarked.alone _ (solo_exec 0 rfl
    ⟨_, ⟨PG_SEMA_MAGIC - 1, 7⟩, putSet_self .., rfl, by decide, soloSet_put _ _⟩)

theorem solo_sane {tracks : Prop} (requests : List Request) (h : requests = [] ∨ requests = [.procExit 0]) :
    ∀ request ∈ Request.semaphores 1 1 true :: requests, request.Sane tracks := by
  intro request hmem
  rcases List.mem_cons.mp hmem with rfl | hmem
  · exact ⟨by decide, fun _ => rfl⟩
  · rcases h with rfl | rfl
    · exact nomatch hmem
    · rw [List.mem_singleton.mp hmem]
      exact trivial

/-! ## What every run keeps to -/

section

variable [DecidableEq ι] {fuel : ι → Nat} {requests : ι → List Request} {who : Option ι}
  {cfg cfg' : Config Call (fun _ => Answer) Halt ι (Kernel ι) (List Int × State)}

end

end PostgresV7.SysV
