import PostgresV7.Ipc.OnExit

/-!
# What `proc_exit` and `shmem_exit` did

The machine of `ipc.c` from a call on, to the end of the process or to the return.
-/

namespace PostgresV7.Ipc

open Stacks

variable {φ : Type} {acts : Log φ → OnExit φ → Int → List (Action φ)} {m m' : Machine φ} {l : ExitList}
  {code : Int} {start : ExitList → List (Registered φ)} {entry : OnExit φ}

/-! ## Where a call starts and ends -/

/-- Nothing happened yet. -/
theorem Machine.Sound.tracks (h : m.Sound) (control : List (Frame φ)) :
    Tracks m.pending { m with control := control, log := [] } :=
  ⟨h.index, fun _ => rfl, Lifo.nil, h.old, h.nodup⟩

theorem ordered_procExit (m : Machine φ) (code : Int) : Ordered m.pending (m.procExit code) := by
  refine ⟨?_, fun code' rest hrest => ?_, fun hpopped => absurd rfl hpopped, fun later r earlier hlog => ?_⟩
  · exact List.isChain_cons.mpr ⟨fun g hg _ _ => .inl ⟨code, rfl⟩, List.isChain_singleton _⟩
  · cases hrest
  · cases later <;> cases hlog

/-- The lists after a run are sound again. -/
theorem Tracks.sound (h : Tracks start m) : m.Sound := by
  have hperm : ∀ l, (poppedFrom l m.log ++ m.pending l).Perm (pushedOn l m.log ++ start l) := by
    intro l
    rw [← h.contents]
    exact h.lifo.perm l
  refine ⟨h.index, fun l r hr => ?_, fun l => ?_⟩
  · exact h.old l r ((hperm l).mem_iff.mp (List.mem_append_right _ hr))
  · exact (List.nodup_append.mp ((hperm l).nodup_iff.mpr (h.nodup l))).2.1

theorem Machine.Sound.register (h : m.Sound) (hm : m.register l entry = .ok m') : m'.Sound := by
  obtain ⟨hnonneg, hlt, rfl⟩ := register_inv hm
  have hquiet : ({ m with log := [] } : Machine φ).register l entry =
      .ok (({ m with log := [] } : Machine φ).registered l entry) := by
    unfold Machine.register
    rw [if_neg (Int.not_le.mpr hlt), if_neg (Int.not_lt.mpr hnonneg)]
  have hsound := ((h.tracks m.control).register hquiet).sound
  exact ⟨hsound.index, hsound.old, hsound.nodup⟩

/-- Where the frame at the bottom is a loop, it stays there, or it was the one of `shmem_exit`
and has returned. -/
theorem Moves.bottom (h : Moves acts m m') (hbottom : m.control.getLast? = some (.loop l code)) :
    m'.control.getLast? = some (.loop l code) ∨ l = .shmem ∧ m'.control = [] ∧ m'.index .shmem = 0 := by
  have hbelow : ∀ {f : Frame φ} {rest : List (Frame φ)}, m.control = f :: rest → f ≠ .loop l code →
      rest.getLast? = some (.loop l code) := by
    intro f rest hcontrol hf
    cases rest with
    | nil =>
      rw [hcontrol, List.getLast?_singleton] at hbottom
      exact absurd (Option.some.inj hbottom) hf
    | cons g rest => rwa [hcontrol, List.getLast?_cons_cons] at hbottom
  have habove : ∀ (f : Frame φ) {rest : List (Frame φ)}, rest.getLast? = some (.loop l code) →
      (f :: rest).getLast? = some (.loop l code) := by
    intro f rest hrest
    rw [List.getLast?_cons, hrest]
    rfl
  cases h with
  | done rest hcontrol => exact .inl (hbelow hcontrol (by intro hf; cases hf))
  | on l' entry actions rest m' hcontrol hregister =>
    obtain ⟨-, -, rfl⟩ := register_inv hregister
    exact .inl (habove _ (hbelow hcontrol (by intro hf; cases hf)))
  | shmemExit code' actions rest hcontrol =>
    exact .inl (habove _ (habove _ (hbelow hcontrol (by intro hf; cases hf))))
  | procExit code' actions rest hcontrol =>
    exact .inl (habove _ (habove _ (habove _ (hbelow hcontrol (by intro hf; cases hf)))))
  | call l' code' rest n hcontrol hn =>
    rw [hcontrol] at hbottom
    exact .inl (habove _ hbottom)
  | finish code' rest hcontrol hle =>
    cases rest with
    | nil =>
      rw [hcontrol, List.getLast?_singleton] at hbottom
      have hloop := Frame.loop.inj (Option.some.inj hbottom)
      exact .inr ⟨hloop.1.symm, rfl, Function.update_self ExitList.shmem 0 m.index⟩
    | cons g rest =>
      rw [hcontrol, List.getLast?_cons_cons] at hbottom
      exact .inl hbottom

theorem bottom_reaches (hbottom : m.control.getLast? = some (.loop l code)) (hr : m.Reaches acts m') :
    m'.control.getLast? = some (.loop l code) ∨ l = .shmem ∧ m'.control = [] ∧ m'.index .shmem = 0 := by
  induction hr with
  | refl => exact .inl hbottom
  | tail _ hstep ih =>
    rcases ih with hbottom | ⟨-, hcontrol, -⟩
    · exact (moves_of_step hstep).bottom hbottom
    · unfold Machine.step at hstep
      rw [hcontrol] at hstep
      cases hstep

/-- Why a machine can stop. -/
theorem Tracks.stop {stop : Stop} (h : Tracks start m) (hstop : m.step acts = .error stop) :
    stop = .returned ∧ m.control = [] ∨ stop = .fatal ∨
      ∃ code rest, stop = .exited code ∧ m.control = .loop .proc code :: rest ∧ m.index .proc = 0 := by
  unfold Machine.step at hstop
  split at hstop
  · rename_i hcontrol
    exact .inl ⟨(Except.error.inj hstop).symm, hcontrol⟩
  · cases hstop
  · rename_i l entry actions rest hcontrol
    unfold Machine.register at hstop
    split at hstop
    · exact .inr (.inl (Except.error.inj hstop).symm)
    · have hnonneg := (h.index l).1
      rw [if_neg (Int.not_lt.mpr hnonneg)] at hstop
      cases hstop
  · cases hstop
  · cases hstop
  · rename_i l code rest hcontrol
    unfold Machine.test at hstop
    dsimp only at hstop
    split at hstop
    · cases hstop
    · rename_i hindex
      cases l with
      | shmem => cases hstop
      | proc =>
        have hnonneg := (h.index .proc).1
        exact .inr (.inr ⟨code, rest, (Except.error.inj hstop).symm, hcontrol, by omega⟩)

/-! ## What was done -/

/-- The callbacks called so far by `proc_exit`. -/
structure InOrder (start : ExitList → List (Registered φ)) (log : Log φ) : Prop where
  once : ∀ l, (poppedFrom l log).Nodup
  known : ∀ l, ∀ r ∈ poppedFrom l log, r ∈ start l ∨ r ∈ pushedOn l log
  lifo : Lifo start log
  first : ∀ later r earlier, log = later ++ .popped .proc r :: earlier → poppedFrom .proc earlier = [] →
    Stacks.contents start earlier .shmem = []

theorem Tracks.inOrder (h : Tracks start m) (ho : Ordered start m) : InOrder start m.log := by
  refine ⟨fun l => h.lifo.nodup (h.nodup l), fun l r hr => ?_, h.lifo, ho.first⟩
  have hmem := (h.lifo.perm l).mem_iff.mp (List.mem_append_left _ hr)
  exact (List.mem_append.mp hmem).symm

/-- When `proc_exit` is through, what was pending when it started has been called. -/
theorem Tracks.all_called {rest : List (Frame φ)} (h : Tracks start m) (ho : Ordered start m)
    (hcontrol : m.control = .loop .proc code :: rest) (hindex : m.index .proc = 0) :
    ∀ l, ∀ r ∈ start l, r ∈ poppedFrom l m.log := by
  intro l r hr
  refine h.lifo.mem_poppedFrom hr ?_
  rw [h.contents]
  cases l with
  | proc =>
    rw [pending_nil (Int.le_of_eq hindex)]
    exact List.not_mem_nil
  | shmem =>
    rcases ho.top code rest hcontrol with hnil | hpopped
    · rw [hnil]
      exact List.not_mem_nil
    · exact ho.cleared hpopped r hr

/-! ## From the start of the process on -/

/-- The static variables are zero; the entries behind the index do not matter. -/
def Machine.fresh (entry : OnExit φ) : Machine φ :=
  { list := fun _ _ => ⟨entry, 0⟩, index := fun _ => 0, control := [], serial := 0, log := [] }

/-- `on_exit_reset`. -/
def Machine.onExitReset (m : Machine φ) : Machine φ := { m with index := fun _ => 0 }

/-- What the process can have come to, with no call running. -/
inductive Machine.Ready (acts : Log φ → OnExit φ → Int → List (Action φ)) : Machine φ → Prop where
  | fresh (entry : OnExit φ) : Machine.Ready acts (.fresh entry)
  | register (m m' : Machine φ) (l : ExitList) (entry : OnExit φ) :
      m.Ready acts → m.register l entry = .ok m' → Machine.Ready acts m'
  | shmemExit (m m' : Machine φ) (code : Int) :
      m.Ready acts → (m.shmemExit code).Reaches acts m' → m'.step acts = .error .returned → Machine.Ready acts m'
  | onExitReset (m : Machine φ) : m.Ready acts → Machine.Ready acts m.onExitReset

theorem sound_of_empty (h : ∀ l, m.index l = 0) : m.Sound := by
  have hnil : ∀ l, m.pending l = [] := fun l => pending_nil (Int.le_of_eq (h l))
  refine ⟨fun l => ?_, fun l r hr => ?_, fun l => ?_⟩
  · rw [h l]
    decide
  · rw [hnil] at hr
    cases hr
  · rw [hnil]
    exact List.nodup_nil

theorem Machine.Ready.sound (h : m.Ready acts) : m.Sound := by
  induction h with
  | fresh entry => exact sound_of_empty fun _ => rfl
  | register m m' l entry _ hm ih => exact ih.register hm
  | shmemExit m m' code _ hr _ ih => exact ((ih.tracks _).reaches hr).sound
  | onExitReset m _ _ => exact sound_of_empty fun _ => rfl

theorem Machine.Ready.inOrder (h : m.Ready acts) (hr : (m.procExit code).Reaches acts m') :
    InOrder m.pending m'.log := by
  have htracks : Tracks m.pending (m.procExit code) := h.sound.tracks _
  exact (htracks.reaches hr).inOrder ((ordered_procExit m code).reaches htracks hr)

/-- One `proc_exit` comes to the end of the process, by way of every callback pending at its start. -/
theorem Machine.Ready.exits {N : Nat} (h : m.Ready acts)
    (hroom : ∀ m', (m.procExit code).Reaches acts m' → m'.step acts ≠ .error .fatal)
    (hfinite : ∀ m', (m.procExit code).Reaches acts m' → registrations m'.log ≤ N) :
    ∃ m' code', (m.procExit code).Reaches acts m' ∧ m'.step acts = .error (.exited code') ∧
      ∀ l, ∀ r ∈ m.pending l, r ∈ poppedFrom l m'.log := by
  have htracks : Tracks m.pending (m.procExit code) := h.sound.tracks _
  obtain ⟨m', stop, hr, hstop⟩ := htracks.stops hfinite
  have htracks' := htracks.reaches hr
  rcases htracks'.stop hstop with ⟨-, hcontrol⟩ | rfl | ⟨code', rest, rfl, hcontrol, hindex⟩
  · have hbottom : (m.procExit code).control.getLast? = some (.loop .proc code) := rfl
    rcases bottom_reaches hbottom hr with hlast | ⟨hproc, -⟩
    · rw [hcontrol] at hlast
      cases hlast
    · cases hproc
  · exact absurd hstop (hroom m' hr)
  · have hordered := (ordered_procExit m code).reaches htracks hr
    exact ⟨m', code', hr, hstop, htracks'.all_called hordered hcontrol hindex⟩

/-- Behind `shmem_exit` its list is empty. -/
theorem Machine.Ready.shmemExit_returned (h : m.Ready acts) (hr : (m.shmemExit code).Reaches acts m')
    (hstop : m'.step acts = .error .returned) : m'.index .shmem = 0 := by
  have htracks := (h.sound.tracks [.loop .shmem code]).reaches hr
  rcases htracks.stop hstop with ⟨-, hcontrol⟩ | hfatal | ⟨code', rest, hexited, -⟩
  · have hbottom : (m.shmemExit code).control.getLast? = some (.loop .shmem code) := rfl
    rcases bottom_reaches hbottom hr with hlast | ⟨-, -, hindex⟩
    · rw [hcontrol] at hlast
      cases hlast
    · exact hindex
  · cases hfatal
  · cases hexited

/-- An empty list takes an entry. -/
theorem registers_on_empty (h : m.index l = 0) (entry : OnExit φ) :
    ∃ m', m.register l entry = .ok m' ∧ m'.pending l = [⟨entry, m.serial⟩] := by
  refine ⟨m.registered l entry, ?_, ?_⟩
  · unfold Machine.register
    rw [h]
    rfl
  · rw [pending_registered m entry (Int.le_of_eq h.symm), pending_nil (Int.le_of_eq h)]

/-- With room for what they register, the callbacks called by `proc_exit` come in order, those pending
when it started are all called if only finitely many others are registered, and `shmem_exit` leaves its
list as new. -/
theorem exit_calls_pending (acts : Log φ → OnExit φ → Int → List (Action φ)) (m : Machine φ) (code : Int)
    (h : m.Ready acts) :
    (∀ m', (m.procExit code).Reaches acts m' → InOrder m.pending m'.log) ∧
    ((∀ m', (m.procExit code).Reaches acts m' → m'.step acts ≠ .error .fatal) →
      (∃ N, ∀ m', (m.procExit code).Reaches acts m' → registrations m'.log ≤ N) →
      ∃ m' code', (m.procExit code).Reaches acts m' ∧ m'.step acts = .error (.exited code') ∧
        ∀ l, ∀ r ∈ m.pending l, r ∈ poppedFrom l m'.log) ∧
    ∀ m', (m.shmemExit code).Reaches acts m' → m'.step acts = .error .returned →
      m'.pending .shmem = [] ∧ m'.Ready acts ∧
      ∀ entry, ∃ m'', m'.register .shmem entry = .ok m'' ∧ m''.pending .shmem = [⟨entry, m'.serial⟩] := by
  refine ⟨fun m' hr => h.inOrder hr, fun hroom hfinite => ?_, fun m' hr hstop => ?_⟩
  · obtain ⟨N, hN⟩ := hfinite
    exact h.exits hroom hN
  · have hindex := h.shmemExit_returned hr hstop
    exact ⟨pending_nil (Int.le_of_eq hindex), .shmemExit m m' code h hr hstop, registers_on_empty hindex⟩

/-! ## A process whose callbacks call both functions again -/

/-- The states of a run, as far as `n` steps go. -/
def Machine.trace (acts : Log φ → OnExit φ → Int → List (Action φ)) : Nat → Machine φ → List (Machine φ)
  | 0, m => [m]
  | n + 1, m =>
    m :: match m.step acts with
      | .ok m' => Machine.trace acts n m'
      | .error _ => []

theorem mem_trace {n : Nat} (hstops : (m.trace acts n).length ≤ n) (hr : m.Reaches acts m') :
    m' ∈ m.trace acts n := by
  induction n generalizing m with
  | zero => exact absurd hstops (by simp [Machine.trace])
  | succ n ih =>
    unfold Machine.trace at hstops ⊢
    rcases hr.cases_head with rfl | ⟨m₁, hstep, hr⟩
    · exact List.mem_cons_self
    · rw [hstep] at hstops ⊢
      exact List.mem_cons_of_mem _ (ih (Nat.le_of_succ_le_succ hstops) hr)

/-- A callback that puts another one on its list and calls `shmem_exit`, and one of `proc_exit` that calls it again. -/
def reentrant (log : Log Nat) (entry : OnExit Nat) (code : Int) : List (Action Nat) :=
  match entry.function with
  | 0 => [onShmemExit 2 (UInt64.ofNat log.length), .shmemExit code]
  | 1 => [onProcExit 2 0, .procExit (code + 1)]
  | _ => []

/-- Two callbacks of each list. -/
def reentrantStart : Machine Nat :=
  let m := Machine.fresh ⟨9, 0⟩
  (((m.registered .proc ⟨2, 1⟩).registered .shmem ⟨2, 2⟩).registered .proc ⟨1, 3⟩).registered .shmem ⟨0, 4⟩

theorem reentrantStart_ready : reentrantStart.Ready reentrant :=
  .register _ _ .shmem ⟨0, 4⟩ (.register _ _ .proc ⟨1, 3⟩ (.register _ _ .shmem ⟨2, 2⟩ (.register _ _ .proc ⟨2, 1⟩
    (.fresh ⟨9, 0⟩) rfl) rfl) rfl) rfl

theorem exit_calls_pending_reentrant :
    ∃ m' code', (reentrantStart.procExit 0).Reaches reentrant m' ∧ m'.step reentrant = .error (.exited code') ∧
      ∀ l, ∀ r ∈ reentrantStart.pending l, r ∈ poppedFrom l m'.log := by
  have hstops : ((reentrantStart.procExit 0).trace reentrant 40).length ≤ 40 := by decide
  refine (exit_calls_pending reentrant reentrantStart 0 reentrantStart_ready).2.1 (fun m' hr => ?_) ⟨2, fun m' hr => ?_⟩
  · have hroom : ∀ m' ∈ (reentrantStart.procExit 0).trace reentrant 40,
        (match m'.step reentrant with | .error .fatal => false | _ => true) = true := by decide
    intro hfatal
    have hm' := hroom m' (mem_trace hstops hr)
    rw [hfatal] at hm'
    cases hm'
  · have hfew : ∀ m' ∈ (reentrantStart.procExit 0).trace reentrant 40, registrations m'.log ≤ 2 := by decide
    exact hfew m' (mem_trace hstops hr)

end PostgresV7.Ipc
