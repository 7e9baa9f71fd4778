import PostgresV7.Ipc.Create
import PostgresV7.Lib.Critical

/-!
# A semaphore as a lock (`ipc.c`)

Processes change what they share only between `ipc_semaphore_lock` and `ipc_semaphore_unlock`,
on a semaphore that starts with the value `1`. Calls may be interrupted or fail, a process may
end at any time, and the set may be removed.
-/

namespace PostgresV7.SysV

open Threads Critical Owned

variable {ι δ : Type} {pid : ι → Int} {id : Int} {n : Nat} {i j : ι} {k k' : Kernel ι}

/-- The value of a semaphore, as long as its set is there. -/
def Kernel.semVal (k : Kernel ι) (id : Int) (n : Nat) : Option Nat :=
  match k.sets id with
  | .live semSet => (semSet.sems[n]?).map Sem.val
  | _ => none

/-- The set was removed. Its identifier is not used again. -/
def Kernel.Gone (k : Kernel ι) (id : Int) : Prop := ∃ semSet, k.sets id = .removed semSet

def Kernel.SemIs (k : Kernel ι) (id : Int) (n val : Nat) : Prop := k.semVal id n = some val ∨ k.Gone id

/-- What else happens to other objects and other semaphores of the set. -/
def Bystander (pid : ι → Int) [DecidableEq ι] (id : Int) (n : Nat) (k k' : Kernel ι) : Prop :=
  Environ pid k k' ∧ (k'.semVal id n = k.semVal id n) ∧ (k.Gone id → k'.Gone id)

/-- The calls of a process: on the semaphore by `1`, and those of `proc_exit`. -/
def Permitted (id : Int) (n : Nat) : Call → Prop
  | .semop id' n' op nowait => id' = id ∧ n' = n ∧ nowait = false ∧ (op = -1 ∨ op = 1)
  | .semctlRmid _ | .shmdt _ | .shmctlRmid _ => True
  | _ => False

def succeeds (op : Int) : Call → Answer → Bool
  | .semop _ _ op' _, .ok _ => op' == op
  | _, _ => false

/-- What a permitted call of the semaphore does, if it succeeds. -/
theorem semop_does {op : Int} {val : Nat} {a : Answer} (hs : k.SemIs id n val)
    (hexec : Kernel.exec pid i (.semop id n op false) k a k') :
    (∃ r, a = .ok r ∧ k.semVal id n = some val ∧ 0 ≤ (val : Int) + op ∧
      k'.semVal id n = some ((val : Int) + op).toNat) ∨ ((∃ e, a = .error e) ∧ k' = k) := by
  obtain ⟨-, hexec⟩ := hexec
  cases a with
  | error e => exact .inr ⟨⟨e, rfl⟩, hexec.2⟩
  | ok r =>
    obtain ⟨semSet, s, hlive, hsem, hle, rfl⟩ := hexec
    have hval : k.semVal id n = some s.val := by
      simp only [Kernel.semVal, hlive, hsem, Option.map_some]
    rcases hs with hs | ⟨q, hq⟩
    · obtain rfl : s.val = val := Option.some.inj (hval.symm.trans hs)
      refine .inl ⟨r, rfl, hval, hle, ?_⟩
      have hlt : n < semSet.sems.length := (List.getElem?_eq_some_iff.mp hsem).1
      simp only [Kernel.semVal, Kernel.putSet, Function.update_self, List.getElem?_set_self hlt, Option.map_some]
    · exact nomatch hlive.symm.trans hq

/-- Any other permitted call leaves the semaphore alone, or its set is gone afterwards. -/
theorem other_keeps {c : Call} {a : Answer} {val : Nat} (hc : Permitted id n c)
    (hother : ∀ op, c ≠ .semop id n op false) (hs : k.SemIs id n val) (hexec : Kernel.exec pid i c k a k') :
    k'.SemIs id n val := by
  obtain ⟨-, hexec⟩ := hexec
  cases a with
  | error e => exact hexec.2 ▸ hs
  | ok r =>
    cases c with
    | semop id' n' op nowait =>
      obtain ⟨rfl, rfl, rfl, -⟩ := hc
      exact absurd rfl (hother op)
    | semctlRmid id' =>
      obtain ⟨semSet, hlive, rfl⟩ := hexec
      by_cases he : id = id'
      · subst he
        exact .inr ⟨semSet, by simp only [Kernel.putSet, Function.update_self]⟩
      · simpa only [Kernel.SemIs, Kernel.semVal, Kernel.Gone, Kernel.putSet, Function.update_of_ne he] using hs
    | shmdt addr => exact hexec ▸ hs
    | shmctlRmid id' =>
      obtain ⟨seg, -, rfl⟩ := hexec
      exact hs
    | _ => exact hc.elim

/-- What a permitted call does to the semaphore. -/
inductive SemStep (id : Int) (n val : Nat) (k' : Kernel ι) (c : Call) (a : Answer) : Prop where
  | down : succeeds (-1) c a = true → succeeds 1 c a = false → 0 < val → k'.SemIs id n (val - 1) →
    SemStep id n val k' c a
  | up : succeeds (-1) c a = false → succeeds 1 c a = true → k'.SemIs id n (val + 1) → SemStep id n val k' c a
  | same : succeeds (-1) c a = false → succeeds 1 c a = false → k'.SemIs id n val → SemStep id n val k' c a

theorem sem_step {c : Call} {a : Answer} {val : Nat} (hc : Permitted id n c) (hs : k.SemIs id n val)
    (hexec : Kernel.exec pid i c k a k') : SemStep id n val k' c a := by
  by_cases hother : ∃ op, c = .semop id n op false
  · obtain ⟨op, rfl⟩ := hother
    rcases semop_does hs hexec with ⟨r, rfl, -, hle, hval⟩ | ⟨⟨e, rfl⟩, rfl⟩
    · obtain ⟨-, -, -, rfl | rfl⟩ := hc
      · refine .down rfl rfl (by omega) (.inl (hval.trans (congrArg some ?_)))
        omega
      · exact .up rfl rfl (.inl hval)
    · exact .same rfl rfl hs
  · have hkeeps := other_keeps hc (fun op he => hother ⟨op, he⟩) hs hexec
    have hnone (op : Int) : succeeds op c a = false := by
      cases c with
      | semop id' n' op' nowait =>
        obtain ⟨rfl, rfl, rfl, -⟩ := hc
        exact absurd ⟨op', rfl⟩ hother
      | semctlRmid | shmdt | shmctlRmid => rfl
      | _ => exact hc.elim
    exact .same (hnone _) (hnone _) hkeeps

variable [DecidableEq ι]

/-- The semaphore, `1` when it is free. -/
def semLock (pid : ι → Int) (id : Int) (n : Nat) : Lock ι Call (fun _ => Answer) (Kernel ι) where
  exec := Kernel.exec pid
  environ := Bystander pid id n
  permits _ := Permitted id n
  takes := succeeds (-1)
  gives := succeeds 1
  free k := k.SemIs id n 1
  taken k := k.SemIs id n 0
  take_free hc hfree hexec htakes := by
    cases sem_step hc hfree hexec with
    | down _ _ _ hk => exact hk
    | up hno | same hno => exact absurd (hno.symm.trans htakes) Bool.false_ne_true
  take_taken hc htaken hexec := by
    cases sem_step hc htaken hexec with
    | down _ _ hlt => exact absurd hlt (Nat.lt_irrefl 0)
    | up hno | same hno => exact hno
  give_taken hc htaken hexec hgives := by
    cases sem_step hc htaken hexec with
    | up _ _ hk => exact hk
    | down _ hno | same _ hno => exact absurd (hno.symm.trans hgives) Bool.false_ne_true
  keep_free hc hfree hexec htakes hgives := by
    cases sem_step hc hfree hexec with
    | down hyes => exact absurd (htakes.symm.trans hyes) Bool.false_ne_true
    | up _ hyes => exact absurd (hgives.symm.trans hyes) Bool.false_ne_true
    | same _ _ hk => exact hk
  keep_taken hc htaken hexec hgives := by
    cases sem_step hc htaken hexec with
    | down _ _ hlt => exact absurd hlt (Nat.lt_irrefl 0)
    | up _ hyes => exact absurd (hgives.symm.trans hyes) Bool.false_ne_true
    | same _ _ hk => exact hk
  environ_free henv hs := hs.imp (fun h => henv.2.1.trans h) henv.2.2
  environ_taken henv hs := hs.imp (fun h => henv.2.1.trans h) henv.2.2

/-! ## The functions -/

variable {st : State} {fuel : Nat} {code : Int}

/-- `proc_exit` runs the callbacks and does not return, so it neither takes the lock nor gives it back. -/
theorem acquires_runCallbacks {rest : Ipc Unit} (hrest : (semLock pid id n).Acquires i rest)
    (list : List Callback) :
    (semLock pid id n).Acquires i (runCallbacks list >>= fun _ => rest) := by
  induction list with
  | nil => exact hrest
  | cons callback list ih =>
    cases callback with
    | callbackSemaphoreKill | ipcMemoryDetach | ipcMemoryDelete => exact ⟨trivial, fun _ => rfl, fun _ => ih⟩
    | privateMemoryDelete => exact ih

theorem releases_runCallbacks {rest : Ipc Unit} (hrest : (semLock pid id n).Releases i rest)
    (list : List Callback) :
    (semLock pid id n).Releases i (runCallbacks list >>= fun _ => rest) := by
  induction list with
  | nil => exact hrest
  | cons callback list ih =>
    cases callback with
    | callbackSemaphoreKill | ipcMemoryDetach | ipcMemoryDelete => exact ⟨trivial, fun _ => rfl, fun _ => ih⟩
    | privateMemoryDelete => exact ih

theorem procExit_eq {α : Type} : (procExit st code : Ipc α) =
    runCallbacks st.onShmemExitList >>= fun _ => .stop (.exited code) :=
  Prog.bind_assoc ..

/-- However often it is interrupted, it returns only with the lock. -/
theorem acquires_ipcSemaphoreLock (fuel : Nat) : (semLock pid id n).Acquires i
    (ipcSemaphoreLock st id n fuel) := by
  induction fuel with
  | zero => exact trivial
  | succ fuel ih =>
    refine ⟨⟨rfl, rfl, rfl, .inl rfl⟩, fun a => by cases a <;> rfl, fun a => ?_⟩
    cases a with
    | ok r => exact rfl
    | error e =>
      show (semLock pid id n).Acquires i (if e = .EINTR then ipcSemaphoreLock st id n fuel else procExit st 255)
      split
      · exact ih
      · have hstop : (semLock pid id n).Acquires i (.stop (Halt.exited 255)) := trivial
        rw [procExit_eq]
        exact acquires_runCallbacks hstop _

theorem releases_ipcSemaphoreUnlock (fuel : Nat) : (semLock pid id n).Releases i
    (ipcSemaphoreUnlock st id n fuel) := by
  induction fuel with
  | zero => exact trivial
  | succ fuel ih =>
    refine ⟨⟨rfl, rfl, rfl, .inr rfl⟩, fun a => by cases a <;> rfl, fun a => ?_⟩
    cases a with
    | ok r => exact rfl
    | error e =>
      show (semLock pid id n).Releases i (if e = .EINTR then ipcSemaphoreUnlock st id n fuel else procExit st 255)
      split
      · exact ih
      · have hstop : (semLock pid id n).Releases i (.stop (Halt.exited 255)) := trivial
        rw [procExit_eq]
        exact releases_runCallbacks hstop _

/-! ## Processes that share a value -/

/-- The processes are about to begin, and the semaphore is free. -/
def sharing (fuel : ι → Nat) (st : ι → State) (id : Int) (n : Nat) (bodies : ι → List (Body δ)) (k : Kernel ι)
    (d : δ) :
    Config (Op Call δ) (Op.Answer fun _ => Answer) Halt ι (Shared ι (Kernel ι) δ) Unit :=
  begun (fun i => ipcSemaphoreLock (st i) id n (fuel i))
    (fun i => ipcSemaphoreUnlock (st i) id n (fuel i)) bodies k d

abbrev Sharing (pid : ι → Int) (id : Int) (n : Nat) :
    Config (Op Call δ) (Op.Answer fun _ => Answer) Halt ι (Shared ι (Kernel ι) δ) Unit →
      Config (Op Call δ) (Op.Answer fun _ => Answer) Halt ι (Shared ι (Kernel ι) δ) Unit → Prop :=
  Reaches (exec (semLock pid id n)) (environ (semLock pid id n))

variable {fuel : ι → Nat} {st : ι → State} {bodies : ι → List (Body δ)} {d : δ}
  {cfg : Config (Op Call δ) (Op.Answer fun _ => Answer) Halt ι (Shared ι (Kernel ι) δ) Unit}

/-- A process is alone with a set of one semaphore. -/
def Kernel.soloLock (val : Nat) : Kernel Unit where
  sets _ := .live ⟨1, none, [⟨val, 7⟩]⟩
  segments _ := .unused
  life _ := .alive

/-- It runs one section. -/
theorem soloLock_run (d new : δ) : ∃ s, Sharing (fun _ => 7) 0 0
    (sharing (fun _ => 1) (fun _ => .init) 0 0 (fun _ => [.store new .done]) (.soloLock 1) d)
    ⟨s, fun _ => .ret ()⟩ := by
  have hstart : Sharing (fun _ => 7) 0 0
      (sharing (fun _ => 1) (fun _ => .init) 0 0 (fun _ => [.store new .done]) (.soloLock 1) d)
        ⟨_, fun _ => _⟩ := .refl
  have htaken := hstart.alone (.ok 0) ⟨_, ⟨rfl, _, _, rfl, rfl, by decide, rfl⟩, rfl⟩
  have hstored := htaken.alone () rfl
  exact ⟨_, hstored.alone (.ok 0) ⟨_, ⟨rfl, _, _, rfl, rfl, by decide, rfl⟩, rfl⟩⟩

end PostgresV7.SysV
