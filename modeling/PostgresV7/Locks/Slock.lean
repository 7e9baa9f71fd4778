import Mathlib.Data.Fintype.BigOperators
import Mathlib.Tactic.Ring
import PostgresV7.Lib.Critical

/-!
# Spinlocks (`s_lock.h`, `s_lock.c`)

`select` between two tries is left out. `abort` ends a thread here, where it ends the process.
-/

namespace PostgresV7.Slock

open Threads Critical

def S_NSPIN_CYCLE : Nat := 20
def S_MAX_BUSY : Nat := 1000 * S_NSPIN_CYCLE

/-- What is done to a `TasLock`: `tas`, and the assignment of `LOCK_RELEASE`. -/
inductive Access where
  | tas
  | clear
  deriving DecidableEq, Repr

/-- `tas` returns what was there. -/
abbrev Access.Answer : Access → Type
  | .tas => UInt8
  | .clear => Unit

inductive Halt where
  | stuck
  deriving DecidableEq, Repr

abbrev Spin := Prog Access Access.Answer Halt

def tas : Spin UInt8 := perform Access.tas

/-- The loop of `s_lock`, with the number of times it may still fail. -/
def sLockLoop : Nat → Spin Unit
  | 0 => do
    if (← tas) ≠ 0 then .stop .stuck else pure ()
  | left + 1 => do
    if (← tas) ≠ 0 then sLockLoop left else pure ()

/-- `s_lock`. -/
def sLock : Spin Unit := sLockLoop S_MAX_BUSY

/-- `LOCK_ACQUIRE`. -/
def lockAcquire : Spin Unit := do
  if (← tas) ≠ 0 then sLock

/-- `LOCK_RELEASE`. -/
def lockRelease : Spin Unit := do
  perform Access.clear

/-! ## The lock -/

/-- `xchgb` exchanges the byte with `1` in one step. -/
def Access.exec : (c : Access) → UInt8 → c.Answer → UInt8 → Prop
  | .tas, byte, res, byte' => res = byte ∧ byte' = 1
  | .clear, _, _, byte' => byte' = 0

def Access.takes : (c : Access) → c.Answer → Bool
  | .tas, (res : UInt8) => res == 0
  | .clear, _ => false

def Access.gives : (c : Access) → c.Answer → Bool
  | .tas, _ => false
  | .clear, _ => true

/-- Only the threads touch the lock. -/
def spinlock (ι : Type) : Lock ι Access Access.Answer UInt8 where
  exec _ := Access.exec
  environ _ _ := False
  permits _ _ := True
  takes := Access.takes
  gives := Access.gives
  free byte := byte = 0
  taken byte := byte = 1
  take_free := by
    rintro _ (_ | _) _ res _ - - hexec htakes
    · exact hexec.2
    · exact nomatch htakes
  take_taken := by
    rintro _ (_ | _) _ res _ - rfl hexec
    · obtain ⟨rfl, -⟩ := hexec
      rfl
    · rfl
  give_taken := by
    rintro _ (_ | _) _ res _ - - hexec hgives
    · exact nomatch hgives
    · exact hexec
  keep_free := by
    rintro _ (_ | _) _ res _ - rfl hexec htakes hgives
    · obtain ⟨rfl, -⟩ := hexec
      exact nomatch htakes
    · exact nomatch hgives
  keep_taken := by
    rintro _ (_ | _) _ res _ - - hexec hgives
    · exact hexec.2
    · exact nomatch hgives
  environ_free h := h.elim
  environ_taken h := h.elim

/-! ## Tasks that share a value -/

variable {ι δ : Type} {i j : ι}

/-- A try that fails leads to a program that goes on trying. -/
theorem acquires_tas {p : Spin Unit} (hp : (spinlock ι).Acquires i p) :
    (spinlock ι).Acquires i (do if (← tas) ≠ 0 then p else pure ()) := by
  refine ⟨trivial, fun _ => rfl, fun res => ?_⟩
  by_cases hres : res = (0 : UInt8)
  · subst hres
    exact rfl
  · have htakes : (spinlock ι).takes .tas res = false := beq_eq_false_iff_ne.mpr hres
    rw [htakes, if_neg Bool.false_ne_true]
    show (spinlock ι).Acquires i (if res ≠ (0 : UInt8) then p else pure ())
    rw [if_pos hres]
    exact hp

theorem acquires_sLockLoop (left : Nat) : (spinlock ι).Acquires i (sLockLoop left) := by
  induction left with
  | zero => exact acquires_tas trivial
  | succ left ih => exact acquires_tas ih

theorem acquires_lockAcquire : (spinlock ι).Acquires i lockAcquire :=
  acquires_tas (acquires_sLockLoop S_MAX_BUSY)

theorem releases_lockRelease : (spinlock ι).Releases i lockRelease :=
  ⟨trivial, fun _ => rfl, fun _ => rfl⟩

/-- What a task may do only between `LOCK_ACQUIRE` and the end of `LOCK_RELEASE`. -/
def Inside : Op Access δ → Prop
  | .lock .tas => False
  | .lock .clear | .load | .store _ => True

theorem Inside.guarded {c : Op Access δ} (hc : Inside c) : (spinlock ι).Guarded c := by
  cases c with
  | lock access =>
    cases access with
    | tas => exact hc.elim
    | clear => exact ⟨(), rfl⟩
  | load | store => trivial

/-- Such a call never has to wait. -/
theorem Inside.enabled {c : Op Access δ} (hc : Inside c) (i : ι) (s : Shared ι UInt8 δ) :
    ∃ answer s', exec (spinlock ι) i c s answer s' := by
  cases c with
  | lock access =>
    cases access with
    | tas => exact hc.elim
    | clear => exact ⟨(), _, 0, rfl, rfl⟩
  | load => exact ⟨s.data, s, rfl, rfl⟩
  | store new => exact ⟨(), _, rfl⟩

/-- The tasks are about to begin, after `INIT_LOCK`. -/
def tasks (bodies : ι → List (Body δ)) (d : δ) :
    Config (Op Access δ) (Op.Answer Access.Answer) Halt ι (Shared ι UInt8 δ) Unit :=
  begun (fun _ => lockAcquire) (fun _ => lockRelease) bodies 0 d

abbrev Running [DecidableEq ι] :
    Config (Op Access δ) (Op.Answer Access.Answer) Halt ι (Shared ι UInt8 δ) Unit →
      Config (Op Access δ) (Op.Answer Access.Answer) Halt ι (Shared ι UInt8 δ) Unit → Prop :=
  Reaches (exec (spinlock ι)) (environ (spinlock ι))

/-! A task that is alone gets through its sections. -/

theorem solo_body {body : Body δ} {rest : Prog (Op Access δ) (Op.Answer Access.Answer) Halt Unit}
    {start : Config (Op Access δ) (Op.Answer Access.Answer) Halt Unit (Shared Unit UInt8 δ) Unit}
    {s : Shared Unit UInt8 δ} (h : Running start ⟨s, fun _ => body.prog >>= fun _ => rest⟩) :
    Running start ⟨{ s with data := body.run s.data }, fun _ => rest⟩ := by
  induction body generalizing s with
  | done => exact h
  | load next ih => exact ih s.data (h.alone _ ⟨rfl, rfl⟩)
  | store new next ih => exact ih (h.alone () rfl)

theorem solo_taken {body : Body δ} {bodies : List (Body δ)}
    {start : Config (Op Access δ) (Op.Answer Access.Answer) Halt Unit (Shared Unit UInt8 δ) Unit}
    {s : Shared Unit UInt8 δ} (h : Running start ⟨s, fun _ => work lockAcquire lockRelease (body :: bodies)⟩)
    (hfree : s.lock = 0) :
    Running start ⟨{ s with lock := 1, holder := some (), found := s.data },
      fun _ => body.prog >>= fun _ => onLock lockRelease >>= fun _ => work lockAcquire lockRelease bodies⟩ :=
  h.alone (0 : UInt8) ⟨1, ⟨hfree.symm, rfl⟩, rfl⟩

theorem solo_work {bodies : List (Body δ)}
    {start : Config (Op Access δ) (Op.Answer Access.Answer) Halt Unit (Shared Unit UInt8 δ) Unit}
    {s : Shared Unit UInt8 δ} (h : Running start ⟨s, fun _ => work lockAcquire lockRelease bodies⟩)
    (hfree : s.lock = 0) :
    ∃ s', Running start ⟨s', fun _ => .ret ()⟩ := by
  induction bodies generalizing s with
  | nil => exact ⟨s, h⟩
  | cons body bodies ih =>
    have hdone := solo_body (solo_taken h hfree)
    exact ih (hdone.alone () ⟨0, rfl, rfl⟩) rfl

theorem solo_run (bodies : List (Body δ)) (d : δ) :
    ∃ s, Running (tasks (fun _ : Unit => bodies) d) ⟨s, fun _ => .ret ()⟩ :=
  solo_work .refl rfl

variable [DecidableEq ι] {bodies : ι → List (Body δ)} {d : δ}
  {cfg : Config (Op Access δ) (Op.Answer Access.Answer) Halt ι (Shared ι UInt8 δ) Unit}

theorem Inside.holds (hreach : Running (tasks bodies d) cfg) {c : Op Access δ}
    {next : Op.Answer Access.Answer c → Prog (Op Access δ) (Op.Answer Access.Answer) Halt Unit}
    (hc : Inside c) (hprog : cfg.prog i = .call c next) : cfg.state.holder = some i := by
  obtain ⟨answer, s', hexec⟩ := hc.enabled i cfg.state
  exact run_holds (fun _ => acquires_lockAcquire)
    (fun _ => releases_lockRelease) rfl hreach hprog hc.guarded hexec

/-- At no time are two tasks about to read or to write the value, or to release the lock. -/
theorem slock_run_excludes (hreach : Running (tasks bodies d) cfg) {c c' : Op Access δ}
    {next : Op.Answer Access.Answer c → Prog (Op Access δ) (Op.Answer Access.Answer) Halt Unit}
    {next' : Op.Answer Access.Answer c' → Prog (Op Access δ) (Op.Answer Access.Answer) Halt Unit}
    (hc : Inside c) (hc' : Inside c') (hi : cfg.prog i = .call c next) (hj : cfg.prog j = .call c' next') :
    i = j :=
  Option.some.inj ((hc.holds hreach hi).symm.trans (hc'.holds hreach hj))

/-- One of two tasks has the lock; the other is not inside. -/
theorem slock_run_excludes_example :
    ∃ cfg, Running (tasks (fun _ : Bool => [.store (7 : Int) .done]) 5) cfg ∧
      (∃ next, cfg.prog true = .call (.store 7) next) ∧
      ∀ c next, cfg.prog false = .call c next → ¬ Inside c := by
  have htaken : Running (tasks (fun _ : Bool => [.store (7 : Int) .done]) 5) ⟨_, _⟩ :=
    .single ⟨some true, .call rfl (show exec (spinlock Bool) true (.lock .tas) _ (0 : UInt8) _ from
      ⟨1, ⟨rfl, rfl⟩, rfl⟩)⟩
  refine ⟨_, htaken, ⟨_, rfl⟩, fun c next hj hc => ?_⟩
  have hinside : Inside (.store (7 : Int)) := trivial
  exact Bool.noConfusion (show true = false from slock_run_excludes htaken hinside hc rfl hj)

/-! ## A counter -/

/-- A round of a task that adds the even numbers. -/
def countRound (i : Nat) : Body Int :=
  if i % 2 = 0 then .load fun count => .store (count + i) .done else .done

def routine (rounds : Nat) : List (Body Int) := (List.range rounds).map countRound

theorem countRound_run (i : Nat) (count : Int) :
    (countRound i).run count = count + (countRound i).run 0 := by
  unfold countRound
  split
  · simp only [Body.run, zero_add]
  · simp only [Body.run, add_zero]

/-- The even numbers below `2 * m`. -/
theorem sum_routine_even (m : Nat) :
    ((routine (2 * m)).map fun body => body.run 0).sum = m * (m - 1) := by
  induction m with
  | zero => rfl
  | succ m ih =>
    have heven : (countRound (2 * m)).run 0 = 2 * m := by
      rw [countRound, if_pos (Nat.mul_mod_right 2 m)]
      simp only [Body.run, zero_add, Nat.cast_mul, Nat.cast_ofNat]
    have hodd : (countRound (2 * m + 1)).run 0 = 0 := by
      rw [countRound, if_neg (by omega)]
      rfl
    simp only [routine] at ih ⊢
    simp only [Nat.mul_succ, List.range_succ, List.map_append, List.map_cons, List.map_nil, List.sum_append,
      List.sum_cons, List.sum_nil, ih, heven, hodd, Nat.cast_succ]
    ring

theorem foldl_counts {τ : Type} {order : List (τ × Body Int)}
    (horder : ∀ x ∈ order, ∀ count, x.2.run count = count + x.2.run 0) (count : Int) :
    order.foldl (fun count x => x.2.run count) count = count + (order.map fun x => x.2.run 0).sum := by
  induction order generalizing count with
  | nil => simp only [List.foldl_nil, List.map_nil, List.sum_nil, add_zero]
  | cons x order ih =>
    rw [List.foldl_cons, ih (fun y hy => horder y (List.mem_cons_of_mem _ hy)), horder x List.mem_cons_self,
      List.map_cons, List.sum_cons, add_assoc]

variable [Fintype ι]

/-- A sum over all sections, by tasks. -/
theorem sum_by_task (order : List (ι × Body Int)) (f : Body Int → Int) :
    (order.map fun x => f x.2).sum = ∑ i, (((order.filter fun x => x.1 = i).map Prod.snd).map f).sum := by
  induction order with
  | nil => simp only [List.map_nil, List.filter_nil, List.sum_nil, Finset.sum_const_zero]
  | cons x order ih =>
    have hfirst (i : ι) : ((((x :: order).filter fun x => x.1 = i).map Prod.snd).map f).sum =
        (if x.1 = i then f x.2 else 0) + (((order.filter fun x => x.1 = i).map Prod.snd).map f).sum := by
      by_cases hi : x.1 = i
      · simp only [List.filter_cons, hi, decide_true, if_true, List.map_cons, List.sum_cons]
      · simp only [List.filter_cons, hi, decide_false, Bool.false_eq_true, if_false, zero_add]
    simp only [hfirst, Finset.sum_add_distrib, Finset.sum_ite_eq, Finset.mem_univ, if_true, List.map_cons,
      List.sum_cons, ih]

/-- Four tasks with a hundred thousand rounds. -/
example : (4 * (50000 * (50000 - 1)) : Int) = 9999800000 := by decide

end PostgresV7.Slock
