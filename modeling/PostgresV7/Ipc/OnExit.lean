import Mathlib.Algebra.GroupWithZero.Nat
import Mathlib.Data.List.Range
import Mathlib.Logic.Relation
import PostgresV7.Lib.Stacks

/-!
# Leaving a process (`ipc.c`)

`proc_exit` and `shmem_exit` call what was registered for them. A callback may register
others and may call both functions again, so the calls are frames of a machine, which
takes one step at a time. What a callback does may depend on everything that happened before.
-/

namespace PostgresV7.Ipc

open Stacks

def MAX_ON_EXITS : Nat := 20

/-- `OnProcExitList` and `OnShmemExitList`. -/
inductive ExitList where
  | proc
  | shmem
  deriving DecidableEq, Repr

structure OnExit (φ : Type) where
  function : φ
  arg : UInt64
  deriving DecidableEq, Repr

/-- An entry of a list. The serial number tells entries apart; no function reads it. -/
structure Registered (φ : Type) where
  entry : OnExit φ
  serial : Nat
  deriving DecidableEq, Repr

/-- What a callback does that matters here. -/
inductive Action (φ : Type) where
  | on (l : ExitList) (entry : OnExit φ)
  | shmemExit (code : Int)
  | procExit (code : Int)
  deriving DecidableEq, Repr

/-- `on_proc_exit`. -/
def onProcExit {φ : Type} (function : φ) (arg : UInt64) : Action φ := .on .proc ⟨function, arg⟩

/-- `on_shmem_exit`. -/
def onShmemExit {φ : Type} (function : φ) (arg : UInt64) : Action φ := .on .shmem ⟨function, arg⟩

/-- A callback that is running, with what it will still do, or a `while` over a list. -/
inductive Frame (φ : Type) where
  | body (actions : List (Action φ))
  | loop (l : ExitList) (code : Int)
  deriving DecidableEq, Repr

abbrev Log (φ : Type) := List (Event ExitList (Registered φ))

/-- The static variables of `ipc.c`, the calls that have not returned, innermost first, and
what happened so far. -/
structure Machine (φ : Type) where
  list : ExitList → Nat → Registered φ
  index : ExitList → Int
  control : List (Frame φ)
  serial : Nat
  log : Log φ

/-- Why there is no next step. -/
inductive Stop where
  | exited (code : Int)
  | returned
  | fatal
  | outOfBounds
  deriving DecidableEq, Repr

variable {φ : Type}

/-- The entry is stored at the index, which is counted up. -/
def Machine.registered (m : Machine φ) (l : ExitList) (entry : OnExit φ) : Machine φ :=
  { m with
    list := Function.update m.list l (Function.update (m.list l) (m.index l).toNat ⟨entry, m.serial⟩)
    index := Function.update m.index l (m.index l + 1)
    serial := m.serial + 1
    log := .pushed l ⟨entry, m.serial⟩ :: m.log }

/-- `on_proc_exit` and `on_shmem_exit`. -/
def Machine.register (m : Machine φ) (l : ExitList) (entry : OnExit φ) : Except Stop (Machine φ) :=
  if m.index l ≥ MAX_ON_EXITS then .error .fatal
  else if m.index l < 0 then .error .outOfBounds
  else .ok (m.registered l entry)

/-- The test of a `while` decrements the index. Behind the loop `shmem_exit` clears it and
returns, `proc_exit` leaves the process. -/
def Machine.test (acts : Log φ → OnExit φ → Int → List (Action φ)) (m : Machine φ) (l : ExitList) (code : Int)
    (rest : List (Frame φ)) : Except Stop (Machine φ) :=
  let index := m.index l - 1
  if index ≥ 0 then
    let r := m.list l index.toNat
    .ok { m with
      index := Function.update m.index l index
      control := .body (acts (.popped l r :: m.log) r.entry code) :: .loop l code :: rest
      log := .popped l r :: m.log }
  else
    match l with
    | .shmem => .ok { m with index := Function.update m.index .shmem 0, control := rest }
    | .proc => .error (.exited code)

/-- One step. `proc_exit` does `shmem_exit` first. -/
def Machine.step (acts : Log φ → OnExit φ → Int → List (Action φ)) (m : Machine φ) :
    Except Stop (Machine φ) :=
  match m.control with
  | [] => .error .returned
  | .body [] :: rest => .ok { m with control := rest }
  | .body (.on l entry :: actions) :: rest => ({ m with control := .body actions :: rest }).register l entry
  | .body (.shmemExit code :: actions) :: rest =>
    .ok { m with control := .loop .shmem code :: .body actions :: rest }
  | .body (.procExit code :: actions) :: rest =>
    .ok { m with control := .loop .shmem code :: .loop .proc code :: .body actions :: rest }
  | .loop l code :: rest => m.test acts l code rest

/-- A call of `proc_exit`. -/
def Machine.procExit (m : Machine φ) (code : Int) : Machine φ :=
  { m with control := [.loop .shmem code, .loop .proc code], log := [] }

/-- A call of `shmem_exit`. -/
def Machine.shmemExit (m : Machine φ) (code : Int) : Machine φ :=
  { m with control := [.loop .shmem code], log := [] }

/-- What is still to be called, the latest first. -/
def Machine.pending (m : Machine φ) (l : ExitList) : List (Registered φ) :=
  (List.range (m.index l).toNat).reverse.map (m.list l)

/-- The lists as the program and earlier calls leave them. -/
structure Machine.Sound (m : Machine φ) : Prop where
  index : ∀ l, 0 ≤ m.index l ∧ m.index l ≤ MAX_ON_EXITS
  old : ∀ l, ∀ r ∈ m.pending l, r.serial < m.serial
  nodup : ∀ l, (m.pending l).Nodup

/-- Steps, none or more. -/
def Machine.Reaches (acts : Log φ → OnExit φ → Int → List (Action φ)) : Machine φ → Machine φ → Prop :=
  Relation.ReflTransGen fun m m' => m.step acts = .ok m'

/-! ## What is pending -/

variable {acts : Log φ → OnExit φ → Int → List (Action φ)} {m m' : Machine φ} {l : ExitList} {code : Int}

theorem pending_succ {n : Nat} (h : m.index l = (n + 1 : Nat)) :
    m.pending l = m.list l n :: (List.range n).reverse.map (m.list l) := by
  unfold Machine.pending
  rw [h, Int.toNat_natCast, List.range_succ, List.reverse_append, List.reverse_singleton, List.singleton_append,
    List.map_cons]

theorem pending_nil (h : m.index l ≤ 0) : m.pending l = [] := by
  unfold Machine.pending
  rw [Int.toNat_of_nonpos h]
  rfl

theorem register_inv {entry : OnExit φ} (h : m.register l entry = .ok m') :
    0 ≤ m.index l ∧ m.index l < MAX_ON_EXITS ∧ m' = m.registered l entry := by
  unfold Machine.register at h
  split at h
  · cases h
  rename_i hlt
  split at h
  · cases h
  rename_i hnonneg
  exact ⟨Int.not_lt.mp hnonneg, Int.not_le.mp hlt, (Except.ok.inj h).symm⟩

/-- The new entry is on top. -/
theorem pending_registered (m : Machine φ) (entry : OnExit φ) (h : 0 ≤ m.index l) :
    (m.registered l entry).pending l = ⟨entry, m.serial⟩ :: m.pending l := by
  obtain ⟨n, hn⟩ := Int.eq_ofNat_of_zero_le h
  have hindex : (m.registered l entry).index l = (n + 1 : Nat) := by
    unfold Machine.registered
    dsimp only
    rw [Function.update_self, hn]
    rfl
  rw [pending_succ hindex]
  unfold Machine.registered Machine.pending
  dsimp only
  rw [Function.update_self, hn, Int.toNat_natCast, Function.update_self]
  refine congrArg _ (List.map_congr_left fun i hi => ?_)
  have hlt := List.mem_range.mp (List.mem_reverse.mp hi)
  exact Function.update_of_ne (Nat.ne_of_lt hlt) _ _

theorem pending_registered_of_ne {l' : ExitList} (m : Machine φ) (entry : OnExit φ) (h : l' ≠ l) :
    (m.registered l entry).pending l' = m.pending l' := by
  unfold Machine.registered Machine.pending
  dsimp only
  rw [Function.update_of_ne h, Function.update_of_ne h]

/-- The log since a call, in which `start` was pending, says what is pending now. -/
structure Tracks (start : ExitList → List (Registered φ)) (m : Machine φ) : Prop where
  index : ∀ l, 0 ≤ m.index l ∧ m.index l ≤ MAX_ON_EXITS
  contents : ∀ l, contents start m.log l = m.pending l
  lifo : Lifo start m.log
  old : ∀ l, ∀ r ∈ pushedOn l m.log ++ start l, r.serial < m.serial
  nodup : ∀ l, (pushedOn l m.log ++ start l).Nodup

variable {start : ExitList → List (Registered φ)}

/-- The calls do not matter. -/
theorem Tracks.control (h : Tracks start m) (control : List (Frame φ)) : Tracks start { m with control := control } :=
  ⟨h.index, h.contents, h.lifo, h.old, h.nodup⟩

theorem Tracks.register {entry : OnExit φ} (h : Tracks start m) (hm : m.register l entry = .ok m') :
    Tracks start m' := by
  obtain ⟨hnonneg, hlt, rfl⟩ := register_inv hm
  have hpushed : ∀ l', pushedOn l' (m.registered l entry).log =
      (if l = l' then [⟨entry, m.serial⟩] else []) ++ pushedOn l' m.log := by
    intro l'
    by_cases hl : l = l' <;> simp [Machine.registered, pushedOn, Event.pushedOn?, hl]
  refine ⟨fun l' => ?_, fun l' => ?_, h.lifo.push, fun l' r hr => ?_, fun l' => ?_⟩
  · unfold Machine.registered
    dsimp only
    by_cases hl : l' = l
    · subst hl
      rw [Function.update_self]
      omega
    · rw [Function.update_of_ne hl]
      exact h.index l'
  · show Stacks.contents start (.pushed l ⟨entry, m.serial⟩ :: m.log) l' = _
    by_cases hl : l' = l
    · subst hl
      rw [Stacks.contents, Function.update_self, h.contents, pending_registered m entry hnonneg]
    · rw [Stacks.contents, Function.update_of_ne hl, h.contents, pending_registered_of_ne m entry hl]
  · rw [hpushed, List.append_assoc] at hr
    rcases List.mem_append.mp hr with hnew | hold
    · split at hnew
      · obtain rfl := List.mem_singleton.mp hnew
        exact Nat.lt_succ_self _
      · cases hnew
    · exact Nat.lt_succ_of_lt (h.old l' r hold)
  · rw [hpushed, List.append_assoc]
    split
    · refine List.nodup_cons.mpr ⟨fun hmem => ?_, h.nodup l'⟩
      exact absurd (h.old l' _ hmem) (Nat.lt_irrefl _)
    · exact h.nodup l'

/-- A call takes the latest entry. -/
theorem Tracks.called {n : Nat} (h : Tracks start m) (hn : m.index l = (n + 1 : Nat)) (control : List (Frame φ)) :
    Tracks start { m with
      index := Function.update m.index l n
      control := control
      log := .popped l (m.list l n) :: m.log } := by
  have hpending := pending_succ hn
  have hpushed : ∀ l', pushedOn l' (.popped l (m.list l n) :: m.log) = pushedOn l' m.log := fun _ => rfl
  refine ⟨fun l' => ?_, fun l' => ?_, h.lifo.pop ?_, fun l' => ?_, fun l' => ?_⟩
  · by_cases hl : l' = l
    · subst hl
      have hle := h.index l'
      dsimp only
      rw [Function.update_self]
      omega
    · dsimp only
      rw [Function.update_of_ne hl]
      exact h.index l'
  · by_cases hl : l' = l
    · subst hl
      rw [Stacks.contents, Function.update_self, h.contents, hpending, List.tail_cons]
      unfold Machine.pending
      dsimp only
      rw [Function.update_self, Int.toNat_natCast]
    · rw [Stacks.contents, Function.update_of_ne hl, h.contents]
      unfold Machine.pending
      dsimp only
      rw [Function.update_of_ne hl]
  · rw [h.contents, hpending]
    rfl
  · exact h.old l'
  · exact h.nodup l'

/-! ## One step -/

/-- What one step can be. -/
inductive Moves (acts : Log φ → OnExit φ → Int → List (Action φ)) (m : Machine φ) : Machine φ → Prop where
  | done (rest : List (Frame φ)) : m.control = .body [] :: rest → Moves acts m { m with control := rest }
  | on (l : ExitList) (entry : OnExit φ) (actions : List (Action φ)) (rest : List (Frame φ)) (m' : Machine φ) :
      m.control = .body (.on l entry :: actions) :: rest →
      ({ m with control := .body actions :: rest } : Machine φ).register l entry = .ok m' → Moves acts m m'
  | shmemExit (code : Int) (actions : List (Action φ)) (rest : List (Frame φ)) :
      m.control = .body (.shmemExit code :: actions) :: rest →
      Moves acts m { m with control := .loop .shmem code :: .body actions :: rest }
  | procExit (code : Int) (actions : List (Action φ)) (rest : List (Frame φ)) :
      m.control = .body (.procExit code :: actions) :: rest →
      Moves acts m { m with control := .loop .shmem code :: .loop .proc code :: .body actions :: rest }
  | call (l : ExitList) (code : Int) (rest : List (Frame φ)) (n : Nat) :
      m.control = .loop l code :: rest → m.index l = (n + 1 : Nat) →
      Moves acts m { m with
        index := Function.update m.index l n
        control := .body (acts (.popped l (m.list l n) :: m.log) (m.list l n).entry code) :: .loop l code :: rest
        log := .popped l (m.list l n) :: m.log }
  | finish (code : Int) (rest : List (Frame φ)) :
      m.control = .loop .shmem code :: rest → m.index .shmem ≤ 0 →
      Moves acts m { m with index := Function.update m.index .shmem 0, control := rest }

theorem moves_of_step (h : m.step acts = .ok m') : Moves acts m m' := by
  unfold Machine.step at h
  split at h
  · cases h
  · rename_i rest hcontrol
    obtain rfl := Except.ok.inj h
    exact .done rest hcontrol
  · rename_i l entry actions rest hcontrol
    exact .on l entry actions rest m' hcontrol h
  · rename_i code actions rest hcontrol
    obtain rfl := Except.ok.inj h
    exact .shmemExit code actions rest hcontrol
  · rename_i code actions rest hcontrol
    obtain rfl := Except.ok.inj h
    exact .procExit code actions rest hcontrol
  · rename_i l code rest hcontrol
    unfold Machine.test at h
    dsimp only at h
    split at h
    · rename_i hindex
      obtain ⟨n, hn⟩ := Int.eq_ofNat_of_zero_le hindex
      obtain rfl := Except.ok.inj h
      have hsucc : m.index l = (n + 1 : Nat) := by
        push_cast
        omega
      rw [hn, Int.toNat_natCast]
      exact .call l code rest n hcontrol hsucc
    · rename_i hindex
      cases l with
      | proc => cases h
      | shmem =>
        obtain rfl := Except.ok.inj h
        exact .finish code rest hcontrol (by omega)

/-- An empty list stays as it is when its index is cleared. -/
theorem Tracks.cleared (h : Tracks start m) (hle : m.index .shmem ≤ 0) :
    Function.update m.index .shmem 0 = m.index := by
  have hnonneg := (h.index .shmem).1
  rw [show (0 : Int) = m.index .shmem by omega, Function.update_eq_self]

theorem Tracks.moves (h : Tracks start m) (hm : Moves acts m m') : Tracks start m' := by
  cases hm with
  | done rest hcontrol => exact h.control rest
  | on l entry actions rest m' hcontrol hregister => exact (h.control _).register hregister
  | shmemExit code actions rest hcontrol => exact h.control _
  | procExit code actions rest hcontrol => exact h.control _
  | call l code rest n hcontrol hn => exact h.called hn _
  | finish code rest hcontrol hle =>
    rw [h.cleared hle]
    exact h.control rest

/-- Where the loop of `proc_exit` is, the one of `shmem_exit` is still to be done, or callbacks of
`proc_exit` were called already. -/
def Above (log : Log φ) (f g : Frame φ) : Prop :=
  ∀ code, g = .loop .proc code → (∃ code', f = .loop .shmem code') ∨ poppedFrom .proc log ≠ []

/-- The callbacks of `shmem_exit` come first. -/
structure Ordered (start : ExitList → List (Registered φ)) (m : Machine φ) : Prop where
  above : m.control.IsChain (Above m.log)
  top : ∀ code rest, m.control = .loop .proc code :: rest → m.pending .shmem = [] ∨ poppedFrom .proc m.log ≠ []
  cleared : poppedFrom .proc m.log ≠ [] → ∀ r ∈ start .shmem, r ∉ m.pending .shmem
  first : ∀ later r earlier, m.log = later ++ .popped .proc r :: earlier → poppedFrom .proc earlier = [] →
    Stacks.contents start earlier .shmem = []

variable {log log' : Log φ} {f : Frame φ} {actions : List (Action φ)} {rest : List (Frame φ)}

/-- What is below a callback may be below anything. -/
theorem chain_below_body (h : (Frame.body actions :: rest).IsChain (Above log)) (f : Frame φ) :
    (f :: rest).IsChain (Above log) := by
  obtain ⟨hhead, htail⟩ := List.isChain_cons.mp h
  refine List.isChain_cons.mpr ⟨fun g hg code hcode => ?_, htail⟩
  obtain ⟨code', hbody⟩ | hpopped := hhead g hg code hcode
  · cases hbody
  · exact .inr hpopped

/-- A callback may be above anything but the loop of `proc_exit`. -/
theorem chain_body_above (h : (f :: rest).IsChain (Above log))
    (hf : ∀ code, f = .loop .proc code → poppedFrom .proc log ≠ []) :
    (.body actions :: f :: rest).IsChain (Above log) := by
  refine List.isChain_cons.mpr ⟨fun g hg code hcode => ?_, h⟩
  obtain rfl := Option.some.inj hg
  exact .inr (hf code hcode)

theorem chain_mono (h : rest.IsChain (Above log)) (hlog : poppedFrom .proc log ≠ [] → poppedFrom .proc log' ≠ []) :
    rest.IsChain (Above log') := by
  refine h.imp fun f g habove code hcode => ?_
  exact (habove code hcode).imp_right hlog

theorem Ordered.control (h : Ordered start m) {control : List (Frame φ)} (habove : control.IsChain (Above m.log))
    (htop : ∀ code rest, control = .loop .proc code :: rest → m.pending .shmem = [] ∨ poppedFrom .proc m.log ≠ []) :
    Ordered start { m with control := control } :=
  ⟨habove, htop, h.cleared, h.first⟩

theorem Ordered.register {entry : OnExit φ} (h : Ordered start m) (ht : Tracks start m)
    (hcontrol : m.control = .body actions :: rest) (hm : m.register l entry = .ok m') : Ordered start m' := by
  have ht' := ht.register hm
  obtain ⟨-, -, rfl⟩ := register_inv hm
  refine ⟨h.above, fun code rest' hrest => ?_, fun hpopped r hr => ?_, fun later r earlier hlog hearlier => ?_⟩
  · cases hcontrol.symm.trans hrest
  · rw [← ht'.contents]
    show r ∉ Stacks.contents start (.pushed l ⟨entry, m.serial⟩ :: m.log) .shmem
    have hold := h.cleared hpopped r hr
    rw [← ht.contents] at hold
    by_cases hl : ExitList.shmem = l
    · subst hl
      rw [Stacks.contents, Function.update_self]
      intro hmem
      rcases List.mem_cons.mp hmem with rfl | hmem
      · exact absurd (ht.old .shmem _ (List.mem_append_right _ hr)) (Nat.lt_irrefl _)
      · exact hold hmem
    · rwa [Stacks.contents, Function.update_of_ne hl]
  · cases later with
    | nil => cases hlog
    | cons e later => exact h.first later r earlier (List.cons.inj hlog).2 hearlier

/-- The next callback of `shmem_exit`. -/
theorem Ordered.callShmem {n : Nat} (h : Ordered start m) (hcontrol : m.control = .loop .shmem code :: rest)
    (hn : m.index .shmem = (n + 1 : Nat)) :
    Ordered start { m with
      index := Function.update m.index .shmem n
      control := .body actions :: .loop .shmem code :: rest
      log := .popped .shmem (m.list .shmem n) :: m.log } := by
  have habove := h.above
  rw [hcontrol] at habove
  refine ⟨chain_body_above habove fun code hcode => ?_, fun code rest' hrest => ?_, fun hpopped r hr hmem => ?_,
    fun later r earlier hlog hearlier => ?_⟩
  · cases hcode
  · cases hrest
  · refine h.cleared hpopped r hr ?_
    rw [pending_succ hn]
    refine List.mem_cons_of_mem _ ?_
    unfold Machine.pending at hmem
    dsimp only at hmem
    rwa [Function.update_self, Int.toNat_natCast] at hmem
  · cases later with
    | nil => cases hlog
    | cons e later => exact h.first later r earlier (List.cons.inj hlog).2 hearlier

/-- The next callback of `proc_exit`. -/
theorem Ordered.callProc {n : Nat} (h : Ordered start m) (ht : Tracks start m)
    (hcontrol : m.control = .loop .proc code :: rest) :
    Ordered start { m with
      index := Function.update m.index .proc n
      control := .body actions :: .loop .proc code :: rest
      log := .popped .proc (m.list .proc n) :: m.log } := by
  have habove := h.above
  rw [hcontrol] at habove
  have hpopped : poppedFrom .proc (.popped .proc (m.list .proc n) :: m.log) ≠ [] := by
    simp [poppedFrom, Event.poppedFrom?]
  have htop := h.top code rest hcontrol
  refine ⟨chain_body_above (chain_mono habove fun _ => hpopped) fun _ _ => hpopped, fun code rest' hrest => ?_,
    fun _ r hr => ?_, fun later r earlier hlog hearlier => ?_⟩
  · cases hrest
  · show r ∉ m.pending .shmem
    rcases htop with hnil | hold
    · rw [hnil]
      exact List.not_mem_nil
    · exact h.cleared hold r hr
  · cases later with
    | nil =>
      obtain ⟨-, rfl⟩ := List.cons.inj hlog
      rw [ht.contents]
      exact htop.resolve_right fun hne => hne hearlier
    | cons e later => exact h.first later r earlier (List.cons.inj hlog).2 hearlier

theorem Ordered.moves (h : Ordered start m) (ht : Tracks start m) (hm : Moves acts m m') : Ordered start m' := by
  have habove := h.above
  cases hm with
  | done rest hcontrol =>
    rw [hcontrol] at habove
    refine h.control (List.isChain_cons.mp habove).2 fun code rest' hrest => ?_
    obtain ⟨code', hbody⟩ | hpopped := (List.isChain_cons.mp habove).1 _ (by rw [hrest]; rfl) code rfl
    · cases hbody
    · exact .inr hpopped
  | on l entry actions rest m' hcontrol hregister =>
    rw [hcontrol] at habove
    exact (h.control (chain_below_body habove _) (fun _ _ hrest => by cases hrest)).register (ht.control _) rfl hregister
  | shmemExit code actions rest hcontrol =>
    rw [hcontrol] at habove
    refine h.control (List.isChain_cons.mpr ⟨fun g hg code hcode => ?_, chain_below_body habove _⟩)
      fun _ _ hrest => by cases hrest
    obtain rfl := Option.some.inj hg
    cases hcode
  | procExit code actions rest hcontrol =>
    rw [hcontrol] at habove
    refine h.control (List.isChain_cons.mpr ⟨fun g hg _ _ => .inl ⟨code, rfl⟩, List.isChain_cons.mpr ⟨fun g hg code hcode => ?_,
      chain_below_body habove _⟩⟩) fun _ _ hrest => by cases hrest
    obtain rfl := Option.some.inj hg
    cases hcode
  | call l code rest n hcontrol hn =>
    cases l with
    | shmem => exact h.callShmem hcontrol hn
    | proc => exact h.callProc ht hcontrol
  | finish code rest hcontrol hle =>
    rw [hcontrol] at habove
    rw [ht.cleared hle]
    exact h.control (List.isChain_cons.mp habove).2 fun _ _ _ => .inl (pending_nil hle)

/-! ## All steps -/

theorem Tracks.reaches (h : Tracks start m) (hr : m.Reaches acts m') : Tracks start m' := by
  induction hr with
  | refl => exact h
  | tail _ hstep ih => exact ih.moves (moves_of_step hstep)

theorem Ordered.reaches (h : Ordered start m) (ht : Tracks start m) (hr : m.Reaches acts m') : Ordered start m' := by
  induction hr with
  | refl => exact h
  | tail hprefix hstep ih => exact ih.moves (ht.reaches hprefix) (moves_of_step hstep)

/-- How many callbacks were registered. -/
def registrations (log : Log φ) : Nat := (pushedOn .proc log).length + (pushedOn .shmem log).length

/-- How many callbacks were called. -/
def calls (log : Log φ) : Nat := (poppedFrom .proc log).length + (poppedFrom .shmem log).length

def Frame.weight : Frame φ → Nat
  | .body actions => 3 * actions.length + 1
  | .loop _ _ => 1

/-- What is left to do without another call. -/
def Machine.weight (m : Machine φ) : Nat := (m.control.map Frame.weight).sum

theorem Tracks.calls_le (h : Tracks start m) :
    calls m.log ≤ registrations m.log + (start .proc).length + (start .shmem).length := by
  have hproc := (h.lifo.perm .proc).length_eq
  have hshmem := (h.lifo.perm .shmem).length_eq
  rw [List.length_append, List.length_append] at hproc hshmem
  unfold calls registrations
  omega

theorem Moves.measure (h : Moves acts m m') :
    calls m'.log = calls m.log + 1 ∨ calls m'.log = calls m.log ∧ m'.weight < m.weight := by
  cases h with
  | done rest hcontrol =>
    refine .inr ⟨rfl, ?_⟩
    unfold Machine.weight
    rw [hcontrol]
    simp [Frame.weight]
  | on l entry actions rest m' hcontrol hregister =>
    obtain ⟨-, -, rfl⟩ := register_inv hregister
    refine .inr ⟨rfl, ?_⟩
    unfold Machine.weight
    rw [hcontrol]
    simp [Machine.registered, Frame.weight]
  | shmemExit code actions rest hcontrol =>
    refine .inr ⟨rfl, ?_⟩
    unfold Machine.weight
    rw [hcontrol]
    simp [Frame.weight]
    omega
  | procExit code actions rest hcontrol =>
    refine .inr ⟨rfl, ?_⟩
    unfold Machine.weight
    rw [hcontrol]
    simp [Frame.weight]
    omega
  | call l code rest n hcontrol hn =>
    left
    unfold calls
    cases l <;> simp [poppedFrom, Event.poppedFrom?] <;> omega
  | finish code rest hcontrol hle =>
    refine .inr ⟨rfl, ?_⟩
    unfold Machine.weight
    rw [hcontrol]
    simp [Frame.weight]

/-- With finitely many registrations, there is a last step. -/
theorem Tracks.stops {N : Nat} (h : Tracks start m) (hfinite : ∀ m', m.Reaches acts m' → registrations m'.log ≤ N) :
    ∃ m' stop, m.Reaches acts m' ∧ m'.step acts = .error stop := by
  induction hk : N + (start .proc).length + (start .shmem).length - calls m.log using Nat.strong_induction_on
    generalizing m with
  | _ k ihcalls =>
    induction hw : m.weight using Nat.strong_induction_on generalizing m with
    | _ w ihweight =>
      cases hstep : m.step acts with
      | error stop => exact ⟨m, stop, .refl, hstep⟩
      | ok m₁ =>
        have hmoves := moves_of_step hstep
        have h₁ := h.moves hmoves
        have hfinite₁ : ∀ m', m₁.Reaches acts m' → registrations m'.log ≤ N :=
          fun m' hr => hfinite m' (.head hstep hr)
        have hbound₁ := h₁.calls_le
        have hN := hfinite₁ m₁ .refl
        obtain ⟨m', stop, hr, hstop⟩ : ∃ m' stop, m₁.Reaches acts m' ∧ m'.step acts = .error stop := by
          rcases hmoves.measure with hcalls | ⟨hcalls, hweight⟩
          · exact ihcalls _ (by omega) h₁ hfinite₁ rfl
          · exact ihweight _ (by omega) h₁ hfinite₁ (by omega) rfl
        exact ⟨m', stop, .head hstep hr, hstop⟩

end PostgresV7.Ipc
