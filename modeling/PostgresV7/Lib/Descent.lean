import Mathlib.Data.Fintype.EquivFin
import Mathlib.Data.Set.Finite.Basic
import Mathlib.Logic.Relation
import Mathlib.Order.WellFounded

/-!
# When a recursive comparison returns

A comparison runs a script of steps one after the other, tests of its own and
calls of itself, and stops at the first that is not passed. With fuel for the
depth of the calls and for the work inside a test, it returns at some fuel
exactly when no chain of calls it really makes goes on for ever and no test it
really comes to takes for ever.
-/

namespace Descent

variable {C E : Type*}

/-- One step of a script. -/
inductive Step (C E : Type*) where
  | test (result : Except E Bool)
  | call (c : C)

/-- Runs a script up to the first step that is not passed. -/
def run (eval : C → Except E Bool) : List (Step C E) → Except E Bool
  | [] => pure true
  | .test result :: rest => do
    if !(← result) then return false
    run eval rest
  | .call c :: rest => do
    if !(← eval c) then return false
    run eval rest

/-- The second script is the first one with more fuel: a test that was out of fuel
may have a result now, and the rest may differ then. -/
inductive Approx (out : E) : List (Step C E) → List (Step C E) → Prop
  | nil : Approx out [] []
  | step {s ss ss'} : Approx out ss ss' → Approx out (s :: ss) (s :: ss')
  | stuck {ss ss'} : Approx out (.test (.error out) :: ss) ss'

theorem Approx.refl (out : E) (ss : List (Step C E)) : Approx out ss ss := by
  induction ss with
  | nil => exact .nil
  | cons s ss ih => exact .step ih

/-- A test with more fuel. -/
theorem Approx.test {out : E} {r r' : Except E Bool} {ss ss' : List (Step C E)}
    (hr : r = .error out ∨ r = r') (h : Approx out ss ss') :
    Approx out (.test r :: ss) (.test r' :: ss') := by
  rcases hr with rfl | rfl
  · exact .stuck
  · exact .step h

theorem Approx.append {out : E} {ss ss' ts ts' : List (Step C E)} (h : Approx out ss ss')
    (ht : Approx out ts ts') : Approx out (ss ++ ts) (ss' ++ ts') := by
  induction h with
  | nil => exact ht
  | step _ ih => exact .step ih
  | stuck => exact .stuck

/-- A comparison with fuel. A call that needs no fuel has nothing but its result. -/
structure Comparison (C E : Type*) where
  out : E
  script : Nat → C → List (Step C E)
  eval : Nat → C → Except E Bool
  eval_zero : ∀ c, eval 0 c = .error out ∨ ∀ n, script n c = [.test (eval 0 c)]
  eval_succ : ∀ n c, eval (n + 1) c = run (eval n) (script n c)
  script_approx : ∀ {n n'} c, n ≤ n' → Approx out (script n c) (script n' c)

variable {out : E} {eval eval' : C → Except E Bool} {ss ss' : List (Step C E)}

theorem run_append (eval : C → Except E Bool) (ss ss' : List (Step C E)) :
    run eval (ss ++ ss') = (do
      if !(← run eval ss) then return false
      run eval ss') := by
  induction ss with
  | nil => rfl
  | cons s ss ih =>
    cases s with
    | test result =>
      cases result with
      | error e => rfl
      | ok ok => cases ok <;> [rfl; exact ih]
    | call c =>
      simp only [List.cons_append, run]
      cases eval c with
      | error e => rfl
      | ok ok => cases ok <;> [rfl; exact ih]

/-- More fuel does not change a result. -/
theorem Approx.run_eq (h : Approx out ss ss')
    (heval : ∀ c, eval c = .error out ∨ eval c = eval' c) :
    run eval ss = .error out ∨ run eval ss = run eval' ss' := by
  induction h with
  | nil => exact .inr rfl
  | stuck => exact .inl rfl
  | @step s ss ss' _ ih =>
    cases s with
    | test result =>
      cases result with
      | error e => exact .inr rfl
      | ok ok => cases ok <;> [exact .inr rfl; exact ih]
    | call c =>
      rcases heval c with hc | hc
      · left
        simp [run, hc, bind, Except.bind]
      · simp only [run, ← hc]
        cases eval c with
        | error e => exact .inr rfl
        | ok ok => cases ok <;> [exact .inr rfl; exact ih]

/-- What a step comes to. -/
def Step.result (eval : C → Except E Bool) : Step C E → Except E Bool
  | .test result => result
  | .call c => eval c

/-- A script keeps its beginning with more fuel, as far as no test was out of it. -/
theorem Approx.prefix {s : Step C E} {pre post : List (Step C E)}
    (h : Approx out (pre ++ s :: post) ss) (hs : s ≠ .test (.error out))
    (hpre : .test (.error out) ∉ pre) : ∃ post', ss = pre ++ s :: post' := by
  induction pre generalizing ss with
  | nil =>
    cases h with
    | step => exact ⟨_, rfl⟩
    | stuck => exact absurd rfl hs
  | cons s' pre ih =>
    cases h with
    | step h =>
      obtain ⟨post', rfl⟩ := ih h fun hmem => hpre (List.mem_cons_of_mem s' hmem)
      exact ⟨post', rfl⟩
    | stuck => exact absurd List.mem_cons_self hpre

namespace Comparison

variable (K : Comparison C E) {c c' : C} {n n' : Nat}

/-- The comparison returns, with a result or an error, given enough fuel. -/
def Returns (c : C) : Prop := ∃ n, K.eval n c ≠ .error K.out

/-- The run goes on behind a step. -/
def Passes : Step C E → Prop
  | .test result => result = .ok true
  | .call c => ∃ n, K.eval n c = .ok true

/-- The run of `c` comes to the step `s`. -/
def Reaches (n : Nat) (c : C) (s : Step C E) : Prop :=
  ∃ pre post, K.script n c = pre ++ s :: post ∧ ∀ s' ∈ pre, K.Passes s'

/-- `c` really calls `c'`. -/
def Calls (c c' : C) : Prop := ∃ n, K.Reaches n c (.call c')

/-- A test that `c` comes to takes for ever. -/
def Endless (c : C) : Prop := ∀ n, K.Reaches n c (.test (.error K.out))

theorem eval_mono (hn : n ≤ n') : K.eval n c = .error K.out ∨ K.eval n c = K.eval n' c := by
  induction n generalizing n' c with
  | zero =>
    refine (K.eval_zero c).imp id fun hscript => ?_
    cases n' with
    | zero => rfl
    | succ n' =>
      rw [K.eval_succ, hscript]
      cases K.eval 0 c with
      | error e => rfl
      | ok ok => cases ok <;> rfl
  | succ n ih =>
    obtain ⟨n', rfl⟩ : ∃ k, n' = k + 1 := ⟨n' - 1, by omega⟩
    rw [K.eval_succ, K.eval_succ]
    exact (K.script_approx c (by omega)).run_eq fun c => ih (by omega)

/-- A step that is passed at some fuel is passed at this one, unless that is too
little. -/
theorem passes_or_out (h : ∃ n', K.eval n' c = .ok true) (n : Nat) :
    K.eval n c = .error K.out ∨ K.eval n c = .ok true := by
  obtain ⟨n', hn'⟩ := h
  rcases Nat.le_total n n' with hle | hle
  · rw [← hn']
    exact K.eval_mono hle
  · right
    have hmono := K.eval_mono (c := c) hle
    rw [hn'] at hmono
    exact (hmono.resolve_left (by simp)).symm

variable {K}

theorem run_cons_ne_out {s : Step C E} {ss : List (Step C E)}
    (h : run (K.eval n) (s :: ss) ≠ .error K.out) : s.result (K.eval n) ≠ .error K.out := by
  intro hs
  cases s <;> exact h (by simp only [Step.result] at hs; simp [run, hs, bind, Except.bind])

/-- A run that does not run out of fuel gets behind a step that is passed. -/
theorem run_tail_ne_out {s : Step C E} {ss : List (Step C E)} (hs : K.Passes s)
    (h : run (K.eval n) (s :: ss) ≠ .error K.out) : run (K.eval n) ss ≠ .error K.out := by
  cases s with
  | test result =>
    have hresult : result = .ok true := hs
    simpa [run, hresult, bind, Except.bind] using h
  | call c =>
    have hresult := (K.passes_or_out hs n).resolve_left (run_cons_ne_out h)
    simpa [run, hresult, bind, Except.bind] using h

/-- A run that does not run out of fuel does not do so at a step it reaches. -/
theorem result_ne_out {s : Step C E} {pre post ss : List (Step C E)}
    (h : Approx K.out ss (pre ++ s :: post)) (hpre : ∀ s' ∈ pre, K.Passes s')
    (hrun : run (K.eval n) ss ≠ .error K.out) : s.result (K.eval n) ≠ .error K.out := by
  induction pre generalizing ss with
  | nil =>
    cases h with
    | step => exact run_cons_ne_out hrun
    | stuck => exact absurd rfl (run_cons_ne_out hrun)
  | cons s' pre ih =>
    cases h with
    | step h =>
      exact ih h (fun s hs => hpre s (List.mem_cons_of_mem s' hs))
        (run_tail_ne_out (hpre s' (by simp)) hrun)
    | stuck => exact absurd rfl (run_cons_ne_out hrun)

theorem not_mem_of_passes {pre : List (Step C E)} (hpre : ∀ s ∈ pre, K.Passes s) :
    .test (.error K.out) ∉ pre := fun hmem => nomatch hpre _ hmem

/-! ## What returns -/

/-- A comparison that returns calls comparisons that return, with less fuel. -/
theorem eval_ne_out_of_calls (h : K.eval (n + 1) c ≠ .error K.out) (hcalls : K.Calls c c') :
    K.eval n c' ≠ .error K.out := by
  obtain ⟨n', pre, post, hscript, hpre⟩ := hcalls
  rw [K.eval_succ] at h
  rcases Nat.le_total n n' with hle | hle
  · have happrox := K.script_approx c hle
    rw [hscript] at happrox
    exact result_ne_out happrox hpre h
  · have happrox := K.script_approx c hle
    rw [hscript] at happrox
    obtain ⟨post', hpost⟩ := happrox.prefix nofun (not_mem_of_passes hpre)
    rw [hpost] at h
    exact result_ne_out (Approx.refl _ _) hpre h

/-- A call that needs no fuel calls nothing. -/
theorem not_calls_of_zero (h : K.eval 0 c ≠ .error K.out) : ¬K.Calls c c' := by
  intro ⟨n, pre, post, hscript, _⟩
  rw [(K.eval_zero c).resolve_left h n] at hscript
  cases pre <;> simp at hscript

theorem not_endless_of_eval (h : K.eval n c ≠ .error K.out) : ¬K.Endless c := by
  intro hend
  cases n with
  | zero =>
    obtain ⟨pre, post, hscript, -⟩ := hend 0
    rw [(K.eval_zero c).resolve_left h 0] at hscript
    cases pre with
    | nil =>
      have hresult : K.eval 0 c = .error K.out ∧ post = [] := by simpa using hscript
      exact h hresult.1
    | cons s pre => simp at hscript
  | succ n =>
    obtain ⟨pre, post, hscript, hpre⟩ := hend n
    rw [K.eval_succ, hscript] at h
    exact result_ne_out (Approx.refl _ _) hpre h rfl

/-- What returns has no endless chain of calls before it. -/
theorem acc_of_eval (h : K.eval n c ≠ .error K.out) : Acc (fun y x => K.Calls x y) c := by
  induction n generalizing c with
  | zero => exact ⟨c, fun c' hcalls => absurd hcalls (not_calls_of_zero h)⟩
  | succ n ih => exact ⟨c, fun c' hcalls => ih (eval_ne_out_of_calls h hcalls)⟩

theorem Returns.of_calls (h : K.Returns c) (hcalls : K.Calls c c') : K.Returns c' := by
  obtain ⟨n, hn⟩ := h
  cases n with
  | zero => exact absurd hcalls (not_calls_of_zero hn)
  | succ n => exact ⟨n, eval_ne_out_of_calls hn hcalls⟩

/-- The rest of a script runs to an end if every call it comes to returns. -/
theorem run_rest_returns (hcalls : ∀ c', K.Calls c c' → K.Returns c')
    (hend : ¬K.Reaches n c (.test (.error K.out))) {pre rest : List (Step C E)}
    (hscript : K.script n c = pre ++ rest) (hpre : ∀ s ∈ pre, K.Passes s) :
    ∃ n', run (K.eval n') rest ≠ .error K.out := by
  induction rest generalizing pre with
  | nil => exact ⟨0, by simp [run, pure, Except.pure]⟩
  | cons s rest ih =>
    have hnext : K.Passes s → ∃ n', run (K.eval n') rest ≠ .error K.out := by
      intro hs
      have hscript' : K.script n c = (pre ++ [s]) ++ rest := by simp [hscript]
      apply ih hscript'
      intro s' hs'
      rcases List.mem_append.1 hs' with hmem | hmem
      · exact hpre s' hmem
      · rwa [List.mem_singleton.1 hmem]
    cases s with
    | test result =>
      cases result with
      | error e =>
        have he : e ≠ K.out := by
          rintro rfl
          exact hend ⟨pre, rest, hscript, hpre⟩
        exact ⟨0, by simp [run, bind, Except.bind, he]⟩
      | ok ok =>
        cases ok with
        | false => exact ⟨0, by simp [run, bind, Except.bind, pure, Except.pure]⟩
        | true => exact hnext rfl
    | call c' =>
      obtain ⟨n₁, hn₁⟩ := hcalls c' ⟨n, pre, rest, hscript, hpre⟩
      cases hresult : K.eval n₁ c' with
      | error e =>
        refine ⟨n₁, ?_⟩
        rw [hresult] at hn₁
        simpa [run, hresult, bind, Except.bind] using hn₁
      | ok ok =>
        cases ok with
        | false => exact ⟨n₁, by simp [run, hresult, bind, Except.bind, pure, Except.pure]⟩
        | true =>
          obtain ⟨n₂, hn₂⟩ := hnext ⟨n₁, hresult⟩
          have h₁ : K.eval (max n₁ n₂) c' = .ok true := by
            have hmono := K.eval_mono (c := c') (Nat.le_max_left n₁ n₂)
            rw [hresult] at hmono
            exact (hmono.resolve_left (by simp)).symm
          have h₂ : run (K.eval n₂) rest = run (K.eval (max n₁ n₂)) rest :=
            ((Approx.refl K.out rest).run_eq fun c =>
              K.eval_mono (Nat.le_max_right n₁ n₂)).resolve_left hn₂
          refine ⟨max n₁ n₂, ?_⟩
          rw [h₂] at hn₂
          simpa [run, h₁, bind, Except.bind] using hn₂

/-- Without an endless chain of calls and endless tests a comparison returns. -/
theorem returns_of_acc (hacc : Acc (fun y x => K.Calls x y) c)
    (hend : ∀ x, Relation.ReflTransGen K.Calls c x → ¬K.Endless x) : K.Returns c := by
  induction hacc with
  | intro c _ ih =>
    have hcalls : ∀ c', K.Calls c c' → K.Returns c' := fun c' hc' =>
      ih c' hc' fun x hx => hend x (.head hc' hx)
    obtain ⟨n, hn⟩ := not_forall.1 (hend c .refl)
    obtain ⟨n', hn'⟩ := run_rest_returns hcalls hn (List.nil_append _).symm (by simp)
    have hle : n' ≤ max n n' := Nat.le_max_right n n'
    have happrox := K.script_approx c (Nat.le_max_left n n')
    have hsame := (happrox.run_eq fun c => K.eval_mono (c := c) hle).resolve_left hn'
    refine ⟨max n n' + 1, ?_⟩
    rwa [K.eval_succ, ← hsame]

/-- A comparison returns exactly when no chain of calls from it goes on for ever and
it comes to no test that takes for ever. -/
theorem returns_iff_acc : K.Returns c ↔ Acc (fun y x => K.Calls x y) c ∧
    ∀ x, Relation.ReflTransGen K.Calls c x → ¬K.Endless x := by
  constructor
  · intro ⟨n, hn⟩
    refine ⟨acc_of_eval hn, fun x hx => ?_⟩
    have hreturns : K.Returns x := by
      induction hx with
      | refl => exact ⟨n, hn⟩
      | tail _ hcalls ih => exact ih.of_calls hcalls
    obtain ⟨m, hm⟩ := hreturns
    exact not_endless_of_eval hm
  · intro ⟨hacc, hend⟩
    exact returns_of_acc hacc hend

end Comparison

/-! ## Finitely many calls -/

variable {r : C → C → Prop} {c : C}

/-- Where a relation goes on from finitely many places only, it goes on for ever from
`c` exactly when it leads from `c` into a cycle. -/
theorem acc_iff_no_cycle (hfin : {x | ∃ y, r x y}.Finite) :
    Acc (fun y x => r x y) c ↔
      ∀ x, Relation.ReflTransGen r c x → ¬Relation.TransGen r x x := by
  constructor
  · intro hacc x hx
    have haccx : Acc (fun y x => r x y) x := by
      induction hx with
      | refl => exact hacc
      | tail _ hstep ih => exact ih.inv hstep
    intro hcycle
    have htrans := haccx.transGen
    have hirrefl : ∀ y, Acc (Relation.TransGen fun y x => r x y) y →
        ¬Relation.TransGen (fun y x => r x y) y y := by
      intro y hy
      induction hy with
      | intro y _ ih => exact fun hyy => ih y hyy hyy
    exact hirrefl x htrans (Relation.transGen_swap.2 hcycle)
  · intro hno
    -- the places reached that go on, ordered by how they are reached
    let S := {x // Relation.ReflTransGen r c x ∧ ∃ y, r x y}
    have hS : Finite S := (hfin.subset fun x hx => hx.2).to_subtype
    have htrans : IsTrans S fun y x => Relation.TransGen r x.1 y.1 :=
      ⟨fun _ _ _ hyx hzy => hzy.trans hyx⟩
    have hirrefl : Std.Irrefl fun y x : S => Relation.TransGen r x.1 y.1 :=
      ⟨fun x hcycle => hno x.1 x.2.1 hcycle⟩
    have hwf : WellFounded fun y x : S => Relation.TransGen r x.1 y.1 :=
      Finite.wellFounded_of_trans_of_irrefl _
    have hreached : ∀ x : S, Acc (fun y x => r x y) x.1 := by
      intro x
      induction x using hwf.induction with
      | _ x ih =>
        refine ⟨x.1, fun y hy => ?_⟩
        by_cases hnext : ∃ z, r y z
        · exact ih ⟨y, x.2.1.tail hy, hnext⟩ (.single hy)
        · exact ⟨y, fun z hz => absurd ⟨z, hz⟩ hnext⟩
    by_cases hnext : ∃ y, r c y
    · exact hreached ⟨c, .refl, hnext⟩
    · exact ⟨c, fun y hy => absurd ⟨y, hy⟩ hnext⟩

end Descent
