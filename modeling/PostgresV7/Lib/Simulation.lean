import PostgresV7.Lib.Outcomes

/-!
# Code that follows a model

A model says which results an operation may have. The code follows it as long as the
operations are possible in the model and meet a condition.
-/

namespace Simulation

open Outcomes

variable {ε : Type*} {Op Result Code Model : Type} {step : Code → Op → Except ε (Result × Code)}
  {model : Model → Op → Result → Model → Prop} {within : Code → Op → Result → Prop}
  {allowed : ε → Prop}

/-- Where the model has a result for the next operation, the code has one of its results
too, and so on from there. -/
def Follows (step : Code → Op → Except ε (Result × Code)) (model : Model → Op → Result → Model → Prop)
    (within : Code → Op → Result → Prop) (allowed : ε → Prop) : List Op → Code → Model → Prop
  | [], _, _ => True
  | op :: ops, c, m => (∃ result m', model m op result m' ∧ within c op result) →
      Ends allowed (step c op) fun r => ∃ m', model m op r.1 m' ∧
        Follows step model within allowed ops r.2 m'

/-- A relation that every step keeps. -/
def Simulates (step : Code → Op → Except ε (Result × Code)) (model : Model → Op → Result → Model → Prop)
    (within : Code → Op → Result → Prop) (allowed : ε → Prop) (rel : Code → Model → Prop) : Prop :=
  ∀ c m op result m', rel c m → model m op result m' → within c op result →
    Ends allowed (step c op) fun r => ∃ m', model m op r.1 m' ∧ rel r.2 m'

theorem Simulates.follows {rel : Code → Model → Prop} {ops : List Op} {c : Code} {m : Model}
    (h : Simulates step model within allowed rel) (hrel : rel c m) :
    Follows step model within allowed ops c m := by
  induction ops generalizing c m with
  | nil => trivial
  | cons op ops ih =>
    rintro ⟨result, m', hmodel, hwithin⟩
    refine (h c m op result m' hrel hmodel hwithin).mono (fun _ h => h) ?_
    rintro r ⟨m₁, hm₁, hrel₁⟩
    exact ⟨m₁, hm₁, ih hrel₁⟩

end Simulation
