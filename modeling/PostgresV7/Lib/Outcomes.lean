import Mathlib.Init

/-!
# Outcomes of fallible code

A computation that may end in an error, with the errors a caller accepts. The
rules follow the shape of the code.
-/

namespace Outcomes

variable {ε : Type*} {α β : Type} {allowed : ε → Prop} {P : α → Prop} {Q : β → Prop}

/-- The computation ends in a value with `P`, or in an error that is allowed. -/
def Ends (allowed : ε → Prop) (x : Except ε α) (P : α → Prop) : Prop :=
  match x with
  | .ok a => P a
  | .error e => allowed e

theorem Ends.bind {x : Except ε α} {f : α → Except ε β} (h : Ends allowed x P)
    (hf : ∀ a, P a → Ends allowed (f a) Q) : Ends allowed (x >>= f) Q := by
  cases x with
  | ok a => exact hf a h
  | error e => exact h

theorem Ends.mono {allowed' : ε → Prop} {P' : α → Prop} {x : Except ε α} (h : Ends allowed x P)
    (ha : ∀ e, allowed e → allowed' e) (hP : ∀ a, P a → P' a) : Ends allowed' x P' := by
  cases x with
  | ok a => exact hP a h
  | error e => exact ha e h

/-- What else is known of the value may come from a rule that accepts other errors. -/
theorem Ends.and {allowed' : ε → Prop} {P' : α → Prop} {x : Except ε α} (h : Ends allowed x P)
    (h' : Ends allowed' x P') : Ends allowed x fun a => P a ∧ P' a := by
  cases x with
  | ok a => exact ⟨h, h'⟩
  | error e => exact h

/-- The value the computation ends in is its own. -/
theorem Ends.ran {x : Except ε α} (h : Ends allowed x P) : Ends allowed x fun a => x = .ok a ∧ P a := by
  cases x with
  | ok a => exact ⟨rfl, h⟩
  | error e => exact h

/-- With all errors accepted, nothing is known but the value. -/
theorem ends_ran (x : Except ε α) : Ends (fun _ => True) x fun a => x = .ok a := by
  cases x with
  | ok a => rfl
  | error e => trivial

theorem Ends.returns {x : Except ε α} (h : Ends (fun _ => False) x P) : ∃ a, x = .ok a ∧ P a := by
  cases x with
  | ok a => exact ⟨a, rfl, h⟩
  | error e => exact h.elim

theorem Ends.of_ok {x : Except ε α} {a : α} (h : Ends allowed x P) (hx : x = .ok a) : P a := by
  rw [hx] at h
  exact h

theorem Ends.of_error {x : Except ε α} {e : ε} (h : Ends allowed x P) (hx : x = .error e) :
    allowed e := by
  rw [hx] at h
  exact h

theorem map_eq_ok {x : Except ε α} {f : α → β} {b : β} (h : x.map f = .ok b) :
    ∃ a, x = .ok a ∧ f a = b := by
  cases x with
  | error e => cases h
  | ok a => exact ⟨a, rfl, Except.ok.inj h⟩

theorem ok_bind (a : α) (f : α → Except ε β) : (Except.ok a >>= f) = f a := rfl

theorem bind_eq_ok {x : Except ε α} {f : α → Except ε β} {b : β} (h : x >>= f = .ok b) :
    ∃ a, x = .ok a ∧ f a = .ok b := by
  cases x with
  | error e => cases h
  | ok a => exact ⟨a, rfl, h⟩

/-! ## Tests -/

/-- A test of the value. -/
def okAnd (x : Except ε α) (p : α → Bool) : Bool :=
  match x with
  | .ok a => p a
  | .error _ => false

theorem okAnd_iff {x : Except ε α} {p : α → Bool} : okAnd x p = true ↔ ∃ a, x = .ok a ∧ p a = true := by
  constructor
  · intro h
    cases x with
    | error e => cases h
    | ok a => exact ⟨a, rfl, h⟩
  · rintro ⟨a, rfl, h⟩
    exact h

/-- The error, if there is one. -/
def errorOf (x : Except ε α) : Option ε :=
  match x with
  | .ok _ => none
  | .error e => some e

theorem errorOf_eq_some {x : Except ε α} {e : ε} : errorOf x = some e ↔ x = .error e := by
  constructor
  · intro h
    cases x with
    | error e' => exact congrArg Except.error (Option.some.inj h)
    | ok a => cases h
  · rintro rfl
    rfl

end Outcomes
