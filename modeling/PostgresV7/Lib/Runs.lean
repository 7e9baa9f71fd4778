import Mathlib.Data.List.Basic

/-!
# Runs of a labelled transition relation

A step carries a label: the operation together with whatever it returned. A run
is a list of labels. Invariants and simulations are shown for one step and lifted
to whole runs by the rules below.
-/

namespace Runs

variable {σ τ ι : Type*} {step : σ → ι → σ → Prop} {astep : τ → ι → τ → Prop}

/-- The labels of `l`, taken one after another, lead from `s` to `s'`. -/
inductive Run (step : σ → ι → σ → Prop) : σ → List ι → σ → Prop where
  | nil (s : σ) : Run step s [] s
  | cons {s s' s'' : σ} {a : ι} {l : List ι} : step s a s' → Run step s' l s'' →
      Run step s (a :: l) s''

/-- More may be a step. -/
theorem Run.mono {step' : σ → ι → σ → Prop} (hstep : ∀ s a s', step s a s' → step' s a s')
    {s s' : σ} {l : List ι} (h : Run step s l s') : Run step' s l s' := by
  induction h with
  | nil s => exact .nil s
  | cons hs₁ _ ih => exact .cons (hstep _ _ _ hs₁) ih

/-- The same run with its labels read in another way. -/
theorem Run.map {κ : Type*} (f : ι → κ) {step : σ → κ → σ → Prop} {s s' : σ} {l : List ι}
    (h : Run (fun s a s' => step s (f a) s') s l s') : Run step s (l.map f) s' := by
  induction h with
  | nil s => exact .nil s
  | cons hs₁ _ ih => exact .cons hs₁ ih

/-- What every step preserves, every run preserves. -/
theorem Run.invariant {I : σ → Prop} (hstep : ∀ s a s', I s → step s a s' → I s')
    {s s' : σ} {l : List ι} (h : Run step s l s') (hs : I s) : I s' := by
  induction h with
  | nil s => exact hs
  | cons hs₁ _ ih => exact ih (hstep _ _ _ hs hs₁)

/-- A relation each step carries over to a function of the label. -/
theorem Run.foldl {R : σ → τ → Prop} {f : τ → ι → τ}
    (hstep : ∀ s t a s', R s t → step s a s' → R s' (f t a))
    {s s' : σ} {t : τ} {l : List ι} (h : Run step s l s') (hR : R s t) : R s' (l.foldl f t) := by
  induction h generalizing t with
  | nil s => exact hR
  | cons hs₁ _ ih => exact ih (hstep _ _ _ _ hR hs₁)

/-- A forward simulation: the abstract system has a run with the same labels. -/
theorem Run.simulation (R : σ → τ → Prop) (astep : τ → ι → τ → Prop)
    (hstep : ∀ s t a s', R s t → step s a s' → ∃ t', astep t a t' ∧ R s' t')
    {s s' : σ} {t : τ} {l : List ι} (h : Run step s l s') (hR : R s t) :
    ∃ t', Run astep t l t' ∧ R s' t' := by
  induction h generalizing t with
  | nil s => exact ⟨t, .nil t, hR⟩
  | cons hs₁ _ ih =>
    obtain ⟨t₁, ht, hR₁⟩ := hstep _ _ _ _ hR hs₁
    obtain ⟨t', hrun, hR'⟩ := ih hR₁
    exact ⟨t', .cons ht hrun, hR'⟩

end Runs
