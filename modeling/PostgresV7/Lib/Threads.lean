import Mathlib.Logic.Function.Basic
import Mathlib.Logic.Relation

/-!
# Threads over shared state

A thread runs a program, which makes one call after another. Between two calls of a thread
the others and the environment take any number of steps. A protocol says what each thread
may rely on; a program that keeps to it when it runs with such interference keeps to it in
every interleaving.
-/

namespace Threads

/-- A program that makes calls. Where it stops, nothing behind it runs. -/
inductive Prog (Call : Type) (Answer : Call → Type) (Stop α : Type) where
  | ret (a : α)
  | stop (reason : Stop)
  | call (c : Call) (next : Answer c → Prog Call Answer Stop α)

variable {Call Stop ι σ α β : Type} {Answer : Call → Type}

def Prog.bind : Prog Call Answer Stop α → (α → Prog Call Answer Stop β) → Prog Call Answer Stop β
  | .ret a, f => f a
  | .stop reason, _ => .stop reason
  | .call c next, f => .call c fun answer => (next answer).bind f

instance : Monad (Prog Call Answer Stop) where
  pure := .ret
  bind := Prog.bind

theorem Prog.bind_assoc {γ : Type} (p : Prog Call Answer Stop α) (f : α → Prog Call Answer Stop β)
    (g : β → Prog Call Answer Stop γ) : p >>= f >>= g = p >>= fun a => f a >>= g := by
  induction p with
  | ret | stop => rfl
  | call c next ih => exact congrArg (Prog.call c) (funext ih)

/-- A single call. -/
def perform (c : Call) : Prog Call Answer Stop (Answer c) := .call c .ret

/-! ## Interleavings -/

/-- The shared state, and what each thread has still to do. -/
structure Config (Call : Type) (Answer : Call → Type) (Stop ι σ α : Type) where
  state : σ
  prog : ι → Prog Call Answer Stop α

/-- One call of a thread, or one step of the environment. -/
inductive Step [DecidableEq ι] (exec : ι → (c : Call) → σ → Answer c → σ → Prop) (environ : σ → σ → Prop) :
    Option ι → Config Call Answer Stop ι σ α → Config Call Answer Stop ι σ α → Prop where
  | call {i : ι} {cfg : Config Call Answer Stop ι σ α} {c : Call} {next : Answer c → Prog Call Answer Stop α}
      {answer : Answer c} {s : σ} :
      cfg.prog i = .call c next → exec i c cfg.state answer s →
      Step exec environ (some i) cfg ⟨s, Function.update cfg.prog i (next answer)⟩
  | environ {cfg : Config Call Answer Stop ι σ α} {s : σ} :
      environ cfg.state s → Step exec environ none cfg ⟨s, cfg.prog⟩

/-- Any number of steps of any threads. -/
def Reaches [DecidableEq ι] (exec : ι → (c : Call) → σ → Answer c → σ → Prop) (environ : σ → σ → Prop) :
    Config Call Answer Stop ι σ α → Config Call Answer Stop ι σ α → Prop :=
  Relation.ReflTransGen fun cfg cfg' => ∃ who, Step exec environ who cfg cfg'

/-! ## Protocols -/

/-- An invariant of the state, what each thread may rely on while others take steps, and what
it guarantees when it makes a call. -/
structure Protocol (ι Call σ : Type) where
  inv : σ → Prop
  rely : ι → σ → σ → Prop
  guar : ι → Call → σ → σ → Prop
  refl : ∀ i s, rely i s s
  trans : ∀ i s t u, rely i s t → rely i t u → rely i s u
  compat : ∀ i j c s t, j ≠ i → inv s → guar i c s t → rely j s t

/-- A call of the thread that keeps the invariant and its guarantee. -/
def Protocol.Keeps (P : Protocol ι Call σ) (i : ι) (c : Call) (s s' : σ) : Prop := P.inv s' ∧ P.guar i c s s'

variable {exec : ι → (c : Call) → σ → Answer c → σ → Prop} {environ : σ → σ → Prop} {P : Protocol ι Call σ} {i : ι}

/-- Whatever the others do in between, each call of the program keeps to the protocol, and it
ends with the postcondition, or for a reason it may stop for. -/
def Meets (exec : ι → (c : Call) → σ → Answer c → σ → Prop) (P : Protocol ι Call σ) (i : ι) (stops : Stop → σ → Prop)
    (post : α → σ → Prop) : Prog Call Answer Stop α → σ → Prop
  | .ret a, s => post a s
  | .stop reason, s => stops reason s
  | .call c next, s => P.inv s → ∀ answer s', exec i c s answer s' → P.Keeps i c s s' ∧
      ∀ s'', P.rely i s' s'' → P.inv s'' → Meets exec P i stops post (next answer) s''

variable {stops : Stop → σ → Prop} {post post' : α → σ → Prop} {p : Prog Call Answer Stop α} {s : σ}

theorem meets_ret {a : α} (h : post a s) : Meets exec P i stops post (.ret a) s := h

theorem meets_pure {a : α} (h : post a s) : Meets exec P i stops post (pure a) s := h

theorem meets_stop {reason : Stop} (h : stops reason s) :
    Meets exec P i stops post (.stop reason) s := h

/-- What follows a call is met in every state the others may have brought about. -/
theorem meets_perform {c : Call} {post : Answer c → σ → Prop}
    (h : P.inv s → ∀ answer s', exec i c s answer s' → P.Keeps i c s s' ∧
      ∀ s'', P.rely i s' s'' → P.inv s'' → post answer s'') :
    Meets exec P i stops post (perform c) s := h

theorem Meets.bind {f : α → Prog Call Answer Stop β} {post : β → σ → Prop}
    (h : Meets exec P i stops (fun a s => Meets exec P i stops post (f a) s) p s) :
    Meets exec P i stops post (p >>= f) s := by
  induction p generalizing s with
  | ret a => exact h
  | stop reason => exact h
  | call c next ih =>
    intro hinv answer s' hexec
    obtain ⟨hkeeps, hnext⟩ := h hinv answer s' hexec
    exact ⟨hkeeps, fun s'' hrely hinv => ih answer (hnext s'' hrely hinv)⟩

theorem Meets.mono {stops' : Stop → σ → Prop} (h : Meets exec P i stops post p s)
    (hstops : ∀ reason s, stops reason s → stops' reason s) (hpost : ∀ a s, post a s → post' a s) :
    Meets exec P i stops' post' p s := by
  induction p generalizing s with
  | ret a => exact hpost a s h
  | stop reason => exact hstops reason s h
  | call c next ih =>
    intro hinv answer s' hexec
    obtain ⟨hkeeps, hnext⟩ := h hinv answer s' hexec
    exact ⟨hkeeps, fun s'' hrely hinv => ih answer (hnext s'' hrely hinv)⟩

theorem Meets.imp (h : Meets exec P i stops post p s) (hpost : ∀ a s, post a s → post' a s) :
    Meets exec P i stops post' p s :=
  h.mono (fun _ _ hr => hr) hpost

/-! ## Many threads -/

/-- Each thread meets its postcondition, whatever the others are about to do. -/
def Sound (exec : ι → (c : Call) → σ → Answer c → σ → Prop) (P : Protocol ι Call σ) (stops : ι → Stop → σ → Prop)
    (post : ι → α → σ → Prop) (cfg : Config Call Answer Stop ι σ α) : Prop :=
  P.inv cfg.state ∧ ∀ i s, P.rely i cfg.state s → P.inv s → Meets exec P i (stops i) (post i) (cfg.prog i) s

variable {stops : ι → Stop → σ → Prop} {post : ι → α → σ → Prop} {who : Option ι}
  {cfg cfg' : Config Call Answer Stop ι σ α}

/-- The environment keeps the invariant and what the threads rely on. -/
def Protocol.Admits (P : Protocol ι Call σ) (environ : σ → σ → Prop) : Prop :=
  ∀ s s', P.inv s → environ s s' → P.inv s' ∧ ∀ j, P.rely j s s'

theorem Sound.now (h : Sound exec P stops post cfg) (i : ι) :
    Meets exec P i (stops i) (post i) (cfg.prog i) cfg.state :=
  h.2 i cfg.state (P.refl i _) h.1

/-- A thread that is done has met its postcondition. -/
theorem Sound.done (h : Sound exec P stops post cfg) {a : α} (hdone : cfg.prog i = .ret a) :
    post i a cfg.state := by
  have hnow := h.now i
  rwa [hdone] at hnow

theorem Sound.stopped (h : Sound exec P stops post cfg) {reason : Stop} (hstop : cfg.prog i = .stop reason) :
    stops i reason cfg.state := by
  have hnow := h.now i
  rwa [hstop] at hnow

variable [DecidableEq ι]

/-- What a step does: a thread keeps to the protocol, or it is the environment. -/
theorem Sound.kept (h : Sound exec P stops post cfg) (hstep : Step exec environ who cfg cfg') :
    (∃ i c, who = some i ∧ P.Keeps i c cfg.state cfg'.state) ∨
      (who = none ∧ environ cfg.state cfg'.state) := by
  cases hstep with
  | call hprog hexec =>
    rename_i i c next answer s
    have hnow := h.now i
    rw [hprog] at hnow
    exact .inl ⟨i, c, rfl, (hnow h.1 _ _ hexec).1⟩
  | environ henv => exact .inr ⟨rfl, henv⟩

theorem Sound.step (henv : P.Admits environ) (h : Sound exec P stops post cfg)
    (hstep : Step exec environ who cfg cfg') : Sound exec P stops post cfg' := by
  cases hstep with
  | call hprog hexec =>
    rename_i i c next answer s
    have hnow := h.now i
    rw [hprog] at hnow
    obtain ⟨hkeeps, hnext⟩ := hnow h.1 _ _ hexec
    refine ⟨hkeeps.1, fun j s' hrely hinv => ?_⟩
    by_cases hj : j = i
    · subst hj
      simp only [Function.update_self]
      exact hnext s' hrely hinv
    · simp only [Function.update_of_ne hj]
      exact h.2 j s' (P.trans j _ _ _ (P.compat i j c _ _ hj h.1 hkeeps.2) hrely) hinv
  | environ hstep =>
    obtain ⟨hinv, hrely⟩ := henv _ _ h.1 hstep
    exact ⟨hinv, fun j s' hr hi => h.2 j s' (P.trans j _ _ _ (hrely j) hr) hi⟩

/-- Every interleaving keeps to the protocol. -/
theorem Sound.reaches (henv : P.Admits environ) (h : Sound exec P stops post cfg)
    (hreach : Reaches exec environ cfg cfg') : Sound exec P stops post cfg' := by
  induction hreach with
  | refl => exact h
  | tail _ hstep ih =>
    obtain ⟨who, hstep⟩ := hstep
    exact ih.step henv hstep

/-! ## A thread that is alone -/

theorem Step.alone {exec : Unit → (c : Call) → σ → Answer c → σ → Prop} {c : Call}
    {next : Answer c → Prog Call Answer Stop α} {s s' : σ} (answer : Answer c)
    (hexec : exec () c s answer s') : Step exec environ (some ()) ⟨s, fun _ => .call c next⟩ ⟨s', fun _ => next answer⟩ := by
  have hstep : Step exec environ (some ()) ⟨s, fun _ => .call c next⟩
      ⟨s', Function.update (fun _ => .call c next) () (next answer)⟩ :=
    .call rfl hexec
  have hprog : Function.update (fun _ => Prog.call c next) () (next answer) = fun _ => next answer :=
    funext fun _ => Function.update_self ..
  exact hprog ▸ hstep

theorem Reaches.alone {exec : Unit → (c : Call) → σ → Answer c → σ → Prop} {c : Call}
    {next : Answer c → Prog Call Answer Stop α} {cfg : Config Call Answer Stop Unit σ α} {s s' : σ}
    (h : Reaches exec environ cfg ⟨s, fun _ => .call c next⟩) (answer : Answer c)
    (hexec : exec () c s answer s') : Reaches exec environ cfg ⟨s', fun _ => next answer⟩ :=
  h.tail ⟨some (), .alone answer hexec⟩

end Threads
