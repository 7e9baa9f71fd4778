import Mathlib.Data.List.Forall2
import PostgresV7.Lib.Threads

/-!
# Critical sections

Threads share a value, and a lock keeps them apart. Whatever the interleaving, it is as if whole
sections were run, one after another.
-/

namespace Critical

open Threads

/-! ## Sections -/

/-- What a thread does with the value while it has the lock. -/
inductive Body (δ : Type) where
  | done
  | load (next : δ → Body δ)
  | store (new : δ) (next : Body δ)

variable {ι L κ δ Stop : Type} {A : L → Type}

/-- What it does to the value when nobody else is there. -/
def Body.run : Body δ → δ → δ
  | .done, d => d
  | .load next, d => (next d).run d
  | .store new next, _ => next.run new

/-- The calls: those of the lock, and those that read and write the value. -/
inductive Op (L δ : Type) where
  | lock (c : L)
  | load
  | store (new : δ)

def Op.Answer (A : L → Type) : Op L δ → Type
  | .lock c => A c
  | .load => δ
  | .store _ => Unit

/-- A program of the lock, among the other calls. -/
def onLock {α : Type} : Prog L A Stop α → Prog (Op L δ) (Op.Answer A) Stop α
  | .ret a => .ret a
  | .stop reason => .stop reason
  | .call c next => .call (.lock c) fun answer => onLock (next answer)

def Body.prog : Body δ → Prog (Op L δ) (Op.Answer A) Stop Unit
  | .done => .ret ()
  | .load next => .call .load fun d => (next d).prog
  | .store new next => .call (.store new) fun _ => next.prog

/-- Sections, one after another. -/
def work (acquire release : Prog L A Stop Unit) : List (Body δ) → Prog (Op L δ) (Op.Answer A) Stop Unit
  | [] => pure ()
  | body :: bodies => do
    onLock acquire
    body.prog
    onLock release
    work acquire release bodies

/-! ## Locks -/

/-- A lock, and the answers by which a thread knows that it has taken it or given it back. -/
structure Lock (ι L : Type) (A : L → Type) (κ : Type) where
  exec : ι → (c : L) → κ → A c → κ → Prop
  environ : κ → κ → Prop
  permits : ι → L → Prop
  takes : (c : L) → A c → Bool
  gives : (c : L) → A c → Bool
  free : κ → Prop
  taken : κ → Prop
  take_free : ∀ {i c k a k'}, permits i c → free k → exec i c k a k' → takes c a = true → taken k'
  take_taken : ∀ {i c k a k'}, permits i c → taken k → exec i c k a k' → takes c a = false
  give_taken : ∀ {i c k a k'}, permits i c → taken k → exec i c k a k' → gives c a = true → free k'
  keep_free : ∀ {i c k a k'}, permits i c → free k → exec i c k a k' → takes c a = false → gives c a = false → free k'
  keep_taken : ∀ {i c k a k'}, permits i c → taken k → exec i c k a k' → gives c a = false → taken k'
  environ_free : ∀ {k k'}, environ k k' → free k → free k'
  environ_taken : ∀ {k k'}, environ k k' → taken k → taken k'

/-- The program returns when it has taken the lock. -/
def Lock.Acquires (K : Lock ι L A κ) (i : ι) : Prog L A Stop Unit → Prop
  | .ret _ => False
  | .stop _ => True
  | .call c next => K.permits i c ∧ (∀ a, K.gives c a = false) ∧
      ∀ a, if K.takes c a then next a = .ret () else K.Acquires i (next a)

/-- The program returns when it has given the lock back. -/
def Lock.Releases (K : Lock ι L A κ) (i : ι) : Prog L A Stop Unit → Prop
  | .ret _ => False
  | .stop _ => True
  | .call c next => K.permits i c ∧ (∀ a, K.takes c a = false) ∧
      ∀ a, if K.gives c a then next a = .ret () else K.Releases i (next a)

/-! ## What the threads share -/

/-- A section that is over: the value it found, and the value it left. -/
structure Change (ι δ : Type) where
  who : ι
  old : δ
  new : δ

/-- The lock and the value. No call tells who has the lock, the value it found, or the sections
that are over. -/
structure Shared (ι κ δ : Type) where
  lock : κ
  data : δ
  holder : Option ι
  found : δ
  history : List (Change ι δ)

/-- What a call of the lock does to the rest. -/
def Shared.after (s : Shared ι κ δ) (i : ι) (takes gives : Bool) (k : κ) : Shared ι κ δ :=
  if takes then { s with lock := k, holder := some i, found := s.data }
  else if gives then { s with lock := k, holder := none, history := s.history ++ [⟨i, s.found, s.data⟩] }
  else { s with lock := k }

def exec (K : Lock ι L A κ) (i : ι) :
    (c : Op L δ) → Shared ι κ δ → Op.Answer A c → Shared ι κ δ → Prop
  | .lock c, s, a, s' => ∃ k, K.exec i c s.lock a k ∧ s' = s.after i (K.takes c a) (K.gives c a) k
  | .load, s, d, s' => d = s.data ∧ s' = s
  | .store new, s, _, s' => s' = { s with data := new }

def environ (K : Lock ι L A κ) (s s' : Shared ι κ δ) : Prop :=
  ∃ k, K.environ s.lock k ∧ s' = { s with lock := k }

/-- Each section found what the one before it had left. -/
def Chained : δ → List (Change ι δ) → δ → Prop
  | d, [], d' => d' = d
  | d, c :: history, d' => c.old = d ∧ Chained c.new history d'

theorem Chained.snoc {d d₀ d' : δ} {i : ι} {history : List (Change ι δ)} (h : Chained d history d₀) :
    Chained d (history ++ [⟨i, d₀, d'⟩]) d' := by
  induction history generalizing d with
  | nil => exact ⟨h, rfl⟩
  | cons c history ih => exact ⟨h.1, ih h.2⟩

/-- The value is what the sections that are past have left, until the holder of the lock
changes it. -/
structure Inv (K : Lock ι L A κ) (init : δ) (s : Shared ι κ δ) : Prop where
  free : s.holder = none → K.free s.lock ∧ Chained init s.history s.data
  taken : ∀ i, s.holder = some i → K.taken s.lock ∧ Chained init s.history s.found

variable [DecidableEq ι] {K : Lock ι L A κ} {init : δ} {i j : ι} {s s' : Shared ι κ δ}

/-- The sections of one thread that are past. -/
def mine (i : ι) (history : List (Change ι δ)) : List (Change ι δ) :=
  history.filter fun c => c.who = i

/-- Others neither take the lock from a thread nor change the value while it has it. -/
structure Rely (i : ι) (s s' : Shared ι κ δ) : Prop where
  holder : s'.holder = some i ↔ s.holder = some i
  data : s.holder = some i → s'.data = s.data ∧ s'.found = s.found
  mine : mine i s'.history = mine i s.history

theorem Rely.refl (i : ι) (s : Shared ι κ δ) : Rely i s s := ⟨.rfl, fun _ => ⟨rfl, rfl⟩, rfl⟩

theorem Rely.trans {s'' : Shared ι κ δ} (h : Rely i s s') (h' : Rely i s' s'') : Rely i s s'' where
  holder := h'.holder.trans h.holder
  data hs := by
    obtain ⟨hdata, hfound⟩ := h.data hs
    obtain ⟨hdata', hfound'⟩ := h'.data (h.holder.mpr hs)
    exact ⟨hdata'.trans hdata, hfound'.trans hfound⟩
  mine := h'.mine.trans h.mine

/-- The calls for which a thread must have the lock. -/
def Lock.Guarded (K : Lock ι L A κ) : Op L δ → Prop
  | .lock c => ∃ a, K.gives c a = true
  | .load | .store _ => True

structure Guar (K : Lock ι L A κ) (i : ι) (c : Op L δ) (s s' : Shared ι κ δ) : Prop where
  guarded : K.Guarded c → s.holder = some i
  others : ∀ j, j ≠ i → Rely j s s'

def protocol (K : Lock ι L A κ) (init : δ) : Protocol ι (Op L δ) (Shared ι κ δ) where
  inv := Inv K init
  rely := Rely
  guar := Guar K
  refl := Rely.refl
  trans _ _ _ _ := Rely.trans
  compat _ j _ _ _ hne _ h := h.others j hne

theorem environ_admitted : (protocol K init).Admits (environ K) := by
  rintro s s' hinv ⟨k, henv, rfl⟩
  refine ⟨⟨fun hnone => ?_, fun i hsome => ?_⟩, fun j => ⟨.rfl, fun _ => ⟨rfl, rfl⟩, rfl⟩⟩
  · exact (hinv.free hnone).imp_left (K.environ_free henv)
  · exact (hinv.taken i hsome).imp_left (K.environ_taken henv)

/-! ## What a thread knows -/

/-- Its sections that are past, and, if it has the lock, the value it found and the value there is. -/
def Knows (i : ι) (past : List (Change ι δ)) (has : Option (δ × δ)) (s : Shared ι κ δ) : Prop :=
  mine i s.history = past ∧
    match has with
    | none => s.holder ≠ some i
    | some (old, new) => s.holder = some i ∧ s.found = old ∧ s.data = new

theorem Knows.rely {past : List (Change ι δ)} {has : Option (δ × δ)} (h : Knows i past has s) (hr : Rely i s s') :
    Knows i past has s' := by
  obtain ⟨hpast, hhas⟩ := h
  refine ⟨hr.mine.trans hpast, ?_⟩
  cases has with
  | none => exact fun hs => hhas (hr.holder.mp hs)
  | some x =>
    obtain ⟨hs, hfound, hdata⟩ := hhas
    exact ⟨hr.holder.mpr hs, (hr.data hs).2.trans hfound, (hr.data hs).1.trans hdata⟩

/-! ## Calls of the lock -/

variable {c : L} {a : A c} {k : κ}

/-- Who takes the lock finds it free. -/
theorem take_keeps (hp : K.permits i c) (hg : ∀ a, K.gives c a = false) (hinv : Inv K init s) (hexec : K.exec i c s.lock a k)
    (htakes : K.takes c a = true) :
    (protocol K init).Keeps i (.lock c) s { s with lock := k, holder := some i, found := s.data } := by
  have hnone : s.holder = none := by
    cases hs : s.holder with
    | none => rfl
    | some j => exact absurd ((K.take_taken hp (hinv.taken j hs).1 hexec).symm.trans htakes) Bool.false_ne_true
  obtain ⟨hfree, hchained⟩ := hinv.free hnone
  refine ⟨⟨nofun, fun j _ => ⟨K.take_free hp hfree hexec htakes, hchained⟩⟩, fun ⟨a', ha'⟩ => ?_, fun j hne => ?_⟩
  · exact absurd ((hg a').symm.trans ha') Bool.false_ne_true
  · refine ⟨⟨fun he => absurd (Option.some.inj he).symm hne, fun he => nomatch hnone.symm.trans he⟩, fun he => ?_, rfl⟩
    exact nomatch hnone.symm.trans he

theorem give_keeps (hp : K.permits i c) (hinv : Inv K init s) (hexec : K.exec i c s.lock a k)
    (hgives : K.gives c a = true) (hs : s.holder = some i) :
    (protocol K init).Keeps i (.lock c) s
      { s with lock := k, holder := none, history := s.history ++ [⟨i, s.found, s.data⟩] } := by
  obtain ⟨htaken, hchained⟩ := hinv.taken i hs
  refine ⟨⟨fun _ => ⟨K.give_taken hp htaken hexec hgives, hchained.snoc⟩, nofun⟩, fun _ => hs, fun j hne => ?_⟩
  have hother : s.holder ≠ some j := fun he => hne (Option.some.inj (he.symm.trans hs))
  refine ⟨⟨nofun, fun he => absurd he hother⟩, fun he => absurd he hother, ?_⟩
  simp only [mine, List.filter_append, List.filter_cons, Ne.symm hne, decide_false, List.filter_nil,
    List.append_nil, Bool.false_eq_true, if_false]

theorem keep_keeps (hp : K.permits i c) (hinv : Inv K init s) (hexec : K.exec i c s.lock a k)
    (htakes : K.takes c a = false) (hgives : K.gives c a = false)
    (hguard : K.Guarded (.lock c : Op L δ) → s.holder = some i) :
    (protocol K init).Keeps i (.lock c) s { s with lock := k } := by
  refine ⟨⟨fun hs => ?_, fun j hs => ?_⟩, hguard, fun j _ => ⟨.rfl, fun _ => ⟨rfl, rfl⟩, rfl⟩⟩
  · exact (hinv.free hs).imp_left fun hfree => K.keep_free hp hfree hexec htakes hgives
  · exact (hinv.taken j hs).imp_left fun htaken => K.keep_taken hp htaken hexec hgives

variable {p : Prog L A Stop Unit} {past : List (Change ι δ)} {old new : δ}

/-- A program of thread `i` keeps to the protocol and ends with the postcondition. -/
abbrev Spec {α : Type} (K : Lock ι L A κ) (init : δ) (i : ι) (post : α → Shared ι κ δ → Prop)
    (p : Prog (Op L δ) (Op.Answer A) Stop α) (s : Shared ι κ δ) : Prop :=
  Meets (exec K) (protocol K init) i (fun _ _ => True) post p s

theorem spec_acquire (hp : K.Acquires i p) (h : Knows i past none s) :
    Spec K init i (fun _ s' => ∃ d, Knows i past (some (d, d)) s') (onLock p) s := by
  induction p generalizing s with
  | ret => exact hp.elim
  | stop => exact trivial
  | call c next ih =>
    obtain ⟨hpermits, hgives, hnext⟩ := hp
    rintro hinv a s' ⟨k, hexec, rfl⟩
    have hnext := hnext a
    cases htakes : K.takes c a with
    | true =>
      simp only [htakes, if_true] at hnext
      simp only [Shared.after, if_true, hnext]
      have hknows : Knows i past (some (s.data, s.data)) { s with lock := k, holder := some i, found := s.data } :=
        ⟨h.1, rfl, rfl, rfl⟩
      exact ⟨take_keeps hpermits hgives hinv hexec htakes, fun s' hr _ => ⟨s.data, hknows.rely hr⟩⟩
    | false =>
      simp only [htakes, Bool.false_eq_true, if_false] at hnext
      simp only [Shared.after, hgives a, Bool.false_eq_true, if_false]
      refine ⟨keep_keeps hpermits hinv hexec htakes (hgives a) fun ⟨a', ha'⟩ => ?_, fun s' hr _ => ?_⟩
      · exact absurd ((hgives a').symm.trans ha') Bool.false_ne_true
      · have hknows : Knows i past none { s with lock := k } := h
        exact ih a hnext (hknows.rely hr)

theorem spec_release (hp : K.Releases i p) (h : Knows i past (some (old, new)) s) :
    Spec K init i (fun _ s' => Knows i (past ++ [⟨i, old, new⟩]) none s') (onLock p) s := by
  induction p generalizing s with
  | ret => exact hp.elim
  | stop => exact trivial
  | call c next ih =>
    obtain ⟨hpermits, htakes, hnext⟩ := hp
    rintro hinv a s' ⟨k, hexec, rfl⟩
    have hnext := hnext a
    obtain ⟨hpast, hs, hfound, hdata⟩ := h
    cases hgives : K.gives c a with
    | true =>
      simp only [hgives, if_true] at hnext
      simp only [Shared.after, htakes a, Bool.false_eq_true, if_false, if_true, hnext]
      have hknows : Knows i (past ++ [⟨i, old, new⟩]) none
          { s with lock := k, holder := none, history := s.history ++ [⟨i, s.found, s.data⟩] } := by
        refine ⟨?_, nofun⟩
        simp only [mine, List.filter_append, List.filter_cons, List.filter_nil, decide_true, if_true]
        rw [← hpast, ← hfound, ← hdata, mine]
      exact ⟨give_keeps hpermits hinv hexec hgives hs, fun s' hr _ => hknows.rely hr⟩
    | false =>
      simp only [hgives, Bool.false_eq_true, if_false] at hnext
      simp only [Shared.after, htakes a, Bool.false_eq_true, if_false]
      have hknows : Knows i past (some (old, new)) { s with lock := k } := ⟨hpast, hs, hfound, hdata⟩
      exact ⟨keep_keeps hpermits hinv hexec (htakes a) hgives fun _ => hs, fun s' hr _ => ih a hnext (hknows.rely hr)⟩

/-- While a thread has the lock, the value is its own. -/
theorem spec_body {body : Body δ} (h : Knows i past (some (old, new)) s) :
    Spec K init i (fun _ s' => Knows i past (some (old, body.run new)) s')
      (body.prog : Prog (Op L δ) (Op.Answer A) Stop Unit) s := by
  induction body generalizing s new with
  | done => exact h
  | load next ih =>
    rintro hinv d s' ⟨rfl, rfl⟩
    refine ⟨⟨hinv, fun _ => h.2.1, fun j _ => .refl j _⟩, fun s' hr _ => ?_⟩
    rw [h.2.2.2]
    exact ih new (h.rely hr)
  | store stored next ih =>
    rintro hinv _ s' rfl
    obtain ⟨hpast, hs, hfound, -⟩ := h
    refine ⟨⟨⟨fun hnone => ?_, hinv.taken⟩, fun _ => hs, fun j hne => ⟨.rfl, fun hj => ?_, rfl⟩⟩, fun s' hr _ => ?_⟩
    · exact nomatch hs.symm.trans hnone
    · exact absurd (Option.some.inj (hj.symm.trans hs)) hne
    · have hknows : Knows i past (some (old, stored)) { s with data := stored } := ⟨hpast, hs, hfound, rfl⟩
      exact ih (hknows.rely hr)

/-- A section that is past has run its body. -/
def Made (body : Body δ) (c : Change ι δ) : Prop := c.new = body.run c.old

variable {acquire release : Prog L A Stop Unit} {bodies past' : List (Body δ)}

theorem spec_work (hacquire : K.Acquires i acquire) (hrelease : K.Releases i release)
    (h : Knows i past none s) (hpast : List.Forall₂ Made past' past) :
    Spec K init i (fun _ s' => s'.holder ≠ some i ∧ List.Forall₂ Made (past' ++ bodies) (mine i s'.history))
      (work acquire release bodies) s := by
  induction bodies generalizing s past past' with
  | nil =>
    refine meets_pure ⟨h.2, ?_⟩
    rw [List.append_nil, h.1]
    exact hpast
  | cons body bodies ih =>
    refine Meets.bind ((spec_acquire hacquire h).imp ?_)
    rintro _ s₁ ⟨d, h₁⟩
    refine Meets.bind ((spec_body h₁).imp fun _ s₂ h₂ => ?_)
    refine Meets.bind ((spec_release hrelease h₂).imp fun _ s₃ h₃ => ?_)
    have hmade : List.Forall₂ Made (past' ++ [body]) (past ++ [⟨i, d, body.run d⟩]) :=
      List.rel_append hpast (.cons rfl .nil)
    rw [List.append_cons]
    exact ih h₃ hmade

/-! ## Runs -/

/-- The threads are about to begin, and the lock is free. -/
def begun (acquire release : ι → Prog L A Stop Unit) (bodies : ι → List (Body δ)) (k : κ) (d : δ) :
    Config (Op L δ) (Op.Answer A) Stop ι (Shared ι κ δ) Unit where
  state := { lock := k, data := d, holder := none, found := d, history := [] }
  prog i := work (acquire i) (release i) (bodies i)

variable {acquire release : ι → Prog L A Stop Unit} {bodies : ι → List (Body δ)} {d d' : δ}
  {cfg : Config (Op L δ) (Op.Answer A) Stop ι (Shared ι κ δ) Unit}

theorem begun_sound (hacquire : ∀ i, K.Acquires i (acquire i)) (hrelease : ∀ i, K.Releases i (release i))
    (hfree : K.free k) :
    Sound (exec K) (protocol K d) (fun _ _ _ => True)
      (fun i _ s => s.holder ≠ some i ∧ List.Forall₂ Made (bodies i) (mine i s.history))
      (begun acquire release bodies k d) := by
  refine ⟨⟨fun _ => ⟨hfree, rfl⟩, nofun⟩, fun i s hr _ => ?_⟩
  have hknows : Knows i [] none (begun acquire release bodies k d).state := ⟨rfl, nofun⟩
  exact spec_work (hacquire i) (hrelease i) (hknows.rely hr) .nil

/-- Sections that were chained and that each ran a body are those bodies, run one after another. -/
theorem exists_order {history : List (Change ι δ)} (hchained : Chained d history d')
    (hmade : ∀ i, List.Forall₂ Made (bodies i) (mine i history)) :
    ∃ order : List (ι × Body δ), (∀ i, (order.filter fun x => x.1 = i).map Prod.snd = bodies i) ∧
      d' = order.foldl (fun d x => x.2.run d) d := by
  induction history generalizing d bodies with
  | nil => exact ⟨[], fun i => (List.forall₂_nil_right_iff.mp (hmade i)).symm, hchained⟩
  | cons c history ih =>
    obtain ⟨rfl, hchained⟩ := hchained
    have hfirst := hmade c.who
    simp only [mine, List.filter_cons, decide_true, if_true] at hfirst
    obtain ⟨body, rest, hbody, hrest, hbodies⟩ := List.forall₂_cons_right_iff.mp hfirst
    have hafter : ∀ i, List.Forall₂ Made (Function.update bodies c.who rest i) (mine i history) := by
      intro i
      by_cases hi : i = c.who
      · subst hi
        rw [Function.update_self]
        exact hrest
      · have hother := hmade i
        simp only [mine, List.filter_cons, Ne.symm hi, decide_false, Bool.false_eq_true, if_false] at hother
        rw [Function.update_of_ne hi]
        exact hother
    obtain ⟨order, horder, hfold⟩ := ih hchained hafter
    refine ⟨(c.who, body) :: order, fun i => ?_, ?_⟩
    · by_cases hi : i = c.who
      · subst hi
        have htail := horder c.who
        rw [Function.update_self] at htail
        simp only [List.filter_cons, decide_true, if_true, List.map_cons, htail, hbodies]
      · have htail := horder i
        rw [Function.update_of_ne hi] at htail
        simp only [List.filter_cons, Ne.symm hi, decide_false, Bool.false_eq_true, if_false, htail]
    · rw [List.foldl_cons, ← hbody]
      exact hfold

/-- When all threads are done the lock is free, and the value is what their sections leave when
they are run one after another in some order that keeps the order of each thread. -/
theorem run_serial (hacquire : ∀ i, K.Acquires i (acquire i)) (hrelease : ∀ i, K.Releases i (release i))
    (hfree : K.free k) (hreach : Reaches (exec K) (environ K) (begun acquire release bodies k d) cfg)
    (hdone : ∀ i, cfg.prog i = .ret ()) :
    K.free cfg.state.lock ∧ ∃ order : List (ι × Body δ),
      (∀ i, (order.filter fun x => x.1 = i).map Prod.snd = bodies i) ∧
      cfg.state.data = order.foldl (fun d x => x.2.run d) d := by
  have hsound := (begun_sound hacquire hrelease hfree).reaches environ_admitted hreach
  have hnone : cfg.state.holder = none := Option.eq_none_iff_forall_ne_some.mpr fun i => (hsound.done (hdone i)).1
  obtain ⟨hlock, hchained⟩ := hsound.1.free hnone
  exact ⟨hlock, exists_order hchained fun i => (hsound.done (hdone i)).2⟩

/-- Whoever can go on with a call for which the lock is needed has the lock. -/
theorem run_holds (hacquire : ∀ i, K.Acquires i (acquire i)) (hrelease : ∀ i, K.Releases i (release i))
    (hfree : K.free k) (hreach : Reaches (exec K) (environ K) (begun acquire release bodies k d) cfg)
    {c : Op L δ} {next : Op.Answer A c → Prog (Op L δ) (Op.Answer A) Stop Unit} (hprog : cfg.prog i = .call c next)
    (hguarded : K.Guarded c) {answer : Op.Answer A c} (hexec : exec K i c cfg.state answer s') :
    cfg.state.holder = some i := by
  have hsound := (begun_sound hacquire hrelease hfree).reaches environ_admitted hreach
  have hnow := hsound.now i
  rw [hprog] at hnow
  exact (hnow hsound.1 answer s' hexec).1.2.guarded hguarded

end Critical
