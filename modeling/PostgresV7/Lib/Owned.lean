import Mathlib.Logic.Basic

/-!
# Objects that processes own

An identifier is unused, then it stands for an object that a process created, and after the
object was removed it stands for nothing again. A process changes its own objects, and removes
these or what a process left behind that has ended.
-/

namespace Owned

/-- What an identifier stands for. Who still has hold of a removed object can go on with it. -/
inductive Slot (α : Type) where
  | unused
  | live (a : α)
  | removed (a : α)

/-- What the identifier stands for or has stood for. -/
def Slot.contents? {α : Type} : Slot α → Option α
  | .unused => none
  | .live a => some a
  | .removed a => some a

/-- A process that starts and ends. -/
inductive Life where
  | unborn
  | alive
  | dead
  deriving DecidableEq, Repr

/-- A kind of objects: who owns one, what its owner leaves as it is, and what all others do. -/
structure Kind (ι α : Type) where
  owner : α → Option ι
  stamp : α → α → Prop
  keeps : α → α → Prop
  stamp_refl : ∀ a, stamp a a
  stamp_trans : ∀ a b c, stamp a b → stamp b c → stamp a c
  keeps_refl : ∀ a, keeps a a
  keeps_trans : ∀ a b c, keeps a b → keeps b c → keeps a c

variable {ι α : Type} {K : Kind ι α} {life : ι → Life} {i j : ι} {s s' s'' : Slot α} {a : α}

/-- What the process may do to what an identifier stands for. -/
inductive Move (K : Kind ι α) (life : ι → Life) (i : ι) : Slot α → Slot α → Prop where
  | same (s : Slot α) : Move K life i s s
  | created {a : α} : K.owner a = some i → Move K life i .unused (.live a)
  | removed {a : α} {j : ι} : K.owner a = some j → j = i ∨ life j = .dead →
      Move K life i (.live a) (.removed a)
  | updated {a b : α} : K.owner a = some i → K.owner b = some i → K.stamp a b →
      Move K life i (.live a) (.live b)
  | updatedRemoved {a b : α} : K.owner a = some i → K.owner b = some i → K.stamp a b →
      Move K life i (.removed a) (.removed b)

/-- The object is still the one it was. -/
def Kind.Follows (K : Kind ι α) (a b : α) : Prop :=
  K.owner b = K.owner a ∧ (K.owner a ≠ none → K.stamp a b)

/-- What a process may rely on as long as it has not ended. -/
structure Relied (K : Kind ι α) (i : ι) (ended : Prop) (s s' : Slot α) : Prop where
  contents : ∀ a, s.contents? = some a → ∃ b, s'.contents? = some b ∧ K.Follows a b
  gone : ∀ a, s = .removed a → ∃ b, s' = .removed b
  fresh : s = .unused → ∀ a, s'.contents? = some a → K.owner a ≠ some i
  own : ¬ ended → ∀ a, s = .live a → K.owner a = some i →
    ∃ b, s' = .live b ∧ K.owner b = some i ∧ K.keeps a b

theorem Kind.Follows.refl (K : Kind ι α) (a : α) : K.Follows a a := ⟨rfl, fun _ => K.stamp_refl a⟩

theorem Kind.Follows.trans {a b c : α} (h : K.Follows a b) (h' : K.Follows b c) : K.Follows a c := by
  refine ⟨h'.1.trans h.1, fun hne => ?_⟩
  exact K.stamp_trans _ _ _ (h.2 hne) (h'.2 (by rwa [h.1]))

theorem Relied.refl (K : Kind ι α) (i : ι) (ended : Prop) (s : Slot α) : Relied K i ended s s where
  contents a h := ⟨a, h, .refl K a⟩
  gone a h := ⟨a, h⟩
  fresh h a ha := by
    rw [h] at ha
    cases ha
  own _ a h ho := ⟨a, h, ho, K.keeps_refl a⟩

theorem Relied.trans {ended ended' : Prop} (h : Relied K i ended s s') (h' : Relied K i ended' s' s'')
    (hended : ended → ended') : Relied K i ended' s s'' where
  contents a ha := by
    obtain ⟨b, hb, hab⟩ := h.contents a ha
    obtain ⟨c, hc, hbc⟩ := h'.contents b hb
    exact ⟨c, hc, hab.trans hbc⟩
  gone a ha := by
    obtain ⟨b, hb⟩ := h.gone a ha
    exact h'.gone b hb
  fresh hs a ha := by
    have hfresh := h.fresh hs
    cases hs' : s'.contents? with
    | none =>
      cases s' with
      | unused => exact h'.fresh rfl a ha
      | live b => cases hs'
      | removed b => cases hs'
    | some b =>
      obtain ⟨c, hc, hbc⟩ := h'.contents b hs'
      obtain rfl := Option.some.inj (hc.symm.trans ha)
      rw [hbc.1]
      exact hfresh b hs'
  own hne a ha ho := by
    obtain ⟨b, hb, hbo, hab⟩ := h.own (fun he => hne (hended he)) a ha ho
    obtain ⟨c, hc, hco, hbc⟩ := h'.own hne b hb hbo
    exact ⟨c, hc, hco, K.keeps_trans _ _ _ hab hbc⟩

/-- What one process does, the others may rely on. -/
theorem Move.relied (h : Move K life i s s') (hne : j ≠ i) : Relied K j (life j = .dead) s s' := by
  cases h with
  | same => exact .refl K j _ s
  | created ho =>
    refine ⟨fun _ ha => (nomatch ha), fun _ ha => (nomatch ha), fun _ b hb hbo => ?_, fun _ _ ha => (nomatch ha)⟩
    obtain rfl := Option.some.inj hb
    exact hne (Option.some.inj (hbo.symm.trans ho))
  | removed ho hend =>
    rename_i a j'
    refine ⟨fun b hb => ?_, fun _ hb => (nomatch hb), fun hb => (nomatch hb), fun hlive b hb hbo => ?_⟩
    · exact ⟨b, hb, .refl K b⟩
    · obtain rfl := Slot.live.inj hb
      obtain rfl := Option.some.inj (hbo.symm.trans ho)
      exact (hend.elim hne hlive).elim
  | updated ho ho' hstamp =>
    refine ⟨fun c hc => ?_, fun _ hb => (nomatch hb), fun hb => (nomatch hb), fun _ c hc hco => ?_⟩
    · obtain rfl := Option.some.inj hc
      exact ⟨_, rfl, ho'.trans ho.symm, fun _ => hstamp⟩
    · obtain rfl := Slot.live.inj hc
      exact absurd (Option.some.inj (hco.symm.trans ho)) hne
  | updatedRemoved ho ho' hstamp =>
    refine ⟨fun c hc => ?_, fun _ _ => ⟨_, rfl⟩, fun hc => (nomatch hc), fun _ _ hc => nomatch hc⟩
    obtain rfl := Option.some.inj hc
    exact ⟨_, rfl, ho'.trans ho.symm, fun _ => hstamp⟩

/-- What is live now was live before, as long as the identifier was in use. -/
theorem Relied.live_inv {ended : Prop} (h : Relied K i ended s s') (hused : s ≠ .unused) (hlive : s' = .live a) :
    ∃ b, s = .live b ∧ K.Follows b a := by
  cases s with
  | unused => exact absurd rfl hused
  | live b =>
    obtain ⟨c, hc, hbc⟩ := h.contents b rfl
    rw [hlive] at hc
    obtain rfl := Option.some.inj hc
    exact ⟨b, rfl, hbc⟩
  | removed b =>
    obtain ⟨c, hc⟩ := h.gone b rfl
    rw [hlive] at hc
    cases hc

theorem Relied.used {ended : Prop} (h : Relied K i ended s s') (hused : s ≠ .unused) : s' ≠ .unused := by
  rintro rfl
  cases s with
  | unused => exact hused rfl
  | live b =>
    obtain ⟨c, hc, -⟩ := h.contents b rfl
    cases hc
  | removed b =>
    obtain ⟨c, hc⟩ := h.gone b rfl
    cases hc

/-- What a process has now, it had before. -/
theorem Relied.mine {ended : Prop} (h : Relied K i ended s s') (hlive : s' = .live a) (ho : K.owner a = some i) :
    ∃ b, s = .live b ∧ K.owner b = some i := by
  by_cases hused : s = .unused
  · exact absurd ho (h.fresh hused a (by rw [hlive]; rfl))
  · obtain ⟨b, hb, hba⟩ := h.live_inv hused hlive
    exact ⟨b, hb, hba.1.symm.trans ho⟩

/-- A process removes only what is its own or was left behind. -/
theorem Move.live (h : Move K life i s s') (hs : s = .live a) :
    (∃ b, s' = .live b ∧ K.owner b = K.owner a) ∨
      (s' = .removed a ∧ ∃ j, K.owner a = some j ∧ (j = i ∨ life j = .dead)) := by
  cases h with
  | same => exact .inl ⟨a, hs, rfl⟩
  | created => cases hs
  | removed ho hend =>
    obtain rfl := Slot.live.inj hs
    exact .inr ⟨rfl, _, ho, hend⟩
  | updated ho ho' =>
    obtain rfl := Slot.live.inj hs
    exact .inl ⟨_, rfl, ho'.trans ho.symm⟩
  | updatedRemoved => cases hs

/-- The object keeps its owner. -/
theorem Move.contents (h : Move K life i s s') (ha : s.contents? = some a) :
    ∃ b, s'.contents? = some b ∧ K.owner b = K.owner a := by
  cases h with
  | same => exact ⟨a, ha, rfl⟩
  | created => cases ha
  | removed => exact ⟨_, rfl, by rw [Option.some.inj ha]⟩
  | updated ho ho' =>
    obtain rfl := Option.some.inj ha
    exact ⟨_, rfl, ho'.trans ho.symm⟩
  | updatedRemoved ho ho' =>
    obtain rfl := Option.some.inj ha
    exact ⟨_, rfl, ho'.trans ho.symm⟩

/-- What belongs to none of the processes may change in any way. -/
theorem Relied.foreign {ended : Prop}
    (hlive : ∀ a, s = .live a → K.owner a = none) (hgone : ∀ a, s ≠ .removed a)
    (hslot : ∀ a, s'.contents? = some a → K.owner a = none) (hused : s ≠ .unused → s' ≠ .unused) :
    Relied K j ended s s' where
  contents a ha := by
    cases s with
    | unused => cases ha
    | live b =>
      obtain rfl := Option.some.inj ha
      cases s' with
      | unused => exact absurd rfl (hused (fun h => nomatch h))
      | live c => exact ⟨c, rfl, (hslot c rfl).trans (hlive b rfl).symm, fun hne => absurd (hlive b rfl) hne⟩
      | removed c => exact ⟨c, rfl, (hslot c rfl).trans (hlive b rfl).symm, fun hne => absurd (hlive b rfl) hne⟩
    | removed b => exact absurd rfl (hgone b)
  gone a ha := absurd ha (hgone a)
  fresh _ a ha ho := by
    rw [hslot a ha] at ho
    cases ho
  own _ a ha ho := by
    rw [hlive a ha] at ho
    cases ho

/-- Somebody changes what no process relies on. -/
theorem Relied.update {ended : Prop} {b : α} (hs : s = .live a)
    (ho : K.owner b = K.owner a) (hstamp : K.stamp a b) (hkeeps : K.keeps a b) : Relied K i ended s (.live b) := by
  subst hs
  refine ⟨fun c hc => ?_, fun _ hc => (nomatch hc), fun hc => (nomatch hc), fun _ c hc hco => ?_⟩
  · obtain rfl := Option.some.inj hc
    exact ⟨b, rfl, ho, fun _ => hstamp⟩
  · obtain rfl := Slot.live.inj hc
    exact ⟨b, rfl, ho.trans hco, hkeeps⟩

end Owned
