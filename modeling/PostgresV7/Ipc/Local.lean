import PostgresV7.Ipc.Create
import PostgresV7.Ipc.Protocol

/-!
# What a process knows of its own objects (`ipc.c`)

Its callbacks are for its own objects; whatever it created and did not register is on a list;
and the sets it was granted are there, under keys that were tried before.
-/

namespace PostgresV7.SysV

open Threads Owned

variable {ι : Type} {pid : ι → Int} {i j : ι} {k k' : Kernel ι} {id : Int} {q : SemSet ι} {g : Segment ι}
  {st : State} {tracks : Prop} {granted extra extra' : List Int} {bound bound' : Nat} {callback : Callback}

/-- What a callback is about belongs to the process. -/
def Registered (i : ι) (k : Kernel ι) : Callback → Prop
  | .callbackSemaphoreKill semId => ∃ q, (k.sets semId).contents? = some q ∧ q.owner = some i
  | .ipcMemoryDelete shmId => ∃ g, (k.segments shmId).contents? = some g ∧ g.owner = some i
  | _ => True

/-- A set that is ready for use, under a key below the bound. -/
def Granted (i : ι) (bound : Nat) (k : Kernel ι) (id : Int) : Prop :=
  ∃ q, k.sets id = .live q ∧ q.owner = some i ∧ q.key < bound ∧ q.Marked

structure Local (i : ι) (tracks : Prop) (granted extra : List Int) (bound : Nat) (st : State) (k : Kernel ι) :
    Prop where
  registered : ∀ callback ∈ st.onShmemExitList, Registered i k callback
  sets : tracks → ∀ id q, k.sets id = .live q → q.owner = some i →
    .callbackSemaphoreKill id ∈ st.onShmemExitList ∨ id ∈ extra
  segments : tracks → ∀ id g, k.segments id = .live g → g.owner = some i →
    .ipcMemoryDelete id ∈ st.onShmemExitList
  granted : k.life i ≠ .dead → ∀ id ∈ granted, Granted i bound k id

theorem Registered.rely (h : Registered i k callback) (hr : Rely i k k') : Registered i k' callback := by
  cases callback with
  | callbackSemaphoreKill semId =>
    obtain ⟨q, hq, ho⟩ := h
    obtain ⟨q', hq', hf⟩ := (hr.sets semId).contents q hq
    exact ⟨q', hq', hf.1.trans ho⟩
  | ipcMemoryDelete shmId =>
    obtain ⟨g, hg, ho⟩ := h
    obtain ⟨g', hg', hf⟩ := (hr.segments shmId).contents g hg
    exact ⟨g', hg', hf.1.trans ho⟩
  | ipcMemoryDetach | privateMemoryDelete => exact h

theorem Granted.rely (h : Granted i bound k id) (hr : Rely i k k') (hlive : k'.life i ≠ .dead) :
    Granted i bound k' id := by
  obtain ⟨q, hq, ho, hkey, s, hs, hval⟩ := h
  obtain ⟨q', hq', ho', hkeeps⟩ := (hr.sets id).own hlive q hq ho
  exact ⟨q', hq', ho', hkeeps.1 ▸ hkey, s, hkeeps.2.2.trans hs, hval⟩

theorem Local.rely (h : Local i tracks granted extra bound st k) (hr : Rely i k k') :
    Local i tracks granted extra bound st k' where
  registered callback hc := (h.registered callback hc).rely hr
  sets ht id q hq ho := by
    obtain ⟨q', hq', ho'⟩ := (hr.sets id).mine hq ho
    exact h.sets ht id q' hq' ho'
  segments ht id g hg ho := by
    obtain ⟨g', hg', ho'⟩ := (hr.segments id).mine hg ho
    exact h.segments ht id g' hg' ho'
  granted hlive id hid := (h.granted (fun he => hlive (hr.ages.dead i he)) id hid).rely hr hlive

/-- Without sets that were granted it does not matter which keys were tried. -/
theorem Local.rebound (h : Local i tracks granted extra bound st k) (hb : granted ≠ [] → bound ≤ bound') :
    Local i tracks granted extra bound' st k where
  registered := h.registered
  sets := h.sets
  segments := h.segments
  granted hlive id hid := by
    obtain ⟨q, hq, ho, hkey, hm⟩ := h.granted hlive id hid
    exact ⟨q, hq, ho, Nat.lt_of_lt_of_le hkey (hb (List.ne_nil_of_mem hid)), hm⟩

theorem Local.ungranted (h : Local i tracks granted extra bound st k) :
    Local i tracks [] extra bound st k :=
  ⟨h.registered, h.sets, h.segments, fun _ _ hid => nomatch hid⟩

theorem Local.of_list {st' : State} (h : Local i tracks granted extra bound st k)
    (heq : st'.onShmemExitList = st.onShmemExitList) : Local i tracks granted extra bound st' k := by
  obtain ⟨hregistered, hsets, hsegments, hgranted⟩ := h
  exact ⟨heq ▸ hregistered, heq ▸ hsets, heq ▸ hsegments, hgranted⟩

/-! ## Steps of the process itself -/

/-- What the process does to a set that was not granted. -/
theorem Local.putSet {slot : Slot (SemSet ι)} (h : Local i tracks granted extra bound st k)
    (hmove : Move (semKind ι) k.life i (k.sets id) slot) (hid : k.life i ≠ .dead → id ∉ granted)
    (hslot : ∀ q, slot = .live q → q.owner = some i → tracks →
      .callbackSemaphoreKill id ∈ st.onShmemExitList ∨ id ∈ extra')
    (hextra : ∀ id' ∈ extra, id' ≠ id → id' ∈ extra') :
    Local i tracks granted extra' bound st (k.putSet id slot) where
  registered callback hc := by
    have hreg := h.registered callback hc
    cases callback with
    | callbackSemaphoreKill semId =>
      obtain ⟨q, hq, ho⟩ := hreg
      by_cases he : semId = id
      · subst he
        obtain ⟨q', hq', ho'⟩ := hmove.contents hq
        exact ⟨q', by simpa only [Kernel.putSet, Function.update_self] using hq', ho'.trans ho⟩
      · exact ⟨q, by simpa only [Kernel.putSet, Function.update_of_ne he] using hq, ho⟩
    | ipcMemoryDelete | ipcMemoryDetach | privateMemoryDelete => exact hreg
  sets ht id' q hq ho := by
    by_cases he : id' = id
    · subst he
      simp only [Kernel.putSet, Function.update_self] at hq
      exact hslot q hq ho ht
    · simp only [Kernel.putSet, Function.update_of_ne he] at hq
      exact (h.sets ht id' q hq ho).imp_right fun hmem => hextra id' hmem he
  segments := h.segments
  granted hlive id' hmem := by
    obtain ⟨q, hq, hrest⟩ := h.granted hlive id' hmem
    have he : id' ≠ id := fun he => hid hlive (he ▸ hmem)
    exact ⟨q, by simpa only [Kernel.putSet, Function.update_of_ne he] using hq, hrest⟩

theorem Local.putSegment {slot : Slot (Segment ι)} (h : Local i tracks granted extra bound st k)
    (hmove : Move (segmentKind ι) k.life i (k.segments id) slot)
    (hslot : ∀ g, slot = .live g → g.owner = some i → tracks → .ipcMemoryDelete id ∈ st.onShmemExitList) :
    Local i tracks granted extra bound st (k.putSegment id slot) where
  registered callback hc := by
    have hreg := h.registered callback hc
    cases callback with
    | ipcMemoryDelete shmId =>
      obtain ⟨g, hg, ho⟩ := hreg
      by_cases he : shmId = id
      · subst he
        obtain ⟨g', hg', ho'⟩ := hmove.contents hg
        exact ⟨g', by simpa only [Kernel.putSegment, Function.update_self] using hg', ho'.trans ho⟩
      · exact ⟨g, by simpa only [Kernel.putSegment, Function.update_of_ne he] using hg, ho⟩
    | callbackSemaphoreKill | ipcMemoryDetach | privateMemoryDelete => exact hreg
  sets := h.sets
  segments ht id' g hg ho := by
    by_cases he : id' = id
    · subst he
      simp only [Kernel.putSegment, Function.update_self] at hg
      exact hslot g hg ho ht
    · simp only [Kernel.putSegment, Function.update_of_ne he] at hg
      exact h.segments ht id' g hg ho
  granted := h.granted

/-- A segment is created, and a callback for it is added to the list. -/
theorem Local.createSegment (h : Local i tracks granted extra bound st k)
    (hunused : k.segments id = .unused) (ho : g.owner = some i) :
    Local i tracks granted extra bound { st with onShmemExitList := .ipcMemoryDelete id :: st.onShmemExitList }
      (k.putSegment id (.live g)) where
  registered callback hc := by
    rcases List.mem_cons.mp hc with rfl | hc
    · exact ⟨g, by rw [putSegment_self]; rfl, ho⟩
    · have hreg := h.registered callback hc
      cases callback with
      | ipcMemoryDelete shmId =>
        obtain ⟨g', hg', ho'⟩ := hreg
        have he : shmId ≠ id := by
          rintro rfl
          rw [hunused] at hg'
          cases hg'
        exact ⟨g', by simpa only [Kernel.putSegment, Function.update_of_ne he] using hg', ho'⟩
      | callbackSemaphoreKill | ipcMemoryDetach | privateMemoryDelete => exact hreg
  sets ht id q hq ho := (h.sets ht id q hq ho).imp_left (List.mem_cons_of_mem _)
  segments ht id' g' hg' ho' := by
    by_cases he : id' = id
    · subst he
      exact List.mem_cons_self
    · simp only [Kernel.putSegment, Function.update_of_ne he] at hg'
      exact List.mem_cons_of_mem _ (h.segments ht id' g' hg' ho')
  granted := h.granted

/-- A callback is added to the list. -/
theorem Local.register (h : Local i tracks granted extra bound st k) (hreg : Registered i k callback)
    (hextra : ∀ id ∈ extra, callback = .callbackSemaphoreKill id ∨ id ∈ extra') :
    Local i tracks granted extra' bound { st with onShmemExitList := callback :: st.onShmemExitList } k where
  registered callback' hc := by
    rcases List.mem_cons.mp hc with rfl | hc
    · exact hreg
    · exact h.registered callback' hc
  sets ht id q hq ho := by
    rcases h.sets ht id q hq ho with hmem | hmem
    · exact .inl (List.mem_cons_of_mem _ hmem)
    · rcases hextra id hmem with rfl | hmem
      · exact .inl List.mem_cons_self
      · exact .inr hmem
  segments ht id g hg ho := List.mem_cons_of_mem _ (h.segments ht id g hg ho)
  granted := h.granted

end PostgresV7.SysV
