import Mathlib.Data.List.Basic
import PostgresV7.Ipc.SysV

/-!
# Who may remove what (`ipc.c`)

The rules that processes follow which create semaphore sets and segments: each marks its own,
and removes nothing that a living process marked.
-/

namespace PostgresV7.SysV

open Threads Owned

variable {ι : Type} {pid : ι → Int} {i j : ι} {k k' k'' : Kernel ι} {id : Int} {q q' : SemSet ι} {g g' : Segment ι}

/-- The semaphore that identifies the set. -/
def SemSet.identity (q : SemSet ι) : Option Sem := q.sems[q.sems.length - 1]?

def SemSet.Marked (q : SemSet ι) : Prop := ∃ s, q.identity = some s ∧ s.val = PG_SEMA_MAGIC

def Segment.Marked (g : Segment ι) : Prop := g.header .magic = PG_SHMEM_MAGIC

/-- Once a set is marked nobody touches the mark. The others never do. -/
def semKind (ι : Type) : Kind ι (SemSet ι) where
  owner := SemSet.owner
  stamp q q' := q'.key = q.key ∧ q'.sems.length = q.sems.length ∧ (q.Marked → q'.identity = q.identity)
  keeps q q' := q'.key = q.key ∧ q'.sems.length = q.sems.length ∧ q'.identity = q.identity
  stamp_refl _ := ⟨rfl, rfl, fun _ => rfl⟩
  stamp_trans q q' q'' h h' := by
    refine ⟨h'.1.trans h.1, h'.2.1.trans h.2.1, fun hm => ?_⟩
    have heq := h.2.2 hm
    obtain ⟨s, hs, hval⟩ := hm
    exact (h'.2.2 ⟨s, heq.trans hs, hval⟩).trans heq
  keeps_refl _ := ⟨rfl, rfl, rfl⟩
  keeps_trans _ _ _ h h' := ⟨h'.1.trans h.1, h'.2.1.trans h.2.1, h'.2.2.trans h.2.2⟩

/-- The same of the header of a segment. -/
def segmentKind (ι : Type) : Kind ι (Segment ι) where
  owner := Segment.owner
  stamp g g' := g'.key = g.key ∧ (g.Marked → g'.Marked ∧ g'.header .creatorPid = g.header .creatorPid)
  keeps g g' := g'.key = g.key ∧ g'.header .magic = g.header .magic ∧ g'.header .creatorPid = g.header .creatorPid
  stamp_refl _ := ⟨rfl, fun h => ⟨h, rfl⟩⟩
  stamp_trans g g' g'' h h' := by
    refine ⟨h'.1.trans h.1, fun hm => ?_⟩
    have h₁ := h.2 hm
    have h₂ := h'.2 h₁.1
    exact ⟨h₂.1, h₂.2.trans h₁.2⟩
  keeps_refl _ := ⟨rfl, rfl, rfl⟩
  keeps_trans _ _ _ h h' := ⟨h'.1.trans h.1, h'.2.1.trans h.2.1, h'.2.2.trans h.2.2⟩

/-- Our mark is on the last semaphore of a set only, where it names the owner. -/
def SetOk (pid : ι → Int) (life : ι → Life) (q : SemSet ι) : Prop :=
  (q.owner = none → ∀ s ∈ q.sems, s.val ≠ PG_SEMA_MAGIC) ∧
    ∀ j, q.owner = some j → life j ≠ .unborn ∧
      ∀ n s, q.sems[n]? = some s → s.val = PG_SEMA_MAGIC → n + 1 = q.sems.length ∧ s.pid = pid j

/-- A header with our mark names the owner. -/
def SegmentOk (pid : ι → Int) (life : ι → Life) (g : Segment ι) : Prop :=
  (g.owner = none → ¬ g.Marked) ∧
    ∀ j, g.owner = some j → life j ≠ .unborn ∧ (g.Marked → g.header .creatorPid = pid j)

structure Inv (pid : ι → Int) (k : Kernel ι) : Prop where
  numbers : ∀ i j, k.life i = .alive → k.life j = .alive → pid i = pid j → i = j
  sets : ∀ id q, (k.sets id).contents? = some q → SetOk pid k.life q
  segments : ∀ id g, (k.segments id).contents? = some g → SegmentOk pid k.life g

/-- A process that has ended does not come back. -/
structure Ages (life life' : ι → Life) : Prop where
  dead : ∀ j, life j = .dead → life' j = .dead
  born : ∀ j, life j ≠ .unborn → life' j ≠ .unborn

structure Rely (i : ι) (k k' : Kernel ι) : Prop where
  ages : Ages k.life k'.life
  sets : ∀ id, Relied (semKind ι) i (k'.life i = .dead) (k.sets id) (k'.sets id)
  segments : ∀ id, Relied (segmentKind ι) i (k'.life i = .dead) (k.segments id) (k'.segments id)

structure Guar (i : ι) (k k' : Kernel ι) : Prop where
  life : k'.life = k.life
  sets : ∀ id, Move (semKind ι) k.life i (k.sets id) (k'.sets id)
  segments : ∀ id, Move (segmentKind ι) k.life i (k.segments id) (k'.segments id)

theorem Ages.refl (life : ι → Life) : Ages life life := ⟨fun _ h => h, fun _ h => h⟩

theorem Ages.trans {life life' life'' : ι → Life} (h : Ages life life') (h' : Ages life' life'') :
    Ages life life'' :=
  ⟨fun j hj => h'.dead j (h.dead j hj), fun j hj => h'.born j (h.born j hj)⟩

theorem Rely.refl (i : ι) (k : Kernel ι) : Rely i k k :=
  ⟨.refl _, fun _ => .refl _ _ _ _, fun _ => .refl _ _ _ _⟩

theorem Rely.trans (h : Rely i k k') (h' : Rely i k' k'') : Rely i k k'' where
  ages := h.ages.trans h'.ages
  sets id := (h.sets id).trans (h'.sets id) (h'.ages.dead i)
  segments id := (h.segments id).trans (h'.segments id) (h'.ages.dead i)

theorem Guar.refl (i : ι) (k : Kernel ι) : Guar i k k := ⟨rfl, fun _ => .same _, fun _ => .same _⟩

theorem Guar.rely (h : Guar i k k') (hne : j ≠ i) : Rely j k k' := by
  refine ⟨?_, fun id => ?_, fun id => ?_⟩
  · rw [h.life]
    exact .refl _
  · rw [h.life]
    exact (h.sets id).relied hne
  · rw [h.life]
    exact (h.segments id).relied hne

/-- What the processes have agreed on. -/
def protocol (pid : ι → Int) : Protocol ι Call (Kernel ι) where
  inv := Inv pid
  rely := Rely
  guar i _ := Guar i
  refl := Rely.refl
  trans _ _ _ _ := Rely.trans
  compat _ _ _ _ _ hne _ h := h.rely hne

/-! ## Changes of one object -/

@[simp] theorem putSet_self (k : Kernel ι) (id : Int) (slot : Slot (SemSet ι)) : (k.putSet id slot).sets id = slot :=
  Function.update_self ..

@[simp] theorem putSegment_self (k : Kernel ι) (id : Int) (slot : Slot (Segment ι)) :
    (k.putSegment id slot).segments id = slot :=
  Function.update_self ..

theorem SetOk.ages {life life' : ι → Life} (h : SetOk pid life q) (ha : Ages life life') : SetOk pid life' q :=
  ⟨h.1, fun j hj => ⟨ha.born j (h.2 j hj).1, (h.2 j hj).2⟩⟩

theorem SegmentOk.ages {life life' : ι → Life} (h : SegmentOk pid life g) (ha : Ages life life') :
    SegmentOk pid life' g :=
  ⟨h.1, fun j hj => ⟨ha.born j (h.2 j hj).1, (h.2 j hj).2⟩⟩

theorem Inv.putSet {slot : Slot (SemSet ι)} (h : Inv pid k)
    (hslot : ∀ q, slot.contents? = some q → SetOk pid k.life q) : Inv pid (k.putSet id slot) where
  numbers := h.numbers
  sets id' q hq := by
    by_cases hid : id' = id
    · subst hid
      simp only [Kernel.putSet, Function.update_self] at hq
      exact hslot q hq
    · simp only [Kernel.putSet, Function.update_of_ne hid] at hq
      exact h.sets id' q hq
  segments := h.segments

theorem Inv.putSegment {slot : Slot (Segment ι)} (h : Inv pid k)
    (hslot : ∀ g, slot.contents? = some g → SegmentOk pid k.life g) : Inv pid (k.putSegment id slot) where
  numbers := h.numbers
  sets := h.sets
  segments id' g hg := by
    by_cases hid : id' = id
    · subst hid
      simp only [Kernel.putSegment, Function.update_self] at hg
      exact hslot g hg
    · simp only [Kernel.putSegment, Function.update_of_ne hid] at hg
      exact h.segments id' g hg

theorem Guar.putSet {slot : Slot (SemSet ι)} (h : Move (semKind ι) k.life i (k.sets id) slot) :
    Guar i k (k.putSet id slot) where
  life := rfl
  sets id' := by
    by_cases hid : id' = id
    · subst hid
      simpa only [Kernel.putSet, Function.update_self] using h
    · simp only [Kernel.putSet, Function.update_of_ne hid]
      exact .same _
  segments _ := .same _

theorem Guar.putSegment {slot : Slot (Segment ι)} (h : Move (segmentKind ι) k.life i (k.segments id) slot) :
    Guar i k (k.putSegment id slot) where
  life := rfl
  sets _ := .same _
  segments id' := by
    by_cases hid : id' = id
    · subst hid
      simpa only [Kernel.putSegment, Function.update_self] using h
    · simp only [Kernel.putSegment, Function.update_of_ne hid]
      exact .same _

theorem Rely.putSet {slot : Slot (SemSet ι)}
    (h : Relied (semKind ι) i (k.life i = .dead) (k.sets id) slot) : Rely i k (k.putSet id slot) where
  ages := .refl _
  sets id' := by
    by_cases hid : id' = id
    · subst hid
      simpa only [Kernel.putSet, Function.update_self] using h
    · simp only [Kernel.putSet, Function.update_of_ne hid]
      exact .refl _ _ _ _
  segments _ := .refl _ _ _ _

theorem Rely.putSegment {slot : Slot (Segment ι)}
    (h : Relied (segmentKind ι) i (k.life i = .dead) (k.segments id) slot) : Rely i k (k.putSegment id slot) where
  ages := .refl _
  sets _ := .refl _ _ _ _
  segments id' := by
    by_cases hid : id' = id
    · subst hid
      simpa only [Kernel.putSegment, Function.update_self] using h
    · simp only [Kernel.putSegment, Function.update_of_ne hid]
      exact .refl _ _ _ _

theorem identity_set {n : Nat} {s : Sem} (hlt : n + 1 < q.sems.length) :
    SemSet.identity { q with sems := q.sems.set n s } = q.identity := by
  simp only [SemSet.identity, List.length_set]
  exact List.getElem?_set_ne (by omega)

theorem SetOk.set {n : Nat} {s : Sem} {life : ι → Life} (h : SetOk pid life q) (hs : s.val ≠ PG_SEMA_MAGIC) :
    SetOk pid life { q with sems := q.sems.set n s } := by
  refine ⟨fun ho t ht => ?_, fun j ho => ⟨(h.2 j ho).1, fun m t ht hval => ?_⟩⟩
  · rcases List.mem_or_eq_of_mem_set ht with ht | rfl
    · exact h.1 ho t ht
    · exact hs
  · simp only [List.getElem?_set] at ht
    simp only [List.length_set]
    split at ht
    · split at ht
      · obtain rfl := Option.some.inj ht
        exact absurd hval hs
      · cases ht
    · exact (h.2 j ho).2 m t ht hval

/-! ## The environment -/

section

variable [DecidableEq ι]

theorem ages_turn {life : Life} (hborn : life ≠ .unborn) (hdead : k.life i ≠ .dead) :
    Ages k.life (k.turn i life).life := by
  refine ⟨fun j hj => ?_, fun j hj => ?_⟩
  · rw [← hj]
    exact Function.update_of_ne (fun he => hdead (by rw [← he, hj])) _ _
  · by_cases he : j = i
    · subst he
      simpa only [Kernel.turn, Function.update_self] using hborn
    · simpa only [Kernel.turn, Function.update_of_ne he] using hj

theorem alive_turn {life : Life} (h : (k.turn i life).life j = .alive) :
    j = i ∧ life = .alive ∨ k.life j = .alive := by
  by_cases he : j = i
  · subst he
    exact .inl ⟨rfl, by simpa only [Kernel.turn, Function.update_self] using h⟩
  · exact .inr (by simpa only [Kernel.turn, Function.update_of_ne he] using h)

/-- Nothing changes but the life of a process. -/
theorem Inv.turn {life : Life} (h : Inv pid k) (hborn : life ≠ .unborn) (hdead : k.life i ≠ .dead)
    (hfree : life = .alive → ∀ j, k.life j = .alive → pid j ≠ pid i) : Inv pid (k.turn i life) where
  numbers j j' hj hj' heq := by
    rcases alive_turn hj with ⟨rfl, hl⟩ | halive
    · rcases alive_turn hj' with ⟨rfl, -⟩ | halive'
      · rfl
      · exact absurd heq.symm (hfree hl j' halive')
    · rcases alive_turn hj' with ⟨rfl, hl⟩ | halive'
      · exact absurd heq (hfree hl j halive)
      · exact h.numbers j j' halive halive' heq
  sets id q hq := (h.sets id q hq).ages (ages_turn hborn hdead)
  segments id g hg := (h.segments id g hg).ages (ages_turn hborn hdead)

theorem rely_turn {life : Life} (hborn : life ≠ .unborn) (hdead : k.life i ≠ .dead) (j : ι) :
    Rely j k (k.turn i life) :=
  ⟨ages_turn hborn hdead, fun _ => .refl _ _ _ _, fun _ => .refl _ _ _ _⟩

theorem environ_admitted : (protocol pid).Admits (Environ pid) := by
  intro k k' h henv
  cases henv with
  | starts hunborn hfree =>
    have hdead := hunborn.trans_ne (by decide : Life.unborn ≠ .dead)
    exact ⟨h.turn (by decide) hdead fun _ => hfree, rely_turn (by decide) hdead⟩
  | dies halive =>
    have hdead := halive.trans_ne (by decide : Life.alive ≠ .dead)
    exact ⟨h.turn (by decide) hdead fun h => (nomatch h), rely_turn (by decide) hdead⟩
  | otherSet hlive hgone hslot hused =>
    refine ⟨h.putSet fun q hq => ⟨fun _ => (hslot q hq).2, fun j hj => ?_⟩, fun j => .putSet ?_⟩
    · rw [(hslot q hq).1] at hj
      cases hj
    · exact Relied.foreign hlive hgone (fun q hq => (hslot q hq).1) hused
  | used hlive hlt hs =>
    rename_i id q n s
    have hok := h.sets id q (by rw [hlive]; rfl)
    refine ⟨h.putSet fun q' hq' => ?_, fun j => .putSet (Relied.update hlive rfl ?_ ?_)⟩
    · obtain rfl := Option.some.inj hq'
      exact hok.set hs
    · exact ⟨rfl, List.length_set, fun _ => identity_set hlt⟩
    · exact ⟨rfl, List.length_set, identity_set hlt⟩
  | otherSegment hlive hgone hslot hused =>
    refine ⟨h.putSegment fun g hg => ⟨fun _ => (hslot g hg).2, fun j hj => ?_⟩, fun j => .putSegment ?_⟩
    · rw [(hslot g hg).1] at hj
      cases hj
    · exact Relied.foreign hlive hgone (fun g hg => (hslot g hg).1) hused
  | allocated hlive =>
    rename_i id g n
    have hok := h.segments id g (by rw [hlive]; rfl)
    refine ⟨h.putSegment fun g' hg' => ?_, fun j => .putSegment (Relied.update hlive rfl ?_ ?_)⟩
    · obtain rfl := Option.some.inj hg'
      exact hok
    · exact ⟨rfl, fun hm => ⟨hm, rfl⟩⟩
    · exact ⟨rfl, rfl, rfl⟩

end

end PostgresV7.SysV
