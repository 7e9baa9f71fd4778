import PostgresV7.Oset.Sequences

/-!
# Runs of ordered set calls (`oset.c`)

The calls come in any order. An element is pushed into a set that has been initialised while it is
in none, and popped while it is in one. A set may be initialised again, whatever it holds.
-/

namespace PostgresV7.Oset

open Links

variable {O : Objects}

inductive Call (O : Objects) where
  | init (s : O.sets) (offset : Int32)
  | pushInto (e : O.elems) (s : O.sets)
  | pop (e : O.elems)

def Call.run (m : Memory) : Call O → Option Memory
  | .init s offset => orderedSetInit m s offset
  | .pushInto e s => orderedElemPushInto m e s
  | .pop e => orderedElemPop m e

/-- What the calls do to the sequences. -/
def Sets.after (sets : Sets O) : Call O → Sets O
  | .init s offset => Function.update sets s (some ⟨offset, []⟩)
  | .pushInto e s => Function.update sets s ((sets s).map fun S => { S with elems := e :: S.elems })
  | .pop e => fun s => (sets s).map fun S => { S with elems := S.elems.erase e }

def Sets.Allows (sets : Sets O) : Call O → Prop
  | .init _ _ => True
  | .pushInto e s => (∃ S, sets s = some S) ∧ ∀ s' S', sets s' = some S' → e ∉ S'.elems
  | .pop e => ∃ s S, sets s = some S ∧ e ∈ S.elems

def runCalls (m : Memory) : List (Call O) → Option Memory
  | [] => some m
  | c :: calls => (c.run m).bind fun m => runCalls m calls

def Sets.afterAll (sets : Sets O) (calls : List (Call O)) : Sets O := calls.foldl Sets.after sets

def Sets.AllowsAll (sets : Sets O) : List (Call O) → Prop
  | [] => True
  | c :: calls => sets.Allows c ∧ (sets.after c).AllowsAll calls

/-- No set has been initialised. -/
def Sets.none : Sets O := fun _ => Option.none

variable {m m' : Memory} {sets : Sets O} {calls : List (Call O)}

theorem Represents.none (m : Memory) : Represents m (Sets.none : Sets O) :=
  ⟨nofun, nofun, nofun, nofun, nofun⟩

/-- An element is taken from the set it is in. -/
theorem Represents.erase (h : Represents m sets) {s : O.sets} {S : OSet O} {e : O.elems} (hs : sets s = some S)
    (he : e ∈ S.elems) : (fun s => (sets s).map fun S => { S with elems := S.elems.erase e }) =
      Function.update sets s (some { S with elems := S.elems.erase e }) := by
  funext s'
  by_cases hne : s' = s
  · rw [hne, Function.update_self, hs]
    rfl
  · rw [Function.update_of_ne hne]
    cases hs' : sets s' with
    | none => rfl
    | some S' =>
      have hout : e ∉ S'.elems := fun he' => hne (h.only hs hs' he he')
      rw [Option.map_some, List.erase_of_not_mem hout]

theorem Represents.call {c : Call O} (h : Represents m sets) (hc : sets.Allows c) :
    ∃ m', c.run m = some m' ∧ Represents m' (sets.after c) := by
  cases c with
  | init s offset => exact ⟨_, orderedSetInit_eq m s offset, h.init s offset⟩
  | pushInto e s =>
    obtain ⟨⟨S, hs⟩, hfree⟩ := hc
    obtain ⟨m', hrun, h'⟩ := h.push hs hfree
    refine ⟨m', hrun, ?_⟩
    rw [Sets.after, hs]
    exact h'
  | pop e =>
    obtain ⟨s, S, hs, he⟩ := hc
    obtain ⟨l₁, l₂, -, hl, herase⟩ := List.exists_erase_eq he
    obtain ⟨m', hrun, h'⟩ := h.pop hs hl
    refine ⟨m', hrun, ?_⟩
    rw [Sets.after, h.erase hs he, herase]
    exact h'

theorem Represents.runCalls (h : Represents m sets) (hcalls : sets.AllowsAll calls) :
    ∃ m', Oset.runCalls m calls = some m' ∧ Represents m' (sets.afterAll calls) := by
  induction calls generalizing m sets with
  | nil => exact ⟨m, rfl, h⟩
  | cons c calls ih =>
    obtain ⟨m₁, hrun₁, h₁⟩ := h.call hcalls.1
    obtain ⟨m', hrun, h'⟩ := ih h₁ hcalls.2
    refine ⟨m', ?_, h'⟩
    rw [Oset.runCalls, hrun₁, Option.bind_some, hrun]

/-- From any memory the calls go through, and what is read afterwards are the records of the
sequences that the calls mean. -/
theorem oset_run (m : Memory) (hcalls : (Sets.none : Sets O).AllowsAll calls) :
    ∃ m', runCalls m calls = some m' ∧ ∀ s S, Sets.none.afterAll calls s = some S →
      orderedSetGetHead m' s = some (S.record S.elems.head?) ∧
      ∀ (l₁ : List O.elems) (e : O.elems) (l₂ : List O.elems), S.elems = l₁ ++ e :: l₂ →
        orderedElemGetPredecessor m' e = some (S.record l₁.getLast?) ∧
          orderedElemGetSuccessor m' e = some (S.record l₂.head?) := by
  obtain ⟨m', hrun, h⟩ := (Represents.none m).runCalls hcalls
  exact ⟨m', hrun, fun s S hs => ⟨h.getHead hs, fun l₁ e l₂ hl => ⟨h.getPredecessor hs hl, h.getSuccessor hs hl⟩⟩⟩

/-- Three elements, 16 bytes into their records, and two sets. -/
def threeElements : Objects where
  elems := {0x2010, 0x3010, 0x4010}
  sets := {0x1000, 0x1020}
  inside := by
    rintro (⟨e, rfl | rfl | rfl⟩ | ⟨s, rfl | rfl⟩) <;> decide
  apart := by
    rintro (⟨e, rfl | rfl | rfl⟩ | ⟨s, rfl | rfl⟩) (⟨e, rfl | rfl | rfl⟩ | ⟨s, rfl | rfl⟩) <;> decide

def firstElement : threeElements.elems := ⟨0x2010, .inl rfl⟩

def secondElement : threeElements.elems := ⟨0x3010, .inr (.inl rfl)⟩

def thirdElement : threeElements.elems := ⟨0x4010, .inr (.inr rfl)⟩

def filledSet : threeElements.sets := ⟨0x1000, .inl rfl⟩

def emptySet : threeElements.sets := ⟨0x1020, .inr rfl⟩

/-- The middle one of three elements is popped. -/
theorem oset_run_example : ∃ m', runCalls ⟨fun _ => 0xdead⟩ [.init filledSet 16, .init emptySet 16,
      .pushInto firstElement filledSet, .pushInto secondElement filledSet, .pushInto thirdElement filledSet,
      .pop secondElement] = some m' ∧
    orderedSetGetHead m' filledSet = some 0x4000 ∧ orderedSetGetHead m' emptySet = some NULL ∧
    orderedElemGetPredecessor m' firstElement = some 0x4000 ∧ orderedElemGetSuccessor m' firstElement = some NULL ∧
    orderedElemGetPredecessor m' thirdElement = some NULL ∧ orderedElemGetSuccessor m' thirdElement = some 0x2000 := by
  have hcalls : (Sets.none : Sets threeElements).AllowsAll [.init filledSet 16, .init emptySet 16,
      .pushInto firstElement filledSet, .pushInto secondElement filledSet, .pushInto thirdElement filledSet,
      .pop secondElement] := by
    have hfree : ∀ {sets : Sets threeElements} {e : threeElements.elems} {l : List threeElements.elems},
        sets filledSet = some ⟨16, l⟩ → sets emptySet = some ⟨16, []⟩ → e ∉ l →
        ∀ s' S', sets s' = some S' → e ∉ S'.elems := by
      rintro sets e l hfilled hempty he ⟨s', rfl | rfl⟩ S' hs'
      · exact (Option.some.inj (hfilled.symm.trans hs')) ▸ he
      · exact (Option.some.inj (hempty.symm.trans hs')) ▸ List.not_mem_nil
    exact ⟨trivial, trivial, ⟨⟨_, rfl⟩, hfree rfl rfl (by decide)⟩, ⟨⟨_, rfl⟩, hfree rfl rfl (by decide)⟩,
      ⟨⟨_, rfl⟩, hfree rfl rfl (by decide)⟩, ⟨filledSet, _, rfl, by decide⟩, trivial⟩
  obtain ⟨m', hrun, hread⟩ := oset_run ⟨fun _ => 0xdead⟩ hcalls
  obtain ⟨hhead, hneighbours⟩ := hread filledSet ⟨16, [thirdElement, firstElement]⟩ rfl
  obtain ⟨hempty, -⟩ := hread emptySet ⟨16, []⟩ rfl
  obtain ⟨hfirst, hfirst'⟩ := hneighbours [thirdElement] firstElement [] rfl
  obtain ⟨hthird, hthird'⟩ := hneighbours [] thirdElement [firstElement] rfl
  exact ⟨m', hrun, hhead, hempty, hfirst, hfirst', hthird, hthird'⟩

end PostgresV7.Oset
