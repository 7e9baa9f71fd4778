import PostgresV7.Fstack.Fstack

/-!
# Runs of fixed stack calls (`fstack.c`)

The calls come in any order, on any number of stacks. A structure is pushed while its item is on no
stack; one structure may have several items and be on several stacks. A stack may be initialised
again, whatever is on it.
-/

namespace PostgresV7.Fstack

open Chains
open Oset (Memory NULL load store getInt setInt getInt_setInt)

variable {O : Objects}

/-- A stack that has been initialised: the structures on it, the top first. -/
structure FStack where
  offset : Int32
  pointers : List UInt64

/-- The item of a structure. -/
def FStack.item (S : FStack) (pointer : UInt64) : UInt64 := pointer + S.offset.toInt64.toUInt64

abbrev FStacks (O : Objects) := O.fixedStacks → Option FStack

inductive Call (O : Objects) where
  | init (s : O.fixedStacks) (offset : Int32)
  | push (s : O.fixedStacks) (pointer : UInt64)
  | pop (s : O.fixedStacks)
  | getTop (s : O.fixedStacks)
  | getNext (s : O.fixedStacks) (pointer : UInt64)

/-- The call, with the pointer that it returns if it returns one. -/
def Call.run (fuel : Nat) (m : Memory) : Call O → Option (Option UInt64 × Memory)
  | .init s offset => do return (none, ← fixedStackInit m s offset)
  | .push s pointer => do return (none, ← fixedStackPush m s pointer)
  | .pop s => do
    let (pointer, m) ← fixedStackPop m s
    return (some pointer, m)
  | .getTop s => do return (some (← fixedStackGetTop m s), m)
  | .getNext s pointer => do return (some (← fixedStackGetNext m fuel s pointer), m)

/-- What the call returns and does to the stacks, unless an assertion fails. -/
def Call.meaning (stk : FStacks O) : Call O → Option (Option UInt64 × FStacks O)
  | .init s offset => some (none, Function.update stk s (some ⟨offset, []⟩))
  | .push s pointer => do
    let S ← stk s
    if pointer = NULL then none
    else some (none, Function.update stk s (some { S with pointers := pointer :: S.pointers }))
  | .pop s => do
    let S ← stk s
    some (some (S.pointers.headD NULL), Function.update stk s (some { S with pointers := S.pointers.tail }))
  | .getTop s => do
    let S ← stk s
    some (some (S.pointers.headD NULL), stk)
  | .getNext s pointer => do
    let S ← stk s
    if pointer ∈ S.pointers then some (some ((S.pointers.dropWhile (· ≠ pointer)).tail.headD NULL), stk)
    else none

/-- Only stacks that have been initialised are used, and only items that are on no stack are pushed. -/
def Call.Allowed (stk : FStacks O) : Call O → Prop
  | .init _ _ => True
  | .push s pointer => ∃ S, stk s = some S ∧ S.item pointer ∈ O.items ∧
      ∀ s' S', stk s' = some S' → S.item pointer ∉ S'.pointers.map S'.item
  | .pop s => stk s ≠ none
  | .getTop s => stk s ≠ none
  | .getNext s _ => stk s ≠ none

def runCalls (fuel : Nat) (m : Memory) : List (Call O) → Option (List (Option UInt64) × Memory)
  | [] => some ([], m)
  | c :: calls => do
    let (answer, m) ← c.run fuel m
    let (answers, m) ← runCalls fuel m calls
    return (answer :: answers, m)

def meaningAll (stk : FStacks O) : List (Call O) → Option (List (Option UInt64) × FStacks O)
  | [] => some ([], stk)
  | c :: calls => do
    let (answer, stk) ← c.meaning stk
    let (answers, stk) ← meaningAll stk calls
    return (answer :: answers, stk)

/-- Every call is allowed where the calls before it lead. -/
def AllowedAll (stk : FStacks O) : List (Call O) → Prop
  | [] => True
  | c :: calls => c.Allowed stk ∧
    match c.meaning stk with
    | some (_, stk) => AllowedAll stk calls
    | none => True

/-- No stack has been initialised. -/
def FStacks.none : FStacks O := fun _ => Option.none

/-! ## Stacks in memory -/

def put (m : Memory) (a v : UInt64) : Memory := ⟨Function.update m.word a v⟩


/-- The words of a stack hold the structures that are on it. -/
structure Represents (m : Memory) (stk : FStacks O) : Prop where
  offset : ∀ s S, stk s = some S → getInt (m.word (s.1 + offsetField)) = S.offset
  chain : ∀ s S, stk s = some S → Chain id NULL m.word s.1 (S.pointers.map S.item)
  items : ∀ s S, stk s = some S → ∀ p ∈ S.pointers, p ≠ NULL ∧ S.item p ∈ O.items
  apart : ∀ s S s' S', stk s = some S → stk s' = some S' → s ≠ s' →
    List.Disjoint (S.pointers.map S.item) (S'.pointers.map S'.item)

variable {m m' : Memory} {stk : FStacks O} {s s' : O.fixedStacks} {S S' : FStack} {p a v : UInt64} {fuel : Nat}

theorem FStack.item_injective (S : FStack) : Function.Injective S.item := fun _ _ => (UInt64.add_left_inj _).mp

theorem FStack.item_sub (S : FStack) (p : UInt64) : S.item p - S.offset.toInt64.toUInt64 = p :=
  UInt64.add_sub_cancel ..

theorem put_self (m : Memory) (a v : UInt64) : (put m a v).word a = v := Function.update_self ..

theorem put_of_ne (m : Memory) (v : UInt64) (h : p ≠ a) : (put m a v).word p = m.word p := Function.update_of_ne h ..

theorem load_top (m : Memory) (s : O.fixedStacks) : load m s.1 topField = some (m.word s.1) := by
  rw [load, if_neg (Objects.stack_ne_null s), show s.1 + topField = s.1 from UInt64.add_zero _]

theorem load_offset (m : Memory) (s : O.fixedStacks) : load m s.1 offsetField = some (m.word (s.1 + offsetField)) :=
  if_neg (Objects.stack_ne_null s)

theorem load_next (m : Memory) (hp : p ≠ NULL) : load m p nextField = some (m.word p) := by
  rw [load, if_neg hp, show p + nextField = p from UInt64.add_zero _]

theorem store_top (m : Memory) (s : O.fixedStacks) (v : UInt64) : store m s.1 topField v = some (put m s.1 v) := by
  rw [store, if_neg (Objects.stack_ne_null s), show s.1 + topField = s.1 from UInt64.add_zero _]
  rfl

theorem store_next (m : Memory) (hp : p ≠ NULL) (v : UInt64) : store m p nextField v = some (put m p v) := by
  rw [store, if_neg hp, show p + nextField = p from UInt64.add_zero _]
  rfl

theorem store_offset (m : Memory) (s : O.fixedStacks) (v : UInt64) :
    store m s.1 offsetField v = some (put m (s.1 + offsetField) v) :=
  if_neg (Objects.stack_ne_null s)

namespace Represents

theorem mem_items (h : Represents m stk) (hs : stk s = some S) (ha : a ∈ S.pointers.map S.item) : a ∈ O.items := by
  obtain ⟨p, hp, rfl⟩ := List.mem_map.mp ha
  exact (h.items s S hs p hp).2

theorem getOffset_eq (h : Represents m stk) (hs : stk s = some S) :
    getOffset m s.1 = some S.offset.toInt64.toUInt64 := by
  rw [getOffset, load_offset]
  simp only [Option.bind_eq_bind, Option.bind_some, h.offset s S hs]
  rfl

theorem getItem (h : Represents m stk) (hs : stk s = some S) (p : UInt64) :
    fixedStackGetItem m s.1 p = some (S.item p) := by
  rw [fixedStackGetItem, h.getOffset_eq hs]
  rfl

theorem getItemBase (h : Represents m stk) (hs : stk s = some S) (p : UInt64) :
    fixedStackGetItemBase m s.1 (S.item p) = some p := by
  rw [fixedStackGetItemBase, h.getOffset_eq hs]
  exact congrArg some (S.item_sub p)

/-- The words of a stack: its own and the items that are on it. -/
def Owns (s : O.fixedStacks) (S : FStack) (a : UInt64) : Prop :=
  a = s.1 ∨ a = s.1 + offsetField ∨ a ∈ S.pointers.map S.item

theorem ne_top (h : Represents m stk) (hs' : stk s' = some S') (hne : s' ≠ s) (ha : Owns s' S' a) : a ≠ s.1 := by
  rcases ha with rfl | rfl | ha
  · exact fun heq => hne (Subtype.ext heq)
  · exact (Objects.stack_ne_offset s s').symm
  · exact Objects.item_ne_stack ⟨a, h.mem_items hs' ha⟩ s

theorem ne_offset (h : Represents m stk) (hs' : stk s' = some S') (hne : s' ≠ s) (ha : Owns s' S' a) :
    a ≠ s.1 + offsetField := by
  rcases ha with rfl | rfl | ha
  · exact Objects.stack_ne_offset s' s
  · exact fun heq => hne (Subtype.ext ((UInt64.add_left_inj _).mp heq))
  · exact Objects.item_ne_offset ⟨a, h.mem_items hs' ha⟩ s

/-- One stack gets other contents, and the words of the others stay. -/
theorem replace (h : Represents m stk) (hoffset : getInt (m'.word (s.1 + offsetField)) = S.offset)
    (hchain : Chain id NULL m'.word s.1 (S.pointers.map S.item))
    (hitems : ∀ p ∈ S.pointers, p ≠ NULL ∧ S.item p ∈ O.items)
    (hapart : ∀ s' S', s' ≠ s → stk s' = some S' → List.Disjoint (S.pointers.map S.item) (S'.pointers.map S'.item))
    (hother : ∀ s' S', s' ≠ s → stk s' = some S' → ∀ a, Owns s' S' a → m'.word a = m.word a) :
    Represents m' (Function.update stk s (some S)) := by
  have hcases : ∀ {t : O.fixedStacks} {T : FStack}, Function.update stk s (some S) t = some T →
      t = s ∧ T = S ∨ t ≠ s ∧ stk t = some T := by
    intro t T ht
    by_cases hts : t = s
    · rw [hts, Function.update_self] at ht
      exact .inl ⟨hts, (Option.some.inj ht).symm⟩
    · rw [Function.update_of_ne hts] at ht
      exact .inr ⟨hts, ht⟩
  refine ⟨fun t T ht => ?_, fun t T ht => ?_, fun t T ht => ?_, fun t T t' T' ht ht' hne => ?_⟩
  · rcases hcases ht with ⟨rfl, rfl⟩ | ⟨hts, ht⟩
    · exact hoffset
    · rw [hother t T hts ht _ (.inr (.inl rfl))]
      exact h.offset t T ht
  · rcases hcases ht with ⟨rfl, rfl⟩ | ⟨hts, ht⟩
    · exact hchain
    · exact (h.chain t T ht).move (hother t T hts ht _ (.inl rfl)) fun a ha => hother t T hts ht a (.inr (.inr ha))
  · rcases hcases ht with ⟨rfl, rfl⟩ | ⟨-, ht⟩
    · exact hitems
    · exact h.items t T ht
  · rcases hcases ht with ⟨hts, hT⟩ | ⟨hts, hold⟩
    · rcases hcases ht' with ⟨hts', -⟩ | ⟨hts', hold'⟩
      · exact absurd (hts.trans hts'.symm) hne
      · rw [hT]
        exact hapart t' T' hts' hold'
    · rcases hcases ht' with ⟨-, hT'⟩ | ⟨-, hold'⟩
      · rw [hT']
        exact fun a ha ha' => hapart t T hts hold ha' ha
      · exact h.apart t T t' T' hold hold' hne

/-! ## The calls -/

theorem init (h : Represents m stk) (s : O.fixedStacks) (offset : Int32) :
    ∃ m', fixedStackInit m s.1 offset = some m' ∧
      Represents m' (Function.update stk s (some ⟨offset, []⟩)) := by
  have hne := Objects.stack_ne_offset s s
  have hrun : fixedStackInit m s.1 offset = some (put (put m s.1 NULL) (s.1 + offsetField)
      (setInt ((put m s.1 NULL).word (s.1 + offsetField)) offset)) := by
    rw [fixedStackInit, store_top]
    simp only [Option.bind_eq_bind, Option.bind_some, load_offset, store_offset]
  refine ⟨_, hrun, h.replace ?_ ?_ (fun p hp => absurd hp List.not_mem_nil)
    (fun _ _ _ _ => List.disjoint_nil_left _) fun s' S' hs' hS' a ha => ?_⟩
  · rw [put_self, getInt_setInt]
  · exact (put_of_ne _ _ hne).trans (put_self ..)
  · rw [put_of_ne _ _ (h.ne_offset hS' hs' ha), put_of_ne _ _ (h.ne_top hS' hs' ha)]

theorem push (h : Represents m stk) (hs : stk s = some S) (hp : p ≠ NULL) (hitem : S.item p ∈ O.items)
    (hfree : ∀ s' S', stk s' = some S' → S.item p ∉ S'.pointers.map S'.item) :
    ∃ m', fixedStackPush m s.1 p = some m' ∧
      Represents m' (Function.update stk s (some { S with pointers := p :: S.pointers })) := by
  have hnull : S.item p ≠ NULL := Objects.item_ne_null ⟨_, hitem⟩
  have hstack : S.item p ≠ s.1 := Objects.item_ne_stack ⟨_, hitem⟩ s
  have hrun : fixedStackPush m s.1 p = some (put (put m (S.item p) (m.word s.1)) s.1 (S.item p)) := by
    rw [fixedStackPush, h.getItem hs]
    simp only [Option.bind_eq_bind, Option.bind_some, if_neg hp, load_top, store_next _ hnull, store_top]
  refine ⟨_, hrun, h.replace ?_ ?_ ?_ ?_ fun s' S' hs' hS' a ha => ?_⟩
  · rw [put_of_ne _ _ (Objects.stack_ne_offset s s).symm, put_of_ne _ _ (Objects.item_ne_offset ⟨_, hitem⟩ s).symm]
    exact h.offset s S hs
  · refine (h.chain s S hs).push hnull (put_self ..) ?_ fun a ha => ?_
    · exact (put_of_ne _ _ hstack).trans (put_self ..)
    · have hne : a ≠ S.item p := fun heq => hfree s S hs (heq ▸ ha)
      exact (put_of_ne _ _ (Objects.item_ne_stack ⟨a, h.mem_items hs ha⟩ s)).trans (put_of_ne _ _ hne)
  · exact List.forall_mem_cons.mpr ⟨⟨hp, hitem⟩, h.items s S hs⟩
  · intro s' S' hs' hS'
    exact List.disjoint_cons_left.mpr ⟨hfree s' S' hS', h.apart s S s' S' hs hS' hs'.symm⟩
  · have hne : a ≠ S.item p := by
      rcases ha with rfl | rfl | ha
      · exact (Objects.item_ne_stack ⟨_, hitem⟩ s').symm
      · exact (Objects.item_ne_offset ⟨_, hitem⟩ s').symm
      · exact fun heq => hfree s' S' hS' (heq ▸ ha)
    rw [put_of_ne _ _ (h.ne_top hS' hs' ha), put_of_ne _ _ hne]

/-- What is popped is the top one, or `NULL`. -/
theorem pop (h : Represents m stk) (hs : stk s = some S) :
    ∃ m', fixedStackPop m s.1 = some (S.pointers.headD NULL, m') ∧
      Represents m' (Function.update stk s (some { S with pointers := S.pointers.tail })) := by
  have hchain := h.chain s S hs
  cases hpointers : S.pointers with
  | nil =>
    rw [hpointers] at hchain
    have htop : m.word s.1 = NULL := hchain
    have hkept : Represents m (Function.update stk s (some { S with pointers := [] })) := by
      rw [← hpointers, ← hs, Function.update_eq_self]
      exact h
    refine ⟨m, ?_, hkept⟩
    rw [fixedStackPop, load_top, htop]
    rfl
  | cons p l =>
    rw [hpointers] at hchain
    obtain ⟨htop, hnull, hrest⟩ := hchain
    have hitems := h.items s S hs
    rw [hpointers] at hitems
    have hitem : S.item p ∈ O.items := (hitems p List.mem_cons_self).2
    have hrun : fixedStackPop m s.1 = some (p, put m s.1 (m.word (S.item p))) := by
      rw [fixedStackPop, load_top, htop]
      simp only [Option.bind_eq_bind, Option.bind_some, if_neg hnull, h.getItemBase hs, load_next _ hnull, store_top]
      rfl
    refine ⟨_, hrun, h.replace ?_ ?_ (fun q hq => hitems q (List.mem_cons_of_mem p hq)) ?_ fun s' S' hs' hS' a ha => ?_⟩
    · rw [put_of_ne _ _ (Objects.stack_ne_offset s s).symm]
      exact h.offset s S hs
    · refine hrest.move (put_self ..) fun a ha => ?_
      have hmem : a ∈ S.pointers.map S.item := by
        rw [hpointers]
        exact List.mem_cons_of_mem _ ha
      exact put_of_ne _ _ (Objects.item_ne_stack ⟨a, h.mem_items hs hmem⟩ s)
    · intro s' S' hs' hS'
      have hdisjoint := h.apart s S s' S' hs hS' hs'.symm
      rw [hpointers] at hdisjoint
      exact (List.disjoint_cons_left.mp hdisjoint).2
    · exact put_of_ne _ _ (h.ne_top hS' hs' ha)

theorem getTop (h : Represents m stk) (hs : stk s = some S) :
    fixedStackGetTop m s.1 = some (S.pointers.headD NULL) := by
  have hchain := h.chain s S hs
  rw [fixedStackGetTop, load_top]
  cases hpointers : S.pointers with
  | nil =>
    rw [hpointers] at hchain
    have htop : m.word s.1 = NULL := hchain
    rw [htop]
    rfl
  | cons p l =>
    rw [hpointers] at hchain
    obtain ⟨htop, hnull, -⟩ := hchain
    rw [htop]
    simp only [Option.bind_eq_bind, Option.bind_some, if_neg hnull]
    exact h.getItemBase hs p

/-- The loop finds an item among those that are linked. -/
theorem containsLoop_eq {items : List UInt64} {next item : UInt64} (hl : Linked id NULL m.word next items)
    (hfuel : items.length ≤ fuel) : containsLoop m item fuel next = some (decide (item ∈ items)) := by
  induction items generalizing next fuel with
  | nil =>
    have hnext : next = NULL := hl
    rw [containsLoop.eq_def, if_pos hnext]
    rfl
  | cons e items ih =>
    have hrest : Linked id NULL m.word (m.word e) items := hl.tail
    obtain ⟨rfl, hnull, -⟩ := hl
    cases fuel with
    | zero => simp at hfuel
    | succ fuel =>
      rw [containsLoop.eq_def, if_neg hnull]
      by_cases heq : next = item
      · simp [heq]
      · have hmem : item ∈ next :: items ↔ item ∈ items := by
          rw [List.mem_cons]
          exact or_iff_right (Ne.symm heq)
        simp only [if_neg heq, load_next _ hnull, Option.bind_eq_bind, Option.bind_some]
        rw [ih hrest (by simpa using hfuel)]
        simp only [hmem]

theorem contains_eq (h : Represents m stk) (hs : stk s = some S) (hfuel : S.pointers.length ≤ fuel) (hp : p ≠ NULL) :
    fixedStackContains m fuel s.1 p = some (decide (p ∈ S.pointers)) := by
  have hl := chain_iff_linked.mp (h.chain s S hs)
  have hmem : S.item p ∈ S.pointers.map S.item ↔ p ∈ S.pointers := List.mem_map_of_injective S.item_injective
  rw [fixedStackContains, h.getItem hs, load_top]
  simp only [if_neg hp, Option.bind_eq_bind, Option.bind_some]
  refine (containsLoop_eq hl (by simpa using hfuel)).trans ?_
  simp only [hmem]

/-- The structure below one that is on the stack, or `NULL`; for another one the assertion fails. -/
theorem getNext (h : Represents m stk) (hs : stk s = some S) (hfuel : S.pointers.length ≤ fuel) :
    fixedStackGetNext m fuel s.1 p =
      if p ∈ S.pointers then some ((S.pointers.dropWhile (· ≠ p)).tail.headD NULL) else none := by
  by_cases hmem : p ∈ S.pointers
  · have hp : p ≠ NULL := (h.items s S hs p hmem).1
    obtain ⟨l₁, l₂, hl, hout⟩ := List.eq_append_cons_of_mem hmem
    have hdrop : S.pointers.dropWhile (· ≠ p) = p :: l₂ := by
      have hbefore : ∀ q ∈ l₁, decide (q ≠ p) = true := by
        intro q hq
        refine decide_eq_true fun heq => hout ?_
        rwa [heq] at hq
      rw [hl, List.dropWhile_append_of_pos hbefore]
      exact List.dropWhile_cons_of_neg (by simp)
    have hchain := h.chain s S hs
    rw [hl, List.map_append, List.map_cons] at hchain
    obtain ⟨-, hnull, hbehind⟩ := hchain.right
    rw [if_pos hmem, hdrop, fixedStackGetNext, h.contains_eq hs hfuel hp, decide_eq_true hmem]
    simp only [Option.bind_eq_bind, Option.bind_some, h.getItem hs, load_next _ hnull, List.tail_cons]
    cases l₂ with
    | nil =>
      have hnext : m.word (S.item p) = NULL := hbehind
      rw [hnext]
      rfl
    | cons q l₂ =>
      obtain ⟨hnext, hnext', -⟩ := hbehind
      have hnext : m.word (S.item p) = S.item q := hnext
      rw [hnext]
      simp only [if_neg hnext']
      exact h.getItemBase hs q
  · rw [if_neg hmem, fixedStackGetNext]
    by_cases hp : p = NULL
    · rw [fixedStackContains, if_pos hp]
      rfl
    · rw [h.contains_eq hs hfuel hp, decide_eq_false hmem]
      rfl

theorem none (m : Memory) : Represents m (FStacks.none : FStacks O) where
  offset _ _ hs := absurd hs.symm (Option.some_ne_none _)
  chain _ _ hs := absurd hs.symm (Option.some_ne_none _)
  items _ _ hs := absurd hs.symm (Option.some_ne_none _)
  apart _ _ _ _ hs := absurd hs.symm (Option.some_ne_none _)

end Represents

/-! ## Runs -/

/-- Both fail, or both return the same and leave the stacks in memory as they are to be. -/
inductive SameOutcome {β : Type} : Option (β × Memory) → Option (β × FStacks O) → Prop
  | ok {v : β} {m : Memory} {stk : FStacks O} (h : Represents m stk) : SameOutcome (some (v, m)) (some (v, stk))
  | abort : SameOutcome none none

theorem Call.same_outcome (h : Represents m stk) {c : Call O} (hc : c.Allowed stk)
    (hfuel : ∀ s S, stk s = some S → S.pointers.length ≤ fuel) :
    SameOutcome (c.run fuel m) (c.meaning stk) := by
  cases c with
  | init s offset =>
    obtain ⟨m', hrun, h'⟩ := h.init s offset
    rw [run, hrun]
    exact .ok h'
  | push s p =>
    obtain ⟨S, hs, hitem, hfree⟩ := hc
    rw [run, meaning, hs]
    by_cases hp : p = NULL
    · rw [fixedStackPush, h.getItem hs]
      simp only [Option.bind_eq_bind, Option.bind_some, if_pos hp]
      exact .abort
    · obtain ⟨m', hrun, h'⟩ := h.push hs hp hitem hfree
      rw [hrun]
      simp only [Option.bind_eq_bind, Option.bind_some, if_neg hp]
      exact .ok h'
  | pop s =>
    obtain ⟨S, hs⟩ := Option.ne_none_iff_exists'.mp hc
    obtain ⟨m', hrun, h'⟩ := h.pop hs
    rw [run, meaning, hs, hrun]
    exact .ok h'
  | getTop s =>
    obtain ⟨S, hs⟩ := Option.ne_none_iff_exists'.mp hc
    rw [run, meaning, hs, h.getTop hs]
    exact .ok h
  | getNext s p =>
    obtain ⟨S, hs⟩ := Option.ne_none_iff_exists'.mp hc
    rw [run, meaning, hs, h.getNext hs (hfuel s S hs)]
    by_cases hp : p ∈ S.pointers
    · simp only [if_pos hp, Option.bind_eq_bind, Option.bind_some]
      exact .ok h
    · simp only [if_neg hp, Option.bind_eq_bind, Option.bind_some]
      exact .abort

/-- No stack gets higher by more than one. -/
theorem Call.length_meaning {c : Call O} {answer : Option UInt64} {stk' : FStacks O} {n : Nat}
    (hc : c.meaning stk = some (answer, stk')) (hlen : ∀ s S, stk s = some S → S.pointers.length ≤ n) :
    ∀ s S, stk' s = some S → S.pointers.length ≤ n + 1 := by
  have hsame : ∀ t T, stk t = some T → T.pointers.length ≤ n + 1 := fun t T ht => (hlen t T ht).trans (Nat.le_succ n)
  have hset : ∀ {s : O.fixedStacks} {S : FStack}, S.pointers.length ≤ n + 1 →
      ∀ t T, Function.update stk s (some S) t = some T → T.pointers.length ≤ n + 1 := by
    intro s S hS t T ht
    by_cases hts : t = s
    · rw [hts, Function.update_self] at ht
      exact Option.some.inj ht ▸ hS
    · rw [Function.update_of_ne hts] at ht
      exact hsame t T ht
  cases c with
  | init s offset =>
    cases hc
    exact hset (Nat.zero_le _)
  | push s p =>
    obtain ⟨S, hs, hc⟩ := Option.bind_eq_some_iff.mp hc
    by_cases hp : p = NULL
    · rw [if_pos hp] at hc
      cases hc
    · rw [if_neg hp] at hc
      cases hc
      exact hset (Nat.succ_le_succ (hlen s S hs))
  | pop s =>
    obtain ⟨S, hs, hc⟩ := Option.bind_eq_some_iff.mp hc
    cases hc
    refine hset ?_
    rw [List.length_tail]
    exact (Nat.sub_le ..).trans (hsame s S hs)
  | getTop s =>
    obtain ⟨S, hs, hc⟩ := Option.bind_eq_some_iff.mp hc
    cases hc
    exact hsame
  | getNext s p =>
    obtain ⟨S, hs, hc⟩ := Option.bind_eq_some_iff.mp hc
    by_cases hp : p ∈ S.pointers
    · rw [if_pos hp] at hc
      cases hc
      exact hsame
    · rw [if_neg hp] at hc
      cases hc

theorem run_same_outcome {calls : List (Call O)} (h : Represents m stk) (hcalls : AllowedAll stk calls)
    (hcount : calls.length ≤ fuel) (hfuel : ∀ s S, stk s = some S → S.pointers.length + calls.length ≤ fuel) :
    SameOutcome (runCalls fuel m calls) (meaningAll stk calls) := by
  induction calls generalizing m stk with
  | nil => exact .ok h
  | cons c calls ih =>
    obtain ⟨hallowed, hlater⟩ := hcalls
    rw [List.length_cons] at hcount
    have hlen : ∀ s S, stk s = some S → S.pointers.length ≤ fuel := fun s S hs =>
      (Nat.le_add_right ..).trans (hfuel s S hs)
    have hstep := c.same_outcome h hallowed hlen
    rw [runCalls, meaningAll]
    generalize hmeaning : c.meaning stk = outcome at hstep hlater
    generalize c.run fuel m = r at hstep
    cases hstep with
    | abort => exact .abort
    | ok h' =>
      have hgrow := c.length_meaning (n := fuel - calls.length - 1) hmeaning fun s S hs => by
        have hS := hfuel s S hs
        rw [List.length_cons] at hS
        omega
      have hrest := ih h' hlater (by omega) fun s S hs => by
        have hS := hgrow s S hs
        omega
      simp only [Option.bind_eq_bind, Option.bind_some]
      generalize meaningAll _ calls = outcome at hrest
      generalize runCalls fuel _ calls = r at hrest
      cases hrest with
      | abort => exact .abort
      | ok h'' => exact .ok h''

/-- From any memory, the calls return the pointers that stacks of pointers return, and an assertion
fails where one is to fail. -/
theorem fstack_run (m : Memory) {calls : List (Call O)} (hcalls : AllowedAll FStacks.none calls)
    (hfuel : calls.length ≤ fuel) :
    (runCalls fuel m calls).map Prod.fst = (meaningAll FStacks.none calls).map Prod.fst := by
  have hsame := run_same_outcome (Represents.none m) hcalls hfuel fun s S hs => absurd hs.symm (Option.some_ne_none _)
  generalize meaningAll _ calls = outcome at hsame
  generalize runCalls fuel m calls = r at hsame
  cases hsame with
  | abort => rfl
  | ok h => rfl

/-- Two structures with an item 16 bytes into them and another after 32, and two stacks. -/
def twoStructs : Objects where
  items := {0x2010, 0x2020, 0x3010, 0x3020}
  fixedStacks := {0x1000, 0x1010}
  inside := by
    rintro (⟨e, rfl | rfl | rfl | rfl⟩ | ⟨s, rfl | rfl⟩) <;> decide
  apart := by
    rintro (⟨e, rfl | rfl | rfl | rfl⟩ | ⟨s, rfl | rfl⟩) (⟨e, rfl | rfl | rfl | rfl⟩ | ⟨s, rfl | rfl⟩) <;> decide

def firstStack : twoStructs.fixedStacks := ⟨0x1000, .inl rfl⟩

def secondStack : twoStructs.fixedStacks := ⟨0x1010, .inr rfl⟩

/-- Both structures are on the first stack, one of them on the second too. -/
def twoStackCalls : List (Call twoStructs) :=
  [.init firstStack 16, .init secondStack 32, .push firstStack 0x2000, .push firstStack 0x3000,
    .push secondStack 0x2000, .getNext firstStack 0x3000, .pop firstStack, .pop firstStack, .pop firstStack,
    .getTop secondStack]

theorem twoStackCalls_allowed : AllowedAll FStacks.none twoStackCalls := by
  -- what is on the two stacks, as lists of items
  have hfree : ∀ {stk : FStacks twoStructs} {S T : FStack} {e : UInt64}, stk firstStack = some S →
      stk secondStack = some T → e ∉ S.pointers.map S.item → e ∉ T.pointers.map T.item →
      ∀ s' S', stk s' = some S' → e ∉ S'.pointers.map S'.item := by
    rintro stk S T e hS hT heS heT ⟨s', rfl | rfl⟩ S' hs'
    · exact Option.some.inj (hS.symm.trans hs') ▸ heS
    · exact Option.some.inj (hT.symm.trans hs') ▸ heT
  have hinitialised : ∀ {stk : FStacks twoStructs} {s : twoStructs.fixedStacks} {S : FStack}, stk s = some S →
      stk s ≠ none := fun hs => hs ▸ Option.some_ne_none _
  refine ⟨trivial, trivial, ⟨_, rfl, .inl rfl, ?_⟩, ⟨_, rfl, .inr (.inr (.inl rfl)), ?_⟩,
    ⟨_, rfl, .inr (.inl rfl), ?_⟩, ?_, ?_, ?_, ?_, ?_, trivial⟩
  · exact hfree (S := ⟨16, []⟩) (T := ⟨32, []⟩) rfl rfl (by decide) (by decide)
  · exact hfree (S := ⟨16, [0x2000]⟩) (T := ⟨32, []⟩) rfl rfl (by decide) (by decide)
  · exact hfree (S := ⟨16, [0x3000, 0x2000]⟩) (T := ⟨32, []⟩) rfl rfl (by decide) (by decide)
  · exact hinitialised (S := ⟨16, [0x3000, 0x2000]⟩) rfl
  · exact hinitialised (S := ⟨16, [0x3000, 0x2000]⟩) rfl
  · exact hinitialised (S := ⟨16, [0x2000]⟩) rfl
  · exact hinitialised (S := ⟨16, []⟩) rfl
  · exact hinitialised (S := ⟨32, [0x2000]⟩) rfl

theorem fstack_run_example : (runCalls 10 ⟨fun _ => 0xdead⟩ twoStackCalls).map Prod.fst =
    some [none, none, none, none, none, some 0x2000, some 0x3000, some 0x2000, some NULL, some 0x2000] := by
  have hcount : twoStackCalls.length ≤ 10 := by decide
  have hrun := fstack_run ⟨fun _ => 0xdead⟩ twoStackCalls_allowed hcount
  rw [hrun]
  rfl

end PostgresV7.Fstack
