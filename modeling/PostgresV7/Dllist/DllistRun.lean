import PostgresV7.Dllist.Sequences
import PostgresV7.Lib.Runs

/-!
# Runs of list calls (`dllist.c`)

A run calls the functions in any order, over any lists and elements. What is added has to be in
no list, "Dlelem can only be in one list at a time"; all the rest is left to the assertions.
-/

namespace PostgresV7.Dllist

open Links Outcomes Runs

inductive Op where
  | addHead (l e : Nat)
  | addTail (l e : Nat)
  | remove (e : Nat)
  | remHead (l : Nat)
  | remTail (l : Nat)
  | moveToFront (e : Nat)
  deriving DecidableEq, Repr

/-- What is returned, if anything, and the memory after the call. -/
def Op.run (m : Memory) : Op → Except Fault (Option Nat × Memory)
  | .addHead l e => (dlAddHead m l e).map fun m => (none, m)
  | .addTail l e => (dlAddTail m l e).map fun m => (none, m)
  | .remove e => (dlRemove m e).map fun m => (none, m)
  | .remHead l => (dlRemHead m l).map fun r => (some r.1, r.2)
  | .remTail l => (dlRemTail m l).map fun r => (some r.1, r.2)
  | .moveToFront e => (dlMoveToFront m e).map fun m => (none, m)

def Op.added : Op → Option Nat
  | .addHead _ e => some e
  | .addTail _ e => some e
  | _ => none

/-- A call that returns: no assertion fails, and `NULL` is not followed. -/
def Returns (m : Memory) (call : Op × Option Nat) (m' : Memory) : Prop := call.1.run m = .ok (call.2, m')

/-- A call that returns, and adds nothing that has a list. -/
def Step (m : Memory) (call : Op × Option Nat) (m' : Memory) : Prop :=
  Returns m call m' ∧ ∀ e ∈ call.1.added, m.dleList e = NULL

/-- All lists and elements as they are initialised. -/
def initial : Memory := ⟨fun _ => NULL, fun _ => NULL, fun _ => NULL, fun _ => NULL, fun _ => NULL⟩

theorem initial_dlInitList {l : Nat} (hl : l ≠ NULL) : dlInitList initial l = .ok initial := by
  unfold dlInitList
  rw [deref, if_neg hl, ok_bind]
  simp [initial, Memory.setHead, Memory.setTail]

theorem initial_dlInitElem {e : Nat} (he : e ≠ NULL) : dlInitElem initial e = .ok initial := by
  unfold dlInitElem
  rw [deref, if_neg he, ok_bind]
  simp [initial, Memory.setNext, Memory.setPrev, Memory.setList]

/-! ## What the calls mean -/

/-- The elements of every list, from head to tail. -/
abbrev Lists := Nat → List Nat

namespace Lists

def none : Lists := fun _ => []

def Free (lists : Lists) (e : Nat) : Prop := ∀ l, e ∉ lists l

def after (lists : Lists) : Op → Lists
  | .addHead l e => Function.update lists l (e :: lists l)
  | .addTail l e => Function.update lists l (lists l ++ [e])
  | .remove e => fun l => (lists l).erase e
  | .remHead l => Function.update lists l (lists l).tail
  | .remTail l => Function.update lists l (lists l).dropLast
  | .moveToFront e => fun l => if e ∈ lists l then e :: (lists l).erase e else lists l

def answer (lists : Lists) : Op → Option Nat
  | .remHead l => some ((lists l).headD NULL)
  | .remTail l => some ((lists l).getLastD NULL)
  | _ => .none

def Accepts (lists : Lists) : Op → Prop
  | .addHead l e => l ≠ NULL ∧ e ≠ NULL ∧ lists.Free e
  | .addTail l e => l ≠ NULL ∧ e ≠ NULL ∧ lists.Free e
  | .remove e => ∃ l, e ∈ lists l
  | .remHead l => l ≠ NULL
  | .remTail l => l ≠ NULL
  | .moveToFront e => ∃ l, e ∈ lists l

def Step (lists : Lists) (call : Op × Option Nat) (lists' : Lists) : Prop :=
  lists.Accepts call.1 ∧ call.2 = lists.answer call.1 ∧ lists' = lists.after call.1

end Lists

variable {m m' : Memory} {lists : Lists} {l e : Nat} {op : Op} {result : Option Nat}

namespace Represents

theorem initial : Represents Dllist.initial Lists.none :=
  ⟨fun _ => linked_nil.mpr ⟨rfl, rfl⟩, fun _ => List.nodup_nil, fun _ _ he => absurd he List.not_mem_nil,
    fun _ _ => ⟨rfl, rfl, rfl⟩⟩

theorem free_iff (h : Represents m lists) : m.dleList e = NULL ↔ lists.Free e := by
  refine ⟨fun hnull l he => ?_, fun hfree => (h.free e hfree).2.2⟩
  obtain ⟨hlist, -, hl⟩ := h.member l e he
  exact hl (hlist.symm.trans hnull)

/-- There is one list to take an element from. -/
theorem only (h : Represents m lists) (he : e ∈ lists l) (f : List Nat → List Nat) (hf : ∀ L, e ∉ L → f L = L) :
    Function.update lists l (f (lists l)) = fun l => f (lists l) := by
  funext l'
  by_cases hne : l' = l
  · rw [hne, Function.update_self]
  · rw [Function.update_of_ne hne, hf]
    exact fun he' => hne ((h.member l' e he').1.symm.trans (h.member l e he).1)

/-! ## One call -/

/-- A call does to the lists what it means. -/
theorem call (h : Represents m lists) (haccepts : lists.Accepts op) :
    ∃ m', op.run m = .ok (lists.answer op, m') ∧ Represents m' (lists.after op) := by
  cases op with
  | addHead l e =>
    obtain ⟨hl, he, hfree⟩ := haccepts
    obtain ⟨m', hrun, h'⟩ := h.addHead hfree hl he
    refine ⟨m', ?_, h'⟩
    rw [Op.run, hrun]
    rfl
  | addTail l e =>
    obtain ⟨hl, he, hfree⟩ := haccepts
    obtain ⟨m', hrun, h'⟩ := h.addTail hfree hl he
    refine ⟨m', ?_, h'⟩
    rw [Op.run, hrun]
    rfl
  | remove e =>
    obtain ⟨l, he⟩ := haccepts
    obtain ⟨m', hrun, h'⟩ := h.remove he
    rw [h.only he (fun L => L.erase e) fun L => List.erase_of_not_mem] at h'
    refine ⟨m', ?_, h'⟩
    rw [Op.run, hrun]
    rfl
  | remHead l =>
    obtain ⟨m', hrun, h'⟩ := h.remHead haccepts
    refine ⟨m', ?_, h'⟩
    rw [Op.run, hrun]
    rfl
  | remTail l =>
    obtain ⟨m', hrun, h'⟩ := h.remTail haccepts
    refine ⟨m', ?_, h'⟩
    rw [Op.run, hrun]
    rfl
  | moveToFront e =>
    obtain ⟨l, he⟩ := haccepts
    obtain ⟨-, m', -, -, hrun, h'⟩ := h.moveToFront he
    have hmoved := h.only he (fun L => if e ∈ L then e :: L.erase e else L) fun L hL => if_neg hL
    rw [if_pos he] at hmoved
    rw [hmoved] at h'
    refine ⟨m', ?_, h'⟩
    rw [Op.run, hrun]
    rfl

/-- What is in no list is not taken out of one. -/
theorem dlRemove_free (h : Represents m lists) (hfree : lists.Free e) : dlRemove m e = .error .null := by
  obtain ⟨-, hprev, hlist⟩ := h.free e hfree
  unfold dlRemove unlinkPrev deref
  by_cases he : e = NULL
  · rw [if_pos he]
    rfl
  · rw [if_neg he, hprev, hlist]
    rfl

theorem dlMoveToFront_free (h : Represents m lists) (hfree : lists.Free e) : dlMoveToFront m e = .error .null := by
  obtain ⟨-, -, hlist⟩ := h.free e hfree
  unfold dlMoveToFront deref
  by_cases he : e = NULL
  · rw [if_pos he]
    rfl
  · rw [if_neg he, hlist]
    rfl

theorem dlAddHead_null (m : Memory) (l : Nat) : dlAddHead m l NULL = .error .null := by
  unfold dlAddHead deref
  by_cases hl : l = NULL
  · rw [if_pos hl]
    rfl
  · rw [if_neg hl]
    rfl

/-- A call that returns has been given what it needs. -/
theorem accepts (h : Represents m lists) (hs : Step m (op, result) m') : lists.Accepts op := by
  obtain ⟨hrun, hadded⟩ := hs
  have hreturns : op.run m = .ok (result, m') := hrun
  cases op with
  | addHead l e =>
    refine ⟨?_, ?_, h.free_iff.mp (hadded e rfl)⟩ <;> rintro rfl
    · cases hreturns
    · rw [Op.run, dlAddHead_null] at hreturns
      cases hreturns
  | addTail l e =>
    refine ⟨?_, ?_, h.free_iff.mp (hadded e rfl)⟩ <;> rintro rfl
    · cases hreturns
    · rw [Op.run, dlAddTail_flip, dlAddHead_null] at hreturns
      cases hreturns
  | remove e =>
    by_contra hnone
    rw [Op.run, h.dlRemove_free (not_exists.mp hnone)] at hreturns
    cases hreturns
  | remHead l =>
    rintro rfl
    cases hreturns
  | remTail l =>
    rintro rfl
    cases hreturns
  | moveToFront e =>
    by_contra hnone
    rw [Op.run, h.dlMoveToFront_free (not_exists.mp hnone)] at hreturns
    cases hreturns

theorem accepts_iff (h : Represents m lists) : lists.Accepts op ↔ ∃ result m', Step m (op, result) m' := by
  refine ⟨fun haccepts => ?_, fun ⟨result, m', hs⟩ => h.accepts hs⟩
  obtain ⟨m', hrun, -⟩ := h.call haccepts
  refine ⟨lists.answer op, m', hrun, fun e he => h.free_iff.mpr ?_⟩
  cases op with
  | addHead l d => exact Option.some.inj he ▸ haccepts.2.2
  | addTail l d => exact Option.some.inj he ▸ haccepts.2.2
  | _ => cases he

theorem step {call : Op × Option Nat} (h : Represents m lists) (hs : Step m call m') :
    ∃ lists', lists.Step call lists' ∧ Represents m' lists' := by
  have haccepts := h.accepts hs
  obtain ⟨m₁, hrun, h₁⟩ := h.call haccepts
  have heq : (call.2, m') = (lists.answer call.1, m₁) := Except.ok.inj (hs.1.symm.trans hrun)
  obtain ⟨hresult, rfl⟩ := Prod.mk.inj heq
  exact ⟨_, ⟨haccepts, hresult, rfl⟩, h₁⟩

/-- "Same as DLRemove followed by DLAddHead", also where neither can be done. -/
theorem dlMoveToFront_eq (h : Represents m lists) (e : Nat) :
    dlMoveToFront m e = dlRemove m e >>= fun m₁ => dlAddHead m₁ (m.dleList e) e := by
  by_cases hmember : ∃ l, e ∈ lists l
  · obtain ⟨l, he⟩ := hmember
    obtain ⟨m₁, m', hremove, hadd, hmove, -⟩ := h.moveToFront he
    rw [hmove, hremove, ok_bind, (h.member l e he).1, hadd]
  · rw [h.dlRemove_free (not_exists.mp hmember), h.dlMoveToFront_free (not_exists.mp hmember)]
    rfl

end Represents

/-! ## Whole runs -/

/-- After every run the memory holds the lists that the calls make, and every call has returned
what it takes from them. -/
theorem dllist_run {calls : List (Op × Option Nat)} (h : Run Step initial calls m) :
    ∃ lists, Run Lists.Step Lists.none calls lists ∧ Represents m lists ∧
      (∀ op, lists.Accepts op ↔ ∃ result m', Step m (op, result) m') ∧
      ∀ e, dlMoveToFront m e = dlRemove m e >>= fun m₁ => dlAddHead m₁ (m.dleList e) e := by
  obtain ⟨lists, hrun, hlists⟩ := h.simulation Represents Lists.Step (fun _ _ _ _ => Represents.step) Represents.initial
  exact ⟨lists, hrun, hlists, fun op => hlists.accepts_iff, hlists.dlMoveToFront_eq⟩

/-- Elements are added at both ends, the last one is moved to the front and removed from there. -/
theorem dllist_run_example : ∃ m lists, Run Lists.Step Lists.none
    [(.addHead 1 2, none), (.addTail 1 3, none), (.addTail 1 4, none), (.moveToFront 4, none), (.remHead 1, some 4)]
      lists ∧ Represents m lists ∧ (∀ op, lists.Accepts op ↔ ∃ result m', Step m (op, result) m') ∧
      ∀ e, dlMoveToFront m e = dlRemove m e >>= fun m₁ => dlAddHead m₁ (m.dleList e) e := by
  have hadded : ∀ {m : Memory} {d : Nat}, m.dleList d = NULL → ∀ e ∈ some d, m.dleList e = NULL :=
    fun hd e he => Option.some.inj he ▸ hd
  have hrun : ∃ m, Run Step initial
      [(.addHead 1 2, none), (.addTail 1 3, none), (.addTail 1 4, none), (.moveToFront 4, none),
        (.remHead 1, some 4)] m :=
    ⟨_, .cons ⟨rfl, hadded rfl⟩ (.cons ⟨rfl, hadded rfl⟩ (.cons ⟨rfl, hadded rfl⟩ (.cons ⟨rfl, nofun⟩
      (.cons ⟨rfl, nofun⟩ (.nil _)))))⟩
  obtain ⟨m, hrun⟩ := hrun
  exact ⟨m, dllist_run hrun⟩

/-! ## What is added where it is already -/

theorem Represents.next_ne (h : Represents m lists) (he : e ≠ NULL) : m.dleNext e ≠ e := by
  intro heq
  by_cases hmember : ∃ l, e ∈ lists l
  · obtain ⟨l, hmem⟩ := hmember
    obtain ⟨l₁, l₂, hl⟩ := List.append_of_mem hmem
    have hbetween := h.between hl
    have hon : m.dleNext e = _ := hbetween.right.1
    rcases hbetween.behind with hback | ⟨s, hs, -, hne⟩
    · rw [hon, hback] at heq
      exact he heq.symm
    · rw [hon, hs] at heq
      exact hne heq
  · rw [(h.free e (not_exists.mp hmember)).1] at heq
    exact he heq.symm

/-- No assertion of `DLAddHead` looks at `dle_list`: an element that is the head already is added,
and is next to itself. -/
theorem dlAddHead_again : ¬ ∀ calls m, Run Returns initial calls m → ∃ lists, Represents m lists := by
  intro h
  obtain ⟨lists, hlists⟩ := h [(.addHead 1 2, none), (.addHead 1 2, none)] _ (.cons rfl (.cons rfl (.nil _)))
  exact hlists.next_ne (e := 2) (by decide) rfl

end PostgresV7.Dllist
