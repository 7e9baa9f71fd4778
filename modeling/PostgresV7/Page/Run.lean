import PostgresV7.Lib.Runs
import PostgresV7.Page.Delete
import PostgresV7.Page.Repair

/-!
# A page as a list of byte strings

The three operations on a page, taken in any order, against the list operations
they stand for: insertion at an index, removal at an index, and nothing.
-/

namespace PostgresV7.Bufpage

open Runs

/-- One call of the page interface. -/
inductive PageOp where
  | addItem (item : List UInt8) (offsetNum : Nat)
  | indexTupleDelete (offsetNum : Nat)
  | repairFragmentation

namespace PageOp

/-- What the callers promise. -/
def Pre (p : Page) : PageOp → Prop
  | addItem item offsetNum => 0 < item.length ∧ item.length ≤ BLCKSZ ∧
      (offsetNumberIsValid offsetNum = true → (offsetNum : Int) ≤ pageGetMaxOffsetNumber p + 1)
  | indexTupleDelete offsetNum => 1 ≤ offsetNum ∧ (offsetNum : Int) ≤ pageGetMaxOffsetNumber p
  | repairFragmentation => True

instance (p : Page) : (op : PageOp) → Decidable (op.Pre p)
  | addItem _ _ => inferInstanceAs (Decidable (_ ∧ _ ∧ _))
  | indexTupleDelete _ => inferInstanceAs (Decidable (_ ∧ _))
  | repairFragmentation => inferInstanceAs (Decidable True)

/-- The page after a successful call in shuffle mode. -/
def run (p : Page) : PageOp → Option Page
  | addItem item offsetNum =>
    match pageAddItem true p (fun i => item.getD i 0) item.length offsetNum LP_USED with
    | .ok (offset, q) => if offset = INVALID_OFFSET_NUMBER then none else some q
    | .error _ => none
  | indexTupleDelete offsetNum => pageIndexTupleDelete p offsetNum
  | repairFragmentation => some (pageRepairFragmentation p)

/-- The same call on the list. -/
def apply (items : List (List UInt8)) : PageOp → List (List UInt8)
  | addItem item offsetNum => items.insertIdx (insertIndex items.length offsetNum) item
  | indexTupleDelete offsetNum => items.eraseIdx (offsetNum - 1)
  | repairFragmentation => items

end PageOp

/-- A successful call whose precondition holds. -/
def PageStep (p : Page) (op : PageOp) (q : Page) : Prop := op.Pre p ∧ op.run p = some q

theorem Represents.maxOffset {p : Page} {items : List (List UInt8)} (hr : Represents p items) :
    pageGetMaxOffsetNumber p = items.length := pageGetMaxOffsetNumber_eq hr.valid.lower

/-- Deletion within range never fails on a represented page. -/
theorem delete_of_represents {p : Page} {items : List (List UInt8)} {offsetNum : Nat}
    (hr : Represents p items) (h1 : 1 ≤ offsetNum) (h2 : offsetNum ≤ items.length) :
    ∃ q, pageIndexTupleDelete p offsetNum = some q ∧
      Represents q (items.eraseIdx (offsetNum - 1)) := by
  have hk : offsetNum - 1 < items.length := by omega
  obtain ⟨q, hq, hd⟩ := deletedAt_of_valid hr.valid hk (hr.used _ hk)
  rw [Nat.sub_add_cancel h1] at hq
  exact ⟨q, hq, represents_delete hd hr hk⟩

theorem add_of_represents {p q : Page} {items : List (List UInt8)} {item : List UInt8}
    {offsetNum : Nat} (hr : Represents p items)
    (hpre : (PageOp.addItem item offsetNum).Pre p)
    (hrun : (PageOp.addItem item offsetNum).run p = some q) :
    Represents q (items.insertIdx (insertIndex items.length offsetNum) item) := by
  obtain ⟨hpos, hmax, hoff⟩ := hpre
  rw [hr.maxOffset] at hoff
  have hoff' : offsetNumberIsValid offsetNum = true → offsetNum ≤ items.length + 1 := by
    intro h
    have := hoff h
    omega
  have hk : insertIndex items.length offsetNum ≤ items.length := by
    unfold insertIndex
    split
    · rename_i h
      have := hoff' h
      omega
    · exact Nat.le_refl _
  simp only [PageOp.run] at hrun
  cases ha : pageAddItem true p (fun i => item.getD i 0) item.length offsetNum LP_USED with
  | error e => rw [ha] at hrun; cases hrun
  | ok res =>
    obtain ⟨r, q'⟩ := res
    rw [ha] at hrun
    dsimp only at hrun
    by_cases hr0 : r = INVALID_OFFSET_NUMBER
    · rw [if_pos hr0] at hrun
      cases hrun
    · rw [if_neg hr0] at hrun
      obtain rfl := Option.some.inj hrun
      have hupper : pdUpper p ≤ BLCKSZ := hr.valid.upper_le.trans hr.valid.special_le
      exact represents_add (addedAt_of_pageAddItem ha hr0 hr.valid.lower hr.valid.room hupper
        hr.used hoff' hpos hmax) hr hk hpos

/-- One call on the page is the same call on the list. -/
theorem represents_step {p q : Page} {items : List (List UInt8)} {op : PageOp}
    (hr : Represents p items) (hs : PageStep p op q) : Represents q (op.apply items) := by
  obtain ⟨hpre, hrun⟩ := hs
  cases op with
  | addItem item offsetNum => exact add_of_represents hr hpre hrun
  | indexTupleDelete offsetNum =>
    obtain ⟨h1, h2⟩ := hpre
    rw [hr.maxOffset] at h2
    obtain ⟨q', hq, hr'⟩ := delete_of_represents hr h1 (by omega)
    rw [PageOp.run, hq] at hrun
    rw [← Option.some.inj hrun]
    exact hr'
  | repairFragmentation =>
    rw [← Option.some.inj hrun]
    exact represents_repair hr

/-- Any run from a fresh page keeps the page well laid out, and the page holds
the list the run computes: every item with its exact bytes and length. -/
theorem page_run_refines_list {raw p₀ p : Page} {specialSize : Nat} {ops : List PageOp}
    (hinit : pageInit raw BLCKSZ specialSize = some p₀) (hroom : pdLower p₀ ≤ pdUpper p₀)
    (hrun : Run PageStep p₀ ops p) :
    (pdLower p ≤ pdUpper p ∧ pdUpper p ≤ pdSpecial p) ∧
    (∀ i : Nat, i < pageGetMaxOffsetNumber p → (getLinp p i).used = true →
      pdUpper p ≤ (getLinp p i).lpOff ∧ (getLinp p i).extentEnd ≤ pdSpecial p) ∧
    (∀ i j : Nat, i < pageGetMaxOffsetNumber p → j < pageGetMaxOffsetNumber p → i ≠ j →
      Apart (getLinp p i) (getLinp p j)) ∧
    Represents p (ops.foldl PageOp.apply []) := by
  have hr : Represents p (ops.foldl PageOp.apply []) :=
    hrun.foldl (fun _ _ _ _ => represents_step) (represents_pageInit hinit hroom)
  rw [hr.maxOffset]
  refine ⟨⟨hr.valid.room, hr.valid.upper_le⟩, fun i hi => ?_, fun i j hi hj => ?_, hr⟩
  · exact hr.valid.inside i (by omega)
  · exact hr.valid.apart i j (by omega) (by omega)

/-- Two insertions, the second one in front, then a removal and a repair. -/
theorem page_run_refines_list_example :
    ∃ p₀ p, pageInit (fun _ => 0) BLCKSZ 16 = some p₀ ∧
      Run PageStep p₀ [.addItem [1, 2, 3] 0, .addItem [9] 1, .indexTupleDelete 2,
        .repairFragmentation] p ∧ Represents p [[9]] := by
  obtain ⟨p₀, p, hinit, hroom, hrun⟩ : ∃ p₀ p, pageInit (fun _ => 0) BLCKSZ 16 = some p₀ ∧
      pdLower p₀ ≤ pdUpper p₀ ∧ Run PageStep p₀ [.addItem [1, 2, 3] 0, .addItem [9] 1,
        .indexTupleDelete 2, .repairFragmentation] p :=
    ⟨_, _, rfl, by decide, .cons ⟨by decide, rfl⟩ (.cons ⟨by decide, rfl⟩
      (.cons ⟨by decide, rfl⟩ (.cons ⟨trivial, rfl⟩ (.nil _))))⟩
  exact ⟨p₀, p, hinit, hrun, (page_run_refines_list hinit hroom hrun).2.2.2⟩

end PostgresV7.Bufpage
