import PostgresV7.Page.Space

/-!
# Overwrite mode (`bufpage.c`)

In overwrite mode an item may get an offset number behind the last one. The line
pointers in between come into being with whatever the buffer held.
-/

namespace PostgresV7.Bufpage

open ByteMem Runs

variable {p q : Page} {item : Nat → UInt8} {size offsetNum flags n : Nat}

/-- A call of `page_add_item`. -/
structure AddCall where
  item : Nat → UInt8
  size : Nat
  offsetNum : Nat
  flags : Nat

/-- A page, and the line pointers the calls so far have set. -/
structure Filling where
  page : Page
  added : Nat → Option ItemIdData

/-- A successful call in overwrite mode, with a valid offset number. -/
def OverwriteStep (s : Filling) (call : AddCall) (s' : Filling) : Prop :=
  offsetNumberIsValid call.offsetNum = true ∧ ∃ r, r ≠ INVALID_OFFSET_NUMBER ∧
    pageAddItem false s.page call.item call.size call.offsetNum call.flags = .ok (r, s'.page) ∧
    s'.added = Function.update s.added (r - 1) (some (getLinp s'.page (r - 1)))

/-- The line pointers a call skips are unused and have length `0`. -/
def SkipsRecyclable (s : Filling) (call : AddCall) : Prop :=
  ∀ i, pdLower s.page ≤ linpOffset i → i + 1 < call.offsetNum → Recyclable s.page i

/-- Each line pointer is one that was set, or unused with length `0`. -/
def Accounted (s : Filling) : Prop :=
  ∀ i, linpOffset (i + 1) ≤ pdLower s.page →
    s.added i = some (getLinp s.page i) ∨ Recyclable s.page i

/-- What successful calls keep. -/
structure Filled (s : Filling) : Prop where
  lower : ∃ n ≤ MAX_OFFSET_NUMBER, pdLower s.page = 8 + 4 * n
  accounted : Accounted s

/-- A line pointer of a page with a new item, by its index. -/
theorem overwrite_linp {r : Nat} (hlower : pdLower p = 8 + 4 * n) (hn : n ≤ MAX_OFFSET_NUMBER)
    (hvalid : offsetNumberIsValid offsetNum = true)
    (h : pageAddItem false p item size offsetNum flags = .ok (r, q)) (hr : r ≠ INVALID_OFFSET_NUMBER) :
    r = offsetNum ∧ pdLower q = 8 + 4 * max n offsetNum ∧
      ∀ i, i ≠ offsetNum - 1 → 8 + 4 * (i + 1) ≤ pdLower q → getLinp q i = getLinp p i := by
  have hmax : MAX_OFFSET_NUMBER = 2048 := rfl
  have hle : offsetNum ≤ MAX_OFFSET_NUMBER := by
    simp only [offsetNumberIsValid, Bool.and_eq_true, decide_eq_true_eq] at hvalid
    exact hvalid.2
  have hpos := offsetNumber_pos hvalid
  have hchosen : chosenOffset p offsetNum n = offsetNum := if_pos hvalid
  have hlow : lowerAfter false p offsetNum n = 8 + 4 * max n offsetNum := by
    unfold lowerAfter shuffles SIZEOF_ITEM_ID_DATA
    rw [hchosen, linpOffset_eq, hlower]
    split
    · omega
    · simp only [Bool.false_and, Bool.false_eq_true, or_false]
      split <;> omega
  rcases pageAddItem_cases false item size offsetNum flags hlower (by omega) with hcase | hcase | hcase
  · obtain ⟨-, e, heq⟩ := hcase
    rw [heq] at h
    cases h
  · rw [hcase.2.2] at h
    exact absurd (Prod.mk.inj (Except.ok.inj h)).1.symm hr
  · obtain ⟨-, hfit, heq⟩ := hcase
    rw [heq, hchosen, hlow] at h
    have hsmall : 8 + 4 * max n offsetNum < 2 ^ 16 := by omega
    obtain ⟨rfl, rfl⟩ := Prod.mk.inj (Except.ok.inj h)
    have hroom : 8 + 4 * max n offsetNum ≤ upperAfter p size := by
      unfold Refuses at hfit
      rw [hlow] at hfit
      unfold upperAfter
      omega
    rw [pdLower_filled hsmall]
    refine ⟨rfl, rfl, fun i hi hb => ?_⟩
    exact getLinp_filled_ne hi (hb.trans hroom)

theorem filled_step {s s' : Filling} {call : AddCall} (h : Filled s) (hstep : OverwriteStep s call s')
    (hskip : SkipsRecyclable s call) : Filled s' := by
  obtain ⟨n, hn, hlower⟩ := h.lower
  obtain ⟨hvalid, r, hr, hadd, hadded⟩ := hstep
  obtain ⟨rfl, hlower', hother⟩ := overwrite_linp hlower hn hvalid hadd hr
  have hpos := offsetNumber_pos hvalid
  have hle : call.offsetNum ≤ MAX_OFFSET_NUMBER := by
    simp only [offsetNumberIsValid, Bool.and_eq_true, decide_eq_true_eq] at hvalid
    exact hvalid.2
  refine ⟨⟨max n call.offsetNum, max_le hn hle, hlower'⟩, fun i hi => ?_⟩
  rw [linpOffset_eq] at hi
  rw [hadded]
  by_cases hnew : i = call.offsetNum - 1
  · rw [hnew, Function.update_self]
    exact .inl rfl
  · have hsame := hother i hnew hi
    rw [Function.update_of_ne hnew]
    unfold Recyclable
    rw [hsame]
    by_cases hold : i < n
    · refine h.accounted i ?_
      rw [linpOffset_eq, hlower]
      omega
    · refine .inr (hskip i ?_ ?_)
      · rw [linpOffset_eq, hlower]
        omega
      · omega

/-- A step that skips no line pointer with old contents. -/
def CleanStep (s : Filling) (call : AddCall) (s' : Filling) : Prop :=
  OverwriteStep s call s' ∧ SkipsRecyclable s call

/-- A buffer with an old line pointer where the first one will be. -/
def staleBuffer : Page := setLinp (fun _ => 0) 0 ⟨4096, LP_USED, 100⟩

end PostgresV7.Bufpage
