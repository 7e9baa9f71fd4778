import Mathlib.Data.List.DropRight
import Mathlib.Data.List.TakeWhile
import Mathlib.Tactic.Common

/-!
# Pieces between separators

The non-empty pieces that a list falls into at its separators, in order.
-/

namespace Pieces

variable {α : Type*} {p : α → Bool} {s t cur cur' : List α} {c : α}

def pieces (p : α → Bool) (s : List α) : List (List α) := (s.splitOnP p).filter fun piece => !piece.isEmpty

/-- A piece by itself, if there is anything in it. -/
def closed (cur : List α) : List (List α) := if cur.isEmpty then [] else [cur]

theorem pieces_append_cons (s t : List α) (h : p c = true) : pieces p (s ++ c :: t) = pieces p s ++ pieces p t := by
  unfold pieces
  rw [List.splitOnP_append_cons s t h, List.filter_append]

theorem pieces_of_none (h : ∀ c ∈ cur, p c = false) : pieces p cur = closed cur := by
  unfold pieces closed
  rw [List.splitOnP_eq_singleton h]
  cases cur <;> rfl

theorem pieces_nil (p : α → Bool) : pieces p [] = [] := pieces_of_none fun _ h => absurd h List.not_mem_nil

theorem pieces_cons (t : List α) (h : p c = true) : pieces p (c :: t) = pieces p t := by
  have happend := pieces_append_cons [] t h
  rwa [pieces_nil, List.nil_append, List.nil_append] at happend

/-- The first separator ends the first piece. -/
theorem pieces_cut (t : List α) (hcur : ∀ c ∈ cur, p c = false) (h : p c = true) :
    pieces p (cur ++ c :: t) = closed cur ++ pieces p t := by
  rw [pieces_append_cons cur t h, pieces_of_none hcur]

/-- The first piece of a list, and the rest behind the separator. -/
theorem cases_cut (p : α → Bool) (s : List α) :
    (∀ c ∈ s, p c = false) ∨ ∃ cur c t, s = cur ++ c :: t ∧ (∀ c ∈ cur, p c = false) ∧ p c = true := by
  induction s with
  | nil => exact .inl fun _ h => absurd h List.not_mem_nil
  | cons x s ih =>
    cases hx : p x with
    | true => exact .inr ⟨[], x, s, rfl, fun _ h => absurd h List.not_mem_nil, hx⟩
    | false =>
      rcases ih with hs | ⟨cur, c, t, rfl, hcur, hc⟩
      · exact .inl (List.forall_mem_cons.mpr ⟨hx, hs⟩)
      · exact .inr ⟨x :: cur, c, t, rfl, List.forall_mem_cons.mpr ⟨hx, hcur⟩, hc⟩

/-- The last piece of a list, and what is before the separator. -/
theorem cases_cut_last (p : α → Bool) (s : List α) :
    (∀ c ∈ s, p c = false) ∨ ∃ t c cur, s = t ++ c :: cur ∧ (∀ c ∈ cur, p c = false) ∧ p c = true := by
  rcases cases_cut p s.reverse with hs | ⟨cur, c, t, heq, hcur, hc⟩
  · exact .inl fun c hc => hs c (List.mem_reverse.mpr hc)
  · refine .inr ⟨t.reverse, c, cur.reverse, ?_, fun c hc => hcur c (List.mem_reverse.mp hc), hc⟩
    rw [← List.reverse_reverse s, heq, List.reverse_append, List.reverse_cons, List.append_assoc, List.singleton_append]

/-- Where the first separator is. -/
theorem findIdx?_cut (t : List α) (hcur : ∀ c ∈ cur, p c = false) (h : p c = true) :
    (cur ++ c :: t).findIdx? p = some cur.length := by
  rw [List.findIdx?_append, List.findIdx?_eq_none_iff.mpr hcur, List.findIdx?_cons, if_pos h]
  simp

/-- From the end, what the predicate fails on stops. -/
theorem rtakeWhile_append_cons (s t : List α) (h : p c = false) :
    (s ++ c :: t).rtakeWhile p = t.rtakeWhile p := by
  unfold List.rtakeWhile
  rw [List.reverse_append, List.reverse_cons, List.append_assoc, List.takeWhile_append]
  split
  · rename_i hlen
    rw [List.singleton_append, List.takeWhile_cons_of_neg (by simp [h]), List.append_nil]
    rw [List.takeWhile_prefix _ |>.eq_of_length hlen]
  · rfl

/-- With a separator before the list, every piece stands behind one, and before another or at the end. -/
theorem exists_of_mem_splitOnP {piece : List α} (h : piece ∈ s.splitOnP p) (hc : p c = true) :
    ∃ a d b, c :: s = a ++ d :: (piece ++ b) ∧ p d = true ∧ (b = [] ∨ ∃ e b', b = e :: b' ∧ p e = true) := by
  induction hn : s.length using Nat.strong_induction_on generalizing s c with
  | _ n ih =>
    rcases cases_cut p s with hs | ⟨cur, d, t, rfl, hcur, hd⟩
    · rw [List.splitOnP_eq_singleton hs, List.mem_singleton] at h
      exact ⟨[], c, [], by rw [h, List.append_nil]; rfl, hc, .inl rfl⟩
    · rw [List.splitOnP_append_cons cur t hd, List.splitOnP_eq_singleton hcur, List.singleton_append, List.mem_cons] at h
      rcases h with rfl | h
      · exact ⟨[], c, d :: t, rfl, hc, .inr ⟨d, t, rfl, hd⟩⟩
      · have hlt : t.length < n := by
          rw [← hn, List.length_append, List.length_cons]
          omega
        obtain ⟨a, e, b, heq, he, hb⟩ := ih _ hlt h hd rfl
        exact ⟨c :: cur ++ a, e, b, by rw [List.append_assoc, ← heq]; rfl, he, hb⟩

/-- The last piece. -/
theorem rtakeWhile_mem_splitOnP (p : α → Bool) (s : List α) : s.rtakeWhile (fun c => !p c) ∈ s.splitOnP p := by
  induction hn : s.length using Nat.strong_induction_on generalizing s with
  | _ n ih =>
    rcases cases_cut p s with hs | ⟨cur, d, t, rfl, hcur, hd⟩
    · rw [List.splitOnP_eq_singleton hs, List.mem_singleton]
      exact List.rtakeWhile_eq_self_iff.mpr fun c hc => by rw [hs c hc]; rfl
    · have hlt : t.length < n := by
        rw [← hn, List.length_append, List.length_cons]
        omega
      rw [rtakeWhile_append_cons cur t (by rw [hd]; rfl), List.splitOnP_append_cons cur t hd]
      exact List.mem_append_right _ (ih _ hlt t rfl)

/-- What stands in the first piece does not matter for their number. -/
theorem length_pieces_append (hcur : ∀ c ∈ cur, p c = false) (hcur' : ∀ c ∈ cur', p c = false) (hne : cur ≠ [])
    (hne' : cur' ≠ []) (s : List α) : (pieces p (cur ++ s)).length = (pieces p (cur' ++ s)).length := by
  have hclosed : ∀ {cur : List α} (s : List α), cur ≠ [] → (closed (cur ++ s)).length = 1 := by
    intro cur s hne
    cases cur with
    | nil => exact absurd rfl hne
    | cons x cur => rfl
  have happend : ∀ {cur s : List α}, (∀ c ∈ cur, p c = false) → (∀ c ∈ s, p c = false) → ∀ c ∈ cur ++ s, p c = false :=
    fun hcur hs => List.forall_mem_append.mpr ⟨hcur, hs⟩
  rcases cases_cut p s with hs | ⟨first, c, t, rfl, hfirst, hc⟩
  · rw [pieces_of_none (happend hcur hs), pieces_of_none (happend hcur' hs), hclosed s hne, hclosed s hne']
  · rw [← List.append_assoc, ← List.append_assoc, pieces_cut t (happend hcur hfirst) hc,
      pieces_cut t (happend hcur' hfirst) hc, List.length_append, List.length_append, hclosed first hne,
      hclosed first hne']

/-- What is no separator is in a piece. -/
theorem exists_mem_pieces (hc : c ∈ s) (hp : p c = false) : ∃ piece ∈ pieces p s, c ∈ piece := by
  induction hn : s.length using Nat.strong_induction_on generalizing s with
  | _ n ih =>
    rcases cases_cut p s with hs | ⟨cur, d, t, rfl, hcur, hd⟩
    · rw [pieces_of_none hs]
      cases s with
      | nil => cases hc
      | cons x s => exact ⟨x :: s, List.mem_singleton.mpr rfl, hc⟩
    · rw [pieces_cut t hcur hd]
      rcases List.mem_append.mp hc with hmem | hmem
      · refine ⟨cur, List.mem_append_left _ ?_, hmem⟩
        cases cur with
        | nil => cases hmem
        | cons x cur => exact List.mem_singleton.mpr rfl
      · rcases List.mem_cons.mp hmem with rfl | hmem
        · rw [hp] at hd
          cases hd
        · have hlt : t.length < n := by
            rw [← hn, List.length_append, List.length_cons]
            omega
          obtain ⟨piece, hpiece, hc⟩ := ih _ hlt hmem rfl
          exact ⟨piece, List.mem_append_right _ hpiece, hc⟩

theorem mem_of_mem_pieces {piece : List α} (h : piece ∈ pieces p s) (hc : c ∈ piece) : c ∈ s := by
  induction hn : s.length using Nat.strong_induction_on generalizing s with
  | _ n ih =>
    have hself : ∀ {cur : List α}, piece ∈ closed cur → c ∈ cur := by
      intro cur hcur
      cases cur with
      | nil => cases hcur
      | cons x cur =>
        rw [List.mem_singleton.mp hcur] at hc
        exact hc
    rcases cases_cut p s with hs | ⟨cur, d, t, rfl, hcur, hd⟩
    · rw [pieces_of_none hs] at h
      exact hself h
    · rw [pieces_cut t hcur hd] at h
      rcases List.mem_append.mp h with h | h
      · exact List.mem_append_left _ (hself h)
      · have hlt : t.length < n := by
          rw [← hn, List.length_append, List.length_cons]
          omega
        exact List.mem_append_right _ (List.mem_cons_of_mem d (ih _ hlt h rfl))

end Pieces
