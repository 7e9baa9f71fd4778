import Mathlib.Data.List.Basic

/-!
# Lists of blocks of one size

Blocks of one size are written one after another, and a list is cut into windows of
one width. The rules say where a block is found and what a change of it changes.
-/

namespace Blocks

variable {α β : Type*} {f : α → List β} {size : Nat}

/-! ## Blocks in a row -/

theorem length_flatMap (hf : ∀ a, (f a).length = size) (l : List α) :
    (l.flatMap f).length = size * l.length := by
  induction l with
  | nil => rfl
  | cons a l ih =>
    rw [List.flatMap_cons, List.length_append, ih, hf, List.length_cons, Nat.mul_succ, Nat.add_comm]

theorem drop_flatMap (hf : ∀ a, (f a).length = size) (l : List α) (n : Nat) :
    (l.flatMap f).drop (size * n) = (l.drop n).flatMap f := by
  induction n generalizing l with
  | zero => rfl
  | succ n ih =>
    cases l with
    | nil => exact List.drop_nil
    | cons a l =>
      rw [List.flatMap_cons, List.drop_succ_cons, ← ih, Nat.mul_succ, Nat.add_comm, ← List.drop_drop]
      rw [List.drop_append_of_le_length (Nat.le_of_eq (hf a).symm), List.drop_of_length_le
        (Nat.le_of_eq (hf a)), List.nil_append]

theorem take_flatMap (hf : ∀ a, (f a).length = size) (l : List α) (n : Nat) :
    (l.flatMap f).take (size * n) = (l.take n).flatMap f := by
  have hsplit : (l.take n).flatMap f ++ (l.drop n).flatMap f = l.flatMap f := by
    rw [← List.flatMap_append, List.take_append_drop]
  rw [← drop_flatMap hf] at hsplit
  have htake := List.take_append_drop (size * n) (l.flatMap f)
  exact List.append_cancel_right (htake.trans hsplit.symm)

/-- The bytes of one block. -/
theorem slice_flatMap (hf : ∀ a, (f a).length = size) {l : List α} {n : Nat} {a : α}
    (ha : l[n]? = some a) : ((l.flatMap f).drop (size * n)).take size = f a := by
  obtain ⟨hlt, rfl⟩ := List.getElem?_eq_some_iff.mp ha
  rw [drop_flatMap hf, List.drop_eq_getElem_cons hlt, List.flatMap_cons, List.take_append_of_le_length
    (Nat.le_of_eq (hf _).symm), List.take_of_length_le (Nat.le_of_eq (hf _))]

/-- A block is replaced by writing over its bytes. -/
theorem set_flatMap (hf : ∀ a, (f a).length = size) {l : List α} {n : Nat} (hn : n < l.length) (a : α) :
    (l.set n a).flatMap f =
      (l.flatMap f).take (size * n) ++ f a ++ (l.flatMap f).drop (size * n + size) := by
  rw [List.set_eq_take_append_cons_drop, if_pos hn, List.flatMap_append, List.flatMap_cons,
    take_flatMap hf, List.append_assoc, ← Nat.mul_succ, drop_flatMap hf]

/-! ## Windows -/

/-- The `i`th window of a list. -/
def window (width : Nat) (l : List α) (i : Nat) : List α := (l.drop (i * width)).take width

variable {width : Nat}

theorem length_window (l : List α) (i : Nat) :
    (window width l i).length = min width (l.length - i * width) := by
  unfold window
  rw [List.length_take, List.length_drop]

theorem getElem?_window {l : List α} {i n : Nat} (hn : n < width) :
    (window width l i)[n]? = l[i * width + n]? := by
  unfold window
  rw [List.getElem?_take_of_lt hn, List.getElem?_drop]

/-- What is appended goes to the last window. -/
theorem window_append {l : List α} {i : Nat} (hi : i * width ≤ l.length)
    (hlt : l.length < (i + 1) * width) (a : α) :
    window width (l ++ [a]) i = window width l i ++ [a] := by
  rw [Nat.succ_mul] at hlt
  unfold window
  have hshort : (l.drop (i * width)).length < width := by
    rw [List.length_drop]
    omega
  rw [List.drop_append_of_le_length hi, List.take_of_length_le (Nat.le_of_lt hshort),
    List.take_of_length_le]
  rw [List.length_append]
  exact hshort

/-- There is nothing behind the end. -/
theorem window_of_le {l : List α} {i : Nat} (hi : l.length ≤ i * width) : window width l i = [] := by
  unfold window
  rw [List.drop_of_length_le hi, List.take_nil]

/-- A full window stays as it is. -/
theorem window_append_of_le {l : List α} {i : Nat} (hi : (i + 1) * width ≤ l.length) (l' : List α) :
    window width (l ++ l') i = window width l i := by
  rw [Nat.succ_mul] at hi
  unfold window
  rw [List.drop_append_of_le_length (by omega), List.take_append_of_le_length]
  rw [List.length_drop]
  omega

theorem window_set {l : List α} {i n : Nat} (a : α) :
    window width (l.set (i * width + n) a) i = (window width l i).set n a := by
  unfold window
  rw [List.drop_set, if_neg (by omega), List.take_set, Nat.add_sub_cancel_left]

theorem window_set_of_ne {l : List α} {i j n : Nat} (hn : n < width) (hij : i ≠ j) (a : α) :
    window width (l.set (j * width + n) a) i = window width l i := by
  unfold window
  rw [List.drop_set]
  split
  · rfl
  · rename_i hle
    have hij' : i < j := by
      by_contra hge
      have hlt : j + 1 ≤ i := by omega
      have hmul := Nat.mul_le_mul_right width hlt
      rw [Nat.succ_mul] at hmul
      omega
    have hmul := Nat.mul_le_mul_right width (show i + 1 ≤ j from hij')
    rw [Nat.succ_mul] at hmul
    rw [List.take_set, List.set_eq_of_length_le]
    rw [List.length_take]
    omega

/-- A cut behind a window leaves it alone. -/
theorem window_take_of_le {l : List α} {i n : Nat} (hn : (i + 1) * width ≤ n) :
    window width (l.take n) i = window width l i := by
  rw [Nat.succ_mul] at hn
  unfold window
  rw [List.drop_take, List.take_take, Nat.min_eq_left (by omega)]

/-- A cut in a window. -/
theorem window_take {l : List α} {i n : Nat} :
    window width (l.take n) i = (window width l i).take (n - i * width) := by
  unfold window
  rw [List.drop_take, List.take_take, List.take_take, Nat.min_comm]

/-! ## Whole blocks -/

/-- What is left of a list without a last block that is not whole. -/
def whole (size : Nat) (l : List α) : List α := l.take (l.length / size * size)

theorem length_whole (l : List α) : (whole size l).length = l.length / size * size := by
  unfold whole
  rw [List.length_take, Nat.min_eq_left (Nat.div_mul_le_self _ _)]

/-- Lists with the same whole blocks have the same number of them. -/
theorem div_eq_of_whole {l l' : List α} (hsize : 0 < size) (h : whole size l = whole size l') :
    l.length / size = l'.length / size := by
  have hlength := congrArg List.length h
  rw [length_whole, length_whole] at hlength
  exact Nat.eq_of_mul_eq_mul_right hsize hlength

/-- What is behind the whole blocks does not matter if it is less than a block. -/
theorem whole_append {l l' : List α} {n : Nat} (hl : l.length = n * size) (hl' : l'.length < size) :
    whole size (l ++ l') = l := by
  have hpos : 0 < size := Nat.zero_lt_of_lt hl'
  have hcount : (l ++ l').length / size = n := by
    rw [List.length_append, hl, Nat.add_comm, Nat.add_mul_div_right _ _ hpos, Nat.div_eq_of_lt hl',
      Nat.zero_add]
  unfold whole
  rw [hcount, ← hl, List.take_left]

theorem window_whole {l : List α} {i : Nat} (hi : i < l.length / size) :
    window size (whole size l) i = window size l i :=
  window_take_of_le (Nat.mul_le_mul_right size hi)

end Blocks
