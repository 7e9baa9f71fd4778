import Mathlib.Data.Nat.Digits.Defs

/-!
# Decimal numerals in texts

A numeral is made of digits only, so whatever separates numerals in a text tells
where they end.
-/

namespace Decimal

variable {α : Type*}

/-- Two texts that are the same up to the first separator go on in the same way. -/
theorem append_inj_of_sep {x : α} {l l' s s' : List α} (hl : x ∉ l) (hl' : x ∉ l')
    (hs : ∀ c ∈ s.head?, c = x) (hs' : ∀ c ∈ s'.head?, c = x) (h : l ++ s = l' ++ s') :
    l = l' ∧ s = s' := by
  induction l generalizing l' with
  | nil =>
    cases l' with
    | nil => exact ⟨rfl, h⟩
    | cons c l' =>
      have hc : c = x := hs c (by rw [List.nil_append] at h; rw [h]; rfl)
      exact absurd (hc ▸ List.mem_cons_self) hl'
  | cons c l ih =>
    cases l' with
    | nil =>
      have hc : c = x := hs' c (by rw [List.nil_append] at h; rw [← h]; rfl)
      exact absurd (hc ▸ List.mem_cons_self) hl
    | cons c' l' =>
      obtain ⟨rfl, htail⟩ := List.cons.inj h
      obtain ⟨rfl, hrest⟩ := ih (fun hm => hl (List.mem_cons_of_mem c hm))
        (fun hm => hl' (List.mem_cons_of_mem c hm)) htail
      exact ⟨rfl, hrest⟩

theorem head_cons (x : α) (l : List α) : ∀ c ∈ (x :: l).head?, c = x :=
  fun _ hc => (Option.some.inj hc).symm

/-- The numeral of a number. -/
def decimal (n : Nat) : List Char := Nat.toDigits 10 n

theorem decimal_injective : Function.Injective decimal := by
  intro m n h
  have hback := congrArg (fun l => Nat.ofDigitChars 10 l 0) h
  simpa only [decimal, Nat.ofDigitChars_ten_toDigits] using hback

theorem not_mem_decimal {c : Char} (hc : c.isDigit = false) (n : Nat) : c ∉ decimal n := by
  intro hm
  have hdigit := Nat.isDigit_of_mem_toDigits (by decide) (by decide) hm
  rw [hc] at hdigit
  cases hdigit

end Decimal
