import Mathlib.Data.List.Pairwise
import Mathlib.Data.List.Nodup

/-!
# Tilings

Pieces laid one behind the other from one address to another. A piece is a header
of fixed size and the bytes behind it.
-/

namespace Tilings

variable (hdr : Nat)

/-- The pieces of `cs`, in this order, fill the addresses from `a` to `f`. -/
def Tiled (size : Nat → Nat) : Nat → List Nat → Nat → Prop
  | a, [], f => f = a
  | a, c :: cs, f => c = a ∧ Tiled size (c + hdr + size c) cs f

variable {hdr} {size size' : Nat → Nat} {a f c : Nat} {cs : List Nat}

theorem Tiled.move (h : Tiled hdr size a cs f) (size' : Nat → Nat)
    (hs : ∀ c ∈ cs, size' c = size c) :
    Tiled hdr size' a cs f := by
  induction cs generalizing a with
  | nil => exact h
  | cons c cs ih =>
    refine ⟨h.1, ?_⟩
    rw [hs c List.mem_cons_self]
    exact ih h.2 fun c' hc' => hs c' (List.mem_cons_of_mem c hc')

theorem Tiled.le (h : Tiled hdr size a cs f) : a ≤ f := by
  induction cs generalizing a with
  | nil => exact Nat.le_of_eq h.symm
  | cons c cs ih =>
    have hle := ih h.2
    have hc := h.1
    omega

/-- There is room for all headers. -/
theorem Tiled.length_le (h : Tiled hdr size a cs f) : a + cs.length * hdr ≤ f := by
  induction cs generalizing a with
  | nil =>
    have hfa : f = a := h
    simp [hfa]
  | cons c cs ih =>
    obtain ⟨rfl, hrest⟩ := h
    have hlen := ih hrest
    rw [List.length_cons, Nat.succ_mul]
    omega

/-- Every piece lies between the ends. -/
theorem Tiled.inside (h : Tiled hdr size a cs f) (hc : c ∈ cs) : a ≤ c ∧ c + hdr + size c ≤ f := by
  induction cs generalizing a with
  | nil => cases hc
  | cons c' cs ih =>
    obtain ⟨rfl, hrest⟩ := h
    rcases List.mem_cons.mp hc with rfl | hm
    · exact ⟨Nat.le_refl _, hrest.le⟩
    · obtain ⟨h1, h2⟩ := ih hrest hm
      exact ⟨by omega, h2⟩

/-- Of two pieces one ends before the other begins. -/
theorem Tiled.pairwise (h : Tiled hdr size a cs f) :
    cs.Pairwise fun c c' => c + hdr + size c ≤ c' := by
  induction cs generalizing a with
  | nil => exact List.Pairwise.nil
  | cons c cs ih => exact List.pairwise_cons.mpr ⟨fun c' hc' => (h.2.inside hc').1, ih h.2⟩

theorem Tiled.apart (h : Tiled hdr size a cs f) {c' : Nat} (hc : c ∈ cs) (hc' : c' ∈ cs)
    (hne : c ≠ c') : c + hdr + size c ≤ c' ∨ c' + hdr + size c' ≤ c := by
  induction cs generalizing a with
  | nil => cases hc
  | cons b cs ih =>
    rcases List.mem_cons.mp hc with rfl | hm <;> rcases List.mem_cons.mp hc' with rfl | hm'
    · exact absurd rfl hne
    · exact Or.inl (h.2.inside hm').1
    · exact Or.inr (h.2.inside hm).1
    · exact ih h.2 hm hm'

/-- A piece more at the end. -/
theorem Tiled.snoc (h : Tiled hdr size a cs f) : Tiled hdr size a (cs ++ [f]) (f + hdr + size f) := by
  induction cs generalizing a with
  | nil =>
    obtain rfl : f = a := h
    exact ⟨rfl, rfl⟩
  | cons c cs ih => exact ⟨h.1, ih h.2⟩

/-- The piece that reaches to the end is the last one. -/
theorem Tiled.eq_snoc (h : Tiled hdr size a cs f) (hhdr : 0 < hdr) (hc : c ∈ cs)
    (hend : c + hdr + size c = f) : ∃ init, cs = init ++ [c] ∧ Tiled hdr size a init c := by
  induction cs generalizing a with
  | nil => cases hc
  | cons b cs ih =>
    obtain ⟨rfl, hrest⟩ := h
    rcases List.mem_cons.mp hc with rfl | hm
    · cases cs with
      | nil => exact ⟨[], rfl, rfl⟩
      | cons b cs =>
        have hb := hrest.1
        have hle := hrest.2.le
        omega
    · obtain ⟨init, rfl, hinit⟩ := ih hrest hm
      exact ⟨b :: init, rfl, rfl, hinit⟩

/-- Pieces of aligned sizes are aligned. -/
theorem Tiled.dvd {n : Nat} (h : Tiled hdr size a cs f) (ha : n ∣ a) (hhdr : n ∣ hdr)
    (hs : ∀ c ∈ cs, n ∣ size c) : (∀ c ∈ cs, n ∣ c) ∧ n ∣ f := by
  induction cs generalizing a with
  | nil =>
    obtain rfl : f = a := h
    exact ⟨fun c hc => absurd hc List.not_mem_nil, ha⟩
  | cons c cs ih =>
    obtain ⟨rfl, hrest⟩ := h
    have hnext := Nat.dvd_add (Nat.dvd_add ha hhdr) (hs c List.mem_cons_self)
    obtain ⟨h1, h2⟩ := ih hrest hnext fun c' hc' => hs c' (List.mem_cons_of_mem c hc')
    refine ⟨fun c' hc' => ?_, h2⟩
    rcases List.mem_cons.mp hc' with rfl | hm
    · exact ha
    · exact h1 c' hm

end Tilings
