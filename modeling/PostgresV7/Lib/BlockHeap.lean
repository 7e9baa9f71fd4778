import Mathlib.Data.Finmap
import Mathlib.Data.Finset.Lattice.Fold
import Mathlib.Order.Lattice.Nat
import Mathlib.Tactic.Common

/-!
# A heap of blocks

Blocks of any kind at addresses, with the addresses that were freed. Two relations say what a piece of code
does to the heap: it allocates blocks and writes to blocks it was given, or it frees blocks. What is not
allocated cannot be written or freed.
-/

namespace BlockHeap

abbrev Ptr := Nat

def NULL : Ptr := 0

structure Heap (β : Type) where
  blocks : Finmap fun _ : Ptr => β
  calls : Nat
  freed : List Ptr
  null : NULL ∉ blocks

/-- An allocator, with its contract: no block in use is handed out, and never `NULL`. -/
structure Allocator (β : Type) where
  answer : Nat → (Finmap fun _ : Ptr => β) → Ptr
  fresh : ∀ n blocks, answer n blocks ∉ blocks
  ne_null : ∀ n blocks, answer n blocks ≠ NULL

/-- The address above all that are in use. -/
def Allocator.above (β : Type) : Allocator β where
  answer _ blocks := blocks.keys.sup id + 1
  fresh _ blocks hmem := by
    have hle := Finset.le_sup (f := id) (Finmap.mem_keys.mpr hmem)
    exact Nat.not_succ_le_self _ hle
  ne_null _ _ := Nat.succ_ne_zero _

variable {β : Type} {A : Allocator β} {h h' h'' : Heap β} {b b' : β} {p q : Ptr} {ws ws' new new' gone gone' : List Ptr}

namespace Heap

def get (h : Heap β) (p : Ptr) : Option β := h.blocks.lookup p

def alloc (A : Allocator β) (h : Heap β) (b : β) : Ptr × Heap β :=
  let p := A.answer h.calls h.blocks
  (p, { h with
    blocks := h.blocks.insert p b
    calls := h.calls + 1
    null := fun hmem => (Finmap.mem_insert.mp hmem).elim (fun heq => A.ne_null _ _ heq.symm) h.null })

/-- Write to a block. -/
def store (h : Heap β) (p : Ptr) (b : β) : Option (Heap β) :=
  if hp : p ∈ h.blocks then
    some { h with
      blocks := h.blocks.insert p b
      null := fun hmem => (Finmap.mem_insert.mp hmem).elim (fun heq => h.null (heq ▸ hp)) h.null }
  else none

def free (h : Heap β) (p : Ptr) : Option (Heap β) :=
  if p ∈ h.blocks then
    some { h with
      blocks := h.blocks.erase p
      freed := h.freed ++ [p]
      null := fun hmem => h.null (Finmap.mem_erase.mp hmem).2 }
  else none

theorem get_null (h : Heap β) : h.get NULL = none := Finmap.lookup_eq_none.mpr h.null

theorem ne_null_of_get (hp : h.get p = some b) : p ≠ NULL := by
  rintro rfl
  rw [get_null] at hp
  cases hp

/-- Where a block is, no other one is: writing there keeps the others. -/
theorem get_singleton_ne (hp : h.get p = some b) (hne : b ≠ b') : ∀ q ∈ [p], h.get q ≠ some b' := by
  intro q hq heq
  rw [List.mem_singleton.mp hq, hp] at heq
  exact hne (Option.some.inj heq)

end Heap

/-! ## Allocating and writing -/

/-- From `h` to `h'` the blocks `new` are allocated, and among the old ones only those in `ws` are written. -/
structure Changes (ws : List Ptr) (h h' : Heap β) (new : List Ptr) : Prop where
  keeps : ∀ q b, q ∉ ws → h.get q = some b → h'.get q = some b
  alive : ∀ q, h.get q ≠ none → h'.get q ≠ none
  fresh : ∀ p ∈ new, h.get p = none
  live : ∀ p ∈ new, h'.get p ≠ none
  nodup : new.Nodup
  freed : h'.freed = h.freed

namespace Changes

theorem refl (ws : List Ptr) (h : Heap β) : Changes ws h h [] where
  keeps := fun _ _ _ hq => hq
  alive := fun _ hq => hq
  fresh := fun _ hp => absurd hp List.not_mem_nil
  live := fun _ hp => absurd hp List.not_mem_nil
  nodup := List.nodup_nil
  freed := rfl

/-- Blocks that the first part has allocated may be written in the second. -/
theorem trans (hc : Changes ws h h' new) (hc' : Changes ws' h' h'' new') (hws : ∀ p ∈ ws', p ∈ ws ∨ p ∈ new) :
    Changes ws h h'' (new ++ new') where
  keeps := fun q b hq hget => by
    refine hc'.keeps q b (fun hmem => ?_) (hc.keeps q b hq hget)
    rcases hws q hmem with hin | hin
    · exact hq hin
    · rw [hc.fresh q hin] at hget
      cases hget
  alive := fun q hq => hc'.alive q (hc.alive q hq)
  fresh := fun p hp => by
    rcases List.mem_append.mp hp with hp | hp
    · exact hc.fresh p hp
    · exact not_not.mp fun hne => hc.alive p hne (hc'.fresh p hp)
  live := fun p hp => by
    rcases List.mem_append.mp hp with hp | hp
    · exact hc'.alive p (hc.live p hp)
    · exact hc'.live p hp
  nodup := List.nodup_append'.mpr ⟨hc.nodup, hc'.nodup, fun p hp hp' => hc.live p hp (hc'.fresh p hp')⟩
  freed := hc'.freed.trans hc.freed

theorem mono (hc : Changes ws h h' new) (hsub : ws ⊆ ws') : Changes ws' h h' new :=
  { hc with keeps := fun q b hq => hc.keeps q b fun hmem => hq (hsub hmem) }

theorem perm (hc : Changes ws h h' new) (hp : new.Perm new') : Changes ws h h' new' where
  keeps := hc.keeps
  alive := hc.alive
  fresh := fun p hmem => hc.fresh p (hp.mem_iff.mpr hmem)
  live := fun p hmem => hc.live p (hp.mem_iff.mpr hmem)
  nodup := hp.nodup_iff.mp hc.nodup
  freed := hc.freed

/-- A new block is none of the old ones. -/
theorem ne_of_mem (hc : Changes ws h h' new) (hp : p ∈ new) (hq : h.get q = some b) : q ≠ p := by
  rintro rfl
  rw [hc.fresh q hp] at hq
  cases hq

/-- A block of another content than those written stays as it is. -/
theorem keep (hc : Changes ws h h' new) (hp : h.get p = some b) (hws : ∀ q ∈ ws, h.get q ≠ some b) :
    h'.get p = some b := hc.keeps p b (fun hmem => hws p hmem hp) hp

end Changes

theorem alloc_spec (A : Allocator β) (h : Heap β) (b : β) :
    ∃ p h', h.alloc A b = (p, h') ∧ h'.get p = some b ∧ Changes [] h h' [p] := by
  have hfresh : h.get (h.alloc A b).1 = none := Finmap.lookup_eq_none.mpr (A.fresh h.calls h.blocks)
  have hself : (h.alloc A b).2.get (h.alloc A b).1 = some b := Finmap.lookup_insert h.blocks
  have hkeeps : ∀ q b', h.get q = some b' → (h.alloc A b).2.get q = some b' := fun q b' hq => by
    have hne : q ≠ (h.alloc A b).1 := by
      rintro rfl
      rw [hfresh] at hq
      cases hq
    exact (Finmap.lookup_insert_of_ne h.blocks hne).trans hq
  refine ⟨(h.alloc A b).1, (h.alloc A b).2, rfl, hself, fun q b' _ => hkeeps q b', fun q hq => ?_, fun p hp => ?_, fun p hp => ?_,
    List.nodup_singleton _, rfl⟩
  · obtain ⟨b', hb'⟩ := Option.ne_none_iff_exists'.mp hq
    rw [hkeeps q b' hb']
    exact Option.some_ne_none b'
  · rw [List.mem_singleton.mp hp]
    exact hfresh
  · rw [List.mem_singleton.mp hp, hself]
    exact Option.some_ne_none b

theorem store_spec (hp : h.get p = some b) (b' : β) :
    ∃ h', h.store p b' = some h' ∧ h'.get p = some b' ∧ Changes [p] h h' [] := by
  have hmem : p ∈ h.blocks := Finmap.mem_of_lookup_eq_some hp
  refine ⟨_, dif_pos hmem, Finmap.lookup_insert h.blocks, fun q b'' hq hget => ?_, fun q hq => ?_,
    fun _ hp => absurd hp List.not_mem_nil, fun _ hp => absurd hp List.not_mem_nil, List.nodup_nil, rfl⟩
  · exact (Finmap.lookup_insert_of_ne h.blocks (mt List.mem_singleton.mpr hq)).trans hget
  · by_cases heq : q = p
    · subst heq
      exact fun hnone => Option.some_ne_none b' ((Finmap.lookup_insert h.blocks).symm.trans hnone)
    · exact fun hnone => hq ((Finmap.lookup_insert_of_ne h.blocks heq).symm.trans hnone)

/-! ## Freeing -/

/-- From `h` to `h'` the blocks `gone` are freed in this order, each once, and nothing else happens. -/
structure Frees (h h' : Heap β) (gone : List Ptr) : Prop where
  freed : h'.freed = h.freed ++ gone
  nodup : gone.Nodup
  live : ∀ p ∈ gone, h.get p ≠ none
  none : ∀ p ∈ gone, h'.get p = none
  keeps : ∀ p, p ∉ gone → h'.get p = h.get p

namespace Frees

theorem refl (h : Heap β) : Frees h h [] where
  freed := (List.append_nil _).symm
  nodup := List.nodup_nil
  live := fun _ hp => absurd hp List.not_mem_nil
  none := fun _ hp => absurd hp List.not_mem_nil
  keeps := fun _ _ => rfl

theorem trans (hf : Frees h h' gone) (hf' : Frees h' h'' gone') : Frees h h'' (gone ++ gone') where
  freed := by rw [hf'.freed, hf.freed, List.append_assoc]
  nodup := List.nodup_append'.mpr ⟨hf.nodup, hf'.nodup, fun p hp hp' => hf'.live p hp' (hf.none p hp)⟩
  live := fun p hp => by
    by_cases hin : p ∈ gone
    · exact hf.live p hin
    · have hlive := hf'.live p ((List.mem_append.mp hp).resolve_left hin)
      rwa [hf.keeps p hin] at hlive
  none := fun p hp => by
    by_cases hin : p ∈ gone'
    · exact hf'.none p hin
    · rw [hf'.keeps p hin, hf.none p ((List.mem_append.mp hp).resolve_right hin)]
  keeps := fun p hp => by
    obtain ⟨hout, hout'⟩ := not_or.mp (mt List.mem_append.mpr hp)
    rw [hf'.keeps p hout', hf.keeps p hout]

end Frees

theorem free_spec (hp : h.get p = some b) : ∃ h', h.free p = some h' ∧ Frees h h' [p] := by
  refine ⟨_, if_pos (Finmap.mem_of_lookup_eq_some hp), rfl, List.nodup_singleton p, fun q hq => ?_, fun q hq => ?_,
    fun q hq => Finmap.lookup_erase_ne (mt List.mem_singleton.mpr hq)⟩
  · rw [List.mem_singleton.mp hq, hp]
    exact Option.some_ne_none b
  · rw [List.mem_singleton.mp hq]
    exact Finmap.lookup_erase p h.blocks

/-! ## Loops -/

variable {σ : Type} {f : Nat → σ → Option σ} {inv : Nat → σ → Prop} {s : σ} {n : Nat}

/-- `for (i = 0; i < n; i++)`, from the end of the loop back. -/
def forUp (f : Nat → σ → Option σ) : Nat → σ → Option σ
  | 0, s => some s
  | n + 1, s => (forUp f n s).bind (f n)

/-- `for (i = n - 1; i >= 0; i--)`. -/
def forDown (f : Nat → σ → Option σ) : Nat → σ → Option σ
  | 0, s => some s
  | n + 1, s => (f n s).bind (forDown f n)

/-- An invariant that every round takes one further. -/
theorem forUp_rule (hstep : ∀ i < n, ∀ s, inv i s → ∃ s', f i s = some s' ∧ inv (i + 1) s') (hs : inv 0 s) :
    ∃ s', forUp f n s = some s' ∧ inv n s' := by
  induction n with
  | zero => exact ⟨s, rfl, hs⟩
  | succ n ih =>
    obtain ⟨mid, hrun, hmid⟩ := ih fun i hi => hstep i (Nat.lt_succ_of_lt hi)
    obtain ⟨s', hlast, hs'⟩ := hstep n (Nat.lt_succ_self n) mid hmid
    exact ⟨s', by rw [forUp, hrun]; exact hlast, hs'⟩

theorem forDown_rule (hstep : ∀ i < n, ∀ s, inv (i + 1) s → ∃ s', f i s = some s' ∧ inv i s') (hs : inv n s) :
    ∃ s', forDown f n s = some s' ∧ inv 0 s' := by
  induction n generalizing s with
  | zero => exact ⟨s, rfl, hs⟩
  | succ n ih =>
    obtain ⟨mid, hfirst, hmid⟩ := hstep n (Nat.lt_succ_self n) s hs
    obtain ⟨s', hrun, hs'⟩ := ih (fun i hi => hstep i (Nat.lt_succ_of_lt hi)) hmid
    exact ⟨s', by rw [forDown, hfirst]; exact hrun, hs'⟩

end BlockHeap
