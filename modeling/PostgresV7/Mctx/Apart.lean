import PostgresV7.Aset.Stored
import PostgresV7.Mctx.Shared

/-!
# Contexts keep apart

The blocks of different contexts are apart, so a call on one context leaves the others as
they are.
-/

namespace PostgresV7.Mctx.Debug

open Regions
open Aset (Layout Stored Kept blockRegion ALLOC_CHUNK_HDR_SZ MAX_ALLOC_SIZE)
open Aset.Debug (Image Sane Untouched Turns Foreign)

variable {s s' : Contexts} {Ls : Nat → Layout} {L L' : Layout} {i i' : Image} {a a' : Nat}
  {x : Live} {gone : List Nat}

/-! ## Live chunks -/

def Live.chunk (x : Live) : Nat := x.pointer - ALLOC_CHUNK_HDR_SZ

/-- What a live pointer points at. -/
structure Alive (i : Image) (L : Layout) (x : Live) : Prop where
  pointer : x.pointer = x.chunk + ALLOC_CHUNK_HDR_SZ
  used : L.Used x.chunk
  requested : i.requested x.chunk = x.size
  valid : x.peak ≤ MAX_ALLOC_SIZE
  peak : x.peak ≤ i.st.mem.size x.chunk
  stored : Stored x.peak (i.st.mem.size x.chunk)

theorem Alive.keep (h : Alive i L x) (hused : L'.Used x.chunk)
    (hreq : i'.requested x.chunk = i.requested x.chunk)
    (hsize : i'.st.mem.size x.chunk = i.st.mem.size x.chunk) : Alive i' L' x where
  pointer := h.pointer
  used := hused
  requested := hreq.trans h.requested
  valid := h.valid
  peak := hsize ▸ h.peak
  stored := hsize ▸ h.stored

theorem Alive.turn (h : Alive i L x) (ht : Turns gone i L i' L') (hn : x.chunk ∉ gone) : Alive i' L' x :=
  h.keep (ht.kept x.chunk h.used hn).1 (ht.requested h.used hn) (ht.kept x.chunk h.used hn).2

/-! ## The invariant -/

/-- Every context has a layout, and no two have memory in common. -/
structure Consistent (s : Contexts) (Ls : Nat → Layout) : Prop where
  pos : ∀ a ∈ s.contexts, a ≠ 0
  sane : ∀ a ∈ s.contexts, Sane (s.image a) (Ls a)
  self : ∀ a ∈ s.contexts, (s.sets a).self = a
  apart : ∀ a ∈ s.contexts, ∀ a' ∈ s.contexts, a ≠ a' → ∀ b ∈ (Ls a).blocks, ∀ b' ∈ (Ls a').blocks,
    (blockRegion s.mem b).Apart (blockRegion s.mem b')
  owned : ∀ x ∈ s.live, x.owner ∈ s.contexts
  alive : ∀ x ∈ s.live, Alive (s.image x.owner) (Ls x.owner) x

theorem Contexts.put_image (s : Contexts) (a : Nat) (i : Image) : (s.put a i).image a = i := by
  unfold Contexts.image Contexts.put
  dsimp only
  rw [Function.update_self]

/-- A context that has its set and its blocks as they were. -/
structure Beside (s s' : Contexts) (L : Layout) (a : Nat) : Prop where
  set : s'.sets a = s.sets a
  untouched : ∀ b ∈ L.blocks, ∀ x, (blockRegion s.mem b).Holds x → Untouched (s.image a) (s'.image a) x
  regions : ∀ b ∈ L.blocks, blockRegion s.mem b ∈ s'.mem.heap.regions

namespace Beside

theorem sane (hb : Beside s s' L a) (h : Sane (s.image a) L) :
    Sane (s'.image a) L ∧ Kept [] (s.image a).st L (s'.image a).st L ∧
      ∀ c, L.Chunk c → Untouched (s.image a) (s'.image a) c :=
  h.beside hb.set (fun b hm x h1 h2 => hb.untouched b hm x (Aset.Debug.holds_blockRegion h1 h2)) hb.regions

theorem region (hb : Beside s s' L a) (h : Sane (s.image a) L) :
    ∀ b ∈ L.blocks, blockRegion s'.mem b = blockRegion s.mem b := by
  intro b hm
  have hblock := h.marked.shape.block b hm
  have hstart := hblock.start_le
  have hfree := hblock.free_le
  have hend := (hb.untouched b hm b (Aset.Debug.holds_blockRegion (Nat.le_refl b) (by
    show b < (s.image a).st.mem.endptr b
    omega))).endptr
  unfold blockRegion
  rw [show s'.mem.endptr b = s.mem.endptr b from hend]

theorem alive (hb : Beside s s' L a) (h : Sane (s.image a) L) (hx : Alive (s.image a) L x) :
    Alive (s'.image a) L x := by
  obtain ⟨-, hkept, hc⟩ := hb.sane h
  have hchunk := hc x.chunk hx.used.1
  exact hx.keep hx.used hchunk.requested hchunk.size

end Beside

/-! ## A call on one context -/

/-- What a call on `a` leaves alone: the blocks of the other contexts. -/
def Leaves (s : Contexts) (Ls : Nat → Layout) (a : Nat) (i : Image) : Prop :=
  ∀ a' ∈ s.contexts, a' ≠ a → ∀ b ∈ (Ls a').blocks, blockRegion s.mem b ∈ i.st.mem.heap.regions ∧
    ∀ x, (blockRegion s.mem b).Holds x → Untouched (s.image a) i x

theorem Leaves.beside (h : Leaves s Ls a i) (ha' : a' ∈ s.contexts) (hne : a' ≠ a) :
    Beside s (s.put a i) (Ls a') a' := by
  refine ⟨Function.update_of_ne hne _ _, fun b hb x hx => ?_, fun b hb => (h a' ha' hne b hb).1⟩
  have hu := (h a' ha' hne b hb).2 x hx
  exact ⟨hu.next, hu.freeptr, hu.endptr, hu.aset, hu.size, hu.requested, hu.bytes⟩

namespace Consistent

/-- The blocks of a context are foreign to the others. -/
theorem foreign (h : Consistent s Ls) (ha : a ∈ s.contexts) (ha' : a' ∈ s.contexts) (hne : a' ≠ a)
    {b : Nat} (hb : b ∈ (Ls a').blocks) : Foreign (s.image a).st (Ls a) (blockRegion s.mem b) := by
  have hblock := (h.sane a' ha').marked.shape.block b hb
  have hstart := hblock.start_le
  have hfree := hblock.free_le
  refine ⟨hblock.region, ?_, fun b' hb' => h.apart a ha a' ha' (Ne.symm hne) b' hb' b hb⟩
  show 0 < (s.image a').st.mem.endptr b - b
  omega

theorem leaves_of_turns (h : Consistent s Ls) (ha : a ∈ s.contexts)
    (ht : Turns gone (s.image a) (Ls a) i L') : Leaves s Ls a i := by
  intro a' ha' hne b hb
  have hforeign := h.foreign ha ha' hne hb
  exact ⟨(ht.foreign _ hforeign).1, fun x hx => ht.untouched_foreign hforeign hx⟩

/-- The context a call was on has its new layout, the others have theirs. -/
theorem put (h : Consistent s Ls) (hl : Leaves s Ls a i) (hpos : a ≠ 0) (hsane : Sane i L')
    (hself : i.st.set.self = a)
    (hapart : ∀ a' ∈ s.contexts, a' ≠ a → ∀ b ∈ L'.blocks, ∀ b' ∈ (Ls a').blocks,
      (blockRegion i.st.mem b).Apart (blockRegion s.mem b'))
    {contexts : List Nat} {live : List Live} (hcontexts : ∀ a' ∈ contexts, a' = a ∨ a' ∈ s.contexts)
    (hlive : ∀ x ∈ live, x.owner ∈ contexts ∧
      (x.owner = a → Alive i L' x) ∧ (x.owner ≠ a → x ∈ s.live)) :
    Consistent { s.put a i with contexts := contexts, live := live } (Function.update Ls a L') := by
  have himage := s.put_image a i
  have hother : ∀ a' ∈ contexts, a' ≠ a → a' ∈ s.contexts := fun a' ha' hne =>
    (hcontexts a' ha').resolve_left hne
  have hregion : ∀ a' ∈ contexts, a' ≠ a → ∀ b ∈ (Ls a').blocks,
      blockRegion i.st.mem b = blockRegion s.mem b := fun a' ha' hne =>
    (hl.beside (hother a' ha' hne) hne).region (h.sane a' (hother a' ha' hne))
  constructor
  · intro a' ha'
    rcases hcontexts a' ha' with rfl | hm
    · exact hpos
    · exact h.pos a' hm
  · intro a' ha'
    by_cases hne : a' = a
    · subst hne
      rw [Function.update_self]
      show Sane ((s.put a' i).image a') L'
      rw [himage]
      exact hsane
    · rw [Function.update_of_ne hne]
      have hm := hother a' ha' hne
      exact ((hl.beside hm hne).sane (h.sane a' hm)).1
  · intro a' ha'
    by_cases hne : a' = a
    · subst hne
      show (Function.update s.sets a' i.st.set a').self = a'
      rw [Function.update_self]
      exact hself
    · show (Function.update s.sets a i.st.set a').self = a'
      rw [Function.update_of_ne hne]
      exact h.self a' (hother a' ha' hne)
  · intro a₁ ha₁ a₂ ha₂ hne b₁ hb₁ b₂ hb₂
    show (blockRegion i.st.mem b₁).Apart (blockRegion i.st.mem b₂)
    by_cases h₁ : a₁ = a
    · subst h₁
      rw [Function.update_self] at hb₁
      rw [Function.update_of_ne (Ne.symm hne)] at hb₂
      rw [hregion a₂ ha₂ (Ne.symm hne) b₂ hb₂]
      exact hapart a₂ (hother a₂ ha₂ (Ne.symm hne)) (Ne.symm hne) b₁ hb₁ b₂ hb₂
    · rw [Function.update_of_ne h₁] at hb₁
      rw [hregion a₁ ha₁ h₁ b₁ hb₁]
      by_cases h₂ : a₂ = a
      · subst h₂
        rw [Function.update_self] at hb₂
        exact (hapart a₁ (hother a₁ ha₁ h₁) h₁ b₂ hb₂ b₁ hb₁).symm
      · rw [Function.update_of_ne h₂] at hb₂
        rw [hregion a₂ ha₂ h₂ b₂ hb₂]
        exact h.apart a₁ (hother a₁ ha₁ h₁) a₂ (hother a₂ ha₂ h₂) hne b₁ hb₁ b₂ hb₂
  · exact fun x hx => (hlive x hx).1
  · intro x hx
    obtain ⟨howner, hnew, hold⟩ := hlive x hx
    by_cases hne : x.owner = a
    · rw [hne, Function.update_self]
      show Alive ((s.put a i).image a) L' x
      rw [himage]
      exact hnew hne
    · rw [Function.update_of_ne hne]
      have hm := hother x.owner howner hne
      exact (hl.beside hm hne).alive (h.sane _ hm) (h.alive x (hold hne))

/-- A call that takes back the chunks in `gone`. -/
theorem turn (h : Consistent s Ls) (ha : a ∈ s.contexts) (hsane : Sane i L')
    (ht : Turns gone (s.image a) (Ls a) i L') {live : List Live}
    (hlive : ∀ x ∈ live, x ∈ s.live ∧ (x.owner = a → x.chunk ∉ gone) ∨ x.owner = a ∧ Alive i L' x) :
    Consistent { s.put a i with live := live } (Function.update Ls a L') := by
  refine h.put (h.leaves_of_turns ha ht) (h.pos a ha) hsane (ht.self.trans (h.self a ha)) ?_
    (fun a' ha' => Or.inr ha') ?_
  · intro a' ha' hne b hb b' hb'
    exact (ht.foreign _ (h.foreign ha ha' hne hb')).2.2 b hb
  · intro x hx
    rcases hlive x hx with ⟨hm, hgone⟩ | ⟨howner, hnew⟩
    · refine ⟨h.owned x hm, fun howner => ?_, fun _ => hm⟩
      have halive := h.alive x hm
      rw [howner] at halive
      exact halive.turn ht (hgone howner)
    · exact ⟨howner ▸ ha, fun _ => hnew, fun hne => absurd howner hne⟩

/-- A context is gone, or was none. -/
theorem aside (h : Consistent s Ls) (hl : Leaves s Ls a i) {contexts : List Nat} {live : List Live}
    (hcontexts : ∀ a' ∈ contexts, a' ∈ s.contexts ∧ a' ≠ a)
    (hlive : ∀ x ∈ live, x ∈ s.live ∧ x.owner ∈ contexts) :
    Consistent { s.put a i with contexts := contexts, live := live } Ls := by
  have hbeside : ∀ a' ∈ contexts, Beside s (s.put a i) (Ls a') a' := fun a' ha' =>
    hl.beside (hcontexts a' ha').1 (hcontexts a' ha').2
  have hsane : ∀ a' ∈ contexts, Sane (s.image a') (Ls a') := fun a' ha' =>
    h.sane a' (hcontexts a' ha').1
  constructor
  · exact fun a' ha' => h.pos a' (hcontexts a' ha').1
  · exact fun a' ha' => ((hbeside a' ha').sane (hsane a' ha')).1
  · intro a' ha'
    show (Function.update s.sets a i.st.set a').self = a'
    rw [Function.update_of_ne (hcontexts a' ha').2]
    exact h.self a' (hcontexts a' ha').1
  · intro a₁ ha₁ a₂ ha₂ hne b₁ hb₁ b₂ hb₂
    show (blockRegion (s.put a i).mem b₁).Apart (blockRegion (s.put a i).mem b₂)
    rw [(hbeside a₁ ha₁).region (hsane a₁ ha₁) b₁ hb₁, (hbeside a₂ ha₂).region (hsane a₂ ha₂) b₂ hb₂]
    exact h.apart a₁ (hcontexts a₁ ha₁).1 a₂ (hcontexts a₂ ha₂).1 hne b₁ hb₁ b₂ hb₂
  · exact fun x hx => (hlive x hx).2
  · intro x hx
    obtain ⟨hm, howner⟩ := hlive x hx
    exact (hbeside x.owner howner).alive (hsane x.owner howner) (h.alive x hm)

end Consistent

end PostgresV7.Mctx.Debug
