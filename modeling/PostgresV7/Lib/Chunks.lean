import PostgresV7.Lib.Regions
import PostgresV7.Lib.Runs
import Mathlib.Data.List.Forall2
import Mathlib.Data.List.Pairwise

/-!
# Chunks of bytes with owners

What a memory manager is for: its clients have chunks of bytes that keep apart, and what one owner
does with its chunks is nothing to the others.
-/

namespace Chunks

open Regions Runs

variable {ι : Type*}

/-- Whose it is, where it is and what is in it. -/
structure Chunk (ι : Type*) where
  owner : ι
  pointer : Nat
  bytes : List UInt8

def Chunk.region (x : Chunk ι) : Region := ⟨x.pointer, x.bytes.length⟩

abbrev Store (ι : Type*) := List (Chunk ι)

/-- Nobody has any of it. -/
def Vacant (store : Store ι) (r : Region) : Prop := ∀ y ∈ store, r.Apart y.region

inductive Event (ι : Type*) where
  | alloc (owner : ι) (size : Nat) (pointer : Option Nat)
  | free (pointer : Nat)
  | realloc (pointer size : Nat) (newPointer : Option Nat)
  | clear (owner : ι)
  | write (owner : ι)
  | other
  deriving DecidableEq, Repr

/-- The owner may write to its chunks, and no one else. -/
def WrittenBy (owner : ι) (x y : Chunk ι) : Prop :=
  y.owner = x.owner ∧ y.region = x.region ∧ (x.owner ≠ owner → y = x)

variable {store store' : Store ι} {ev : Event ι} {x : Chunk ι}

/-- No two chunks have a byte in common. -/
def KeepApart (store : Store ι) : Prop := (store.map Chunk.region).Pairwise Region.Apart

theorem KeepApart.sublist (h : KeepApart store) (hsub : store'.Sublist store) : KeepApart store' :=
  List.Pairwise.sublist (hsub.map _) h

theorem KeepApart.cons (h : KeepApart store) (hx : Vacant store x.region) : KeepApart (x :: store) := by
  refine List.pairwise_cons.mpr ⟨fun r hr => ?_, h⟩
  obtain ⟨y, hy, rfl⟩ := List.mem_map.mp hr
  exact hx y hy

section

variable [DecidableEq ι]

def without (store : Store ι) (pointer : Nat) : Store ι := store.filter fun x => x.pointer ≠ pointer

def outside (store : Store ι) (owner : ι) : Store ι := store.filter fun x => x.owner ≠ owner

/-- A new chunk is vacant, with any bytes in it; a chunk that is made larger or smaller keeps the bytes it
has room for. -/
inductive Step : Store ι → Event ι → Store ι → Prop where
  | alloc {store : Store ι} {owner : ι} {size : Nat} {x : Chunk ι} : x.owner = owner → x.bytes.length = size →
      Vacant store x.region → Step store (.alloc owner size (some x.pointer)) (x :: store)
  | refused {store : Store ι} {owner : ι} {size : Nat} : Step store (.alloc owner size none) store
  | free {store : Store ι} {x : Chunk ι} : x ∈ store → Step store (.free x.pointer) (without store x.pointer)
  | realloc {store : Store ι} {x y : Chunk ι} {size : Nat} : x ∈ store → y.owner = x.owner → y.bytes.length = size →
      y.bytes.take x.bytes.length = x.bytes.take size → Vacant (without store x.pointer) y.region →
      Step store (.realloc x.pointer size (some y.pointer)) (y :: without store x.pointer)
  | reallocRefused {store : Store ι} {x : Chunk ι} {size : Nat} : x ∈ store →
      Step store (.realloc x.pointer size none) store
  | clear {store : Store ι} {owner : ι} : Step store (.clear owner) (outside store owner)
  | write {store store' : Store ι} {owner : ι} : List.Forall₂ (WrittenBy owner) store store' →
      Step store (.write owner) store'
  | other {store : Store ι} : Step store .other store

theorem KeepApart.step (h : KeepApart store) (hs : Step store ev store') : KeepApart store' := by
  cases hs with
  | alloc _ _ hx => exact h.cons hx
  | refused => exact h
  | free _ => exact h.sublist List.filter_sublist
  | realloc _ _ _ _ hy => exact (h.sublist List.filter_sublist).cons hy
  | reallocRefused _ => exact h
  | clear => exact h.sublist List.filter_sublist
  | write hw =>
    have hsame : store'.map Chunk.region = store.map Chunk.region := by
      clear h
      induction hw with
      | nil => rfl
      | cons hxy _ ih => rw [List.map_cons, List.map_cons, hxy.2.1, ih]
    unfold KeepApart
    rw [hsame]
    exact h
  | other => exact h

theorem run_keepApart {l : List (Event ι)} (h : Run Step [] l store) : KeepApart store :=
  h.invariant (fun _ _ _ h hs => h.step hs) List.Pairwise.nil

/-- The event is about this chunk, or about everything its owner has. -/
def Event.Touches (x : Chunk ι) : Event ι → Prop
  | .free pointer => pointer = x.pointer
  | .realloc pointer _ newPointer => pointer = x.pointer ∧ newPointer ≠ none
  | .clear owner => owner = x.owner
  | .write owner => owner = x.owner
  | _ => False

theorem Step.keeps (hs : Step store ev store') (hx : x ∈ store) (hev : ¬ ev.Touches x) : x ∈ store' := by
  cases hs with
  | alloc => exact List.mem_cons_of_mem _ hx
  | refused => exact hx
  | free hy => exact List.mem_filter.mpr ⟨hx, decide_eq_true fun heq => hev heq.symm⟩
  | realloc hy =>
    refine List.mem_cons_of_mem _ (List.mem_filter.mpr ⟨hx, decide_eq_true fun heq => ?_⟩)
    exact hev ⟨heq.symm, Option.some_ne_none _⟩
  | reallocRefused _ => exact hx
  | clear => exact List.mem_filter.mpr ⟨hx, decide_eq_true fun heq => hev heq.symm⟩
  | write hw =>
    have hkeep : ∀ y, WrittenBy _ x y → y = x := fun y hy => hy.2.2 fun heq => hev heq.symm
    clear hev
    induction hw with
    | nil => exact hx
    | cons hxy _ ih =>
      rcases List.mem_cons.mp hx with rfl | hx
      · rw [hkeep _ hxy]
        exact List.mem_cons_self
      · exact List.mem_cons_of_mem _ (ih hx)
  | other => exact hx

/-- A chunk that no event is about stays what it is, byte for byte. -/
theorem run_keeps {l : List (Event ι)} (h : Run Step store l store') (hx : x ∈ store)
    (hl : ∀ ev ∈ l, ¬ ev.Touches x) : x ∈ store' := by
  induction h with
  | nil _ => exact hx
  | cons hs _ ih =>
    exact ih (hs.keeps hx (hl _ List.mem_cons_self)) fun ev hev => hl ev (List.mem_cons_of_mem _ hev)

end

end Chunks
