import PostgresV7.Base
import Mathlib.Logic.Function.Basic

/-!
# Buffer descriptors (`buf_internals.h`, `buf_init.c`, `init_freelist`)

Descriptors are known by their index in `BufferDescriptors`; behind those of the
pool is the head of the free list. The locks and the blind-write data of a
descriptor are not used here.
-/

namespace PostgresV7.Buffer

abbrev BufFlags := BitVec 16

def BM_VALID : BufFlags := 0x0004#16
def BM_DELETED : BufFlags := 0x0008#16
def BM_FREE : BufFlags := 0x0010#16

/-- `flags & bit`. -/
def Has (flags bit : BufFlags) : Prop := flags &&& bit ≠ 0

instance (flags bit : BufFlags) : Decidable (Has flags bit) := inferInstanceAs (Decidable (_ ≠ _))

/-- File and block. -/
structure BufferTag where
  rnode : RelFileNode
  blockNum : BlockNumber
  deriving DecidableEq, Repr

/-- `CLEAR_BUFFERTAG`. -/
def clearBufferTag : BufferTag := ⟨⟨INVALID_OID, INVALID_OID⟩, INVALID_BLOCK_NUMBER⟩

def INVALID_DESCRIPTOR : Int := -3

structure BufferDesc where
  freeNext : Int
  freePrev : Int
  tag : BufferTag
  bufId : Int
  flags : BufFlags
  refcount : Nat
  deriving DecidableEq, Repr

/-! ## Flags -/

/-- A bit that was set is set. -/
theorem has_or {flags bit : BufFlags} (h : bit ≠ 0) : Has (flags ||| bit) bit := by
  have habsorb : (flags ||| bit) &&& bit = bit := by
    ext i hi
    simp only [BitVec.getElem_and, BitVec.getElem_or]
    cases flags[i] <;> cases bit[i] <;> rfl
  unfold Has
  rw [habsorb]
  exact h

/-- A bit that was cleared is clear. -/
theorem not_has_clear (flags bit : BufFlags) : ¬ Has (flags &&& ~~~bit) bit := by
  unfold Has
  rw [not_not]
  ext i
  simp

/-! ## The pool -/

/-- `BufferDescriptors`. -/
abbrev Descriptors := Int → BufferDesc

def setFreeNext (descs : Descriptors) (i next : Int) : Descriptors :=
  Function.update descs i { descs i with freeNext := next }

def setFreePrev (descs : Descriptors) (i prev : Int) : Descriptors :=
  Function.update descs i { descs i with freePrev := prev }

def setFlags (descs : Descriptors) (i : Int) (flags : BufFlags) : Descriptors :=
  Function.update descs i { descs i with flags := flags }

/-- A buffer as `init_buffer_pool` leaves it in its loop. -/
def freshDesc (i : Int) : BufferDesc where
  freeNext := i + 1
  freePrev := i - 1
  tag := clearBufferTag
  bufId := i
  flags := BM_DELETED ||| BM_FREE ||| BM_VALID
  refcount := 0

/-- The loop of `init_buffer_pool`, with `k` buffers left from `i` on. -/
def linkBuffers : Nat → Int → Descriptors → Descriptors
  | 0, _, descs => descs
  | k + 1, i, descs => linkBuffers k (i + 1) (Function.update descs i (freshDesc i))

/-- `init_freelist(true)`: the head, descriptor `n`, goes behind buffer `0`. -/
def initFreelist (n : Int) (descs : Descriptors) : Descriptors :=
  let descs := setFlags descs n (0#16 &&& ~~~(BM_VALID ||| BM_DELETED ||| BM_FREE))
  let descs := Function.update descs n { descs n with bufId := n }
  let descs := setFreeNext descs n (descs 0).freeNext
  let descs := setFreePrev descs n 0
  let descs := setFreePrev descs (descs n).freeNext n
  setFreeNext descs (descs n).freePrev n

/-- `init_buffer_pool` in the process that creates the pool of `n` buffers. -/
def initBufferPool (n : Nat) (descs : Descriptors) : Descriptors :=
  let descs := linkBuffers n 0 descs
  let descs := setFreePrev descs 0 (n - 1)
  let descs := setFreeNext descs (n - 1) 0
  initFreelist n descs

section
variable (descs : Descriptors) (i v : Int) (flags : BufFlags)

/-- Two descriptors that agree but for their links. -/
def SameButLinks (d d' : BufferDesc) : Prop :=
  d'.tag = d.tag ∧ d'.bufId = d.bufId ∧ d'.flags = d.flags ∧ d'.refcount = d.refcount

theorem sameButLinks_setFreeNext (j : Int) : SameButLinks (descs j) (setFreeNext descs i v j) := by
  unfold setFreeNext
  by_cases h : j = i
  · subst h
    rw [Function.update_self]
    exact ⟨rfl, rfl, rfl, rfl⟩
  · rw [Function.update_of_ne h]
    exact ⟨rfl, rfl, rfl, rfl⟩

theorem sameButLinks_setFreePrev (j : Int) : SameButLinks (descs j) (setFreePrev descs i v j) := by
  unfold setFreePrev
  by_cases h : j = i
  · subst h
    rw [Function.update_self]
    exact ⟨rfl, rfl, rfl, rfl⟩
  · rw [Function.update_of_ne h]
    exact ⟨rfl, rfl, rfl, rfl⟩

end

theorem SameButLinks.trans {d d' d'' : BufferDesc} (h : SameButLinks d d')
    (h' : SameButLinks d' d'') : SameButLinks d d'' :=
  ⟨h'.1.trans h.1, h'.2.1.trans h.2.1, h'.2.2.1.trans h.2.2.1, h'.2.2.2.trans h.2.2.2⟩

theorem linkBuffers_eq (k : Nat) (i : Int) (descs : Descriptors) (j : Int) :
    linkBuffers k i descs j = if i ≤ j ∧ j < i + k then freshDesc j else descs j := by
  induction k generalizing i descs with
  | zero =>
    rw [if_neg (by omega)]
    rfl
  | succ k ih =>
    unfold linkBuffers
    rw [ih]
    by_cases hj : j = i
    · subst hj
      rw [if_neg (by omega), if_pos (by omega), Function.update_self]
    · rw [Function.update_of_ne hj]
      exact if_congr (by omega) rfl rfl

/-- What the pool starts with, apart from the links. -/
theorem initBufferPool_desc {n : Nat} (descs : Descriptors) {i : Int} (h0 : 0 ≤ i) (hi : i < n) :
    SameButLinks (freshDesc i) (initBufferPool n descs i) := by
  have hfresh : linkBuffers n 0 descs i = freshDesc i := by
    rw [linkBuffers_eq, if_pos (by omega)]
  have hne : i ≠ n := by omega
  unfold initBufferPool initFreelist
  dsimp only
  refine .trans ?_ (sameButLinks_setFreeNext _ _ _ _)
  refine .trans ?_ (sameButLinks_setFreePrev _ _ _ _)
  refine .trans ?_ (sameButLinks_setFreePrev _ _ _ _)
  refine .trans ?_ (sameButLinks_setFreeNext _ _ _ _)
  unfold setFlags
  rw [Function.update_of_ne hne, Function.update_of_ne hne]
  refine .trans ?_ (sameButLinks_setFreeNext _ _ _ _)
  refine .trans ?_ (sameButLinks_setFreePrev _ _ _ _)
  rw [hfresh]
  exact ⟨rfl, rfl, rfl, rfl⟩

end PostgresV7.Buffer
