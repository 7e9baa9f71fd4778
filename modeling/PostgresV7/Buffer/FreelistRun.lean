import Mathlib.Data.Finset.Card
import Mathlib.Data.Finset.Range
import PostgresV7.Buffer.Freelist
import PostgresV7.Lib.Runs

/-!
# The free list over whole runs

Any number of backends pin and unpin buffers and take free ones, one call at a time.
What is on the ring, and in which order, is told by the calls so far.
-/

namespace PostgresV7.Buffer

open Rings Recency Chains Runs

/-! ## Calls -/

/-- A call. `released` tells that the buffer is not pinned any more. -/
inductive BufferCall where
  | pin (backend : Nat) (i : Int)
  | unpin (backend : Nat) (i : Int) (released : Bool)
  | get (result : Option Int)

/-- Buffers are put on the ring when they are released, and leave it when they are pinned
or taken. -/
def BufferCall.uses : BufferCall → List (Use Int)
  | .pin _ i => [.drop i]
  | .unpin _ i true => [.touch i]
  | .unpin _ _ false => []
  | .get (some i) => [.drop i]
  | .get none => []

/-- `k`, `k - 1` and so on down to `1`. -/
def countdown : Nat → List Int
  | 0 => []
  | k + 1 => ((k + 1 : Nat) : Int) :: countdown k

/-- The ring of a new pool: buffer `0` comes last. -/
def initUses (n : Nat) : List (Use Int) := (0 :: countdown (n - 1)).map .touch

/-- What happened to the ring of a pool of `n` buffers, the latest first. -/
def history (n : Nat) : List BufferCall → List (Use Int) :=
  List.foldl (fun h c => c.uses ++ h) (initUses n)

/-- `get_free_buffer` has taken the buffer. -/
def Taken (l : List BufferCall) (i : Int) : Prop := .get (some i) ∈ l

/-- On the ring that starts at the head. -/
def OnFreelist (n : Int) (descs : Descriptors) (i : Int) : Prop :=
  ∃ l, Freelist n descs l ∧ i ∈ l

/-- The calls of `backends` processes. -/
inductive BufferStep (n backends : Nat) : Pool → BufferCall → Pool → Prop where
  | pin {p p' : Pool} {b : Nat} {i : Int} : b < backends → 0 ≤ i → i < n →
      OnFreelist n p.descs i ∨ 0 < (p.descs i).refcount → pinBuffer b i p = some p' →
      BufferStep n backends p (.pin b i) p'
  | unpin {p p' : Pool} {b : Nat} {i : Int} : b < backends → 0 ≤ i → i < n →
      0 < p.privateRefCount b i → unpinBuffer n b i p = some p' →
      BufferStep n backends p (.unpin b i (decide ((p'.descs i).refcount = 0))) p'
  | get {p : Pool} {r : Option Int} {descs : Descriptors} : getFreeBuffer n p.descs = (r, descs) →
      BufferStep n backends p (.get r) { p with descs := descs }

/-! ## Pins -/

/-- How many of the backends hold a pin. -/
def pinners (backends : Nat) (counts : Nat → Int → Nat) (i : Int) : Nat :=
  ((Finset.range backends).filter fun b => 0 < counts b i).card

variable {n backends b : Nat} {p p' : Pool} {i : Int} {l : List BufferCall}

variable {counts : Nat → Int → Nat}

theorem setPrivate_self (counts : Nat → Int → Nat) (b : Nat) (i : Int) (c : Nat) :
    setPrivate counts b i c b i = c := by
  simp [setPrivate]

theorem setPrivate_of_ne {i j : Int} (counts : Nat → Int → Nat) (b b' : Nat) (c : Nat) (h : j ≠ i) :
    setPrivate counts b i c b' j = counts b' j := by
  by_cases hb : b' = b
  · subst hb
    simp [setPrivate, h]
  · simp [setPrivate, hb]

theorem setPrivate_of_ne_backend {b b' : Nat} (counts : Nat → Int → Nat) (i : Int) (c : Nat)
    (h : b' ≠ b) : setPrivate counts b i c b' i = counts b' i := by
  simp [setPrivate, h]

/-- The count changes, but a pin stays a pin. -/
theorem pinners_setPrivate {c : Nat} (h : 0 < c ↔ 0 < counts b i) :
    pinners backends (setPrivate counts b i c) i = pinners backends counts i := by
  unfold pinners
  refine congrArg Finset.card (Finset.filter_congr fun b' _ => ?_)
  by_cases hb : b' = b
  · rw [hb, setPrivate_self, h]
  · rw [setPrivate_of_ne_backend counts i c hb]

/-- The first pin of a backend. -/
theorem pinners_setPrivate_pos (hb : b < backends) (h : counts b i = 0) {c : Nat} (hc : 0 < c) :
    pinners backends (setPrivate counts b i c) i = pinners backends counts i + 1 := by
  unfold pinners
  have hins : ((Finset.range backends).filter fun b' => 0 < setPrivate counts b i c b' i) =
      insert b ((Finset.range backends).filter fun b' => 0 < counts b' i) := by
    ext b'
    rw [Finset.mem_filter, Finset.mem_insert, Finset.mem_filter, Finset.mem_range]
    by_cases hb' : b' = b
    · rw [hb', setPrivate_self]
      exact iff_of_true ⟨hb, hc⟩ (Or.inl rfl)
    · rw [setPrivate_of_ne_backend counts i c hb', or_iff_right hb']
  rw [hins, Finset.card_insert_of_notMem]
  rw [Finset.mem_filter, h]
  exact fun hf => absurd hf.2 (Nat.lt_irrefl 0)

/-- The last one. -/
theorem pinners_setPrivate_zero (hb : b < backends) (h : 0 < counts b i) :
    pinners backends (setPrivate counts b i 0) i + 1 = pinners backends counts i := by
  have hback : setPrivate (setPrivate counts b i 0) b i (counts b i) = counts := by
    funext b' j
    by_cases hj : j = i
    · rw [hj]
      by_cases hb' : b' = b
      · rw [hb', setPrivate_self]
      · rw [setPrivate_of_ne_backend _ i _ hb', setPrivate_of_ne_backend _ i _ hb']
    · rw [setPrivate_of_ne _ _ _ _ hj, setPrivate_of_ne _ _ _ _ hj]
  have hpos := pinners_setPrivate_pos hb (setPrivate_self counts b i 0) h
  rw [hback] at hpos
  exact hpos.symm

theorem pinners_eq_zero (h : pinners backends counts i = 0) (hb : b < backends) : counts b i = 0 := by
  have hempty := Finset.filter_eq_empty_iff.mp (Finset.card_eq_zero.mp h) (Finset.mem_range.mpr hb)
  exact Nat.eq_zero_of_not_pos hempty

/-! ## The invariant -/

/-- What the ring, the flags and the counts have to do with each other. -/
structure Sound (n backends : Nat) (p : Pool) (l : List BufferCall) : Prop where
  ring : Freelist n p.descs (order (history n l))
  range : ∀ i ∈ order (history n l), 0 ≤ i ∧ i < n
  bufId : ∀ i : Int, 0 ≤ i → i < n → (p.descs i).bufId = i
  member : ∀ i : Int, 0 ≤ i → i < n →
    (i ∈ order (history n l) ↔ (p.descs i).refcount = 0 ∧ ¬ Taken l i)
  free : ∀ i : Int, 0 ≤ i → i < n → (Has (p.descs i).flags BM_FREE ↔ i ∈ order (history n l))
  unlinked : ∀ i : Int, 0 ≤ i → i < n → i ∉ order (history n l) →
    nexts p.descs i = INVALID_DESCRIPTOR ∧ prevs p.descs i = INVALID_DESCRIPTOR
  refcount : ∀ i : Int, 0 ≤ i → i < n →
    (p.descs i).refcount = pinners backends p.privateRefCount i
  taken : ∀ i : Int, 0 ≤ i → i < n → Taken l i → (p.descs i).refcount = 0

/-- A call that is about one buffer: what has to hold of it afterwards. -/
theorem Sound.change (h : Sound n backends p l) {l' : List BufferCall} {flags : BufFlags}
    {count : Nat} (h0 : 0 ≤ i) (hi : i < n)
    (hring : Freelist n p'.descs (order (history n l')))
    (hothers : ∀ j, j ≠ i → rest (p'.descs j) = rest (p.descs j) ∧
      (∀ b, p'.privateRefCount b j = p.privateRefCount b j) ∧ (Taken l' j ↔ Taken l j) ∧
      (j ∈ order (history n l') ↔ j ∈ order (history n l)))
    (hlinks : ∀ j : Int, j ≠ i → 0 ≤ j → j < n → j ∉ order (history n l) →
      nexts p'.descs j = nexts p.descs j ∧ prevs p'.descs j = prevs p.descs j)
    (hself : rest (p'.descs i) = (i, flags, count))
    (hmember : i ∈ order (history n l') ↔ count = 0 ∧ ¬ Taken l' i)
    (hfree : Has flags BM_FREE ↔ i ∈ order (history n l'))
    (hunlinked : i ∉ order (history n l') →
      nexts p'.descs i = INVALID_DESCRIPTOR ∧ prevs p'.descs i = INVALID_DESCRIPTOR)
    (hcount : count = pinners backends p'.privateRefCount i) (htaken : Taken l' i → count = 0) :
    Sound n backends p' l' where
  ring := hring
  range j hj := by
    by_cases hji : j = i
    · exact hji ▸ ⟨h0, hi⟩
    · exact h.range j ((hothers j hji).2.2.2.mp hj)
  bufId j hj0 hj := by
    by_cases hji : j = i
    · rw [hji, bufId_eq, hself]
    · rw [bufId_eq, (hothers j hji).1]
      exact h.bufId j hj0 hj
  member j hj0 hj := by
    by_cases hji : j = i
    · rw [hji, refcount_eq, hself]
      exact hmember
    · obtain ⟨hrest, -, htaken, horder⟩ := hothers j hji
      rw [horder, refcount_eq, hrest, htaken]
      exact h.member j hj0 hj
  free j hj0 hj := by
    by_cases hji : j = i
    · rw [hji, flags_eq, hself]
      exact hfree
    · obtain ⟨hrest, -, -, horder⟩ := hothers j hji
      rw [horder, flags_eq, hrest]
      exact h.free j hj0 hj
  unlinked j hj0 hj hnot := by
    by_cases hji : j = i
    · rw [hji] at hnot ⊢
      exact hunlinked hnot
    · have hnot' := mt (hothers j hji).2.2.2.mpr hnot
      obtain ⟨hnext, hprev⟩ := hlinks j hji hj0 hj hnot'
      rw [hnext, hprev]
      exact h.unlinked j hj0 hj hnot'
  refcount j hj0 hj := by
    by_cases hji : j = i
    · rw [hji, refcount_eq, hself]
      exact hcount
    · obtain ⟨hrest, hpriv, -⟩ := hothers j hji
      have hsame : pinners backends p'.privateRefCount j = pinners backends p.privateRefCount j := by
        unfold pinners
        simp only [hpriv]
      rw [hsame, refcount_eq, hrest]
      exact h.refcount j hj0 hj
  taken j hj0 hj ht := by
    by_cases hji : j = i
    · rw [hji] at ht ⊢
      rw [refcount_eq, hself]
      exact htaken ht
    · obtain ⟨hrest, -, htk, -⟩ := hothers j hji
      rw [refcount_eq, hrest]
      exact h.taken j hj0 hj (htk.mp ht)

/-! ## One call -/

theorem history_append (n : Nat) (l : List BufferCall) (c : BufferCall) :
    history n (l ++ [c]) = c.uses ++ history n l := by
  unfold history
  rw [List.foldl_append]
  rfl

theorem taken_append {c : BufferCall} (h : c ≠ .get (some i)) : Taken (l ++ [c]) i ↔ Taken l i := by
  unfold Taken
  rw [List.mem_append, List.mem_singleton]
  exact or_iff_left (Ne.symm h)

theorem order_drop (n : Nat) {l : List BufferCall} {c : BufferCall} (h : c.uses = [.drop i]) :
    order (history n (l ++ [c])) = (order (history n l)).erase i := by
  rw [history_append, h]
  rfl

theorem order_touch (n : Nat) {l : List BufferCall} {c : BufferCall} (h : c.uses = [.touch i]) :
    order (history n (l ++ [c])) = i :: (order (history n l)).erase i := by
  rw [history_append, h]
  rfl

theorem order_same (n : Nat) {l : List BufferCall} {c : BufferCall} (h : c.uses = []) :
    order (history n (l ++ [c])) = order (history n l) := by
  rw [history_append, h]
  rfl

theorem Sound.mem_of_onFreelist (h : Sound n backends p l) (hi : OnFreelist n p.descs i) :
    i ∈ order (history n l) := by
  obtain ⟨l', hring, hm⟩ := hi
  rw [Chain.unique h.ring.forth hring.forth]
  exact hm

theorem Sound.isInQueue (h : Sound n backends p l) (hi : i ∈ order (history n l)) :
    IsInQueue (p.descs i) := by
  obtain ⟨h0, hn⟩ := h.range i hi
  have hpos : ∀ j ∈ (n : Int) :: order (history n l), j ≠ INVALID_DESCRIPTOR := by
    intro j hj
    have hj0 : 0 ≤ j := by
      rcases List.mem_cons.mp hj with rfl | hj
      · exact Int.natCast_nonneg n
      · exact (h.range j hj).1
    unfold INVALID_DESCRIPTOR
    omega
  exact ⟨hpos _ (h.ring.prev_mem hi), hpos _ (h.ring.next_mem hi), (h.free i h0 hn).mpr hi⟩

theorem Sound.notInQueue (h : Sound n backends p l) (h0 : 0 ≤ i) (hn : i < n)
    (hi : i ∉ order (history n l)) : NotInQueue (p.descs i) := by
  obtain ⟨hnext, hprev⟩ := h.unlinked i h0 hn hi
  exact ⟨hnext, hprev, mt (h.free i h0 hn).mp hi⟩

theorem setRefcount_eq_self (descs : Descriptors) (i : Int) :
    setRefcount descs i (descs i).refcount = descs := Function.update_eq_self i descs

/-- Other counts for a buffer that stays pinned. -/
theorem Sound.recount (h : Sound n backends p l) (l' : List BufferCall) (counts : Nat → Int → Nat)
    {count : Nat} (h0 : 0 ≤ i) (hi : i < n) (horder : order (history n l') = order (history n l))
    (htaken : ∀ j, Taken l' j ↔ Taken l j) (hpinned : (p.descs i).refcount ≠ 0) (hpos : count ≠ 0)
    (hpriv : ∀ j, j ≠ i → ∀ b, counts b j = p.privateRefCount b j)
    (hcount : count = pinners backends counts i) :
    Sound n backends ⟨setRefcount p.descs i count, counts⟩ l' := by
  have hoff : i ∉ order (history n l) := fun hm => hpinned ((h.member i h0 hi).mp hm).1
  have hself : rest (setRefcount p.descs i count i) = (i, (p.descs i).flags, count) := by
    rw [rest_setRefcount, if_pos rfl, h.bufId i h0 hi]
  refine h.change h0 hi ?_ (fun j hj => ⟨?_, hpriv j hj, htaken j, by rw [horder]⟩)
    (fun j _ _ _ _ => by simp) hself ?_ ?_ (fun _ => ?_) hcount
    fun ht => absurd (h.taken i h0 hi ((htaken i).mp ht)) hpinned
  · rw [horder]
    have hring := h.ring
    unfold Freelist at hring ⊢
    simpa using hring
  · exact (rest_setRefcount p.descs i count j).trans (if_neg hj)
  · rw [horder]
    exact iff_of_false hoff fun hf => hpos hf.1
  · rw [horder]
    exact h.free i h0 hi
  · simpa using h.unlinked i h0 hi hoff

/-- A buffer that is pinned leaves the ring, or was not on it. -/
theorem Sound.pin (h : Sound n backends p l) (hb : b < backends) (h0 : 0 ≤ i) (hi : i < n)
    (hready : OnFreelist n p.descs i ∨ 0 < (p.descs i).refcount) :
    ∃ p', pinBuffer b i p = some p' ∧ Sound n backends p' (l ++ [.pin b i]) := by
  have hid := h.bufId i h0 hi
  have horder : order (history n (l ++ [.pin b i])) = (order (history n l)).erase i :=
    order_drop n rfl
  have htaken : ∀ j, Taken (l ++ [.pin b i]) j ↔ Taken l j := fun j => taken_append (nomatch ·)
  have hmem : ∀ j, j ≠ i → (j ∈ (order (history n l)).erase i ↔ j ∈ order (history n l)) :=
    fun j hj => List.mem_erase_of_ne hj
  have hnot : i ∉ (order (history n l)).erase i := (order_nodup _).not_mem_erase
  unfold pinBuffer
  rw [hid]
  by_cases hzero : (p.descs i).refcount = 0
  · have hon : i ∈ order (history n l) :=
      hready.elim h.mem_of_onFreelist fun hpos => absurd hzero (Nat.ne_of_gt hpos)
    have hcount : p.privateRefCount b i = 0 :=
      pinners_eq_zero ((h.refcount i h0 hi).symm.trans hzero) hb
    rw [if_pos hzero, if_pos (h.isInQueue hon)]
    dsimp only
    rw [if_pos hcount, hcount]
    have hrest : ∀ j, rest (setRefcount (unlinkBuffer i p.descs) i
        ((unlinkBuffer i p.descs i).refcount + 1) j) =
        if j = i then (i, (p.descs i).flags &&& ~~~BM_FREE, 1) else rest (p.descs j) := by
      intro j
      rw [rest_setRefcount, bufId_eq, flags_eq, refcount_eq, unlinkBuffer_rest, unlinkBuffer_rest]
      by_cases hj : j = i
      · rw [if_pos hj, if_pos hj, if_pos rfl, if_pos hj, hj, hid, hzero]
      · rw [if_neg hj, if_neg hj, if_neg hj]
    refine ⟨_, rfl, h.change h0 hi ?_ (fun j hj => ⟨?_, ?_, htaken j, ?_⟩) (fun j hj hj0 hjn hjo => ?_)
      ((hrest i).trans (if_pos rfl)) ?_ ?_ (fun _ => ?_) ?_ fun ht => ?_⟩
    · rw [horder]
      have hring := unlinkBuffer_ring h.ring hon
      unfold Freelist at hring ⊢
      simpa using hring
    · exact (hrest j).trans (if_neg hj)
    · exact fun b' => setPrivate_of_ne _ b b' _ hj
    · rw [horder]
      exact hmem j hj
    · have hout : j ∉ (n : Int) :: order (history n l) := by
        rw [List.mem_cons, not_or]
        exact ⟨by omega, hjo⟩
      have hframe := unlinkBuffer_frame h.ring hon hout
      simpa using hframe
    · rw [horder]
      exact iff_of_false hnot fun hf => absurd hf.1 Nat.one_ne_zero
    · rw [horder]
      exact iff_of_false (not_has_clear _ _) hnot
    · obtain ⟨hnext, hprev, -⟩ := unlinkBuffer_self p.descs i
      rw [freeNext_eq] at hnext
      rw [freePrev_eq] at hprev
      simpa using And.intro hnext hprev
    · have hpinners := h.refcount i h0 hi
      rw [hzero] at hpinners
      rw [pinners_setPrivate_pos hb hcount Nat.one_pos, ← hpinners]
    · exact absurd ((htaken i).mp ht) ((h.member i h0 hi).mp hon).2
  · have hoff : i ∉ order (history n l) := fun hm => hzero ((h.member i h0 hi).mp hm).1
    rw [if_neg hzero, if_pos (h.notInQueue h0 hi hoff)]
    rw [List.erase_of_not_mem hoff] at horder
    refine ⟨_, rfl, ?_⟩
    have hpriv : ∀ j, j ≠ i → ∀ b', setPrivate p.privateRefCount b i (p.privateRefCount b i + 1) b' j =
        p.privateRefCount b' j := fun j hj b' => setPrivate_of_ne _ b b' _ hj
    have hpinners := h.refcount i h0 hi
    split
    · rename_i hcount
      refine h.recount _ _ h0 hi horder htaken hzero (Nat.succ_ne_zero _) hpriv ?_
      rw [pinners_setPrivate_pos hb hcount (Nat.succ_pos _), hpinners]
    · rename_i hcount
      have hsame := h.recount _ _ h0 hi horder htaken hzero hzero hpriv (by
        rw [pinners_setPrivate (iff_of_true (Nat.succ_pos _) (Nat.pos_of_ne_zero hcount)), hpinners])
      rwa [setRefcount_eq_self] at hsame

/-- The last pin of a buffer is gone, and the buffer goes to the end of the ring. -/
theorem Sound.release (h : Sound n backends p l) (b : Nat) (counts : Nat → Int → Nat) {count : Nat}
    (h0 : 0 ≤ i) (hi : i < n) (hpinned : (p.descs i).refcount ≠ 0) (hzero : count = 0)
    (hpriv : ∀ j, j ≠ i → ∀ b, counts b j = p.privateRefCount b j)
    (hcount : pinners backends counts i = 0) :
    ∃ p', (do
      let descs ← addBufferToFreelist n i (setRefcount p.descs i count)
      some (Pool.mk (setFlags descs i ((descs i).flags ||| BM_FREE)) counts)) = some p' ∧
      Sound n backends p' (l ++ [.unpin b i (decide ((p'.descs i).refcount = 0))]) := by
  have hoff : i ∉ order (history n l) := fun hm => hpinned ((h.member i h0 hi).mp hm).1
  have hne : i ≠ n := by omega
  have hself : rest (setRefcount p.descs i count i) = (i, (p.descs i).flags, count) := by
    rw [rest_setRefcount, if_pos rfl, h.bufId i h0 hi]
  have hring : Freelist n (setRefcount p.descs i count) (order (history n l)) := by
    have hring := h.ring
    unfold Freelist at hring ⊢
    simpa using hring
  have hnot : NotInQueue (setRefcount p.descs i count i) := by
    obtain ⟨hnext, hprev, hflag⟩ := h.notInQueue h0 hi hoff
    rw [freeNext_eq] at hnext
    rw [freePrev_eq] at hprev
    unfold NotInQueue
    rw [freeNext_eq, freePrev_eq, flags_eq, hself, nexts_setRefcount, prevs_setRefcount]
    exact ⟨hnext, hprev, hflag⟩
  obtain ⟨descs, hadd, hring', hrest, hlinks⟩ := addBufferToFreelist_spec hring hoff hne
    (congrArg Prod.fst hself) hnot
  rw [hadd]
  refine ⟨_, rfl, ?_⟩
  have hself' : rest (setFlags descs i ((descs i).flags ||| BM_FREE) i) =
      (i, (p.descs i).flags ||| BM_FREE, count) := by
    rw [rest_setFlags, if_pos rfl, bufId_eq, flags_eq, refcount_eq, hrest, hself]
  dsimp only
  rw [refcount_eq, hself', decide_eq_true hzero]
  have horder : order (history n (l ++ [.unpin b i true])) = i :: order (history n l) := by
    rw [order_touch n rfl, List.erase_of_not_mem hoff]
  have htaken : ∀ j, Taken (l ++ [.unpin b i true]) j ↔ Taken l j := fun j => taken_append (nomatch ·)
  have hon : i ∈ order (history n (l ++ [.unpin b i true])) := by
    rw [horder]
    exact List.mem_cons_self
  refine h.change h0 hi ?_ (fun j hj => ⟨?_, hpriv j hj, htaken j, ?_⟩) (fun j hj hj0 hjn hjo => ?_)
    hself' ?_ ?_ (fun hf => absurd hon hf) ?_ fun _ => hzero
  · rw [horder]
    unfold Freelist at hring' ⊢
    simpa using hring'
  · exact (rest_setFlags descs i _ j).trans ((if_neg hj).trans
      ((hrest j).trans ((rest_setRefcount p.descs i count j).trans (if_neg hj))))
  · rw [horder, List.mem_cons, or_iff_right hj]
  · have hout : j ∉ (n : Int) :: i :: order (history n l) := by
      rw [List.mem_cons, List.mem_cons, not_or, not_or]
      exact ⟨by omega, hj, hjo⟩
    simpa using hlinks j hout
  · refine iff_of_true hon ⟨hzero, ?_⟩
    rw [htaken]
    exact fun ht => hpinned (h.taken i h0 hi ht)
  · exact iff_of_true (has_or (by decide)) hon
  · rw [hzero, hcount]

/-- A buffer that is unpinned for the last time goes to the end of the ring. -/
theorem Sound.unpin (h : Sound n backends p l) (hb : b < backends) (h0 : 0 ≤ i) (hi : i < n)
    (hcount : 0 < p.privateRefCount b i) :
    ∃ p', unpinBuffer n b i p = some p' ∧
      Sound n backends p' (l ++ [.unpin b i (decide ((p'.descs i).refcount = 0))]) := by
  have hid := h.bufId i h0 hi
  have hpinners := h.refcount i h0 hi
  have hzero : (p.descs i).refcount ≠ 0 := fun hf =>
    absurd (pinners_eq_zero (hpinners.symm.trans hf) hb) (Nat.ne_of_gt hcount)
  have hpriv : ∀ j, j ≠ i → ∀ b', setPrivate p.privateRefCount b i (p.privateRefCount b i - 1) b' j =
      p.privateRefCount b' j := fun j hj b' => setPrivate_of_ne _ b b' _ hj
  have htaken : ∀ r j, Taken (l ++ [.unpin b i r]) j ↔ Taken l j := fun r j => taken_append (nomatch ·)
  have hoff : i ∉ order (history n l) := fun hm => hzero ((h.member i h0 hi).mp hm).1
  unfold unpinBuffer
  dsimp only
  rw [hid, if_neg (not_or.mpr ⟨hzero, Nat.ne_of_gt hcount⟩)]
  by_cases hlast : p.privateRefCount b i - 1 = 0
  · rw [if_pos hlast]
    have hleft := pinners_setPrivate_zero hb hcount
    rw [← hlast, ← hpinners] at hleft
    have hself : (setRefcount p.descs i ((p.descs i).refcount - 1) i).refcount =
        (p.descs i).refcount - 1 := by
      rw [refcount_eq, rest_setRefcount, if_pos rfl]
    rw [hself]
    by_cases hfree : (p.descs i).refcount - 1 = 0
    · rw [if_pos hfree]
      exact h.release b _ h0 hi hzero hfree hpriv (by omega)
    · rw [if_neg hfree]
      refine ⟨_, rfl, ?_⟩
      dsimp only
      rw [hself, decide_eq_false hfree]
      exact h.recount _ _ h0 hi (order_same n rfl) (htaken false) hzero hfree hpriv (by omega)
  · rw [if_neg hlast, if_neg hzero]
    refine ⟨_, rfl, ?_⟩
    dsimp only
    rw [decide_eq_false hzero]
    have hsame := h.recount (l ++ [.unpin b i false]) _ h0 hi (order_same n rfl) (htaken false) hzero
      hzero hpriv (by rw [pinners_setPrivate (iff_of_true (Nat.pos_of_ne_zero hlast) hcount), hpinners])
    rwa [setRefcount_eq_self] at hsame

/-- The buffer that is taken is the last of the order. -/
theorem Sound.get (h : Sound n backends p l) :
    Sound n backends ⟨(getFreeBuffer n p.descs).2, p.privateRefCount⟩
      (l ++ [.get (getFreeBuffer n p.descs).1]) := by
  rw [getFreeBuffer_eq h.ring]
  cases hlast : (order (history n l)).getLast? with
  | none =>
    have htaken : ∀ j, Taken (l ++ [.get none]) j ↔ Taken l j := fun j => taken_append (nomatch ·)
    have horder : order (history n (l ++ [.get none])) = order (history n l) := order_same n rfl
    dsimp only
    refine ⟨?_, ?_, h.bufId, ?_, ?_, ?_, h.refcount, ?_⟩
    · rw [horder]
      exact h.ring
    · rw [horder]
      exact h.range
    · simp only [horder, htaken]
      exact h.member
    · rw [horder]
      exact h.free
    · rw [horder]
      exact h.unlinked
    · simp only [htaken]
      exact h.taken
  | some i =>
    have hon : i ∈ order (history n l) := List.mem_of_getLast? hlast
    obtain ⟨h0, hi⟩ := h.range i hon
    have hzero := ((h.member i h0 hi).mp hon).1
    have horder : order (history n (l ++ [.get (some i)])) = (order (history n l)).erase i :=
      order_drop n rfl
    have hnot : i ∉ (order (history n l)).erase i := (order_nodup _).not_mem_erase
    have hself : rest (unlinkBuffer i p.descs i) =
        (i, (p.descs i).flags &&& ~~~BM_FREE, (p.descs i).refcount) := by
      rw [unlinkBuffer_rest, if_pos rfl, h.bufId i h0 hi]
    dsimp only
    refine h.change h0 hi ?_ (fun j hj => ⟨?_, fun _ => rfl, ?_, ?_⟩) (fun j hj hj0 hjn hjo => ?_)
      hself ?_ ?_ (fun _ => ?_) (h.refcount i h0 hi) fun _ => hzero
    · rw [horder]
      exact unlinkBuffer_ring h.ring hon
    · exact (unlinkBuffer_rest p.descs i j).trans (if_neg hj)
    · exact taken_append fun heq => hj (Option.some.inj (BufferCall.get.inj heq)).symm
    · rw [horder]
      exact List.mem_erase_of_ne hj
    · refine unlinkBuffer_frame h.ring hon ?_
      rw [List.mem_cons, not_or]
      exact ⟨by omega, hjo⟩
    · rw [horder]
      exact iff_of_false hnot fun hf => hf.2 (List.mem_append_right l List.mem_cons_self)
    · rw [horder]
      exact iff_of_false (not_has_clear _ _) hnot
    · obtain ⟨hnext, hprev, -⟩ := unlinkBuffer_self p.descs i
      exact ⟨hnext, hprev⟩

theorem Sound.step {c : BufferCall} (h : Sound n backends p l) (hs : BufferStep n backends p c p') :
    Sound n backends p' (l ++ [c]) := by
  cases hs with
  | pin hb h0 hi hready hrun =>
    obtain ⟨p₁, hrun₁, hsound⟩ := h.pin hb h0 hi hready
    obtain rfl := Option.some.inj (hrun₁.symm.trans hrun)
    exact hsound
  | unpin hb h0 hi hcount hrun =>
    obtain ⟨p₁, hrun₁, hsound⟩ := h.unpin hb h0 hi hcount
    obtain rfl := Option.some.inj (hrun₁.symm.trans hrun)
    exact hsound
  | get hrun =>
    have hsound := h.get
    rw [hrun] at hsound
    exact hsound

/-! ## A new pool -/

theorem nexts_update (descs : Descriptors) (i : Int) (d : BufferDesc) :
    nexts (Function.update descs i d) = Function.update (nexts descs) i d.freeNext := by
  funext j
  by_cases h : j = i <;> simp [nexts, h]

theorem prevs_update (descs : Descriptors) (i : Int) (d : BufferDesc) :
    prevs (Function.update descs i d) = Function.update (prevs descs) i d.freePrev := by
  funext j
  by_cases h : j = i <;> simp [prevs, h]

/-- The buffer behind the head. -/
def firstFree (n : Nat) : Int := if n = 1 then 0 else 1

/-- The links of a new pool. -/
theorem initBufferPool_links (hn : 0 < n) (descs : Descriptors) {j : Int} (h0 : 0 ≤ j) (hj : j ≤ n) :
    nexts (initBufferPool n descs) j =
      (if j = 0 then (n : Int) else if j = n then firstFree n else if j = n - 1 then 0 else j + 1) ∧
    prevs (initBufferPool n descs) j =
      (if j = firstFree n then (n : Int) else if j = n then 0 else if j = 0 then n - 1 else j - 1) := by
  have hlink : ∀ k : Int, 0 ≤ k → k < n → nexts (linkBuffers n 0 descs) k = k + 1 ∧
      prevs (linkBuffers n 0 descs) k = k - 1 := by
    intro k hk0 hk
    unfold nexts prevs
    rw [linkBuffers_eq, if_pos ⟨hk0, by omega⟩]
    exact ⟨rfl, rfl⟩
  have hfirst : Function.update (nexts (linkBuffers n 0 descs)) ((n : Int) - 1) 0 0 = firstFree n := by
    unfold firstFree
    by_cases h1 : n = 1
    · subst h1
      simp
    · rw [Function.update_of_ne (by omega), (hlink 0 (Int.le_refl 0) (by omega)).1, if_neg h1]
      rfl
  have hne0 : (n : Int) ≠ 0 := by omega
  have hfn : firstFree n ≠ n := by
    unfold firstFree
    split <;> omega
  unfold initBufferPool initFreelist
  simp only [freeNext_eq, freePrev_eq, nexts_update, prevs_update, nexts_setFreeNext,
    prevs_setFreeNext, nexts_setFreePrev, prevs_setFreePrev, nexts_setFlags, prevs_setFlags,
    Function.update_self, Function.update_of_ne hne0.symm, Function.update_eq_self, hfirst,
    Function.update_of_ne hfn.symm]
  simp only [Function.update_apply]
  constructor
  · by_cases hj0 : j = 0
    · rw [if_pos hj0, if_pos hj0]
    · rw [if_neg hj0, if_neg hj0]
      by_cases hjn : j = n
      · rw [if_pos hjn, if_pos hjn]
      · rw [if_neg hjn, if_neg hjn, (hlink j h0 (by omega)).1]
  · by_cases hjf : j = firstFree n
    · rw [if_pos hjf, if_pos hjf]
    · rw [if_neg hjf, if_neg hjf]
      by_cases hjn : j = n
      · rw [if_pos hjn, if_pos hjn]
      · rw [if_neg hjn, if_neg hjn, (hlink j h0 (by omega)).2]

theorem mem_countdown {k : Nat} {j : Int} : j ∈ countdown k ↔ 1 ≤ j ∧ j ≤ k := by
  induction k with
  | zero => exact iff_of_false List.not_mem_nil (by omega)
  | succ k ih =>
    rw [countdown, List.mem_cons, ih]
    omega

theorem countdown_nodup (k : Nat) : (0 :: countdown k : List Int).Nodup := by
  refine List.nodup_cons.mpr ⟨fun hm => absurd (mem_countdown.mp hm).1 (by decide), ?_⟩
  induction k with
  | zero => exact List.nodup_nil
  | succ k ih =>
    refine List.nodup_cons.mpr ⟨fun hm => ?_, ih⟩
    have hle := (mem_countdown.mp hm).2
    omega

/-- Links down to `1`, and from there to the head. -/
theorem chain_countdown {links : Int → Int} {k : Nat} {c : Int} (hk : k < n)
    (hc : links c = if k = 0 then (n : Int) else k)
    (hdown : ∀ j : Int, 1 ≤ j → j ≤ k → links j = if j = 1 then (n : Int) else j - 1) :
    Chain id (n : Int) links c (countdown k) := by
  induction k generalizing c with
  | zero => exact hc
  | succ k ih =>
    refine ⟨hc, by omega, ih (by omega) ?_ fun j h1 hj => hdown j h1 (by omega)⟩
    rw [id_eq, hdown _ (by omega) (Int.le_refl _)]
    by_cases hzero : k = 0
    · rw [if_pos hzero, if_pos (by omega)]
    · rw [if_neg hzero, if_neg (by omega)]
      omega

theorem initBufferPool_ring (hn : 0 < n) (descs : Descriptors) :
    Freelist n (initBufferPool n descs) (0 :: countdown (n - 1)) := by
  have hlinks := fun j => initBufferPool_links hn descs (j := j)
  have hfirst : firstFree n = 0 ∧ n = 1 ∨ firstFree n = 1 ∧ n ≠ 1 := by
    unfold firstFree
    by_cases h1 : n = 1
    · exact Or.inl ⟨if_pos h1, h1⟩
    · exact Or.inr ⟨if_neg h1, h1⟩
  refine Ring.of_forth ⟨?_, by omega, chain_countdown (by omega) ?_ fun j h1 hj => ?_⟩ fun x hx => ?_
  · rw [(hlinks n (by omega) (Int.le_refl _)).2, if_neg (by omega), if_pos rfl]
  · rw [id_eq, (hlinks 0 (Int.le_refl 0) (by omega)).2]
    split_ifs <;> omega
  · rw [(hlinks j (by omega) (by omega)).2]
    split_ifs <;> omega
  · have hrange : 0 ≤ x ∧ x ≤ n := by
      rw [List.mem_cons, List.mem_cons, mem_countdown] at hx
      omega
    have hprev := (hlinks x hrange.1 hrange.2).2
    have hp : 0 ≤ prevs (initBufferPool n descs) x ∧ prevs (initBufferPool n descs) x ≤ n := by
      rw [hprev]
      split_ifs <;> omega
    rw [(hlinks _ hp.1 hp.2).1, hprev]
    split_ifs <;> omega

/-- Nobody holds a pin on a buffer of a new pool, and all buffers are on the ring. -/
theorem Sound.init (hn : 0 < n) (backends : Nat) (descs : Descriptors) :
    Sound n backends ⟨initBufferPool n descs, fun _ _ => 0⟩ [] := by
  have horder : order (history n []) = 0 :: countdown (n - 1) := order_map_touch (countdown_nodup _)
  have hmem : ∀ i : Int, i ∈ order (history n []) ↔ 0 ≤ i ∧ i < n := by
    intro i
    rw [horder, List.mem_cons, mem_countdown]
    omega
  have hnone : ∀ i, ¬ Taken [] i := fun i hf => List.not_mem_nil hf
  refine ⟨?_, fun i hi => (hmem i).mp hi, fun i h0 hi => (initBufferPool_desc descs h0 hi).2.1,
    fun i h0 hi => ?_, fun i h0 hi => ?_, fun i h0 hi hno => absurd ((hmem i).mpr ⟨h0, hi⟩) hno,
    fun i h0 hi => ?_, fun i _ _ ht => absurd ht (hnone i)⟩
  · rw [horder]
    exact initBufferPool_ring hn descs
  · exact iff_of_true ((hmem i).mpr ⟨h0, hi⟩) ⟨(initBufferPool_desc descs h0 hi).2.2.2, hnone i⟩
  · dsimp only
    rw [(initBufferPool_desc descs h0 hi).2.2.1]
    have hset : Has (BM_DELETED ||| BM_FREE ||| BM_VALID) BM_FREE := by decide
    exact iff_of_true hset ((hmem i).mpr ⟨h0, hi⟩)
  · dsimp only
    rw [(initBufferPool_desc descs h0 hi).2.2.2]
    simp [pinners, freshDesc]

/-! ## Runs -/

/-- In every run the ring is whole and holds exactly the buffers that nobody has pinned
and that were not taken, those with `BM_FREE`; a buffer's count is the number of backends
that hold a pin. No assertion fails, and `get_free_buffer` returns the buffer that was
put on the ring before all others, or `NULL` if there is none. -/
theorem freelist_run (hn : 0 < n) {descs : Descriptors} {l : List BufferCall}
    (hrun : Run (BufferStep n backends) ⟨initBufferPool n descs, fun _ _ => 0⟩ l p) :
    Freelist n p.descs (order (history n l)) ∧
    (∀ i ∈ order (history n l), 0 ≤ i ∧ i < n) ∧
    (∀ i : Int, 0 ≤ i → i < n →
      (i ∈ order (history n l) ↔ (p.descs i).refcount = 0 ∧ ¬ Taken l i) ∧
      (Has (p.descs i).flags BM_FREE ↔ i ∈ order (history n l)) ∧
      (p.descs i).refcount = pinners backends p.privateRefCount i) ∧
    ((getFreeBuffer n p.descs).1 = none ↔ order (history n l) = []) ∧
    (∀ i, (getFreeBuffer n p.descs).1 = some i → i ∈ order (history n l) ∧
      ∀ j ∈ order (history n l), j ≠ i →
        lastTouch (history n l) i < lastTouch (history n l) j) ∧
    (∀ b < backends, ∀ i : Int, 0 ≤ i → i < n →
      (OnFreelist n p.descs i ∨ 0 < (p.descs i).refcount → ∃ p', pinBuffer b i p = some p') ∧
      (0 < p.privateRefCount b i → ∃ p', unpinBuffer n b i p = some p')) := by
  have h : Sound n backends p l := by
    have hfold := hrun.foldl (R := fun p l => Sound n backends p l) (f := fun l c => l ++ [c])
      (fun _ _ _ _ hR hs => hR.step hs) (Sound.init hn backends descs)
    rwa [List.foldl_append_eq_append, List.nil_append, ← List.flatMap_def, List.flatMap_singleton'] at hfold
  have hget := getFreeBuffer_eq h.ring
  refine ⟨h.ring, h.range, fun i h0 hi => ⟨h.member i h0 hi, h.free i h0 hi, h.refcount i h0 hi⟩, ?_,
    fun i hi => ?_, fun b hb i h0 hi => ⟨fun hready => ?_, fun hcount => ?_⟩⟩
  · rw [hget, ← List.getLast?_eq_none_iff]
    cases (order (history n l)).getLast? with
    | none => exact iff_of_true rfl rfl
    | some i => exact iff_of_false (nomatch ·) (nomatch ·)
  · have hlast : (order (history n l)).getLast? = some i := by
      rw [hget] at hi
      cases hq : (order (history n l)).getLast? with
      | none =>
        rw [hq] at hi
        cases hi
      | some j =>
        rw [hq] at hi
        exact hi
    exact ⟨List.mem_of_getLast? hlast, fun j hj hne =>
      lastTouch_lt_of_getLast hlast (mem_order.mp hj) hne⟩
  · obtain ⟨p', hp, -⟩ := h.pin hb h0 hi hready
    exact ⟨p', hp⟩
  · obtain ⟨p', hp, -⟩ := h.unpin hb h0 hi hcount
    exact ⟨p', hp⟩

/-- One backend pins the first buffer of the ring and unpins it, and the other buffer is
taken. -/
theorem freelist_run_example : ∃ p, Run (BufferStep 2 1)
      ⟨initBufferPool 2 fun _ => freshDesc 0, fun _ _ => 0⟩
      [.pin 0 1, .unpin 0 1 true, .get (some 0)] p ∧
    Freelist 2 p.descs [1] ∧ (p.descs 1).refcount = pinners 1 p.privateRefCount 1 := by
  have hon : OnFreelist 2 (initBufferPool 2 fun _ => freshDesc 0) 1 :=
    ⟨_, initBufferPool_ring (by decide) _, by decide⟩
  obtain ⟨p₁, hpin⟩ : ∃ p, pinBuffer 0 1 ⟨initBufferPool 2 fun _ => freshDesc 0, fun _ _ => 0⟩ = some p :=
    ⟨_, rfl⟩
  have h₁ : ∃ p, unpinBuffer 2 0 1 p₁ = some p ∧ (p.descs 1).refcount = 0 ∧
      0 < p₁.privateRefCount 0 1 ∧ (getFreeBuffer 2 p.descs).1 = some 0 := by
    obtain rfl := Option.some.inj hpin
    exact ⟨_, rfl, by decide, by decide, by decide⟩
  obtain ⟨p₂, hunpin, hzero, hcount, hget⟩ := h₁
  have hstep : BufferStep 2 1 p₁ (.unpin 0 1 true) p₂ := by
    have hs : BufferStep 2 1 p₁ (.unpin 0 1 (decide ((p₂.descs 1).refcount = 0))) p₂ :=
      .unpin (by decide) (by decide) (by decide) hcount hunpin
    rwa [decide_eq_true hzero] at hs
  have hrun : Run (BufferStep 2 1) ⟨initBufferPool 2 fun _ => freshDesc 0, fun _ _ => 0⟩
      [.pin 0 1, .unpin 0 1 true, .get (some 0)] _ :=
    .cons (.pin (by decide) (by decide) (by decide) (Or.inl hon) hpin)
      (.cons hstep (.cons (.get (Prod.ext hget rfl)) (.nil _)))
  have h := freelist_run (by decide) hrun
  exact ⟨_, hrun, h.1, (h.2.2.1 1 (by decide) (by decide)).2.2⟩

end PostgresV7.Buffer
