import PostgresV7.Fd.FdRun
import PostgresV7.Fd.Own
import PostgresV7.Smgr.Commit
import PostgresV7.Smgr.Truncate

/-!
# Runs on one relation (`md.c`)

What the operations say of a plain array, and that they say the same of the relation.
-/

namespace PostgresV7.Md

open Fd Smgr Outcomes Blocks

variable {base : Nat → Prop} {pick : Kernel → Option Nat} {junk : Kernel → Int} {room : Nat}
  {allowed : Fault → Prop} {md md' : MdState Kernel} {k k' : Kernel} {rnode : RelFileNode}
  {refs : List Ref} {array array' : List Block} {op : Op} {result : Result} {results : List Result}

/-- An array has fewer than `2 ^ 31 - RELSEG_SIZE` blocks. -/
def Short (array : List Block) : Prop := array.length + RELSEG_SIZE < 2 ^ 31

instance (array : List Block) : Decidable (Short array) := inferInstanceAs (Decidable (_ < _))

/-- An operation on an array: what the caller is told, and the array behind it. There is none for a
block that the array does not have, nor for one more than a short array can have. -/
def arrayStep (rnode : RelFileNode) (array : List Block) : Op → Option (Result × List Block)
  | .extend rnode' buffer =>
    if rnode' = rnode ∧ Short (array ++ [buffer]) then some (.status .SM_SUCCESS, array ++ [buffer]) else none
  | .read rnode' blockNum =>
    if rnode' = rnode then
      array[blockNum.toNat]?.map fun block => (.buffer .SM_SUCCESS block.bytes, array)
    else none
  | .write rnode' blockNum buffer =>
    if rnode' = rnode ∧ blockNum.toNat < array.length then
      some (.status .SM_SUCCESS, array.set blockNum.toNat buffer)
    else none
  | .nblocks rnode' => if rnode' = rnode then some (.blocks array.length, array) else none
  | .truncate rnode' n =>
    if rnode' = rnode then
      if 0 ≤ n ∧ n ≤ array.length then some (.blocks n, array.take n.toNat) else some (.blocks (-1), array)
    else none
  | _ => none

/-- A sequence of operations on an array. -/
def arrayRun (rnode : RelFileNode) : List Op → List Block → Option (List Result × List Block)
  | [], array => some ([], array)
  | op :: ops, array => do
    let (result, array) ← arrayStep rnode array op
    let (results, array) ← arrayRun rnode ops array
    some (result :: results, array)

theorem arrayStep_short (h : arrayStep rnode array op = some (result, array')) (hshort : Short array) :
    Short array' := by
  unfold Short at hshort ⊢
  cases op with
  | extend rnode' buffer =>
    obtain ⟨⟨-, hfits⟩, heq⟩ := Option.ite_none_right_eq_some.mp h
    obtain ⟨-, rfl⟩ := Prod.mk.inj (Option.some.inj heq)
    exact hfits
  | read rnode' blockNum =>
    obtain ⟨-, heq⟩ := Option.ite_none_right_eq_some.mp h
    obtain ⟨block, -, heq⟩ := Option.map_eq_some_iff.mp heq
    obtain ⟨-, rfl⟩ := Prod.mk.inj heq
    exact hshort
  | write rnode' blockNum buffer =>
    obtain ⟨-, heq⟩ := Option.ite_none_right_eq_some.mp h
    obtain ⟨-, rfl⟩ := Prod.mk.inj (Option.some.inj heq)
    rwa [List.length_set]
  | nblocks rnode' =>
    obtain ⟨-, heq⟩ := Option.ite_none_right_eq_some.mp h
    obtain ⟨-, rfl⟩ := Prod.mk.inj (Option.some.inj heq)
    exact hshort
  | truncate rnode' n =>
    obtain ⟨-, heq⟩ := Option.ite_none_right_eq_some.mp h
    split at heq
    · obtain ⟨-, rfl⟩ := Prod.mk.inj (Option.some.inj heq)
      rw [List.length_take]
      omega
    · obtain ⟨-, rfl⟩ := Prod.mk.inj (Option.some.inj heq)
      exact hshort
  | create | «open» | close | flush | commit | releaseLru | closeAll => cases h

section

variable (hprovides : Provides pick base room allowed)

include hprovides

/-- Every operation of a short array does the same to the relation. -/
theorem Represents.step (h : Represents base room md k rnode refs array) (hcan : Reaches allowed md k rnode refs)
    (hshort : Short array) (hop : arrayStep rnode array op = some (result, array')) :
    Ends allowed (Md.step (Kernel.os pick junk) md op) fun r => r.1 = result ∧
      ∃ k' refs', Represents base room r.2 k' rnode refs' array' ∧ refs' ≠ [] := by
  have hlt : array.length < 2 ^ 31 := Nat.lt_of_le_of_lt (Nat.le_add_right _ _) hshort
  cases op with
  | extend rnode' buffer =>
    obtain ⟨⟨rfl, -⟩, heq⟩ := Option.ite_none_right_eq_some.mp hop
    obtain ⟨rfl, rfl⟩ := Prod.mk.inj (Option.some.inj heq)
    apply Ends.bind (h.extend hprovides hcan hlt)
    rintro ⟨status, md₁⟩ ⟨rfl, h₁⟩
    exact ⟨rfl, h₁⟩
  | read rnode' blockNum =>
    obtain ⟨rfl, heq⟩ := Option.ite_none_right_eq_some.mp hop
    obtain ⟨block, hblock, heq⟩ := Option.map_eq_some_iff.mp heq
    obtain ⟨rfl, rfl⟩ := Prod.mk.inj heq
    apply Ends.bind (h.read hprovides hcan hblock)
    rintro ⟨⟨status, buffer⟩, md₁⟩ ⟨hr, h₁⟩
    obtain ⟨rfl, rfl⟩ := Prod.mk.inj hr
    exact ⟨rfl, h₁⟩
  | write rnode' blockNum buffer =>
    obtain ⟨⟨rfl, hb⟩, heq⟩ := Option.ite_none_right_eq_some.mp hop
    obtain ⟨rfl, rfl⟩ := Prod.mk.inj (Option.some.inj heq)
    apply Ends.bind (h.write hprovides hcan hb)
    rintro ⟨status, md₁⟩ ⟨rfl, h₁⟩
    exact ⟨rfl, h₁⟩
  | nblocks rnode' =>
    obtain ⟨rfl, heq⟩ := Option.ite_none_right_eq_some.mp hop
    obtain ⟨rfl, rfl⟩ := Prod.mk.inj (Option.some.inj heq)
    apply Ends.bind (h.nblocks hprovides hcan)
    rintro ⟨n, md₁⟩ ⟨hn, k₁, refs₁, h₁, hreached⟩
    rw [toInt_of_lt hlt] at hn
    subst hn
    refine ⟨rfl, k₁, refs₁, h₁, ?_⟩
    rintro rfl
    cases hreached
  | truncate rnode' n =>
    obtain ⟨rfl, heq⟩ := Option.ite_none_right_eq_some.mp hop
    apply Ends.bind (h.truncate hprovides hcan)
    rintro ⟨code, md₁⟩ ⟨k₁, refs₁, array₁, h₁, hne, htruncated⟩
    have hcode := htruncated.result
    rw [toInt_of_lt hlt] at hcode
    dsimp only at hcode htruncated ⊢
    by_cases hrange : 0 ≤ n ∧ n ≤ array.length
    · rw [if_pos hrange] at heq hcode
      obtain ⟨rfl, rfl⟩ := Prod.mk.inj (Option.some.inj heq)
      have hdone := htruncated.done hrange.1 (by rw [toInt_of_lt hlt]; exact hrange.2) hshort
      rw [← hdone, hcode]
      exact ⟨rfl, k₁, refs₁, h₁, hne⟩
    · rw [if_neg hrange] at heq hcode
      obtain ⟨rfl, rfl⟩ := Prod.mk.inj (Option.some.inj heq)
      have hrefused := htruncated.refused (by rw [toInt_of_lt hlt]; exact hrange)
      rw [← hrefused, hcode]
      exact ⟨rfl, k₁, refs₁, h₁, hne⟩
  | create | «open» | close | flush | commit | releaseLru | closeAll => cases hop

theorem Represents.run {ops : List Op} (h : Represents base room md k rnode refs array)
    (hcan : Reaches allowed md k rnode refs) (hshort : Short array)
    (hops : arrayRun rnode ops array = some (results, array')) :
    Ends allowed (Md.run (Kernel.os pick junk) ops md) fun r => r.1 = results ∧
      ∃ k' refs', Represents base room r.2 k' rnode refs' array' := by
  induction ops generalizing md k refs array results with
  | nil =>
    obtain ⟨rfl, rfl⟩ := Prod.mk.inj (Option.some.inj hops)
    exact ⟨rfl, k, refs, h⟩
  | cons op ops ih =>
    obtain ⟨⟨result, array₁⟩, hop, hops⟩ := Option.bind_eq_some_iff.mp hops
    obtain ⟨⟨results₁, array₂⟩, hrest, heq⟩ := Option.bind_eq_some_iff.mp hops
    obtain ⟨rfl, rfl⟩ := Prod.mk.inj (Option.some.inj heq)
    apply Ends.bind (h.step hprovides hcan hshort hop)
    rintro ⟨result, md₁⟩ ⟨rfl, k₁, refs₁, h₁, hne⟩
    apply Ends.bind (ih h₁ (fun hnil => absurd hnil hne) (arrayStep_short hop hshort) hrest)
    rintro ⟨results, md₂⟩ ⟨rfl, h₂⟩
    exact ⟨rfl, h₂⟩

end

/-! ## Where a run begins -/

/-- The chain of a relation: the links stay in it, and nothing in it was freed. -/
def Live (md : MdState Kernel) (rnode : RelFileNode) (refs : List Ref) : Prop :=
  (¬ md.rdFd rnode < 0 → .slot (md.rdFd rnode).toNat ∈ refs) ∧
    ∀ v ∈ refs, ∃ vec, md.get v = .ok vec ∧ ∀ next, vec.chain = some next → .node next ∈ refs

theorem Chained.live (h : Chained md k rnode refs) : Live md rnode refs := by
  refine ⟨fun hopen => ?_, fun v hv => ?_⟩
  · have hhead := h.head
    rw [if_neg hopen] at hhead
    exact List.mem_iff_getElem?.mpr ⟨0, hhead⟩
  · obtain ⟨i, hi⟩ := List.mem_iff_getElem?.mp hv
    obtain ⟨vec, hvec, -, hchain⟩ := h.segment i v hi
    refine ⟨vec, hvec, fun next hnext => ?_⟩
    rw [hnext] at hchain
    exact List.mem_iff_getElem?.mpr ⟨i + 1, hchain.symm⟩

/-- When a process starts, the relation is what its files are. -/
theorem represents_init {dataDir : FileName} {s : Kernel} (databasePath : FileName) (bootstrap enableFsync : Bool)
    (hsizes : ∀ inode, (s.data inode).length ≤ maxOffset) (hfresh : Fresh s) (hseparate : Separate s)
    (habsolute : (relpath dataDir rnode).head? = some SEP_CHAR) (hle : array.length ≤ 2 ^ 31)
    (hlaid : ∀ i, content s (segpath dataDir rnode i) = (window RELSEG_SIZE array i).flatMap Block.bytes)
    (hbehind : ∀ i, s.directory (segpath dataDir rnode (i + 1)) ≠ none → (i + 1) * RELSEG_SIZE ≤ array.length)
    (hroom : lastSegment + 1 < room) :
    Represents (fun d => s.table d ≠ none) room
      (mdInit dataDir bootstrap (FdState.init databasePath enableFsync s))
      (noDescriptors s) rnode [] array where
  sim := (init_own databasePath enableFsync s hsizes).1
  fresh := hfresh
  separate := hseparate
  absolute := habsolute
  laid := hlaid
  behind := hbehind
  length_le := hle
  chained := ⟨List.nodup_nil, rfl, fun _ _ hv => nomatch hv⟩
  owned _ _ _ hf := nomatch hf
  unused _ _ := rfl
  slots _ := ⟨[], [], mdInit_slots dataDir bootstrap _, (by decide : 1 < 100)⟩
  few := ⟨∅, fun _ hi => absurd rfl hi, by rwa [Finset.card_empty, Nat.zero_add]⟩

theorem lowestFree_eq_none {fd left : Nat} (h : lowestFree fd left k = none) {d : Nat} (hle : fd ≤ d)
    (hlt : d < fd + left) : k.table d ≠ none := by
  induction left generalizing fd with
  | zero => omega
  | succ left ih =>
    unfold lowestFree at h
    split at h
    · cases h
    · rename_i hused
      by_cases hd : d = fd
      · rw [hd]
        exact fun hnone => hused (by rw [hnone]; rfl)
      · exact ih h (by omega) (by omega)

/-- The lowest descriptor that is free is found as long as few files are open. -/
theorem lowestFree_provides (hbase : ∀ d, ¬ base d) (hroom : room ≤ 32767) :
    Provides (lowestFree 0 32767) base room allowed where
  picks := lowestFree_picks 0 32767
  upper := Nat.le_trans hroom (by decide)
  full k hfew st limbo hsim hnone := by
    obtain ⟨slots, hslots, hcard⟩ := hfew
    have hused : Finset.range 32767 ⊆ slots.image fun i => (st.fd i).toNat := by
      intro d hd
      have htable := lowestFree_eq_none hnone (Nat.zero_le d) (by simpa using hd)
      obtain ⟨i, hi⟩ := (hsim.tight d htable).resolve_left (hbase d)
      have hopen : st.fd i ≠ VFD_CLOSED := by
        rw [hi]
        exact natCast_ne_closed d
      obtain ⟨f, hf, -⟩ := hsim.held i (hsim.named i hopen)
      exact Finset.mem_image.mpr ⟨i, hslots i (by simp [hf]), by rw [hi, Int.toNat_natCast]⟩
    have hle := (Finset.card_le_card hused).trans Finset.card_image_le
    rw [Finset.card_range] at hle
    omega

/-! ## The array -/

/-- On a relation that stays short, the operations give what they give on an array, and no `MdfdVec` of
its chain was freed. A run that ends otherwise is one of `allowed`: for want of a descriptor. -/
theorem md_run_array (junk : Kernel → Int) (hprovides : Provides pick base room allowed) {ops : List Op}
    (h : Represents base room md k rnode refs array) (hcan : Reaches allowed md k rnode refs)
    (hshort : Short array)
    (hops : arrayRun rnode ops array = some (results, array')) :
    Ends allowed (run (Kernel.os pick junk) ops md) fun r => r.1 = results ∧
      ∃ k' refs', Represents base room r.2 k' rnode refs' array' ∧ Live r.2 rnode refs' := by
  apply (h.run hprovides hcan hshort hops).mono (fun _ h => h)
  rintro r ⟨hr, k', refs', h'⟩
  exact ⟨hr, k', refs', h', h'.chained.live⟩

/-- The files of an empty relation. -/
def emptyRelation : Kernel where
  directory path := if path = segpath "/data".toList ⟨1, 7⟩ 0 then some 0 else none
  data _ := []
  nextInode := 1
  table _ := none

/-- A block is written behind the end, it is read, and the relation is cut to nothing. -/
theorem md_run_array_example : ∃ md',
    run (Kernel.os (lowestFree 0 32767) fun _ => 0)
      [.extend ⟨1, 7⟩ zeroBlock, .read ⟨1, 7⟩ 0, .truncate ⟨1, 7⟩ 0, .nblocks ⟨1, 7⟩]
      (mdInit "/data".toList false (FdState.init "/data".toList true emptyRelation)) =
        .ok ([.status .SM_SUCCESS, .buffer .SM_SUCCESS zeroBlock.bytes, .blocks 0, .blocks 0], md') := by
  have hdir : ∀ {path inode}, emptyRelation.directory path = some inode →
      path = segpath "/data".toList ⟨1, 7⟩ 0 ∧ inode = 0 := by
    intro path inode h
    obtain ⟨hpath, heq⟩ := Option.ite_none_right_eq_some.mp h
    exact ⟨hpath, (Option.some.inj heq).symm⟩
  have hroom : lastSegment + 1 < 16400 := by decide
  have hlaid : ∀ i, content emptyRelation (segpath "/data".toList ⟨1, 7⟩ i) =
      (window RELSEG_SIZE ([] : List Block) i).flatMap Block.bytes := by
    intro i
    rw [window_of_le (Nat.zero_le _)]
    unfold content
    split <;> rfl
  have hbehind : ∀ i, emptyRelation.directory (segpath "/data".toList ⟨1, 7⟩ (i + 1)) ≠ none →
      (i + 1) * RELSEG_SIZE ≤ ([] : List Block).length := by
    intro i hi
    obtain ⟨inode, hinode⟩ := Option.ne_none_iff_exists'.mp hi
    exact absurd (segpath_inj (hdir hinode).1).2 (Nat.succ_ne_zero i)
  have h := represents_init "/data".toList false true (fun _ => Nat.zero_le _)
    (fun path inode h => by rw [(hdir h).2]; exact Nat.one_pos)
    (fun path path' inode h h' => (hdir h).1.trans (hdir h').1.symm) (by decide)
    (Nat.zero_le _) hlaid hbehind hroom
  have hcan : Reaches (fun _ => False)
      (mdInit "/data".toList false (FdState.init "/data".toList true emptyRelation))
      (noDescriptors emptyRelation) ⟨1, 7⟩ [] := fun _ => .inl (by decide)
  have hops : arrayRun ⟨1, 7⟩ [.extend ⟨1, 7⟩ zeroBlock, .read ⟨1, 7⟩ 0, .truncate ⟨1, 7⟩ 0, .nblocks ⟨1, 7⟩] [] =
      some ([.status .SM_SUCCESS, .buffer .SM_SUCCESS zeroBlock.bytes, .blocks 0, .blocks 0], []) := by
    simp [arrayRun, arrayStep, Short, RELSEG_SIZE]
  have hshort : Short [] := by decide
  have hrun := md_run_array (fun _ => 0) (lowestFree_provides (fun d => not_not.mpr rfl) (by decide)) h hcan
    hshort hops
  obtain ⟨⟨results, md'⟩, hr, rfl, -⟩ := Ends.returns hrun
  exact ⟨md', hr⟩

end PostgresV7.Md
