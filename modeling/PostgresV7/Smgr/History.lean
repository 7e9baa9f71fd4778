import PostgresV7.Lib.Runs
import PostgresV7.Smgr.Unlink

/-!
# Histories of a relation (`md.c`)

A relation is made by `md_create`. As long as it has fewer than `2 ^ 31` blocks when `md_extend`
is called, its segments stay in order.
-/

namespace PostgresV7.Md

open Fd Smgr Outcomes Blocks Runs

variable {base : Nat → Prop} {pick : Kernel → Option Nat} {junk : Kernel → Int} {room : Nat}
  {allowed : Fault → Prop} {md md' : MdState Kernel} {k k' s : Kernel} {rnode : RelFileNode} {dataDir : FileName}
  {refs : List Ref} {array : List Block} {op : Op}

/-! ## Operations -/

/-- `block < md_nblocks`. -/
def Below (os : Os Kernel) (rnode : RelFileNode) (md : MdState Kernel) (blockNum : BlockNumber) : Prop :=
  ∃ n md', mdNblocks os md rnode = .ok (n, md') ∧ (blockNum.toNat : Int) < n

/-- The operations of a history. -/
def Permitted (os : Os Kernel) (rnode : RelFileNode) (md : MdState Kernel) : Op → Prop
  | .extend rnode' _ => rnode' = rnode
  | .read rnode' blockNum => rnode' = rnode ∧ Below os rnode md blockNum
  | .write rnode' blockNum _ => rnode' = rnode ∧ Below os rnode md blockNum
  | .nblocks rnode' => rnode' = rnode
  | .truncate rnode' _ => rnode' = rnode
  | _ => False

/-- `md_extend` finds a segment that is not full among those an `int` can count the blocks of. -/
def Extendable (rnode : RelFileNode) (md : MdState Kernel) : Op → Prop
  | .extend _ _ => ∃ i < lastSegment, blocks md.st.os md.dataDir rnode i ≠ RELSEG_SIZE
  | _ => True

/-- An operation that returns. -/
def Returns (os : Os Kernel) (md : MdState Kernel) (op : Op) (md' : MdState Kernel) : Prop :=
  ∃ result, step os md op = .ok (result, md')

theorem Represents.extendable_iff (h : Represents base room md k rnode refs array) (buffer : Block) :
    Extendable rnode md (.extend rnode buffer) ↔ array.length < 2 ^ 31 := by
  constructor
  · rintro ⟨i, hi, hblocks⟩
    rw [h.blocks_os] at hblocks
    by_contra hge
    have hmul := Nat.mul_le_mul_right RELSEG_SIZE (Nat.succ_le_of_lt hi)
    rw [lastSegment_mul] at hmul
    exact hblocks (h.full (Nat.le_trans hmul (Nat.not_lt.mp hge)))
  · intro hlt
    refine ⟨array.length / RELSEG_SIZE, Nat.div_lt_of_lt_mul hlt, ?_⟩
    have hmod := Nat.mod_lt array.length (show 0 < RELSEG_SIZE by decide)
    have hdiv := Nat.div_add_mod' array.length RELSEG_SIZE
    rw [h.blocks_os, h.blocks_eq]
    omega

section

variable (hprovides : Provides pick base room allowed)

include hprovides

theorem Represents.below {blockNum : BlockNumber} (h : Represents base room md k rnode refs array)
    (hcan : Reaches allowed md k rnode refs) (hb : Below (Kernel.os pick junk) rnode md blockNum) :
    blockNum.toNat < array.length := by
  obtain ⟨n, md', hrun, hlt⟩ := hb
  obtain ⟨hn, -⟩ := (h.nblocks hprovides hcan).of_ok hrun
  have hn : n = toInt array.length := hn
  rw [hn] at hlt
  exact (lt_of_lt_toInt h.length_le hlt).2

/-- The relation is made. -/
theorem Represents.create (h : Represents base room md k rnode [] [])
    (hnew : k.directory (relpath md.dataDir rnode) = none) :
    Ends allowed (Md.step (Kernel.os pick junk) md (.create rnode)) fun r => ∃ k' refs',
      Represents base room r.2 k' rnode refs' [] ∧ refs' ≠ [] := by
  have hclosed : md.rdFd rnode < 0 := by
    by_contra hopen
    have hhead := h.chained.head
    rw [if_neg hopen] at hhead
    cases hhead
  apply Ends.bind (h.rel.mdCreate hprovides.files hclosed hnew)
  rintro ⟨fd, md₁⟩ (⟨hfails, -⟩ | ⟨n, k₁, G, rfl, hwalked⟩)
  · exact absurd trivial hfails
  · exact ⟨k₁, _, h.walked hwalked, List.cons_ne_nil _ _⟩

/-- An operation that meets the condition keeps the relation in order. -/
theorem Represents.permitted (h : Represents base room md k rnode refs array)
    (hcan : Reaches allowed md k rnode refs)
    (hop : Permitted (Kernel.os pick junk) rnode md op) (hextends : Extendable rnode md op) :
    Ends allowed (Md.step (Kernel.os pick junk) md op) fun r => ∃ k' refs' array',
      Represents base room r.2 k' rnode refs' array' ∧ refs' ≠ [] := by
  cases op with
  | extend rnode' buffer =>
    obtain rfl := hop
    apply Ends.bind (h.extend hprovides hcan ((h.extendable_iff buffer).mp hextends))
    rintro ⟨status, md₁⟩ ⟨-, k₁, refs₁, h₁⟩
    exact ⟨k₁, refs₁, _, h₁⟩
  | read rnode' blockNum =>
    obtain ⟨rfl, hb⟩ := hop
    have hlt := h.below hprovides hcan hb
    apply Ends.bind (h.read hprovides hcan (List.getElem?_eq_getElem hlt))
    rintro ⟨⟨status, buffer⟩, md₁⟩ ⟨-, k₁, refs₁, h₁⟩
    exact ⟨k₁, refs₁, _, h₁⟩
  | write rnode' blockNum buffer =>
    obtain ⟨rfl, hb⟩ := hop
    have hlt := h.below hprovides hcan hb
    apply Ends.bind (h.write hprovides hcan hlt)
    rintro ⟨status, md₁⟩ ⟨-, k₁, refs₁, h₁⟩
    exact ⟨k₁, refs₁, _, h₁⟩
  | nblocks rnode' =>
    obtain rfl := hop
    apply Ends.bind (h.nblocks hprovides hcan)
    rintro ⟨n, md₁⟩ ⟨-, k₁, refs₁, h₁, hreached⟩
    refine ⟨k₁, refs₁, _, h₁, ?_⟩
    rintro rfl
    cases hreached
  | truncate rnode' n =>
    obtain rfl := hop
    apply Ends.bind (h.truncate hprovides hcan)
    rintro ⟨code, md₁⟩ ⟨k₁, refs₁, array₁, h₁, hne, -⟩
    exact ⟨k₁, refs₁, array₁, h₁, hne⟩
  | create | «open» | close | flush | commit | releaseLru | closeAll => exact hop.elim

/-! ## One block too many -/

omit hprovides in
/-- A segment behind one that is not full, or is more than full. -/
theorem not_segmented (hexists : s.directory (segpath dataDir rnode 1) ≠ none)
    (hlength : (content s (segpath dataDir rnode 0)).length ≠ RELSEG_SIZE * BLCKSZ) : ¬ Segmented s dataDir rnode := by
  rintro ⟨m, hsegs, hfull⟩
  exact hlength (hfull 0 ((hsegs 1).mp hexists))

/-- The block behind `2 ^ 31` others goes to the first segment, which is full. -/
theorem Represents.extend_full {buffer : Block} (h : Represents base room md k rnode refs array)
    (hcan : Reaches allowed md k rnode refs) (hlength : array.length = 2 ^ 31) :
    Ends allowed (mdExtend (Kernel.os pick junk) md rnode buffer) fun r =>
      ¬ Segmented r.2.st.os r.2.dataDir rnode := by
  unfold mdExtend
  apply Ends.bind (h.nblocks hprovides hcan)
  rintro ⟨nblocks, md₁⟩ ⟨hnblocks, k₁, refs₁, h₁, hreached⟩
  dsimp only at hnblocks h₁ ⊢
  -- the count has no place in an `int`, and divides to the first segment
  have hneg : nblocks = -2 ^ 31 := by
    rw [hnblocks, hlength]
    decide
  subst hneg
  have hcan₁ : Reaches allowed md₁ k₁ rnode refs₁ := by
    rintro rfl
    cases hreached
  apply Ends.bind (h₁.rel.mdFdGetSeg hprovides.files (show _ = 0 by decide)
    (fun j hj => absurd hj (Nat.not_lt_zero j))
    hcan₁)
  rintro ⟨vec, v, md₂⟩ ⟨k₂, refs₂, G₂, hwalked, hv, hvec⟩
  dsimp only at hwalked hv hvec ⊢
  have h₂ := h₁.walked hwalked
  obtain ⟨f, hf, hdir, -, -, -, hdata⟩ := h₂.slot hv hvec
  have hsegs : ∀ i < 2, (i + 1) * RELSEG_SIZE ≤ array.length := by
    intro i hi
    have hmul := Nat.mul_le_mul_right RELSEG_SIZE (Nat.succ_le_of_lt hi)
    rw [hlength]
    exact Nat.le_trans hmul (by decide)
  have hsize : (k₂.data f.inode).length = RELSEG_SIZE * BLCKSZ := by
    have hfirst := h₂.length_segment (hsegs 0 Nat.zero_lt_two)
    unfold content at hfirst
    rw [hdir] at hfirst
    exact hfirst
  have hend : (k₂.data f.inode).length + BLCKSZ ≤ segEnd := by
    rw [hsize]
    decide
  apply Ends.bind (h₂.seek hprovides .SEEK_END hv hvec hf rfl (Int.add_zero _).symm
    (Nat.le_trans (Nat.le_add_right _ _) hend))
  rintro ⟨pos, md₃⟩ ⟨rfl, st, hst, hseek, h₃⟩
  dsimp only at hst ⊢
  subst hst
  have hnonneg : ¬ ((k₂.data f.inode).length : Int) < 0 := by omega
  have hwhole : ((k₂.data f.inode).length : Int) % BLCKSZ = 0 := by
    rw [hsize]
    decide
  have hsought : Ends allowed
      (seekWhole (Kernel.os pick junk) { md₂ with st := st } vec.vfd (k₂.data f.inode).length)
      fun r => r = (((k₂.data f.inode).length : Int), { md₂ with st := st }) := by
    unfold seekWhole
    rw [if_neg (not_not.mpr hwhole)]
    exact rfl
  rw [if_neg hnonneg]
  apply Ends.bind hsought
  rintro _ rfl
  dsimp only
  rw [if_neg hnonneg]
  have hf₃ : (k₂.setFile vec.vfd { f with pos := (k₂.data f.inode).length }).table vec.vfd =
      some { f with pos := (k₂.data f.inode).length } := Function.update_self _ _ _
  have hget : ∀ st, ({ md₂ with st := st } : MdState Kernel).get v = .ok vec := fun st => (get_call v).trans hvec
  apply Ends.bind (h₃.writeBytes hprovides { md₂ with st := st } hv (hget st) hf₃ hseek
    (Nat.le_trans hend (by decide)))
  rintro ⟨nbytes, md₄⟩ ⟨rfl, st₄, hst₄, hsim⟩
  dsimp only at hst₄ ⊢
  subst hst₄
  rw [if_neg (not_not.mpr rfl)]
  obtain ⟨md₅, hset, hstored⟩ := set_stored (hget st₄) { vec with
    lstBcnt := if Int.tmod (toInt (-2 ^ 31 + 1)) RELSEG_SIZE = 0 then RELSEG_SIZE
      else Int.tmod (toInt (-2 ^ 31 + 1)) RELSEG_SIZE }
  rw [hget st₄]
  dsimp only [bind, Except.bind]
  rw [hset]
  show ¬ Segmented md₅.st.os md₅.dataDir rnode
  rw [hstored.st, hstored.dataDir]
  have hdir₄ : st₄.os.directory (segpath md₂.dataDir rnode 0) = some f.inode := by
    rw [hsim.directory]
    exact hdir
  have hdata₄ : st₄.os.data f.inode =
      Kernel.overwrite (k₂.data f.inode) (k₂.data f.inode).length buffer.bytes := by
    rw [hsim.data]
    exact Function.update_self _ _ _
  have hlong : (st₄.os.data f.inode).length = RELSEG_SIZE * BLCKSZ + BLCKSZ := by
    rw [hdata₄, hdata, overwrite_append, List.flatMap_append, List.length_append, ← hdata, hsize,
      List.flatMap_singleton,
      length_bytes]
  have hexists : k₂.directory (segpath md₂.dataDir rnode 1) ≠ none :=
    exists_of_full (h₂.full (hsegs 1 Nat.one_lt_two))
  have hsecond : st₄.os.directory (segpath md₂.dataDir rnode 1) ≠ none := by
    rw [hsim.directory]
    exact hexists
  refine not_segmented hsecond ?_
  unfold content
  dsimp only
  rw [hdir₄]
  dsimp only
  rw [hlong]
  decide

end

/-! ## Histories -/

/-- An operation of a history, and the state it returns in. -/
def Historic (os : Os Kernel) (rnode : RelFileNode) (md : MdState Kernel) (op : Op)
    (md' : MdState Kernel) : Prop :=
  Permitted os rnode md op ∧ Returns os md op md'

/-- The relation is a list of blocks, and its first file is open. -/
def InOrder (base : Nat → Prop) (room : Nat) (rnode : RelFileNode) (md : MdState Kernel) : Prop :=
  ∃ k refs array, Represents base room md k rnode refs array ∧ refs ≠ []

theorem reaches_of_ne (hne : refs ≠ []) : Reaches allowed md k rnode refs := fun hnil => absurd hnil hne

theorem InOrder.step (hprovides : Provides pick base room allowed) (h : InOrder base room rnode md)
    (hop : Historic (Kernel.os pick junk) rnode md op md') (hextends : Extendable rnode md op) :
    InOrder base room rnode md' := by
  obtain ⟨k, refs, array, hrepresents, hne⟩ := h
  obtain ⟨hpermitted, result, hstep⟩ := hop
  exact (hrepresents.permitted hprovides (reaches_of_ne hne) hpermitted hextends).of_ok hstep

/-- With descriptors enough, the operation returns. -/
theorem InOrder.returns (hprovides : Provides pick base room fun _ => False) (junk : Kernel → Int)
    (h : InOrder base room rnode md) (hop : Permitted (Kernel.os pick junk) rnode md op)
    (hextends : Extendable rnode md op) :
    ∃ md', Historic (Kernel.os pick junk) rnode md op md' ∧ InOrder base room rnode md' := by
  obtain ⟨k, refs, array, hrepresents, hne⟩ := h
  obtain ⟨⟨result, md'⟩, hstep, horder⟩ :=
    (hrepresents.permitted hprovides (reaches_of_ne hne) hop hextends).returns
  exact ⟨md', ⟨hop, result, hstep⟩, horder⟩

/-- No number of a segment leaves an `int`. -/
theorem Represents.le_lastSegment (h : Represents base room md k rnode refs array) {i : Nat}
    (hi : md.st.os.directory (segpath md.dataDir rnode i) ≠ none) : i ≤ lastSegment := by
  rw [h.sim.directory] at hi
  cases i with
  | zero => exact Nat.zero_le _
  | succ i =>
    have hle := (Nat.le_div_iff_mul_le (show 0 < RELSEG_SIZE by decide)).mpr (h.behind i hi)
    exact Nat.le_trans hle (div_le_lastSegment h.length_le)

theorem extend_of_step {os : Os Kernel} {buffer : Block} (h : Returns os md (.extend rnode buffer) md') :
    ∃ status, mdExtend os md rnode buffer = .ok (status, md') := by
  obtain ⟨result, hstep⟩ := h
  obtain ⟨⟨status, md₁⟩, hextend, heq⟩ := bind_eq_ok hstep
  obtain ⟨-, rfl⟩ := Prod.mk.inj (Except.ok.inj heq)
  exact ⟨status, hextend⟩

/-- One more block keeps the segments in order if and only if one of them has a place for it. -/
theorem Represents.extend_segmented_iff {buffer : Block} (hprovides : Provides pick base room allowed)
    (h : Represents base room md k rnode refs array) (hne : refs ≠ [])
    (hextend : Returns (Kernel.os pick junk) md (.extend rnode buffer) md') :
    Segmented md'.st.os md'.dataDir rnode ↔ Extendable rnode md (.extend rnode buffer) := by
  obtain ⟨status, hrun⟩ := extend_of_step hextend
  constructor
  · intro hsegmented
    rw [h.extendable_iff]
    refine Nat.lt_of_le_of_ne h.length_le fun hlength => ?_
    exact (h.extend_full hprovides (reaches_of_ne hne) hlength).of_ok hrun hsegmented
  · intro hextendable
    have hlt := (h.extendable_iff buffer).mp hextendable
    obtain ⟨-, k', refs', h', hne'⟩ := (h.extend hprovides (reaches_of_ne hne) hlt).of_ok hrun
    exact h'.segmented hne'

/-- A relation is made, and `md_extend` always finds a segment that is not full: the segments are in
order then, and `md_unlink` removes them all. They stay in order with one more block if and only if it
finds one again. -/
theorem md_history_segmented (hpick : Kernel.Picks pick 32767) (hroom : room ≤ 2 ^ 30 - 1) (junk : Kernel → Int)
    (h : Represents base room md k rnode [] []) (hnew : k.directory (relpath md.dataDir rnode) = none)
    {md₁ md₂ : MdState Kernel} (hcreate : Returns (Kernel.os pick junk) md (.create rnode) md₁) {ops : List Op}
    (hrun : Run (fun md op md' => Historic (Kernel.os pick junk) rnode md op md' ∧ Extendable rnode md op)
      md₁ ops md₂) :
    Segmented md₂.st.os md₂.dataDir rnode ∧
      (∃ md₃, mdUnlink (Kernel.os pick junk) md₂ rnode = .ok (.SM_SUCCESS, md₃) ∧
        Unlinked md₃.st.os md₂.dataDir rnode) ∧
      ∀ buffer md₃, Returns (Kernel.os pick junk) md₂ (.extend rnode buffer) md₃ →
        (Segmented md₃.st.os md₃.dataDir rnode ↔ Extendable rnode md₂ (.extend rnode buffer)) := by
  have hprovides : Provides pick base room fun _ => True := ⟨hpick, hroom, fun _ _ _ _ _ _ => trivial⟩
  obtain ⟨result, hstep⟩ := hcreate
  obtain ⟨k₁, refs₁, h₁, hne₁⟩ := (h.create hprovides hnew).of_ok hstep
  have horder : InOrder base room rnode md₂ :=
    hrun.invariant (fun _ _ _ horder hop => horder.step hprovides hop.1 hop.2) ⟨k₁, refs₁, [], h₁, hne₁⟩
  obtain ⟨k₂, refs₂, array, h₂, hne₂⟩ := horder
  have hsegmented := h₂.segmented hne₂
  refine ⟨hsegmented, hsegmented.unlink pick junk rfl fun i => h₂.le_lastSegment, fun buffer md₃ hextend => ?_⟩
  exact h₂.extend_segmented_iff hprovides hne₂ hextend

/-- A system without files. -/
def noFiles : Kernel where
  directory _ := none
  data _ := []
  nextInode := 0
  table _ := none

/-- A process that starts there. -/
def startedAlone : MdState Kernel := mdInit "/data".toList false (FdState.init "/data".toList true noFiles)

theorem startedAlone_represents :
    Represents (fun _ => False) 16400 startedAlone (noDescriptors noFiles) ⟨1, 7⟩ [] [] := by
  have hbase : (fun d => noFiles.table d ≠ none) = fun _ => False :=
    funext fun _ => eq_false (not_not.mpr rfl)
  rw [← hbase]
  refine represents_init "/data".toList false true (fun _ => Nat.zero_le _) nofun nofun (by decide)
    (Nat.zero_le _)
    (fun i => ?_) (fun i hi => absurd rfl hi) (by decide)
  rw [window_of_le (Nat.zero_le _)]
  rfl

theorem lowestFree_alone : Provides (lowestFree 0 32767) (fun _ => False) 16400 allowed :=
  lowestFree_provides (fun _ => id) (by decide)

/-- There the relation can be made. -/
theorem startedAlone_create : ∃ md,
    Returns (Kernel.os (lowestFree 0 32767) fun _ => 0) startedAlone (.create ⟨1, 7⟩) md ∧
    ∃ k refs, Represents (fun _ => False) 16400 md k ⟨1, 7⟩ refs [] ∧ refs ≠ [] := by
  have hends : Ends (fun _ => False)
      (Md.step (Kernel.os (lowestFree 0 32767) fun _ => 0) startedAlone (.create ⟨1, 7⟩)) _ :=
    startedAlone_represents.create lowestFree_alone rfl
  obtain ⟨⟨result, md⟩, hstep, h⟩ := hends.returns
  exact ⟨md, ⟨result, hstep⟩, h⟩

/-- A block is written behind the end, and the relation is cut to nothing. -/
theorem md_history_segmented_example : ∃ md₁ md₂ md₃,
    Returns (Kernel.os (lowestFree 0 32767) fun _ => 0) startedAlone (.create ⟨1, 7⟩) md₁ ∧
    Run (fun md op md' => Historic (Kernel.os (lowestFree 0 32767) fun _ => 0) ⟨1, 7⟩ md op md' ∧
      Extendable ⟨1, 7⟩ md op) md₁ [.extend ⟨1, 7⟩ zeroBlock, .truncate ⟨1, 7⟩ 0] md₂ ∧
    mdUnlink (Kernel.os (lowestFree 0 32767) fun _ => 0) md₂ ⟨1, 7⟩ = .ok (.SM_SUCCESS, md₃) ∧
    Unlinked md₃.st.os md₂.dataDir ⟨1, 7⟩ := by
  obtain ⟨md₁, hcreate, k, refs, h, hne⟩ := startedAlone_create
  have hextendable : Extendable ⟨1, 7⟩ md₁ (.extend ⟨1, 7⟩ zeroBlock) :=
    (h.extendable_iff zeroBlock).mpr (by decide)
  have horder : InOrder (fun _ => False) 16400 ⟨1, 7⟩ md₁ := ⟨k, refs, [], h, hne⟩
  obtain ⟨md', hextend, horder'⟩ := horder.returns lowestFree_alone (fun _ => 0)
    (show Permitted _ ⟨1, 7⟩ md₁ (.extend ⟨1, 7⟩ zeroBlock) from rfl) hextendable
  obtain ⟨md₂, htruncate, -⟩ := horder'.returns lowestFree_alone (fun _ => 0)
    (show Permitted _ ⟨1, 7⟩ md' (.truncate ⟨1, 7⟩ 0) from rfl) trivial
  have hrun : Run (fun md op md' => Historic (Kernel.os (lowestFree 0 32767) fun _ => 0) ⟨1, 7⟩ md op md' ∧
      Extendable ⟨1, 7⟩ md op) md₁ [.extend ⟨1, 7⟩ zeroBlock, .truncate ⟨1, 7⟩ 0] md₂ :=
    .cons ⟨hextend, hextendable⟩ (.cons ⟨htruncate, trivial⟩ (.nil md₂))
  obtain ⟨-, ⟨md₃, hunlink, hgone⟩, -⟩ :=
    md_history_segmented (lowestFree_picks 0 32767) (by decide) (fun _ => 0) startedAlone_represents rfl
      hcreate hrun
  exact ⟨md₁, md₂, md₃, hcreate, hrun, hunlink, hgone⟩

theorem returns_extend {os : Os Kernel} {status : Status} {buffer : Block}
    (h : mdExtend os md rnode buffer = .ok (status, md')) : Returns os md (.extend rnode buffer) md' := by
  refine ⟨.status status, ?_⟩
  show returnsStatus (mdExtend os md rnode buffer) = _
  rw [h]
  rfl

/-- Blocks are written behind the end until there are `2 ^ 31`, and then one more. -/
theorem Represents.overfills {n : Nat} (hprovides : Provides pick base room fun _ => False) (junk : Kernel → Int)
    (buffer : Block) (h : Represents base room md k rnode refs array) (hne : refs ≠ [])
    (hn : array.length + n = 2 ^ 31) :
    ∃ md', Run (Historic (Kernel.os pick junk) rnode) md (List.replicate (n + 1) (.extend rnode buffer)) md' ∧
      ¬ Segmented md'.st.os md'.dataDir rnode := by
  induction n generalizing md k refs array with
  | zero =>
    have hends : Ends (fun _ => False) (mdExtend (Kernel.os pick junk) md rnode buffer) _ :=
      h.extend_full hprovides (reaches_of_ne hne) hn
    obtain ⟨⟨status, md'⟩, hextend, hnot⟩ := hends.returns
    exact ⟨md', .cons ⟨rfl, returns_extend hextend⟩ (.nil md'), hnot⟩
  | succ n ih =>
    have hends : Ends (fun _ => False) (mdExtend (Kernel.os pick junk) md rnode buffer) _ :=
      h.extend hprovides (reaches_of_ne hne) (by omega)
    obtain ⟨⟨status, md₁⟩, hextend, -, k₁, refs₁, h₁, hne₁⟩ := hends.returns
    have hlength : (array ++ [buffer]).length + n = 2 ^ 31 := by
      rw [List.length_append, List.length_singleton]
      omega
    obtain ⟨md', hrun, hnot⟩ := ih h₁ hne₁ hlength
    exact ⟨md', .cons ⟨rfl, returns_extend hextend⟩ hrun, hnot⟩

/-- The first segment of a relation of `2 ^ 31 + 1` blocks has one more than the others. -/
theorem md_extend_overfills : ∃ md₁ md₂,
    Returns (Kernel.os (lowestFree 0 32767) fun _ => 0) startedAlone (.create ⟨1, 7⟩) md₁ ∧
    Run (Historic (Kernel.os (lowestFree 0 32767) fun _ => 0) ⟨1, 7⟩) md₁
      (List.replicate (2 ^ 31 + 1) (.extend ⟨1, 7⟩ zeroBlock)) md₂ ∧
    ¬ Segmented md₂.st.os md₂.dataDir ⟨1, 7⟩ := by
  obtain ⟨md₁, hcreate, k, refs, h, hne⟩ := startedAlone_create
  obtain ⟨md₂, hrun, hnot⟩ := h.overfills lowestFree_alone (fun _ => 0) zeroBlock hne (Nat.zero_add (2 ^ 31))
  exact ⟨md₁, md₂, hcreate, hrun, hnot⟩

end PostgresV7.Md
