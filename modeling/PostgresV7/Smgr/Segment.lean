import Mathlib.Data.Set.Function
import PostgresV7.Fd.Fd
import PostgresV7.Lib.Decimal

/-!
# Where a block is (`md.c`, `catalog.c`)

The segments of a relation are known by the paths of their files. A caller's
`BlockNumber` becomes an `int` when its segment is looked up, but stays unsigned
where the position in the segment is computed.
-/

namespace PostgresV7.Smgr

open Fd Decimal

/-- `relpath`. -/
def relpath (dataDir : FileName) (rnode : RelFileNode) : FileName :=
  if rnode.tblNode = 0 then
    dataDir ++ SEP_CHAR :: "global".toList ++ SEP_CHAR :: decimal rnode.relNode.toNat
  else
    dataDir ++ SEP_CHAR :: "base".toList ++ SEP_CHAR :: decimal rnode.tblNode.toNat ++
      SEP_CHAR :: decimal rnode.relNode.toNat

/-- The path of a segment: `%s.%d`, if it is not the first one. -/
def segpath (dataDir : FileName) (rnode : RelFileNode) (segno : Nat) : FileName :=
  if segno > 0 then relpath dataDir rnode ++ '.' :: decimal segno else relpath dataDir rnode

/-- `block_num / RELSEG_SIZE` of the block number as an `int`. -/
def segmentOf (blockNum : BlockNumber) : Int := Int.tdiv (toInt blockNum.toNat) RELSEG_SIZE

/-- `(long)(BLCKSZ * (block_num % RELSEG_SIZE))`. -/
def seekPos (blockNum : BlockNumber) : Nat := BLCKSZ * (blockNum.toNat % RELSEG_SIZE)

/-- `md_fd_open_seg`; `opens` tells which files can be opened, with or without `O_CREAT`. -/
def mdFdOpenSeg (opens : FileName → Bool → Bool) (dataDir : FileName) (rnode : RelFileNode)
    (segNo : Nat) (creat : Bool) : Option FileName :=
  let path := segpath dataDir rnode segNo
  if opens path creat then some path else none

/-- The loop of `md_fd_get_seg`, with `seg_no` segments to go: the file of the segment it
comes to, and what hangs off `v` then. `none` is an `elog(ERROR)`. -/
def getSegFrom (opens : FileName → Bool → Bool) (dataDir : FileName) (rnode : RelFileNode) :
    Nat → Nat → FileName → List FileName → Option (FileName × List FileName)
  | 0, _, v, chain => some (v, chain)
  | segNo + 1, i, _, path :: chain => do
    let (found, chain) ← getSegFrom opens dataDir rnode segNo (i + 1) path chain
    some (found, path :: chain)
  | segNo + 1, i, _, [] => do
    let path ← mdFdOpenSeg opens dataDir rnode i (segNo = 0)
    let (found, chain) ← getSegFrom opens dataDir rnode segNo (i + 1) path []
    some (found, path :: chain)

/-- `md_fd_get_seg`; the loop runs as long as `seg_no` is positive. -/
def mdFdGetSeg (opens : FileName → Bool → Bool) (dataDir : FileName) (rnode : RelFileNode)
    (chain : List FileName) (blockNum : BlockNumber) : Option (FileName × List FileName) :=
  getSegFrom opens dataDir rnode (segmentOf blockNum).toNat 1 (segpath dataDir rnode 0) chain

/-- The path `md_fd_blind_get_seg` opens. -/
def mdFdBlindGetSeg (dataDir : FileName) (rnode : RelFileNode) (blockNum : BlockNumber) : FileName :=
  let path := relpath dataDir rnode
  let segno := segmentOf blockNum
  if segno > 0 then path ++ '.' :: decimal segno.toNat else path

/-! ## Paths -/

/-- What a segment's path has behind that of the relation. -/
def suffix (segno : Nat) : List Char := if segno > 0 then '.' :: decimal segno else []

theorem segpath_eq (dataDir : FileName) (rnode : RelFileNode) (segno : Nat) :
    segpath dataDir rnode segno = relpath dataDir rnode ++ suffix segno := by
  unfold segpath suffix
  split
  · rfl
  · rw [List.append_nil]

theorem head_suffix (segno : Nat) : ∀ c ∈ (suffix segno).head?, c = '.' := by
  unfold suffix
  split
  · exact head_cons _ _
  · exact fun c hc => nomatch hc

theorem suffix_injective : Function.Injective suffix := by
  intro m n h
  unfold suffix at h
  split at h <;> split at h
  · exact decimal_injective (List.cons.inj h).2
  · cases h
  · cases h
  · omega

theorem dot_not_mem (n : Nat) : '.' ∉ decimal n := not_mem_decimal rfl n

theorem slash_not_mem (n : Nat) : SEP_CHAR ∉ decimal n := not_mem_decimal rfl n

/-- Relation and segment are told by the path. -/
theorem segpath_inj {dataDir : FileName} {rnode rnode' : RelFileNode} {m n : Nat}
    (h : segpath dataDir rnode m = segpath dataDir rnode' n) : rnode = rnode' ∧ m = n := by
  rw [segpath_eq, segpath_eq] at h
  obtain ⟨tbl, rel⟩ := rnode
  obtain ⟨tbl', rel'⟩ := rnode'
  have hrel : ∀ {s s' : List Char}, decimal rel.toNat ++ suffix m = s → decimal rel'.toNat ++ suffix n = s' →
      s = s' → rel = rel' ∧ m = n := by
    rintro _ _ rfl rfl heq
    obtain ⟨hd, hs⟩ := append_inj_of_sep (dot_not_mem _) (dot_not_mem _) (head_suffix m) (head_suffix n) heq
    exact ⟨UInt32.toNat_inj.mp (decimal_injective hd), suffix_injective hs⟩
  unfold relpath at h
  dsimp only at h
  by_cases h0 : tbl = 0 <;> by_cases h0' : tbl' = 0
  · rw [if_pos h0, if_pos h0'] at h
    simp only [List.append_assoc, List.cons_append] at h
    obtain ⟨rfl, hmn⟩ := hrel rfl rfl (List.cons.inj (List.append_cancel_left
      (List.cons.inj (List.append_cancel_left h)).2)).2
    exact ⟨by rw [h0, h0'], hmn⟩
  · rw [if_pos h0, if_neg h0'] at h
    simp only [List.append_assoc, List.cons_append] at h
    have htail := (List.cons.inj (List.append_cancel_left h)).2
    exact absurd (List.cons.inj htail).1 (by decide)
  · rw [if_neg h0, if_pos h0'] at h
    simp only [List.append_assoc, List.cons_append] at h
    have htail := (List.cons.inj (List.append_cancel_left h)).2
    exact absurd (List.cons.inj htail).1 (by decide)
  · rw [if_neg h0, if_neg h0'] at h
    simp only [List.append_assoc, List.cons_append] at h
    have htail := (List.cons.inj (List.append_cancel_left
      (List.cons.inj (List.append_cancel_left h)).2)).2
    obtain ⟨hd, hs⟩ := append_inj_of_sep (slash_not_mem _) (slash_not_mem _)
      (head_cons _ _) (head_cons _ _) htail
    obtain ⟨rfl, hmn⟩ := hrel rfl rfl (List.cons.inj hs).2
    exact ⟨by rw [UInt32.toNat_inj.mp (decimal_injective hd)], hmn⟩

/-! ## Segments -/

variable {opens : FileName → Bool → Bool} {dataDir : FileName} {rnode : RelFileNode}

/-- Each segment in a chain has the number of its place. -/
def Numbered (dataDir : FileName) (rnode : RelFileNode) (i : Nat) (chain : List FileName) : Prop :=
  ∀ k path, chain[k]? = some path → path = segpath dataDir rnode (i + k)

theorem Numbered.nil {i : Nat} : Numbered dataDir rnode i [] := by
  intro k p hk
  rw [List.getElem?_nil] at hk
  cases hk

theorem Numbered.tail {i : Nat} {path : FileName} {chain : List FileName}
    (h : Numbered dataDir rnode i (path :: chain)) : Numbered dataDir rnode (i + 1) chain := by
  intro k p hk
  rw [Nat.add_assoc, Nat.add_comm 1 k]
  exact h (k + 1) p hk

theorem Numbered.cons {i : Nat} {chain : List FileName} (h : Numbered dataDir rnode (i + 1) chain) :
    Numbered dataDir rnode i (segpath dataDir rnode i :: chain) := by
  intro k p hk
  cases k with
  | zero => exact (Option.some.inj hk).symm
  | succ k =>
    rw [Nat.add_comm k 1, ← Nat.add_assoc]
    exact h k p hk

/-- The loop ends at the segment it was sent to, and opens segments with their own numbers. -/
theorem getSegFrom_spec {segNo i : Nat} {v found : FileName} {chain chain' : List FileName}
    (hv : v = segpath dataDir rnode (i - 1)) (hi : 0 < i) (h : Numbered dataDir rnode i chain)
    (hrun : getSegFrom opens dataDir rnode segNo i v chain = some (found, chain')) :
    found = segpath dataDir rnode (i - 1 + segNo) ∧ Numbered dataDir rnode i chain' := by
  induction segNo generalizing i v chain found chain' with
  | zero =>
    obtain ⟨rfl, rfl⟩ := Prod.mk.inj (Option.some.inj hrun)
    exact ⟨hv, h⟩
  | succ segNo ih =>
    have hnext : ∀ {chain rest}, Numbered dataDir rnode (i + 1) chain →
        getSegFrom opens dataDir rnode segNo (i + 1) (segpath dataDir rnode i) chain =
          some (found, rest) → found = segpath dataDir rnode (i - 1 + (segNo + 1)) ∧
        Numbered dataDir rnode i (segpath dataDir rnode i :: rest) := by
      intro chain rest hnum hrest
      obtain ⟨hfound, hnum'⟩ := ih rfl (Nat.succ_pos i) hnum hrest
      refine ⟨hfound.trans (congrArg _ ?_), hnum'.cons⟩
      omega
    cases chain with
    | nil =>
      unfold getSegFrom mdFdOpenSeg at hrun
      dsimp only at hrun
      split at hrun
      · rw [Option.bind_eq_bind, Option.bind_some, Option.bind_eq_bind, Option.bind_eq_some_iff] at hrun
        obtain ⟨⟨found', rest⟩, hrest, heq⟩ := hrun
        obtain ⟨rfl, rfl⟩ := Prod.mk.inj (Option.some.inj heq)
        exact hnext .nil hrest
      · cases hrun
    | cons path chain =>
      unfold getSegFrom at hrun
      rw [Option.bind_eq_bind, Option.bind_eq_some_iff] at hrun
      obtain ⟨⟨found', rest⟩, hrest, heq⟩ := hrun
      obtain ⟨rfl, rfl⟩ := Prod.mk.inj (Option.some.inj heq)
      obtain rfl : path = segpath dataDir rnode i := h 0 path rfl
      exact hnext h.tail hrest

/-- Segments that can be opened are found. -/
theorem getSegFrom_isSome (hopens : ∀ path creat, opens path creat = true) {segNo i : Nat} {v : FileName}
    {chain : List FileName} : (getSegFrom opens dataDir rnode segNo i v chain).isSome := by
  induction segNo generalizing i v chain with
  | zero => rfl
  | succ segNo ih =>
    cases chain with
    | nil =>
      unfold getSegFrom mdFdOpenSeg
      dsimp only
      rw [if_pos (hopens _ _)]
      obtain ⟨r, hr⟩ := Option.isSome_iff_exists.mp (@ih (i + 1) (segpath dataDir rnode i) [])
      rw [Option.bind_eq_bind, Option.bind_some, hr]
      rfl
    | cons path chain =>
      unfold getSegFrom
      obtain ⟨r, hr⟩ := Option.isSome_iff_exists.mp (@ih (i + 1) path chain)
      rw [hr]
      rfl

/-! ## Addresses -/

/-- File and position of a block, for a caller that knows the relation only. -/
def blindAddress (dataDir : FileName) (block : RelFileNode × BlockNumber) : FileName × Nat :=
  (mdFdBlindGetSeg dataDir block.1 block.2, seekPos block.2)

theorem mdFdBlindGetSeg_eq (dataDir : FileName) (rnode : RelFileNode) (blockNum : BlockNumber) :
    mdFdBlindGetSeg dataDir rnode blockNum = segpath dataDir rnode (segmentOf blockNum).toNat := by
  unfold mdFdBlindGetSeg segpath
  dsimp only
  exact if_congr (by omega) rfl rfl

theorem mdFdGetSeg_spec {chain chain' : List FileName} {found : FileName} {blockNum : BlockNumber}
    (h : Numbered dataDir rnode 1 chain)
    (hrun : mdFdGetSeg opens dataDir rnode chain blockNum = some (found, chain')) :
    found = mdFdBlindGetSeg dataDir rnode blockNum ∧ Numbered dataDir rnode 1 chain' := by
  rw [mdFdBlindGetSeg_eq]
  obtain ⟨hfound, hnum⟩ := getSegFrom_spec rfl Nat.one_pos h hrun
  rw [Nat.sub_self, Nat.zero_add] at hfound
  exact ⟨hfound, hnum⟩

/-- Up to `2 ^ 31` blocks the `int` is the block number. -/
theorem segmentOf_eq {blockNum : BlockNumber} (h : blockNum.toNat < 2 ^ 31) :
    segmentOf blockNum = (blockNum.toNat / RELSEG_SIZE : Nat) := by
  have hint : toInt blockNum.toNat = blockNum.toNat := by
    unfold toInt
    rw [Int.bmod_def]
    split <;> omega
  unfold segmentOf
  rw [hint]
  rfl

/-- Beyond that it is negative, and the block is looked for in the first segment. -/
theorem segmentOf_le_zero {blockNum : BlockNumber} (h : 2 ^ 31 ≤ blockNum.toNat) :
    segmentOf blockNum ≤ 0 := by
  have hlt := blockNum.toNat_lt
  have hint : toInt blockNum.toNat < 0 := by
    unfold toInt
    rw [Int.bmod_def]
    split <;> omega
  obtain ⟨k, hk⟩ := Int.eq_ofNat_of_zero_le (Int.neg_nonneg_of_nonpos (Int.le_of_lt hint))
  have hneg : toInt blockNum.toNat = -(k : Int) := by omega
  unfold segmentOf
  rw [hneg, Int.neg_tdiv]
  have hquot : 0 ≤ Int.tdiv (k : Int) RELSEG_SIZE :=
    Int.tdiv_nonneg (Int.natCast_nonneg _) (Int.natCast_nonneg _)
  omega

theorem blindAddress_injOn {n : Nat} (hn : n ≤ 2 ^ 31) (dataDir : FileName) :
    Set.InjOn (blindAddress dataDir) {block | block.2.toNat < n} := by
  rintro ⟨rnode, b⟩ hb ⟨rnode', b'⟩ hb' heq
  obtain ⟨hpath, hpos⟩ := Prod.mk.inj heq
  have hlt : b.toNat < 2 ^ 31 := Nat.lt_of_lt_of_le hb hn
  have hlt' : b'.toNat < 2 ^ 31 := Nat.lt_of_lt_of_le hb' hn
  dsimp only at hpath hpos
  rw [mdFdBlindGetSeg_eq, mdFdBlindGetSeg_eq, segmentOf_eq hlt, segmentOf_eq hlt'] at hpath
  obtain ⟨hrnode, hseg⟩ := segpath_inj hpath
  unfold seekPos BLCKSZ at hpos
  have hblock : b.toNat = b'.toNat := by
    unfold RELSEG_SIZE at hseg hpos
    omega
  rw [hrnode, UInt32.toNat_inj.mp hblock]

/-- The block behind them is taken for the first one. -/
theorem blindAddress_wraps (dataDir : FileName) (rnode : RelFileNode) :
    blindAddress dataDir (rnode, 0x80000000) = blindAddress dataDir (rnode, 0) := by
  have hseg : (segmentOf 0x80000000).toNat = (segmentOf 0).toNat := by
    have hzero : segmentOf 0 = ((0 / RELSEG_SIZE : Nat) : Int) := segmentOf_eq (by decide)
    rw [Int.toNat_of_nonpos (segmentOf_le_zero (by decide)), hzero, Nat.zero_div]
    rfl
  have hpos : seekPos 0x80000000 = seekPos 0 := by decide
  unfold blindAddress
  dsimp only
  rw [mdFdBlindGetSeg_eq, mdFdBlindGetSeg_eq, hseg, hpos]

/-- Both ways to a block lead to the same file and position, and they keep the blocks
`0` to `n - 1` of all relations apart exactly when there are no more than `2 ^ 31`. -/
theorem md_addresses (opens : FileName → Bool → Bool) (dataDir : FileName) :
    (∀ (rnode : RelFileNode) (chain : List FileName) (blockNum : BlockNumber),
      Numbered dataDir rnode 1 chain →
      (∀ found chain', mdFdGetSeg opens dataDir rnode chain blockNum = some (found, chain') →
        (found, seekPos blockNum) = blindAddress dataDir (rnode, blockNum) ∧
          Numbered dataDir rnode 1 chain') ∧
      ((∀ path creat, opens path creat = true) →
        (mdFdGetSeg opens dataDir rnode chain blockNum).isSome)) ∧
    ∀ n ≤ INVALID_BLOCK_NUMBER.toNat,
      (Set.InjOn (blindAddress dataDir) {block | block.2.toNat < n} ↔ n ≤ 2 ^ 31) := by
  refine ⟨fun rnode chain blockNum hnum => ⟨fun found chain' hrun => ?_, fun h => getSegFrom_isSome h⟩,
    fun n hn => ⟨fun hinj => ?_, fun hle => blindAddress_injOn hle dataDir⟩⟩
  · obtain ⟨hfound, hnum'⟩ := mdFdGetSeg_spec hnum hrun
    refine ⟨?_, hnum'⟩
    unfold blindAddress
    rw [hfound]
  · by_contra hgt
    have hlt : (2 : Nat) ^ 31 < n := Nat.not_le.mp hgt
    have hlast : ((⟨0, 0⟩, 0x80000000) : RelFileNode × BlockNumber) ∈
        {block : RelFileNode × BlockNumber | block.2.toNat < n} := hlt
    have hfirst : ((⟨0, 0⟩, 0) : RelFileNode × BlockNumber) ∈
        {block : RelFileNode × BlockNumber | block.2.toNat < n} := Nat.zero_lt_of_lt hlt
    exact absurd (hinj hlast hfirst (blindAddress_wraps dataDir ⟨0, 0⟩)) (by decide)

/-- Block `200000` of a relation with one open segment is found, and the first `2 ^ 31`
blocks of all relations have places of their own. -/
theorem md_addresses_example :
    (mdFdGetSeg (fun _ _ => true) "/data".toList ⟨1, 1259⟩ [] 200000).isSome ∧
    Set.InjOn (blindAddress "/data".toList) {block | block.2.toNat < 2 ^ 31} :=
  ⟨((md_addresses (fun _ _ => true) "/data".toList).1 ⟨1, 1259⟩ [] 200000 .nil).2 fun _ _ => rfl,
    ((md_addresses (fun _ _ => true) "/data".toList).2 (2 ^ 31) (by decide)).mpr (Nat.le_refl _)⟩

/-- Block `2 ^ 31` of `pg_class` is written to the place of block `0`. -/
theorem md_addresses_overlap :
    (mdFdGetSeg (fun _ _ => true) "/data".toList ⟨1, 1259⟩ [] 0x80000000, seekPos 0x80000000) =
      (mdFdGetSeg (fun _ _ => true) "/data".toList ⟨1, 1259⟩ [] 0, seekPos 0) ∧
    (0x80000000 : BlockNumber) ≠ 0 ∧ (0x80000000 : BlockNumber) ≠ INVALID_BLOCK_NUMBER := by
  decide +kernel

end PostgresV7.Smgr
