import PostgresV7.HeapTuple.Copy
import PostgresV7.Page.Run
import PostgresV7.Smgr.ArrayRun

/-!
# A tuple on a page in a file (`heaptuple.c`, `bufpage.c`, `md.c`)

From the values a tuple is formed of to the attributes that are read when its block has been
written to the relation and read again.
-/

namespace PostgresV7.Heap

open ByteMem Bufpage Md Outcomes Fd Smgr

/-- What `page_add_item` is given: `t_data` and `t_len`. -/
def tupleItem (t : HeapTuple) : List UInt8 := slice t.mem t.tData t.tLen

/-- The tuple that a line pointer of a page points to. -/
def pageTuple (page : Page) (blockNum offsetNum : Nat) : HeapTuple where
  tLen := (getLinp page (offsetNum - 1)).lpLen
  tSelf := ⟨blockNum, offsetNum⟩
  tTableOid := INVALID_OID
  tData := (getLinp page (offsetNum - 1)).lpOff
  mem := page

/-- The bytes of a page, as a block. -/
def pageBlock (page : Page) : Block := ⟨slice page 0 BLCKSZ, length_slice page 0 BLCKSZ⟩

/-- A buffer that a block was read into, as a page. -/
def bufferPage (buffer : List UInt8) : Page := fun b => buffer.getD b 0

theorem bufferPage_pageBlock (page : Page) {b : Nat} (h : b < BLCKSZ) :
    bufferPage (pageBlock page).bytes b = page b := by
  have hlt : b < (slice page 0 BLCKSZ).length := by rwa [length_slice]
  unfold bufferPage pageBlock
  rw [List.getD_eq_getElem _ _ hlt, getElem_slice, Nat.zero_add]

variable {p : Page} {items : List (List UInt8)} {k : Nat} {t : HeapTuple}

/-- A page that has the tuple's bytes has the tuple, also after the page went through a block. -/
theorem sameBytes_pageTuple (hr : Bufpage.Represents p items) (hk : items[k]? = some (tupleItem t))
    (blockNum : Nat) :
    SameBytes t (pageTuple (bufferPage (pageBlock p).bytes) blockNum (k + 1)) := by
  obtain ⟨hlt, hitem⟩ := List.getElem?_eq_some_iff.mp hk
  have hB : BLCKSZ = 8192 := rfl
  have hlower := hr.valid.lower
  have hroom := hr.valid.room
  have hupper := hr.valid.upper_le
  have hspecial := hr.valid.special_le
  have hlinp : getLinp (bufferPage (pageBlock p).bytes) k = getLinp p k :=
    getLinp_congr fun j hj => bufferPage_pageBlock p (by omega)
  have hend := (hr.valid.inside k hlt (hr.used k hlt)).2
  have hinside := lt_extentEnd (fits_getLinp p k)
  have hcontents : slice p (getLinp p k).lpOff (getLinp p k).lpLen = slice t.mem t.tData t.tLen :=
    (hr.contents k hlt).trans hitem
  have hlen : (getLinp p k).lpLen = t.tLen := by
    have hlengths := congrArg List.length hcontents
    rwa [length_slice, length_slice] at hlengths
  constructor
  · rw [pageTuple, Nat.add_sub_cancel, hlinp, hlen]
  · intro i _ hi
    rw [hlen] at hcontents hinside
    simp only [pageTuple, Nat.add_sub_cancel, hlinp]
    rw [bufferPage_pageBlock p (by omega)]
    have hi' : i < (slice p (getLinp p k).lpOff t.tLen).length := by rwa [length_slice]
    have hbyte := List.getElem_of_eq hcontents hi'
    rwa [getElem_slice, getElem_slice] at hbyte

/-- The block is read at the end of a run. -/
theorem arrayRun_read {rnode : RelFileNode} {ops : List Md.Op} {array array' : List Block}
    {results : List Md.Result}
    {blockNum : BlockNumber} {block : Block} (hops : arrayRun rnode ops array = some (results, array'))
    (hblock : array'[blockNum.toNat]? = some block) :
    arrayRun rnode (ops ++ [.read rnode blockNum]) array =
      some (results ++ [.buffer .SM_SUCCESS block.bytes], array') := by
  induction ops generalizing array results with
  | nil =>
    obtain ⟨rfl, rfl⟩ := Prod.mk.inj (Option.some.inj hops)
    simp only [List.nil_append, arrayRun, arrayStep, if_true, hblock, Option.map_some, Option.bind_eq_bind,
      Option.bind_some]
  | cons op ops ih =>
    obtain ⟨⟨result, array₁⟩, hop, hops⟩ := Option.bind_eq_some_iff.mp hops
    obtain ⟨⟨results₁, array₂⟩, hrest, heq⟩ := Option.bind_eq_some_iff.mp hops
    obtain ⟨rfl, rfl⟩ := Prod.mk.inj (Option.some.inj heq)
    exact Option.bind_eq_some_iff.mpr ⟨(result, array₁), hop, Option.bind_eq_some_iff.mpr ⟨_, ih hrest, rfl⟩⟩

section

variable {base : Nat → Prop} {pick : Kernel → Option Nat} {room : Nat} {allowed : Md.Fault → Prop}
  {md : MdState Kernel} {kern : Kernel} {rnode : RelFileNode} {refs : List Ref} {array array' : List Block}
  {ops : List Md.Op} {results : List Md.Result} {src raw raw' : Mem} {chunk specialSize : Nat} {desc : TupleDesc}
  {value : Nat → Datum} {nulls : Nat → Char} {p₀ : Page} {pageOps : List PageOp} {blockNum : BlockNumber}

end

/-! ## One tuple in one block -/

theorem emptyRelation_represents : Md.Represents (fun d => emptyRelation.table d ≠ none) 16400
    (mdInit "/data".toList false (FdState.init "/data".toList true emptyRelation)) (noDescriptors emptyRelation)
    ⟨1, 7⟩ [] [] := by
  have hdir : ∀ {path inode}, emptyRelation.directory path = some inode →
      path = segpath "/data".toList ⟨1, 7⟩ 0 ∧ inode = 0 := by
    intro path inode h
    obtain ⟨hpath, heq⟩ := Option.ite_none_right_eq_some.mp h
    exact ⟨hpath, (Option.some.inj heq).symm⟩
  have hlaid : ∀ i, content emptyRelation (segpath "/data".toList ⟨1, 7⟩ i) =
      (Blocks.window RELSEG_SIZE ([] : List Block) i).flatMap Block.bytes := by
    intro i
    rw [Blocks.window_of_le (Nat.zero_le _)]
    unfold content
    split <;> rfl
  have hbehind : ∀ i, emptyRelation.directory (segpath "/data".toList ⟨1, 7⟩ (i + 1)) ≠ none →
      (i + 1) * RELSEG_SIZE ≤ ([] : List Block).length := by
    intro i hi
    obtain ⟨inode, hinode⟩ := Option.ne_none_iff_exists'.mp hi
    exact absurd (segpath_inj (hdir hinode).1).2 (Nat.succ_ne_zero i)
  exact represents_init "/data".toList false true (fun _ => Nat.zero_le _)
    (fun path inode h => by rw [(hdir h).2]; exact Nat.one_pos)
    (fun path path' inode h h' => (hdir h).1.trans (hdir h').1.symm) (by decide)
    (Nat.zero_le _) hlaid hbehind (by decide)

end PostgresV7.Heap
