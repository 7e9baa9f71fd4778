import PostgresV7.Tupdesc.Tupdesc
import PostgresV7.Lib.BlockHeap

/-!
# Copying and freeing a tuple descriptor (`tupdesc.c`, `palloc.c`)

A descriptor is a tree of blocks: itself, the array of attribute pointers, the attributes, the constraints
with their two arrays, and the strings. `memcpy` copies pointers with the structs they are in. A pointer is
followed only to a block of its type that is still allocated, else there is no result. The type in
`sizeof(struct tupleDesc)` is read as `TupleDescData`.
-/

namespace PostgresV7.Tupdesc

open BlockHeap

structure DescBlock where
  natts : Int
  attrs : Ptr
  constr : Ptr

structure ConstrBlock where
  defval : Ptr
  check : Ptr
  numDefval : UInt16
  numCheck : UInt16
  hasNotNull : Bool

inductive Block where
  | desc (desc : DescBlock)
  | attrArray (attrs : List Ptr)
  | attr (attr : FormDataPgAttribute)
  | constr (constr : ConstrBlock)
  | defvalArray (defval : List (AttrDefault Ptr))
  | checkArray (check : List (ConstrCheck Ptr))
  | str (s : CString)

abbrev DescHeap := Heap Block

def Block.desc? : Block → Option DescBlock
  | .desc block => some block
  | _ => none

def Block.attrArray? : Block → Option (List Ptr)
  | .attrArray attrs => some attrs
  | _ => none

def Block.attr? : Block → Option FormDataPgAttribute
  | .attr block => some block
  | _ => none

def Block.constr? : Block → Option ConstrBlock
  | .constr block => some block
  | _ => none

def Block.defvalArray? : Block → Option (List (AttrDefault Ptr))
  | .defvalArray defval => some defval
  | _ => none

def Block.checkArray? : Block → Option (List (ConstrCheck Ptr))
  | .checkArray check => some check
  | _ => none

def Block.str? : Block → Option CString
  | .str s => some s
  | _ => none

/-- What a pointer leads to, as a block of the type it has. -/
def deref {α : Type} (type : Block → Option α) (h : DescHeap) (p : Ptr) : Option α := (h.get p).bind type

/-- The first `n` elements of an array that has so many. -/
def memcpy {α : Type} (l : List α) (n : Nat) : Option (List α) := if n ≤ l.length then some (l.take n) else none

/-- `a[i] = f(a[i])`, in the array at `dst`. -/
def setEntry {α : Type} (type : Block → Option (List α)) (block : List α → Block) (dst : Ptr) (i : Nat) (f : α → α)
    (h : DescHeap) : Option DescHeap := do
  let l ← deref type h dst
  if i < l.length then h.store dst (block (l.modify i f)) else none

def pstrdup (A : Allocator Block) (s : Ptr) (h : DescHeap) : Option (Ptr × DescHeap) := do
  let str ← deref Block.str? h s
  return h.alloc A (.str str)

/-- `if (s) { p = pstrdup(s); }`, with what stores the pointer. -/
def dupString (A : Allocator Block) (s : Ptr) (set : Ptr → DescHeap → Option DescHeap) (h : DescHeap) : Option DescHeap :=
  if s = NULL then some h
  else do
    let (p, h) ← pstrdup A s h
    set p h

section

variable (A : Allocator Block)

/-! ## `create_tuple_desc_copy_constr`

`junk` is what stands in memory that has not been written. -/

def copyAttr (src dst : Ptr) (i : Nat) (h : DescHeap) : Option DescHeap := do
  let attr ← deref Block.attr? h (← (← deref Block.attrArray? h src)[i]?)
  let (p, h) := h.alloc A (.attr attr)
  setEntry Block.attrArray? .attrArray dst i (fun _ => p) h

def copyDefval (src dst : Ptr) (i : Nat) (h : DescHeap) : Option DescHeap := do
  let defval ← (← deref Block.defvalArray? h src)[i]?
  dupString A defval.adbin
    (fun p => setEntry Block.defvalArray? .defvalArray dst i fun defval => { defval with adbin := p }) h

def copyCheck (src dst : Ptr) (i : Nat) (h : DescHeap) : Option DescHeap := do
  let check ← (← deref Block.checkArray? h src)[i]?
  let h ← dupString A check.ccname
    (fun p => setEntry Block.checkArray? .checkArray dst i fun check => { check with ccname := p }) h
  dupString A check.ccbin
    (fun p => setEntry Block.checkArray? .checkArray dst i fun check => { check with ccbin := p }) h

/-- An array of a `TupleConstr` and its entries, if it has any. -/
def copyArray {α : Type} (type : Block → Option (List α)) (block : List α → Block) (set : Ptr → ConstrBlock → ConstrBlock)
    (round : Ptr → Nat → DescHeap → Option DescHeap) (num : UInt16) (src cpy : Ptr) (h : DescHeap) : Option DescHeap :=
  if 0 < num then do
    let l ← memcpy (← deref type h src) num.toNat
    let (p, h) := h.alloc A (block l)
    let constr ← deref Block.constr? h cpy
    let h ← h.store cpy (.constr (set p constr))
    forDown (round p) num.toNat h
  else some h

/-- `cpy->defval`. -/
def copyDefvals (constr : ConstrBlock) (cpy : Ptr) (h : DescHeap) : Option DescHeap :=
  copyArray A Block.defvalArray? .defvalArray (fun p cpy => { cpy with defval := p }) (copyDefval A constr.defval)
    constr.numDefval constr.defval cpy h

/-- `cpy->check`. -/
def copyChecks (constr : ConstrBlock) (cpy : Ptr) (h : DescHeap) : Option DescHeap :=
  copyArray A Block.checkArray? .checkArray (fun p cpy => { cpy with check := p }) (copyCheck A constr.check)
    constr.numCheck constr.check cpy h

/-- `desc->constr`. -/
def copyConstr (junk src : Ptr) (h : DescHeap) : Option (Ptr × DescHeap) :=
  if src = NULL then some (NULL, h)
  else do
    let constr ← deref Block.constr? h src
    let (cpy, h) := h.alloc A (.constr { constr with defval := junk, check := junk })
    let h ← copyDefvals A constr cpy h
    let h ← copyChecks A constr cpy h
    return (cpy, h)

def createTupleDescCopyConstr (junk tupdesc : Ptr) (h : DescHeap) : Option (Ptr × DescHeap) := do
  let src ← deref Block.desc? h tupdesc
  let (desc, h) := h.alloc A (.desc ⟨src.natts, junk, junk⟩)
  let (attrs, h) := h.alloc A (.attrArray (List.replicate src.natts.toNat junk))
  let h ← h.store desc (.desc ⟨src.natts, attrs, junk⟩)
  let h ← forUp (copyAttr A src.attrs attrs) src.natts.toNat h
  let (constr, h) ← copyConstr A junk src.constr h
  let h ← h.store desc (.desc ⟨src.natts, attrs, constr⟩)
  return (desc, h)

end

/-! ## `free_tuple_desc` -/

/-- `if (p) { pfree(p); }`. -/
def pfreeString (p : Ptr) (h : DescHeap) : Option DescHeap := if p = NULL then some h else h.free p

def freeAttr (attrs : Ptr) (i : Nat) (h : DescHeap) : Option DescHeap := do
  h.free (← (← deref Block.attrArray? h attrs)[i]?)

def freeDefval (attrdef : Ptr) (i : Nat) (h : DescHeap) : Option DescHeap := do
  let defval ← (← deref Block.defvalArray? h attrdef)[i]?
  pfreeString defval.adbin h

def freeCheck (check : Ptr) (i : Nat) (h : DescHeap) : Option DescHeap := do
  let entry ← (← deref Block.checkArray? h check)[i]?
  let h ← pfreeString entry.ccname h
  pfreeString entry.ccbin h

/-- An array with what its entries own, if there are any. -/
def freeArray (free : Nat → DescHeap → Option DescHeap) (num : UInt16) (array : Ptr) (h : DescHeap) : Option DescHeap :=
  if 0 < num then do
    let h ← forDown free num.toNat h
    h.free array
  else some h

def freeConstr (p : Ptr) (h : DescHeap) : Option DescHeap :=
  if p = NULL then some h
  else do
    let constr ← deref Block.constr? h p
    let h ← freeArray (freeDefval constr.defval) constr.numDefval constr.defval h
    let h ← freeArray (freeCheck constr.check) constr.numCheck constr.check h
    h.free p

/-- `free_tuple_desc`; its last call is to `pfre`. -/
def freeTupleDesc (pfre : Ptr → DescHeap → Option DescHeap) (tupdesc : Ptr) (h : DescHeap) : Option DescHeap := do
  let desc ← deref Block.desc? h tupdesc
  let h ← forUp (freeAttr desc.attrs) desc.natts.toNat h
  let h ← h.free desc.attrs
  let h ← freeConstr desc.constr h
  pfre tupdesc h

/-! ## Descriptors in the heap -/

/-- Where the constraints of a descriptor are. -/
structure ConstrLayout where
  constr : Ptr
  defval : Ptr
  check : Ptr
  defvals : List (AttrDefault Ptr)
  checks : List (ConstrCheck Ptr)

/-- Where the blocks of a descriptor are. -/
structure Layout where
  desc : Ptr
  attrs : Ptr
  attrPtrs : List Ptr
  constr : Option ConstrLayout

def strBlocks (p : Ptr) : List Ptr := if p = NULL then [] else [p]

def defvalBlocks (defval : AttrDefault Ptr) : List Ptr := strBlocks defval.adbin

def checkBlocks (check : ConstrCheck Ptr) : List Ptr := strBlocks check.ccname ++ strBlocks check.ccbin

/-- An array and what its entries own; an empty one is not allocated. -/
def arrayBlocks {α : Type} (array : Ptr) (l : List α) (blocks : α → List Ptr) : List Ptr :=
  if l.isEmpty then [] else array :: l.flatMap blocks

def ConstrLayout.blocks (l : ConstrLayout) : List Ptr :=
  l.constr :: (arrayBlocks l.defval l.defvals defvalBlocks ++ arrayBlocks l.check l.checks checkBlocks)

/-- The blocks of a descriptor. -/
def Layout.blocks (L : Layout) : List Ptr :=
  L.desc :: L.attrs :: (L.attrPtrs ++ (L.constr.map ConstrLayout.blocks).getD [])

variable {h h' : DescHeap}

def RepStr (h : DescHeap) (p : Ptr) : Option CString → Prop
  | none => p = NULL
  | some s => h.get p = some (.str s)

structure RepDefval (h : DescHeap) (defval : AttrDefault Ptr) (value : AttrDefault (Option CString)) : Prop where
  adnum : defval.adnum = value.adnum
  adbin : RepStr h defval.adbin value.adbin

structure RepCheck (h : DescHeap) (check : ConstrCheck Ptr) (value : ConstrCheck (Option CString)) : Prop where
  ccname : RepStr h check.ccname value.ccname
  ccbin : RepStr h check.ccbin value.ccbin

structure RepConstr (h : DescHeap) (l : ConstrLayout) (value : TupleConstr (Option CString)) : Prop where
  block : h.get l.constr = some (.constr ⟨l.defval, l.check, value.numDefval, value.numCheck, value.hasNotNull⟩)
  defvalArray : l.defvals ≠ [] → h.get l.defval = some (.defvalArray l.defvals)
  checkArray : l.checks ≠ [] → h.get l.check = some (.checkArray l.checks)
  defvals : List.Forall₂ (RepDefval h) l.defvals value.defval
  checks : List.Forall₂ (RepCheck h) l.checks value.check

/-- The blocks hold the descriptor, field for field. -/
structure Represents (h : DescHeap) (L : Layout) (value : TupleDescData (Option CString)) : Prop where
  desc : h.get L.desc = some (.desc ⟨value.natts, L.attrs, (L.constr.map ConstrLayout.constr).getD NULL⟩)
  attrArray : h.get L.attrs = some (.attrArray L.attrPtrs)
  attrs : List.Forall₂ (fun p attr => h.get p = some (.attr attr)) L.attrPtrs value.attrs
  constr : Option.Rel (RepConstr h) L.constr value.constr

/-! ### What keeps them -/

/-- The blocks in `ps` stay as they are. -/
def Keeps (h h' : DescHeap) (ps : List Ptr) : Prop := ∀ p ∈ ps, ∀ b, h.get p = some b → h'.get p = some b

variable {ps qs : List Ptr} {p : Ptr} {s : Option CString}

theorem Keeps.mono (hk : Keeps h h' ps) (hsub : qs ⊆ ps) : Keeps h h' qs := fun p hp => hk p (hsub hp)

theorem RepStr.keep (hr : RepStr h p s) (hk : Keeps h h' (strBlocks p)) : RepStr h' p s := by
  cases s with
  | none => exact hr
  | some s =>
    refine hk p ?_ _ hr
    rw [strBlocks, if_neg (Heap.ne_null_of_get hr)]
    exact List.mem_singleton.mpr rfl

theorem RepDefval.keep {defval : AttrDefault Ptr} {value : AttrDefault (Option CString)} (hr : RepDefval h defval value)
    (hk : Keeps h h' (defvalBlocks defval)) : RepDefval h' defval value := ⟨hr.adnum, hr.adbin.keep hk⟩

theorem RepCheck.keep {check : ConstrCheck Ptr} {value : ConstrCheck (Option CString)} (hr : RepCheck h check value)
    (hk : Keeps h h' (checkBlocks check)) : RepCheck h' check value :=
  ⟨hr.ccname.keep (hk.mono (List.subset_append_left _ _)), hr.ccbin.keep (hk.mono (List.subset_append_right _ _))⟩

theorem forall₂_keep {α β : Type} {R R' : α → β → Prop} {l : List α} {values : List β} (hr : List.Forall₂ R l values)
    (hkeep : ∀ x ∈ l, ∀ value, R x value → R' x value) : List.Forall₂ R' l values := by
  induction hr with
  | nil => exact .nil
  | cons hx _ ih =>
    exact .cons (hkeep _ List.mem_cons_self _ hx) (ih fun x hx => hkeep x (List.mem_cons_of_mem _ hx))

theorem mem_arrayBlocks {α : Type} {array : Ptr} {l : List α} (blocks : α → List Ptr) (hne : l ≠ []) :
    array ∈ arrayBlocks array l blocks := by
  rw [arrayBlocks, if_neg (by simpa using hne)]
  exact List.mem_cons_self

theorem entry_subset {α : Type} {array : Ptr} {l : List α} (blocks : α → List Ptr) {x : α} (hx : x ∈ l) :
    blocks x ⊆ arrayBlocks array l blocks := by
  rw [arrayBlocks, if_neg (by simpa using List.ne_nil_of_mem hx)]
  exact fun p hp => List.mem_cons_of_mem _ (List.mem_flatMap.mpr ⟨x, hx, hp⟩)

theorem RepConstr.keep {l : ConstrLayout} {value : TupleConstr (Option CString)} (hr : RepConstr h l value)
    (hk : Keeps h h' l.blocks) : RepConstr h' l value := by
  have hdefvals : arrayBlocks l.defval l.defvals defvalBlocks ⊆ l.blocks :=
    List.subset_cons_of_subset _ (List.subset_append_left _ _)
  have hchecks : arrayBlocks l.check l.checks checkBlocks ⊆ l.blocks :=
    List.subset_cons_of_subset _ (List.subset_append_right _ _)
  refine ⟨hk _ List.mem_cons_self _ hr.block, fun hne => ?_, fun hne => ?_, ?_, ?_⟩
  · exact hk _ (hdefvals (mem_arrayBlocks _ hne)) _ (hr.defvalArray hne)
  · exact hk _ (hchecks (mem_arrayBlocks _ hne)) _ (hr.checkArray hne)
  · exact forall₂_keep hr.defvals fun x hx _ hr => hr.keep (hk.mono (List.Subset.trans (entry_subset _ hx) hdefvals))
  · exact forall₂_keep hr.checks fun x hx _ hr => hr.keep (hk.mono (List.Subset.trans (entry_subset _ hx) hchecks))

theorem relConstr_keep {l : Option ConstrLayout} {value : Option (TupleConstr (Option CString))}
    (hr : Option.Rel (RepConstr h) l value) (hk : Keeps h h' ((l.map ConstrLayout.blocks).getD [])) :
    Option.Rel (RepConstr h') l value := by
  cases hr with
  | none => exact .none
  | some hr => exact .some (hr.keep hk)

/-- A descriptor stays as it is with its blocks. -/
theorem Represents.keep {L : Layout} {value : TupleDescData (Option CString)} (hr : Represents h L value)
    (hk : Keeps h h' L.blocks) : Represents h' L value := by
  have hrest : L.attrPtrs ++ (L.constr.map ConstrLayout.blocks).getD [] ⊆ L.blocks :=
    List.subset_cons_of_subset _ (List.subset_cons_self _ _)
  refine ⟨hk _ List.mem_cons_self _ hr.desc, hk _ (List.mem_cons_of_mem _ List.mem_cons_self) _ hr.attrArray, ?_, ?_⟩
  · exact forall₂_keep hr.attrs fun p hp _ hget => hk p (hrest (List.mem_append_left _ hp)) _ hget
  · exact relConstr_keep hr.constr (hk.mono (List.Subset.trans (List.subset_append_right _ _) hrest))

end PostgresV7.Tupdesc
