import PostgresV7.Fd.Fd
import PostgresV7.Smgr.Segment

/-!
# Magnetic disk storage manager (`md.c`)

A relation is a chain of segment files: a slot of `Md_fdvec` for the first one, and an
`MdfdVec` from `palloc` for each of the others. A `Relation` is known by the node of its
files; `palloc` gives addresses that were never given before.
-/

namespace PostgresV7.Md

open Fd Smgr

/-- Why a call does not return: a fault in `fd.c`, an `ASSERT`, `elog(ERROR)`,
`elog(FATAL)`, a loop without end, or the use of an `MdfdVec` that was freed. -/
inductive Fault where
  | fd (fault : Fd.Fault)
  | assertion
  | elog
  | fatal
  | endless
  | dangling
  deriving DecidableEq, Repr

structure MdfdVec where
  vfd : File
  free : Bool
  lstBcnt : Int
  nextFree : Int
  chain : Option Nat
  deriving DecidableEq, Repr

/-- `MdfdVec*`: a slot of the array, or what `palloc` gave. -/
inductive Ref where
  | slot (fd : Nat)
  | node (address : Nat)
  deriving DecidableEq, Repr

variable {σ α : Type}

/-- The variables of `md.c`, the `rd_fd` of every relation, and the state of `fd.c`. -/
structure MdState (σ : Type) where
  fdvec : Nat → MdfdVec
  nfds : Nat
  mdFree : Int
  curFd : Nat
  nodes : Nat → Option MdfdVec
  nextNode : Nat
  rdFd : RelFileNode → Int
  dataDir : FileName
  bootstrap : Bool
  st : FdState σ

/-- One block. -/
structure Block where
  bytes : List UInt8
  length_eq : bytes.length = BLCKSZ
  deriving DecidableEq

inductive Status where
  | SM_FAIL
  | SM_SUCCESS
  deriving DecidableEq, Repr

/-! ## Calls and memory -/

/-- A call of `fd.c`. -/
def MdState.call (md : MdState σ) (x : FdState σ → Except Fd.Fault (α × FdState σ)) :
    Except Fault (α × MdState σ) :=
  match x md.st with
  | .ok (a, st) => .ok (a, { md with st := st })
  | .error e => .error (.fd e)

/-- A call of a function that returns nothing. -/
def MdState.callUnit (md : MdState σ) (x : FdState σ → Except Fd.Fault (FdState σ)) :
    Except Fault (MdState σ) :=
  match x md.st with
  | .ok st => .ok { md with st := st }
  | .error e => .error (.fd e)

/-- `*v`. -/
def MdState.get (md : MdState σ) : Ref → Except Fault MdfdVec
  | .slot fd => .ok (md.fdvec fd)
  | .node p =>
    match md.nodes p with
    | some v => .ok v
    | none => .error .dangling

/-- `*v = vec`. -/
def MdState.set (md : MdState σ) (v : Ref) (vec : MdfdVec) : Except Fault (MdState σ) :=
  match v with
  | .slot fd => .ok { md with fdvec := Function.update md.fdvec fd vec }
  | .node p =>
    match md.nodes p with
    | some _ => .ok { md with nodes := Function.update md.nodes p (some vec) }
    | none => .error .dangling

/-! ## Slots -/

/-- The array of `md_init`. -/
def initVec (nfds i : Nat) : MdfdVec where
  vfd := 0
  free := true
  lstBcnt := 0
  nextFree := if i + 1 = nfds then -1 else (i + 1 : Nat)
  chain := none

/-- `md_init`. -/
def mdInit (dataDir : FileName) (bootstrap : Bool) (st : FdState σ) : MdState σ where
  fdvec := initVec 100
  nfds := 100
  mdFree := 0
  curFd := 0
  nodes _ := none
  nextNode := 0
  rdFd _ := -1
  dataDir := dataDir
  bootstrap := bootstrap
  st := st

/-- `fdvec_alloc`. -/
def fdvecAlloc (md : MdState σ) : Except Fault (Nat × MdState σ) :=
  if md.mdFree ≥ 0 then
    let fdvec := md.mdFree.toNat
    let vec := md.fdvec fdvec
    if ¬ vec.free then .error .assertion
    else
      let md := { md with
        mdFree := vec.nextFree
        fdvec := Function.update md.fdvec fdvec { vec with free := false } }
      if fdvec ≥ md.curFd then
        if fdvec ≠ md.curFd then .error .assertion
        else .ok (fdvec, { md with curFd := md.curFd + 1 })
      else .ok (fdvec, md)
  else if md.nfds ≠ md.curFd then .error .fatal
  else
    let nfds := md.nfds * 2
    let nvec := fun i => if i < md.curFd then md.fdvec i else initVec nfds i
    .ok (md.curFd, { md with
      nfds := nfds
      fdvec := Function.update nvec md.curFd { nvec md.curFd with free := false }
      mdFree := (md.curFd + 1 : Nat)
      curFd := md.curFd + 1 })

/-- `fdvec_free`. -/
def fdvecFree (md : MdState σ) (fdvec : Nat) : Except Fault (MdState σ) :=
  if ¬ (md.mdFree < 0 ∨ (md.fdvec md.mdFree.toNat).free) then .error .assertion
  else if (md.fdvec fdvec).free then .error .assertion
  else .ok { md with
    fdvec := Function.update md.fdvec fdvec { md.fdvec fdvec with nextFree := md.mdFree, free := true }
    mdFree := fdvec }

/-! ## Opening -/

/-- `md_nblocks_aux`. -/
def mdNblocksAux (os : Os σ) (md : MdState σ) (file : File) : Except Fault (BlockNumber × MdState σ) := do
  let (len, md) ← md.call fun st => fileSeek os st file 0 .SEEK_END
  if len < 0 then .ok (0, md) else .ok (UInt32.ofNat (len.toNat / BLCKSZ), md)

def RDWR : OpenFlags := { access := .O_RDWR }

/-- The mode of all files. -/
def fileMode : Nat := 0o600

/-- `file_name_open_file`, and in bootstrap mode once more with other flags. -/
def openEither (os : Os σ) (md : MdState σ) (path : FileName) (flags others : OpenFlags) :
    Except Fault (Option File × MdState σ) := do
  let (fd, md) ← md.call fun st => fileNameOpenFile os st path flags fileMode
  if fd = none ∧ md.bootstrap then md.call fun st => fileNameOpenFile os st path others fileMode
  else .ok (fd, md)

/-- `md_create`; `none` is `-1`. -/
def mdCreate (os : Os σ) (md : MdState σ) (rnode : RelFileNode) :
    Except Fault (Option Nat × MdState σ) :=
  if ¬ md.rdFd rnode < 0 then .error .assertion
  else do
    let (fd, md) ← openEither os md (relpath md.dataDir rnode) { RDWR with creat := true, excl := true } RDWR
    match fd with
    | none => .ok (none, md)
    | some fd =>
      let (vfd, md) ← fdvecAlloc md
      .ok (some vfd, { md with
        fdvec := Function.update md.fdvec vfd
          { md.fdvec vfd with vfd := fd, free := false, lstBcnt := 0, chain := none } })

/-- `md_open`; `none` is `-1`. -/
def mdOpen (os : Os σ) (md : MdState σ) (rnode : RelFileNode) : Except Fault (Option Nat × MdState σ) :=
  if ¬ md.rdFd rnode < 0 then .error .assertion
  else do
    let (fd, md) ← openEither os md (relpath md.dataDir rnode) RDWR { RDWR with creat := true, excl := true }
    match fd with
    | none => .ok (none, md)
    | some fd =>
      let (vfd, md) ← fdvecAlloc md
      let md := { md with
        fdvec := Function.update md.fdvec vfd { md.fdvec vfd with vfd := fd, free := false } }
      let (nblocks, md) ← mdNblocksAux os md fd
      .ok (some vfd, { md with
        fdvec := Function.update md.fdvec vfd
          { md.fdvec vfd with lstBcnt := toInt nblocks.toNat, chain := none } })

/-- `md_fd_get_reln_fd`. -/
def mdFdGetRelnFd (os : Os σ) (md : MdState σ) (rnode : RelFileNode) : Except Fault (Nat × MdState σ) :=
  if md.rdFd rnode < 0 then do
    let (fd, md) ← mdOpen os md rnode
    match fd with
    | none => .error .elog
    | some fd => .ok (fd, { md with rdFd := Function.update md.rdFd rnode fd })
  else .ok ((md.rdFd rnode).toNat, md)

/-- `md_fd_open_seg`; `none` is `NULL`. -/
def mdFdOpenSeg (os : Os σ) (md : MdState σ) (rnode : RelFileNode) (segNo : Nat) (creat : Bool) :
    Except Fault (Option Nat × MdState σ) := do
  let path := segpath md.dataDir rnode segNo
  let (fd, md) ← md.call fun st => fileNameOpenFile os st path { RDWR with creat := creat } fileMode
  match fd with
  | none => .ok (none, md)
  | some fd =>
    let (nblocks, md) ← mdNblocksAux os md fd
    let v : MdfdVec := ⟨fd, false, toInt nblocks.toNat, 0, none⟩
    .ok (some md.nextNode, { md with
      nodes := Function.update md.nodes md.nextNode (some v)
      nextNode := md.nextNode + 1 })

/-- `v->md_fd_chain`, opened if it is `NULL`. -/
def chainNext (os : Os σ) (md : MdState σ) (rnode : RelFileNode) (v : Ref) (segNo : Nat) (creat : Bool) :
    Except Fault (Ref × MdState σ) := do
  let vec ← md.get v
  match vec.chain with
  | some next => .ok (.node next, md)
  | none =>
    let (next, md) ← mdFdOpenSeg os md rnode segNo creat
    match next with
    | none => .error .elog
    | some next =>
      let vec ← md.get v
      let md ← md.set v { vec with chain := some next }
      .ok (.node next, md)

/-- The loop of `md_fd_get_seg`, with `segNo` segments to go. -/
def getSegLoop (os : Os σ) (rnode : RelFileNode) : Nat → MdState σ → Nat → Ref →
    Except Fault (Ref × MdState σ)
  | 0, md, _, v => .ok (v, md)
  | segNo + 1, md, i, v => do
    let (v, md) ← chainNext os md rnode v i (segNo = 0)
    getSegLoop os rnode segNo md (i + 1) v

/-- `md_fd_get_seg`. -/
def mdFdGetSeg (os : Os σ) (md : MdState σ) (rnode : RelFileNode) (blockNum : Int) :
    Except Fault (MdfdVec × Ref × MdState σ) := do
  let (fd, md) ← mdFdGetRelnFd os md rnode
  let (v, md) ← getSegLoop os rnode (Int.tdiv blockNum RELSEG_SIZE).toNat md 1 (.slot fd)
  let vec ← md.get v
  .ok (vec, v, md)

/-! ## Counting -/

/-- The loop of `md_nblocks`, with `k` steps left before `seg_no` leaves an `int`. -/
def nblocksLoop (os : Os σ) (rnode : RelFileNode) : Nat → MdState σ → Nat → Ref →
    Except Fault (Int × MdState σ)
  | 0, _, _, _ => .error .endless
  | k + 1, md, segNo, v => do
    let vec ← md.get v
    let (nblocks, md) ← mdNblocksAux os md vec.vfd
    let nblocks := toInt nblocks.toNat
    if nblocks > RELSEG_SIZE then .error .fatal
    else
      let vec ← md.get v
      let md ← md.set v { vec with lstBcnt := nblocks }
      if nblocks = RELSEG_SIZE then
        let (v, md) ← chainNext os md rnode v (segNo + 1) true
        nblocksLoop os rnode k md (segNo + 1) v
      else .ok (toInt (segNo * RELSEG_SIZE + nblocks), md)

/-- `md_nblocks`. -/
def mdNblocks (os : Os σ) (md : MdState σ) (rnode : RelFileNode) : Except Fault (Int × MdState σ) := do
  let (fd, md) ← mdFdGetRelnFd os md rnode
  nblocksLoop os rnode (2 ^ 31) md 0 (.slot fd)

/-! ## Reading and writing -/

/-- The seek of `md_extend` to where the last block begins, if it is not whole. -/
def seekWhole (os : Os σ) (md : MdState σ) (file : File) (pos : Int) : Except Fault (Int × MdState σ) :=
  if pos % BLCKSZ ≠ 0 then md.call fun st => fileSeek os st file (pos - pos % BLCKSZ) .SEEK_SET
  else .ok (pos, md)

/-- `md_extend`. -/
def mdExtend (os : Os σ) (md : MdState σ) (rnode : RelFileNode) (buffer : Block) :
    Except Fault (Status × MdState σ) := do
  let (nblocks, md) ← mdNblocks os md rnode
  let (vec, v, md) ← mdFdGetSeg os md rnode nblocks
  let (pos, md) ← md.call fun st => fileSeek os st vec.vfd 0 .SEEK_END
  if pos < 0 then .ok (.SM_FAIL, md)
  else
    let whole := pos - pos % BLCKSZ
    let (sought, md) ← seekWhole os md vec.vfd pos
    if sought < 0 then .ok (.SM_FAIL, md)
    else
      let (nbytes, md) ← md.call fun st => fileWrite os st vec.vfd buffer.bytes
      if nbytes ≠ BLCKSZ then
        if nbytes > 0 then
          let (_, md) ← md.call fun st => fileTruncate os st vec.vfd whole
          let (_, md) ← md.call fun st => fileSeek os st vec.vfd whole .SEEK_SET
          .ok (.SM_FAIL, md)
        else .ok (.SM_FAIL, md)
      else
        let last := Int.tmod (toInt (nblocks + 1)) RELSEG_SIZE
        let vec ← md.get v
        let md ← md.set v { vec with lstBcnt := if last = 0 then RELSEG_SIZE else last }
        .ok (.SM_SUCCESS, md)

/-- `md_read`, and what is in the buffer then. -/
def mdRead (os : Os σ) (md : MdState σ) (rnode : RelFileNode) (blockNum : BlockNumber) :
    Except Fault ((Status × List UInt8) × MdState σ) := do
  let (vec, _, md) ← mdFdGetSeg os md rnode (toInt blockNum.toNat)
  let (pos, md) ← md.call fun st => fileSeek os st vec.vfd (seekPos blockNum) .SEEK_SET
  if pos ≠ seekPos blockNum then .ok ((.SM_FAIL, []), md)
  else
    let ((nbytes, bytes), md) ← md.call fun st => fileRead os st vec.vfd BLCKSZ
    if nbytes ≠ BLCKSZ then
      if nbytes = 0 then .ok ((.SM_SUCCESS, List.replicate BLCKSZ 0), md)
      else if blockNum = 0 ∧ nbytes > 0 then
        let (nblocks, md) ← mdNblocks os md rnode
        if nblocks = 0 then .ok ((.SM_SUCCESS, List.replicate BLCKSZ 0), md)
        else .ok ((.SM_FAIL, bytes), md)
      else .ok ((.SM_FAIL, bytes), md)
    else .ok ((.SM_SUCCESS, bytes), md)

/-- What `md_write` and `md_flush` begin with, and whether all bytes were written. -/
def writeBlock (os : Os σ) (md : MdState σ) (rnode : RelFileNode) (blockNum : BlockNumber)
    (buffer : Block) : Except Fault ((Bool × File) × MdState σ) := do
  let (vec, _, md) ← mdFdGetSeg os md rnode (toInt blockNum.toNat)
  let (pos, md) ← md.call fun st => fileSeek os st vec.vfd (seekPos blockNum) .SEEK_SET
  if pos ≠ seekPos blockNum then .ok ((false, vec.vfd), md)
  else
    let (nbytes, md) ← md.call fun st => fileWrite os st vec.vfd buffer.bytes
    .ok ((nbytes = BLCKSZ, vec.vfd), md)

/-- `md_write`. -/
def mdWrite (os : Os σ) (md : MdState σ) (rnode : RelFileNode) (blockNum : BlockNumber)
    (buffer : Block) : Except Fault (Status × MdState σ) := do
  let ((written, _), md) ← writeBlock os md rnode blockNum buffer
  .ok (if written then .SM_SUCCESS else .SM_FAIL, md)

/-- `md_flush`. -/
def mdFlush (os : Os σ) (md : MdState σ) (rnode : RelFileNode) (blockNum : BlockNumber)
    (buffer : Block) : Except Fault (Status × MdState σ) := do
  let ((written, vfd), md) ← writeBlock os md rnode blockNum buffer
  if written then
    let (code, md) ← md.call fun st => fileSync os st vfd
    .ok (if code < 0 then .SM_FAIL else .SM_SUCCESS, md)
  else .ok (.SM_FAIL, md)

/-! ## Truncating -/

/-- The loop of `md_truncate`, with `k` steps left. `none` is the return in its middle. -/
def truncateLoop (os : Os σ) (nblocks : Int) : Nat → MdState σ → Int → Option Ref →
    Except Fault (Bool × MdState σ)
  | _, md, _, none => .ok (true, md)
  | 0, _, _, some _ => .error .endless
  | k + 1, md, prior, some v => do
    let vec ← md.get v
    let next := vec.chain.map Ref.node
    if prior > nblocks then
      let (_, md) ← md.call fun st => fileTruncate os st vec.vfd 0
      let md ← md.callUnit fun st => fileUnlink os st vec.vfd
      match v with
      | .slot _ => .error .assertion
      | .node p =>
        truncateLoop os nblocks k { md with nodes := Function.update md.nodes p none }
          (toInt (prior + RELSEG_SIZE)) next
    else if toInt (prior + RELSEG_SIZE) > nblocks then
      let last := nblocks - prior
      let (code, md) ← md.call fun st => fileTruncate os st vec.vfd (last * BLCKSZ)
      if code < 0 then .ok (false, md)
      else
        let vec ← md.get v
        let md ← md.set v { vec with lstBcnt := last, chain := none }
        truncateLoop os nblocks k md (toInt (prior + RELSEG_SIZE)) next
    else truncateLoop os nblocks k md (toInt (prior + RELSEG_SIZE)) next

/-- `md_truncate`. No chain is longer than there are nodes. -/
def mdTruncate (os : Os σ) (md : MdState σ) (rnode : RelFileNode) (nblocks : Int) :
    Except Fault (Int × MdState σ) := do
  let (curNblk, md) ← mdNblocks os md rnode
  if nblocks < 0 ∨ nblocks > curNblk then .ok (-1, md)
  else if nblocks = curNblk then .ok (nblocks, md)
  else
    let (fd, md) ← mdFdGetRelnFd os md rnode
    let (done, md) ← truncateLoop os nblocks (md.nextNode + 1) md 0 (some (.slot fd))
    .ok (if done then nblocks else -1, md)

/-! ## Closing, committing and unlinking -/

/-- The loop of `md_close_fd`, with `k` steps left. The files are closed, and all but the
slot are freed. -/
def closeLoop (os : Os σ) : Nat → MdState σ → Option Ref → Except Fault (MdState σ)
  | _, md, none => .ok md
  | 0, _, some _ => .error .endless
  | k + 1, md, some v => do
    let vec ← md.get v
    let (_, md) ← md.call fun st => fileSync os st vec.vfd
    let md ← md.callUnit fun st => fileClose os st vec.vfd
    let md := match v with
      | .slot _ => md
      | .node p => { md with nodes := Function.update md.nodes p none }
    closeLoop os k md (vec.chain.map Ref.node)

/-- `md_close_fd`. -/
def mdCloseFd (os : Os σ) (md : MdState σ) (fd : Nat) : Except Fault (MdState σ) := do
  let md ← closeLoop os (md.nextNode + 1) md (some (.slot fd))
  fdvecFree { md with fdvec := Function.update md.fdvec fd { md.fdvec fd with chain := none } } fd

/-- `md_close`. -/
def mdClose (os : Os σ) (md : MdState σ) (rnode : RelFileNode) : Except Fault (Status × MdState σ) :=
  if md.rdFd rnode < 0 then .ok (.SM_SUCCESS, md)
  else do
    let md ← mdCloseFd os md (md.rdFd rnode).toNat
    .ok (.SM_SUCCESS, { md with rdFd := Function.update md.rdFd rnode (-1) })

/-- The inner loop of `md_commit`, with `k` steps left. -/
def syncChain (os : Os σ) : Nat → MdState σ → Option Ref → Except Fault (Bool × MdState σ)
  | _, md, none => .ok (true, md)
  | 0, _, some _ => .error .endless
  | k + 1, md, some v => do
    let vec ← md.get v
    let (code, md) ← md.call fun st => fileSync os st vec.vfd
    if code < 0 then .ok (false, md) else syncChain os k md (vec.chain.map Ref.node)

/-- The outer loop of `md_commit`. -/
def commitLoop (os : Os σ) : List Nat → MdState σ → Except Fault (Status × MdState σ)
  | [], md => .ok (.SM_SUCCESS, md)
  | i :: is, md =>
    if (md.fdvec i).free then commitLoop os is md
    else do
      let (done, md) ← syncChain os (md.nextNode + 1) md (some (.slot i))
      if done then commitLoop os is md else .ok (.SM_FAIL, md)

/-- `md_commit`. -/
def mdCommit (os : Os σ) (md : MdState σ) : Except Fault (Status × MdState σ) :=
  commitLoop os (List.range md.curFd) md

/-- The loop of `md_unlink`, with `k` steps left before `segno` leaves an `int`. -/
def unlinkLoop (os : Os σ) (path : FileName) : Nat → MdState σ → Nat → Except Fault (Status × MdState σ)
  | 0, _, _ => .error .endless
  | k + 1, md, segno => do
    let (errno, md) ← md.call fun st => st.sys (os.unlink (path ++ '.' :: Decimal.decimal segno))
    match errno with
    | some .ENOENT => .ok (.SM_SUCCESS, md)
    | some _ => .ok (.SM_FAIL, md)
    | none => unlinkLoop os path k md (segno + 1)

/-- `md_unlink`. -/
def mdUnlink (os : Os σ) (md : MdState σ) (rnode : RelFileNode) : Except Fault (Status × MdState σ) := do
  let path := relpath md.dataDir rnode
  let (errno, md) ← md.call fun st => st.sys (os.unlink path)
  match errno with
  | some _ => .ok (.SM_FAIL, md)
  | none => unlinkLoop os path (2 ^ 31) md 1

/-! ## Operations -/

/-- What is asked of the storage manager, and the evictions in between. -/
inductive Op where
  | create (rnode : RelFileNode)
  | open (rnode : RelFileNode)
  | close (rnode : RelFileNode)
  | extend (rnode : RelFileNode) (buffer : Block)
  | read (rnode : RelFileNode) (blockNum : BlockNumber)
  | write (rnode : RelFileNode) (blockNum : BlockNumber) (buffer : Block)
  | flush (rnode : RelFileNode) (blockNum : BlockNumber) (buffer : Block)
  | nblocks (rnode : RelFileNode)
  | truncate (rnode : RelFileNode) (nblocks : Int)
  | commit
  | releaseLru
  | closeAll

/-- What a caller sees of an operation. -/
inductive Result where
  | none
  | fd (fd : Option Nat)
  | status (status : Status)
  | buffer (status : Status) (buffer : List UInt8)
  | blocks (n : Int)
  | released (released : Bool)
  deriving DecidableEq, Repr

/-- The caller of `md_create` and `md_open` keeps what they return as `rd_fd`. -/
def setRdFd (rnode : RelFileNode) (x : Except Fault (Option Nat × MdState σ)) :
    Except Fault (Result × MdState σ) := do
  let (fd, md) ← x
  let rdFd : Int := (fd.map fun n => (n : Int)).getD (-1)
  .ok (.fd fd, { md with rdFd := Function.update md.rdFd rnode rdFd })

def returnsStatus (x : Except Fault (Status × MdState σ)) : Except Fault (Result × MdState σ) := do
  let (status, md) ← x
  .ok (.status status, md)

def returnsBlocks (x : Except Fault (Int × MdState σ)) : Except Fault (Result × MdState σ) := do
  let (n, md) ← x
  .ok (.blocks n, md)

/-- One operation. -/
def step (os : Os σ) (md : MdState σ) : Op → Except Fault (Result × MdState σ)
  | .create rnode => setRdFd rnode (mdCreate os md rnode)
  | .open rnode => setRdFd rnode (mdOpen os md rnode)
  | .close rnode => returnsStatus (mdClose os md rnode)
  | .extend rnode buffer => returnsStatus (mdExtend os md rnode buffer)
  | .read rnode blockNum => do
    let ((status, buffer), md) ← mdRead os md rnode blockNum
    .ok (.buffer status buffer, md)
  | .write rnode blockNum buffer => returnsStatus (mdWrite os md rnode blockNum buffer)
  | .flush rnode blockNum buffer => returnsStatus (mdFlush os md rnode blockNum buffer)
  | .nblocks rnode => returnsBlocks (mdNblocks os md rnode)
  | .truncate rnode n => returnsBlocks (mdTruncate os md rnode n)
  | .commit => returnsStatus (mdCommit os md)
  | .releaseLru => do
    let (released, md) ← md.call fun st => releaseLruFile os st
    .ok (.released released, md)
  | .closeAll => do
    let md ← md.callUnit fun st => closeAllVfds os st
    .ok (.none, md)

/-- A sequence of operations. -/
def run (os : Os σ) : List Op → MdState σ → Except Fault (List Result × MdState σ)
  | [], md => .ok ([], md)
  | op :: ops, md => do
    let (result, md) ← step os md op
    let (results, md) ← run os ops md
    .ok (result :: results, md)

end PostgresV7.Md
