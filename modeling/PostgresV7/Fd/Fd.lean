import PostgresV7.Base
import PostgresV7.Lib.Recency
import Mathlib.Logic.Function.Basic

/-!
# Virtual file descriptors (`fd.c`, `fd.h`)

The operating system is a parameter: its calls act on a state of its own and may
fail as they like. Each field of a `Vfd` is a map from the index of the slot. A
log of what happened to the slots goes along; no code reads it. `malloc` is taken
to succeed, as `elog(FATAL)` ends the process where it does not.
-/

namespace PostgresV7.Fd

open Recency

/-- `File`, an index into the array. -/
abbrev File := Nat

abbrev FileName := List Char

def VFD_CLOSED : Int := -1
def FILE_UNKNOWN_POS : Int := -1
def SEP_CHAR : Char := '/'
def RESERVE_FOR_LD : Nat := 10
def NOFILE : Nat := 256

/-! ## C integers -/

/-- Conversion to `signed short`. -/
def toShort (n : Int) : Int := Int.bmod n (2 ^ 16)

/-- Conversion to `int`. -/
def toInt (n : Int) : Int := Int.bmod n (2 ^ 32)

/-- Conversion to `long`. -/
def toLong (n : Int) : Int := Int.bmod n (2 ^ 64)

/-! ## The operating system -/

inductive Errno where
  | EMFILE
  | ENFILE
  | ENOENT
  | other
  deriving DecidableEq, Repr

inductive Access where
  | O_RDONLY
  | O_WRONLY
  | O_RDWR
  deriving DecidableEq, Repr

/-- The flags of `open`. -/
structure OpenFlags where
  access : Access
  creat : Bool := false
  trunc : Bool := false
  excl : Bool := false
  append : Bool := false
  deriving DecidableEq, Repr

/-- Some other `int` may be given for the three ways to seek. -/
inductive Whence where
  | SEEK_SET
  | SEEK_CUR
  | SEEK_END
  | invalid
  deriving DecidableEq, Repr

/-- Why a call does not return: an `ASSERT`, about its argument, about what a call of
the operating system returned, about the position a file was reopened at, or about
the ring; `elog(ERROR)`; `pfree` of what did not come from `palloc`; a loop without
end, or one whose index is too narrow; or a call of the operating system. -/
inductive Fault where
  | invalid
  | assertion
  | reopenAssertion
  | broken
  | elog
  | badPfree
  | endless
  | narrowIndex
  | osFailed
  deriving DecidableEq, Repr

/-- The calls of an operating system with states `σ`. A result of `none` or `false` is
`-1`. A call that comes to nothing at all ends the run. -/
structure Os (σ : Type) where
  openFile : FileName → OpenFlags → Nat → σ → Option (Except Errno Nat × σ)
  close : Int → σ → Option (Bool × σ)
  read : Int → Nat → σ → Option (Option (List UInt8) × σ)
  write : Int → List UInt8 → σ → Option (Option Nat × σ)
  lseek : Int → Int → Whence → σ → Option (Option Nat × σ)
  fsync : Int → σ → Option (Bool × σ)
  ftruncate : Int → Int → σ → Option (Bool × σ)
  /-- `none` is success. -/
  unlink : FileName → σ → Option (Option Errno × σ)
  /-- What an automatic variable holds that nothing was assigned to. -/
  indeterminate : σ → Int

/-! ## State -/

/-- What happens to a slot. `written` is a `write` on its descriptor, `synced` an
`fsync` of the descriptor the file was opened with. -/
inductive Event where
  | opened (file : File)
  | reopened (file : File)
  | accessed (file : File)
  | closed (file : File)
  | victim (file : File)
  | written (file count : Nat)
  | synced (file : File)
  | endOfXact
  deriving DecidableEq, Repr

/-- `VfdCache` and the counters. `descriptor` is the descriptor a slot was last opened
with, before it was stored in `fd`; no code reads it. -/
structure FdState (σ : Type) where
  fd : File → Int
  dirty : File → Bool
  temporary : File → Bool
  nextFree : File → File
  lruMoreRecently : File → File
  lruLessRecently : File → File
  seekPos : File → Int
  filename : File → Option FileName
  fileFlags : File → OpenFlags
  fileMode : File → Nat
  sizeVfdCache : Nat
  nFile : Nat
  numAllocatedFiles : Nat
  databasePath : FileName
  enableFsync : Bool
  os : σ
  descriptor : File → Int
  log : List Event

variable {σ α : Type}

/-- A call of the operating system. -/
def FdState.sys (st : FdState σ) (call : σ → Option (α × σ)) : Except Fault (α × FdState σ) :=
  match call st.os with
  | some (a, os) => .ok (a, { st with os := os })
  | none => .error .osFailed

/-- A note in the log. -/
def FdState.note (st : FdState σ) (ev : Event) : FdState σ := { st with log := ev :: st.log }

/-- `FILE_IS_VALID`. -/
def FileIsValid (st : FdState σ) (file : File) : Prop :=
  0 < file ∧ (file : Int) < toInt st.sizeVfdCache ∧ st.filename file ≠ none

instance (st : FdState σ) (file : File) : Decidable (FileIsValid st file) :=
  inferInstanceAs (Decidable (_ ∧ _ ∧ _))

/-- `pg_nofile`, without `HAVE_SYSCONF`. -/
def pgNofile : Nat := NOFILE - RESERVE_FOR_LD

/-- `pg_fsync` of the descriptor of a file. -/
def pgFsync (os : Os σ) (st : FdState σ) (file : File) : Except Fault (Bool × FdState σ) :=
  if st.enableFsync then do
    let (done, st) ← st.sys (os.fsync (st.fd file))
    .ok (done, if done ∧ st.fd file = st.descriptor file then st.note (.synced file) else st)
  else .ok (true, st)

/-! ## The ring -/

/-- `delete`. -/
def delete (st : FdState σ) (file : File) : Except Fault (FdState σ) :=
  if file = 0 then .error .broken
  else
    let more := Function.update st.lruMoreRecently (st.lruLessRecently file) (st.lruMoreRecently file)
    let less := Function.update st.lruLessRecently (more file) (st.lruLessRecently file)
    .ok { st with lruMoreRecently := more, lruLessRecently := less }

/-- `insert`. -/
def insert (st : FdState σ) (file : File) : Except Fault (FdState σ) :=
  if file = 0 then .error .broken
  else
    let more := Function.update st.lruMoreRecently file 0
    let less := Function.update st.lruLessRecently file (st.lruLessRecently 0)
    let less := Function.update less 0 file
    .ok { st with
      lruLessRecently := less
      lruMoreRecently := Function.update more (less file) file }

/-- The `fsync` before a descriptor is closed. -/
def syncIfDirty (os : Os σ) (st : FdState σ) (file : File) : Except Fault (FdState σ) :=
  if st.dirty file then do
    let (done, st) ← pgFsync os st file
    if done then .ok { st with dirty := Function.update st.dirty file false }
    else .error .assertion
  else .ok st

/-- The `close` of a descriptor. -/
def closeDescriptor (os : Os σ) (st : FdState σ) (file : File) : Except Fault (FdState σ) := do
  let (done, st) ← st.sys (os.close (st.fd file))
  if done then
    .ok ({ st with nFile := st.nFile - 1, fd := Function.update st.fd file VFD_CLOSED }.note
      (.closed file))
  else .error .assertion

/-- `lru_delete`. -/
def lruDelete (os : Os σ) (st : FdState σ) (file : File) : Except Fault (FdState σ) := do
  let st ← delete st file
  let (pos, st) ← st.sys (os.lseek (st.fd file) 0 .SEEK_CUR)
  match pos with
  | some pos =>
    let st ← syncIfDirty os { st with seekPos := Function.update st.seekPos file pos } file
    closeDescriptor os st file
  | none => .error .assertion

/-- `release_lru_file`. -/
def releaseLruFile (os : Os σ) (st : FdState σ) : Except Fault (Bool × FdState σ) :=
  if st.nFile > 0 then
    if st.lruMoreRecently 0 = 0 then .error .broken
    else do
      let st ← lruDelete os (st.note (.victim (st.lruMoreRecently 0))) (st.lruMoreRecently 0)
      .ok (true, st)
  else .ok (false, st)

/-- The loop that makes room before an `open`, with `k` steps left. -/
def releaseWhileFull (os : Os σ) : Nat → FdState σ → Except Fault (FdState σ)
  | k, st =>
    if st.nFile + st.numAllocatedFiles ≥ pgNofile then do
      let (released, st) ← releaseLruFile os st
      if released then
        match k with
        | 0 => .error .endless
        | k + 1 => releaseWhileFull os k st
      else .ok st
    else .ok st

/-- `basic_open_file`, with `k` tries left. -/
def basicOpenFile (os : Os σ) (filename : FileName) (flags : OpenFlags) (mode : Nat) :
    Nat → FdState σ → Except Fault (Int × FdState σ)
  | k, st => do
    let (fd, st) ← st.sys (os.openFile filename flags mode)
    match fd with
    | .ok fd => .ok (fd, st)
    | .error errno =>
      if errno = .EMFILE ∨ errno = .ENFILE then
        let (released, st) ← releaseLruFile os st
        if released then
          match k with
          | 0 => .error .endless
          | k + 1 => basicOpenFile os filename flags mode k st
        else .ok (-1, st)
      else .ok (-1, st)

/-- Back to the position a file had when it was closed. `return_value` is an `int`. -/
def restorePosition (os : Os σ) (st : FdState σ) (file : File) : Except Fault (FdState σ) :=
  if st.seekPos file ≠ 0 then do
    let (pos, st) ← st.sys (os.lseek (st.fd file) (st.seekPos file) .SEEK_SET)
    match pos with
    | some pos => if toInt pos = -1 then .error .reopenAssertion else .ok st
    | none => .error .assertion
  else .ok st

/-- What `open` returned, in the `signed short` of the slot. -/
def FdState.setFd (st : FdState σ) (file : File) (fd : Int) : FdState σ :=
  { st with fd := Function.update st.fd file (toShort fd)
            descriptor := Function.update st.descriptor file fd }

/-- `lru_insert`. -/
def lruInsert (os : Os σ) (st : FdState σ) (file : File) : Except Fault (Int × FdState σ) :=
  if file = 0 then .error .broken
  else if st.fd file = VFD_CLOSED then do
    let st ← releaseWhileFull os st.nFile st
    let (fd, st) ← basicOpenFile os ((st.filename file).getD []) (st.fileFlags file) (st.fileMode file)
      st.nFile st
    let st := st.setFd file fd
    if st.fd file < 0 then .ok (st.fd file, st)
    else
      let st ← restorePosition os { st with nFile := st.nFile + 1 } file
      let st ← insert st file
      .ok (0, st.note (.reopened file))
  else do
    let st ← insert st file
    .ok (0, st.note (.reopened file))

/-- `file_access`. -/
def fileAccess (os : Os σ) (st : FdState σ) (file : File) : Except Fault (Int × FdState σ) :=
  if st.fd file = VFD_CLOSED then do
    let (returnValue, st) ← lruInsert os st file
    if returnValue ≠ 0 then .ok (returnValue, st) else .ok (0, st.note (.accessed file))
  else if st.lruLessRecently 0 ≠ file then do
    let st ← delete st file
    let st ← insert st file
    .ok (0, st.note (.accessed file))
  else .ok (0, st.note (.accessed file))

/-! ## Slots -/

/-- The first allocation: the array has a header only. -/
def initVfdCache (st : FdState σ) : FdState σ :=
  if st.sizeVfdCache = 0 then
    { st with
      fd := Function.update st.fd 0 VFD_CLOSED
      dirty := Function.update st.dirty 0 false
      temporary := Function.update st.temporary 0 false
      nextFree := Function.update st.nextFree 0 0
      lruMoreRecently := Function.update st.lruMoreRecently 0 0
      lruLessRecently := Function.update st.lruLessRecently 0 0
      seekPos := Function.update st.seekPos 0 0
      filename := Function.update st.filename 0 none
      sizeVfdCache := 1 }
  else st

/-- A map that is new from `lo` up to `hi`. -/
def fill {β : Type} (m : File → β) (lo hi : Nat) (new : File → β) : File → β :=
  fun i => if lo ≤ i ∧ i < hi then new i else m i

/-- The array with `newCacheSize` slots, the new ones in the free list. -/
def growVfdCache (st : FdState σ) (newCacheSize : Nat) : FdState σ :=
  let lo := st.sizeVfdCache
  let nextFree := fill st.nextFree lo newCacheSize fun i => i + 1
  let nextFree := Function.update nextFree (newCacheSize - 1) 0
  { st with
    fd := fill st.fd lo newCacheSize fun _ => VFD_CLOSED
    dirty := fill st.dirty lo newCacheSize fun _ => false
    temporary := fill st.temporary lo newCacheSize fun _ => false
    nextFree := Function.update nextFree 0 lo
    lruMoreRecently := fill st.lruMoreRecently lo newCacheSize fun _ => 0
    lruLessRecently := fill st.lruLessRecently lo newCacheSize fun _ => 0
    seekPos := fill st.seekPos lo newCacheSize fun _ => 0
    filename := fill st.filename lo newCacheSize fun _ => none
    sizeVfdCache := newCacheSize }

/-- The size of a larger array. -/
def newCacheSize (st : FdState σ) : Nat :=
  if st.sizeVfdCache * 2 < 32 then 32 else st.sizeVfdCache * 2

/-- `allocate_vfd`. The index of its loop has 32 bits. -/
def allocateVfd (st : FdState σ) : Except Fault (File × FdState σ) := do
  let st := initVfdCache st
  if st.nextFree 0 = 0 then
    if newCacheSize st < 2 ^ 32 then
      let st := growVfdCache st (newCacheSize st)
      let file := st.nextFree 0
      .ok (file, { st with nextFree := Function.update st.nextFree 0 (st.nextFree file) })
    else .error .narrowIndex
  else
    let file := st.nextFree 0
    .ok (file, { st with nextFree := Function.update st.nextFree 0 (st.nextFree file) })

/-- `free_vfd`. -/
def freeVfd (st : FdState σ) (file : File) : FdState σ :=
  let nextFree := Function.update st.nextFree file (st.nextFree 0)
  { st with
    filename := Function.update st.filename file none
    dirty := Function.update st.dirty file false
    temporary := Function.update st.temporary file false
    nextFree := Function.update nextFree 0 file }

/-! ## Opening and closing -/

/-- What a slot holds about the file that was opened in it. -/
def FdState.fillSlot (st : FdState σ) (file : File) (filename : FileName) (flags : OpenFlags)
    (mode : Nat) : FdState σ :=
  { st with
    filename := Function.update st.filename file (some filename)
    fileFlags := Function.update st.fileFlags file
      { flags with creat := false, trunc := false, excl := false }
    fileMode := Function.update st.fileMode file mode
    seekPos := Function.update st.seekPos file 0
    dirty := Function.update st.dirty file flags.creat
    temporary := Function.update st.temporary file false }

/-- `file_name_open_file_aux`; `none` is `-1`. -/
def fileNameOpenFileAux (os : Os σ) (st : FdState σ) (filename : FileName) (flags : OpenFlags)
    (mode : Nat) : Except Fault (Option File × FdState σ) := do
  let (file, st) ← allocateVfd st
  let st ← releaseWhileFull os st.nFile st
  let (fd, st) ← basicOpenFile os filename flags mode st.nFile st
  let st := st.setFd file fd
  if st.fd file < 0 then .ok (none, freeVfd st file)
  else
    let st ← insert { st with nFile := st.nFile + 1 } file
    .ok (some file, (st.note (.opened file)).fillSlot file filename flags mode)

/-- `filepath`, and whether `palloc` gave its memory. -/
def filepath (st : FdState σ) (filename : FileName) : FileName × Bool :=
  if filename.head? ≠ some SEP_CHAR then (st.databasePath ++ SEP_CHAR :: filename, false)
  else (filename, true)

/-- `file_name_open_file`. -/
def fileNameOpenFile (os : Os σ) (st : FdState σ) (filename : FileName) (flags : OpenFlags)
    (mode : Nat) : Except Fault (Option File × FdState σ) := do
  let (fname, palloced) := filepath st filename
  let (fd, st) ← fileNameOpenFileAux os st fname flags mode
  if palloced then .ok (fd, st) else .error .badPfree

/-- The part of `file_close` that gives the descriptor back. -/
def closeIfOpen (os : Os σ) (st : FdState σ) (file : File) : Except Fault (FdState σ) :=
  if st.fd file ≠ VFD_CLOSED then do
    let st ← delete st file
    let st ← syncIfDirty os st file
    closeDescriptor os st file
  else .ok st

/-- The part of `file_close` that removes a temporary file. -/
def unlinkIfTemporary (os : Os σ) (st : FdState σ) (file : File) : Except Fault (FdState σ) :=
  if st.temporary file then do
    let st := { st with temporary := Function.update st.temporary file false }
    let (_, st) ← st.sys (os.unlink ((st.filename file).getD []))
    .ok st
  else .ok st

/-- `file_close`. -/
def fileClose (os : Os σ) (st : FdState σ) (file : File) : Except Fault (FdState σ) :=
  if ¬ FileIsValid st file then .error .invalid
  else do
    let st ← closeIfOpen os st file
    let st ← unlinkIfTemporary os st file
    .ok (freeVfd st file)

/-- `file_unlink`. -/
def fileUnlink (os : Os σ) (st : FdState σ) (file : File) : Except Fault (FdState σ) :=
  if ¬ FileIsValid st file then .error .invalid
  else fileClose os { st with temporary := Function.update st.temporary file true } file

/-! ## Reading, writing and seeking -/

/-- The position after a transfer of `count` bytes. -/
def FdState.advance (st : FdState σ) (file count : Nat) : FdState σ :=
  let pos := if count > 0 then toLong (st.seekPos file + count) else FILE_UNKNOWN_POS
  { st with seekPos := Function.update st.seekPos file pos }

/-- `file_read`: the count and what is in the buffer. -/
def fileRead (os : Os σ) (st : FdState σ) (file : File) (amount : Nat) :
    Except Fault ((Int × List UInt8) × FdState σ) :=
  if ¬ FileIsValid st file then .error .invalid
  else do
    let (_, st) ← fileAccess os st file
    let (bytes, st) ← st.sys (os.read (st.fd file) amount)
    match bytes with
    | some bytes => .ok ((bytes.length, bytes), st.advance file bytes.length)
    | none => .ok ((-1, []), st.advance file 0)

/-- `file_write`. -/
def fileWrite (os : Os σ) (st : FdState σ) (file : File) (buffer : List UInt8) :
    Except Fault (Int × FdState σ) :=
  if ¬ FileIsValid st file then .error .invalid
  else do
    let (_, st) ← fileAccess os st file
    let (count, st) ← st.sys (os.write (st.fd file) buffer)
    match count with
    | some count => .ok (count, (st.advance file count).note (.written file count))
    | none => .ok (-1, st.advance file 0)

/-- `VfdCache[file].seek_pos = lseek(..)`. -/
def seekFile (os : Os σ) (st : FdState σ) (file : File) (offset : Int) (whence : Whence) :
    Except Fault (FdState σ) := do
  let (pos, st) ← st.sys (os.lseek (st.fd file) offset whence)
  .ok { st with seekPos := Function.update st.seekPos file ((pos.map fun n => (n : Int)).getD (-1)) }

/-- The branch of `file_seek` for a file that is physically closed. -/
def seekClosed (os : Os σ) (st : FdState σ) (file : File) (offset : Int) :
    Whence → Except Fault (FdState σ)
  | .SEEK_SET =>
    if offset < 0 then .error .elog
    else .ok { st with seekPos := Function.update st.seekPos file offset }
  | .SEEK_CUR =>
    .ok { st with seekPos := Function.update st.seekPos file (toLong (st.seekPos file + offset)) }
  | .SEEK_END => do
    let (_, st) ← fileAccess os st file
    seekFile os st file offset .SEEK_END
  | .invalid => .error .elog

/-- The branch for a file that is open. -/
def seekOpen (os : Os σ) (st : FdState σ) (file : File) (offset : Int) :
    Whence → Except Fault (FdState σ)
  | .SEEK_SET =>
    if offset < 0 then .error .elog
    else if st.seekPos file ≠ offset then seekFile os st file offset .SEEK_SET
    else .ok st
  | .SEEK_CUR =>
    if offset ≠ 0 ∨ st.seekPos file = FILE_UNKNOWN_POS then seekFile os st file offset .SEEK_CUR
    else .ok st
  | .SEEK_END => seekFile os st file offset .SEEK_END
  | .invalid => .error .elog

/-- `file_seek`. -/
def fileSeek (os : Os σ) (st : FdState σ) (file : File) (offset : Int) (whence : Whence) :
    Except Fault (Int × FdState σ) :=
  if ¬ FileIsValid st file then .error .invalid
  else do
    let st ← if st.fd file = VFD_CLOSED then seekClosed os st file offset whence
      else seekOpen os st file offset whence
    .ok (st.seekPos file, st)

/-! ## Syncing and truncating -/

/-- `file_sync`. For an open dirty file nothing is assigned to `return_code`. -/
def fileSync (os : Os σ) (st : FdState σ) (file : File) : Except Fault (Int × FdState σ) :=
  if ¬ FileIsValid st file then .error .invalid
  else if ¬ st.dirty file then .ok (0, st)
  else if ¬ st.enableFsync then .ok (0, { st with dirty := Function.update st.dirty file false })
  else if st.fd file = VFD_CLOSED then do
    let (returnCode, st) ← lruInsert os st file
    if returnCode ≠ 0 then .ok (returnCode, st)
    else
      let (done, st) ← pgFsync os st file
      if done then .ok (0, { st with dirty := Function.update st.dirty file false })
      else .ok (-1, st)
  else .ok (os.indeterminate st.os, st)

/-- `file_truncate`. -/
def fileTruncate (os : Os σ) (st : FdState σ) (file : File) (offset : Int) :
    Except Fault (Int × FdState σ) :=
  if ¬ FileIsValid st file then .error .invalid
  else do
    let (_, st) ← fileSync os st file
    let (_, st) ← fileAccess os st file
    let (done, st) ← st.sys (os.ftruncate (st.fd file) offset)
    .ok (if done then 0 else -1, st)

/-- `file_mark_dirty`. -/
def fileMarkDirty (st : FdState σ) (file : File) : Except Fault (FdState σ) :=
  if ¬ FileIsValid st file then .error .invalid
  else .ok { st with dirty := Function.update st.dirty file true }

/-! ## All files -/

/-- The loop of `close_all_vfds`. -/
def closeVfds (os : Os σ) : List File → FdState σ → Except Fault (FdState σ)
  | [], st => .ok st
  | i :: is, st =>
    if st.fd i ≠ VFD_CLOSED then do
      let st ← lruDelete os st i
      closeVfds os is st
    else closeVfds os is st

/-- `close_all_vfds`. -/
def closeAllVfds (os : Os σ) (st : FdState σ) : Except Fault (FdState σ) :=
  if st.sizeVfdCache > 0 then
    if st.fd 0 ≠ VFD_CLOSED then .error .broken
    else closeVfds os (List.range' 1 (st.sizeVfdCache - 1)) st
  else .ok st

/-- The loop of `at_eo_xact_files`. -/
def endVfds (os : Os σ) : List File → FdState σ → Except Fault (FdState σ)
  | [], st => .ok st
  | i :: is, st =>
    if st.temporary i ∧ st.filename i ≠ none then do
      let st ← fileClose os st i
      endVfds os is st
    else endVfds os is { st with dirty := Function.update st.dirty i false }

/-- `at_eo_xact_files`; the stdio files are closed too. -/
def atEoXactFiles (os : Os σ) (st : FdState σ) : Except Fault (FdState σ) :=
  if st.sizeVfdCache > 0 then
    if st.fd 0 ≠ VFD_CLOSED then .error .broken
    else do
      let st ← endVfds os (List.range' 1 (st.sizeVfdCache - 1)) st
      .ok ({ st with numAllocatedFiles := 0 }.note .endOfXact)
  else .ok ({ st with numAllocatedFiles := 0 }.note .endOfXact)

end PostgresV7.Fd
