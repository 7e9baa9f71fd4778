import PostgresV7.Lib.Owned
import PostgresV7.Lib.Threads

/-!
# System V semaphores and shared memory (`ipc.h`)

What the calls `ipc.c` makes do in the kernel, for any number of processes. A call that fails
changes nothing. Identifiers are not used again. An owner is the process that created an
object, `none` for a process that is not one of ours; no call tells it.
-/

namespace PostgresV7.SysV

open Threads Owned

def IPC_NMAX_SEM : Nat := 32
def PG_SEMA_MAGIC : Nat := 537
def PG_SHMEM_MAGIC : Int := 679834892
def MAX_ON_EXITS : Nat := 20

/-- `sizeof(PGShmemHeader)`. -/
def SIZEOF_PG_SHMEM_HEADER : Nat := 16

/-- `EWOULDBLOCK` is `EAGAIN`. -/
inductive Errno where
  | EEXIST
  | EACCES
  | EIDRM
  | EINTR
  | EAGAIN
  | ESRCH
  | other
  deriving DecidableEq, Repr

/-- The value of a semaphore, and `sempid`. -/
structure Sem where
  val : Nat
  pid : Int
  deriving DecidableEq, Repr

structure SemSet (ι : Type) where
  key : Nat
  owner : Option ι
  sems : List Sem

/-- The fields of `PGShmemHeader`. -/
inductive HeaderField where
  | magic
  | creatorPid
  | totalSize
  | freeOffset
  deriving DecidableEq, Repr

/-- A segment of shared memory, of which only the header matters here. -/
structure Segment (ι : Type) where
  key : Nat
  owner : Option ι
  size : Nat
  header : HeaderField → Int

structure Kernel (ι : Type) where
  sets : Int → Slot (SemSet ι)
  segments : Int → Slot (Segment ι)
  life : ι → Life

/-- The calls. An address a segment is attached at stands for the segment. -/
inductive Call where
  /-- With `IPC_CREAT | IPC_EXCL`. -/
  | semgetExcl (key nsems : Nat)
  | semget (key nsems : Nat)
  | semctlSetAll (id : Int) (vals : List Nat)
  | semctlSetVal (id : Int) (sem val : Nat)
  | semctlGetVal (id : Int) (sem : Nat)
  | semctlGetPid (id : Int) (sem : Nat)
  | semctlRmid (id : Int)
  | semop (id : Int) (sem : Nat) (op : Int) (nowait : Bool)
  /-- With `IPC_CREAT | IPC_EXCL`. -/
  | shmgetExcl (key size : Nat)
  | shmget (key size : Nat)
  | shmat (id : Int)
  | shmdt (addr : Int)
  | shmctlRmid (id : Int)
  | load (addr : Int) (field : HeaderField)
  | store (addr : Int) (field : HeaderField) (val : Int)
  | getpid
  | kill (pid : Int)
  deriving DecidableEq, Repr

abbrev Answer := Except Errno Int

variable {ι : Type}

def Kernel.putSet (k : Kernel ι) (id : Int) (slot : Slot (SemSet ι)) : Kernel ι :=
  { k with sets := Function.update k.sets id slot }

def Kernel.putSegment (k : Kernel ι) (id : Int) (slot : Slot (Segment ι)) : Kernel ι :=
  { k with segments := Function.update k.segments id slot }

def Kernel.turn [DecidableEq ι] (k : Kernel ι) (i : ι) (life : Life) : Kernel ι :=
  { k with life := Function.update k.life i life }

def Segment.put (seg : Segment ι) (field : HeaderField) (val : Int) : Segment ι :=
  { seg with header := Function.update seg.header field val }

/-- Whether a signal that `i` sends to the number goes to `j`. -/
def Addressed (pid : ι → Int) (i : ι) (target : Int) (j : ι) : Prop :=
  target = pid j ∨ (target = 0 ∧ j = i) ∨ (target = -1 ∧ j ≠ i)

/-- Semaphores that were given values. Which process they name afterwards is left open, as
systems differ in it. -/
def Assigned (vals : List Nat) (sems : List Sem) : Prop := sems.map Sem.val = vals

/-- What a call of `i` that succeeds does. -/
def Kernel.does (pid : ι → Int) (i : ι) (k : Kernel ι) (n : Int) (k' : Kernel ι) : Call → Prop
  | .semgetExcl key nsems => k.sets n = .unused ∧ 0 ≤ n ∧ (∀ id semSet, k.sets id = .live semSet → semSet.key ≠ key) ∧
      k' = k.putSet n (.live ⟨key, some i, List.replicate nsems ⟨0, 0⟩⟩)
  | .semget key nsems => ∃ semSet, k.sets n = .live semSet ∧ semSet.key = key ∧ nsems ≤ semSet.sems.length ∧ k' = k
  | .semctlSetAll id vals => ∃ semSet sems, k.sets id = .live semSet ∧ vals.length = semSet.sems.length ∧
      Assigned vals sems ∧ k' = k.putSet id (.live { semSet with sems := sems })
  | .semctlSetVal id sem val => ∃ semSet p, k.sets id = .live semSet ∧ sem < semSet.sems.length ∧
      k' = k.putSet id (.live { semSet with sems := semSet.sems.set sem ⟨val, p⟩ })
  | .semctlGetVal id sem => ∃ semSet s, k.sets id = .live semSet ∧ semSet.sems[sem]? = some s ∧ n = s.val ∧ k' = k
  | .semctlGetPid id sem => ∃ semSet s, k.sets id = .live semSet ∧ semSet.sems[sem]? = some s ∧ n = s.pid ∧ k' = k
  | .semctlRmid id => ∃ semSet, k.sets id = .live semSet ∧
      k' = k.putSet id (.removed semSet)
  | .semop id sem op _ => ∃ semSet s, k.sets id = .live semSet ∧ semSet.sems[sem]? = some s ∧ 0 ≤ s.val + op ∧
      k' = k.putSet id
        (.live { semSet with sems := semSet.sems.set sem ⟨(s.val + op).toNat, pid i⟩ })
  | .shmgetExcl key size => k.segments n = .unused ∧ 0 ≤ n ∧
      (∀ id seg, k.segments id = .live seg → seg.key ≠ key) ∧
      k' = k.putSegment n (.live ⟨key, some i, size, fun _ => 0⟩)
  | .shmget key size => ∃ seg, k.segments n = .live seg ∧ seg.key = key ∧ size ≤ seg.size ∧ k' = k
  | .shmat id => (∃ seg, (k.segments id).contents? = some seg) ∧ n = id ∧ k' = k
  | .shmdt _ => k' = k
  | .shmctlRmid id => ∃ seg, k.segments id = .live seg ∧
      k' = k.putSegment id (.removed seg)
  | .load addr field => ∃ seg, (k.segments addr).contents? = some seg ∧ n = seg.header field ∧ k' = k
  | .store addr field val => ∃ seg,
      (k.segments addr = .live seg ∧ k' = k.putSegment addr (.live (seg.put field val))) ∨
      (k.segments addr = .removed seg ∧ k' = k.putSegment addr (.removed (seg.put field val)))
  | .getpid => n = pid i ∧ k' = k
  | .kill _ => k' = k

/-- When a call of `i` may fail. Who created an object can remove it. -/
def Kernel.mayFail (pid : ι → Int) (i : ι) (k : Kernel ι) (e : Errno) : Call → Prop
  | .semctlRmid id => ∀ semSet, k.sets id = .live semSet → semSet.owner ≠ some i
  | .shmctlRmid id => ∀ seg, k.segments id = .live seg → seg.owner ≠ some i
  | .semop id sem op nowait => e = .EAGAIN → nowait = true ∧
      ∃ semSet s, k.sets id = .live semSet ∧ semSet.sems[sem]? = some s ∧ s.val + op < 0
  | .kill target => e = .ESRCH → ∀ j, k.life j = .alive → ¬ Addressed pid i target j
  | .load _ _ | .store _ _ _ | .getpid => False
  | _ => True

/-- A call of a process. One that would block makes no step. -/
def Kernel.exec (pid : ι → Int) (i : ι) (c : Call) (k : Kernel ι) (answer : Answer) (k' : Kernel ι) : Prop :=
  k.life i = .alive ∧
    match answer with
    | .ok n => k.does pid i n k' c
    | .error e => k.mayFail pid i e c ∧ k' = k

/-- What happens besides the calls of `ipc.c`. -/
inductive Environ (pid : ι → Int) [DecidableEq ι] (k : Kernel ι) : Kernel ι → Prop where
  /-- A process starts; the system gives it a number that no process has. -/
  | starts {i : ι} : k.life i = .unborn → (∀ j, k.life j = .alive → pid j ≠ pid i) →
      Environ pid k (k.turn i .alive)
  /-- A process ends without a chance to clean up. -/
  | dies {i : ι} : k.life i = .alive → Environ pid k (k.turn i .dead)
  /-- Another program creates, changes or removes a set. It does not hold our mark. -/
  | otherSet {id : Int} {slot : Slot (SemSet ι)} :
      (∀ semSet, k.sets id = .live semSet → semSet.owner = none) → (∀ semSet, k.sets id ≠ .removed semSet) →
      (∀ semSet, slot.contents? = some semSet → semSet.owner = none ∧ ∀ s ∈ semSet.sems, s.val ≠ PG_SEMA_MAGIC) →
      (k.sets id ≠ .unused → slot ≠ .unused) →
      Environ pid k (k.putSet id slot)
  /-- A semaphore of a set is used, not the one that identifies the set. -/
  | used {id : Int} {semSet : SemSet ι} {n : Nat} {s : Sem} :
      k.sets id = .live semSet → n + 1 < semSet.sems.length → s.val ≠ PG_SEMA_MAGIC →
      Environ pid k (k.putSet id (.live { semSet with sems := semSet.sems.set n s }))
  /-- Another program creates, changes or removes a segment. It does not begin with our mark. -/
  | otherSegment {id : Int} {slot : Slot (Segment ι)} :
      (∀ seg, k.segments id = .live seg → seg.owner = none) → (∀ seg, k.segments id ≠ .removed seg) →
      (∀ seg, slot.contents? = some seg → seg.owner = none ∧ seg.header .magic ≠ PG_SHMEM_MAGIC) →
      (k.segments id ≠ .unused → slot ≠ .unused) →
      Environ pid k (k.putSegment id slot)
  /-- Space is allocated in a segment. -/
  | allocated {id : Int} {seg : Segment ι} {n : Int} :
      k.segments id = .live seg →
      Environ pid k (k.putSegment id (.live (seg.put .freeOffset n)))

end PostgresV7.SysV
