import PostgresV7.Base
import PostgresV7.Ipc.SysV

/-!
# Creating semaphores and shared memory (`ipc.c`)

Loops that go on until the kernel says something else get fuel; a program that runs out of it
has stopped in the middle. `printf` and the lock file are left out.
-/

namespace PostgresV7.SysV

open Threads Owned

/-- The functions that are registered with `on_shmem_exit`, with their argument.
`private_memory_delete` is declared and has no body. -/
inductive Callback where
  | callbackSemaphoreKill (semId : Int)
  | ipcMemoryDetach (shmAddr : Int)
  | ipcMemoryDelete (shmId : Int)
  | privateMemoryDelete
  deriving DecidableEq, Repr

/-- The static variables of a process. The callback registered last comes first. -/
structure State where
  nextShmemSegID : Nat
  nextSemaID : Nat
  onShmemExitList : List Callback
  deriving DecidableEq, Repr

/-- Why a program does not go on: `proc_exit`; `elog(FATAL)`; a failed assertion; no fuel. -/
inductive Halt where
  | exited (code : Int)
  | fatal
  | assertion
  | endless
  deriving DecidableEq, Repr

abbrev Ipc := Prog Call (fun _ => Answer) Halt

/-! ## Leaving -/

/-- `ipc_semaphore_kill`. -/
def ipcSemaphoreKill (semId : Int) : Ipc Unit := do
  let _ ← perform (.semctlRmid semId)
  pure ()

/-- `callback_semaphore_kill`, `ipc_memory_detach` and `ipc_memory_delete`. -/
def Callback.run : Callback → Ipc Unit
  | .callbackSemaphoreKill semId => ipcSemaphoreKill semId
  | .ipcMemoryDetach shmAddr => do
    let _ ← perform (.shmdt shmAddr)
    pure ()
  | .ipcMemoryDelete shmId => do
    let _ ← perform (.shmctlRmid shmId)
    pure ()
  | .privateMemoryDelete => pure ()

/-- The loop of `shmem_exit`. -/
def runCallbacks : List Callback → Ipc Unit
  | [] => pure ()
  | callback :: list => do
    callback.run
    runCallbacks list

/-- `shmem_exit`. -/
def shmemExit (st : State) : Ipc State := do
  runCallbacks st.onShmemExitList
  pure { st with onShmemExitList := [] }

/-- `proc_exit`. -/
def procExit {α : Type} (st : State) (code : Int) : Ipc α := do
  let _ ← shmemExit st
  .stop (.exited code)

/-- `on_shmem_exit`. -/
def onShmemExit (st : State) (callback : Callback) : Ipc State :=
  if st.onShmemExitList.length ≥ MAX_ON_EXITS then .stop .fatal
  else pure { st with onShmemExitList := callback :: st.onShmemExitList }

/-- `ipc_init_key_assignment`. -/
def ipcInitKeyAssignment (st : State) (port : Nat) : State :=
  { st with nextShmemSegID := port * 1000 % 2 ^ 32, nextSemaID := port * 1000 % 2 ^ 32 }

/-! ## Semaphores -/

/-- What `semctl` returns. -/
def returned : Answer → Int
  | .ok n => n
  | .error _ => -1

/-- `ipc_semaphore_get_value`. -/
def ipcSemaphoreGetValue (semId : Int) (sem : Nat) : Ipc Int := do
  pure (returned (← perform (.semctlGetVal semId sem)))

/-- `ipc_semaphore_get_last_pid`. -/
def ipcSemaphoreGetLastPid (semId : Int) (sem : Nat) : Ipc Int := do
  pure (returned (← perform (.semctlGetPid semId sem)))

/-- `ipc_semaphore_lock`. Interrupts are serviced before each try, and do not show here. -/
def ipcSemaphoreLock (st : State) (semId : Int) (sem : Nat) : Nat → Ipc Unit
  | 0 => .stop .endless
  | fuel + 1 => do
    match ← perform (.semop semId sem (-1) false) with
    | .ok _ => pure ()
    | .error e => if e = .EINTR then ipcSemaphoreLock st semId sem fuel else procExit st 255

/-- `ipc_semaphore_unlock`. -/
def ipcSemaphoreUnlock (st : State) (semId : Int) (sem : Nat) : Nat → Ipc Unit
  | 0 => .stop .endless
  | fuel + 1 => do
    match ← perform (.semop semId sem 1 false) with
    | .ok _ => pure ()
    | .error e => if e = .EINTR then ipcSemaphoreUnlock st semId sem fuel else procExit st 255

/-- `ipc_semaphore_try_lock`. -/
def ipcSemaphoreTryLock (st : State) (semId : Int) (sem : Nat) : Nat → Ipc Bool
  | 0 => .stop .endless
  | fuel + 1 => do
    match ← perform (.semop semId sem (-1) true) with
    | .ok _ => pure true
    | .error e =>
      if e = .EINTR then ipcSemaphoreTryLock st semId sem fuel
      else if e = .EAGAIN then pure false
      else procExit st 255

/-- A collision with an object that exists already. -/
def Errno.isCollision (e : Errno) : Bool := e = .EEXIST ∨ e = .EACCES ∨ e = .EIDRM

/-- `internal_ipc_semaphore_create`, `none` for `-1`. -/
def internalIpcSemaphoreCreate (st : State) (semKey numSems : Nat) (semStartValue : Nat) (removeOnExit : Bool) :
    Ipc (Option Int × State) :=
  if ¬ (0 < numSems ∧ numSems ≤ IPC_NMAX_SEM) then .stop .assertion
  else do
    match ← perform (.semgetExcl semKey numSems) with
    | .error e => if e.isCollision then pure (none, st) else procExit st 1
    | .ok semId =>
      -- the array holds unsigned shorts
      match ← perform (.semctlSetAll semId (List.replicate numSems (semStartValue % 2 ^ 16))) with
      | .error _ =>
        ipcSemaphoreKill semId
        procExit st 1
      | .ok _ =>
        if removeOnExit then do
          let st ← onShmemExit st (.callbackSemaphoreKill semId)
          pure (some semId, st)
        else pure (some semId, st)

/-- Whether the process with that number still exists, and is another one. -/
def isExtant (creatorPid : Int) : Ipc Bool := do
  let self ← perform .getpid
  if creatorPid ≠ returned self then
    match ← perform (.kill creatorPid) with
    | .ok _ => pure true
    | .error e => pure (e ≠ .ESRCH)
  else pure false

/-- The rest of a round, when a set with our mark was found. -/
def zapSemaphores (st : State) (numSems semStartValue : Nat) (removeOnExit : Bool) (semId creatorPid : Int) :
    Ipc (Option Int × State) := do
  if ← isExtant creatorPid then pure (none, st)
  else
    match ← perform (.semctlRmid semId) with
    | .error _ => pure (none, st)
    | .ok _ => internalIpcSemaphoreCreate st st.nextSemaID (numSems + 1) semStartValue removeOnExit

/-- One round of the loop of `ipc_semaphore_create`; `none` is `continue`. -/
def ipcSemaphoreCreateRound (st : State) (numSems semStartValue : Nat) (removeOnExit : Bool) :
    Ipc (Option Int × State) := do
  match ← internalIpcSemaphoreCreate st st.nextSemaID (numSems + 1) semStartValue removeOnExit with
  | (some semId, st) => pure (some semId, st)
  | (none, st) =>
    -- see if it looks to be left over from a dead process
    match ← perform (.semget st.nextSemaID (numSems + 1)) with
    | .error _ => pure (none, st)
    | .ok semId =>
      if (← ipcSemaphoreGetValue semId numSems) ≠ PG_SEMA_MAGIC then pure (none, st)
      else zapSemaphores st numSems semStartValue removeOnExit semId (← ipcSemaphoreGetLastPid semId numSems)

/-- The loop of `ipc_semaphore_create`. -/
def ipcSemaphoreCreateLoop (numSems semStartValue : Nat) (removeOnExit : Bool) :
    Nat → State → Ipc (Int × State)
  | 0, _ => .stop .endless
  | fuel + 1, st => do
    let st := { st with nextSemaID := (st.nextSemaID + 1) % 2 ^ 32 }
    match ← ipcSemaphoreCreateRound st numSems semStartValue removeOnExit with
    | (some semId, st) => pure (semId, st)
    | (none, st) => ipcSemaphoreCreateLoop numSems semStartValue removeOnExit fuel st

/-- `ipc_semaphore_create`. -/
def ipcSemaphoreCreate (fuel : Nat) (st : State) (numSems semStartValue : Nat) (removeOnExit : Bool) :
    Ipc (Int × State) := do
  let (semId, st) ← ipcSemaphoreCreateLoop numSems semStartValue removeOnExit fuel st
  -- mark it as created by this process
  match ← perform (.semctlSetVal semId numSems (PG_SEMA_MAGIC - 1)) with
  | .error _ => procExit st 1
  | .ok _ =>
    ipcSemaphoreUnlock st semId numSems fuel
    pure (semId, st)

/-! ## Shared memory -/

/-- `internal_ipc_memory_create`, `none` for `NULL`. -/
def internalIpcMemoryCreate (st : State) (memKey size : Nat) : Ipc (Option Int × State) := do
  match ← perform (.shmgetExcl memKey size) with
  | .error e => if e.isCollision then pure (none, st) else procExit st 1
  | .ok shmId =>
    let st ← onShmemExit st (.ipcMemoryDelete shmId)
    match ← perform (.shmat shmId) with
    | .error _ => procExit st 1
    | .ok memAddr =>
      let st ← onShmemExit st (.ipcMemoryDetach memAddr)
      pure (some memAddr, st)

/-- `private_memory_create`; the memory is not one of the kernel's segments. -/
def privateMemoryCreate (st : State) : Ipc State := onShmemExit st .privateMemoryDelete

/-- The rest of a round, when a segment with our mark was found. -/
def zapMemory (st : State) (size : Nat) (shmId memAddr creatorPid : Int) : Ipc (Option Int × State) := do
  if ← isExtant creatorPid then
    let _ ← perform (.shmdt memAddr)
    pure (none, st)
  else
    let _ ← perform (.shmdt memAddr)
    match ← perform (.shmctlRmid shmId) with
    | .error _ => pure (none, st)
    | .ok _ => internalIpcMemoryCreate st st.nextShmemSegID size

/-- One round of the loop of `ipc_memory_create`; `none` is `continue`. -/
def ipcMemoryCreateRound (st : State) (size : Nat) : Ipc (Option Int × State) := do
  match ← internalIpcMemoryCreate st st.nextShmemSegID size with
  | (some memAddr, st) => pure (some memAddr, st)
  | (none, st) =>
    -- see if it looks to be left over from a dead process
    match ← perform (.shmget st.nextShmemSegID SIZEOF_PG_SHMEM_HEADER) with
    | .error _ => pure (none, st)
    | .ok shmId =>
      match ← perform (.shmat shmId) with
      | .error _ => pure (none, st)
      | .ok memAddr =>
        if returned (← perform (.load memAddr .magic)) ≠ PG_SHMEM_MAGIC then
          let _ ← perform (.shmdt memAddr)
          pure (none, st)
        else zapMemory st size shmId memAddr (returned (← perform (.load memAddr .creatorPid)))

/-- The loop of `ipc_memory_create` for a segment that is not private. -/
def ipcMemoryCreateLoop (size : Nat) : Nat → State → Ipc (Int × State)
  | 0, _ => .stop .endless
  | fuel + 1, st => do
    let st := { st with nextShmemSegID := (st.nextShmemSegID + 1) % 2 ^ 32 }
    match ← ipcMemoryCreateRound st size with
    | (some memAddr, st) => pure (memAddr, st)
    | (none, st) => ipcMemoryCreateLoop size fuel st

/-- `ipc_memory_create`; a private segment is `none`. -/
def ipcMemoryCreate (fuel : Nat) (st : State) (size : Nat) (makePrivate : Bool) : Ipc (Option Int × State) :=
  if ¬ maxAlign SIZEOF_PG_SHMEM_HEADER < size then .stop .assertion
  else if makePrivate then do
    let st ← privateMemoryCreate { st with nextShmemSegID := (st.nextShmemSegID + 1) % 2 ^ 32 }
    pure (none, st)
  else do
    let (memAddr, st) ← ipcMemoryCreateLoop size fuel st
    -- the header must not be seen as valid with the process of somebody else
    let self ← perform .getpid
    let _ ← perform (.store memAddr .creatorPid (returned self))
    let _ ← perform (.store memAddr .magic PG_SHMEM_MAGIC)
    let _ ← perform (.store memAddr .totalSize size)
    let _ ← perform (.store memAddr .freeOffset (maxAlign SIZEOF_PG_SHMEM_HEADER))
    pure (some memAddr, st)

/-! ## What a process asks for -/

inductive Request where
  | keys (port : Nat)
  | semaphores (numSems semStartValue : Nat) (removeOnExit : Bool)
  | memory (size : Nat) (makePrivate : Bool)
  | shmemExit
  | procExit (code : Int)
  deriving DecidableEq, Repr

/-- A process that serves one request after another. The list holds the sets that it was granted
since the keys were last assigned. -/
def serve (fuel : Nat) : List Request → List Int → State → Ipc (List Int × State)
  | [], granted, st => pure (granted, st)
  | .keys port :: requests, _, st => serve fuel requests [] (ipcInitKeyAssignment st port)
  | .semaphores numSems semStartValue removeOnExit :: requests, granted, st => do
    let (semId, st) ← ipcSemaphoreCreate fuel st numSems semStartValue removeOnExit
    serve fuel requests (semId :: granted) st
  | .memory size makePrivate :: requests, granted, st => do
    let (_, st) ← ipcMemoryCreate fuel st size makePrivate
    serve fuel requests granted st
  | .shmemExit :: requests, _, st => do
    let st ← shmemExit st
    serve fuel requests [] st
  | .procExit code :: _, _, st => procExit st code

/-- A process that has just started. -/
def State.init : State where
  nextShmemSegID := 0
  nextSemaID := 0
  onShmemExitList := []

end PostgresV7.SysV
