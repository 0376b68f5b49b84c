import DssSdk.Lib.Program
import DssSdk.Lib.Run

/-!
# The lock service

`dfly_lock_service.cpp`: read and write locks on keys, with blocking requests that wait in the
queue of a lock object and locks that expire.

* `LockObject`: the lock of one key;
* `Service`: the table of active locks, the pool of lock objects, the counters of the queue pairs,
  and what was completed and logged so far;
* `execLock`, `processPendingLockReqs`, `lockSvcProcessReq`: the service on one request;
* `step`: the service on the next command, `none` when an assertion fails.

A handler gets a lock object and returns it changed; `lockSvcProcessReq` puts it back into the
table. The clock is any sequence of readings, one for each call of `spdk_get_ticks`.
-/

namespace DssSdk.LockService

/-- The opcodes of the service. -/
inductive Opc
  | lock
  | unlock
  deriving DecidableEq, Repr

/-- `lock_request_t`. `key` is `dfly_lock_key_s`, sixteen bytes. -/
structure LockRequest where
  opc : Opc
  nsid : ℕ
  uuid : UInt64
  lockDuration : UInt32
  keylen : ℕ
  priority : ℕ
  writeLock : Bool
  blocking : Bool
  key : List UInt8
  deriving DecidableEq

/-- The string that a lock is found by. -/
def LockRequest.keyStr (cmd : LockRequest) : List UInt8 := cmd.key.take (cmd.keylen + 1)

/-- `dfly_request`: a command and the queue pair it came from. -/
structure DflyRequest where
  id : ℕ
  dqpair : ℕ
  cmd : LockRequest
  deriving DecidableEq

/-- `lock_object_t`. `uuid_ht` is a set of uuids. -/
structure LockObject where
  key : List UInt8
  rcount : ℕ
  wlock : Bool
  expireTick : ℕ
  uuidHt : Finset UInt64
  pendingLockReqs : List DflyRequest

/-- A lock object after `memset`. -/
def LockObject.zero : LockObject where
  key := []
  rcount := 0
  wlock := false
  expireTick := 0
  uuidHt := ∅
  pendingLockReqs := []

/-- The status codes of the service. -/
inductive StatusCode
  | success
  | invalidField
  | internalDeviceError
  | keyNotExist
  | keyIsLocked
  | uuidMismatch
  | lockExpired
  | noWriterExists
  | noReaderExists
  deriving DecidableEq, Repr

/-- What the service logs of a key. -/
inductive LogEntry
  | readLocked (key : List UInt8)
  | writeLocked (key : List UInt8)
  | readUnLocked (key : List UInt8)
  | writeUnLocked (key : List UInt8)
  | lockExpired (key : List UInt8)
  deriving DecidableEq

/-- The service. `reads` counts the readings of the clock, `received` the requests, whose numbers
are their ids; `completed` and `log` have the last entry first. -/
structure Service where
  activeLocks : List (List UInt8 × LockObject)
  lobjMp : List LockObject
  npendingLockReqs : ℕ → ℕ
  statusCode : ℕ → StatusCode
  reads : ℕ
  received : ℕ
  completed : List (ℕ × StatusCode)
  log : List LogEntry

/-- The readings of the clock, its rate, and the number of requests that may wait for each queue
pair. -/
structure Env where
  ticks : ℕ → ℕ
  ticksHz : ℕ
  maxPendingLockReqs : ℕ → UInt32

/-- `DFLY_ASSERT` failed. -/
inductive Fault
  | assertFailed
  deriving DecidableEq, Repr

/-- The handlers of the service. -/
abbrev M (α : Type) := StateT Service (Except Fault) α

/-- `DFLY_ASSERT`. -/
def dflyAssert (c : Prop) [Decidable c] : M Unit := if c then pure () else throw .assertFailed

/-- The results of a module handler. -/
inductive ModuleRc
  | processed
  | processedInline
  | queued
  deriving DecidableEq, Repr

variable (E : Env)

/-- `spdk_get_ticks`. -/
def getTicks : M ℕ := do
  let s ← get
  modify fun s => { s with reads := s.reads + 1 }
  return E.ticks s.reads

/-- `dfly_set_status_code`. -/
def setStatusCode (req : DflyRequest) (code : StatusCode) : M Unit :=
  modify fun s => { s with statusCode := Function.update s.statusCode req.id code }

/-- `dfly_nvmf_complete`. -/
def complete (req : DflyRequest) : M Unit :=
  modify fun s => { s with completed := (req.id, s.statusCode req.id) :: s.completed }

/-- `DFLY_INFOLOG`. -/
def infoLog (e : LogEntry) : M Unit := modify fun s => { s with log := e :: s.log }

/-- `npending_lock_reqs++`, in 32 bits. -/
def incPending (dqpair : ℕ) : M Unit :=
  modify fun s => { s with
    npendingLockReqs := Function.update s.npendingLockReqs dqpair
      ((s.npendingLockReqs dqpair + 1) % 2 ^ 32) }

/-- `npending_lock_reqs--`, in 32 bits. -/
def decPending (dqpair : ℕ) : M Unit :=
  modify fun s => { s with
    npendingLockReqs := Function.update s.npendingLockReqs dqpair
      ((s.npendingLockReqs dqpair + (2 ^ 32 - 1)) % 2 ^ 32) }

/-- The end of a lock, in 64 bits. -/
def expireTickFrom (now : ℕ) (cmd : LockRequest) : ℕ :=
  (now + cmd.lockDuration.toNat * E.ticksHz) % 2 ^ 64

/-- `is_blocking_allowed`. -/
def isBlockingAllowed (req : DflyRequest) : M Bool := do
  return (← get).npendingLockReqs req.dqpair < (E.maxPendingLockReqs req.dqpair).toNat

/-- The checks of `dfly_nvmf_is_valid_lock_req`: a blocking lock command needs a queue pair with
room for it. -/
def isValid (dqpair : ℕ) (cmd : LockRequest) : Bool :=
  cmd.priority = 0 ∧ cmd.nsid ≠ 0 ∧ cmd.nsid ≤ 1 ∧ cmd.keylen ≤ 15 ∧
    ¬ (cmd.opc = .lock ∧ cmd.blocking = true ∧ E.maxPendingLockReqs dqpair = 0)

/-- `dfly_nvmf_is_valid_lock_req`. -/
def isValidLockReq (req : DflyRequest) : M Bool := do
  if isValid E req.dqpair req.cmd then return true
  else
    setStatusCode req .invalidField
    return false

/-- `verify_uuid`: the uuid comes to the lock object or leaves it. `none` when the request was
completed with an error. -/
def verifyUuid (req : DflyRequest) (lobj : LockObject) : M (Option LockObject) := do
  let uuid := req.cmd.uuid
  match req.cmd.opc with
  | .lock =>
      if uuid ∈ lobj.uuidHt then
        setStatusCode req .uuidMismatch
        complete req
        return none
      else return some { lobj with uuidHt := insert uuid lobj.uuidHt }
  | .unlock =>
      if uuid ∈ lobj.uuidHt then return some { lobj with uuidHt := lobj.uuidHt.erase uuid }
      else
        setStatusCode req .uuidMismatch
        complete req
        return none

/-- A request for a key that is locked: it waits if it may, else it fails. -/
def waitOrFail (req : DflyRequest) (lobj : LockObject) : M (Bool × LockObject) := do
  if req.cmd.blocking = true ∧ (← isBlockingAllowed E req) = true then
    incPending req.dqpair
    return (true, { lobj with pendingLockReqs := lobj.pendingLockReqs ++ [req] })
  else
    setStatusCode req .keyIsLocked
    return (false, lobj)

/-- `_dfly_nvmf_exec_lock` for a write lock. -/
def execWriteLock (req : DflyRequest) (lobj : LockObject) : M (ModuleRc × LockObject) := do
  if lobj.wlock = false ∧ lobj.rcount = 0 then
    match ← verifyUuid req lobj with
    | none => return (.processedInline, lobj)
    | some lobj =>
        infoLog (.writeLocked lobj.key)
        complete req
        return (.processedInline, { lobj with wlock := true })
  else
    let (waits, lobj) ← waitOrFail E req lobj
    if waits then return (.queued, lobj)
    else
      complete req
      return (.processedInline, lobj)

/-- `_dfly_nvmf_exec_lock` for a read lock. The check of the counter compares promoted integers;
the counter itself has 16 bits. -/
def execReadLock (req : DflyRequest) (lobj : LockObject) : M (ModuleRc × LockObject) := do
  if lobj.wlock = false then
    dflyAssert (lobj.rcount < lobj.rcount + 1)
    match ← verifyUuid req lobj with
    | none => return (.processedInline, lobj)
    | some lobj =>
        let newExpireTick := expireTickFrom E (← getTicks E) req.cmd
        let lobj := { lobj with rcount := (lobj.rcount + 1) % 2 ^ 16 }
        if lobj.expireTick < newExpireTick then
          dflyAssert ((← getTicks E) < newExpireTick)
          infoLog (.readLocked lobj.key)
          return (.processed, { lobj with expireTick := newExpireTick })
        else
          infoLog (.readLocked lobj.key)
          return (.processed, lobj)
  else
    let (waits, lobj) ← waitOrFail E req lobj
    return (if waits then .queued else .processed, lobj)

/-- `_dfly_nvmf_exec_lock`. -/
def execLock (req : DflyRequest) (lobj : LockObject) : M (ModuleRc × LockObject) :=
  if req.cmd.writeLock then execWriteLock E req lobj else execReadLock E req lobj

/-- The caller of `_dfly_nvmf_exec_lock` completes a request that was processed and not completed
yet. -/
def completeProcessed (rc : ModuleRc) (req : DflyRequest) : M Unit :=
  if rc = .processed then complete req else pure ()

/-- A request leaves the queue and gets its lock, in `dfly_process_pending_lock_reqs`. -/
def grantPending (req : DflyRequest) (reqs : List DflyRequest) (lobj : LockObject) :
    M LockObject := do
  decPending req.dqpair
  let (rc, lobj) ← execLock E req { lobj with pendingLockReqs := reqs }
  dflyAssert (rc ≠ .queued)
  completeProcessed rc req
  return lobj

/-- The loop of `dfly_process_pending_lock_reqs` over the queue: one writer, or the readers up to
the first writer. `readers` says that a reader was seen. -/
def processPending (readers : Bool) : List DflyRequest → LockObject → M LockObject
  | [], lobj => return { lobj with pendingLockReqs := [] }
  | req :: reqs, lobj => do
      dflyAssert (req.cmd.opc = .lock)
      dflyAssert (req.cmd.blocking = true)
      dflyAssert (0 < (← get).npendingLockReqs req.dqpair)
      if req.cmd.writeLock then
        if readers then return { lobj with pendingLockReqs := req :: reqs }
        else grantPending E req reqs lobj
      else
        let lobj ← grantPending E req reqs lobj
        processPending true reqs lobj

/-- `dfly_process_pending_lock_reqs`. -/
def processPendingLockReqs (lobj : LockObject) : M LockObject :=
  processPending E false lobj.pendingLockReqs lobj

/-! ### The table of active locks -/

/-- `dfly_ht_find`. -/
def Service.find (s : Service) (key : List UInt8) : Option LockObject := s.activeLocks.lookup key

/-- The lock object of a key changes in place. -/
def putObject (key : List UInt8) (lobj : LockObject) : M Unit :=
  modify fun s => { s with
    activeLocks := s.activeLocks.map fun e => if e.1 = key then (key, lobj) else e }

/-- `dfly_ht_insert`, for a key that is not in the table. -/
def htInsert (key : List UInt8) (lobj : LockObject) : M Unit :=
  modify fun s => { s with activeLocks := (key, lobj) :: s.activeLocks }

/-- `dfly_ht_delete`, and `dfly_mempool_put`. -/
def dropObject (key : List UInt8) (lobj : LockObject) : M Unit :=
  modify fun s => { s with
    activeLocks := s.activeLocks.filter fun e => e.1 ≠ key, lobjMp := lobj :: s.lobjMp }

/-! ### Requests -/

/-- The requests that wait for a lock that expired. The counter is the one of the queue pair of the
request that arrives. -/
def expirePending (dqpair : ℕ) : List DflyRequest → M Unit
  | [] => pure ()
  | pendingReq :: reqs => do
      decPending dqpair
      setStatusCode pendingReq .lockExpired
      complete pendingReq
      expirePending dqpair reqs

/-- The lock has expired: the request finds this out. -/
def expire (req : DflyRequest) (lobj : LockObject) : M Unit := do
  infoLog (.lockExpired lobj.key)
  expirePending req.dqpair lobj.pendingLockReqs
  dflyAssert ((← get).npendingLockReqs req.dqpair = 0)
  dropObject lobj.key LockObject.zero
  setStatusCode req .lockExpired
  complete req

/-- A lock command on its lock object. -/
def lockObject (req : DflyRequest) (lobj : LockObject) : M Unit := do
  let (rc, lobj) ← execLock E req lobj
  putObject lobj.key lobj
  completeProcessed rc req

/-- A lock object from the pool for the key of the request: the counter and the writer flag are
what the pool has. -/
def newObject (req : DflyRequest) (lobj : LockObject) : M LockObject := do
  let lobj := { lobj with
    key := req.cmd.keyStr, uuidHt := ∅, pendingLockReqs := []
    expireTick := expireTickFrom E (← getTicks E) req.cmd }
  dflyAssert ((← getTicks E) < lobj.expireTick)
  htInsert lobj.key lobj
  return lobj

/-- A lock object that nobody holds goes back to the pool. -/
def settleObject (lobj : LockObject) : M Unit :=
  if lobj.wlock = false ∧ lobj.rcount = 0 then dropObject lobj.key lobj else putObject lobj.key lobj

/-- The end of an unlock. -/
def finishUnlock (req : DflyRequest) (lobj : LockObject) : M Unit := do
  settleObject lobj
  complete req

/-- An unlock command for a write lock. -/
def unlockWriter (req : DflyRequest) (lobj : LockObject) : M Unit := do
  if lobj.wlock then
    match ← verifyUuid req lobj with
    | none => pure ()
    | some lobj =>
        dflyAssert (lobj.rcount = 0)
        infoLog (.writeUnLocked lobj.key)
        let lobj ← processPendingLockReqs E { lobj with wlock := false }
        finishUnlock req lobj
  else
    dflyAssert (0 < lobj.rcount)
    setStatusCode req .noWriterExists
    finishUnlock req lobj

/-- The queue is served when the last reader leaves. -/
def lastReader (lobj : LockObject) : M LockObject :=
  if lobj.rcount = 0 then processPendingLockReqs E lobj else pure lobj

/-- An unlock command for a read lock. -/
def unlockReader (req : DflyRequest) (lobj : LockObject) : M Unit := do
  if 0 < lobj.rcount then
    match ← verifyUuid req lobj with
    | none => pure ()
    | some lobj =>
        dflyAssert (lobj.wlock = false)
        infoLog (.readUnLocked lobj.key)
        let lobj ← lastReader E { lobj with rcount := lobj.rcount - 1 }
        finishUnlock req lobj
  else
    dflyAssert (lobj.wlock = true)
    setStatusCode req .noReaderExists
    finishUnlock req lobj

/-- `dfly_nvmf_lock_svc_process_req` with the lock object of the key. -/
def processFound (req : DflyRequest) (lobj : LockObject) : M Unit := do
  if lobj.expireTick < (← getTicks E) then expire req lobj
  else
    match req.cmd.opc with
    | .lock => lockObject E req lobj
    | .unlock => if req.cmd.writeLock then unlockWriter E req lobj else unlockReader E req lobj

/-- `dfly_nvmf_lock_svc_process_req` for a key without a lock object. -/
def processNew (req : DflyRequest) : M Unit := do
  match req.cmd.opc with
  | .unlock => do
      setStatusCode req .keyNotExist
      complete req
  | .lock => do
      match (← get).lobjMp with
      | [] => do
          setStatusCode req .internalDeviceError
          complete req
      | lobj :: rest => do
          modify fun s => { s with lobjMp := rest }
          let lobj ← newObject E req lobj
          lockObject E req lobj

/-- `dfly_nvmf_lock_svc_process_req`. -/
def lockSvcProcessReq (req : DflyRequest) : M Unit := do
  if ← isValidLockReq E req then
    match (← get).find req.cmd.keyStr with
    | some lobj => processFound E req lobj
    | none => processNew E req
  else complete req

/-! ### Commands -/

/-- A command and its queue pair. -/
structure Command where
  dqpair : ℕ
  cmd : LockRequest
  deriving DecidableEq

/-- The request of the next command. -/
def Service.nextReq (s : Service) (c : Command) : DflyRequest := ⟨s.received, c.dqpair, c.cmd⟩

/-- The service on the next command; `none` when an assertion fails. -/
def step (s : Service) (c : Command) : Option Service :=
  match lockSvcProcessReq E (s.nextReq c) { s with received := s.received + 1 } with
  | .error _ => none
  | .ok (_, s') => some s'

/-- `dfly_lock_service_subsys_start`, with a pool of `lobjs` lock objects. -/
def init (lobjs : ℕ) : Service where
  activeLocks := []
  lobjMp := List.replicate lobjs LockObject.zero
  npendingLockReqs := fun _ => 0
  statusCode := fun _ => .success
  reads := 0
  received := 0
  completed := []
  log := []

end DssSdk.LockService
