import DssSdk.Wal.Zone

/-!
# Requests through the write-ahead log

The handlers of `wal_log.cpp` and `wal_module.cpp` over a cache zone and its log zone: a request
changes the cache, joins a dump group or is dumped on its own, and is answered when its log I/O
completes.

* `LogZone`, `LogIo`, `Service`: the log buffers, the log I/O under way, the whole state;
* `logInsertObject`: `wal_log_insert_object`;
* `handleStore`, `handleDelete`, `handleRetrieve`: `wal_handle_*_op`;
* `serve`: `dfly_wal_req_process`;
* `logComplete`: `wal_log_complete_batch` and `wal_log_complete_single`;
* `ServiceEvent`, `serviceStep`: the calls.

A request is known by a number. The fields `accepted`, `handed` and `completed` are a record of what
has happened. Fused requests, the checksums and the content of the log device are left out.
-/

namespace DssSdk.Wal

open CellMemory

/-- `wal_buffer_t` of the log device. -/
structure LogBuffer where
  startAddr : ℕ
  endAddr : ℕ
  currPos : ℕ
  deriving DecidableEq, Repr

/-- `wal_zone_t` of the log device. -/
structure LogZone where
  buffer : Bool → LogBuffer
  logId : Bool

/-- `zone->log` of the log zone. -/
def LogZone.log (z : LogZone) : LogBuffer := z.buffer z.logId

/-- The buffer from its start. -/
def LogBuffer.rewind (buf : LogBuffer) : LogBuffer :=
  { buf with currPos := alignUp (buf.startAddr + bufferHdrSz) }

/-- `wal_zone_switch_buffer` on a log zone. -/
def LogZone.switchBuffer (z : LogZone) : LogZone where
  buffer := Function.update z.buffer (!z.logId) (z.buffer !z.logId).rewind
  logId := !z.logId

/-- A write to the log device under way, with its callback and the argument of it. -/
inductive LogIo
  | batch (buf : Bool) (dumpAddr : ℕ)
  | single (req : ℕ)
  deriving DecidableEq, Repr

/-- The operations that change something. -/
inductive ReqOp
  | store
  | delete
  deriving DecidableEq, Repr

/-- A request. -/
structure Request where
  op : ReqOp
  obj : Object
  deriving DecidableEq, Repr

/-- A request that was not sent back, the result of its handler, and whether its state became
`DFLY_REQ_IO_WRITE_MISS_SUBMITTED_TO_LOG`. -/
structure Accepted where
  req : Request
  rc : Rc
  writeMiss : Bool
  deriving DecidableEq, Repr

/-- The cache zone with its log zone, the log I/O under way, the requests that wait for a retry, the
requests that were accepted (the last one first), those of the dumps that were handed to the log,
and those whose log I/O has completed. -/
structure Service where
  zone : Zone
  logZone : LogZone
  logIo : List LogIo
  wpQueue : List Request
  accepted : List Accepted
  handed : List ℕ
  completed : List ℕ

/-! ### `wal_log_insert_object` -/

/-- `wal_log_get_object_size`. -/
def logGetObjectSize (obj : Object) : ℕ :=
  alignUp (obj.key.length + obj.val.length + objHdrSz + objChksumSz)

/-- `dump_hdr->req_list`. -/
def headerReqs (z : Zone) (id : Bool) (addr : ℕ) : Option (List ℕ) :=
  match (z.cache id).mem addr with
  | some (_, .dumpHdr reqs) => some reqs
  | _ => none

/-- The record of an item. -/
def itemRecord (z : Zone) (item : Bool × ItemRef) : Option Record :=
  ((z.cache item.1).item? item.2).bind fun it =>
    match (z.cache item.1).mem it.addr with
    | some (_, .record r) => some r
    | _ => none

/-- The dump of a group: the state and the size of the write. -/
def dumpBatch (s : Service) (dump : DumpInfo) : Option (Service × ℕ) :=
  if dump.dumpFlags.batch then
    (headerReqs s.zone dump.buf dump.dumpAddr).map fun reqs =>
      if reqs = [] then (s, 0)
      else
        ({ s with
            logIo := s.logIo ++ [.batch dump.buf dump.dumpAddr]
            handed := s.handed ++ reqs },
          dump.dumpBlk * walAlign)
  else some (s, 0)

/-- The dump of the record of an item: the state and the size of the write. -/
def dumpSingle (s : Service) (obj : Option Object) (item : Option (Bool × ItemRef))
    (dump : DumpInfo) : Option (Service × ℕ) :=
  if dump.dumpFlags.single then
    obj.bind fun o =>
      item.bind fun it =>
        (itemRecord s.zone it).map fun r =>
          ({ s with
              logIo := s.logIo ++ [.single o.req]
              handed := s.handed ++ [o.req] },
            r.szBlk * walAlign)
  else some (s, 0)

/-- The size `wal_log_insert_object` asks room for. -/
def logRecordSz (obj : Option Object) (forDel : Bool) (dump : DumpInfo) : ℕ :=
  (if dump.dumpFlags.batch then dump.dumpBlk * walAlign else 0) +
    if dump.dumpFlags.single then
      obj.elim 0 fun o => if forDel then deletionObjectSize o else logGetObjectSize o
    else 0

/-- The log zone with the buffer that takes a write. -/
def LogZone.makeRoom (z : LogZone) (size : ℕ) : LogZone :=
  if z.log.endAddr ≤ z.log.currPos + size then z.switchBuffer else z

/-- The position behind a write. -/
def LogZone.advance (z : LogZone) (size : ℕ) : LogZone :=
  { z with
    buffer := Function.update z.buffer z.logId { z.log with currPos := z.log.currPos + size } }

/-- `wal_log_insert_object`. The write to the log device is asserted to be submitted. -/
def logInsertObject (s : Service) (obj : Option Object) (item : Option (Bool × ItemRef))
    (forDel : Bool) (dump : DumpInfo) : Option Service :=
  if dump.dumpFlags = dumpNotReady then some s
  else
    (dumpBatch s dump).bind fun (s₁, batchSz) =>
      (dumpSingle s₁ obj item dump).map fun (s₂, singleSz) =>
        { s₂ with
          logZone :=
            (s.logZone.makeRoom (logRecordSz obj forDel dump)).advance (batchSz + singleSz) }

/-! ### The handlers -/

/-- `dump_info` of a handler. -/
def noDump : DumpInfo := ⟨false, 0, 0, dumpNotReady⟩

/-- The result of a handler. -/
structure Handled where
  service : Service
  rc : Rc
  writeMiss : Bool

/-- `wal_handle_delete_op`. -/
def handleDelete (conf : ZoneConf) (s : Service) (obj : Object) : Option Handled :=
  if conf.logEnabled then
    (insertObject conf s.zone obj true noDump).bind fun out =>
      let s₁ := { s with zone := out.zone }
      let rc := if out.rc = .writeMiss then .deleteSuccess else out.rc
      if rc = .success ∧ out.dump.dumpFlags = dumpNotReady then some ⟨s₁, .deletePending, false⟩
      else if rc ≠ .ioRetry ∧ (out.item.isSome ∨ out.dump.dumpFlags.batch) then
        (logInsertObject s₁ (some obj) out.item true out.dump).map fun s₂ =>
          ⟨s₂, if rc = .deleteMiss then .deleteMiss else .deletePending, false⟩
      else some ⟨s₁, rc, false⟩
  else
    (invalidateBoth conf s.zone obj).map fun (z, rc) => ⟨{ s with zone := z }, rc, false⟩

/-- `wal_handle_store_op`. -/
def handleStore (conf : ZoneConf) (s : Service) (obj : Object) : Option Handled :=
  if conf.objectSizeLimit ≤ obj.val.length then handleDelete conf s obj
  else
    (insertObject conf s.zone obj false noDump).bind fun out =>
      let s₁ := { s with zone := out.zone }
      if conf.logEnabled = false then some ⟨s₁, out.rc, false⟩
      else if out.rc = .success ∧ out.dump.dumpFlags = dumpNotReady then
        some ⟨s₁, .logPending, false⟩
      else if out.item.isSome ∧ out.rc ≠ .ioRetry then
        (logInsertObject s₁ (some obj) out.item false out.dump).map fun s₂ =>
          ⟨s₂, if out.rc = .success ∨ out.rc = .writeMiss then .logPending else out.rc,
            out.rc = .writeMiss⟩
      else some ⟨s₁, out.rc, false⟩

/-- What `wal_handle_retrieve_op` finds: the bytes it reads into the buffer of the request, and the
size of the value. -/
def handleRetrieve (conf : ZoneConf) (z : Zone) (obj : Object) : Option (Option (Bytes × ℕ)) :=
  (retrieve conf z obj).bind fun (z', found) =>
    match found with
    | none => some none
    | some (id, ref) =>
        ((z'.cache id).item? ref).map fun it =>
          some ((mapRead (z'.cache id) it obj.val.length).1, it.valSize)

/-- The handler of a request. -/
def handle (conf : ZoneConf) (s : Service) (req : Request) : Option Handled :=
  match req.op with
  | .store => handleStore conf s req.obj
  | .delete => handleDelete conf s req.obj

/-! ### The module -/

/-- `req->next_action`. -/
inductive NextAction
  | completeNvmf
  | forwardToIoThread
  | none
  deriving DecidableEq, Repr

/-- The action `dfly_wal_req_process` chooses. -/
def processAction : Rc → NextAction
  | .success => .completeNvmf
  | .ioRetry => .none
  | .logPending => .none
  | .deletePending => .none
  | _ => .forwardToIoThread

/-- The action `wal_log_complete_single` chooses. -/
def completeAction (conf : ZoneConf) (a : Accepted) : NextAction :=
  if a.writeMiss then .forwardToIoThread
  else
    match a.req.op with
    | .delete => .forwardToIoThread
    | .store =>
        if conf.objectSizeLimit ≤ a.req.obj.val.length then .forwardToIoThread else .completeNvmf

/-- A pending status. -/
def Rc.isPending : Rc → Bool
  | .logPending => true
  | .deletePending => true
  | _ => false

/-- `dfly_wal_req_process`. -/
def serve (conf : ZoneConf) (s : Service) (req : Request) : Option Service :=
  (handle conf s req).map fun h =>
    if h.rc = .ioRetry then { h.service with wpQueue := h.service.wpQueue ++ [req] }
    else { h.service with accepted := ⟨req, h.rc, h.writeMiss⟩ :: h.service.accepted }

/-- The dumps of a poll. -/
def dumpObjs (s : Service) : List DumpInfo → Option Service
  | [] => some s
  | dump :: dumps => (logInsertObject s none none false dump).bind fun s' => dumpObjs s' dumps

/-- `dfly_wal_generic_poll` on a zone. One request is tried again. -/
def pollService (conf : ZoneConf) (ans : PollAnswers) (s : Service) : Option Service :=
  (pollZone conf ans s.zone).bind fun (z, dumps) =>
    (dumpObjs { s with zone := z } dumps).bind fun s₁ =>
      match s₁.wpQueue with
      | [] => some s₁
      | req :: rest => serve conf { s₁ with wpQueue := rest } req

/-- `wal_log_complete_batch` or `wal_log_complete_single` for the log I/O at a place of the list. -/
def logComplete (s : Service) (n : ℕ) : Option Service :=
  match s.logIo[n]? with
  | none => some s
  | some (.batch id addr) =>
      (headerReqs s.zone id addr).map fun reqs =>
        let buf : Buffer :=
          { s.zone.cache id with mem := modify (s.zone.cache id).mem addr fun _ => .dumpHdr [] }
        { s with
          zone := s.zone.set id buf
          logIo := s.logIo.eraseIdx n
          completed := s.completed ++ reqs }
  | some (.single req) =>
      some { s with logIo := s.logIo.eraseIdx n, completed := s.completed ++ [req] }

/-- The calls. -/
inductive ServiceEvent
  | request (req : Request)
  | retrieve (obj : Object)
  | poll (ans : PollAnswers)
  | flushComplete (n : ℕ)
  | logComplete (n : ℕ)

/-- One call. -/
def serviceStep (conf : ZoneConf) (s : Service) : ServiceEvent → Option Service
  | .request req => serve conf s req
  | .retrieve obj => (Wal.retrieve conf s.zone obj).map fun (z, _) => { s with zone := z }
  | .poll ans => pollService conf ans s
  | .flushComplete n => (Wal.flushComplete s.zone n).map fun z => { s with zone := z }
  | .logComplete n => Wal.logComplete s n

/-- Where the buffers of a zone are. -/
structure Layout where
  logStart : ℕ
  logEnd : ℕ
  flushStart : ℕ
  flushEnd : ℕ

/-- A log zone as it is created. -/
def logZoneCreate (lay : Layout) : LogZone where
  buffer := fun id =>
    if id then (⟨lay.flushStart, lay.flushEnd, 0⟩ : LogBuffer).rewind
    else (⟨lay.logStart, lay.logEnd, 0⟩ : LogBuffer).rewind
  logId := false

/-- The state before the first request. -/
def serviceCreate (conf : ZoneConf) (cache log : Layout) : Service where
  zone := zoneCreate conf cache.logStart cache.logEnd cache.flushStart cache.flushEnd
  logZone := logZoneCreate log
  logIo := []
  wpQueue := []
  accepted := []
  handed := []
  completed := []

end DssSdk.Wal
