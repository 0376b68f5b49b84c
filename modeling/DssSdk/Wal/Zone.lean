import DssSdk.Wal.Map

/-!
# A cache zone

`wal_zone_buffer.cpp`, the flusher of `wal_log.cpp` and the zone's part of `wal_module.cpp`: two
cache buffers, one that takes the requests and one that is flushed, which change their roles when
the first is full and the flush is done.

* `Zone`, `ZoneConf`: the two buffers with the flush flags, and the configuration;
* `switchBuffer`, `insertObject`: `wal_zone_switch_buffer`, `wal_zone_insert_object`;
* `flushProc`, `flushComplete`: `wal_cache_flush_spdk_proc`, `wal_flush_complete`;
* `pollZone`: what `dfly_wal_generic_poll` does to a zone;
* `ZoneEvent`, `zoneStep`: the calls.

`none` is a failed assertion, a null pointer that is followed, a write behind the end of an array or a
loop that does not end. Timers
are answers of the event. The counters, the priority of the cache I/O, the timeout adjustment and the
shutdown are left out.
-/

namespace DssSdk.Wal

open CellMemory TailQueue

/-- What a zone is configured with besides its maps. -/
structure ZoneConf extends Conf where
  /-- `wal_cache_flush_threshold_by_count` -/
  flushThreshold : ℤ
  /-- `wal_cache_object_size_limit_kb`, in bytes -/
  objectSizeLimit : ℕ
  /-- `wal_log_batch_nr_obj` -/
  batchNrObj : ℕ
  /-- `wal_log_batch_nr_obj_adjust` -/
  batchNrObjAdjust : ℕ
  /-- `__periodic_flush` -/
  periodicFlush : Bool

/-- `wal_zone_t` of the cache: the buffers, the one that is the log, the flags
`WAL_POLL_FLUSH_DONE` and `WAL_POLL_FLUSH_DOING`, and the flush I/O that was submitted. -/
structure Zone where
  cache : Bool → Buffer
  logId : Bool
  flushDone : Bool
  flushDoing : Bool
  pollFlushMaxCnt : ℤ
  logBatchNrObj : ℕ
  inFlight : List (Bool × ItemRef)

/-- `zone->log`. -/
def Zone.log (z : Zone) : Buffer := z.cache z.logId

/-- `zone->flush`. -/
def Zone.flush (z : Zone) : Buffer := z.cache !z.logId

/-- Change a buffer. -/
def Zone.set (z : Zone) (id : Bool) (buf : Buffer) : Zone :=
  { z with cache := Function.update z.cache id buf }

/-- The results of the calls, `WAL_SUCCESS` and `WAL_ERROR_*`. -/
inductive Rc
  | success
  | logPending
  | readMiss
  | writeMiss
  | deleteMiss
  | deleteSuccess
  | deletePending
  | ioRetry
  deriving DecidableEq, Repr

/-! ### The switch of the buffers -/

/-- `WAL_BUFFER_HDR_SZ`. -/
def bufferHdrSz : ℕ := 1024

/-- `WAL_DUMP_HDR_SZ`. -/
def dumpHdrSz : ℕ := 3072

/-- Up to the next multiple of `WAL_ALIGN`. -/
def alignUp (n : ℕ) : ℕ := blocks n * walAlign

/-- The header of a dump group without requests. -/
def emptyDumpHdr (mem : Memory Cell) (addr : ℕ) : Memory Cell :=
  write mem addr dumpHdrSz (.dumpHdr [])

/-- The positions of a buffer that starts to take requests, and its first dump group. -/
def Buffer.rewind (conf : Conf) (buf : Buffer) (id : Bool) : Buffer :=
  let pos := alignUp (buf.startAddr + bufferHdrSz)
  if conf.logEnabled then
    { buf with
      dumpInfo := ⟨id, pos, 0, dumpNotReady⟩
      mem := emptyDumpHdr buf.mem pos
      currPos := alignUp (pos + dumpHdrSz) }
  else { buf with currPos := pos }

/-- `wal_zone_switch_buffer` on a cache zone. -/
def switchBuffer (conf : ZoneConf) (z : Zone) : Option Zone :=
  let id := !z.logId
  (reinit conf.toConf (z.cache id).map).map fun m =>
    let log : Buffer :=
      { (z.cache id).rewind conf.toConf id with nrObjectsInserted := 0, nrPendingIo := 0, map := m }
    let flush : Buffer := { z.log with map := { z.log.map with flushHead := none } }
    { (z.set z.logId flush).set id log with logId := id }

/-- The switch with the flags set for the flusher. -/
def startFlush (conf : ZoneConf) (z : Zone) : Option Zone :=
  (switchBuffer conf z).map fun z => { z with flushDone := false, flushDoing := true }

/-! ### `wal_zone_insert_object` -/

/-- `wal_deletion_object_size`. -/
def deletionObjectSize (obj : Object) : ℕ := alignUp (obj.key.length + objHdrSz + objChksumSz)

/-- `wal_cache_get_object_size`. -/
def cacheGetObjectSize (conf : Conf) (obj : Object) : ℕ :=
  alignUp (obj.key.length + obj.val.length + objHdrSz + objChksumSz) -
    if conf.logEnabled then 0 else objChksumSz

/-- `wal_object_dump_blk`. -/
def objectDumpBlk (obj : Object) (isDel : Bool) : ℕ :=
  blocks (obj.key.length + (if isDel then 0 else obj.val.length) + objHdrSz + objChksumSz)

/-- The log buffer has no room for the object, or holds enough objects. -/
def isFull (conf : ZoneConf) (z : Zone) (obj : Object) (forDel : Bool) : Bool :=
  let recordSz :=
    if forDel then deletionObjectSize obj else cacheGetObjectSize conf.toConf obj
  decide (z.log.endAddr ≤ z.log.currPos + recordSz + dumpHdrSz) ||
    decide (conf.flushThreshold ≤ z.log.nrObjectsInserted)

/-- What `wal_zone_insert_object` returns: the result, `*pp_map_item` and `*return_dump_info`. -/
structure Inserted where
  zone : Zone
  rc : Rc
  item : Option (Bool × ItemRef)
  dump : DumpInfo

/-- The status of an item of a buffer. -/
def Buffer.statusOf (buf : Buffer) (ref : ItemRef) : Option ItemStatus :=
  (buf.item? ref).map MapItem.status

/-- The flusher is busy: the items of the key are invalidated. -/
def insertBusy (conf : ZoneConf) (z : Zone) (obj : Object) (ret : DumpInfo) : Option Inserted :=
  (lookup conf.toConf z.log obj .invalidate).bind fun (log, inLog) =>
    (lookup conf.toConf z.flush obj .invalidate).map fun (flush, inFlush) =>
      let z' := (z.set z.logId log).set (!z.logId) flush
      let flushing := inFlush.bind flush.statusOf = some .flushing
      let item :=
        match inLog with
        | some ref => some (z.logId, ref)
        | none => if flushing then none else inFlush.map fun ref => (!z.logId, ref)
      { zone := z'
        rc := if flushing then .ioRetry else .writeMiss
        item := item
        dump :=
          if item.isSome then { ret with dumpFlags := { ret.dumpFlags with single := true } }
          else ret }

/-- A new dump group behind the last record. -/
def Buffer.newGroup (buf : Buffer) (id : Bool) : Buffer :=
  { buf with
    dumpInfo := ⟨id, buf.currPos, 0, dumpNotReady⟩
    mem := emptyDumpHdr buf.mem buf.currPos
    currPos := buf.currPos + dumpHdrSz }

/-- `WAL_MAX_DUMP_REQ`. -/
def walMaxDumpReq : ℕ := 350

/-- The label `zone_insert_done` with a log: the request joins the dump group of the log buffer.
`old` is the group of the buffer before a switch. Behind the last slot of `req_list` it is `none`. -/
def joinGroup (conf : ZoneConf) (z : Zone) (obj : Object) (forDel : Bool) (old : Option DumpInfo)
    (ret : DumpInfo) : Option (Zone × DumpInfo) :=
  let ret₁ :=
    match old with
    | some o => if o.dumpBlk ≠ 0 then o else ret
    | none => ret
  let p := z.log.dumpInfo
  match z.log.mem p.dumpAddr with
  | some (_, .dumpHdr reqs) =>
      let reqs' := reqs ++ [obj.req]
      let p' := { p with dumpBlk := p.dumpBlk + objectDumpBlk obj forDel }
      let log : Buffer :=
        { z.log with
          dumpInfo := p'
          mem := modify z.log.mem p.dumpAddr fun _ => .dumpHdr reqs' }
      if walMaxDumpReq ≤ reqs.length then none
      else if z.logBatchNrObj ≤ reqs'.length then
        let p'' := { p' with dumpFlags := { p'.dumpFlags with batch := true } }
        let log' : Buffer := { log with dumpInfo := p'' }
        let log'' := if old.isSome then log' else log'.newGroup z.logId
        some ({ z.set z.logId log'' with
          logBatchNrObj := min (z.logBatchNrObj + conf.batchNrObjAdjust) conf.batchNrObj }, p'')
      else some (z.set z.logId log, ret₁)
  | _ => none

/-- A deletion when there is room. -/
def insertDelete (conf : ZoneConf) (z : Zone) (obj : Object) (old : Option DumpInfo)
    (ret : DumpInfo) : Option Inserted :=
  if conf.logEnabled then
    (lookup conf.toConf z.log obj .delete).bind fun (log, cached) =>
      (lookup conf.toConf z.flush obj .invalidate).bind fun (flush, inFlush) =>
        let z' := (z.set z.logId log).set (!z.logId) flush
        let rc : Rc :=
          match inFlush with
          | some ref => if flush.statusOf ref ≠ some .invalid then .ioRetry else .deleteSuccess
          | none => .deleteSuccess
        match cached with
        | some ref =>
            (joinGroup conf z' obj true old ret).map fun (z'', dump) =>
              { zone := z'', rc := rc, item := some (z.logId, ref), dump := dump }
        | none =>
            match inFlush with
            | some ref =>
                some
                  { zone := z'
                    rc := rc
                    item := some (!z.logId, ref)
                    dump := { ret with dumpFlags := { ret.dumpFlags with single := true } } }
            | none => some { zone := z', rc := .deleteMiss, item := none, dump := ret }
  else none

/-- A store when there is room. -/
def insertStore (conf : ZoneConf) (z : Zone) (obj : Object) (old : Option DumpInfo)
    (ret : DumpInfo) : Option Inserted :=
  let ty : LookupType := if conf.logEnabled then .writeAppend else .writeInplace
  (lookup conf.toConf z.log obj ty).bind fun (log, cached) =>
    cached.bind fun ref =>
      let z' := z.set z.logId log
      if conf.logEnabled then
        (joinGroup conf z' obj false old ret).map fun (z'', dump) =>
          { zone := z'', rc := .success, item := some (z.logId, ref), dump := dump }
      else some { zone := z', rc := .success, item := some (z.logId, ref), dump := ret }

/-- The part of `wal_zone_insert_object` behind the test for room. -/
def insertReady (conf : ZoneConf) (z : Zone) (obj : Object) (forDel : Bool)
    (old : Option DumpInfo) (ret : DumpInfo) : Option Inserted :=
  if forDel then insertDelete conf z obj old ret else insertStore conf z obj old ret

/-- The dump group of the log buffer is marked for a dump. -/
def Zone.markBatch (z : Zone) : Zone :=
  let p := z.log.dumpInfo
  z.set z.logId
    { z.log with dumpInfo := { p with dumpFlags := { p.dumpFlags with batch := true } } }

/-- `zone->poll_flush_flag == WAL_POLL_FLUSH_DONE`. -/
def Zone.canSwitch (z : Zone) : Bool := z.flushDone && !z.flushDoing

/-- `wal_zone_insert_object` on a cache zone. -/
def insertObject (conf : ZoneConf) (z : Zone) (obj : Object) (forDel : Bool) (ret : DumpInfo) :
    Option Inserted :=
  if isFull conf z obj forDel then
    let z₁ := z.markBatch
    if z₁.canSwitch then
      let old := z₁.log.dumpInfo
      let ret₁ := if old.dumpBlk ≠ 0 then old else ret
      (startFlush conf z₁).bind fun z₂ => insertReady conf z₂ obj forDel (some old) ret₁
    else insertBusy conf z₁ obj ret
  else insertReady conf z obj forDel none ret

/-! ### The flusher -/

/-- The loop of the flusher over the items of a bucket from place `j` on: the zone, the number of
submitted I/Os, and whether the pass ends for want of a key buffer. -/
def flushItems (conf : ZoneConf) (keyBuff : ItemRef → Bool) (i : ℕ) :
    ℕ → ℕ → Zone → Option (Zone × ℤ × Bool)
  | 0, _, z => some (z, 0, false)
  | cnt + 1, j, z =>
      (z.flush.item? ⟨i, j⟩).bind fun it =>
        (flushEntry conf.toConf z.flush ⟨i, j⟩ it (keyBuff ⟨i, j⟩)).bind fun (buf, sub, stop) =>
          let z₁ := z.set (!z.logId) buf
          let z' := if sub then { z₁ with inFlight := z₁.inFlight ++ [(!z.logId, ⟨i, j⟩)] } else z₁
          if stop then some (z', 0, true)
          else
            (flushItems conf keyBuff i cnt (j + 1) z').map fun (z'', n, s) =>
              (z'', n + if sub then 1 else 0, s)

/-- The loop of the flusher over the buckets, after `n` submitted I/Os. -/
def flushBuckets (conf : ZoneConf) (keyBuff : ItemRef → Bool) :
    ℕ → Option ℕ → ℤ → Zone → Option Zone
  | _, none, _, z => some z
  | 0, some _, _, _ => none
  | fuel + 1, some i, n, z =>
      if z.flush.nrPendingIo < z.pollFlushMaxCnt then some z
      else
        (flushItems conf keyBuff i (z.flush.map.table i).totalNrEntries.toNat 0 z).bind
          fun (z₁, k, stop) =>
            let next := z₁.flush.map.queue.next i
            let z₂ :=
              z₁.set (!z.logId) { z₁.flush with map := { z₁.flush.map with flushHead := next } }
            if stop ∨ z.pollFlushMaxCnt ≤ n + k then some z₂
            else flushBuckets conf keyBuff fuel next (n + k) z₂

/-- `wal_cache_flush_spdk_proc`. -/
def flushProc (conf : ZoneConf) (keyBuff : ItemRef → Bool) (z : Zone) : Option Zone :=
  if z.flushDone then some z
  else
    flushBuckets conf keyBuff conf.fuel (z.flush.map.flushHead <|> z.flush.map.queue.first) 0 z

/-- `wal_flush_complete` for the I/O at a place of the list. -/
def flushComplete (z : Zone) (n : ℕ) : Option Zone :=
  match z.inFlight[n]? with
  | none => some z
  | some (id, ref) =>
      ((z.cache id).item? ref).bind fun it =>
        (completeEntry (z.cache id) ref it).map fun buf =>
          let z' := { z.set id buf with inFlight := z.inFlight.eraseIdx n }
          if buf.nrObjectsInserted = 0 then { z' with flushDoing := false, flushDone := true }
          else z'

/-! ### The poller -/

/-- What the clock and the pools answer to a poll: the flush period is over, the dump group is old,
the zone was idle, and there is a key buffer for an item. -/
structure PollAnswers where
  flushPeriod : Bool
  dumpTimeout : Bool
  idle : Bool
  keyBuff : ItemRef → Bool

/-- A copy of the dump group of the log buffer for a dump. -/
def Zone.groupDump (z : Zone) : DumpInfo :=
  { z.log.dumpInfo with dumpFlags := { z.log.dumpInfo.dumpFlags with batch := true } }

/-- `dfly_wal_generic_poll` on a zone, without the retries: the zone and the groups that are handed
to the log. -/
def pollZone (conf : ZoneConf) (ans : PollAnswers) (z : Zone) : Option (Zone × List DumpInfo) :=
  let period := conf.periodicFlush && z.canSwitch && ans.flushPeriod &&
    decide (z.log.nrObjectsInserted ≠ 0)
  if period then
    let dumps := if z.log.dumpInfo.dumpBlk ≠ 0 then [z.groupDump] else []
    let noGroup := z.log.dumpInfo.dumpBlk = 0
    (startFlush conf z).bind fun z₁ =>
      (flushProc conf ans.keyBuff z₁).map fun z₂ =>
        (if noGroup ∧ ans.idle then { z₂ with logBatchNrObj := conf.batchNrObj } else z₂, dumps)
  else
    (flushProc conf ans.keyBuff z).bind fun z₁ =>
      if z₁.log.dumpInfo.dumpBlk ≠ 0 ∧ ans.dumpTimeout then
        let log := z₁.log.newGroup z₁.logId
        if log.currPos < log.endAddr then
          let nr := z₁.logBatchNrObj - conf.batchNrObjAdjust
          some ({ z₁.set z₁.logId log with logBatchNrObj := if nr = 0 then 1 else nr },
            [z₁.groupDump])
        else none
      else if z₁.log.dumpInfo.dumpBlk = 0 ∧ ans.idle then
        some ({ z₁ with logBatchNrObj := conf.batchNrObj }, [])
      else some (z₁, [])

/-! ### The calls -/

/-- `wal_handle_delete_op` on the zone when there is no log. -/
def invalidateBoth (conf : ZoneConf) (z : Zone) (obj : Object) : Option (Zone × Rc) :=
  (lookup conf.toConf z.log obj .invalidate).bind fun (log, _) =>
    (lookup conf.toConf z.flush obj .invalidate).map fun (flush, inFlush) =>
      let z' := (z.set z.logId log).set (!z.logId) flush
      match inFlush with
      | some ref =>
          (z', if flush.statusOf ref ≠ some .invalid then .ioRetry else .deleteSuccess)
      | none => (z', .deleteSuccess)

/-- The lookups of `wal_handle_retrieve_op`: the buffer and the item that was found. -/
def retrieve (conf : ZoneConf) (z : Zone) (obj : Object) : Option (Zone × Option (Bool × ItemRef)) :=
  (lookup conf.toConf z.log obj .read).bind fun (log, inLog) =>
    let z₁ := z.set z.logId log
    match inLog with
    | some ref => some (z₁, some (z.logId, ref))
    | none =>
        (lookup conf.toConf z₁.flush obj .read).map fun (flush, inFlush) =>
          (z₁.set (!z.logId) flush, inFlush.map fun ref => (!z.logId, ref))

/-- The calls on a zone. -/
inductive ZoneEvent
  | insert (obj : Object) (forDel : Bool) (ret : DumpInfo)
  | invalidate (obj : Object)
  | retrieve (obj : Object)
  | poll (ans : PollAnswers)
  | complete (n : ℕ)

/-- One call. A deletion goes through the dump groups only with a log. -/
def zoneStep (conf : ZoneConf) (z : Zone) : ZoneEvent → Option Zone
  | .insert obj forDel ret => (insertObject conf z obj forDel ret).map Inserted.zone
  | .invalidate obj => (invalidateBoth conf z obj).map Prod.fst
  | .retrieve obj => (Wal.retrieve conf z obj).map Prod.fst
  | .poll ans => (pollZone conf ans z).map Prod.fst
  | .complete n => flushComplete z n

/-! ### The start -/

/-- `wal_buffer_create` for the cache. -/
def bufferCreate (conf : Conf) (id : Bool) (startAddr endAddr : ℕ) : Buffer :=
  let buf : Buffer :=
    { startAddr := startAddr
      endAddr := endAddr
      currPos := alignUp (startAddr + bufferHdrSz)
      dumpInfo := ⟨id, 0, 0, dumpNotReady⟩
      map := mapCreate
      mem := fun _ => none
      nrObjectsInserted := 0
      nrPendingIo := 0 }
  buf.rewind conf id

/-- A zone of `wal_cache_dev_init`, which sets `poll_flush_max_cnt` to 32. -/
def zoneCreate (conf : ZoneConf) (logStart logEnd flushStart flushEnd : ℕ) : Zone where
  cache := fun id =>
    if id then bufferCreate conf.toConf true flushStart flushEnd
    else bufferCreate conf.toConf false logStart logEnd
  logId := false
  flushDone := true
  flushDoing := false
  pollFlushMaxCnt := 32
  logBatchNrObj := conf.batchNrObj
  inFlight := []

end DssSdk.Wal
