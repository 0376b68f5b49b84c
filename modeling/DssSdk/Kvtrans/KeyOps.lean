import DssSdk.Kvtrans.Handlers

/-!
# The request state machines

`_kvtrans_key_ops` for STORE and DELETE, `_kvtrans_val_ops` for RETRIEVE and EXIST, and
`kvtrans_handle_kreq_state`, which takes a request over the completion of its I/O.

One iteration of the loop `do … while (kreq->state != prev_state)` is `keyOpsIter` (`valOpsIter`):
it returns a status when the function returns from inside the loop.
-/

namespace DssSdk.Kvtrans

variable (P : Params)

/-- `_alloc_entry_block`. -/
def allocEntryBlock (p : ℕ) : M Status := do
  let s ← get
  let req := s.req.req
  dssAssert (iskeynull req.key = false)
  let index := P.hash (bytes req.key req.length)
  modifyBlk p fun b => { b with index := index }
  dssAssert (P.blkOffset ≤ index ∧ index < P.blkOffset + P.blkNum)
  let rc ← getBlkState p
  let b ← blkAt p
  match b.state with
  | .empty => do
      modifyBlk p fun b => { b with dcIndex := 0, pindex := 0, nothash := false }
      modifyReq fun r => { r with state := .entryLoadingDone }
      return rc
  | .collisionExtension | .data => do
      modifyBlk p fun b => { b with dcIndex := b.index }
      modifyReq fun r => { r with state := .entryLoadingDone }
      return rc
  | .dataCollisionCe | .dataCollisionEmpty | .dataCollision => do
      -- the chain of the data collision starts at another block
      let mdcIndex ← dcTableLookup b.index
      modifyBlk p fun b => { b with
        dcIndex := b.index, index := mdcIndex, state := .metaDataCollisionEntry }
      dssAssert (P.blkOffset ≤ mdcIndex ∧ mdcIndex < P.blkOffset + P.blkNum)
      let rc ← loadOndiskBlk P p
      updateKreqStatAfterIo rc .entryLoadingDone .queueToLoadEntry
  | .metaBlk | .collision | .metaDataCollision | .metaDataCollisionEntry => do
      let rc ← loadOndiskBlk P p
      updateKreqStatAfterIo rc .entryLoadingDone .queueToLoadEntry

/-- The label `req_terminate`: in the disk build the status of the last
`_pop_meta_blk_from_queue` replaces the error. -/
def reqTerminate (rc : Status) : M Status := do
  modifyReq fun r => { r with state := .reqCmpl }
  match P.build with
  | .memory => return rc
  | .disk => do
      popChain (← get).req.chain
      return .success

/-- The assignments to the last block context when its block was loaded. -/
def setupCol (col : ℕ) (parent : BlkCtx) : M Unit :=
  modifyBlk col fun c => { c with
    pindex := parent.index
    flag := parent.flag
    iscontig := false
    valueBlocks := 0
    remoteValBlocks := 0 }

/-- The checks of `COL_LOADING_DONE` on the state of the collision block. One of them is an
assignment inside an assertion. -/
def setupColState (col : ℕ) : M Unit := do
  let c ← blkAt col
  match c.state with
  | .metaDataCollisionEntry => throw .assertFailed
  | .metaDataCollision => do
      modifyBlk col fun c => { c with dcIndex := c.blk.dataCollisionIndex }
      dssAssert (c.blk.dataCollisionIndex ≠ 0)
  | .metaBlk => dssAssert (c.blk.numValidColEntry = 0)
  | .collision => dssAssert (0 < c.blk.numValidColEntry)
  | .collisionExtension | .dataCollisionCe =>
      modifyBlk col fun c => { c with state := .collisionExtension }
  | .empty | .data | .dataCollision | .dataCollisionEmpty => pure ()

/-- `goto req_terminate` for an error, else the rest. -/
def orTerminate (rc : Status) (rest : M (Option Status)) : M (Option Status) :=
  if rc ≠ .success then some <$> reqTerminate P rc else rest

/-- `kreq->state = QUEUE_TO_START_IO`, when no load was issued. -/
def startIoFrom (st : ReqState) : M (Option Status) := do
  modifyReq fun r => if r.state = st then { r with state := .queueToStartIo } else r
  return none

/-- The end of `COL_LOADING_DONE`: the block before the collision block is written if it is still
in use. -/
def writeParent (p : ℕ) : M Unit := do
  let b ← blkAt p
  if b.state ≠ .empty then writeOndiskBlk P p else pure ()

/-- The state `COL_LOADING_DONE`: the collision block at the end of the chain is processed, then
the block before it. -/
def colLoadingDone : M (Option Status) := do
  let s ← get
  let col := s.req.chain.length - 1
  dssAssert (col ≠ 0)
  let b ← blkAt (col - 1)
  setupCol col b
  setupColState col
  assignOps col
  let c ← blkAt col
  let rc ← registerUpdateBlk P c.ops col
  orTerminate P rc do
    let rc ← (if b.flag = .toDelete then deleteCollisionEntry P (col - 1) col else pure .success)
    if rc ≠ .success then return some rc
    else
      writeParent P (col - 1)
      startIoFrom .colLoadingDone

/-- The insertion after the search of the extensions, in `COL_EXT_LOADING_DONE`. -/
def insertFirst (col : ℕ) (flag : OpsFlag) (rc : Status) : M Status := do
  let c ← blkAt col
  match c.firstInsertBlkCtx with
  | some ins => if rc = .notFound ∧ flag ≠ .toDelete then newWriteOps P ins else return rc
  | none => return rc

/-- The end of `COL_EXT_LOADING_DONE`: a block context after the extension is processed next. -/
def nextExtension (col : ℕ) : M (Option Status) := do
  let s ← get
  let c ← blkAt col
  if s.req.state = .colExtLoadingDone then
    if col + 1 < s.req.chain.length ∧ c.blk.collisionExtensionIndex ≠ 0 then
      modifyReq fun r => { r with state := .colExtLoadingContig }
      return none
    else
      modifyReq fun r => { r with state := .queueToStartIo }
      return none
  else return none

/-- The state `COL_EXT_LOADING_DONE`: the extension at the end of the chain is processed. -/
def colExtLoadingDone : M (Option Status) := do
  let s ← get
  let col := s.req.chain.length - 1
  dssAssert (col ≠ 0)
  let b ← blkAt 0
  setupCol col b
  modifyBlk col fun c => { c with state := .collisionExtension }
  assignOps col
  let c ← blkAt col
  let rc ← registerUpdateBlk P c.ops col
  let rc ← insertFirst P col b.flag rc
  orTerminate P rc (nextExtension col)

/-- The state `ENTRY_LOADING_DONE`. -/
def entryLoadingDone : M (Option Status) := do
  assignOps 0
  let b ← blkAt 0
  if b.state = .empty ∨ b.state = .data ∨ b.state = .collisionExtension then
    if b.flag = .toDelete then some <$> reqTerminate P .notFound
    else
      let rc ← registerInitBlk P b.ops 0
      orTerminate P rc (startIoFrom .entryLoadingDone)
  else
    let rc ← registerUpdateBlk P b.ops 0
    orTerminate P rc (startIoFrom .entryLoadingDone)

/-- One iteration of the loop of `_kvtrans_key_ops`. -/
def keyOpsIter : M (Option Status) := do
  let s ← get
  match s.req.state with
  | .reqInitialized => do
      modifyBlk 0 fun b => { b with
        iscontig := false
        flag := if s.req.req.opc = .store then .newWrite
          else if s.req.req.opc = .delete then .toDelete else b.flag }
      let rc ← allocEntryBlock P 0
      return if rc ≠ .success then some rc else none
  | .queueToLoadEntry | .queueToLoadCol | .queueToLoadColExt | .queuedForDataIo => return none
  | .entryLoadingDone => entryLoadingDone P
  | .colLoadingDone => colLoadingDone P
  | .colExtLoadingContig => do
      modifyReq fun r => { r with state := .colExtLoadingDone }
      return none
  | .colExtLoadingDone => colExtLoadingDone P
  | .queueToStartIo => do
      if P.build = .disk ∧
          (P.isBaMetaSyncEnabled = true ∧ s.req.baMetaUpdated = true ∨ s.req.ioToQueue = true) then
        -- handed to the block allocator or to the I/O module
        return none
      else
        modifyReq fun r => { r with state := .ioCmpl }
        return none
  | .ioCmpl => do
      modifyReq fun r => { r with state := .reqCmpl }
      return none
  | .reqCmpl => do
      (if P.build = .disk then popChain s.req.chain else pure ())
      return some .success

/-- `_kvtrans_key_ops`: the status, and whether the function returned from inside the loop. -/
def keyOps : ℕ → M (Status × Bool)
  | 0 => throw .outOfFuel
  | fuel + 1 => do
      let prev := (← get).req.state
      match ← keyOpsIter P with
      | some rc => return (rc, true)
      | none =>
          if (← get).req.state ≠ prev then keyOps fuel else return (.success, false)

/-- `_blk_load_value`. -/
def blkLoadValue (p : ℕ) : M Status := do
  let b ← blkAt p
  let s ← get
  if b.blk.valueLocation = .inline then
    modifyReq fun r => { r with
      value := b.blk.valueBuffer.take b.blk.valueSize, state := .reqCmpl }
    return .success
  else
    match P.build with
    | .memory =>
        let bytes := b.blk.placeValue.flatMap fun loc => retrieveData s.ctx.datas loc
        modifyReq fun r => { r with value := bytes.take b.blk.valueSize, state := .reqCmpl }
        return .success
    | .disk =>
        modifyReq fun r => { r with
          io := r.io ++ b.blk.placeValue.map .readData
          ioToQueue := false
          state := .queuedForDataIo }
        return .success

/-- The block of a matching key in `_kvtrans_val_ops`: `cb` says that the value is wanted. -/
def valFound (cb : Bool) (p : ℕ) : M (Option Status × Status) := do
  if cb then
    let rc ← blkLoadValue P p
    return (none, rc)
  else
    modifyReq fun r => { r with state := .reqCmpl }
    return (none, .success)

/-- One iteration of the loop of `_kvtrans_val_ops`: the status it returns from inside the loop, if
it does, and `rc`. -/
def valOpsIter (cb : Bool) (rc : Status) : M (Option Status × Status) := do
  let s ← get
  let req := s.req.req
  match s.req.state with
  | .reqInitialized => do
      let rc ← allocEntryBlock P 0
      return (none, rc)
  | .queueToLoadEntry | .queuedForDataIo => return (none, rc)
  | .entryLoadingDone => do
      let b ← blkAt 0
      match b.state with
      | .empty | .data => do
          modifyReq fun r => { r with state := .reqCmpl }
          return (none, .notFound)
      | .metaBlk => do
          if b.blk.isvalid ∧ iskeysame b.blk.key b.blk.keyLen req.key req.length then
            valFound P cb 0
          else
            modifyReq fun r => { r with state := .reqCmpl }
            return (none, .notFound)
      | .dataCollisionEmpty | .dataCollisionCe | .dataCollision => throw .assertFailed
      | .collision | .metaDataCollision | .metaDataCollisionEntry => do
          if b.blk.isvalid ∧ iskeysame b.blk.key b.blk.keyLen req.key req.length then
            valFound P cb 0
          else
            match (List.finRange maxColTblSize).find? fun i =>
              isEntryMatch (b.blk.collisionTbl i) req.key ∧
                colTblEntryIsvalid (b.blk.collisionTbl i) with
            | some i => do
                if cb then
                  modifyBlk 0 fun b => { b with
                    index := (b.blk.collisionTbl i).metaCollisionIndex }
                  let rc ← loadOndiskBlk P 0
                  let rc ← updateKreqStatAfterIo rc .entryLoadingDone .queueToLoadEntry
                  return (if rc = .success then none else some rc, rc)
                else
                  modifyReq fun r => { r with state := .reqCmpl }
                  return (none, .success)
            | none => do
                if 0 < b.blk.collisionExtensionIndex then
                  modifyBlk 0 fun b => { b with index := b.blk.collisionExtensionIndex }
                  let rc ← loadOndiskBlk P 0
                  let rc ← updateKreqStatAfterIo rc .entryLoadingDone .queueToLoadEntry
                  return (none, rc)
                else
                  modifyReq fun r => { r with state := .reqCmpl }
                  return (none, .notFound)
      | .collisionExtension => throw .releaseAssert
  | .queueToStartIo => do
      if P.build = .disk then return (none, rc)
      else
        modifyReq fun r => { r with state := .ioCmpl }
        return (none, rc)
  | .ioCmpl => do
      modifyReq fun r => { r with state := .reqCmpl }
      return (none, rc)
  | .reqCmpl => return (some rc, rc)
  | .queueToLoadCol | .colLoadingDone | .queueToLoadColExt | .colExtLoadingDone
  | .colExtLoadingContig => throw .assertFailed

/-- `_kvtrans_val_ops`, likewise. -/
def valOps (cb : Bool) : ℕ → Status → M (Status × Bool)
  | 0, _ => throw .outOfFuel
  | fuel + 1, rc => do
      let prev := (← get).req.state
      match ← valOpsIter P cb rc with
      | (some rc, _) => return (rc, true)
      | (none, rc) =>
          if (← get).req.state ≠ prev then valOps cb fuel rc else return (rc, false)

/-- `kvtrans_handle_kreq_state`: what the completion of the I/O of a request leads to. -/
def handleKreqState : M Unit :=
  modifyReq fun r =>
    match r.state with
    | .queueToLoadEntry => { r with state := .entryLoadingDone, io := [] }
    | .queueToLoadCol => { r with state := .colLoadingDone, io := [] }
    | .queueToLoadColExt => { r with state := .colExtLoadingDone, io := [] }
    | .queuedForDataIo | .queueToStartIo => { r with state := .ioCmpl }
    | _ => r

/-- A bound on the iterations of one call: no chain is longer than the device. -/
def fuel : ℕ := 4 * P.blkNum + 16

/-- `kvtrans_store`, `kvtrans_delete`, `kvtrans_retrieve` and `kvtrans_exist`. -/
def kvtransCall : M (Status × Bool) := do
  let s ← get
  match s.req.req.opc with
  | .store => do
      handleKreqState
      keyOps P (fuel P)
  | .delete => do
      if s.req.state = .queuedForDataIo then throw .releaseAssert
      handleKreqState
      keyOps P (fuel P)
  | .retrieve => do
      handleKreqState
      valOps P true (fuel P) .success
  | .exist => do
      if s.req.state = .queuedForDataIo then throw .releaseAssert
      handleKreqState
      valOps P false (fuel P) .success

/-- `init_kvtrans_ctx`: an empty device. -/
def initKvtransCtx (alloc : BlockAllocator.Context) : Ctx where
  alloc := alloc
  dcTbl := fun _ => none
  metas := fun _ => none
  datas := fun _ => []
  dirtyMetaLba := fun _ => false
  kvReqQueue := []
  kreqs := fun _ => none
  loadedEmpty := false
  stat := Dstat.zero

/-- `kv_process`, called until the request is done: a call that falls out of its loop puts the
request back into the queue. -/
def kvProcess : ℕ → M Status
  | 0 => throw .outOfFuel
  | calls + 1 => do
      let (rc, returned) ← kvtransCall P
      if returned then return rc else kvProcess calls

/-- What a completed request leaves: its status, the value of a retrieve, whether an allocation
failed, and the translator. -/
structure Reply where
  status : Status
  value : List UInt8
  allocFailed : Bool
  ctx : Ctx

/-- A request that runs to completion before the next one starts, in the memory build. -/
def execute (c : Ctx) (req : Req) : Except Fault Reply :=
  match kvProcess P (fuel P) ⟨c, initKvtransReq 0 req⟩ with
  | .error f => .error f
  | .ok (rc, s) => .ok ⟨rc, s.req.value, s.req.allocFailed, s.ctx⟩

end DssSdk.Kvtrans
