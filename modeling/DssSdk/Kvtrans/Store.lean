import DssSdk.Kvtrans.Types

/-!
# Blocks, data collisions and stored blocks

The functions under the handlers of `kvtrans.c`: the block states, the data-collision table, the
load and the write of meta blocks and values, and the queue of requests that wait for a meta block.

A handler works on the translator context and on its own request (`Sys`). It stops with a `Fault`
when an assertion fails, when it calls through an empty entry of `g_blk_register` or reads that
table behind its end, when it reads a status that was never set, and when the block allocator stops.
-/

namespace DssSdk.Kvtrans

open BlockAllocator (Context)

/-- Why a handler stops. -/
inductive Fault
  | assertFailed
  | releaseAssert
  | nullHandler
  | registerIndex
  | unsetStatus
  | allocatorAbort
  | outOfFuel
  deriving DecidableEq, Repr

/-- What a handler works on: the translator and its own request. -/
structure Sys where
  ctx : Ctx
  req : Kreq

/-- The handlers of a request. -/
abbrev M (α : Type) := StateT Sys (Except Fault) α

/-- `DSS_ASSERT`. -/
def dssAssert (c : Prop) [Decidable c] : M Unit := if c then pure () else throw .assertFailed

/-- `rc = m; if (rc) return rc;` and then the rest. -/
def checked (m rest : M Status) : M Status := do
  let rc ← m
  if rc ≠ .success then return rc else rest

/-- The block context at a position of the chain. -/
def blkAt (p : ℕ) : M BlkCtx := do return (← get).req.chain.getD p BlkCtx.zero

/-- Change the block context at a position of the chain. -/
def modifyBlk (p : ℕ) (f : BlkCtx → BlkCtx) : M Unit :=
  modify fun s => { s with req := { s.req with chain := s.req.chain.modify p f } }

/-- Change the translator. -/
def modifyCtx (f : Ctx → Ctx) : M Unit := modify fun s => { s with ctx := f s.ctx }

/-- Change the counters. -/
def modifyStat (f : Dstat → Dstat) : M Unit := modifyCtx fun c => { c with stat := f c.stat }

/-- Change the request. -/
def modifyReq (f : Kreq → Kreq) : M Unit := modify fun s => { s with req := f s.req }

/-- `kreq->ba_meta_updated = true`. -/
def setBaMetaUpdated : M Unit := modifyReq fun r => { r with baMetaUpdated := true }

/-- The record of an allocation that failed. -/
def recordAllocFailed : M Unit := modifyReq fun r => { r with allocFailed := true }

/-! ### Block states -/

/-- `dss_kvtrans_alloc_contig`: the first block, or `KVTRANS_STATUS_ALLOC_CONTIG_ERROR`. -/
def allocContig (state : BlkState) (hintBlockIndex numBlocks : ℕ) : M (Option ℕ) := do
  let s ← get
  match s.ctx.alloc.allocBlocksContig state.toCell hintBlockIndex numBlocks true with
  | none => throw .allocatorAbort
  | some r =>
      modifyCtx fun c => { c with alloc := r.ctx }
      if r.status = .success then
        setBaMetaUpdated
        return r.allocatedStartBlock
      else
        if numBlocks = 1 then recordAllocFailed
        return none

/-- `dss_kvtrans_set_blk_state`; `hasCtx` says that a block context was passed. -/
def setBlkState (hasCtx : Bool) (index blkNum : ℕ) (state : BlkState) : M Status := do
  let s ← get
  match s.ctx.alloc.getBlockState index with
  | none => throw .allocatorAbort
  | some (rc, _) =>
      if rc ≠ .success then return .error
      else
        if state ≠ .empty then dssAssert (blkNum = 1)
        match (if state = .empty then s.ctx.alloc.clearBlocks index blkNum
          else s.ctx.alloc.setBlocksState index blkNum state.toCell) with
        | none => throw .allocatorAbort
        | some r =>
            modifyCtx fun c => { c with alloc := r.ctx }
            if r.status ≠ .success then return .setBlkStateError
            else
              if hasCtx then setBaMetaUpdated
              return .success

/-- The state of a block in the allocator: `none` when the call fails. -/
def readBlkState (index : ℕ) : M (Option BlkState) := do
  let s ← get
  match s.ctx.alloc.getBlockState index with
  | none => throw .allocatorAbort
  | some (rc, v) =>
      if rc ≠ .success then return none
      else
        match BlkState.ofCell v with
        | none => throw .assertFailed
        | some st => return some st

/-- `dss_kvtrans_get_blk_state`. -/
def getBlkState (p : ℕ) : M Status := do
  let b ← blkAt p
  match ← readBlkState b.index with
  | none => return .error
  | some st =>
      modifyBlk p fun b => { b with state := st }
      return .success

/-! ### The data-collision table -/

/-- `dss_kvtrans_dc_table_exist`. -/
def dcTableExist (index : ℕ) : M Bool := do return ((← get).ctx.dcTbl index).isSome

/-- `get_elm` on the data-collision table: it asserts that the index is there. -/
def getDc (dcIndex : ℕ) : M DcItem := do
  match (← get).ctx.dcTbl dcIndex with
  | none => throw .assertFailed
  | some it => return it

/-- `dss_kvtrans_dc_table_lookup`. -/
def dcTableLookup (dcIndex : ℕ) : M ℕ := do return (← getDc dcIndex).mdcIndex

/-- `store_elm` on the data-collision table. -/
def storeDc (dcIndex : ℕ) (it : Option DcItem) : M Unit :=
  modifyCtx fun c => { c with dcTbl := Function.update c.dcTbl dcIndex it }

/-- `dss_kvtrans_dc_table_update`. -/
def dcTableUpdate (dcIndex : ℕ) (oriState : BlkState) : M Status := do
  dssAssert (oriState = .data ∨ oriState = .collisionExtension ∨ oriState = .empty)
  let state : BlkState :=
    if oriState = .data then .dataCollision
    else if oriState = .collisionExtension then .dataCollisionCe
    else .dataCollisionEmpty
  checked (setBlkState true dcIndex 1 state) do
    let it ← getDc dcIndex
    storeDc dcIndex (some { it with oriState := oriState })
    return .success

/-- `dss_kvtrans_dc_table_insert`. When the state of the data block cannot be set the item is
stored all the same. -/
def dcTableInsert (dcIndex mdcIndex : ℕ) (oriState : BlkState) : M Status := do
  if ← dcTableExist dcIndex then return .error
  else
    dssAssert (oriState = .data ∨ oriState = .collisionExtension)
    let state : BlkState := if oriState = .data then .dataCollision else .dataCollisionCe
    let rc ← setBlkState true dcIndex 1 state
    if rc ≠ .success then
      storeDc dcIndex (some ⟨mdcIndex, oriState⟩)
      return rc
    else
      -- the first block of the chain is marked, for the reconstruction of the table
      let rc ← setBlkState true mdcIndex 1 .metaDataCollisionEntry
      if rc = .success then
        storeDc dcIndex (some ⟨mdcIndex, oriState⟩)
        return .success
      else
        let rc ← setBlkState true dcIndex 1 .data
        if rc = .success then return .setDcStateError
        else
          storeDc dcIndex (some ⟨mdcIndex, oriState⟩)
          return rc

/-- `dss_kvtrans_dc_table_delete`. -/
def dcTableDelete (dcIndex mdcIndex : ℕ) : M Status := do
  let it ← getDc dcIndex
  if it.mdcIndex ≠ mdcIndex then return .notFound
  else
    let rc ← setBlkState true dcIndex 1 it.oriState
    storeDc dcIndex none
    modifyStat fun st => { st with dc := st.dc - 1 }
    return rc

/-! ### Meta synchronisation -/

/-- `_modify_meta`. -/
def modifyMeta (opc : Opc) : Bool := opc = .store ∨ opc = .delete

/-- `_set_lba_dirty` and `_set_lba_free`. -/
def setLbaDirty (blkIdx : ℕ) (dirty : Bool) : M Unit :=
  modifyCtx fun c => { c with dirtyMetaLba := Function.update c.dirtyMetaLba blkIdx dirty }

/-- `_sync_meta_blk_to_queue`: the request waits if the block is dirty; otherwise a request that
modifies meta blocks marks it. -/
def syncMetaBlkToQueue (p : ℕ) : M Unit := do
  let s ← get
  let b ← blkAt p
  if s.ctx.dirtyMetaLba b.index then
    modifyCtx fun c => { c with kvReqQueue := c.kvReqQueue ++ [s.req.id] }
  else if modifyMeta s.req.req.opc then setLbaDirty b.index true
  else pure ()

/-- The first request of the queue with the block in its chain. -/
def findWaiter (c : Ctx) (blkIdx : ℕ) : Option (ℕ × Kreq) :=
  c.kvReqQueue.findSome? fun id =>
    (c.kreqs id).bind fun kreq =>
      if kreq.chain.any (fun b => b.index = blkIdx) then some (id, kreq) else none

/-- `_pop_meta_blk_from_queue`: the block is free again, and the first request that waits for it
is woken. -/
def popMetaBlkFromQueue (blkIdx : ℕ) : M Unit := do
  let s ← get
  if s.ctx.dirtyMetaLba blkIdx = false then pure ()
  else
    setLbaDirty blkIdx false
    match findWaiter s.ctx blkIdx with
    | none => pure ()
    | some (id, kreq) =>
        dssAssert (kreq.chain.findIdx (fun b => b.index = blkIdx) + 1 = kreq.chain.length)
        modifyCtx fun c => { c with kvReqQueue := c.kvReqQueue.erase id }
        if modifyMeta kreq.req.opc then setLbaDirty blkIdx true
        -- the state may have changed while the request was waiting
        match ← readBlkState blkIdx with
        | none => throw .assertFailed
        | some st =>
            let last := kreq.chain.length - 1
            let kreq := { kreq with chain := kreq.chain.modify last fun b => { b with state := st } }
            modifyCtx fun c => { c with kreqs := Function.update c.kreqs id (some kreq) }

/-- The loop over the chain that ends a request. -/
def popChain : List BlkCtx → M Unit
  | [] => pure ()
  | b :: chain => do
      popMetaBlkFromQueue b.index
      popChain chain

/-! ### Stored meta blocks and values -/

section

variable (P : Params)

/-- The record of a load from an `EMPTY` block. -/
def recordLoad (index : ℕ) : M Unit := do
  match (← get).ctx.alloc.getBlockState index with
  | some (.success, v) => if v = 0 then modifyCtx fun c => { c with loadedEmpty := true } else pure ()
  | _ => pure ()

/-- `dss_kvtrans_load_ondisk_blk`, always called to submit. In memory `load_meta` asserts that the meta
block is there. -/
def loadOndiskBlk (p : ℕ) : M Status := do
  let b ← blkAt p
  dssAssert (b.index ≠ 0)
  recordLoad b.index
  match P.build with
  | .memory =>
      match (← get).ctx.metas b.index with
      | some blk =>
          modifyBlk p fun b => { b with blk := blk }
          return .success
      | none => throw .assertFailed
  | .disk =>
      modifyReq fun r => { r with io := r.io ++ [.readMeta p], ioToQueue := false }
      syncMetaBlkToQueue p
      return .ioSubmitted

/-- `dss_kvtrans_write_ondisk_blk`, always called to queue. In the disk build the block becomes
dirty. -/
def writeOndiskBlk (p : ℕ) : M Unit := do
  let b ← blkAt p
  match P.build with
  | .memory =>
      modifyCtx fun c => { c with metas := Function.update c.metas b.index (some b.blk) }
  | .disk =>
      modifyReq fun r => { r with io := r.io ++ [.writeMeta p], ioToQueue := true }
      setLbaDirty b.index true

/-- `dss_kvtrans_delete_ondisk_blk`: on the disk the block stays. -/
def deleteOndiskBlk (p : ℕ) : M Unit := do
  let b ← blkAt p
  modifyBlk p fun b => { b with state := .empty }
  match P.build with
  | .memory => modifyCtx fun c => { c with metas := Function.update c.metas b.index none }
  | .disk => pure ()

/-- `insert_data`: the blocks of an extent get the bytes of the value from an offset on. -/
def insertData (datas : ℕ → List UInt8) (loc : ValueLoc) (value : List UInt8) (offset : ℕ) :
    ℕ → List UInt8 := fun x =>
  if loc.valueIndex ≤ x ∧ x < loc.valueIndex + loc.numChunks then
    (value.drop (offset + (x - loc.valueIndex) * P.blkSize)).take P.blkSize
  else datas x

/-- `retrieve_data`: the bytes of an extent. -/
def retrieveData (datas : ℕ → List UInt8) (loc : ValueLoc) : List UInt8 :=
  (List.range loc.numChunks).flatMap fun j => datas (loc.valueIndex + j)

/-- The extents of a value with their offsets. -/
def extentOffsets (offset : ℕ) : List ValueLoc → List (ValueLoc × ℕ)
  | [] => []
  | loc :: locs => (loc, offset) :: extentOffsets (offset + loc.numChunks * P.blkSize) locs

/-- `dss_kvtrans_write_ondisk_data`, always called to queue. In memory nothing sets the status for a
value in the meta block, and the callers read it. -/
def writeOndiskData (p : ℕ) : M Unit := do
  let b ← blkAt p
  let s ← get
  if b.blk.valueLocation = .inline then
    match P.build with
    | .memory => throw .unsetStatus
    | .disk => pure ()
  else
    let extents := extentOffsets P 0 b.blk.placeValue
    match P.build with
    | .memory =>
        modifyCtx fun c => { c with
          datas := extents.foldl (fun d e => insertData P d e.1 s.req.req.value e.2) c.datas }
    | .disk =>
        modifyReq fun r => { r with
          io := r.io ++ extents.map fun e => .writeData e.1 e.2
          ioToQueue := r.ioToQueue || ¬ b.blk.placeValue.isEmpty }

end

end DssSdk.Kvtrans
