import DssSdk.Kvtrans.Store

/-!
# The block handlers

The values of a meta block, and the handlers that `g_blk_register` lists for each block state:
`init_blk`, `update_blk` and `clean_blk`.
-/

namespace DssSdk.Kvtrans

variable (P : Params)

/-! ### Values -/

/-- `find_data_blocks`: one run of blocks, else two halves. `fuel` bounds the depth; a half is
smaller than the whole. -/
def findDataBlocks (p : ℕ) : ℕ → ℕ → M Status
  | 0, _ => throw .outOfFuel
  | fuel + 1, numBlocks => do
      if numBlocks = 0 then return .success
      else
        let b ← blkAt p
        if b.blk.placeValue.length = maxValueScatter then
          recordAllocFailed
          return .error
        else
          match ← allocContig .data (b.index + 1) numBlocks with
          | some start =>
              dssAssert (P.blkOffset ≤ start ∧ start < P.blkOffset + P.blkNum)
              modifyBlk p fun b => { b with
                blk := { b.blk with
                  placeValue := b.blk.placeValue ++ [⟨start, numBlocks % 2 ^ 16⟩] }
                remoteValBlocks :=
                  if start ≠ b.index + 1 then b.remoteValBlocks + 1 else b.remoteValBlocks }
              return .success
          | none =>
              let lb := numBlocks / 2
              let rb := numBlocks - lb
              if numBlocks = 1 then return .error
              else
                let rc ← findDataBlocks p fuel lb
                if rc ≠ .success then return .error
                else
                  let rc ← findDataBlocks p fuel rb
                  if rc ≠ .success then return .error
                  else return .success

/-- The kind of place of a value, after `find_data_blocks`. -/
def valueLocationOf (b : BlkCtx) : ValueLocation :=
  if b.remoteValBlocks = 0 then .contig
  else if b.remoteValBlocks = b.blk.placeValue.length then .remote
  else .hybird

/-- `_blk_init_value`. -/
def blkInitValue (p : ℕ) : M Status := do
  let s ← get
  let value := s.req.req.value
  let b ← blkAt p
  if value.length < maxInlineValue then
    modifyBlk p fun b => { b with
      blk := { b.blk with
        valueSize := value.length, valueLocation := .inline, valueBuffer := value } }
    return .success
  else if b.iscontig then
    -- the data blocks were allocated with the meta block
    modifyBlk p fun b => { b with
      remoteValBlocks := 0
      blk := { b.blk with
        valueSize := value.length, valueLocation := .contig
        placeValue := [⟨b.index + 1, b.valueBlocks % 2 ^ 16⟩] } }
    return .success
  else
    modifyBlk p fun b => { b with
      remoteValBlocks := 0, blk := { b.blk with valueSize := value.length, placeValue := [] } }
    checked (findDataBlocks P p (b.valueBlocks + 1) b.valueBlocks) do
      let b ← blkAt p
      dssAssert (0 < b.blk.placeValue.length)
      modifyBlk p fun b => { b with blk := { b.blk with valueLocation := valueLocationOf b } }
      return .success

/-- The loop of `_blk_del_value` over the blocks of an extent: `eIdx` runs to `last`, the blocks
from `sIdx` on are freed together, up to the next data collision. The result is the last status,
and whether the function returned from inside the loop. -/
def delExtent (last : ℕ) : ℕ → ℕ → ℕ → Status → M (Status × Bool)
  | 0, sIdx, eIdx, rc => do
      if sIdx ≠ eIdx then
        let rc ← setBlkState true sIdx (eIdx - sIdx) .empty
        return (rc, rc ≠ .success)
      else return (rc, false)
  | fuel + 1, sIdx, eIdx, rc => do
      if ← dcTableExist eIdx then
        let rc ←
          if sIdx ≠ eIdx then setBlkState true sIdx (eIdx - sIdx) .empty else pure .success
        if rc ≠ .success then return (rc, true)
        else
          let rc ← dcTableUpdate eIdx .empty
          delExtent last fuel (eIdx + 1) (eIdx + 1) rc
      else if eIdx = sIdx ∧ eIdx = last then
        let rc ← setBlkState true eIdx 1 .empty
        return (rc, rc ≠ .success)
      else delExtent last fuel sIdx (eIdx + 1) rc

/-- The loop of `_blk_del_value` over the extents. -/
def delExtents : List ValueLoc → Status → M (Status × Bool)
  | [], rc => return (rc, false)
  | loc :: locs, rc => do
      let (rc, returned) ← delExtent (loc.valueIndex + loc.numChunks - 1) loc.numChunks
        loc.valueIndex loc.valueIndex rc
      if returned then return (rc, true) else delExtents locs rc

/-- `_blk_del_value`. -/
def blkDelValue (p : ℕ) : M Status := do
  let b ← blkAt p
  let (rc, returned) ←
    if b.blk.valueLocation = .inline then pure (.success, false)
    else delExtents b.blk.placeValue .success
  if returned then return rc
  else
    modifyBlk p fun b => { b with
      blk := { b.blk with
        valueBuffer := if b.blk.valueLocation = .inline then [] else b.blk.valueBuffer
        valueSize := 0, valueLocation := .inline, placeValue := [] } }
    return rc

/-- `_blk_update_value`. -/
def blkUpdateValue (p : ℕ) : M Status :=
  checked (blkDelValue p) do
    let s ← get
    modifyBlk p fun b => { b with
      valueBlocks := getNumBlocksRequiredForValue s.req.req P.blkSize
      iscontig := false
      remoteValBlocks := 0 }
    blkInitValue P p

/-- The meta block and its value go to the disk. -/
def writeMetaAndData (p : ℕ) : M Status := do
  writeOndiskBlk P p
  writeOndiskData P p
  return .success

/-! ### New meta blocks -/

/-- The loop over the extents in the roll back of `init_meta_blk`. -/
def rollBackExtents : List ValueLoc → M Bool
  | [] => return true
  | loc :: locs => do
      let rc ← setBlkState false loc.valueIndex loc.numChunks .empty
      if rc ≠ .success then return false else rollBackExtents locs

/-- The label `roll_back` of `init_meta_blk`. -/
def rollBack (p : ℕ) (rc : Status) : M Status := do
  let b ← blkAt p
  if ← rollBackExtents b.blk.placeValue then
    let rc' ← setBlkState false b.index 1 .empty
    if rc' ≠ .success then return .rollBackError else return rc
  else return .rollBackError

/-- The allocation of the meta block in `init_meta_blk`: a block located by hashing is allocated
here, and its value blocks separately. -/
def allocMetaBlk (p : ℕ) : M Status := do
  let s ← get
  let b ← blkAt p
  if b.nothash then return .success
  else
    modifyBlk p fun b => { b with
      valueBlocks := getNumBlocksRequiredForValue s.req.req P.blkSize }
    match ← allocContig (if b.dcIndex > 0 then .metaDataCollision else .metaBlk) b.index 1 with
    | none => return .allocContigError
    | some start =>
        dssAssert (start = b.index)
        return .success

/-- The counter of a new meta block. -/
def countMetaBlk (p : ℕ) : M Status := do
  let b ← blkAt p
  modifyStat fun st =>
    if b.dcIndex > 0 then { st with mdc := st.mdc + 1 } else { st with metaBlk := st.metaBlk + 1 }
  return .success

/-- `init_meta_blk`. -/
def initMetaBlk (p : ℕ) : M Status := do
  let s ← get
  let req := s.req.req
  modifyBlk p fun b => { b with
    blk := { OndiskMeta.zero with
      key := memcpy [] req.key req.length, keyLen := req.length
      dataCollisionIndex := if b.dcIndex > 0 then b.dcIndex else 0 } }
  checked (allocMetaBlk P p) do
    modifyBlk p fun b => { b with blk := { b.blk with isvalid := true } }
    let rc ← blkInitValue P p
    if rc ≠ .success then rollBack p rc else checked (writeMetaAndData P p) (countMetaBlk p)

/-- `_get_next_blk_ctx`. -/
def getNextBlkCtx (p : ℕ) : M Unit :=
  modifyReq fun r =>
    if r.chain.length = p + 1 then { r with chain := r.chain ++ [BlkCtx.zero] } else r

/-- The allocation of `open_free_blk` for the block context at position `p`, near the block
`hint`: a run for the meta block and its value, else one block. `false` when the roll back fails.
When not even one block is free the error is logged, and the block context keeps the index it
had. -/
def allocFreeBlk (p hint valueBlocks : ℕ) : M Bool := do
  match ← allocContig .data hint (valueBlocks + 1) with
  | none =>
      match ← allocContig .metaBlk hint 1 with
      | none => return true
      | some start =>
          modifyBlk p fun c => { c with index := start }
          return true
  | some start =>
      modifyBlk p fun c => { c with index := start, iscontig := true }
      let rc ← setBlkState true start 1 .metaBlk
      if rc ≠ .success then
        let rc ← setBlkState true start (valueBlocks + 1) .empty
        return rc = .success
      else return true

/-- `open_free_blk`: the status and `*col_index`. -/
def openFreeBlk (p : ℕ) : M (Status × ℕ) := do
  getNextBlkCtx p
  let s ← get
  let b ← blkAt p
  let valueBlocks := getNumBlocksRequiredForValue s.req.req P.blkSize
  modifyBlk (p + 1) fun c => { c with
    iscontig := false, remoteValBlocks := 0, valueBlocks := valueBlocks }
  if ← allocFreeBlk (p + 1) (b.index + 1) valueBlocks then
    modifyBlk (p + 1) fun c => { c with
      state := .empty
      flag := b.flag
      pindex := b.index
      dcIndex := b.dcIndex
      nothash := true
      firstInsertBlkCtx := b.firstInsertBlkCtx }
    let rc ← initMetaBlk P (p + 1)
    let c ← blkAt (p + 1)
    return (rc, c.index)
  else return (.rollBackError, 0)

/-- `init_meta_data_collision_blk`. -/
def initMetaDataCollisionBlk (p : ℕ) : M Status := do
  let b ← blkAt p
  dssAssert (b.state = .data ∨ b.state = .collisionExtension)
  dssAssert (0 < b.dcIndex)
  let (rc, colIndex) ← openFreeBlk P p
  checked (pure rc) do
    let rc ← dcTableInsert b.dcIndex colIndex b.state
    modifyStat fun st => { st with dc := st.dc + 1 }
    return rc

/-! ### Clearing blocks -/

/-- The block goes back to the allocator, or stays as the data block of a data collision that was
deleted. -/
def freeMetaBlk (index : ℕ) : M Status := do
  if ← dcTableExist index then dcTableUpdate index .empty else setBlkState true index 1 .empty

/-- `clean_blk`. -/
def cleanBlk (p : ℕ) : M Status := do
  let b ← blkAt p
  checked (if b.blk.valueLocation = .inline then pure .success else blkDelValue p) <|
    checked (freeMetaBlk b.index) do
      deleteOndiskBlk P p
      modifyBlk p fun b => { b with blk := OndiskMeta.zero }
      return .success

/-- The removal of the data-collision entry of a block that leaves its chain: an entry that is not
there is fine for a block that has a parent. -/
def dropDc (p : ℕ) : M Status := do
  let b ← blkAt p
  let rc ← dcTableDelete b.blk.dataCollisionIndex b.index
  if rc = .notFound then
    dssAssert (0 < b.pindex)
    return .success
  else return rc

/-- The test of `clean_collision_extension` for a block that holds nothing. -/
def holdsNothing (blk : OndiskMeta) : Bool :=
  blk.numValidColEntry = 0 ∧ blk.collisionExtensionIndex = 0 ∧ blk.isvalid = false

/-- The data-collision entry of a block that `clean_collision_extension` clears. -/
def dropEntryDc (p : ℕ) : M Status := do
  let b ← blkAt p
  if b.state = .metaDataCollisionEntry then
    dssAssert (b.blk.dataCollisionIndex ≠ 0)
    checked (dropDc p) do
      modifyStat fun st => { st with mdc := st.mdc - 1 }
      return .success
  else return .success

/-- `collision_extension_index = 0`, in memory. -/
def clearExtension (p : ℕ) : M Unit :=
  modifyBlk p fun b => { b with blk := { b.blk with collisionExtensionIndex := 0 } }

/-- The loop of `clean_collision_extension` up the chain, from the block before position `p`. -/
def cleanUpward : ℕ → M Status
  | 0 => return .success
  | p + 1 => do
      let pre ← blkAt p
      if holdsNothing pre.blk then
        modifyStat fun st => { st with ce := st.ce - 1 }
        checked (dropEntryDc p) <|
          checked (cleanBlk P p) do
            if p = 0 then return .success
            else
              clearExtension (p - 1)
              cleanUpward p
      else return .success

/-- `clean_collision_extension`. The link of the block before is cleared in memory only. -/
def cleanCollisionExtension (p : ℕ) : M Status := do
  dssAssert (p ≠ 0)
  let ce ← blkAt p
  let pre ← blkAt (p - 1)
  if holdsNothing ce.blk then
    modifyStat fun st => { st with ce := st.ce - 1 }
    (if pre.blk.collisionExtensionIndex = ce.index then clearExtension (p - 1) else pure ())
    checked (dropEntryDc p) (checked (cleanBlk P p) (cleanUpward P p))
  else return .success

/-- The `clean_blk` column of `g_blk_register`. -/
def registerCleanBlk (row : Option BlkState) (p : ℕ) : M Status :=
  match row with
  | some .metaBlk | some .metaDataCollision | some .metaDataCollisionEntry => cleanBlk P p
  | some .collisionExtension => cleanCollisionExtension P p
  | _ => throw .nullHandler

/-! ### Updates of a meta block -/

/-- The new state of the blocks in `update_meta_blk` when a first entry comes to the table. -/
def firstEntryState (b : BlkCtx) (colIndex : ℕ) : M Status := do
  if b.dcIndex > 0 then
    dssAssert (b.state = .metaDataCollision ∨ b.state = .metaDataCollisionEntry ∨
      b.state = .collisionExtension)
    return .success
  else if b.state = .metaBlk then
    checked (setBlkState true b.index 1 .collision) do
      modifyStat fun st => { st with metaBlk := st.metaBlk - 1, mc := st.mc + 1 }
      return .success
  else if b.state = .collisionExtension then
    checked (setBlkState true colIndex 1 .collisionExtension) do
      modifyStat fun st => { st with metaBlk := st.metaBlk - 1, ce := st.ce + 1 }
      return .success
  else return .success

/-- `update_meta_blk` for a new key: the first slot of the table gets it. Only the bytes of the key
are copied to the slot. -/
def addFirstEntry (p : ℕ) : M Status := do
  let s ← get
  let b ← blkAt p
  let req := s.req.req
  let (rc, colIndex) ← openFreeBlk P p
  checked (pure rc) do
    modifyBlk p fun b => { b with
      blk := { b.blk with
        collisionTbl := Function.update b.blk.collisionTbl 0
          ⟨memcpy (b.blk.collisionTbl 0).key req.key req.length, colIndex,
            if b.dcIndex > 0 then .dataColEntry else .metaColEntry⟩
        numValidColEntry := (b.blk.numValidColEntry + 1) % 256
        numValidDcColEntry :=
          if b.dcIndex > 0 then (b.blk.numValidDcColEntry + 1) % 256
          else b.blk.numValidDcColEntry } }
    checked (firstEntryState b colIndex) do
      writeOndiskBlk P p
      return .success

/-- What `update_meta_blk` does before it clears the block of a deleted key. -/
def leaveMetaBlk (p : ℕ) : M Status := do
  let b ← blkAt p
  if b.state = .metaDataCollision ∨ b.state = .metaDataCollisionEntry then
    dssAssert (b.dcIndex = b.blk.dataCollisionIndex)
    checked (dropDc p) do
      modifyStat fun st => { st with mdc := st.mdc - 1 }
      return .success
  else if b.state = .collisionExtension ∨ b.state = .dataCollisionCe then
    modifyStat fun st => { st with ce := st.ce - 1 }
    modifyBlk p fun b => { b with blk := { b.blk with isvalid := false } }
    return .success
  else
    modifyStat fun st => { st with metaBlk := st.metaBlk - 1 }
    return .success

/-- `update_meta_blk`. -/
def updateMetaBlk (p : ℕ) : M Status := do
  let s ← get
  let b ← blkAt p
  dssAssert (b.blk.isvalid ∧ b.blk.numValidColEntry = 0)
  if iskeysame b.blk.key b.blk.keyLen s.req.req.key s.req.req.length = false then
    match b.flag with
    | .newWrite => addFirstEntry P p
    | .update | .toDelete => return .notFound
  else
    match b.flag with
    | .newWrite | .update => checked (blkUpdateValue P p) (writeMetaAndData P p)
    | .toDelete => checked (leaveMetaBlk p) (registerCleanBlk P b.ops p)

/-- `_new_write_ops` on a block without a key: the key is replaced, and the block stays
invalid. -/
def refillBlk (p : ℕ) : M Status := do
  let s ← get
  let req := s.req.req
  modifyBlk p fun b => { b with
    valueBlocks := getNumBlocksRequiredForValue req P.blkSize
    remoteValBlocks := 0
    iscontig := false
    blk := { b.blk with
      key := memcpy b.blk.key req.key req.length, keyLen := req.length
      dataCollisionIndex := if b.dcIndex ≠ 0 then b.dcIndex else b.blk.dataCollisionIndex } }
  checked (blkInitValue P p) (writeMetaAndData P p)

/-- The new collision extension in `_new_write_ops`. -/
def linkExtension (p colIndex : ℕ) : M Status := do
  let b ← blkAt p
  dssAssert (b.blk.collisionExtensionIndex = 0)
  modifyBlk p fun b => { b with blk := { b.blk with collisionExtensionIndex := colIndex } }
  let rc ← setBlkState true colIndex 1 .collisionExtension
  modifyStat fun st => { st with ce := st.ce + 1 }
  return rc

/-- The new slot in `_new_write_ops`: the whole key buffer is copied. -/
def fillSlot (p : ℕ) (i : Fin maxColTblSize) (colIndex : ℕ) : M Status := do
  let s ← get
  let b ← blkAt p
  modifyBlk p fun b => { b with
    blk := { b.blk with
      collisionTbl := Function.update b.blk.collisionTbl i
        ⟨s.req.req.key, colIndex, if b.dcIndex > 0 then .dataColEntry else .metaColEntry⟩
      numValidDcColEntry :=
        if b.dcIndex > 0 then (b.blk.numValidDcColEntry + 1) % 256
        else b.blk.numValidDcColEntry } }
  checked (if b.dcIndex > 0 then setBlkState true colIndex 1 .metaDataCollision
    else pure .success) do
    modifyBlk p fun b => { b with
      blk := { b.blk with numValidColEntry := (b.blk.numValidColEntry + 1) % 256 } }
    return .success

/-- `_new_write_ops`. -/
def newWriteOps (p : ℕ) : M Status := do
  let b ← blkAt p
  dssAssert (b.flag = .newWrite)
  if b.blk.isvalid = false then refillBlk P p
  else
    let (rc, colIndex) ← openFreeBlk P p
    checked (pure rc) <|
      checked
        (match colTblGetFirstEntry b.blk false with
          | none => linkExtension p colIndex
          | some i => fillSlot p i colIndex) do
        writeOndiskBlk P p
        return .success

/-- `_update_kreq_stat_after_io`. -/
def updateKreqStatAfterIo (rc : Status) (successStat queueStat : ReqState) : M Status :=
  match rc with
  | .success => do
      modifyReq fun r => { r with state := successStat }
      return .success
  | .ioSubmitted => do
      modifyReq fun r => { r with state := queueStat }
      return .success
  | rc => return rc

/-- The load of the next block of a chain, in `update_collision_blk`. -/
def loadNext (p colIndex : ℕ) (successStat queueStat : ReqState) : M Status := do
  getNextBlkCtx p
  modifyBlk (p + 1) fun c => { c with index := colIndex }
  checked (getBlkState (p + 1)) do
    let rc ← loadOndiskBlk P (p + 1)
    updateKreqStatAfterIo rc successStat queueStat

/-- The loop of `update_collision_blk` over the table: the slot whose key matches, and whether an
insertable place is known after the loop. A free slot that is the first insertable place is
skipped; another free slot is compared like a valid one. -/
def matchTbl (tbl : Fin maxColTblSize → ColEntry) (key : List UInt8) (hasInsert : Bool) :
    List (Fin maxColTblSize) → Option (Fin maxColTblSize) × Bool
  | [] => (none, hasInsert)
  | i :: is =>
      if colTblEntryIsvalid (tbl i) = false ∧ hasInsert = false then matchTbl tbl key true is
      else if isEntryMatch (tbl i) key then (some i, hasInsert)
      else matchTbl tbl key hasInsert is

/-- `first_insert_blk_ctx = blk_ctx`. -/
def setFirstInsert (p : ℕ) : M Unit := modifyBlk p fun b => { b with firstInsertBlkCtx := some p }

/-- The removal of the data collision in `update_collision_blk`, when the key that is deleted was
the last one of it. -/
def leaveCollisionBlk (p : ℕ) : M Status := do
  let b ← blkAt p
  if (b.state = .metaDataCollision ∨ b.state = .metaDataCollisionEntry) ∧
      b.blk.numValidDcColEntry = 0 ∧ b.blk.collisionExtensionIndex = 0 then
    checked (dropDc p) <|
      checked (setBlkState true b.index 1 .collision) do
        modifyStat fun st => { st with mdc := st.mdc - 1, mc := st.mc + 1 }
        return .success
  else return .success

/-- `update_collision_blk` for the delete of the key of the block. -/
def invalidateKey (p : ℕ) : M Status :=
  checked (blkDelValue p) do
    modifyBlk p fun b => { b with blk := { b.blk with isvalid := false } }
    checked (leaveCollisionBlk p) do
      writeOndiskBlk P p
      return .success

/-- `update_collision_blk` for another key: the table, then the extension, then a new entry. -/
def searchTbl (p : ℕ) : M Status := do
  let s ← get
  let b ← blkAt p
  let (found, hasInsert) := matchTbl b.blk.collisionTbl s.req.req.key b.firstInsertBlkCtx.isSome
    (List.finRange maxColTblSize)
  (if hasInsert ∧ b.firstInsertBlkCtx = none then setFirstInsert p else pure ())
  match found with
  | some i =>
      loadNext P p (b.blk.collisionTbl i).metaCollisionIndex .colLoadingDone .queueToLoadCol
  | none =>
      if b.blk.collisionExtensionIndex ≠ 0 then
        loadNext P p b.blk.collisionExtensionIndex .colExtLoadingDone .queueToLoadColExt
      else if (b.firstInsertBlkCtx = some p ∨ b.firstInsertBlkCtx = none) ∧
          b.flag ≠ .toDelete then newWriteOps P p
      else return .notFound

/-- `update_collision_blk`. The key of the block is compared also when the block is invalid, and
the status of `_blk_update_value` is dropped. -/
def updateCollisionBlk (p : ℕ) : M Status := do
  let s ← get
  let b ← blkAt p
  dssAssert (0 < b.blk.numValidColEntry ∨ 0 < b.blk.collisionExtensionIndex)
  dssAssert (b.state = .metaDataCollision ∨ b.state = .metaDataCollisionEntry ∨
    b.state = .collision ∨ b.state = .collisionExtension)
  (if b.blk.isvalid = false ∧ b.flag ≠ .toDelete then setFirstInsert p else pure ())
  if iskeysame b.blk.key b.blk.keyLen s.req.req.key s.req.req.length then
    match b.flag with
    | .newWrite | .update => do
        let _ ← blkUpdateValue P p
        writeMetaAndData P p
    | .toDelete => invalidateKey P p
  else searchTbl P p

/-- `update_meta_data_collision_blk`. -/
def updateMetaDataCollisionBlk (p : ℕ) : M Status := do
  let b ← blkAt p
  dssAssert (iskeynull b.blk.key = false ∨ 0 < b.blk.numValidColEntry)
  if b.blk.numValidColEntry = 0 ∧ b.blk.collisionExtensionIndex = 0 then updateMetaBlk P p
  else updateCollisionBlk P p

/-- `update_collision_extension_blk`. -/
def updateCollisionExtensionBlk (p : ℕ) : M Status := do
  let b ← blkAt p
  dssAssert (b.state = .collisionExtension ∨ b.state = .dataCollisionCe ∨
    b.state = .dataCollisionEmpty)
  if 0 < b.blk.dataCollisionIndex then
    modifyBlk p fun b => { b with dcIndex := b.blk.dataCollisionIndex }
    updateMetaDataCollisionBlk P p
  else if b.blk.numValidColEntry = 0 ∧ b.blk.isvalid then updateMetaBlk P p
  else updateCollisionBlk P p

/-- The `init_blk` column of `g_blk_register`. -/
def registerInitBlk (row : Option BlkState) (p : ℕ) : M Status :=
  match row with
  | some .empty => initMetaBlk P p
  | some .data | some .collisionExtension => initMetaDataCollisionBlk P p
  | _ => throw .nullHandler

/-- The `update_blk` column of `g_blk_register`. -/
def registerUpdateBlk (row : Option BlkState) (p : ℕ) : M Status :=
  match row with
  | some .metaBlk => updateMetaBlk P p
  | some .collision => updateCollisionBlk P p
  | some .dataCollision | some .metaDataCollision | some .metaDataCollisionEntry
  | some .dataCollisionEmpty | some .dataCollisionCe => updateMetaDataCollisionBlk P p
  | some .collisionExtension => updateCollisionExtensionBlk P p
  | _ => throw .nullHandler

/-- `kctx.ops = g_blk_register[state]`, in the declared bounds. -/
def assignOps (p : ℕ) : M Unit := do
  let b ← blkAt p
  if b.state.toCell < defaultBlockStateNum then
    modifyBlk p fun b => { b with ops := some b.state }
  else throw .registerIndex

/-! ### The block before a deleted collision block -/

/-- `_delete_collision_entry` on a block without key, entries and extension that is no extension
itself: its data-collision entry and the block go. -/
def freeParent (p : ℕ) : M Status := do
  let b ← blkAt p
  checked
    (if b.state = .metaDataCollision ∨ b.state = .metaDataCollisionEntry then do
        let rc ← dcTableDelete b.blk.dataCollisionIndex b.index
        checked (return if rc = .notFound then .success else rc) do
          modifyStat fun st => { st with mdc := st.mdc - 1 }
          return .success
      else do
        modifyStat fun st => { st with mc := st.mc - 1 }
        return .success) do
    modifyBlk p fun b => { b with state := .empty }
    checked (setBlkState true b.index 1 .empty) do
      deleteOndiskBlk P p
      return .success

/-- `_delete_collision_entry` on a block that has no entries and no extension any more. -/
def settleParent (p : ℕ) : M Status := do
  let b ← blkAt p
  if b.blk.numValidColEntry = 0 ∧ b.blk.collisionExtensionIndex = 0 then
    if b.blk.isvalid then
      if b.state = .collision then
        modifyBlk p fun b => { b with state := .metaBlk }
        let rc ← setBlkState true b.index 1 .metaBlk
        modifyStat fun st => { st with mc := st.mc - 1, metaBlk := st.metaBlk + 1 }
        return rc
      else return .success
    else freeParent P p
  else return .success

/-- The end of `_delete_collision_entry`, for a table with more than two slots. -/
def leaveDcParent (p col : ℕ) : M Status := do
  let b ← blkAt p
  let c ← blkAt col
  if (c.state = .metaDataCollision ∨ c.state = .metaDataCollisionEntry) ∧
      1 < b.blk.numValidColEntry then
    let numValidDcColEntry := (b.blk.numValidDcColEntry + 255) % 256
    modifyBlk p fun b => { b with blk := { b.blk with numValidDcColEntry := numValidDcColEntry } }
    if numValidDcColEntry = 0 then
      let rc ← dcTableDelete c.blk.dataCollisionIndex c.index
      if rc ≠ .success ∧ rc ≠ .notFound then return rc
      else
        modifyStat fun st => { st with mdc := st.mdc - 1 }
        let rc ← setBlkState true b.index 1 .collision
        modifyStat fun st => { st with mc := st.mc + 1 }
        return rc
    else return .success
  else return .success

/-- `_delete_collision_entry`. -/
def deleteCollisionEntry (p col : ℕ) : M Status := do
  let s ← get
  let b ← blkAt p
  match (List.finRange maxColTblSize).find? fun i =>
    isEntryMatch (b.blk.collisionTbl i) s.req.req.key with
  | none => return .error
  | some i => do
      modifyBlk p fun b => { b with blk := colTblRemoveEntry b.blk i }
      let b ← blkAt p
      if holdsNothing b.blk ∧ (b.state = .collisionExtension ∨ b.state = .dataCollisionCe) then
        cleanCollisionExtension P p
      else checked (settleParent P p) (leaveDcParent p col)

end DssSdk.Kvtrans
