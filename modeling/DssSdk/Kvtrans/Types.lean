import DssSdk.BlockAllocator.Bitmap

/-!
# The data of the key-value translator

The on-disk meta block, the block contexts of a request and the translator context.

* `OndiskMeta`: a key, the place of its value, a collision table of two slots, and the links to a
  data collision and to a collision extension;
* `BlkCtx`: a block as a request sees it, with its own copy of the meta block;
* `Kreq`: a request and the chain of block contexts it has gone through;
* `Ctx`: the block allocator, the data-collision table, the stored blocks and the meta
  synchronisation.

Character buffers are lists of bytes, with zeros after the last byte of the list.
-/

namespace DssSdk.Kvtrans

/-- `dss_kvtrans_status_t`. -/
inductive Status
  | error
  | success
  | notFound
  | setBlkStateError
  | setDcStateError
  | allocContigError
  | rollBackError
  | ioSubmitted
  deriving DecidableEq, Repr

/-- `blk_state_t`. -/
inductive BlkState
  | empty
  | metaBlk
  | data
  | collision
  | dataCollision
  | metaDataCollision
  | metaDataCollisionEntry
  | collisionExtension
  | dataCollisionEmpty
  | dataCollisionCe
  deriving DecidableEq, Repr

namespace BlkState

/-- The number of a state in the block allocator. -/
def toCell : BlkState → ℕ
  | empty => 0
  | metaBlk => 1
  | data => 2
  | collision => 3
  | dataCollision => 4
  | metaDataCollision => 5
  | metaDataCollisionEntry => 6
  | collisionExtension => 7
  | dataCollisionEmpty => 8
  | dataCollisionCe => 9

/-- The cast of a cell of the allocator to `blk_state_t`. -/
def ofCell : ℕ → Option BlkState
  | 0 => some empty
  | 1 => some metaBlk
  | 2 => some data
  | 3 => some collision
  | 4 => some dataCollision
  | 5 => some metaDataCollision
  | 6 => some metaDataCollisionEntry
  | 7 => some collisionExtension
  | 8 => some dataCollisionEmpty
  | 9 => some dataCollisionCe
  | _ => none

@[simp] theorem ofCell_toCell (st : BlkState) : ofCell st.toCell = some st := by
  cases st <;> rfl

theorem toCell_injective : Function.Injective toCell := by
  intro a b h
  have h' := congrArg ofCell h
  simpa using h'

end BlkState

/-- `dc_item_t`. -/
structure DcItem where
  mdcIndex : ℕ
  oriState : BlkState
  deriving DecidableEq, Repr

/-- `col_entry_state_t`. -/
inductive ColEntryState
  | invalid
  | deleted
  | metaColEntry
  | dataColEntry
  deriving DecidableEq, Repr

/-- `col_entry_t`. -/
structure ColEntry where
  key : List UInt8
  metaCollisionIndex : ℕ
  state : ColEntryState
  deriving DecidableEq, Repr

/-- `value_loc_t`. -/
structure ValueLoc where
  valueIndex : ℕ
  numChunks : ℕ
  deriving DecidableEq, Repr

/-- `enum value_loc_e`. -/
inductive ValueLocation
  | inline
  | contig
  | remote
  | hybird
  deriving DecidableEq, Repr

/-- `MAX_COL_TBL_SIZE`. -/
abbrev maxColTblSize : ℕ := 2

/-- `MAX_VALUE_SCATTER`. -/
def maxValueScatter : ℕ := 8

/-- `MAX_INLINE_VALUE`. -/
def maxInlineValue : ℕ := 1024 - 248

/-- `KEY_LEN`. -/
def keyLen : ℕ := 1024

/-- `DEFAULT_BLOCK_STATE_NUM`: the declared size of `g_blk_register`. -/
def defaultBlockStateNum : ℕ := 9

/-- `ondisk_meta_t`. The valid entries of `place_value` are a list, so
`num_valid_place_value_entry` is its length. -/
structure OndiskMeta where
  key : List UInt8
  keyLen : ℕ
  isvalid : Bool
  valueSize : ℕ
  valueLocation : ValueLocation
  placeValue : List ValueLoc
  valueBuffer : List UInt8
  numValidColEntry : ℕ
  numValidDcColEntry : ℕ
  collisionTbl : Fin maxColTblSize → ColEntry
  dataCollisionIndex : ℕ
  collisionExtensionIndex : ℕ
  deriving DecidableEq

/-- A meta block after `memset`. -/
def OndiskMeta.zero : OndiskMeta where
  key := []
  keyLen := 0
  isvalid := false
  valueSize := 0
  valueLocation := .inline
  placeValue := []
  valueBuffer := []
  numValidColEntry := 0
  numValidDcColEntry := 0
  collisionTbl := fun _ => ⟨[], 0, .invalid⟩
  dataCollisionIndex := 0
  collisionExtensionIndex := 0

/-- `enum ops_flag_e`; nothing sets `update`. -/
inductive OpsFlag
  | newWrite
  | update
  | toDelete
  deriving DecidableEq, Repr

/-- `blk_ctx_t` with its key and value contexts. `ops` is the row of `g_blk_register` that was
assigned, and `firstInsertBlkCtx` a position in the chain of the request. -/
structure BlkCtx where
  index : ℕ
  state : BlkState
  flag : OpsFlag
  ops : Option BlkState
  pindex : ℕ
  dcIndex : ℕ
  iscontig : Bool
  valueBlocks : ℕ
  remoteValBlocks : ℕ
  nothash : Bool
  firstInsertBlkCtx : Option ℕ
  blk : OndiskMeta
  deriving DecidableEq

/-- A block context after `reset_blk_ctx`. -/
def BlkCtx.zero : BlkCtx where
  index := 0
  state := .empty
  flag := .newWrite
  ops := none
  pindex := 0
  dcIndex := 0
  iscontig := false
  valueBlocks := 0
  remoteValBlocks := 0
  nothash := false
  firstInsertBlkCtx := none
  blk := OndiskMeta.zero

/-- `kv_op_t`. -/
inductive Opc
  | store
  | retrieve
  | delete
  | exist
  deriving DecidableEq, Repr

/-- `req_t`: the key buffer with the length of the key, and the value of a store. -/
structure Req where
  opc : Opc
  key : List UInt8
  length : ℕ
  value : List UInt8
  deriving DecidableEq, Repr

/-- `enum kvtrans_req_e`. -/
inductive ReqState
  | reqInitialized
  | queueToLoadEntry
  | entryLoadingDone
  | queueToLoadCol
  | colLoadingDone
  | queueToLoadColExt
  | colExtLoadingDone
  | colExtLoadingContig
  | queueToStartIo
  | queuedForDataIo
  | ioCmpl
  | reqCmpl
  deriving DecidableEq, Repr

/-- An operation of the I/O task of a request. The meta blocks are read to and written from the
buffer of a block context, named by its position in the chain; the values from the buffer of the
request. -/
inductive IoOp
  | readMeta (pos : ℕ)
  | writeMeta (pos : ℕ)
  | readData (loc : ValueLoc)
  | writeData (loc : ValueLoc) (offset : ℕ)
  deriving DecidableEq, Repr

/-- `kvtrans_req_t`. `value` is the value buffer of a retrieve. `allocFailed` is a record for the
proofs: no free block was found, or a value needed too many extents. -/
structure Kreq where
  id : ℕ
  req : Req
  state : ReqState
  chain : List BlkCtx
  ioToQueue : Bool
  baMetaUpdated : Bool
  io : List IoOp
  value : List UInt8
  allocFailed : Bool
  deriving DecidableEq

/-- `init_kvtrans_req`: one block context, and nothing done yet. -/
def initKvtransReq (id : ℕ) (req : Req) : Kreq where
  id := id
  req := req
  state := .reqInitialized
  chain := [BlkCtx.zero]
  ioToQueue := false
  baMetaUpdated := false
  io := []
  value := []
  allocFailed := false

/-- The counters of `dstat_t` for the blocks of each kind. One that underflows is negative. -/
structure Dstat where
  metaBlk : ℤ
  mc : ℤ
  dc : ℤ
  mdc : ℤ
  ce : ℤ
  deriving DecidableEq, Repr

/-- The counters of a new context. -/
def Dstat.zero : Dstat := ⟨0, 0, 0, 0, 0⟩

/-- The translator context: the block allocator, `dc_cache_tbl`, the stored meta blocks and
values, `dirty_meta_lba`, `kv_req_queue` as request ids, and the suspended requests that it points
to. `loadedEmpty` is a record for the proofs: some meta block was loaded while the allocator had it
`EMPTY`. -/
structure Ctx where
  alloc : BlockAllocator.Context
  dcTbl : ℕ → Option DcItem
  metas : ℕ → Option OndiskMeta
  datas : ℕ → List UInt8
  dirtyMetaLba : ℕ → Bool
  kvReqQueue : List ℕ
  kreqs : ℕ → Option Kreq
  loadedEmpty : Bool
  stat : Dstat

/-- Where the meta blocks and values are kept: in memory, as in the build for the unit tests, or
on the disk, through I/O tasks. -/
inductive Build
  | memory
  | disk
  deriving DecidableEq, Repr

/-- The parameters of a translator: its build, the first block, the number of blocks, their size,
whether the allocator meta is synchronised, and the block that the hash of a key is assigned
(`kv_assign_block`). -/
structure Params where
  build : Build
  blkOffset : ℕ
  blkNum : ℕ
  blkSize : ℕ
  isBaMetaSyncEnabled : Bool
  hash : List UInt8 → ℕ

/-! ### Buffers and keys -/

/-- The first `n` bytes of a buffer. -/
def bytes (buf : List UInt8) (n : ℕ) : List UInt8 := buf.take n ++ List.replicate (n - buf.length) 0

/-- `memcpy` of `n` bytes to the start of a buffer. -/
def memcpy (dst src : List UInt8) (n : ℕ) : List UInt8 := bytes src n ++ dst.drop n

/-- `strnlen` of a key buffer. -/
def strnlen (buf : List UInt8) : ℕ := ((buf.take keyLen).takeWhile (· ≠ 0)).length

/-- `iskeysame`. -/
def iskeysame (k1 : List UInt8) (k1Len : ℕ) (k2 : List UInt8) (k2Len : ℕ) : Bool :=
  k1Len = k2Len ∧ bytes k1 k2Len = bytes k2 k2Len

/-- `is_entry_match`: the state of the entry is not looked at. -/
def isEntryMatch (e : ColEntry) (key : List UInt8) : Bool :=
  iskeysame e.key (strnlen e.key) key (strnlen key)

/-- `iskeynull`. -/
def iskeynull (key : List UInt8) : Bool := key.headD 0 = 0

/-- `_col_tbl_entry_isvalid`. -/
def colTblEntryIsvalid (e : ColEntry) : Bool := e.state ≠ .deleted ∧ e.state ≠ .invalid

/-- `_col_tbl_get_first_entry`. -/
def colTblGetFirstEntry (blk : OndiskMeta) (isvalid : Bool) : Option (Fin maxColTblSize) :=
  (List.finRange maxColTblSize).find? fun i => colTblEntryIsvalid (blk.collisionTbl i) = isvalid

/-- `_col_tbl_remove_entry`, with `uint8_t` counters. -/
def colTblRemoveEntry (blk : OndiskMeta) (i : Fin maxColTblSize) : OndiskMeta :=
  { blk with
    numValidDcColEntry :=
      if (blk.collisionTbl i).state = .dataColEntry then (blk.numValidDcColEntry + 255) % 256
      else blk.numValidDcColEntry
    collisionTbl := Function.update blk.collisionTbl i
      { blk.collisionTbl i with state := .deleted }
    numValidColEntry := (blk.numValidColEntry + 255) % 256 }

@[simp] theorem length_bytes (buf : List UInt8) (n : ℕ) : (bytes buf n).length = n := by
  unfold bytes
  rw [List.length_append, List.length_take, List.length_replicate]
  omega

@[simp] theorem bytes_memcpy (dst src : List UInt8) (n : ℕ) :
    bytes (memcpy dst src n) n = bytes src n := by
  have hlen := length_bytes src n
  unfold memcpy
  rw [bytes, List.take_left' hlen, List.length_append, hlen, Nat.sub_eq_zero_of_le (by omega)]
  simp

@[simp] theorem iskeysame_memcpy (dst key : List UInt8) (n : ℕ) :
    iskeysame (memcpy dst key n) n key n = true := by
  simp [iskeysame]

/-- `_get_num_blocks_required_for_value`. -/
def getNumBlocksRequiredForValue (req : Req) (blockSize : ℕ) : ℕ :=
  if req.value.length < maxInlineValue then 0 else (req.value.length + blockSize - 1) / blockSize

end DssSdk.Kvtrans
