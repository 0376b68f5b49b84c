import DssSdk.BlockAllocator.SeekOptimizer
import DssSdk.Lib.PackedCells

/-!
# The bitmap allocator and its interface

`QwordVector64Cell` is the bitmap: one cell of `bits_per_cell_` bits for each block, packed in a
vector of 64-bit words, beside the seek optimizer `jso_`. `BlockAllocator.init` chooses its
parameters, and the functions named `dssBlkAllocator…` are the checked interface
`dss_blk_allocator_*` in front of it.

An `Option` is `none` where the source fails an assertion or indexes `data_` outside its size.
Each operation that changes cells also reports the range it hands to `mark_dirty_meta`.
-/

namespace DssSdk.BlockAllocator

open PackedCells

/-- `dss_blk_allocator_status_t`. -/
inductive Status
  | error
  | success
  | invalidBlockIndex
  | invalidBlockRange
  | invalidBlockState
  | iterationEnd
  deriving DecidableEq, Repr

/-- `DSS_BLOCK_ALLOCATOR_BLOCK_STATE_FREE`. -/
def blockStateFree : ℕ := 0

/-- `QwordVector64Cell`. -/
structure QwordVector64Cell where
  jso : JudySeekOptimizer
  cells : ℕ
  bitsPerCell : ℕ
  numBlockStates : ℕ
  blockAllocMetaStartOffset : ℕ
  logicalStartBlockOffset : ℕ
  data : List (BitVec 64)
  deriving DecidableEq

namespace QwordVector64Cell

/-- The number of words of `data_`. -/
def totalQwords (totalCells bitsPerCell : ℕ) : ℕ :=
  totalCells / cellsPerWord bitsPerCell +
    if totalCells % cellsPerWord bitsPerCell ≠ 0 then 1 else 0

/-- The constructor, with `bits_per_cell` in `1..8`. -/
def mk' (jso : JudySeekOptimizer) (totalCells bitsPerCell numBlockStates
    blockAllocMetaStartOffset logicalStartBlockOffset : ℕ) : QwordVector64Cell where
  jso := jso
  cells := totalCells
  bitsPerCell := bitsPerCell
  numBlockStates := numBlockStates
  blockAllocMetaStartOffset := blockAllocMetaStartOffset
  logicalStartBlockOffset := logicalStartBlockOffset
  data := List.replicate (totalQwords totalCells bitsPerCell) 0

/-- `get_cell_value`. -/
def getCellValue (q : QwordVector64Cell) (index : ℕ) : Option ℕ :=
  if index < q.logicalStartBlockOffset then none
  else
    let index := index - q.logicalStartBlockOffset
    if index / cellsPerWord q.bitsPerCell < q.data.length then
      some (cellAt q.bitsPerCell q.data index).toNat
    else none

/-- `set_cell`: the value is a `uint8_t`. -/
def setCell (q : QwordVector64Cell) (index value : ℕ) : Option QwordVector64Cell :=
  if index < q.logicalStartBlockOffset then none
  else
    let index := index - q.logicalStartBlockOffset
    if index / cellsPerWord q.bitsPerCell < q.data.length then
      some { q with data := setCellAt q.bitsPerCell q.data index (BitVec.ofNat 64 (value % 2 ^ 8)) }
    else none

/-- The loop of `set_cell` calls over `num_blocks` consecutive blocks. -/
def setCells (q : QwordVector64Cell) (iterBlkId : ℕ) : ℕ → ℕ → Option QwordVector64Cell
  | 0, _ => some q
  | numBlocks + 1, value => do
      let q ← q.setCell iterBlkId value
      q.setCells (iterBlkId + 1) numBlocks value

/-- What an operation returns: its status, the allocator after it, the range it marked dirty and,
for an allocation, `allocated_start_block`. -/
structure Outcome where
  status : Status
  alloc : QwordVector64Cell
  dirty : Option (ℕ × ℕ)
  allocatedStartBlock : Option ℕ
  deriving DecidableEq

/-- An outcome that changes nothing. -/
def Outcome.unchanged (q : QwordVector64Cell) (status : Status) : Outcome :=
  ⟨status, q, none, none⟩

/-- `bmap_last_cell_id`. -/
def bmapLastCellId (q : QwordVector64Cell) : ℕ := q.cells + q.logicalStartBlockOffset

/-- `set_blocks_state`. -/
def setBlocksState (q : QwordVector64Cell) (blockIndex numBlocks state : ℕ) : Option Outcome :=
  let reqLastBlockLb := blockIndex + numBlocks - 1
  if numBlocks ≠ 1 then none
  else if state = blockStateFree then none
  else if state ≥ q.numBlockStates then none
  else if blockIndex > q.bmapLastCellId ∨ reqLastBlockLb > q.bmapLastCellId then none
  else do
    let cellValue ← q.getCellValue blockIndex
    if cellValue ≠ blockStateFree then
      -- the block is allocated: only its state changes
      let q ← q.setCell blockIndex state
      some ⟨.success, q, some (blockIndex, 1), none⟩
    else
      match ← q.jso.allocateLb blockIndex numBlocks with
      | none => some (.unchanged q .error)
      | some (actualAllocatedLb, jso) =>
          if actualAllocatedLb ≠ blockIndex then none
          else do
            let q ← { q with jso := jso }.setCell blockIndex state
            some ⟨.success, q, some (blockIndex, 1), none⟩

/-- `clear_blocks`. -/
def clearBlocks (q : QwordVector64Cell) (blockIndex numBlocks : ℕ) : Option Outcome :=
  let reqLastBlockLb := blockIndex + numBlocks - 1
  if blockIndex > q.bmapLastCellId ∨ reqLastBlockLb > q.bmapLastCellId then
    some (.unchanged q .error)
  else do
    match ← q.jso.freeLb blockIndex numBlocks with
    | none =>
        if q.jso.totalAllocatedBlocks = 0 then some (.unchanged q .success) else none
    | some jso => do
        let q ← { q with jso := jso }.setCells blockIndex numBlocks blockStateFree
        some ⟨.success, q, some (blockIndex, numBlocks), none⟩

/-- `alloc_blocks_contig`; `wantStart` says that `allocated_start_block` is not `NULL`. -/
def allocBlocksContig (q : QwordVector64Cell) (state hintBlockIndex numBlocks : ℕ)
    (wantStart : Bool) : Option Outcome :=
  if hintBlockIndex > q.bmapLastCellId ∨ numBlocks > q.cells then some (.unchanged q .error)
  else do
    match ← q.jso.allocateLb hintBlockIndex numBlocks with
    | none => some (.unchanged q .error)
    | some (actualAllocatedLb, jso) =>
        if wantStart = false ∧ hintBlockIndex ≠ actualAllocatedLb then do
          -- without `allocated_start_block` the blocks must be the hinted ones
          match ← jso.freeLb actualAllocatedLb numBlocks with
          | none => none
          | some jso => some (.unchanged { q with jso := jso } .error)
        else do
          let q ← { q with jso := jso }.setCells actualAllocatedLb numBlocks state
          some ⟨.success, q, some (actualAllocatedLb, numBlocks),
            if wantStart then some actualAllocatedLb else none⟩

end QwordVector64Cell

/-! ### `BlockAllocator::init` and the checked interface -/

/-- The fields of `dss_blk_allocator_opts_t` that the allocator reads. -/
structure Opts where
  numTotalBlocks : ℕ
  numBlockStates : ℕ
  logicalStartBlockOffset : ℕ
  blockAllocMetaStartOffset : ℕ
  deriving DecidableEq, Repr

/-- `BlockAllocator::init`: `none` when the number of states is zero (`false`) or above `16`,
where the width of a cell stays `0`, the constructor takes `64` bits for it and the mask
`0xff >> (8 - 64)` is undefined. -/
def init (config : Opts) : Option QwordVector64Cell :=
  if config.numBlockStates = 0 then none
  else if config.numBlockStates ≤ 16 then
    -- the states without the cleared one, in cells of four bits
    some (QwordVector64Cell.mk'
      (JudySeekOptimizer.init config.numTotalBlocks config.logicalStartBlockOffset)
      config.numTotalBlocks 4 (config.numBlockStates + 1)
      config.blockAllocMetaStartOffset config.logicalStartBlockOffset)
  else none

/-- The allocator context: the options and the instance. -/
structure Context where
  opts : Opts
  alloc : QwordVector64Cell
  deriving DecidableEq

/-- `dss_blk_allocator_init` for `block_impresario`. -/
def dssBlkAllocatorInit (config : Opts) : Option Context := (init config).map fun q => ⟨config, q⟩

namespace Context

/-- `dss_block_allocator_is_block_index_valid`. -/
def isBlockIndexValid (c : Context) (bindex : ℕ) : Bool :=
  bindex ≥ c.opts.logicalStartBlockOffset ∧
    bindex < c.opts.numTotalBlocks + c.opts.logicalStartBlockOffset

/-- `dss_block_allocator_is_block_range_valid`, in 64-bit arithmetic. -/
def isBlockRangeValid (c : Context) (bindex numBlocks : ℕ) : Bool :=
  let reqEnd := (bindex + numBlocks) % 2 ^ 64
  let reqLastLb := (bindex + numBlocks + (2 ^ 64 - 1)) % 2 ^ 64
  let blkAllocatorLastLb := c.opts.numTotalBlocks + c.opts.logicalStartBlockOffset - 1
  bindex ≥ c.opts.logicalStartBlockOffset ∧ bindex ≤ blkAllocatorLastLb ∧
    reqLastLb ≤ blkAllocatorLastLb ∧ bindex < reqEnd

/-- `dss_block_allocator_is_block_state_valid`. -/
def isBlockStateValid (c : Context) (state : ℕ) : Bool := state ≤ c.opts.numBlockStates

/-- What an interface call returns. -/
structure Reply where
  status : Status
  ctx : Context
  dirty : Option (ℕ × ℕ)
  allocatedStartBlock : Option ℕ
  deriving DecidableEq

/-- A call refused by the interface. -/
def reject (c : Context) (status : Status) : Reply := ⟨status, c, none, none⟩

/-- The outcome of the instance as a reply. -/
def reply (c : Context) (o : QwordVector64Cell.Outcome) : Reply :=
  ⟨o.status, { c with alloc := o.alloc }, o.dirty, o.allocatedStartBlock⟩

/-- `dss_blk_allocator_get_block_state`. -/
def getBlockState (c : Context) (blockIndex : ℕ) : Option (Status × ℕ) :=
  if c.isBlockIndexValid blockIndex = false then some (.invalidBlockIndex, 0)
  else if blockIndex > c.alloc.bmapLastCellId then some (.error, 0)
  else (c.alloc.getCellValue blockIndex).map fun v => (.success, v)

/-- `dss_blk_allocator_set_blocks_state`. -/
def setBlocksState (c : Context) (blockIndex numBlocks state : ℕ) : Option Reply :=
  if c.isBlockRangeValid blockIndex numBlocks = false then some (c.reject .invalidBlockRange)
  else if state = blockStateFree then some (c.reject .invalidBlockState)
  else if c.isBlockStateValid state = false then some (c.reject .invalidBlockState)
  else (c.alloc.setBlocksState blockIndex numBlocks state).map c.reply

/-- `dss_blk_allocator_clear_blocks`. -/
def clearBlocks (c : Context) (blockIndex numBlocks : ℕ) : Option Reply :=
  if c.isBlockRangeValid blockIndex numBlocks = false then some (c.reject .invalidBlockRange)
  else (c.alloc.clearBlocks blockIndex numBlocks).map c.reply

/-- `dss_blk_allocator_alloc_blocks_contig`. -/
def allocBlocksContig (c : Context) (state hintBlockIndex numBlocks : ℕ) (wantStart : Bool) :
    Option Reply :=
  if c.isBlockIndexValid hintBlockIndex = false then some (c.reject .invalidBlockIndex)
  else (c.alloc.allocBlocksContig state hintBlockIndex numBlocks wantStart).map c.reply

end Context

end DssSdk.BlockAllocator
