import DssSdk.BlockAllocator.Bitmap
import DssSdk.Lib.Scan
import DssSdk.Lib.WordField

/-!
# The simple in-memory bitmap allocator

`simbmap_allocator` keeps a field for each block in 64-bit words, the first block in the highest bits.

* `Simbmap.init`: the width of a field and the size of the bitmap;
* `Simbmap.getBlock`, `Simbmap.setBlock`: the two uses of `dss_simbmap_update_block`;
* `Simbmap.checkRangeFree`, `Simbmap.allocBlocksContig`: the search for a free range;
* `getBlock_setBlock`, `setBlocksState_spec`: what a write does to the states of the blocks.

An access outside the bitmap, a shift of a word by its width and the overflow of an `int` are `none`.
-/

namespace DssSdk.BlockAllocator

open WordField

/-- `dss_blk_alloc_simbmap_ctx_t`, with the two options that are read. -/
structure Simbmap where
  bmap : List (BitVec 64)
  bitsPerBlock : ℕ
  blocksPerStride : ℕ
  numTotalBlocks : ℕ
  numBlockStates : ℕ
deriving DecidableEq

namespace Simbmap

/-- `dss_simbmap_num_states_to_bits_per_block`: the bits of the number, rounded up to a power of
two. -/
def numStatesToBitsPerBlock (numBlockStates : ℕ) : ℕ := 2 ^ Nat.clog 2 (Nat.log2 numBlockStates + 1)

/-- `bmap_sz` in bytes, in 64-bit arithmetic. -/
def bmapSz (numTotalBlocks bitsPerBlkState : ℕ) : ℕ :=
  let sz :=
    if bitsPerBlkState < 8 then numTotalBlocks / (8 / bitsPerBlkState)
    else numTotalBlocks * (bitsPerBlkState / 8) % 2 ^ 64
  if sz % 8 ≠ 0 then (sz + (8 - sz % 8)) % 2 ^ 64 else sz

/-- `dss_blk_allocator_simbmap_init`; `mallocs` tells which sizes `malloc` grants. -/
def init (mallocs : ℕ → Bool) (numTotalBlocks numBlockStates : ℕ) : Option Simbmap :=
  if numBlockStates = 0 then none
  else
    let bits := numStatesToBitsPerBlock numBlockStates
    if bits > 64 then none
    else if 64 % bits ≠ 0 then none
    else if mallocs (bmapSz numTotalBlocks bits) = false then none
    else some
      { bmap := List.replicate (bmapSz numTotalBlocks bits / 8) 0
        bitsPerBlock := bits
        blocksPerStride := 64 / bits
        numTotalBlocks := numTotalBlocks
        numBlockStates := numBlockStates }

/-- `shift_index`. -/
def shiftIndex (c : Simbmap) (blkIndex : ℕ) : ℕ :=
  c.bitsPerBlock * (c.blocksPerStride - blkIndex % c.blocksPerStride - 1)

/-- `dss_simbmap_update_block` without `set`. -/
def getBlock (c : Simbmap) (blkIndex : ℕ) : Option ℕ :=
  if 64 ≤ c.bitsPerBlock then none
  else (c.bmap[blkIndex / c.blocksPerStride]?).map fun strideData =>
    (readField c.bitsPerBlock (c.shiftIndex blkIndex) strideData).toNat

/-- `dss_simbmap_update_block` with `set`. -/
def setBlock (c : Simbmap) (blkIndex state : ℕ) : Option Simbmap :=
  if 64 ≤ c.bitsPerBlock then none
  else (c.bmap[blkIndex / c.blocksPerStride]?).map fun strideData =>
    let strideData :=
      writeField c.bitsPerBlock (c.shiftIndex blkIndex) strideData (BitVec.ofNat 64 state)
    { c with bmap := c.bmap.set (blkIndex / c.blocksPerStride) strideData }

/-- `dss_blk_allocator_simbmap_set_blocks_state`, from the `i`-th block on. -/
def setBlocksState (c : Simbmap) (blockIndex state : ℕ) : ℕ → ℕ → Option Simbmap
  | 0, _ => some c
  | steps + 1, i => do
    let c ← c.setBlock ((blockIndex + i) % 2 ^ 64) state
    if i + 1 < 2 ^ 31 then c.setBlocksState blockIndex state steps (i + 1) else none

/-- `__dss_simbmap_check_range_free`, from the `i`-th block on, with `failed_index` if it is written. -/
def checkRangeFree (c : Simbmap) (blockIndex : ℕ) : ℕ → ℕ → Option (Bool × Option ℕ)
  | 0, _ => some (true, none)
  | steps + 1, i =>
    if (blockIndex + i) % 2 ^ 64 ≥ c.numTotalBlocks then some (false, none)
    else do
      let blockState ← c.getBlock ((blockIndex + i) % 2 ^ 64)
      if blockState = blockStateFree then
        if i + 1 < 2 ^ 31 then c.checkRangeFree blockIndex steps (i + 1) else none
      else some (false, some ((blockIndex + i) % 2 ^ 64))

/-- The loop from the hint to the end of the device. Every round moves `curr_block_index` on. -/
def searchForward (c : Simbmap) (numBlocks : ℕ) : ℕ → ℕ → Option (Option ℕ)
  | 0, _ => some none
  | fuel + 1, currBlockIndex =>
    if currBlockIndex < c.numTotalBlocks then
      if (currBlockIndex + numBlocks) % 2 ^ 64 ≥ c.numTotalBlocks then some none
      else do
        let (rangeFree, failedIndex) ← c.checkRangeFree currBlockIndex numBlocks 0
        if rangeFree then some (some currBlockIndex)
        else c.searchForward numBlocks fuel (failedIndex.getD currBlockIndex + 1)
    else some none

/-- The loop from the start of the device to the hint. -/
def searchWrapped (c : Simbmap) (numBlocks hintBlockIndex : ℕ) : ℕ → ℕ → Option (Option ℕ)
  | 0, _ => some none
  | fuel + 1, currBlockIndex =>
    if currBlockIndex < hintBlockIndex then do
      let (rangeFree, failedIndex) ← c.checkRangeFree currBlockIndex numBlocks 0
      if rangeFree then some (some currBlockIndex)
      else c.searchWrapped numBlocks hintBlockIndex fuel (failedIndex.getD currBlockIndex + 1)
    else some none

/-- The search of `alloc_blocks_contig` with `allocated_start_block`. -/
def search (c : Simbmap) (hintBlockIndex numBlocks : ℕ) : Option (Option ℕ) := do
  match ← c.searchForward numBlocks (c.numTotalBlocks + 1) hintBlockIndex with
  | some start => some (some start)
  | none => c.searchWrapped numBlocks hintBlockIndex (hintBlockIndex + 1) 0

/-- What an allocation returns. -/
structure Allocated where
  status : Status
  ctx : Simbmap
  allocatedStartBlock : Option ℕ
deriving DecidableEq

/-- `dss_blk_allocator_simbmap_alloc_blocks_contig`; without `allocated_start_block` only the hint is
tried. -/
def allocBlocksContig (c : Simbmap) (state hintBlockIndex numBlocks : ℕ) (wantStart : Bool) :
    Option Allocated :=
  if wantStart = false then do
    let (rangeFree, _) ← c.checkRangeFree hintBlockIndex numBlocks 0
    if rangeFree then do
      let c' ← c.setBlocksState hintBlockIndex state numBlocks 0
      some ⟨.success, c', none⟩
    else some ⟨.error, c, none⟩
  else do
    match ← c.search hintBlockIndex numBlocks with
    | none => some ⟨.error, c, none⟩
    | some start => do
      let c' ← c.setBlocksState start state numBlocks 0
      some ⟨.success, c', some start⟩

/-! ### The fields -/

/-- The parameters of an allocator whose bitmap holds the field of every block. -/
structure Fields (c : Simbmap) : Prop where
  pos : 0 < c.bitsPerBlock
  lt : 0 < c.numTotalBlocks → c.bitsPerBlock < 64
  stride : c.bitsPerBlock * c.blocksPerStride = 64
  inside : ∀ x < c.numTotalBlocks, x / c.blocksPerStride < c.bmap.length

/-- The state of a block. -/
def stateOf (c : Simbmap) (x : ℕ) : ℕ := (c.getBlock x).getD 0

variable {c c' : Simbmap} {x i v b n : ℕ}

theorem Fields.stride_pos (h : Fields c) : 0 < c.blocksPerStride := by
  by_contra hzero
  have hstride := h.stride
  rw [Nat.eq_zero_of_not_pos hzero, Nat.mul_zero] at hstride
  omega

theorem Fields.shift_le (h : Fields c) (x : ℕ) : c.shiftIndex x + c.bitsPerBlock ≤ 64 := by
  have hmod := Nat.mod_lt x h.stride_pos
  unfold shiftIndex
  calc
    c.bitsPerBlock * (c.blocksPerStride - x % c.blocksPerStride - 1) + c.bitsPerBlock =
        c.bitsPerBlock * (c.blocksPerStride - x % c.blocksPerStride - 1 + 1) := by ring
    _ ≤ c.bitsPerBlock * c.blocksPerStride := Nat.mul_le_mul_left _ (by omega)
    _ = 64 := h.stride

theorem Fields.getBlock_eq (h : Fields c) (hx : x < c.numTotalBlocks) :
    c.getBlock x = some (c.stateOf x) := by
  have hin := h.inside x hx
  unfold stateOf getBlock
  rw [if_neg (by have := h.lt (by omega); omega), List.getElem?_eq_getElem hin]
  rfl

/-- Blocks of one word have separate fields. -/
theorem Fields.disjoint (h : Fields c) {y : ℕ} (hword : x / c.blocksPerStride = y / c.blocksPerStride)
    (hne : x ≠ y) : c.shiftIndex x + c.bitsPerBlock ≤ c.shiftIndex y ∨
      c.shiftIndex y + c.bitsPerBlock ≤ c.shiftIndex x := by
  have hx := Nat.mod_lt x h.stride_pos
  have hy := Nat.mod_lt y h.stride_pos
  have hdx := Nat.div_add_mod x c.blocksPerStride
  have hdy := Nat.div_add_mod y c.blocksPerStride
  rw [hword] at hdx
  unfold shiftIndex
  generalize x % c.blocksPerStride = p at hx hdx
  generalize y % c.blocksPerStride = q at hy hdy
  rcases Nat.lt_or_ge p q with hlt | hge
  · right
    have hle := Nat.mul_le_mul_left c.bitsPerBlock (show c.blocksPerStride - q - 1 + 1 ≤
      c.blocksPerStride - p - 1 by omega)
    rwa [Nat.mul_add, Nat.mul_one] at hle
  · left
    have hle := Nat.mul_le_mul_left c.bitsPerBlock (show c.blocksPerStride - p - 1 + 1 ≤
      c.blocksPerStride - q - 1 by omega)
    rwa [Nat.mul_add, Nat.mul_one] at hle

/-- `c'` is `c` with other words. -/
structure SameShape (c c' : Simbmap) : Prop where
  eq : c' = { c with bmap := c'.bmap }
  length : c'.bmap.length = c.bmap.length

theorem SameShape.refl (c : Simbmap) : SameShape c c := ⟨rfl, rfl⟩

theorem SameShape.trans {c'' : Simbmap} (h : SameShape c c') (h' : SameShape c' c'') :
    SameShape c c'' := by
  refine ⟨?_, h'.length.trans h.length⟩
  rw [h'.eq, h.eq]

theorem SameShape.fields (h : SameShape c c') (hf : Fields c) : Fields c' := by
  have hlen := h.length
  rw [h.eq] at hlen ⊢
  refine ⟨hf.pos, hf.lt, hf.stride, fun x hx => ?_⟩
  dsimp only at hlen ⊢
  rw [hlen]
  exact hf.inside x hx

/-- `c'` is `c` with the blocks `b, …, b + n - 1` in the state `v`. -/
structure Marks (c : Simbmap) (b n v : ℕ) (c' : Simbmap) : Prop where
  shape : SameShape c c'
  state : ∀ x < c.numTotalBlocks, c'.stateOf x = if b ≤ x ∧ x < b + n then v else c.stateOf x

theorem setBlock_spec (h : Fields c) (hi : i < c.numTotalBlocks) (hv : v < 2 ^ c.bitsPerBlock) :
    ∃ c', c.setBlock i v = some c' ∧ Marks c i 1 v c' := by
  have hin := h.inside i hi
  have hlt := h.lt (by omega)
  have hv64 : v < 2 ^ 64 := hv.trans_le (Nat.pow_le_pow_right (by omega) (by omega))
  have htoNat : (BitVec.ofNat 64 v).toNat = v := by rw [BitVec.toNat_ofNat, Nat.mod_eq_of_lt hv64]
  unfold setBlock
  rw [if_neg (by omega), List.getElem?_eq_getElem hin]
  refine ⟨_, rfl, ⟨rfl, by rw [List.length_set]⟩, fun x hx => ?_⟩
  have hxin := h.inside x hx
  unfold stateOf getBlock
  dsimp only
  rw [if_neg (show ¬ 64 ≤ c.bitsPerBlock by omega), if_neg (show ¬ 64 ≤ c.bitsPerBlock by omega),
    List.getElem?_set]
  by_cases hword : i / c.blocksPerStride = x / c.blocksPerStride
  · rw [if_pos hword, if_pos hin, Option.map_some, Option.getD_some, ← hword,
      List.getElem?_eq_getElem hin, Option.map_some, Option.getD_some]
    by_cases hxi : i = x
    · rw [if_pos (show i ≤ x ∧ x < i + 1 by omega), ← hxi]
      show (readField _ (c.shiftIndex i) _).toNat = v
      rw [readField_writeField_self (h.shift_le i) (by rwa [htoNat]), htoNat]
    · rw [if_neg (show ¬ (i ≤ x ∧ x < i + 1) by omega)]
      show (readField _ (c.shiftIndex x) _).toNat = _
      rw [readField_writeField_of_disjoint (h.shift_le x) (h.disjoint hword.symm (Ne.symm hxi))]
  · have hxi : ¬ (i ≤ x ∧ x < i + 1) := by
      intro hin'
      exact hword (by rw [show x = i by omega])
    rw [if_neg hword, if_neg hxi]
    rfl

/-- The loop that marks a range. -/
theorem setBlocksState_spec (h : Fields c) {steps : ℕ} (hn : b + i + steps ≤ c.numTotalBlocks)
    (hN : c.numTotalBlocks < 2 ^ 64) (hi : i + steps < 2 ^ 31) (hv : v < 2 ^ c.bitsPerBlock) :
    ∃ c', c.setBlocksState b v steps i = some c' ∧ Marks c (b + i) steps v c' := by
  induction steps generalizing c i with
  | zero =>
    refine ⟨c, rfl, SameShape.refl c, fun x _ => ?_⟩
    rw [if_neg (by omega)]
  | succ steps ih =>
    obtain ⟨c₁, hset, hmark⟩ := setBlock_spec h (show b + i < c.numTotalBlocks by omega) hv
    have htotal : c₁.numTotalBlocks = c.numTotalBlocks := by rw [hmark.shape.eq]
    have hbits : c₁.bitsPerBlock = c.bitsPerBlock := by rw [hmark.shape.eq]
    obtain ⟨c', hrest, hmarks⟩ := ih (c := c₁) (i := i + 1) (hmark.shape.fields h) (by omega)
      (by omega) (by omega) (by rwa [hbits])
    refine ⟨c', ?_, hmark.shape.trans hmarks.shape, fun x hx => ?_⟩
    · unfold setBlocksState
      rw [Nat.mod_eq_of_lt (by omega), hset]
      show (if i + 1 < 2 ^ 31 then _ else _) = _
      rw [if_pos (by omega)]
      exact hrest
    · rw [hmarks.state x (by omega), hmark.state x hx]
      split_ifs <;> omega

end Simbmap

end DssSdk.BlockAllocator
