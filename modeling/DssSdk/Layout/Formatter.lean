import DssSdk.Layout.PhysicalSize
import Mathlib.Order.Interval.Set.LinearOrder

/-!
# The formatter

`open_device` computes the boundaries of the super block, of the meta region of the allocator and of
the usable region, in physical and in logical blocks. `format_device` writes the super block and
zeroes the meta region.

* `openDevice`, `formatDevice`: the boundaries, the super block, and the requests to the device;
* `FormatOk`: the regions as a reader of the super block finds them;
* `formatOk_iff`: the block sizes and devices for which they are right.

The requests to the device go through a parameter, which refuses those outside it. The last block of
the meta region stands where the zeroing call takes a number of blocks.
-/

namespace DssSdk.Layout

open BlockAllocator

/-- `sizeof(dss_super_block_t)`. -/
def superBlockSize : ℕ := 4096

/-- `SUPER_BLOCK_START`. -/
def superBlockStart : ℕ := 0

/-- `Formatter`, with the boundaries in blocks; an end is the last block. -/
structure Formatter where
  physicalBlockSize : ℕ
  logicalBlockSize : ℕ
  superBlockPhysicalEndBlock : ℕ
  superBlockLogicalEndBlock : ℕ
  blockAllocMetaPhysicalStartBlock : ℕ
  blockAllocMetaLogicalStartBlock : ℕ
  blockAllocMetaPhysicalEndBlock : ℕ
  blockAllocMetaLogicalEndBlock : ℕ
  userPhysicalStartBlock : ℕ
  userLogicalStartBlock : ℕ
  userPhysicalEndBlock : ℕ
  userLogicalEndBlock : ℕ
deriving DecidableEq

/-- `open_device` for a device of `numBlocks` blocks of `physicalBlockSize` bytes. The bytes of the
device are computed in 64 bits; no other sum comes near them. -/
def openDevice (numBlocks physicalBlockSize logicalBlockSize numBlockStates : ℕ) :
    Option Formatter := do
  if physicalBlockSize = 0 ∨ logicalBlockSize = 0 then none
  else
    let totalNumLogicalBlocks := numBlocks * physicalBlockSize % 2 ^ 64 / logicalBlockSize
    let blockAllocatorMetaSize ←
      dssBlkAllocatorGetPhysicalSize ⟨totalNumLogicalBlocks, numBlockStates, 1, 0⟩
    if blockAllocatorMetaSize = 0 then none
    else
      let metaPhysicalNumBlocks := blocksOf blockAllocatorMetaSize physicalBlockSize
      let metaLogicalNumBlocks := blocksOf blockAllocatorMetaSize logicalBlockSize
      let superPhysicalEnd := superBlockStart + blocksOf superBlockSize physicalBlockSize - 1
      let superLogicalEnd := superBlockStart + blocksOf superBlockSize logicalBlockSize - 1
      let metaPhysicalEnd := superPhysicalEnd + 1 + metaPhysicalNumBlocks - 1
      let metaLogicalEnd := superLogicalEnd + 1 + metaLogicalNumBlocks - 1
      some {
        physicalBlockSize := physicalBlockSize
        logicalBlockSize := logicalBlockSize
        superBlockPhysicalEndBlock := superPhysicalEnd
        superBlockLogicalEndBlock := superLogicalEnd
        blockAllocMetaPhysicalStartBlock := superPhysicalEnd + 1
        blockAllocMetaLogicalStartBlock := superLogicalEnd + 1
        blockAllocMetaPhysicalEndBlock := metaPhysicalEnd
        blockAllocMetaLogicalEndBlock := metaLogicalEnd
        userPhysicalStartBlock := metaPhysicalEnd + 1
        userLogicalStartBlock := metaLogicalEnd + 1
        userPhysicalEndBlock := numBlocks - 1
        userLogicalEndBlock := totalNumLogicalBlocks - 1 }

/-- `dss_super_block_t`. -/
structure SuperBlock where
  phyBlkSizeInBytes : ℕ
  logiBlkSizeInBytes : ℕ
  logiUsableBlkStartAddr : ℕ
  logiUsableBlkEndAddr : ℕ
  logiBlkAllocMetaStartBlk : ℕ
  logiBlkAllocMetaEndBlk : ℕ
  isBlkAllocMetaLoadNeeded : ℕ
  logiSuperBlkStartAddr : ℕ
deriving DecidableEq

/-- What `format_device` does: the super block, and the first block and the number of blocks of the
write and of the zeroing. -/
structure Formatted where
  superBlock : SuperBlock
  write : ℕ × ℕ
  writeZeroes : ℕ × ℕ
deriving DecidableEq

/-- `format_device`, with the answer of the device to a request. The sizes of the super block have 32
bits. -/
def formatDevice (accepts : ℕ → ℕ → Bool) (f : Formatter) : Option Formatted :=
  let numBlocks := superBlockSize / f.physicalBlockSize
  let out : Formatted := {
    superBlock := {
      phyBlkSizeInBytes := f.physicalBlockSize % 2 ^ 32
      logiBlkSizeInBytes := f.logicalBlockSize % 2 ^ 32
      logiUsableBlkStartAddr := f.userLogicalStartBlock
      logiUsableBlkEndAddr := f.userLogicalEndBlock
      logiBlkAllocMetaStartBlk := f.blockAllocMetaLogicalStartBlock
      logiBlkAllocMetaEndBlk := f.blockAllocMetaLogicalEndBlock
      isBlkAllocMetaLoadNeeded := 0
      logiSuperBlkStartAddr := superBlockStart }
    write := (superBlockStart, numBlocks)
    writeZeroes := (f.blockAllocMetaPhysicalStartBlock, f.blockAllocMetaPhysicalEndBlock) }
  if accepts out.write.1 out.write.2 = false then none
  else if accepts out.writeZeroes.1 out.writeZeroes.2 = false then none
  else some out

/-! ### What a reader of the super block finds -/

/-- The bytes of the blocks from `first` to `last`. -/
def bytesOf (blkSz first last : ℕ) : Set ℕ := Set.Ico (first * blkSz) ((last + 1) * blkSz)

/-- The physical and the logical blocks are the same bytes. -/
def SameBytes (physBlkSz physFirst physLast logiBlkSz logiFirst logiLast : ℕ) : Prop :=
  physFirst * physBlkSz = logiFirst * logiBlkSz ∧ (physLast + 1) * physBlkSz = (logiLast + 1) * logiBlkSz

/-- The layout of a device of `size` bytes, for a reader of its super block: the three regions come in
order within the device, the meta region takes the bitmap of the usable blocks and is what has been
zeroed, and the physical boundaries are the logical ones. -/
structure FormatOk (size : ℕ) (f : Formatter) (out : Formatted) : Prop where
  superBefore : (f.superBlockLogicalEndBlock + 1) * out.superBlock.logiBlkSizeInBytes ≤
    out.superBlock.logiBlkAllocMetaStartBlk * out.superBlock.logiBlkSizeInBytes
  metaBefore : (out.superBlock.logiBlkAllocMetaEndBlk + 1) * out.superBlock.logiBlkSizeInBytes ≤
    out.superBlock.logiUsableBlkStartAddr * out.superBlock.logiBlkSizeInBytes
  usable : out.superBlock.logiUsableBlkStartAddr ≤ out.superBlock.logiUsableBlkEndAddr + 1
  inside : (out.superBlock.logiUsableBlkEndAddr + 1) * out.superBlock.logiBlkSizeInBytes ≤ size
  metaFits : physicalSize
      (out.superBlock.logiUsableBlkEndAddr + 1 - out.superBlock.logiUsableBlkStartAddr) ≤
    (out.superBlock.logiBlkAllocMetaEndBlk + 1 - out.superBlock.logiBlkAllocMetaStartBlk) *
      out.superBlock.logiBlkSizeInBytes
  superSame : SameBytes f.physicalBlockSize superBlockStart f.superBlockPhysicalEndBlock
    out.superBlock.logiBlkSizeInBytes out.superBlock.logiSuperBlkStartAddr f.superBlockLogicalEndBlock
  metaSame : SameBytes f.physicalBlockSize f.blockAllocMetaPhysicalStartBlock
    f.blockAllocMetaPhysicalEndBlock out.superBlock.logiBlkSizeInBytes
    out.superBlock.logiBlkAllocMetaStartBlk out.superBlock.logiBlkAllocMetaEndBlk
  usableSame : SameBytes f.physicalBlockSize f.userPhysicalStartBlock f.userPhysicalEndBlock
    out.superBlock.logiBlkSizeInBytes out.superBlock.logiUsableBlkStartAddr
    out.superBlock.logiUsableBlkEndAddr
  zeroed : Set.Ico (out.writeZeroes.1 * f.physicalBlockSize)
      ((out.writeZeroes.1 + out.writeZeroes.2) * f.physicalBlockSize) =
    bytesOf out.superBlock.logiBlkSizeInBytes out.superBlock.logiBlkAllocMetaStartBlk
      out.superBlock.logiBlkAllocMetaEndBlk

/-- The devices and block sizes that are formatted as they should be: the super block takes one
physical block, which is the super block in logical blocks as well; the bitmap takes the same bytes in
physical and in logical blocks; and the device has whole logical blocks and room for both. -/
structure FormatFits (numBlocks physicalBlockSize logicalBlockSize : ℕ) : Prop where
  addressable : numBlocks * physicalBlockSize < 2 ^ 64
  whole : logicalBlockSize ∣ numBlocks * physicalBlockSize
  superBlock : superBlockSize ≤ physicalBlockSize
  superRound : roundUp superBlockSize logicalBlockSize = physicalBlockSize
  metaRound : roundUp (physicalSize (numBlocks * physicalBlockSize / logicalBlockSize)) logicalBlockSize =
    roundUp (physicalSize (numBlocks * physicalBlockSize / logicalBlockSize)) physicalBlockSize
  room : physicalBlockSize +
    roundUp (physicalSize (numBlocks * physicalBlockSize / logicalBlockSize)) physicalBlockSize ≤
      numBlocks * physicalBlockSize

variable {numBlocks physicalBlockSize logicalBlockSize numBlockStates : ℕ} {f : Formatter}
  {out : Formatted} {accepts : ℕ → ℕ → Bool}

/-! ### The boundaries -/

/-- The numbers of blocks of the super block and of the meta region, physical and logical. -/
structure Sizes (p L sp sl mp ml T : ℕ) : Prop where
  phys : 0 < p
  log : 0 < L
  blocks : 0 < T
  superPhys : sp = blocksOf superBlockSize p
  superLog : sl = blocksOf superBlockSize L
  metaPhys : mp = blocksOf (physicalSize T) p
  metaLog : ml = blocksOf (physicalSize T) L

theorem Sizes.pos {p L sp sl mp ml T : ℕ} (h : Sizes p L sp sl mp ml T) :
    0 < sp ∧ 0 < sl ∧ 0 < mp ∧ 0 < ml := by
  rw [h.superPhys, h.superLog, h.metaPhys, h.metaLog]
  exact ⟨blocksOf_pos (by decide) h.phys, blocksOf_pos (by decide) h.log,
    blocksOf_pos (physicalSize_pos h.blocks) h.phys, blocksOf_pos (physicalSize_pos h.blocks) h.log⟩

/-- The boundaries from the numbers of blocks. -/
def boundaries (numBlocks p L sp sl mp ml T : ℕ) : Formatter where
  physicalBlockSize := p
  logicalBlockSize := L
  superBlockPhysicalEndBlock := sp - 1
  superBlockLogicalEndBlock := sl - 1
  blockAllocMetaPhysicalStartBlock := sp
  blockAllocMetaLogicalStartBlock := sl
  blockAllocMetaPhysicalEndBlock := sp + mp - 1
  blockAllocMetaLogicalEndBlock := sl + ml - 1
  userPhysicalStartBlock := sp + mp
  userLogicalStartBlock := sl + ml
  userPhysicalEndBlock := numBlocks - 1
  userLogicalEndBlock := T - 1

theorem openDevice_some
    (h : openDevice numBlocks physicalBlockSize logicalBlockSize numBlockStates = some f) :
    ∃ sp sl mp ml T, T = numBlocks * physicalBlockSize % 2 ^ 64 / logicalBlockSize ∧
      Sizes physicalBlockSize logicalBlockSize sp sl mp ml T ∧
      f = boundaries numBlocks physicalBlockSize logicalBlockSize sp sl mp ml T := by
  unfold openDevice at h
  split_ifs at h with hzero
  push Not at hzero
  obtain ⟨size, hsize, h⟩ := Option.bind_eq_some_iff.1 h
  dsimp only at h
  split_ifs at h with hempty
  have hphys := dssBlkAllocatorGetPhysicalSize_eq hsize hempty
  dsimp only at hphys
  generalize hT : numBlocks * physicalBlockSize % 2 ^ 64 / logicalBlockSize = T at hphys h
  have hsizes : Sizes physicalBlockSize logicalBlockSize (blocksOf superBlockSize physicalBlockSize)
      (blocksOf superBlockSize logicalBlockSize) (blocksOf (physicalSize T) physicalBlockSize)
      (blocksOf (physicalSize T) logicalBlockSize) T := by
    refine ⟨Nat.pos_of_ne_zero hzero.1, Nat.pos_of_ne_zero hzero.2, ?_, rfl, rfl, rfl, rfl⟩
    by_contra hnone
    rw [Nat.eq_zero_of_not_pos hnone] at hphys
    exact hempty hphys
  refine ⟨_, _, _, _, T, rfl, hsizes, ?_⟩
  obtain ⟨h1, h2, h3, h4⟩ := hsizes.pos
  rw [← hphys] at h3 h4 ⊢
  cases h
  rw [boundaries, Formatter.mk.injEq]
  unfold superBlockStart
  refine ⟨rfl, rfl, ?_, ?_, ?_, ?_, ?_, ?_, ?_, ?_, rfl, rfl⟩ <;> omega

theorem formatDevice_some (h : formatDevice accepts f = some out) :
    out = {
      superBlock := {
        phyBlkSizeInBytes := f.physicalBlockSize % 2 ^ 32
        logiBlkSizeInBytes := f.logicalBlockSize % 2 ^ 32
        logiUsableBlkStartAddr := f.userLogicalStartBlock
        logiUsableBlkEndAddr := f.userLogicalEndBlock
        logiBlkAllocMetaStartBlk := f.blockAllocMetaLogicalStartBlock
        logiBlkAllocMetaEndBlk := f.blockAllocMetaLogicalEndBlock
        isBlkAllocMetaLoadNeeded := 0
        logiSuperBlkStartAddr := superBlockStart }
      write := (superBlockStart, superBlockSize / f.physicalBlockSize)
      writeZeroes := (f.blockAllocMetaPhysicalStartBlock, f.blockAllocMetaPhysicalEndBlock) } := by
  unfold formatDevice at h
  dsimp only at h
  split_ifs at h
  exact (Option.some.inj h).symm

/-! ### The layout -/

theorem pred_add_one {n : ℕ} (h : 0 < n) : n - 1 + 1 = n := Nat.sub_add_cancel h

theorem zeroed_iff {p sp mp l sl ml : ℕ} (hp : 0 < p) (hsp : 0 < sp) (hmp : 0 < mp) (hml : 0 < ml)
    (hstart : sp * p = sl * l) (hend : (sp + mp) * p = (sl + ml) * l) :
    Set.Ico (sp * p) ((sp + (sp + mp - 1)) * p) = bytesOf l sl (sl + ml - 1) ↔ sp = 1 := by
  have hlt : sp * p < (sp + (sp + mp - 1)) * p := Nat.mul_lt_mul_of_pos_right (by omega) hp
  unfold bytesOf
  rw [Set.Ico_eq_Ico_iff (Or.inl hlt), pred_add_one (show 0 < sl + ml by omega), ← hstart, ← hend]
  constructor
  · rintro ⟨-, hcount⟩
    have := Nat.eq_of_mul_eq_mul_right hp hcount
    omega
  · rintro rfl
    exact ⟨rfl, by rw [show 1 + (1 + mp - 1) = 1 + mp by omega]⟩

theorem physicalSize_mono {n m : ℕ} (h : n ≤ m) : physicalSize n ≤ physicalSize m := by
  unfold physicalSize blocksOf
  split_ifs <;> omega

theorem formatFits_of_ok {p L sp sl mp ml T : ℕ} (hs : Sizes p L sp sl mp ml T)
    (hT : T = numBlocks * p % 2 ^ 64 / L) (hdev : 0 < numBlocks)
    (hout : formatDevice accepts (boundaries numBlocks p L sp sl mp ml T) = some out)
    (hok : FormatOk (numBlocks * p) (boundaries numBlocks p L sp sl mp ml T) out) :
    FormatFits numBlocks p L := by
  obtain ⟨hsp, hsl, hmp, hml⟩ := hs.pos
  have hout' := formatDevice_some hout
  subst hout'
  have hblocks := hs.blocks
  have hmeta := hok.metaSame
  have husable := hok.usableSame.2
  have hroom := hok.usable
  have hzero := hok.zeroed
  obtain ⟨hstart, hend⟩ := hmeta
  dsimp only [boundaries] at hstart hend husable hroom hzero
  rw [pred_add_one (show 0 < sp + mp by omega), pred_add_one (show 0 < sl + ml by omega)] at hend
  rw [pred_add_one hdev, pred_add_one hblocks] at husable
  rw [pred_add_one hblocks] at hroom
  have hone := (zeroed_iff hs.phys hsp hmp hml hstart hend).1 hzero
  subst hone
  have hTL : T * L ≤ numBlocks * p % 2 ^ 64 := by
    rw [hT]
    exact Nat.div_mul_le_self _ _
  have hmodle := Nat.mod_le (numBlocks * p) (2 ^ 64)
  -- the size of a logical block fits in the super block
  have hL : L % 2 ^ 32 = L := by
    have hle : T * L ≤ T * (L % 2 ^ 32) := by omega
    have := Nat.le_of_mul_le_mul_left hle hblocks
    have := Nat.mod_le L (2 ^ 32)
    omega
  rw [hL] at husable hstart hend
  have haddr : numBlocks * p % 2 ^ 64 = numBlocks * p := by omega
  have htotal : numBlocks * p / L = T := by rw [hT, haddr]
  have hmetaRound : mp * p = ml * L := by
    rw [Nat.add_mul, Nat.add_mul] at hend
    omega
  refine ⟨?_, ⟨T, by rw [husable, Nat.mul_comm]⟩, ?_, ?_, ?_, ?_⟩
  · rw [← haddr]
    exact Nat.mod_lt _ (by omega)
  · exact (blocksOf_eq_one_iff (by decide) hs.phys).1 hs.superPhys.symm
  · rw [roundUp, ← hs.superLog]
    omega
  · rw [htotal, roundUp, roundUp, ← hs.metaLog, ← hs.metaPhys, hmetaRound]
  · rw [htotal, roundUp, ← hs.metaPhys, husable]
    have := Nat.mul_le_mul_right L hroom
    rw [Nat.add_mul] at this hend
    omega

theorem ok_of_formatFits {p L sp sl mp ml T : ℕ} (hs : Sizes p L sp sl mp ml T)
    (hT : T = numBlocks * p % 2 ^ 64 / L) (hdev : 0 < numBlocks) (hp : p < 2 ^ 32)
    (hout : formatDevice accepts (boundaries numBlocks p L sp sl mp ml T) = some out)
    (hfits : FormatFits numBlocks p L) :
    FormatOk (numBlocks * p) (boundaries numBlocks p L sp sl mp ml T) out := by
  obtain ⟨hsp, hsl, hmp, hml⟩ := hs.pos
  obtain ⟨haddr, hwhole, hsuper, hsuperRound, hmetaRound, hroom⟩ := hfits
  have hout' := formatDevice_some hout
  subst hout'
  have hblocks := hs.blocks
  rw [Nat.mod_eq_of_lt haddr] at hT
  have hone : sp = 1 := by
    rw [hs.superPhys]
    exact (blocksOf_eq_one_iff (by decide) hs.phys).2 hsuper
  subst hone
  rw [← hT] at hmetaRound hroom
  have hstart : 1 * p = sl * L := by
    rw [Nat.one_mul, ← hsuperRound, roundUp, ← hs.superLog]
  have hmeta : mp * p = ml * L := by
    rw [roundUp, roundUp, ← hs.metaLog, ← hs.metaPhys] at hmetaRound
    exact hmetaRound.symm
  have hend : (1 + mp) * p = (sl + ml) * L := by rw [Nat.add_mul, Nat.add_mul, hstart, hmeta]
  have husable : numBlocks * p = T * L := by rw [hT, Nat.div_mul_cancel hwhole]
  have hL : L % 2 ^ 32 = L := by
    have := Nat.le_mul_of_pos_left L hsl
    exact Nat.mod_eq_of_lt (by omega)
  have hin : sl + ml ≤ T := by
    rw [roundUp, ← hs.metaPhys, husable, ← Nat.one_mul p, ← Nat.mul_assoc, Nat.mul_one, ← Nat.add_mul,
      hend] at hroom
    exact Nat.le_of_mul_le_mul_right hroom hs.log
  refine ⟨?_, ?_, ?_, ?_, ?_, ?_, ?_, ?_, ?_⟩
  all_goals simp only [boundaries, hL]
  · rw [pred_add_one hsl]
  · rw [pred_add_one (show 0 < sl + ml by omega)]
  · rw [pred_add_one hblocks]
    exact hin
  · rw [pred_add_one hblocks, husable]
  · rw [pred_add_one hblocks, pred_add_one (show 0 < sl + ml by omega), Nat.add_sub_cancel_left, hs.metaLog]
    exact (physicalSize_mono (Nat.sub_le _ _)).trans (le_roundUp hs.log)
  · refine ⟨by rw [superBlockStart, Nat.zero_mul, Nat.zero_mul], ?_⟩
    rw [pred_add_one hsl]
    exact hstart
  · refine ⟨hstart, ?_⟩
    rw [pred_add_one (show 0 < 1 + mp by omega), pred_add_one (show 0 < sl + ml by omega)]
    exact hend
  · refine ⟨hend, ?_⟩
    rw [pred_add_one hdev, pred_add_one hblocks]
    exact husable
  · exact (zeroed_iff hs.phys hsp hmp hml hstart hend).2 rfl

/-- A device that is formatted has the right layout exactly for these sizes. -/
theorem formatOk_iff (hp : physicalBlockSize < 2 ^ 32)
    (hopen : openDevice numBlocks physicalBlockSize logicalBlockSize numBlockStates = some f)
    (hformat : formatDevice accepts f = some out) :
    FormatOk (numBlocks * physicalBlockSize) f out ↔
      FormatFits numBlocks physicalBlockSize logicalBlockSize := by
  obtain ⟨sp, sl, mp, ml, T, hT, hs, rfl⟩ := openDevice_some hopen
  have hdev : 0 < numBlocks := by
    by_contra hnone
    have hblocks := hs.blocks
    rw [hT, Nat.eq_zero_of_not_pos hnone, Nat.zero_mul, Nat.zero_mod, Nat.zero_div] at hblocks
    omega
  exact ⟨formatFits_of_ok hs hT hdev hformat, ok_of_formatFits hs hT hdev hp hformat⟩

/-- A device of a thousand blocks of 4096 bytes. -/
theorem formatOk_small :
    ∃ f out, openDevice 1000 4096 4096 8 = some f ∧
      formatDevice (fun first n => decide (first + n ≤ 1000)) f = some out ∧
      (FormatOk (1000 * 4096) f out ↔ FormatFits 1000 4096 4096) := by
  refine ⟨_, _, rfl, rfl, ?_⟩
  apply formatOk_iff (by decide)
  · show openDevice 1000 4096 4096 8 = _
    rfl
  · show formatDevice (fun first n => decide (first + n ≤ 1000)) _ = _
    rfl

/-- With blocks of 512 bytes the super block takes eight, and the zeroing runs seven blocks beyond the
meta region. -/
theorem not_formatOk_smallBlocks :
    ∃ f out, openDevice 800 512 512 8 = some f ∧
      formatDevice (fun first n => decide (first + n ≤ 800)) f = some out ∧
      out.writeZeroes = (8, 8) ∧ f.blockAllocMetaPhysicalEndBlock = 8 ∧
      ¬ FormatOk (800 * 512) f out := by
  refine ⟨_, _, rfl, rfl, rfl, rfl, fun h => ?_⟩
  have hzero := h.zeroed
  unfold bytesOf at hzero
  rw [Set.Ico_eq_Ico_iff (Or.inl (by decide))] at hzero
  revert hzero
  decide

end DssSdk.Layout
