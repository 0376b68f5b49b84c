import DssSdk.Layout.PhysicalSize
import Mathlib.Order.CompletePartialOrder

/-!
# The layout of a device without a super block

With persistence disabled the translator lays the device out itself: the meta region of the allocator
from block two on, then the usable blocks.

* `initLayout`: what `dss_kvtrans_process_internal_io` hands to `init_kvtrans_ctx`;
* `kvAssignBlock`: the block of a key hash;
* `LayoutOk`: the regions, and the place of every key hash in the usable one;
* `layoutOk_iff`: when the layout is as it should be.

The number of disk blocks is kept in 32 bits, and the number of usable blocks is reduced once more by
their offset before a hash is taken modulo it.
-/

namespace DssSdk.Layout

open BlockAllocator

/-- `DSS_DEFAULT_KV_META_START_OFFSET`. -/
def defaultKvMetaStartOffset : ℕ := 2

/-- `DEFAULT_BLOCK_STATE_NUM`. -/
def defaultBlockStateNum : ℕ := 9

/-- The fields of the parameters and the context that place blocks. -/
structure KvtLayout where
  totalBlocks : ℕ
  baMetaSzBlocks : ℕ
  logiBlkNum : ℕ
  blkAllocMetaStartOffset : ℕ
  blkOffset : ℕ
  hashSize : ℕ
  hashBitInUse : ℕ
deriving DecidableEq

/-- `_dss_calculate_default_ba_meta_sz_blocks`. -/
def calculateDefaultBaMetaSzBlocks (totalBlocks : ℕ) : Option ℕ :=
  (dssBlkAllocatorGetPhysicalSize ⟨totalBlocks, defaultBlockStateNum - 1, 0, 0⟩).map fun sz =>
    blocksOf sz blockSize

/-- The loop of `dec_2_bit`, with a step for each bit of its argument. -/
def dec2BitLoop : ℕ → ℕ → ℕ → ℕ
  | 0, _, bits => bits
  | steps + 1, decNum, bits => if 0 < decNum then dec2BitLoop steps (decNum / 2) (bits + 1) else bits

/-- `dec_2_bit`, on a `uint32_t`. -/
def dec2Bit (decNum : ℕ) : ℕ := dec2BitLoop 32 (decNum % 2 ^ 32) 0

/-- The branch of `dss_kvtrans_process_internal_io` without a super block, with the fields that
`init_kvtrans_ctx` derives. `disk_num_blks` has 32 bits. -/
def initLayout (numBlks diskBlkSz : ℕ) : Option KvtLayout := do
  if blockSize % diskBlkSz ≠ 0 then none
  else
    let totalBlocks := numBlks % 2 ^ 32 / (blockSize / diskBlkSz)
    let baMetaSzBlocks ← calculateDefaultBaMetaSzBlocks totalBlocks
    if baMetaSzBlocks + defaultKvMetaStartOffset < totalBlocks then
      let logiBlkNum := totalBlocks - baMetaSzBlocks - defaultKvMetaStartOffset
      some {
        totalBlocks := totalBlocks
        baMetaSzBlocks := baMetaSzBlocks
        logiBlkNum := logiBlkNum
        blkAllocMetaStartOffset := defaultKvMetaStartOffset
        blkOffset := baMetaSzBlocks + defaultKvMetaStartOffset
        hashSize := 32
        hashBitInUse := dec2Bit logiBlkNum }
    else none

/-- `kv_assign_block`. A shift by the width of the index and a division by zero are undefined. -/
def kvAssignBlock (l : KvtLayout) (index : ℕ) : Option ℕ :=
  let bitShift := (l.hashSize + 2 ^ 16 - l.hashBitInUse) % 2 ^ 16
  let modulus := (l.logiBlkNum + 2 ^ 64 - l.blkOffset) % 2 ^ 64
  if 64 ≤ bitShift then none
  else if modulus = 0 then none
  else some ((index / 2 ^ bitShift % modulus + l.blkOffset) % 2 ^ 64)

/-- The blocks of the meta region of the allocator. -/
def KvtLayout.metaRegion (l : KvtLayout) : Set ℕ :=
  Set.Ico l.blkAllocMetaStartOffset (l.blkAllocMetaStartOffset + l.baMetaSzBlocks)

/-- The usable blocks. -/
def KvtLayout.usableRegion (l : KvtLayout) : Set ℕ := Set.Ico l.blkOffset (l.blkOffset + l.logiBlkNum)

/-- The layout of a device of `numBlks` blocks: it has all whole blocks of the device, its regions are
disjoint and on the device, and every key hash has a usable block. -/
structure LayoutOk (numBlks diskBlkSz : ℕ) (l : KvtLayout) : Prop where
  total : l.totalBlocks = numBlks * diskBlkSz / blockSize
  disjoint : Disjoint l.metaRegion l.usableRegion
  metaInside : l.metaRegion ⊆ Set.Iio (numBlks * diskBlkSz / blockSize)
  usableInside : l.usableRegion ⊆ Set.Iio (numBlks * diskBlkSz / blockSize)
  assign : ∀ index < 2 ^ 64, ∃ b ∈ l.usableRegion, kvAssignBlock l index = some b

variable {numBlks diskBlkSz : ℕ} {l : KvtLayout}

/-! ### The computed layout -/

theorem dec2BitLoop_le (steps decNum bits : ℕ) : dec2BitLoop steps decNum bits ≤ bits + steps := by
  induction steps generalizing decNum bits with
  | zero => exact le_rfl
  | succ steps ih =>
    unfold dec2BitLoop
    split_ifs
    · have := ih (decNum / 2) (bits + 1)
      omega
    · omega

theorem dec2Bit_le (decNum : ℕ) : dec2Bit decNum ≤ 32 := by
  have := dec2BitLoop_le 32 (decNum % 2 ^ 32) 0
  rwa [Nat.zero_add] at this

/-- The meta region of the allocator in blocks. -/
def metaBlocks (totalBlocks : ℕ) : ℕ := blocksOf (physicalSize totalBlocks) blockSize

theorem calculateDefaultBaMetaSzBlocks_eq (totalBlocks : ℕ) :
    calculateDefaultBaMetaSzBlocks totalBlocks = some (metaBlocks totalBlocks) := by
  show some (blocksOf (8 * (List.replicate _ _).length) blockSize) = _
  rw [List.length_replicate]
  rfl

theorem initLayout_some (h : initLayout numBlks diskBlkSz = some l) :
    ∃ k, blockSize = k * diskBlkSz ∧ l.totalBlocks = numBlks % 2 ^ 32 / k ∧
      l.baMetaSzBlocks = metaBlocks l.totalBlocks ∧
      l.totalBlocks = l.logiBlkNum + (l.baMetaSzBlocks + 2) ∧ 0 < l.logiBlkNum ∧
      l.blkAllocMetaStartOffset = 2 ∧ l.blkOffset = l.baMetaSzBlocks + 2 ∧ l.hashSize = 32 ∧
      l.hashBitInUse = dec2Bit l.logiBlkNum := by
  unfold initLayout at h
  split_ifs at h with hmod
  rw [not_not] at hmod
  obtain ⟨k, hk⟩ := Nat.dvd_of_mod_eq_zero hmod
  have hsz : 0 < diskBlkSz := by
    rcases Nat.eq_zero_or_pos diskBlkSz with rfl | hpos
    · unfold blockSize at hk
      omega
    · exact hpos
  have hdiv : blockSize / diskBlkSz = k := by rw [hk, Nat.mul_div_cancel_left _ hsz]
  obtain ⟨sz, hsome, h⟩ := Option.bind_eq_some_iff.1 h
  rw [calculateDefaultBaMetaSzBlocks_eq, Option.some.injEq] at hsome
  subst hsome
  rw [hdiv] at h
  split_ifs at h with hlt
  cases h
  refine ⟨k, by rw [hk, Nat.mul_comm], rfl, rfl, ?_, ?_, rfl, rfl, rfl, rfl⟩
  all_goals
    unfold defaultKvMetaStartOffset at hlt ⊢
    dsimp only
    omega

theorem metaBlocks_le (totalBlocks : ℕ) : metaBlocks totalBlocks ≤ totalBlocks / 8192 + 1 := by
  unfold metaBlocks physicalSize blocksOf blockSize
  split_ifs <;> omega

theorem metaBlocks_pos {totalBlocks : ℕ} (h : 0 < totalBlocks) : 0 < metaBlocks totalBlocks :=
  blocksOf_pos (physicalSize_pos h) (by decide)

/-! ### The block of a key hash -/

theorem kvAssignBlock_mem {index : ℕ} (hlt : l.blkOffset < l.logiBlkNum)
    (hnum : l.blkOffset + l.logiBlkNum < 2 ^ 64) (hsize : l.hashSize = 32)
    (hbits : l.hashBitInUse ≤ 32) : ∃ b ∈ l.usableRegion, kvAssignBlock l index = some b := by
  have hshift : (l.hashSize + 2 ^ 16 - l.hashBitInUse) % 2 ^ 16 = 32 - l.hashBitInUse := by omega
  have hmod : (l.logiBlkNum + 2 ^ 64 - l.blkOffset) % 2 ^ 64 = l.logiBlkNum - l.blkOffset := by omega
  have hrem := Nat.mod_lt (index / 2 ^ (32 - l.hashBitInUse)) (show 0 < l.logiBlkNum - l.blkOffset by omega)
  unfold kvAssignBlock
  rw [hshift, hmod]
  dsimp only
  rw [if_neg (by omega), if_neg (by omega)]
  generalize index / 2 ^ (32 - l.hashBitInUse) % (l.logiBlkNum - l.blkOffset) = r at hrem
  refine ⟨_, ⟨?_, ?_⟩, rfl⟩ <;> omega

theorem exists_kvAssignBlock_not_mem (hle : l.logiBlkNum ≤ l.blkOffset) (hpos : 0 < l.logiBlkNum)
    (hnum : l.blkOffset < 2 ^ 32) (hsize : l.hashSize = 32) (hbits : l.hashBitInUse ≤ 32) :
    ∃ index < 2 ^ 64, ∀ b, kvAssignBlock l index = some b → b ∉ l.usableRegion := by
  have hshift : (l.hashSize + 2 ^ 16 - l.hashBitInUse) % 2 ^ 16 = 32 - l.hashBitInUse := by omega
  have hpow : 2 ^ (32 - l.hashBitInUse) ≤ 2 ^ 32 := Nat.pow_le_pow_right (by omega) (by omega)
  have hpow0 : 0 < 2 ^ (32 - l.hashBitInUse) := Nat.pow_pos (by omega)
  refine ⟨l.logiBlkNum * 2 ^ (32 - l.hashBitInUse), ?_, fun b hb hmem => ?_⟩
  · calc
      l.logiBlkNum * 2 ^ (32 - l.hashBitInUse) ≤ l.blkOffset * 2 ^ 32 := Nat.mul_le_mul hle hpow
      _ < 2 ^ 32 * 2 ^ 32 := Nat.mul_lt_mul_of_pos_right hnum (by omega)
  · unfold kvAssignBlock at hb
    rw [hshift] at hb
    dsimp only at hb
    rw [if_neg (by omega), Nat.mul_div_cancel _ hpow0] at hb
    split_ifs at hb with hzero
    rcases Nat.eq_or_lt_of_le hle with heq | hlt
    · rw [heq, Nat.add_sub_cancel_left, Nat.mod_self] at hzero
      exact hzero rfl
    · have hmod : (l.logiBlkNum + 2 ^ 64 - l.blkOffset) % 2 ^ 64 =
          l.logiBlkNum + 2 ^ 64 - l.blkOffset := by omega
      rw [hmod, Nat.mod_eq_of_lt (show l.logiBlkNum < l.logiBlkNum + 2 ^ 64 - l.blkOffset by omega)] at hb
      cases hb
      have := hmem.2
      omega

/-! ### The layout -/

/-- The device is laid out as it should be exactly when the number of its blocks fits in 32 bits and it
has at least seven blocks of the translator. -/
theorem layoutOk_iff (h : initLayout numBlks diskBlkSz = some l) :
    LayoutOk numBlks diskBlkSz l ↔ numBlks < 2 ^ 32 ∧ 7 ≤ numBlks * diskBlkSz / blockSize := by
  obtain ⟨k, hk, htotal, hmeta, hsum, hpos, hstart, hoff, hsize, hbits⟩ := initLayout_some h
  have hsz : 0 < diskBlkSz := by
    by_contra hzero
    rw [Nat.eq_zero_of_not_pos hzero, Nat.mul_zero] at hk
    unfold blockSize at hk
    omega
  have hkpos : 0 < k := by
    by_contra hzero
    rw [Nat.eq_zero_of_not_pos hzero, Nat.zero_mul] at hk
    unfold blockSize at hk
    omega
  have hwhole : numBlks * diskBlkSz / blockSize = numBlks / k := by
    rw [hk, Nat.mul_div_mul_right _ _ hsz]
  have hbits32 : l.hashBitInUse ≤ 32 := hbits.trans_le (dec2Bit_le _)
  have htotal_le : l.totalBlocks ≤ numBlks / k := by
    rw [htotal]
    exact Nat.div_le_div_right (Nat.mod_le _ _)
  have htotal32 : l.totalBlocks < 2 ^ 32 := by
    rw [htotal]
    exact lt_of_le_of_lt (Nat.div_le_self _ _) (Nat.mod_lt _ (by omega))
  have hmetale := metaBlocks_le l.totalBlocks
  have hmetapos : 0 < metaBlocks l.totalBlocks := metaBlocks_pos (by omega)
  rw [hwhole]
  constructor
  · intro hok
    have heq := hok.total
    rw [hwhole, htotal] at heq
    have hsmall : numBlks < 2 ^ 32 := by
      by_contra hge
      have hkle : k ≤ 2 ^ 32 := by
        have := Nat.le_mul_of_pos_right k hsz
        unfold blockSize at hk
        omega
      have hadd : numBlks % 2 ^ 32 + k ≤ numBlks := by
        have := Nat.mod_add_div numBlks (2 ^ 32)
        omega
      have hlt := Nat.div_le_div_right (c := k) hadd
      rw [Nat.add_div_right _ hkpos] at hlt
      omega
    refine ⟨hsmall, ?_⟩
    by_contra hfew
    rw [Nat.mod_eq_of_lt hsmall] at htotal
    obtain ⟨index, hindex, hbad⟩ := exists_kvAssignBlock_not_mem (l := l) (by omega) hpos (by omega)
      hsize hbits32
    obtain ⟨b, hb, hsome⟩ := hok.assign index hindex
    exact hbad b hsome hb
  · rintro ⟨hsmall, hmany⟩
    rw [Nat.mod_eq_of_lt hsmall] at htotal
    refine ⟨?_, ?_, ?_, ?_, fun index _ => kvAssignBlock_mem (by omega) (by omega) hsize hbits32⟩
    · rw [hwhole, htotal]
    · refine Set.disjoint_left.2 fun x hx hx' => ?_
      have h1 := hx.2
      have h2 := hx'.1
      omega
    · intro x hx
      have h1 := hx.2
      rw [hwhole, Set.mem_Iio]
      omega
    · intro x hx
      have h1 := hx.2
      rw [hwhole, Set.mem_Iio]
      omega

/-- A device of a thousand blocks of 512 bytes. -/
theorem layoutOk_small :
    ∃ l, initLayout 1000 512 = some l ∧
      (LayoutOk 1000 512 l ↔ 1000 < 2 ^ 32 ∧ 7 ≤ 1000 * 512 / blockSize) :=
  ⟨_, rfl, layoutOk_iff rfl⟩

/-- A device of `2 ^ 32 + 64` blocks of 512 bytes is laid out as one of sixty-four. -/
theorem not_layoutOk_large :
    ∃ l, initLayout (2 ^ 32 + 64) 512 = some l ∧ l.totalBlocks = 8 ∧
      ¬ LayoutOk (2 ^ 32 + 64) 512 l := by
  refine ⟨_, rfl, rfl, fun h => ?_⟩
  have htotal := h.total
  revert htotal
  decide

end DssSdk.Layout
