import DssSdk.BlockAllocator.BitmapDisk

/-!
# Sizes in blocks

`dss_blk_allocator_get_physical_size` tells how many bytes the bitmap of a device takes on disk. The
layouts round such sizes up to blocks.

* `blocksOf`, `roundUp`: a size in blocks, and in the bytes of these blocks;
* `dssBlkAllocatorGetPhysicalSize`, `physicalSize`: the size of the bitmap.
-/

namespace DssSdk.Layout

open BlockAllocator

/-- A number of bytes in blocks of `blkSz` bytes, with the one that is begun. -/
def blocksOf (bytes blkSz : ℕ) : ℕ := bytes / blkSz + if bytes % blkSz ≠ 0 then 1 else 0

/-- A number of bytes rounded up to blocks. -/
def roundUp (bytes blkSz : ℕ) : ℕ := blocksOf bytes blkSz * blkSz

/-- `get_physical_size` of `block_impresario`, on an allocator made for the purpose. With no state
there is none and the size is zero. -/
def dssBlkAllocatorGetPhysicalSize (config : Opts) : Option ℕ :=
  if config.numBlockStates = 0 then some 0
  else (BlockAllocator.init config).map fun q => 8 * q.data.length

/-- The bytes of a bitmap of whole words with four bits for each block. -/
def physicalSize (numTotalBlocks : ℕ) : ℕ := 8 * blocksOf numTotalBlocks 16

variable {bytes blkSz : ℕ}

theorem le_roundUp (h : 0 < blkSz) : bytes ≤ roundUp bytes blkSz := by
  have hdiv := Nat.div_add_mod' bytes blkSz
  have hlt := Nat.mod_lt bytes h
  unfold roundUp blocksOf
  rw [Nat.add_mul]
  split_ifs <;> omega

theorem roundUp_lt (h : 0 < blkSz) : roundUp bytes blkSz < bytes + blkSz := by
  have hdiv := Nat.div_add_mod' bytes blkSz
  unfold roundUp blocksOf
  rw [Nat.add_mul]
  split_ifs <;> omega

theorem blocksOf_pos (h : 0 < bytes) (hb : 0 < blkSz) : 0 < blocksOf bytes blkSz := by
  by_contra hzero
  have hle : bytes ≤ roundUp bytes blkSz := le_roundUp hb
  rw [roundUp, Nat.eq_zero_of_not_pos hzero, Nat.zero_mul] at hle
  omega

theorem blocksOf_eq_one_iff (h : 0 < bytes) (hb : 0 < blkSz) : blocksOf bytes blkSz = 1 ↔ bytes ≤ blkSz := by
  constructor
  · intro hone
    have hle : bytes ≤ roundUp bytes blkSz := le_roundUp hb
    rw [roundUp, hone] at hle
    omega
  · intro hle
    have hpos := blocksOf_pos h hb
    have hlt : roundUp bytes blkSz < bytes + blkSz := roundUp_lt hb
    by_contra hne
    have htwo := Nat.mul_le_mul_right blkSz (show 2 ≤ blocksOf bytes blkSz by omega)
    unfold roundUp at hlt
    omega

theorem dssBlkAllocatorGetPhysicalSize_eq {config : Opts} {n : ℕ}
    (h : dssBlkAllocatorGetPhysicalSize config = some n) (hn : n ≠ 0) :
    n = physicalSize config.numTotalBlocks := by
  unfold dssBlkAllocatorGetPhysicalSize at h
  split_ifs at h with hzero
  · cases h
    exact absurd rfl hn
  · unfold BlockAllocator.init at h
    rw [if_neg hzero] at h
    split_ifs at h with hle
    · cases h
      show 8 * (List.replicate _ _).length = _
      rw [List.length_replicate]
      rfl
    · cases h

theorem physicalSize_pos {numTotalBlocks : ℕ} (h : 0 < numTotalBlocks) : 0 < physicalSize numTotalBlocks :=
  Nat.mul_pos (by omega) (blocksOf_pos h (by omega))

end DssSdk.Layout
