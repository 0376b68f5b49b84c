import DssSdk.BlockAllocator.Impresario

/-!
# The bitmap on disk

The bitmap is persisted in the drive blocks from `block_alloc_meta_start_offset_` on, in images of
whole words.

* `serializeDriveData` copies the words of a range of drive blocks out of `data_`;
* `translateMetaToDriveAddr` finds the drive blocks of a range of cells;
* `loadMetaFromDiskData` copies a chunk of the image back and replays it on the seek optimizer;
* `bootLoad` is the loop of the boot sequence over the chunks.

A copy that leaves `data_` is `none`, as a failed assertion is. `not_roundTrips` proves that the
boot sequence always makes one: for the chunk that holds the last word, `load_meta_from_disk_data`
copies one word more than is left.
-/

namespace DssSdk.BlockAllocator

open PackedCells JudySeekOptimizer

/-- `BITS_PER_BYTE`. -/
def bitsPerByte : ℕ := 8

/-- `BITS_PER_WORD`. -/
def bitsPerWord : ℕ := 64

/-- `BLOCK_SIZE`, the logical block size in bytes. -/
def blockSize : ℕ := 4096

/-- `BA_META_DISK_READ_SZ_MB`: the bytes of a chunk of the boot sequence. -/
def baMetaDiskReadSz : ℕ := 2097152

namespace QwordVector64Cell

/-- `serialize_range`: the `memcpy` out of `data_`. -/
def serializeRange (q : QwordVector64Cell) (qwordBegin numWords serializedLen : ℕ) :
    Option (List (BitVec 64)) :=
  if qwordBegin + numWords > q.data.length then none
  else if serializedLen ≠ numWords * 8 then none
  else some ((q.data.drop qwordBegin).take numWords)

/-- The first word and the number of words that `serialize_drive_data` copies for a range of drive
blocks, after its checks. -/
def driveDataRange (q : QwordVector64Cell)
    (driveBlkAddr driveNumBlocks driveSmallestBlockSize : ℕ) : Option (ℕ × ℕ) :=
  if driveBlkAddr < q.blockAllocMetaStartOffset then none
  else if driveBlkAddr + driveNumBlocks - 1 ≥ q.logicalStartBlockOffset then none
  else
    let dlbaWithOffset := driveBlkAddr - q.blockAllocMetaStartOffset
    let blockSizeBits := driveSmallestBlockSize * bitsPerByte
    let vectorStartIndex := blockSizeBits * dlbaWithOffset / bitsPerWord
    if blockSizeBits * dlbaWithOffset % bitsPerWord ≠ 0 then none
    else
      let serializedLen := driveNumBlocks * driveSmallestBlockSize
      let totalIndices := serializedLen * bitsPerByte / bitsPerWord
      if serializedLen * bitsPerByte % bitsPerWord ≠ 0 then none
      else some (vectorStartIndex, totalIndices)

/-- `serialize_drive_data`. -/
def serializeDriveData (q : QwordVector64Cell)
    (driveBlkAddr driveNumBlocks driveSmallestBlockSize : ℕ) : Option (List (BitVec 64)) := do
  let r ← q.driveDataRange driveBlkAddr driveNumBlocks driveSmallestBlockSize
  q.serializeRange r.1 r.2 (driveNumBlocks * driveSmallestBlockSize)

/-- `translate_meta_to_drive_lba`; the division by zero is a fault too. -/
def translateMetaToDriveLba (q : QwordVector64Cell) (metaLba lbSizeInBits : ℕ) : Option ℕ :=
  if q.logicalStartBlockOffset ≠ 0 ∧ metaLba < q.logicalStartBlockOffset then none
  else
    let lbaPerBlock := lbSizeInBits / q.bitsPerCell
    if lbaPerBlock = 0 then none
    else
      let metaLbaRead := (metaLba - q.logicalStartBlockOffset) / lbaPerBlock
      let driveBlkLba := q.blockAllocMetaStartOffset + metaLbaRead
      if driveBlkLba ≥ q.logicalStartBlockOffset then none
      else if driveBlkLba < q.blockAllocMetaStartOffset then none
      else some driveBlkLba

/-- `translate_meta_to_drive_addr`: the first drive block and the number of drive blocks. -/
def translateMetaToDriveAddr (q : QwordVector64Cell)
    (metaLba metaNumBlocks driveSmallestBlockSize logicalBlockSize : ℕ) : Option (ℕ × ℕ) :=
  let lbSizeInBits := logicalBlockSize * bitsPerByte
  if logicalBlockSize ≠ driveSmallestBlockSize then none
  else do
    let dlbaStart ← q.translateMetaToDriveLba metaLba lbSizeInBits
    let metaLbaEnd := metaLba + metaNumBlocks - 1
    let dlbaEnd ← q.translateMetaToDriveLba metaLbaEnd lbSizeInBits
    some (dlbaStart, dlbaEnd + 1 - dlbaStart)

/-- `deserialize_range`: `data_[i]` takes the next word of the buffer. -/
def deserializeRange (data : List (BitVec 64)) (i : ℕ) :
    ℕ → List (BitVec 64) → Option (List (BitVec 64))
  | 0, _ => some data
  | numWords + 1, w :: buf =>
      if i < data.length then deserializeRange (data.set i w) (i + 1) numWords buf else none
  | _ + 1, [] => none

/-- The loop of `load_meta_from_disk_data` that conveys the allocated cells to the optimizer. -/
def loadJso (q : QwordVector64Cell) (i : ℕ) : ℕ → Option QwordVector64Cell
  | 0 => some q
  | n + 1 => do
      let cellValue ← q.getCellValue i
      if cellValue ≠ blockStateFree then
        match ← q.jso.allocateLb i 1 with
        | none => none
        | some (actualAllocatedLb, jso) =>
            if i ≠ actualAllocatedLb then none else loadJso { q with jso := jso } (i + 1) n
      else q.loadJso (i + 1) n

/-- `load_meta_from_disk_data` on a buffer of whole words. -/
def loadMetaFromDiskData (q : QwordVector64Cell) (serializedData : List (BitVec 64))
    (diskReadOffset : ℕ) : Option QwordVector64Cell :=
  let serializedDataLen := serializedData.length * 8
  let beginWord := diskReadOffset * bitsPerByte / bitsPerWord
  let numWords := serializedDataLen * bitsPerByte / bitsPerWord
  let beginCell := beginWord * (bitsPerWord / q.bitsPerCell)
  let numCells := numWords * (bitsPerWord / q.bitsPerCell)
  if beginCell > q.cells - 1 then some q
  else
    let beginCell := beginCell + q.logicalStartBlockOffset
    let lastCell := beginCell + numCells - 1
    let lastCell :=
      if lastCell > q.logicalStartBlockOffset + q.cells - 1 then
        q.logicalStartBlockOffset + q.cells - 1
      else lastCell
    -- "make sure range is within the bitmap"
    let numWords :=
      if beginWord + numWords ≥ q.data.length then q.data.length - beginWord + 1 else numWords
    do
      let data ← deserializeRange q.data beginWord numWords serializedData
      loadJso { q with data := data } beginCell (lastCell + 1 - beginCell)

/-- The chunk number `it` of the words of the meta region. -/
def readChunk (disk : ℕ → BitVec 64) (it : ℕ) : List (BitVec 64) :=
  (List.range (baMetaDiskReadSz / 8)).map fun k => disk (it * (baMetaDiskReadSz / 8) + k)

/-- The state `DSS_KVT_LOADING_BA_META` of the boot sequence, from iteration `it` on. -/
def bootLoad (disk : ℕ → BitVec 64) (q : QwordVector64Cell) (it : ℕ) :
    ℕ → Option QwordVector64Cell
  | 0 => some q
  | n + 1 => do
      let q ← q.loadMetaFromDiskData (readChunk disk it) (it * baMetaDiskReadSz)
      bootLoad disk q (it + 1) n

/-- `ba_disk_read_total_it` for a meta region of `baMetaNumBlks` blocks. -/
def baDiskReadTotalIt (baMetaNumBlks : ℕ) : ℕ :=
  let baMetaSize := baMetaNumBlks * blockSize
  baMetaSize / baMetaDiskReadSz + if baMetaSize % baMetaDiskReadSz ≠ 0 then 1 else 0

/-- The drive blocks that hold the bitmap. -/
def bitmapDriveBlocks (q : QwordVector64Cell) : ℕ :=
  q.data.length * 8 / blockSize + if q.data.length * 8 % blockSize ≠ 0 then 1 else 0

/-- The image of the bitmap: its drive blocks, serialised one by one. -/
def serializeImage (q : QwordVector64Cell) : Option (List (BitVec 64)) :=
  ((List.range q.bitmapDriveBlocks).mapM fun d =>
    q.serializeDriveData (q.blockAllocMetaStartOffset + d) 1 blockSize).map List.flatten

/-! ### The drive blocks of a range of cells -/

section

variable {q : QwordVector64Cell}

theorem translateMetaToDriveLba_some {metaLba bits d : ℕ}
    (h : q.translateMetaToDriveLba metaLba bits = some d) :
    d = q.blockAllocMetaStartOffset +
      (metaLba - q.logicalStartBlockOffset) / (bits / q.bitsPerCell) := by
  unfold translateMetaToDriveLba at h
  dsimp only at h
  split_ifs at h
  cases h
  rfl

theorem translateMetaToDriveAddr_some {metaLba n bs lbs a k : ℕ}
    (h : q.translateMetaToDriveAddr metaLba n bs lbs = some (a, k)) :
    lbs = bs ∧
      a = q.blockAllocMetaStartOffset +
        (metaLba - q.logicalStartBlockOffset) / (bs * bitsPerByte / q.bitsPerCell) ∧
      k = q.blockAllocMetaStartOffset + (metaLba + n - 1 - q.logicalStartBlockOffset) /
        (bs * bitsPerByte / q.bitsPerCell) + 1 - a := by
  unfold translateMetaToDriveAddr at h
  dsimp only at h
  split_ifs at h with hne
  obtain rfl : lbs = bs := by simpa using hne
  obtain ⟨x, hx, h⟩ := Option.bind_eq_some_iff.1 h
  obtain ⟨y, hy, h⟩ := Option.bind_eq_some_iff.1 h
  cases h
  rw [← translateMetaToDriveLba_some hx, ← translateMetaToDriveLba_some hy]
  exact ⟨rfl, rfl, rfl⟩

theorem translateMetaToDriveAddr_pos {metaLba n bs lbs a k : ℕ} (hn : 0 < n)
    (h : q.translateMetaToDriveAddr metaLba n bs lbs = some (a, k)) : 0 < k := by
  obtain ⟨-, ha, hk⟩ := translateMetaToDriveAddr_some h
  have hle : (metaLba - q.logicalStartBlockOffset) / (bs * bitsPerByte / q.bitsPerCell) ≤
      (metaLba + n - 1 - q.logicalStartBlockOffset) / (bs * bitsPerByte / q.bitsPerCell) :=
    Nat.div_le_div_right (by omega)
  omega

end

/-! ### The boot sequence leaves the vector -/

section

variable {q : QwordVector64Cell}

theorem deserializeRange_some {data data' : List (BitVec 64)} {i n : ℕ} {buf : List (BitVec 64)}
    (h : deserializeRange data i n buf = some data') :
    data'.length = data.length ∧ (0 < n → i + n ≤ data.length) := by
  induction n generalizing data i buf with
  | zero =>
    unfold deserializeRange at h
    cases h
    exact ⟨rfl, fun h => absurd h (lt_irrefl 0)⟩
  | succ n ih =>
    cases buf with
    | nil => cases h
    | cons w buf =>
      unfold deserializeRange at h
      split_ifs at h with hi
      obtain ⟨hlen, hle⟩ := ih h
      rw [List.length_set] at hlen hle
      refine ⟨hlen, fun _ => ?_⟩
      rcases Nat.eq_zero_or_pos n with rfl | hn
      · omega
      · have := hle hn
        omega

theorem loadJso_frame {i n : ℕ} {q' : QwordVector64Cell} (h : q.loadJso i n = some q') :
    q' = { q with jso := q'.jso } := by
  induction n generalizing q i with
  | zero =>
    cases h
    rfl
  | succ n ih =>
    unfold loadJso at h
    obtain ⟨v, -, h⟩ := Option.bind_eq_some_iff.1 h
    split_ifs at h with hv
    · obtain ⟨r, -, h⟩ := Option.bind_eq_some_iff.1 h
      cases r with
      | none => cases h
      | some r =>
        dsimp only at h
        split_ifs at h with hlb
        rw [ih h]
    · exact ih h

theorem loadMetaFromDiskData_frame {buf : List (BitVec 64)} {off : ℕ} {q' : QwordVector64Cell}
    (h : q.loadMetaFromDiskData buf off = some q') :
    q'.cells = q.cells ∧ q'.bitsPerCell = q.bitsPerCell ∧ q'.data.length = q.data.length := by
  unfold loadMetaFromDiskData at h
  dsimp only at h
  split_ifs at h with hout
  · cases h
    exact ⟨rfl, rfl, rfl⟩
  all_goals
    obtain ⟨data, hd, h⟩ := Option.bind_eq_some_iff.1 h
    have hq := loadJso_frame h
    rw [hq]
    exact ⟨rfl, rfl, (deserializeRange_some hd).1⟩

theorem loadMetaFromDiskData_last (buf : List (BitVec 64)) {off : ℕ}
    (hin : ¬ off * bitsPerByte / bitsPerWord * (bitsPerWord / q.bitsPerCell) > q.cells - 1)
    (hlast : off * bitsPerByte / bitsPerWord + buf.length * 8 * bitsPerByte / bitsPerWord ≥
      q.data.length) (hle : off * bitsPerByte / bitsPerWord ≤ q.data.length) :
    q.loadMetaFromDiskData buf off = none := by
  unfold loadMetaFromDiskData
  dsimp only
  rw [if_neg hin, if_pos hlast]
  cases hd : deserializeRange q.data (off * bitsPerByte / bitsPerWord)
      (q.data.length - off * bitsPerByte / bitsPerWord + 1) buf with
  | none => rfl
  | some data =>
    have := (deserializeRange_some hd).2 (Nat.succ_pos _)
    omega

theorem bootLoad_eq_none (disk : ℕ → BitVec 64) (hq : Shape q) (hcells : 0 < q.cells) (n : ℕ)
    {it : ℕ} (hit : it * (baMetaDiskReadSz / 8) < q.data.length)
    (hn : q.data.length ≤ (it + n) * (baMetaDiskReadSz / 8)) :
    bootLoad disk q it n = none := by
  have hwords : baMetaDiskReadSz / 8 = 262144 := rfl
  rw [hwords] at hit hn
  induction n generalizing q it with
  | zero => omega
  | succ n ih =>
    have hsize := hq.size
    unfold totalQwords cellsPerWord at hsize
    have hoff : it * baMetaDiskReadSz * bitsPerByte / bitsPerWord = it * 262144 := by
      unfold baMetaDiskReadSz bitsPerByte bitsPerWord
      omega
    have hbuf : (readChunk disk it).length * 8 * bitsPerByte / bitsPerWord = 262144 := by
      unfold readChunk
      rw [List.length_map, List.length_range, hwords]
      rfl
    have hin : ¬ it * baMetaDiskReadSz * bitsPerByte / bitsPerWord *
        (bitsPerWord / q.bitsPerCell) > q.cells - 1 := by
      rw [hoff, hq.bits]
      change ¬ it * 262144 * 16 > q.cells - 1
      split_ifs at hsize <;> omega
    unfold bootLoad
    cases hl : q.loadMetaFromDiskData (readChunk disk it) (it * baMetaDiskReadSz) with
    | none => rfl
    | some q' =>
      obtain ⟨hc', hb', hlen'⟩ := loadMetaFromDiskData_frame hl
      have hmore : (it + 1) * 262144 < q.data.length := by
        by_contra hc
        have := loadMetaFromDiskData_last (readChunk disk it) hin
          (by rw [hoff, hbuf]; omega) (by rw [hoff]; omega)
        rw [this] at hl
        cases hl
      exact ih ⟨hb'.trans hq.bits, by rw [hlen', hq.size, hc']⟩ (hc' ▸ hcells)
        (by rw [hlen']; exact hmore)
        (by rw [hlen', show it + 1 + n = it + (n + 1) by ring]; exact hn)

end

/-- The bitmap of `q`, written to its drive blocks and loaded at the next boot of an allocator with
the same options, comes back: every copy stays in the vector, the cells are the same and so are
the free blocks. The rest of the meta region holds `rest`. -/
def RoundTrips (config : Opts) (baMetaNumBlks : ℕ) (rest : ℕ → BitVec 64)
    (q : QwordVector64Cell) : Prop :=
  ∃ image q₀ q', q.serializeImage = some image ∧ init config = some q₀ ∧
    bootLoad (fun k => image[k]?.getD (rest k)) q₀ 0 (baDiskReadTotalIt baMetaNumBlks + 1) =
      some q' ∧
    (∀ b, q.OnDevice b 1 → q'.cellOf b = q.cellOf b) ∧
    ∀ b, FreeAt q'.jso b ↔ FreeAt q.jso b

/-- The meta region holds the whole bitmap. -/
def MetaFits (config : Opts) (baMetaNumBlks : ℕ) : Prop :=
  totalQwords config.numTotalBlocks 4 * 8 ≤ baMetaNumBlks * blockSize

theorem bootLoad_init_eq_none {config : Opts} {q₀ : QwordVector64Cell}
    (hq₀ : init config = some q₀) (hblocks : 0 < config.numTotalBlocks) {baMetaNumBlks : ℕ}
    (hfits : MetaFits config baMetaNumBlks) (disk : ℕ → BitVec 64) :
    bootLoad disk q₀ 0 (baDiskReadTotalIt baMetaNumBlks + 1) = none := by
  unfold init at hq₀
  split_ifs at hq₀
  cases hq₀
  have hlen : (mk' (JudySeekOptimizer.init config.numTotalBlocks config.logicalStartBlockOffset)
      config.numTotalBlocks 4 (config.numBlockStates + 1) config.blockAllocMetaStartOffset
      config.logicalStartBlockOffset).data.length = totalQwords config.numTotalBlocks 4 :=
    List.length_replicate
  have hpos : 0 < totalQwords config.numTotalBlocks 4 := by
    unfold totalQwords cellsPerWord
    split_ifs <;> omega
  refine bootLoad_eq_none disk ⟨rfl, hlen⟩ hblocks _ (by rw [hlen]; omega) ?_
  rw [hlen]
  unfold MetaFits blockSize at hfits
  unfold baDiskReadTotalIt blockSize baMetaDiskReadSz
  dsimp only
  split_ifs <;> omega

/-- No bitmap of any reachable allocator survives a boot. -/
theorem not_roundTrips {config : Opts} {c c' : Context} {calls : List Context.Call}
    (_ : dssBlkAllocatorInit config = some c) (_ : Run.run Context.step c calls = some c')
    (hblocks : 0 < config.numTotalBlocks) {baMetaNumBlks : ℕ}
    (hfits : MetaFits config baMetaNumBlks) (rest : ℕ → BitVec 64) :
    ¬ RoundTrips config baMetaNumBlks rest c'.alloc := by
  rintro ⟨image, q₀, q', -, hq₀, hboot, -, -⟩
  rw [bootLoad_init_eq_none hq₀ hblocks hfits] at hboot
  cases hboot

/-- A device whose bitmap fills one drive block. -/
def oneBitmapBlock : Opts := ⟨8192, 8, 3, 2⟩

/-- Four blocks are taken, one changes its state and two are freed. -/
def fewCalls : List Context.Call :=
  [.allocBlocksContig 2 10 4 true, .setBlocksState 11 1 5, .clearBlocks 12 2]

theorem not_roundTrips_oneBitmapBlock :
    ∃ c c', dssBlkAllocatorInit oneBitmapBlock = some c ∧ Run.run Context.step c fewCalls = some c' ∧
      [10, 11, 12, 13].map c'.alloc.cellOf = [2, 5, 0, 0] ∧
      ¬ RoundTrips oneBitmapBlock 1 (fun _ => 0) c'.alloc := by
  have hcells : ((dssBlkAllocatorInit oneBitmapBlock).bind fun c =>
      (Run.run Context.step c fewCalls).map fun c' => [10, 11, 12, 13].map c'.alloc.cellOf) =
      some [2, 5, 0, 0] := by
    decide +kernel
  obtain ⟨c, hc, hrun⟩ := Option.bind_eq_some_iff.1 hcells
  obtain ⟨c', hc', hcell⟩ := Option.map_eq_some_iff.1 hrun
  exact ⟨c, c', hc, hc', hcell, not_roundTrips hc hc' (by decide) (by unfold MetaFits; decide) _⟩

/-- The bitmap of a fresh device does not survive a boot. -/
theorem not_forall_roundTrips :
    ¬ ∀ (config : Opts) (c c' : Context) (calls : List Context.Call) (baMetaNumBlks : ℕ)
      (rest : ℕ → BitVec 64), dssBlkAllocatorInit config = some c →
      Run.run Context.step c calls = some c' → 0 < config.numTotalBlocks →
      MetaFits config baMetaNumBlks → RoundTrips config baMetaNumBlks rest c'.alloc := by
  intro h
  obtain ⟨image, q₀, q', -, hq₀, hboot, -, -⟩ :=
    h oneBitmapBlock _ _ [] 1 (fun _ => 0) rfl rfl (by decide) (by unfold MetaFits; decide)
  rw [bootLoad_init_eq_none hq₀ (by decide) (by unfold MetaFits; decide)] at hboot
  cases hboot

end QwordVector64Cell

end DssSdk.BlockAllocator
