import DssSdk.BlockAllocator.SeekInvariant
import DssSdk.BlockAllocator.Bitmap
import DssSdk.Lib.Run

/-!
# The representation invariant of the block allocator

`RepInv` ties the three views of the free space together: the chunks of the seek optimizer, its
counters, and the cells of the bitmap. Each interface call keeps it (`setBlocksState_spec`,
`clearBlocks_spec`, `allocBlocksContig_spec`), and so does every run of calls.

A cell has four bits and `init` accepts sixteen states beside the cleared one, so the last of them
is stored as the cleared state: the invariant needs at most fifteen.
-/

namespace DssSdk.BlockAllocator

open PackedCells JudySeekOptimizer

namespace QwordVector64Cell

/-- The blocks `b, …, b + n - 1` have a cell. -/
def OnDevice (q : QwordVector64Cell) (b n : ℕ) : Prop :=
  q.logicalStartBlockOffset ≤ b ∧ b + n ≤ q.logicalStartBlockOffset + q.cells

/-- The value of the cell of a block. -/
def cellOf (q : QwordVector64Cell) (b : ℕ) : ℕ :=
  (cellAt q.bitsPerCell q.data (b - q.logicalStartBlockOffset)).toNat

/-- The bitmap has four bits for each block and a word for each cell. -/
structure Shape (q : QwordVector64Cell) : Prop where
  bits : q.bitsPerCell = 4
  size : q.data.length = totalQwords q.cells 4

/-- `q'` is `q` with the cells of the blocks `b, …, b + n - 1` set to `v`. -/
structure CellsSet (q : QwordVector64Cell) (b n v : ℕ) (q' : QwordVector64Cell) : Prop where
  eq : q' = { q with data := q'.data }
  length : q'.data.length = q.data.length
  cell : ∀ x, q.logicalStartBlockOffset ≤ x →
    q'.cellOf x = if b ≤ x ∧ x < b + n then v % 16 else q.cellOf x

section

variable {q : QwordVector64Cell}

theorem Shape.index_lt (hq : Shape q) {b : ℕ} (hb : q.OnDevice b 1) :
    (b - q.logicalStartBlockOffset) / cellsPerWord q.bitsPerCell < q.data.length := by
  obtain ⟨h1, h2⟩ := hb
  rw [hq.size, hq.bits]
  unfold totalQwords
  change _ / 16 < q.cells / 16 + if q.cells % 16 ≠ 0 then 1 else 0
  split_ifs <;> omega

theorem getCellValue_spec (hq : Shape q) {b : ℕ} (hb : q.OnDevice b 1) :
    q.getCellValue b = some (q.cellOf b) := by
  unfold getCellValue
  rw [if_neg (by have := hb.1; omega)]
  dsimp only
  rw [if_pos (hq.index_lt hb)]
  rfl

theorem setCell_spec (hq : Shape q) {b : ℕ} (hb : q.OnDevice b 1) (v : ℕ) :
    ∃ q', q.setCell b v = some q' ∧ CellsSet q b 1 v q' := by
  unfold setCell
  rw [if_neg (by have := hb.1; omega)]
  dsimp only
  rw [if_pos (hq.index_lt hb)]
  refine ⟨_, rfl, rfl, length_setCellAt _ _ _, fun x hx => ?_⟩
  have hb0 := hb.1
  unfold cellOf
  dsimp only
  rw [cellAt_setCellAt (by rw [hq.bits]; norm_num) (by rw [hq.bits]; norm_num) (hq.index_lt hb)]
  have hiff : x - q.logicalStartBlockOffset = b - q.logicalStartBlockOffset ↔
      b ≤ x ∧ x < b + 1 := by omega
  by_cases hxb : b ≤ x ∧ x < b + 1
  · rw [if_pos (hiff.2 hxb), if_pos hxb, toNat_and_flag (by rw [hq.bits]; norm_num), hq.bits,
      BitVec.toNat_ofNat]
    omega
  · rw [if_neg (fun h => hxb (hiff.1 h)), if_neg hxb]

theorem CellsSet.shape {b n v : ℕ} {q' : QwordVector64Cell} (h : CellsSet q b n v q')
    (hq : Shape q) : Shape q' := by
  have hcells : q'.cells = q.cells := by rw [h.eq]
  have hbits : q'.bitsPerCell = q.bitsPerCell := by rw [h.eq]
  exact ⟨hbits.trans hq.bits, by rw [h.length, hq.size, hcells]⟩

/-- The loop of `set_cell` calls. -/
theorem setCells_spec (hq : Shape q) {b n : ℕ} (hb : q.OnDevice b n) (v : ℕ) :
    ∃ q', q.setCells b n v = some q' ∧ CellsSet q b n v q' := by
  induction n generalizing q b with
  | zero =>
    refine ⟨q, rfl, rfl, rfl, fun x _ => ?_⟩
    rw [if_neg (by omega)]
  | succ n ih =>
    obtain ⟨h1, h2⟩ := hb
    obtain ⟨q₁, hq₁, hs₁⟩ := setCell_spec hq (b := b) ⟨h1, by omega⟩ v
    have hoff : q₁.logicalStartBlockOffset = q.logicalStartBlockOffset := by rw [hs₁.eq]
    have hcells : q₁.cells = q.cells := by rw [hs₁.eq]
    obtain ⟨q', hq', hs'⟩ := ih (hs₁.shape hq) (b := b + 1) ⟨by omega, by omega⟩
    refine ⟨q', ?_, ?_, hs'.length.trans hs₁.length, fun x hx => ?_⟩
    · unfold setCells
      rw [hq₁]
      exact hq'
    · rw [hs'.eq, hs₁.eq]
    · rw [hs'.cell x (by omega), hs₁.cell x hx]
      split_ifs <;> omega

end

end QwordVector64Cell

namespace Context

open QwordVector64Cell

/-- The representation invariant: the chunks are well formed and counted, and a block is in a
free chunk exactly when its cell is zero. -/
structure RepInv (c : Context) : Prop where
  seek : SeekInv c.alloc.jso
  free : ∀ b, c.alloc.OnDevice b 1 → (FreeAt c.alloc.jso b ↔ c.alloc.cellOf b = blockStateFree)

/-- The parameters of the instance are those of the options. -/
structure Agrees (c : Context) : Prop where
  shape : Shape c.alloc
  cells : c.alloc.cells = c.opts.numTotalBlocks
  offset : c.alloc.logicalStartBlockOffset = c.opts.logicalStartBlockOffset
  states : c.alloc.numBlockStates = c.opts.numBlockStates + 1
  jsoBlocks : c.alloc.jso.totalBlocks = c.opts.numTotalBlocks
  jsoOffset : c.alloc.jso.logicalStartBlockOffset = c.opts.logicalStartBlockOffset

/-- The options describe a device: it has a block, its blocks have 64-bit numbers, and its states
fit in a cell. -/
structure ValidOpts (o : Opts) : Prop where
  blocks : 0 < o.numTotalBlocks
  addressable : o.numTotalBlocks + o.logicalStartBlockOffset < 2 ^ 64
  states : o.numBlockStates ≤ 15

/-- The invariant that the calls keep. -/
structure Inv (c : Context) : Prop where
  opts : ValidOpts c.opts
  agrees : Agrees c
  rep : RepInv c

/-- The representation invariant on a device with a block and 64-bit block numbers. -/
structure Managed (c : Context) : Prop where
  blocks : 0 < c.opts.numTotalBlocks
  addressable : c.opts.numTotalBlocks + c.opts.logicalStartBlockOffset < 2 ^ 64
  agrees : Agrees c
  rep : RepInv c

theorem Inv.managed {c : Context} (hc : Inv c) : Managed c :=
  ⟨hc.opts.blocks, hc.opts.addressable, hc.agrees, hc.rep⟩

/-- `c'` is `c` with the blocks `b, …, b + n - 1` in the state `v`. -/
structure Updated (c : Context) (b n v : ℕ) (c' : Context) : Prop where
  inv : Inv c'
  opts : c'.opts = c.opts
  cell : ∀ x, c.alloc.logicalStartBlockOffset ≤ x →
    c'.alloc.cellOf x = if b ≤ x ∧ x < b + n then v else c.alloc.cellOf x

section

variable {c : Context}

theorem isBlockIndexValid_iff (hc : Agrees c) {b : ℕ} :
    c.isBlockIndexValid b = true ↔ c.alloc.OnDevice b 1 := by
  unfold isBlockIndexValid OnDevice
  rw [decide_eq_true_iff, hc.offset, hc.cells]
  omega

theorem isBlockRangeValid_iff (hc : Managed c) {b n : ℕ} (hn : n < 2 ^ 64) :
    c.isBlockRangeValid b n = true ↔ 0 < n ∧ c.alloc.OnDevice b n := by
  have ha := hc.addressable
  have ht := hc.blocks
  unfold isBlockRangeValid OnDevice
  rw [hc.agrees.offset, hc.agrees.cells]
  dsimp only
  rw [decide_eq_true_iff]
  constructor
  · rintro ⟨h1, h2, h3, h4⟩
    omega
  · rintro ⟨h1, h2, h3⟩
    omega

/-- Every block outside the range keeps its place in the optimizer, every block inside changes
it; so the bitmap and the optimizer stay together. -/
theorem Managed.update (hc : Managed c) {b n v : ℕ} {jso : JudySeekOptimizer}
    {q : QwordVector64Cell} (hset : CellsSet { c.alloc with jso := jso } b n v q)
    (hj : SeekInv jso) (hblocks : jso.totalBlocks = c.opts.numTotalBlocks)
    (hoffset : jso.logicalStartBlockOffset = c.opts.logicalStartBlockOffset)
    (hin : ∀ x, b ≤ x → x < b + n → (FreeAt jso x ↔ v % 16 = blockStateFree))
    (hout : ∀ x, ¬ (b ≤ x ∧ x < b + n) → (FreeAt jso x ↔ FreeAt c.alloc.jso x)) :
    Managed { c with alloc := q } := by
  have hcells : q.cells = c.alloc.cells := by rw [hset.eq]
  have hoff : q.logicalStartBlockOffset = c.alloc.logicalStartBlockOffset := by rw [hset.eq]
  have hstates : q.numBlockStates = c.alloc.numBlockStates := by rw [hset.eq]
  have hjso : q.jso = jso := by rw [hset.eq]
  refine ⟨hc.blocks, hc.addressable,
    ⟨hset.shape ⟨hc.agrees.shape.bits, hc.agrees.shape.size⟩, ?_, ?_, ?_, ?_, ?_⟩,
    ⟨?_, fun x hx => ?_⟩⟩
  · exact hcells.trans hc.agrees.cells
  · exact hoff.trans hc.agrees.offset
  · exact hstates.trans hc.agrees.states
  · change q.jso.totalBlocks = _
    rw [hjso, hblocks]
  · change q.jso.logicalStartBlockOffset = _
    rw [hjso, hoffset]
  · change SeekInv q.jso
    rw [hjso]
    exact hj
  · obtain ⟨hx1, hx2⟩ := hx
    change FreeAt q.jso x ↔ q.cellOf x = blockStateFree
    change q.logicalStartBlockOffset ≤ x at hx1
    change x + 1 ≤ q.logicalStartBlockOffset + q.cells at hx2
    rw [hjso, hset.cell x (by rw [← hoff]; exact hx1)]
    split_ifs with h
    · exact hin x h.1 h.2
    · rw [hout x h]
      exact hc.rep.free x ⟨by omega, by omega⟩

/-- The same for a state that fits in a cell. -/
theorem Inv.update (hc : Inv c) {b n v : ℕ} {jso : JudySeekOptimizer} {q : QwordVector64Cell}
    (hset : CellsSet { c.alloc with jso := jso } b n v q) (hv : v ≤ 15) (hj : SeekInv jso)
    (hblocks : jso.totalBlocks = c.opts.numTotalBlocks)
    (hoffset : jso.logicalStartBlockOffset = c.opts.logicalStartBlockOffset)
    (hin : ∀ x, b ≤ x → x < b + n → (FreeAt jso x ↔ v = blockStateFree))
    (hout : ∀ x, ¬ (b ≤ x ∧ x < b + n) → (FreeAt jso x ↔ FreeAt c.alloc.jso x)) :
    Updated c b n v { c with alloc := q } := by
  have hmod : v % 16 = v := Nat.mod_eq_of_lt (by omega)
  have hm := hc.managed.update hset hj hblocks hoffset (by rw [hmod]; exact hin) hout
  refine ⟨⟨hc.opts, hm.agrees, hm.rep⟩, rfl, fun x hx => ?_⟩
  have hcell := hset.cell x hx
  rw [hmod] at hcell
  exact hcell

theorem Managed.onDevice_of_freeAt (hc : Managed c) {b n : ℕ} (hn : 0 < n)
    (h : ∀ x, b ≤ x → x < b + n → FreeAt c.alloc.jso x) : c.alloc.OnDevice b n := by
  obtain ⟨l, m, hm, h1, h2⟩ := h b le_rfl (by omega)
  obtain ⟨l', m', hm', h1', h2'⟩ := h (b + n - 1) (by omega) (by omega)
  have hlo := hc.rep.seek.chunks.lower hm
  have hhi := hc.rep.seek.chunks.upper hm'
  have e1 := hc.agrees.jsoOffset
  have e2 := hc.agrees.offset
  have e3 := hc.agrees.jsoBlocks
  have e4 := hc.agrees.cells
  exact ⟨by omega, by omega⟩

/-- `set_blocks_state` of the instance on one block of the device. -/
theorem setBlocksState_instance (hc : Inv c) {b v : ℕ} (hon : c.alloc.OnDevice b 1) (hpos : 0 < v)
    (hle : v ≤ c.opts.numBlockStates) :
    ∃ o : Outcome, c.alloc.setBlocksState b 1 v = some o ∧ o.status = .success ∧
      o.dirty = some (b, 1) ∧ Updated c b 1 v { c with alloc := o.alloc } := by
  have hv0 : v ≠ blockStateFree := Nat.pos_iff_ne_zero.1 hpos
  have hstates := hc.agrees.states
  have h15 := hc.opts.states
  unfold QwordVector64Cell.setBlocksState bmapLastCellId
  obtain ⟨h1, h2⟩ := hon
  rw [if_neg (by simp), if_neg hv0, if_neg (by omega), if_neg (by omega),
    getCellValue_spec hc.agrees.shape ⟨h1, h2⟩]
  simp only [Option.bind_eq_bind, Option.bind_some]
  by_cases hcell : c.alloc.cellOf b ≠ blockStateFree
  · -- only the cell changes
    obtain ⟨q, hq, hset⟩ := setCell_spec hc.agrees.shape (b := b) ⟨h1, h2⟩ v
    rw [if_pos hcell, hq]
    refine ⟨_, rfl, rfl, rfl, hc.update hset (by omega) hc.rep.seek hc.agrees.jsoBlocks
      hc.agrees.jsoOffset (fun x hx1 hx2 => ?_) (fun x _ => Iff.rfl)⟩
    have hxb : x = b := by omega
    subst hxb
    rw [hc.rep.free x ⟨h1, h2⟩]
    exact ⟨fun h => absurd h hcell, fun h => absurd h hv0⟩
  · -- the optimizer hands out the block itself
    have hfree : FreeAt c.alloc.jso b := (hc.rep.free b ⟨h1, h2⟩).2 (by simpa using hcell)
    have hone : ∀ x, b ≤ x → x < b + 1 → FreeAt c.alloc.jso x := by
      intro x hx1 hx2
      rw [show x = b by omega]
      exact hfree
    obtain ⟨jso, hjso, hall⟩ := allocateLb_hint hc.rep.seek one_pos hone
    obtain ⟨q, hq, hset⟩ := setCell_spec (q := { c.alloc with jso := jso })
      ⟨hc.agrees.shape.bits, hc.agrees.shape.size⟩ (b := b) ⟨h1, h2⟩ v
    rw [if_neg hcell, hjso]
    simp only [Option.bind_some, ne_eq, not_true_eq_false, if_false, hq]
    refine ⟨_, rfl, rfl, rfl, hc.update hset (by omega) hall.inv
      (hall.totalBlocks.trans hc.agrees.jsoBlocks) (hall.offset.trans hc.agrees.jsoOffset)
      (fun x hx1 hx2 => ?_) (fun x hx => ?_)⟩
    · rw [hall.freeAt]
      exact ⟨fun h => absurd ⟨hx1, hx2⟩ h.2, fun h => absurd h hv0⟩
    · rw [hall.freeAt]
      exact ⟨fun h => h.1, fun h => ⟨h, hx⟩⟩

/-- `set_blocks_state` on one block of the device, to one of its states. -/
theorem setBlocksState_accepted (hc : Inv c) {b v : ℕ} (hon : c.alloc.OnDevice b 1) (hpos : 0 < v)
    (hle : v ≤ c.opts.numBlockStates) :
    ∃ r, c.setBlocksState b 1 v = some r ∧ r.status = .success ∧ r.dirty = some (b, 1) ∧
      Updated c b 1 v r.ctx := by
  have hrange : c.isBlockRangeValid b 1 = true :=
    (isBlockRangeValid_iff hc.managed (by norm_num)).2 ⟨one_pos, hon⟩
  have hv0 : v ≠ blockStateFree := Nat.pos_iff_ne_zero.1 hpos
  have hstate : c.isBlockStateValid v = true := decide_eq_true hle
  obtain ⟨o, ho, hst, hdirty, hup⟩ := setBlocksState_instance hc hon hpos hle
  refine ⟨c.reply o, ?_, hst, hdirty, hup⟩
  unfold setBlocksState
  rw [hrange, hstate, if_neg (by decide), if_neg hv0, if_neg (by decide), ho]
  rfl

/-- `set_blocks_state` on one block: refused, or the block is in the new state. -/
theorem setBlocksState_spec (hc : Inv c) (b v : ℕ) :
    ∃ r, c.setBlocksState b 1 v = some r ∧
      (r = c.reject .invalidBlockRange ∨ r = c.reject .invalidBlockState ∨
        r.status = .success ∧ r.dirty = some (b, 1) ∧ c.alloc.OnDevice b 1 ∧ 0 < v ∧
          v ≤ c.opts.numBlockStates ∧ Updated c b 1 v r.ctx) := by
  by_cases hrange : c.isBlockRangeValid b 1 = false
  · exact ⟨_, if_pos hrange, Or.inl rfl⟩
  by_cases hv0 : v = blockStateFree
  · refine ⟨c.reject .invalidBlockState, ?_, Or.inr (Or.inl rfl)⟩
    unfold setBlocksState
    rw [if_neg hrange, if_pos hv0]
  by_cases hvn : c.isBlockStateValid v = false
  · refine ⟨c.reject .invalidBlockState, ?_, Or.inr (Or.inl rfl)⟩
    unfold setBlocksState
    rw [if_neg hrange, if_neg hv0, if_pos hvn]
  have hon : c.alloc.OnDevice b 1 :=
    ((isBlockRangeValid_iff hc.managed (by norm_num)).1 (by simpa using hrange)).2
  have hle : v ≤ c.opts.numBlockStates := by simpa [isBlockStateValid] using hvn
  have hpos : 0 < v := Nat.pos_of_ne_zero hv0
  obtain ⟨r, hr, hst, hdirty, hup⟩ := setBlocksState_accepted hc hon hpos hle
  exact ⟨r, hr, Or.inr (Or.inr ⟨hst, hdirty, hon, hpos, hle, hup⟩)⟩

/-- What `clear_blocks` does to allocated blocks: they are free, and nothing else changes. -/
structure Cleared (c : Context) (b n : ℕ) (c' : Context) : Prop where
  managed : Managed c'
  opts : c'.opts = c.opts
  cell : ∀ x, c.alloc.logicalStartBlockOffset ≤ x →
    c'.alloc.cellOf x = if b ≤ x ∧ x < b + n then blockStateFree else c.alloc.cellOf x
  seek : Released c.alloc.jso n b c'.alloc.jso

theorem Managed.releasable (hc : Managed c) {b n : ℕ} (hn : 0 < n) (hon : c.alloc.OnDevice b n)
    (hused : ∀ x, b ≤ x → x < b + n → c.alloc.cellOf x ≠ blockStateFree) :
    Releasable c.alloc.jso b n := by
  have e1 := hc.agrees.jsoOffset
  have e2 := hc.agrees.offset
  have e3 := hc.agrees.jsoBlocks
  have e4 := hc.agrees.cells
  obtain ⟨h1, h2⟩ := hon
  refine ⟨hn, by omega, by omega, fun x hx1 hx2 hx => ?_⟩
  exact hused x hx1 hx2 ((hc.rep.free x ⟨by omega, by omega⟩).1 hx)

/-- `clear_blocks` on allocated blocks. -/
theorem clearBlocks_managed (hc : Managed c) {b n : ℕ} (hn : 0 < n) (hon : c.alloc.OnDevice b n)
    (hused : ∀ x, b ≤ x → x < b + n → c.alloc.cellOf x ≠ blockStateFree) :
    ∃ r, c.clearBlocks b n = some r ∧ r.status = .success ∧ r.dirty = some (b, n) ∧
      Cleared c b n r.ctx := by
  have ha := hc.addressable
  have e2 := hc.agrees.offset
  have e4 := hc.agrees.cells
  have hrel := hc.releasable hn hon hused
  obtain ⟨h1, h2⟩ := hon
  have hrange : c.isBlockRangeValid b n = true :=
    (isBlockRangeValid_iff hc (by omega)).2 ⟨hn, h1, h2⟩
  obtain ⟨jso, hjso, hfreed⟩ := freeLb_spec hc.rep.seek hrel
  obtain ⟨q, hq, hset⟩ := setCells_spec (q := { c.alloc with jso := jso })
    ⟨hc.agrees.shape.bits, hc.agrees.shape.size⟩ (b := b) (n := n) ⟨h1, h2⟩ blockStateFree
  have ho : c.alloc.clearBlocks b n = some ⟨.success, q, some (b, n), none⟩ := by
    unfold QwordVector64Cell.clearBlocks bmapLastCellId
    dsimp only
    rw [if_neg (by omega), hjso]
    simp only [Option.bind_eq_bind, Option.bind_some, hq]
  refine ⟨c.reply ⟨.success, q, some (b, n), none⟩, ?_, rfl, rfl, ?_, rfl, hset.cell, ?_⟩
  · unfold clearBlocks
    rw [hrange, ho]
    rfl
  · refine hc.update hset hfreed.inv (hfreed.totalBlocks.trans hc.agrees.jsoBlocks)
      (hfreed.offset.trans hc.agrees.jsoOffset) (fun x hx1 hx2 => ?_) (fun x hx => ?_)
    · rw [hfreed.freeAt]
      exact ⟨fun _ => rfl, fun _ => Or.inr ⟨hx1, hx2⟩⟩
    · rw [hfreed.freeAt]
      exact ⟨fun h => h.resolve_right hx, Or.inl⟩
  · have hq' : q.jso = jso := by rw [hset.eq]
    change Released c.alloc.jso n b q.jso
    rw [hq']
    exact hfreed

theorem clearBlocks_spec (hc : Inv c) {b n : ℕ} (hn : 0 < n) (hon : c.alloc.OnDevice b n)
    (hused : ∀ x, b ≤ x → x < b + n → c.alloc.cellOf x ≠ blockStateFree) :
    ∃ r, c.clearBlocks b n = some r ∧ r.status = .success ∧ r.dirty = some (b, n) ∧
      Updated c b n blockStateFree r.ctx := by
  obtain ⟨r, hr, hst, hdirty, hcl⟩ := clearBlocks_managed hc.managed hn hon hused
  have hopts : ValidOpts r.ctx.opts := by
    rw [hcl.opts]
    exact hc.opts
  exact ⟨r, hr, hst, hdirty, ⟨hopts, hcl.managed.agrees, hcl.managed.rep⟩, hcl.opts, hcl.cell⟩

/-- The same device: only the bookkeeping of the optimizer may differ. -/
structure SameCells (c c' : Context) : Prop where
  inv : Inv c'
  opts : c'.opts = c.opts
  data : c'.alloc.data = c.alloc.data

/-- The optimizer with the same content. -/
structure SameSeek (j j' : JudySeekOptimizer) : Prop where
  free : j'.jarrFreeLb = j.jarrFreeLb
  contig : ∀ len lb, j'.jarrFreeContigLen.get? len lb = j.jarrFreeContigLen.get? len lb
  allocated : j'.totalAllocatedBlocks = j.totalAllocatedBlocks
  freeBlocks : j'.totalFreeBlocks = j.totalFreeBlocks
  totalBlocks : j'.totalBlocks = j.totalBlocks
  offset : j'.logicalStartBlockOffset = j.logicalStartBlockOffset

theorem SameSeek.refl (j : JudySeekOptimizer) : SameSeek j j :=
  ⟨rfl, fun _ _ => rfl, rfl, rfl, rfl, rfl⟩

theorem SameSeek.freeAt {j j' : JudySeekOptimizer} (h : SameSeek j j') (x : ℕ) :
    FreeAt j' x ↔ FreeAt j x := by
  unfold FreeAt
  rw [h.free]

theorem sameSeek_of_freeAt {j j' : JudySeekOptimizer} (hj : SeekInv j) (hj' : SeekInv j')
    (hblocks : j'.totalBlocks = j.totalBlocks)
    (hoffset : j'.logicalStartBlockOffset = j.logicalStartBlockOffset)
    (hfree : ∀ x, FreeAt j' x ↔ FreeAt j x) : SameSeek j j' := by
  have hchunks : j'.jarrFreeLb = j.jarrFreeLb := by
    refine JudyArray.ext_mem fun e => ⟨fun he => ?_, fun he => ?_⟩
    · exact hj'.chunks.mem_of_freeAt hj.chunks (fun x => (hfree x).symm) he
    · exact hj.chunks.mem_of_freeAt hj'.chunks hfree he
  have h1 := hj.free
  have h2 := hj'.free
  have h3 := hj.allocated
  have h4 := hj'.allocated
  rw [hchunks] at h2
  refine ⟨hchunks, fun len lb => ?_, by omega, by omega, hblocks, hoffset⟩
  refine Option.ext fun v => ?_
  rw [hj.chunks.contig, hj'.chunks.contig, hchunks]

theorem SameSeek.inv {j j' : JudySeekOptimizer} (h : SameSeek j j') (hj : SeekInv j) :
    SeekInv j' := by
  refine ⟨⟨?_, ?_, ?_, ?_, ?_⟩, ?_, ?_⟩
  · rw [h.free]
    exact hj.chunks.pos
  · rw [h.free, h.offset]
    exact hj.chunks.lower
  · rw [h.free, h.offset, h.totalBlocks]
    exact hj.chunks.upper
  · rw [h.free]
    exact hj.chunks.apart
  · intro len lb v
    rw [h.contig, h.free]
    exact hj.chunks.contig len lb v
  · rw [h.free, h.freeBlocks]
    exact hj.free
  · rw [h.freeBlocks, h.allocated, h.totalBlocks]
    exact hj.allocated

/-- A refused call: bitmap, free maps and counters are as before. -/
structure Refused (c : Context) (r : Reply) : Prop where
  status : r.status ≠ .success
  dirty : r.dirty = none
  alloc : ∃ jso, SameSeek c.alloc.jso jso ∧ r.ctx = { c with alloc := { c.alloc with jso := jso } }

theorem refused_reject (c : Context) {status : Status} (h : status ≠ .success) :
    Refused c (c.reject status) :=
  ⟨h, rfl, c.alloc.jso, SameSeek.refl _, rfl⟩

theorem refused_unchanged (c : Context) {jso : JudySeekOptimizer} (h : SameSeek c.alloc.jso jso) :
    Refused c (c.reply (.unchanged { c.alloc with jso := jso } .error)) :=
  ⟨by simp [reply, Outcome.unchanged], rfl, jso, h, rfl⟩

/-- A call that allocates the blocks `lb, …, lb + n - 1`: they were free, and their cells are set. -/
structure Grants (c : Context) (v hint n : ℕ) (wantStart : Bool) (lb : ℕ) (r : Reply) : Prop where
  status : r.status = .success
  dirty : r.dirty = some (lb, n)
  start : r.allocatedStartBlock = if wantStart then some lb else none
  hinted : wantStart = false → lb = hint
  onDevice : c.alloc.OnDevice lb n
  wasFree : ∀ x, lb ≤ x → x < lb + n → c.alloc.cellOf x = blockStateFree
  seek : Allocated c.alloc.jso n lb r.ctx.alloc.jso
  cells : ∃ jso q, CellsSet { c.alloc with jso := jso } lb n v q ∧ r.ctx = { c with alloc := q }

/-- `alloc_blocks_contig` refuses, or allocates what the optimizer found; without
`allocated_start_block` what it found elsewhere is given back. -/
theorem allocBlocksContig_cases (hc : Managed c) {n : ℕ} (v hint : ℕ) (wantStart : Bool)
    (hn : 0 < n) :
    ∃ r, c.allocBlocksContig v hint n wantStart = some r ∧
      (Refused c r ∧ (c.isBlockIndexValid hint = true → n ≤ c.alloc.cells →
          c.alloc.jso.allocateLb hint n = some none ∨
            wantStart = false ∧ ∃ lb j, lb ≠ hint ∧
              c.alloc.jso.allocateLb hint n = some (some (lb, j))) ∨
        ∃ lb j, c.alloc.jso.allocateLb hint n = some (some (lb, j)) ∧
          Grants c v hint n wantStart lb r) := by
  unfold allocBlocksContig
  by_cases hidx : c.isBlockIndexValid hint = false
  · refine ⟨_, if_pos hidx, Or.inl ⟨refused_reject c (by decide), fun h0 => ?_⟩⟩
    exact absurd (hidx.symm.trans h0) (by decide)
  rw [if_neg hidx]
  have hin := (isBlockIndexValid_iff hc.agrees).1 (Bool.eq_true_of_not_eq_false hidx)
  have hlast : ¬ hint > c.alloc.bmapLastCellId := by
    have := hin.2
    unfold bmapLastCellId
    omega
  unfold QwordVector64Cell.allocBlocksContig
  by_cases hbad : hint > c.alloc.bmapLastCellId ∨ n > c.alloc.cells
  · rw [if_pos hbad]
    refine ⟨_, rfl, Or.inl ⟨refused_unchanged c (SameSeek.refl _), fun _ hle => ?_⟩⟩
    exact absurd (hbad.resolve_left hlast) (not_lt.2 hle)
  rw [if_neg hbad]
  rcases allocateLb_spec hc.rep.seek hint hn with h0 | ⟨lb, jso, h0, hall⟩
  · rw [h0]
    exact ⟨_, rfl, Or.inl ⟨refused_unchanged c (SameSeek.refl _), fun _ _ => Or.inl rfl⟩⟩
  rw [h0]
  simp only [Option.bind_eq_bind, Option.bind_some]
  have hon := hc.onDevice_of_freeAt hn hall.wasFree
  by_cases hback : wantStart = false ∧ hint ≠ lb
  · -- the blocks taken are given back
    have hrel : Releasable jso lb n := by
      refine ⟨hn, ?_, ?_, fun x hx1 hx2 hx => ((hall.freeAt x).1 hx).2 ⟨hx1, hx2⟩⟩
      · rw [hall.offset, hc.agrees.jsoOffset, ← hc.agrees.offset]
        exact hon.1
      · rw [hall.offset, hall.totalBlocks, hc.agrees.jsoOffset, hc.agrees.jsoBlocks,
          ← hc.agrees.offset, ← hc.agrees.cells]
        exact hon.2
    obtain ⟨jso', h', hfreed⟩ := freeLb_spec hall.inv hrel
    rw [if_pos hback, h']
    have hsame : SameSeek c.alloc.jso jso' := by
      refine sameSeek_of_freeAt hc.rep.seek hfreed.inv (hfreed.totalBlocks.trans hall.totalBlocks)
        (hfreed.offset.trans hall.offset) fun x => ?_
      rw [hfreed.freeAt, hall.freeAt]
      constructor
      · rintro (⟨h, -⟩ | ⟨h1, h2⟩)
        · exact h
        · exact hall.wasFree x h1 h2
      · intro h
        by_cases hin : lb ≤ x ∧ x < lb + n
        · exact Or.inr hin
        · exact Or.inl ⟨h, hin⟩
    exact ⟨_, rfl, Or.inl ⟨refused_unchanged c hsame,
      fun _ _ => Or.inr ⟨hback.1, lb, jso, Ne.symm hback.2, rfl⟩⟩⟩
  · obtain ⟨q, hq, hset⟩ := setCells_spec (q := { c.alloc with jso := jso })
      ⟨hc.agrees.shape.bits, hc.agrees.shape.size⟩ (b := lb) (n := n) hon v
    have hjso : q.jso = jso := by rw [hset.eq]
    rw [if_neg hback, hq]
    refine ⟨_, rfl, Or.inr ⟨lb, jso, rfl, rfl, rfl, rfl, fun hw => ?_, hon, fun x hx1 hx2 => ?_, ?_,
      jso, q, hset, rfl⟩⟩
    · by_contra hne
      exact hback ⟨hw, fun h => hne h.symm⟩
    · obtain ⟨ho1, ho2⟩ := hon
      exact (hc.rep.free x ⟨by omega, by omega⟩).1 (hall.wasFree x hx1 hx2)
    · change Allocated c.alloc.jso n lb q.jso
      rw [hjso]
      exact hall

/-- `alloc_blocks_contig`: no block changes, or free blocks come into the new state. -/
theorem allocBlocksContig_spec (hc : Inv c) {v n : ℕ} (hint : ℕ) (wantStart : Bool) (hv : 0 < v)
    (hle : v ≤ c.opts.numBlockStates) (hn : 0 < n) :
    ∃ r, c.allocBlocksContig v hint n wantStart = some r ∧
      ((r.status ≠ .success ∧ r.dirty = none ∧ SameCells c r.ctx) ∨
        ∃ lb, r.status = .success ∧ r.dirty = some (lb, n) ∧ c.alloc.OnDevice lb n ∧
          r.allocatedStartBlock = (if wantStart then some lb else none) ∧
          (wantStart = false → lb = hint) ∧
          (∀ x, lb ≤ x → x < lb + n → c.alloc.cellOf x = blockStateFree) ∧
          Updated c lb n v r.ctx) := by
  have h15 := hc.opts.states
  obtain ⟨r, hr, ⟨href, -⟩ | ⟨lb, j, -, hg⟩⟩ :=
    allocBlocksContig_cases hc.managed v hint wantStart hn
  · obtain ⟨jso, hsame, hctx⟩ := href.alloc
    refine ⟨r, hr, Or.inl ⟨href.status, href.dirty, ?_⟩⟩
    rw [hctx]
    refine ⟨⟨hc.opts, ⟨⟨hc.agrees.shape.bits, hc.agrees.shape.size⟩, hc.agrees.cells,
      hc.agrees.offset, hc.agrees.states, hsame.totalBlocks.trans hc.agrees.jsoBlocks,
      hsame.offset.trans hc.agrees.jsoOffset⟩, hsame.inv hc.rep.seek, fun x hx => ?_⟩, rfl, rfl⟩
    rw [hsame.freeAt]
    exact hc.rep.free x hx
  · obtain ⟨jso, q, hset, hctx⟩ := hg.cells
    have hjso : q.jso = jso := by rw [hset.eq]
    have hall := hg.seek
    rw [hctx, hjso] at hall
    refine ⟨r, hr, Or.inr ⟨lb, hg.status, hg.dirty, hg.onDevice, hg.start, hg.hinted, hg.wasFree, ?_⟩⟩
    rw [hctx]
    refine hc.update hset (by omega) hall.inv (hall.totalBlocks.trans hc.agrees.jsoBlocks)
      (hall.offset.trans hc.agrees.jsoOffset) (fun x hx1 hx2 => ?_) (fun x hx => ?_)
    · rw [hall.freeAt]
      exact ⟨fun h => absurd ⟨hx1, hx2⟩ h.2,
        fun h => absurd h (by unfold blockStateFree; omega)⟩
    · rw [hall.freeAt]
      exact ⟨fun h => h.1, fun h => ⟨h, hx⟩⟩

end

/-! ### Runs of calls -/

/-- The calls that change the allocator. -/
inductive Call
  | allocBlocksContig (state hintBlockIndex numBlocks : ℕ) (wantStart : Bool)
  | setBlocksState (blockIndex numBlocks state : ℕ)
  | clearBlocks (blockIndex numBlocks : ℕ)
  deriving DecidableEq, Repr

/-- The reply to a call, `none` when the call reaches an assertion. -/
def call (c : Context) : Call → Option Reply
  | .allocBlocksContig v hint n wantStart => c.allocBlocksContig v hint n wantStart
  | .setBlocksState b n v => c.setBlocksState b n v
  | .clearBlocks b n => c.clearBlocks b n

/-- The allocator after a call. -/
def step (c : Context) (call : Call) : Option Context := (c.call call).map Reply.ctx

/-- The documented use: allocations name a state and at least one block, and only allocated
blocks are cleared. -/
def Documented (c : Context) : Call → Prop
  | .allocBlocksContig v _ n _ => 1 ≤ v ∧ v ≤ c.opts.numBlockStates ∧ 1 ≤ n
  | .setBlocksState b n v => b < 2 ^ 64 ∧ n < 2 ^ 64 ∧ v < 2 ^ 64
  | .clearBlocks b n =>
      ∀ x, b ≤ x → x < b + n → c.alloc.OnDevice x 1 ∧ c.alloc.cellOf x ≠ blockStateFree

instance (q : QwordVector64Cell) (b n : ℕ) : Decidable (q.OnDevice b n) :=
  inferInstanceAs (Decidable (_ ∧ _))

instance (c : Context) : (call : Call) → Decidable (c.Documented call)
  | .allocBlocksContig _ _ _ _ => inferInstanceAs (Decidable (_ ∧ _ ∧ _))
  | .setBlocksState _ _ _ => inferInstanceAs (Decidable (_ ∧ _ ∧ _))
  | .clearBlocks _ _ => Nat.decidableLoHi _ _ _

/-- `set_blocks_state` names one block. -/
def SetsOneBlock : Call → Prop
  | .setBlocksState _ n _ => n = 1
  | _ => True

instance : (call : Call) → Decidable (SetsOneBlock call)
  | .setBlocksState _ n _ => inferInstanceAs (Decidable (n = 1))
  | .allocBlocksContig _ _ _ _ => isTrue trivial
  | .clearBlocks _ _ => isTrue trivial

/-- The documented use with `set_blocks_state` on one block at a time. -/
def SingleBlockSet (c : Context) (call : Call) : Prop := c.Documented call ∧ SetsOneBlock call

instance (c : Context) (call : Call) : Decidable (c.SingleBlockSet call) :=
  inferInstanceAs (Decidable (_ ∧ _))

theorem step_spec {c : Context} (call : Call) (hc : Inv c) (hok : SingleBlockSet c call) :
    ∃ c', step c call = some c' ∧ Inv c' := by
  obtain ⟨hdoc, hsingle⟩ := hok
  cases call with
  | allocBlocksContig v hint n wantStart =>
    obtain ⟨hv, hle, hn⟩ := hdoc
    obtain ⟨r, hr, ⟨-, -, hsame⟩ | ⟨lb, -, -, -, -, -, -, hup⟩⟩ :=
      allocBlocksContig_spec hc hint wantStart hv hle hn
    · exact ⟨r.ctx, congrArg (Option.map Reply.ctx) hr, hsame.inv⟩
    · exact ⟨r.ctx, congrArg (Option.map Reply.ctx) hr, hup.inv⟩
  | setBlocksState b n v =>
    have hn : n = 1 := hsingle
    subst hn
    obtain ⟨r, hr, rfl | rfl | ⟨-, -, -, -, -, hup⟩⟩ := setBlocksState_spec hc b v
    · exact ⟨c, congrArg (Option.map Reply.ctx) hr, hc⟩
    · exact ⟨c, congrArg (Option.map Reply.ctx) hr, hc⟩
    · exact ⟨r.ctx, congrArg (Option.map Reply.ctx) hr, hup.inv⟩
  | clearBlocks b n =>
    rcases Nat.eq_zero_or_pos n with rfl | hn
    · -- an empty range is refused
      have hrange : c.isBlockRangeValid b 0 = false := by
        have h := isBlockRangeValid_iff hc.managed (b := b) (n := 0) (by norm_num)
        simpa using h
      refine ⟨c, ?_, hc⟩
      show (c.clearBlocks b 0).map Reply.ctx = some c
      unfold clearBlocks
      rw [if_pos hrange]
      rfl
    · have hfirst := (hdoc b le_rfl (by omega)).1.1
      have hlast := (hdoc (b + n - 1) (by omega) (by omega)).1.2
      obtain ⟨r, hr, -, -, hup⟩ := clearBlocks_spec hc hn ⟨hfirst, by omega⟩
        (fun x h1 h2 => (hdoc x h1 h2).2)
      exact ⟨r.ctx, congrArg (Option.map Reply.ctx) hr, hup.inv⟩

/-- A fresh allocator satisfies the representation invariant, and all its cells are zero. -/
theorem managed_of_init {config : Opts} {c : Context} (hc : dssBlkAllocatorInit config = some c)
    (hblocks : 0 < config.numTotalBlocks)
    (haddr : config.numTotalBlocks + config.logicalStartBlockOffset < 2 ^ 64) :
    Managed c ∧ c.opts = config ∧ ∀ b, c.alloc.cellOf b = blockStateFree := by
  unfold dssBlkAllocatorInit init at hc
  obtain ⟨hseek, hfree⟩ := JudySeekOptimizer.init_spec config.logicalStartBlockOffset hblocks
  by_cases h0 : config.numBlockStates = 0
  · rw [if_pos h0] at hc
    cases hc
  rw [if_neg h0] at hc
  by_cases h16 : config.numBlockStates ≤ 16
  · rw [if_pos h16] at hc
    cases hc
    have hcell : ∀ b, (QwordVector64Cell.mk'
        (JudySeekOptimizer.init config.numTotalBlocks config.logicalStartBlockOffset)
        config.numTotalBlocks 4 (config.numBlockStates + 1) config.blockAllocMetaStartOffset
        config.logicalStartBlockOffset).cellOf b = blockStateFree := by
      intro b
      unfold cellOf mk'
      dsimp only
      rw [cellAt_replicate_zero]
      rfl
    refine ⟨⟨hblocks, haddr, ⟨⟨rfl, List.length_replicate⟩, rfl, rfl, rfl, rfl, rfl⟩,
      ⟨hseek, fun b hb => ⟨fun _ => hcell b, fun _ => (hfree b).2 ⟨hb.1, ?_⟩⟩⟩⟩, rfl, hcell⟩
    exact hb.2
  · rw [if_neg h16] at hc
    cases hc

theorem inv_of_init {config : Opts} {c : Context} (hc : dssBlkAllocatorInit config = some c)
    (hv : ValidOpts config) :
    Inv c ∧ c.opts = config ∧ ∀ b, c.alloc.cellOf b = blockStateFree := by
  obtain ⟨hm, hopts, hcell⟩ := managed_of_init hc hv.blocks hv.addressable
  have hvc : ValidOpts c.opts := by
    rw [hopts]
    exact hv
  exact ⟨⟨hvc, hm.agrees, hm.rep⟩, hopts, hcell⟩

/-- Over every run of documented calls that set the state of one block at a time, on a device
whose states fit in a cell, no assertion is reached and the representation invariant holds. -/
theorem repInv_of_run {config : Opts} {c : Context} (calls : List Call)
    (hc : dssBlkAllocatorInit config = some c) (hv : ValidOpts config)
    (hok : Run.Admissible step SingleBlockSet c calls) :
    ∃ c', Run.run step c calls = some c' ∧ RepInv c' := by
  obtain ⟨c', hrun, hinv⟩ :=
    Run.run_total (fun _ call hs h => step_spec call hs h) (inv_of_init hc hv).1 hok
  exact ⟨c', hrun, hinv.rep⟩

/-- A device of four blocks with fifteen states. -/
def smallOpts : Opts := ⟨4, 15, 8, 1⟩

/-- An allocation, a change of state and a release on a small device. -/
theorem repInv_of_run_small :
    ∃ c c', dssBlkAllocatorInit smallOpts = some c ∧
      Run.run step c [.allocBlocksContig 3 9 2 true, .setBlocksState 9 1 15,
        .clearBlocks 9 1] = some c' ∧ RepInv c' := by
  have hv : ValidOpts smallOpts := ⟨by decide, by decide, by decide⟩
  obtain ⟨c', hrun, hrep⟩ := repInv_of_run
    [.allocBlocksContig 3 9 2 true, .setBlocksState 9 1 15, .clearBlocks 9 1]
    (show dssBlkAllocatorInit smallOpts = some _ from rfl) hv (by decide +kernel)
  exact ⟨_, c', rfl, hrun, hrep⟩

/-- With sixteen states the documented calls break the invariant: the block allocated in the
sixteenth state has a zero cell and is in no free chunk. -/
theorem not_repInv_of_sixteen_states :
    ¬ ∀ (config : Opts) (c : Context) (calls : List Call), 0 < config.numTotalBlocks →
      config.numTotalBlocks + config.logicalStartBlockOffset < 2 ^ 64 →
      dssBlkAllocatorInit config = some c → Run.Admissible step Documented c calls →
      ∃ c', Run.run step c calls = some c' ∧ RepInv c' := by
  intro h
  obtain ⟨c', hrun, hrep⟩ := h ⟨1, 16, 0, 0⟩ _ [.allocBlocksContig 16 0 1 true] (by decide)
    (by decide) rfl (by decide +kernel)
  cases hrun
  have hfree := (hrep.free 0 ⟨by decide, by decide⟩).2 (by decide)
  obtain ⟨lb, len, hm, -, -⟩ := hfree
  exact absurd hm (List.not_mem_nil)

end Context

end DssSdk.BlockAllocator
