import DssSdk.Lib.Program
import DssSdk.BlockAllocator.Contract
import DssSdk.Kvtrans.Store

/-!
# The block states of a translator

What the calls of the block allocator do to the states of the blocks, for a translator that is set up
on its allocator.

* `Serves`: the allocator has the range and the states of the translator and satisfies its invariant;
* `allocContig_spec`, `clearBlkState_spec`, `setOneState_spec`, `dcTableUpdate_spec`: one call each.

All of them return: no call reaches an assertion.
-/

namespace DssSdk.Kvtrans

open BlockAllocator Program

/-- The cell of a block in the allocator. -/
def Sys.cell (s : Sys) (x : ℕ) : ℕ := s.ctx.alloc.alloc.cellOf x

/-- The blocks of a part of a value. -/
def extentOf (loc : ValueLoc) : ℕ × ℕ := (loc.valueIndex, loc.numChunks)

/-- The blocks `b, …, b + n - 1` are blocks of the translator, as `_lba_in_range` has it. -/
def Params.InRange (P : Params) (b n : ℕ) : Prop := P.blkOffset ≤ b ∧ b + n ≤ P.blkOffset + P.blkNum

/-- The allocator that `init_kvtrans_ctx` sets up: the range of the translator, and one state less than
`state_num`, since `EMPTY` is left out. -/
structure Serves (P : Params) (s : Sys) : Prop where
  inv : Context.Inv s.ctx.alloc
  offset : s.ctx.alloc.opts.logicalStartBlockOffset = P.blkOffset
  blocks : s.ctx.alloc.opts.numTotalBlocks = P.blkNum
  states : s.ctx.alloc.opts.numBlockStates = defaultBlockStateNum - 1

/-- Only the allocator changes, and the flags of the request. -/
structure AllocFrame (s s' : Sys) : Prop where
  chain : s'.req.chain = s.req.chain
  ctx : s'.ctx = { s.ctx with alloc := s'.ctx.alloc }

theorem AllocFrame.refl (s : Sys) : AllocFrame s s := ⟨rfl, rfl⟩

theorem AllocFrame.trans {s s₁ s₂ : Sys} (h : AllocFrame s s₁) (h' : AllocFrame s₁ s₂) :
    AllocFrame s s₂ := by
  refine ⟨h'.chain.trans h.chain, ?_⟩
  rw [h'.ctx, h.ctx]

theorem AllocFrame.dcTbl {s s' : Sys} (h : AllocFrame s s') : s'.ctx.dcTbl = s.ctx.dcTbl := by
  rw [h.ctx]

/-- The blocks `b, …, b + n - 1` are in the state `v`, and all others as before. -/
structure SetsState (P : Params) (s : Sys) (b n v : ℕ) (s' : Sys) : Prop where
  frame : AllocFrame s s'
  serves : Serves P s'
  cell : ∀ x, P.blkOffset ≤ x → s'.cell x = if b ≤ x ∧ x < b + n then v else s.cell x

section

variable {P : Params} {s : Sys} {b n : ℕ}

theorem Serves.startOffset (hs : Serves P s) : s.ctx.alloc.alloc.logicalStartBlockOffset = P.blkOffset :=
  hs.inv.agrees.offset.trans hs.offset

theorem Serves.onDevice_iff (hs : Serves P s) : s.ctx.alloc.alloc.OnDevice b n ↔ P.InRange b n := by
  unfold QwordVector64Cell.OnDevice Params.InRange
  rw [hs.startOffset, hs.inv.agrees.cells, hs.blocks]

/-- An update of the allocator leaves a translator that is set up on it. -/
theorem Serves.update (hs : Serves P s) {v : ℕ} {c' : Context} {r : Kreq}
    (hup : Context.Updated s.ctx.alloc b n v c') (hchain : r.chain = s.req.chain) :
    SetsState P s b n v ⟨{ s.ctx with alloc := c' }, r⟩ := by
  refine ⟨⟨hchain, rfl⟩, ⟨hup.inv, ?_, ?_, ?_⟩, fun x hx => hup.cell x (by rwa [hs.startOffset])⟩
  · show c'.opts.logicalStartBlockOffset = _
    rw [hup.opts, hs.offset]
  · show c'.opts.numTotalBlocks = _
    rw [hup.opts, hs.blocks]
  · show c'.opts.numBlockStates = _
    rw [hup.opts, hs.states]

theorem sameCells_cellOf {c c' : Context} (hc : Context.Inv c) (h : Context.SameCells c c') (x : ℕ) :
    c'.alloc.cellOf x = c.alloc.cellOf x := by
  unfold QwordVector64Cell.cellOf
  rw [h.data, h.inv.agrees.offset, hc.agrees.offset, h.opts, h.inv.agrees.shape.bits,
    hc.agrees.shape.bits]

/-- `dss_kvtrans_alloc_contig` finds no blocks and changes none, or it takes free ones. One block that is
not found is recorded. -/
theorem allocContig_spec (hs : Serves P s) {st : BlkState} (hint : ℕ) (hpos : 0 < st.toCell)
    (hle : st.toCell ≤ 8) (hn : 0 < n) :
    wp (fun _ => False) (allocContig st hint n) (fun r s' =>
      (r = none ∧ SetsState P s 0 0 0 s' ∧ (n = 1 → s'.req.allocFailed = true)) ∨
      ∃ b, r = some b ∧ P.InRange b n ∧ (∀ x, b ≤ x → x < b + n → s.cell x = blockStateFree) ∧
        SetsState P s b n st.toCell s') s := by
  obtain ⟨r, hr, ⟨hst, -, hsame⟩ | ⟨lb, hst, -, hon, hstart, -, hfree, hup⟩⟩ :=
    Context.allocBlocksContig_spec hs.inv hint true hpos
      (by rw [hs.states]; exact hle) hn
  · unfold allocContig
    rw [wp_bind, wp_get, hr]
    dsimp only
    unfold modifyCtx
    rw [wp_bind, wp_modify, if_neg hst]
    have hnone : ∀ r' : Kreq, r'.chain = s.req.chain →
        SetsState P s 0 0 0 ⟨{ s.ctx with alloc := r.ctx }, r'⟩ := by
      intro r' hchain
      refine hs.update ⟨hsame.inv, hsame.opts, fun x _ => ?_⟩ hchain
      rw [if_neg (by omega)]
      exact sameCells_cellOf hs.inv hsame x
    unfold recordAllocFailed modifyReq
    by_cases hone : n = 1
    · rw [if_pos hone, wp_bind, wp_modify, wp_pure]
      exact .inl ⟨rfl, hnone _ rfl, fun _ => rfl⟩
    · rw [if_neg hone, wp_pure]
      exact .inl ⟨rfl, hnone _ rfl, fun h => absurd h hone⟩
  · unfold allocContig
    rw [wp_bind, wp_get, hr]
    dsimp only
    unfold modifyCtx setBaMetaUpdated modifyReq
    rw [wp_bind, wp_modify, if_pos hst, wp_bind, wp_modify, wp_pure, hstart]
    exact .inr ⟨lb, rfl, hs.onDevice_iff.1 hon, hfree, hs.update hup rfl⟩

theorem Serves.getBlockState (hs : Serves P s) {x : ℕ} (hx : P.InRange x 1) :
    s.ctx.alloc.getBlockState x = some (.success, s.cell x) := by
  have hon := hs.onDevice_iff.2 hx
  unfold Context.getBlockState
  rw [if_neg (by rw [(Context.isBlockIndexValid_iff hs.inv.agrees).2 hon]; decide), if_neg,
    QwordVector64Cell.getCellValue_spec hs.inv.agrees.shape hon]
  · rfl
  · have hend := hon.2
    unfold QwordVector64Cell.bmapLastCellId
    omega

/-- `dss_kvtrans_set_blk_state` to `EMPTY`, for blocks that are in use. -/
theorem clearBlkState_spec (hs : Serves P s) (hasCtx : Bool) (hn : 0 < n) (hin : P.InRange b n)
    (hused : ∀ x, b ≤ x → x < b + n → s.cell x ≠ blockStateFree) :
    wp (fun _ => False) (setBlkState hasCtx b n .empty)
      (fun rc s' => rc = .success ∧ SetsState P s b n blockStateFree s') s := by
  obtain ⟨r, hr, hst, -, hup⟩ := Context.clearBlocks_spec hs.inv hn (hs.onDevice_iff.2 hin) hused
  have hfirst : P.InRange b 1 := ⟨hin.1, by have := hin.2; omega⟩
  unfold setBlkState
  rw [wp_bind, wp_get, hs.getBlockState hfirst]
  dsimp only
  rw [if_neg (by decide), if_neg (by decide), if_pos rfl, hr]
  dsimp only
  unfold modifyCtx setBaMetaUpdated modifyReq
  rw [wp_bind, wp_modify, if_neg (by rw [hst]; decide)]
  cases hasCtx with
  | true => exact ⟨rfl, hs.update hup rfl⟩
  | false => exact ⟨rfl, hs.update hup rfl⟩

/-- `dss_kvtrans_set_blk_state` of one block to a state of the allocator. -/
theorem setOneState_spec (hs : Serves P s) (hasCtx : Bool) {st : BlkState} (hin : P.InRange b 1)
    (hpos : 0 < st.toCell) (hle : st.toCell ≤ 8) :
    wp (fun _ => False) (setBlkState hasCtx b 1 st)
      (fun rc s' => rc = .success ∧ SetsState P s b 1 st.toCell s') s := by
  have hne : st ≠ .empty := by
    rintro rfl
    exact absurd hpos (by decide)
  obtain ⟨r, hr, hst, -, hup⟩ := Context.setBlocksState_accepted hs.inv (hs.onDevice_iff.2 hin) hpos
    (by rw [hs.states]; exact hle)
  unfold setBlkState dssAssert
  rw [wp_bind, wp_get, hs.getBlockState hin]
  dsimp only
  rw [if_neg (by decide), if_pos hne, if_pos rfl, wp_bind, wp_pure, if_neg hne, hr]
  dsimp only
  unfold modifyCtx setBaMetaUpdated modifyReq
  rw [wp_bind, wp_modify, if_neg (by rw [hst]; decide)]
  cases hasCtx with
  | true => exact ⟨rfl, hs.update hup rfl⟩
  | false => exact ⟨rfl, hs.update hup rfl⟩

/-- What marks a registered block as a data collision without data: its state, and the state that its
item keeps. -/
structure SetsDc (P : Params) (s : Sys) (b : ℕ) (s' : Sys) : Prop where
  chain : s'.req.chain = s.req.chain
  serves : Serves P s'
  dcTbl : ∀ x, s'.ctx.dcTbl x =
    if x = b then (s.ctx.dcTbl x).map fun it => { it with oriState := .empty } else s.ctx.dcTbl x
  cell : ∀ x, P.blkOffset ≤ x →
    s'.cell x = if x = b then BlkState.dataCollisionEmpty.toCell else s.cell x

theorem wp_getDc {E : Fault → Prop} {Q : DcItem → Sys → Prop} {it : DcItem}
    (hit : s.ctx.dcTbl b = some it) : wp E (getDc b) Q s ↔ Q it s := by
  unfold getDc
  rw [wp_bind, wp_get, hit]
  rfl

/-- `dss_kvtrans_dc_table_update` to `EMPTY`, for a registered block. -/
theorem dcTableUpdate_spec (hs : Serves P s) (hin : P.InRange b 1) (hdc : (s.ctx.dcTbl b).isSome) :
    wp (fun _ => False) (dcTableUpdate b .empty) (fun rc s' => rc = .success ∧ SetsDc P s b s') s := by
  obtain ⟨it, hit⟩ := Option.isSome_iff_exists.1 hdc
  unfold dcTableUpdate dssAssert checked
  rw [if_pos (by decide), wp_bind, wp_pure, if_neg (by decide), if_neg (by decide), wp_bind]
  refine wp_mono (setOneState_spec hs true hin (by decide) (by decide)) ?_
  rintro rc s₁ ⟨rfl, hset⟩
  have hit₁ : s₁.ctx.dcTbl b = some it := by rw [hset.frame.dcTbl, hit]
  rw [if_neg (by decide), wp_bind, wp_getDc hit₁]
  refine ⟨rfl, ⟨hset.frame.chain, ⟨hset.serves.inv, hset.serves.offset, hset.serves.blocks,
    hset.serves.states⟩, fun x => ?_, fun x hx => ?_⟩⟩
  · show Function.update s₁.ctx.dcTbl b _ x = _
    rw [Function.update_apply, hset.frame.dcTbl]
    by_cases hxb : x = b
    · rw [if_pos hxb, if_pos hxb, hxb, hit]
      rfl
    · rw [if_neg hxb, if_neg hxb]
  · show s₁.cell x = _
    rw [hset.cell x hx]
    by_cases hxb : x = b
    · rw [if_pos hxb, if_pos (by omega)]
    · rw [if_neg hxb, if_neg (by omega)]

end

end DssSdk.Kvtrans
