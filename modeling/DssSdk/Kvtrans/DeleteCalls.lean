import DssSdk.Kvtrans.DeletedBlocks
import DssSdk.Kvtrans.KeyOpsOutcome

/-!
# The calls of a DELETE

The calls of the block allocator that a DELETE makes, in a state where the blocks that it works on are
in use.

* `Hosts`: the allocator is set up for the translator; nothing is asked of its free chunks;
* `Tidy`: blocks of the chain that are in use, values apart from the chain, and registered blocks in
  use. The handlers of a DELETE keep it, and then no call of the allocator returns an error;
* `deleteCollisionEntry_success`: `_delete_collision_entry` succeeds.
-/

namespace DssSdk.Kvtrans

open BlockAllocator Program Extents

/-- The allocator that `init_kvtrans_ctx` sets up for the translator. -/
structure Hosts (P : Params) (c : Context) : Prop where
  shape : c.alloc.Shape
  cells : c.alloc.cells = P.blkNum
  offset : c.alloc.logicalStartBlockOffset = P.blkOffset
  states : c.alloc.numBlockStates = defaultBlockStateNum
  numTotalBlocks : c.opts.numTotalBlocks = P.blkNum
  startOffset : c.opts.logicalStartBlockOffset = P.blkOffset
  numBlockStates : c.opts.numBlockStates = defaultBlockStateNum - 1
  addressable : P.blkOffset + P.blkNum < 2 ^ 64

section

variable {P : Params} {c : Context} {b n v : ℕ}

theorem Hosts.onDevice (h : Hosts P c) (hin : P.InRange b n) : c.alloc.OnDevice b n := by
  unfold QwordVector64Cell.OnDevice
  rw [h.offset, h.cells]
  exact hin

theorem Hosts.setAlloc (h : Hosts P c) {jso : JudySeekOptimizer} {q : QwordVector64Cell}
    (hset : QwordVector64Cell.CellsSet { c.alloc with jso := jso } b n v q) :
    Hosts P { c with alloc := q } where
  shape := hset.shape ⟨h.shape.bits, h.shape.size⟩
  cells := by rw [hset.eq]; exact h.cells
  offset := by rw [hset.eq]; exact h.offset
  states := by rw [hset.eq]; exact h.states
  numTotalBlocks := h.numTotalBlocks
  startOffset := h.startOffset
  numBlockStates := h.numBlockStates
  addressable := h.addressable

theorem Hosts.isBlockIndexValid (h : Hosts P c) (hin : P.InRange b 1) :
    c.isBlockIndexValid b = true := by
  obtain ⟨h1, h2⟩ := hin
  unfold Context.isBlockIndexValid
  rw [h.numTotalBlocks, h.startOffset, decide_eq_true_iff]
  omega

theorem Hosts.isBlockRangeValid (h : Hosts P c) (hn : 0 < n) (hin : P.InRange b n) :
    c.isBlockRangeValid b n = true := by
  have ha := h.addressable
  obtain ⟨h1, h2⟩ := hin
  unfold Context.isBlockRangeValid
  rw [h.numTotalBlocks, h.startOffset]
  dsimp only
  rw [decide_eq_true_iff]
  omega

theorem Hosts.getBlockState (h : Hosts P c) (hin : P.InRange b 1) :
    c.getBlockState b = some (.success, c.alloc.cellOf b) := by
  have hon := h.onDevice hin
  unfold Context.getBlockState
  rw [h.isBlockIndexValid hin, if_neg (by decide), if_neg,
    QwordVector64Cell.getCellValue_spec h.shape hon]
  · rfl
  · have hend := hon.2
    unfold QwordVector64Cell.bmapLastCellId
    omega

theorem Hosts.setBlocksState (h : Hosts P c) (hin : P.InRange b 1)
    (hused : c.alloc.cellOf b ≠ blockStateFree) (hpos : 0 < v) (hle : v ≤ 8) :
    ∃ r, c.setBlocksState b 1 v = some r ∧ r.status = .success ∧ Hosts P r.ctx ∧
      ∀ x, P.blkOffset ≤ x → r.ctx.alloc.cellOf x = if x = b then v else c.alloc.cellOf x := by
  have hv0 : v ≠ blockStateFree := Nat.pos_iff_ne_zero.1 hpos
  have hon := h.onDevice hin
  have hend := hon.2
  obtain ⟨q, hq, hset⟩ := QwordVector64Cell.setCell_spec h.shape hon v
  have hvalid : c.isBlockStateValid v = true := by
    unfold Context.isBlockStateValid
    rw [h.numBlockStates, decide_eq_true_iff]
    exact hle
  have hstates : ¬ v ≥ c.alloc.numBlockStates := by
    rw [h.states]
    unfold defaultBlockStateNum
    omega
  refine ⟨c.reply ⟨.success, q, some (b, 1), none⟩, ?_, rfl, h.setAlloc hset, fun x hx => ?_⟩
  · unfold Context.setBlocksState
    rw [h.isBlockRangeValid one_pos hin, if_neg (by decide), if_neg hv0, hvalid, if_neg (by decide)]
    unfold QwordVector64Cell.setBlocksState QwordVector64Cell.bmapLastCellId
    rw [if_neg (by simp), if_neg hv0, if_neg hstates, if_neg (by omega),
      QwordVector64Cell.getCellValue_spec h.shape hon]
    simp only [Option.bind_eq_bind, Option.bind_some]
    rw [if_pos hused, hq]
    rfl
  · show q.cellOf x = _
    rw [hset.cell x (by rw [h.offset]; exact hx), Nat.mod_eq_of_lt (by omega)]
    split_ifs <;> first | rfl | omega

theorem Hosts.clearBlocks (h : Hosts P c) (hn : 0 < n) (hin : P.InRange b n) {r : Context.Reply}
    (hr : c.clearBlocks b n = some r) : r.status = .success ∧ Hosts P r.ctx ∧
      ∀ x, P.blkOffset ≤ x → ¬ Holds (b, n) x → r.ctx.alloc.cellOf x = c.alloc.cellOf x := by
  have hon := h.onDevice hin
  have hend := hon.2
  unfold Context.clearBlocks at hr
  rw [h.isBlockRangeValid hn hin, if_neg (by decide)] at hr
  obtain ⟨o, ho, rfl⟩ := Option.map_eq_some_iff.1 hr
  unfold QwordVector64Cell.clearBlocks QwordVector64Cell.bmapLastCellId at ho
  rw [if_neg (by omega)] at ho
  obtain ⟨freed, -, ho⟩ := Option.bind_eq_some_iff.1 ho
  cases freed with
  | none =>
    dsimp only at ho
    split_ifs at ho
    cases ho
    exact ⟨rfl, h, fun x _ _ => rfl⟩
  | some jso =>
    obtain ⟨q, hq, ho⟩ := Option.bind_eq_some_iff.1 ho
    cases ho
    obtain ⟨q', hq', hset⟩ := QwordVector64Cell.setCells_spec (q := { c.alloc with jso := jso })
      ⟨h.shape.bits, h.shape.size⟩ hon blockStateFree
    rw [hq] at hq'
    cases hq'
    refine ⟨rfl, h.setAlloc hset, fun x hx hout => ?_⟩
    show q.cellOf x = _
    rw [hset.cell x (by rw [← h.offset] at hx; exact hx),
      if_neg (show ¬ (b ≤ x ∧ x < b + n) from hout)]
    rfl

end

/-! ### Chains, values and registered blocks -/

/-- The block of a block context. -/
def Sys.lba (s : Sys) (p : ℕ) : ℕ := (s.req.chain.getD p BlkCtx.zero).index

/-- The first `n` blocks of the chain are different, and no value of one of them lies on them; the
first `m` are in use. The registered blocks are in use, and the ones whose data is deleted are not
among the first `m`. -/
structure Tidy (P : Params) (m n : ℕ) (s : Sys) : Prop where
  le : m ≤ n
  hosts : Hosts P s.ctx.alloc
  inRange : ∀ p < n, P.InRange (s.lba p) 1
  distinct : ∀ p < n, ∀ q < p, s.lba q ≠ s.lba p
  apart : ∀ p < n, ∀ loc ∈ s.extents p, P.InRange loc.valueIndex loc.numChunks ∧
    ∀ q < n, ¬ Holds (extentOf loc) (s.lba q)
  used : ∀ p < m, s.cell (s.lba p) ≠ blockStateFree
  registered : ∀ x it, s.ctx.dcTbl x = some it → P.InRange x 1 ∧ s.cell x ≠ blockStateFree ∧
    (it.oriState = .data ∨ it.oriState = .collisionExtension ∨ it.oriState = .empty)
  deleted : ∀ x it, s.ctx.dcTbl x = some it → it.oriState = .empty → ∀ p < m, s.lba p ≠ x

/-- A meta block whose link is cleared if it leads to the block `x`. -/
def unlinked (blk : OndiskMeta) (x : ℕ) : OndiskMeta :=
  { blk with
    collisionExtensionIndex :=
      if blk.collisionExtensionIndex = x then 0 else blk.collisionExtensionIndex }

/-- Only cells of `R` change. -/
structure Resets (P : Params) (R : Set ℕ) (s s' : Sys) : Prop where
  frame : AllocFrame s s'
  hosts : Hosts P s'.ctx.alloc
  cell : ∀ x, P.blkOffset ≤ x → x ∉ R → s'.cell x = s.cell x

section

variable {P : Params} {s s' : Sys} {R : Set ℕ} {k m n : ℕ}

theorem Sys.isDc_eq {x : ℕ} {it : DcItem} (h : s.ctx.dcTbl x = some it) : s.isDc x = true := by
  unfold Sys.isDc
  rw [h]
  rfl

theorem AllocFrame.isDc (h : AllocFrame s s') : s'.isDc = s.isDc := by
  funext x
  unfold Sys.isDc
  rw [h.dcTbl]

theorem AllocFrame.lba (h : AllocFrame s s') : s'.lba = s.lba := by
  funext p
  unfold Sys.lba
  rw [h.chain]

theorem AllocFrame.extents (h : AllocFrame s s') : s'.extents = s.extents := by
  funext p
  unfold Sys.extents
  rw [h.chain]

theorem Tidy.mono (h : Tidy P m n s) (hk : k ≤ m) : Tidy P k n s where
  le := hk.trans h.le
  hosts := h.hosts
  inRange := h.inRange
  distinct := h.distinct
  apart := h.apart
  used := fun p hp => h.used p (hp.trans_le hk)
  registered := h.registered
  deleted := fun x it hx hst p hp => h.deleted x it hx hst p (hp.trans_le hk)

/-- The cells that are set stay in use, or they are no blocks of the chain and not registered. -/
theorem Tidy.resets (h : Tidy P m n s) (hr : Resets P R s s')
    (hR : ∀ x ∈ R, s'.cell x ≠ blockStateFree ∨ (∀ p < m, s.lba p ≠ x) ∧ s.isDc x = false) :
    Tidy P m n s' := by
  have hlba := hr.frame.lba
  refine ⟨h.le, hr.hosts, ?_, ?_, ?_, fun p hp => ?_, fun x it hx => ?_, ?_⟩
  · rw [hlba]
    exact h.inRange
  · rw [hlba]
    exact h.distinct
  · rw [hlba, hr.frame.extents]
    exact h.apart
  · rw [hlba]
    by_cases hpR : s.lba p ∈ R
    · exact (hR _ hpR).resolve_right fun hno => hno.1 p hp rfl
    · rw [hr.cell _ (h.inRange p (hp.trans_le h.le)).1 hpR]
      exact h.used p hp
  · rw [hr.frame.dcTbl] at hx
    obtain ⟨hin, hused, hst⟩ := h.registered x it hx
    refine ⟨hin, ?_, hst⟩
    by_cases hxR : x ∈ R
    · refine (hR x hxR).resolve_right fun hno => ?_
      rw [Sys.isDc_eq hx] at hno
      exact Bool.noConfusion hno.2
    · rw [hr.cell x hin.1 hxR]
      exact hused
  · rw [hr.frame.dcTbl, hlba]
    exact h.deleted

theorem Tidy.congr (h : Tidy P m n s) (halloc : s'.ctx.alloc = s.ctx.alloc)
    (hdc : s'.ctx.dcTbl = s.ctx.dcTbl) (hlba : ∀ p < n, s'.lba p = s.lba p)
    (hext : ∀ p < n, ∀ loc ∈ s'.extents p, loc ∈ s.extents p) : Tidy P m n s' := by
  have hcell : s'.cell = s.cell := by
    unfold Sys.cell
    rw [halloc]
  refine ⟨h.le, by rw [halloc]; exact h.hosts, fun p hp => ?_, fun p hp q hq => ?_,
    fun p hp loc hloc => ?_, fun p hp => ?_, ?_, fun x it hx hst p hp => ?_⟩
  · rw [hlba p hp]
    exact h.inRange p hp
  · rw [hlba p hp, hlba q (hq.trans hp)]
    exact h.distinct p hp q hq
  · obtain ⟨hin, hout⟩ := h.apart p hp loc (hext p hp loc hloc)
    refine ⟨hin, fun q hq => ?_⟩
    rw [hlba q hq]
    exact hout q hq
  · rw [hlba p (hp.trans_le h.le), hcell]
    exact h.used p hp
  · rw [hdc, hcell]
    exact h.registered
  · rw [hlba p (hp.trans_le h.le)]
    rw [hdc] at hx
    exact h.deleted x it hx hst p hp

theorem Tidy.erase (h : Tidy P m n s) (x : ℕ) :
    Tidy P m n { s with ctx := { s.ctx with dcTbl := Function.update s.ctx.dcTbl x none } } := by
  have hdc : ∀ y it, Function.update s.ctx.dcTbl x none y = some it → s.ctx.dcTbl y = some it := by
    intro y it hy
    rw [Function.update_apply] at hy
    split_ifs at hy
    exact hy
  exact ⟨h.le, h.hosts, h.inRange, h.distinct, h.apart, h.used,
    fun y it hy => h.registered y it (hdc y it hy), fun y it hy => h.deleted y it (hdc y it hy)⟩

/-- A registered block whose data is deleted. -/
theorem Tidy.mark (h : Tidy P m n s) {x : ℕ} {it : DcItem} (hx : s.ctx.dcTbl x = some it)
    (hout : ∀ p < m, s.lba p ≠ x) :
    Tidy P m n { s with ctx := { s.ctx with
      dcTbl := Function.update s.ctx.dcTbl x (some { it with oriState := .empty }) } } := by
  refine ⟨h.le, h.hosts, h.inRange, h.distinct, h.apart, h.used, fun y jt hy => ?_,
    fun y jt hy hst => ?_⟩
  · change Function.update _ _ _ y = _ at hy
    rw [Function.update_apply] at hy
    split_ifs at hy with hyx
    · obtain ⟨hin, hused, -⟩ := h.registered x it hx
      cases hy
      rw [hyx]
      exact ⟨hin, hused, .inr (.inr rfl)⟩
    · exact h.registered y jt hy
  · change Function.update _ _ _ y = _ at hy
    rw [Function.update_apply] at hy
    split_ifs at hy with hyx
    · rw [hyx]
      exact hout
    · exact h.deleted y jt hy hst

theorem getD_modify_cases (l : List BlkCtx) (p i : ℕ) (f : BlkCtx → BlkCtx) :
    (l.modify p f).getD i BlkCtx.zero = l.getD i BlkCtx.zero ∨
      (l.modify p f).getD i BlkCtx.zero = f (l.getD i BlkCtx.zero) := by
  rw [List.getD_eq_getElem?_getD, List.getD_eq_getElem?_getD, List.getElem?_modify]
  cases l[i]? with
  | none => simp
  | some b =>
    by_cases hpi : p = i
    · simp [hpi]
    · simp [hpi]

/-- A change of a block context that leaves its block, and leaves or drops its value. -/
theorem tidy_modifyBlk {p : ℕ} {f : BlkCtx → BlkCtx}
    (hindex : ∀ b, (f b).index = b.index)
    (hvalue : ∀ b, (f b).blk.valueLocation = .inline ∨
      (f b).blk.valueLocation = b.blk.valueLocation ∧ (f b).blk.placeValue = b.blk.placeValue)
    (h : Tidy P m n s) :
    wp (fun _ => True) (modifyBlk p f) (fun _ s' => Tidy P m n s') s := by
  unfold modifyBlk
  rw [wp_modify]
  refine h.congr rfl rfl (fun i _ => ?_) (fun i _ loc hloc => ?_)
  · show ((s.req.chain.modify p f).getD i BlkCtx.zero).index = _
    rcases getD_modify_cases s.req.chain p i f with hb | hb
    · rw [hb]
      rfl
    · rw [hb, hindex]
      rfl
  · unfold Sys.extents at hloc ⊢
    dsimp only at hloc ⊢
    rcases getD_modify_cases s.req.chain p i f with hb | hb
    · rw [hb] at hloc
      exact hloc
    · rw [hb] at hloc
      rcases hvalue (s.req.chain.getD i BlkCtx.zero) with hv | ⟨hv, hplace⟩
      · rw [if_pos hv] at hloc
        cases hloc
      · rw [hv, hplace] at hloc
        exact hloc

theorem tidy_modifyStat (h : Tidy P m n s) (f : Dstat → Dstat) :
    wp (fun _ => True) (modifyStat f) (fun _ s' => Tidy P m n s') s :=
  h.congr rfl rfl (fun _ _ => rfl) (fun _ _ _ hloc => hloc)

/-! ### The calls of a DELETE -/

/-- `dss_kvtrans_set_blk_state` of a block in use. -/
theorem setUsed_spec (h : Tidy P m n s) {b : ℕ} (hin : P.InRange b 1)
    (hused : s.cell b ≠ blockStateFree) {st : BlkState} (hpos : 0 < st.toCell) (hle : st.toCell ≤ 8) (hasCtx : Bool) :
    wp (fun _ => True) (setBlkState hasCtx b 1 st)
      (fun rc s' => rc = .success ∧ Resets P {b} s s' ∧ s'.cell b ≠ blockStateFree) s := by
  have hne : st ≠ .empty := by
    rintro rfl
    exact absurd hpos (by decide)
  obtain ⟨r, hr, hst, hhosts, hcell⟩ := h.hosts.setBlocksState hin hused hpos hle
  have hcell' : ∀ c : Kreq,
      Resets P {b} s ⟨{ s.ctx with alloc := r.ctx }, { c with chain := s.req.chain }⟩ ∧
      r.ctx.alloc.cellOf b ≠ blockStateFree := by
    intro c
    refine ⟨⟨⟨rfl, rfl⟩, hhosts, fun x hx hxb => ?_⟩, ?_⟩
    · exact (hcell x hx).trans (if_neg hxb)
    · rw [hcell b hin.1, if_pos rfl]
      exact Nat.pos_iff_ne_zero.1 hpos
  unfold setBlkState
  rw [wp_bind, wp_get, h.hosts.getBlockState hin]
  dsimp only
  rw [if_neg (by decide), if_pos hne, wp_bind, wp_dssAssert]
  refine ⟨fun _ => ?_, fun hno => absurd rfl hno⟩
  rw [if_neg hne, hr]
  dsimp only
  unfold modifyCtx setBaMetaUpdated modifyReq
  rw [wp_bind, wp_modify, if_neg (by rw [hst]; decide)]
  cases hasCtx with
  | true => exact ⟨rfl, hcell' { s.req with baMetaUpdated := true }⟩
  | false => exact ⟨rfl, hcell' s.req⟩

/-- `dss_kvtrans_set_blk_state` to `EMPTY`. -/
theorem setEmpty_spec (h : Tidy P m n s) {b l : ℕ} (hl : 0 < l) (hin : P.InRange b l)
    (hasCtx : Bool) :
    wp (fun _ => True) (setBlkState hasCtx b l .empty)
      (fun rc s' => rc = .success ∧ Resets P {x | Holds (b, l) x} s s') s := by
  unfold setBlkState
  rw [wp_bind, wp_get, h.hosts.getBlockState ⟨hin.1, by have := hin.2; omega⟩]
  dsimp only
  rw [if_neg (by decide), if_neg (by decide), if_pos rfl]
  cases hr : s.ctx.alloc.clearBlocks b l with
  | none => trivial
  | some r =>
    obtain ⟨hst, hhosts, hcell⟩ := h.hosts.clearBlocks hl hin hr
    dsimp only
    unfold modifyCtx setBaMetaUpdated modifyReq
    rw [wp_bind, wp_modify, if_neg (by rw [hst]; decide)]
    cases hasCtx with
    | true => exact ⟨rfl, ⟨⟨rfl, rfl⟩, hhosts, hcell⟩⟩
    | false => exact ⟨rfl, ⟨⟨rfl, rfl⟩, hhosts, hcell⟩⟩

theorem tidy_setUsed (h : Tidy P m n s) {b : ℕ} (hin : P.InRange b 1)
    (hused : s.cell b ≠ blockStateFree) {st : BlkState} (hpos : 0 < st.toCell) (hle : st.toCell ≤ 8) :
    wp (fun _ => True) (setBlkState true b 1 st)
      (fun rc s' =>
        rc = .success ∧ Tidy P m n s' ∧ s'.ctx.dcTbl = s.ctx.dcTbl ∧ s'.lba = s.lba) s := by
  refine wp_mono (setUsed_spec h hin hused hpos hle true) ?_
  rintro rc s' ⟨rfl, hr, hcell⟩
  refine ⟨rfl, h.resets hr fun x hx => .inl ?_, hr.frame.dcTbl, hr.frame.lba⟩
  rw [Set.mem_singleton_iff.1 hx]
  exact hcell

theorem tidy_setLba (h : Tidy P m n s) {p : ℕ} (hp : p < m) {st : BlkState} (hpos : 0 < st.toCell)
    (hle : st.toCell ≤ 8) :
    wp (fun _ => True) (setBlkState true (s.lba p) 1 st)
      (fun rc s' => rc = .success ∧ Tidy P m n s') s := by
  refine wp_mono (tidy_setUsed h (h.inRange p (hp.trans_le h.le)) (h.used p hp) hpos hle) ?_
  rintro rc s' ⟨rfl, h', -⟩
  exact ⟨rfl, h'⟩

theorem tidy_setEmpty (h : Tidy P m n s) {b l : ℕ} (hl : 0 < l) (hin : P.InRange b l)
    (hout : ∀ x, Holds (b, l) x → (∀ p < m, s.lba p ≠ x) ∧ s.isDc x = false) :
    wp (fun _ => True) (setBlkState true b l .empty)
      (fun rc s' => rc = .success ∧ Tidy P m n s' ∧ s'.isDc = s.isDc ∧ s'.lba = s.lba) s := by
  refine wp_mono (setEmpty_spec h hl hin true) ?_
  rintro rc s' ⟨rfl, hr⟩
  exact ⟨rfl, h.resets hr fun x hx => .inr (hout x hx), hr.frame.isDc, hr.frame.lba⟩

theorem tidy_dcTableUpdate (h : Tidy P m n s) {x : ℕ} (hdc : s.isDc x = true)
    (hout : ∀ p < m, s.lba p ≠ x) :
    wp (fun _ => True) (dcTableUpdate x .empty)
      (fun rc s' => rc = .success ∧ Tidy P m n s' ∧ s'.isDc = s.isDc ∧ s'.lba = s.lba) s := by
  obtain ⟨it, hit⟩ := Option.isSome_iff_exists.1 hdc
  obtain ⟨hin, hused, -⟩ := h.registered x it hit
  unfold dcTableUpdate
  rw [wp_bind, wp_dssAssert]
  refine ⟨fun _ => ?_, fun _ => trivial⟩
  rw [if_neg (by decide), if_neg (by decide), wp_checked]
  refine wp_mono (tidy_setUsed h hin hused (by decide) (by decide)) ?_
  rintro rc s₁ ⟨rfl, h₁, hdc₁, hlba₁⟩
  refine ⟨fun hno => absurd rfl hno, fun _ => ?_⟩
  have hit₁ : s₁.ctx.dcTbl x = some it := by rw [hdc₁, hit]
  rw [wp_bind, wp_getDc hit₁]
  refine ⟨rfl, h₁.mark hit₁ (by rw [hlba₁]; exact hout), ?_, hlba₁⟩
  funext y
  show (Function.update s₁.ctx.dcTbl x _ y).isSome = (s.ctx.dcTbl y).isSome
  rw [Function.update_apply, hdc₁]
  split_ifs with hyx
  · rw [hyx, hit]
    rfl
  · rfl

/-- `dss_kvtrans_dc_table_delete`: the registered block gets the state that its item keeps. -/
theorem tidy_dcTableDelete (h : Tidy P m n s) (x y : ℕ) :
    wp (fun _ => True) (dcTableDelete x y)
      (fun rc s' => (rc = .success ∨ rc = .notFound) ∧ Tidy P m n s' ∧ s'.lba = s.lba) s := by
  unfold dcTableDelete getDc
  rw [wp_bind, wp_bind, wp_get]
  cases hit : s.ctx.dcTbl x with
  | none => trivial
  | some it =>
    obtain ⟨hin, hused, hst⟩ := h.registered x it hit
    rw [wp_pure, wp_ite]
    refine ⟨fun _ => ⟨.inr rfl, h, rfl⟩, fun _ => ?_⟩
    rw [wp_bind]
    have hset : wp (fun _ => True) (setBlkState true x 1 it.oriState) (fun rc s' => rc = .success ∧
        Resets P {x} s s' ∧ (s'.cell x ≠ blockStateFree ∨ ∀ p < m, s.lba p ≠ x)) s := by
      by_cases hempty : it.oriState = .empty
      · rw [hempty]
        refine wp_mono (setEmpty_spec h one_pos hin true) ?_
        rintro rc s₁ ⟨rfl, hr⟩
        refine ⟨rfl, ⟨hr.frame, hr.hosts, fun z hz hzx => hr.cell z hz fun hh => hzx ?_⟩,
          .inr (h.deleted x it hit hempty)⟩
        obtain ⟨h1, h2⟩ := hh
        dsimp only at h1 h2
        exact Set.mem_singleton_iff.2 (by omega)
      · have hpos : 0 < it.oriState.toCell ∧ it.oriState.toCell ≤ 8 := by
          rcases hst with hst | hst | hst
          · rw [hst]
            decide
          · rw [hst]
            decide
          · exact absurd hst hempty
        refine wp_mono (setUsed_spec h hin hused hpos.1 hpos.2 true) ?_
        rintro rc s₁ ⟨rfl, hr, hcell⟩
        exact ⟨rfl, hr, .inl hcell⟩
    refine wp_mono hset ?_
    rintro rc s₁ ⟨rfl, hr, hcell⟩
    -- the block is taken out of the table before its cell is set
    have herase := h.erase x
    have hr' : Resets P {x}
        { s with ctx := { s.ctx with dcTbl := Function.update s.ctx.dcTbl x none } }
        { s₁ with ctx := { s₁.ctx with dcTbl := Function.update s₁.ctx.dcTbl x none } } := by
      refine ⟨⟨hr.frame.chain, ?_⟩, hr.hosts, hr.cell⟩
      rw [hr.frame.ctx]
    refine ⟨.inl rfl, ?_, hr.frame.lba⟩
    have h' := herase.resets hr' fun z hz => by
      obtain rfl := Set.mem_singleton_iff.1 hz
      refine hcell.imp_right fun hno => ⟨hno, ?_⟩
      unfold Sys.isDc
      dsimp only
      rw [Function.update_self]
      rfl
    exact h'.congr rfl rfl (fun _ _ => rfl) fun _ _ _ hloc => hloc

theorem tidy_clearRun (h : Tidy P m n s) {sIdx eIdx : ℕ} (hle : sIdx ≤ eIdx)
    (hin : P.InRange sIdx (eIdx - sIdx))
    (hout : ∀ x, sIdx ≤ x → x < eIdx → (∀ p < m, s.lba p ≠ x) ∧ s.isDc x = false) :
    wp (fun _ => True)
      (if sIdx ≠ eIdx then setBlkState true sIdx (eIdx - sIdx) .empty else pure .success)
      (fun rc s' => rc = .success ∧ Tidy P m n s' ∧ s'.isDc = s.isDc ∧ s'.lba = s.lba) s := by
  rw [wp_ite]
  refine ⟨fun hne => ?_, fun _ => ⟨rfl, h, rfl, rfl⟩⟩
  refine tidy_setEmpty h (by omega) hin fun x hx => ?_
  obtain ⟨h1, h2⟩ := hx
  dsimp only at h1 h2
  exact hout x h1 (by omega)

theorem tidy_delExtent (h : Tidy P m n s) {last fuel sIdx eIdx : ℕ} (hle : sIdx ≤ eIdx)
    (hin : P.InRange sIdx (eIdx + fuel - sIdx))
    (hout : ∀ x, sIdx ≤ x → x < eIdx + fuel → ∀ p < m, s.lba p ≠ x)
    (hpassed : ∀ x, sIdx ≤ x → x < eIdx → s.isDc x = false) :
    wp (fun _ => True) (delExtent last fuel sIdx eIdx .success)
      (fun r s' => r = (.success, false) ∧ Tidy P m n s' ∧ s'.lba = s.lba) s := by
  induction fuel generalizing s sIdx eIdx with
  | zero =>
    have hrun := tidy_clearRun h hle hin fun x h1 h2 => ⟨hout x h1 h2, hpassed x h1 h2⟩
    unfold delExtent
    rw [wp_ite] at hrun ⊢
    refine ⟨fun hne => ?_, fun _ => ⟨rfl, h, rfl⟩⟩
    rw [wp_bind]
    refine wp_mono (hrun.1 hne) ?_
    rintro rc s₁ ⟨rfl, h₁, -, hlba⟩
    exact ⟨rfl, h₁, hlba⟩
  | succ fuel ih =>
    obtain ⟨hin1, hin2⟩ := hin
    unfold delExtent dcTableExist
    rw [wp_bind, wp_bind, wp_get, wp_pure]
    change wp _ (if s.isDc eIdx = true then _ else _) _ _
    rw [wp_ite]
    refine ⟨fun hdc => ?_, fun hdc => ?_⟩
    · -- the blocks before the registered one, its mark, and the rest of the extent
      have hrun := tidy_clearRun h hle ⟨hin1, by omega⟩
        fun x h1 h2 => ⟨hout x h1 (by omega), hpassed x h1 h2⟩
      have hrest : ∀ s₁ : Sys, Tidy P m n s₁ → s₁.isDc = s.isDc → s₁.lba = s.lba →
          wp (fun _ => True) (do
            let rc ← dcTableUpdate eIdx .empty
            delExtent last fuel (eIdx + 1) (eIdx + 1) rc)
            (fun r s' => r = (.success, false) ∧ Tidy P m n s' ∧ s'.lba = s.lba) s₁ := by
        intro s₁ h₁ hdc₁ hlba₁
        rw [wp_bind]
        refine wp_mono (tidy_dcTableUpdate h₁ (by rw [hdc₁, hdc]) ?_) ?_
        · rw [hlba₁]
          exact hout eIdx hle (by omega)
        · rintro rc s₂ ⟨rfl, h₂, -, hlba₂⟩
          refine wp_mono (ih h₂ le_rfl ⟨by omega, by omega⟩ (fun x h1 h2 => ?_)
            fun x h1 h2 => by omega) ?_
          · rw [hlba₂, hlba₁]
            exact hout x (by omega) (by omega)
          · rintro r s' ⟨rfl, h', hlba'⟩
            exact ⟨rfl, h', hlba'.trans (hlba₂.trans hlba₁)⟩
      rw [wp_ite] at hrun ⊢
      refine ⟨fun hne => ?_, fun heq => ?_⟩
      · rw [wp_bind]
        refine wp_mono (hrun.1 hne) ?_
        rintro rc s₁ ⟨rfl, h₁, hdc₁, hlba₁⟩
        dsimp only
        rw [if_neg (by decide)]
        exact hrest s₁ h₁ hdc₁ hlba₁
      · rw [wp_bind, wp_pure]
        dsimp only
        rw [if_neg (by decide)]
        exact hrest s h rfl rfl
    · rw [wp_ite]
      refine ⟨fun hend => ?_, fun _ => ?_⟩
      · rw [wp_bind]
        refine wp_mono (tidy_setEmpty h one_pos ⟨by omega, by omega⟩ fun x hx => ?_) ?_
        · obtain ⟨h1, h2⟩ := hx
          dsimp only at h1 h2
          have hxe : x = eIdx := by omega
          rw [hxe]
          exact ⟨hout eIdx hle (by omega), Bool.eq_false_iff.2 hdc⟩
        · rintro rc s₁ ⟨rfl, h₁, -, hlba⟩
          exact ⟨rfl, h₁, hlba⟩
      · refine ih h (by omega) ⟨hin1, by omega⟩ (fun x h1 h2 => hout x h1 (by omega))
          fun x h1 h2 => ?_
        by_cases hx : x = eIdx
        · rw [hx]
          exact Bool.eq_false_iff.2 hdc
        · exact hpassed x h1 (by omega)

theorem tidy_delExtents (h : Tidy P m n s) {locs : List ValueLoc}
    (hlocs : ∀ loc ∈ locs, P.InRange loc.valueIndex loc.numChunks ∧
      ∀ p < m, ¬ Holds (extentOf loc) (s.lba p)) :
    wp (fun _ => True) (delExtents locs .success)
      (fun r s' => r = (.success, false) ∧ Tidy P m n s' ∧ s'.lba = s.lba) s := by
  induction locs generalizing s with
  | nil => exact ⟨rfl, h, rfl⟩
  | cons loc locs ih =>
    obtain ⟨hin, hout⟩ := hlocs loc (List.mem_cons_self ..)
    unfold delExtents
    rw [wp_bind]
    refine wp_mono (tidy_delExtent h le_rfl (by rwa [Nat.add_sub_cancel_left])
      (fun x h1 h2 p hp heq => hout p hp ?_) fun x h1 h2 => by omega) ?_
    · rw [heq]
      exact ⟨h1, h2⟩
    · rintro r s₁ ⟨rfl, h₁, hlba⟩
      dsimp only
      rw [if_neg Bool.false_ne_true]
      refine wp_mono (ih h₁ fun l hl => ?_) ?_
      · rw [hlba]
        exact hlocs l (List.mem_cons_of_mem _ hl)
      · rintro r s' ⟨rfl, h', hlba'⟩
        exact ⟨rfl, h', hlba'.trans hlba⟩

theorem tidy_blkDelValue (h : Tidy P m n s) {p : ℕ} (hp : p < n) :
    wp (fun _ => True) (blkDelValue p) (fun rc s' => rc = .success ∧ Tidy P m n s') s := by
  have hextents : (s.req.chain.getD p BlkCtx.zero).blk.valueLocation ≠ .inline →
      s.extents p = (s.req.chain.getD p BlkCtx.zero).blk.placeValue := fun hne => if_neg hne
  have hdrop : ∀ s₁ : Sys, Tidy P m n s₁ → wp (fun _ => True) (do
      modifyBlk p fun b => { b with
        blk := { b.blk with
          valueBuffer := if b.blk.valueLocation = .inline then [] else b.blk.valueBuffer
          valueSize := 0, valueLocation := .inline, placeValue := [] } }
      return Status.success) (fun rc s' => rc = .success ∧ Tidy P m n s') s₁ := by
    intro s₁ h₁
    rw [wp_bind]
    exact wp_mono (tidy_modifyBlk (fun _ => rfl) (fun _ => .inl rfl) h₁) fun _ _ h' => ⟨rfl, h'⟩
  unfold blkDelValue
  rw [wp_bind, wp_blkAt, wp_ite]
  refine ⟨fun _ => hdrop s h, fun hne => ?_⟩
  rw [wp_bind]
  refine wp_mono (tidy_delExtents h fun loc hloc => ?_) ?_
  · obtain ⟨hin, hout⟩ := h.apart p hp loc (by rw [hextents hne]; exact hloc)
    exact ⟨hin, fun q hq => hout q (hq.trans_le h.le)⟩
  · rintro r s₁ ⟨rfl, h₁, -⟩
    exact hdrop s₁ h₁

theorem tidy_freeMetaBlk (h : Tidy P m n s) {x : ℕ} (hin : P.InRange x 1)
    (hout : ∀ p < m, s.lba p ≠ x) :
    wp (fun _ => True) (freeMetaBlk x) (fun rc s' => rc = .success ∧ Tidy P m n s') s := by
  unfold freeMetaBlk dcTableExist
  rw [wp_bind, wp_bind, wp_get, wp_pure]
  change wp _ (if s.isDc x = true then _ else _) _ _
  rw [wp_ite]
  refine ⟨fun hdc => ?_, fun hdc => ?_⟩
  · refine wp_mono (tidy_dcTableUpdate h hdc hout) ?_
    rintro rc s' ⟨rfl, h', -⟩
    exact ⟨rfl, h'⟩
  · refine wp_mono (tidy_setEmpty h one_pos hin fun y hy => ?_) ?_
    · obtain ⟨h1, h2⟩ := hy
      dsimp only at h1 h2
      have hyx : y = x := by omega
      rw [hyx]
      exact ⟨hout, Bool.eq_false_iff.2 hdc⟩
    · rintro rc s' ⟨rfl, h', -⟩
      exact ⟨rfl, h'⟩

theorem Quiet.lba {T : Set ℕ} (h : Quiet T s s') : s'.lba = s.lba := by
  have hlba : ∀ t : Sys, ∀ p, t.lba p = t.req.lbas.getD p 0 := by
    intro t p
    unfold Sys.lba Kreq.lbas
    rw [List.getD_eq_getElem?_getD, List.getD_eq_getElem?_getD, List.getElem?_map]
    cases t.req.chain[p]? with
    | none => rfl
    | some b => rfl
  funext p
  rw [hlba, hlba, Kreq.lbas_eq_cores, Kreq.lbas_eq_cores, h.cores]

theorem tidy_dropDc (h : Tidy P m n s) (p : ℕ) :
    wp (fun _ => True) (dropDc p) (fun rc s' => rc = .success ∧ Tidy P m n s') s := by
  unfold dropDc
  rw [wp_bind, wp_blkAt, wp_bind]
  refine wp_mono (tidy_dcTableDelete h _ _) ?_
  rintro rc s₁ ⟨hrc, h₁, -⟩
  rw [wp_ite]
  refine ⟨fun _ => ?_, fun hne => ⟨hrc.resolve_right hne, h₁⟩⟩
  rw [wp_bind, wp_dssAssert]
  exact ⟨fun _ => ⟨rfl, h₁⟩, fun _ => trivial⟩

theorem tidy_countedDropDc (h : Tidy P m n s) (p : ℕ) (f : Dstat → Dstat) :
    wp (fun _ => True) (checked (dropDc p) do modifyStat f; return .success)
      (fun rc s' => rc = .success ∧ Tidy P m n s') s := by
  rw [wp_checked]
  refine wp_mono (tidy_dropDc h p) ?_
  rintro rc s₁ ⟨rfl, h₁⟩
  refine ⟨fun hno => absurd rfl hno, fun _ => ?_⟩
  rw [wp_bind]
  exact wp_mono (tidy_modifyStat h₁ f) fun _ _ h₂ => ⟨rfl, h₂⟩

theorem tidy_dropEntryDc (h : Tidy P m n s) (p : ℕ) :
    wp (fun _ => True) (dropEntryDc p) (fun rc s' => rc = .success ∧ Tidy P m n s') s := by
  unfold dropEntryDc
  rw [wp_bind, wp_blkAt, wp_ite]
  refine ⟨fun _ => ?_, fun _ => ⟨rfl, h⟩⟩
  rw [wp_bind, wp_dssAssert]
  exact ⟨fun _ => tidy_countedDropDc h p _, fun _ => trivial⟩

theorem tidy_clearExtension (h : Tidy P m n s) (p : ℕ) :
    wp (fun _ => True) (clearExtension p) (fun _ s' => Tidy P m n s') s :=
  tidy_modifyBlk (fun _ => rfl) (fun _ => .inr ⟨rfl, rfl⟩) h

/-- `_delete_collision_entry` for a block that is not needed any more. -/
theorem freeParent_success {p : ℕ} (h : Tidy P m n s) (hp : p < n) :
    wp (fun _ => True) (freeParent P p) (fun rc _ => rc = .success) s := by
  have hin := h.inRange p hp
  have hrest : ∀ s₁, Tidy P m n s₁ → wp (fun _ => True) (do
      modifyBlk p fun b => { b with state := .empty }
      checked (setBlkState true (s.lba p) 1 .empty) do
        deleteOndiskBlk P p
        return .success) (fun rc _ => rc = .success) s₁ := by
    intro s₁ h₁
    rw [wp_bind]
    refine wp_mono (tidy_modifyBlk (fun _ => rfl) (fun _ => .inr ⟨rfl, rfl⟩) h₁) fun _ s₂ h₂ => ?_
    rw [wp_checked]
    refine wp_mono (setEmpty_spec h₂ one_pos hin true) ?_
    rintro rc s₃ ⟨rfl, -⟩
    refine ⟨fun hno => absurd rfl hno, fun _ => ?_⟩
    rw [wp_bind]
    exact wp_true_iff.2 fun _ _ _ => rfl
  unfold freeParent
  rw [wp_bind, wp_blkAt, wp_checked, wp_ite]
  refine ⟨fun _ => ?_, fun _ => ?_⟩
  · rw [wp_bind]
    refine wp_mono (tidy_dcTableDelete h _ _) ?_
    rintro rc s₁ ⟨hrc, h₁, -⟩
    have hok : (if rc = .notFound then .success else rc) = Status.success := by
      split_ifs with hnf
      · rfl
      · exact hrc.resolve_right hnf
    rw [hok, wp_checked, wp_pure]
    refine ⟨fun hno => absurd rfl hno, fun _ => ?_⟩
    rw [wp_bind]
    refine wp_mono (tidy_modifyStat h₁ _) fun _ s₂ h₂ => ?_
    exact ⟨fun hno => absurd rfl hno, fun _ => hrest s₂ h₂⟩
  · rw [wp_bind]
    refine wp_mono (tidy_modifyStat h _) fun _ s₁ h₁ => ?_
    exact ⟨fun hno => absurd rfl hno, fun _ => hrest s₁ h₁⟩

section

variable (hP : P.build = .disk)

include hP

theorem tidy_deleteOndiskBlk (h : Tidy P m n s) (p : ℕ) :
    wp (fun _ => True) (deleteOndiskBlk P p) (fun _ s' => Tidy P m n s') s := by
  unfold deleteOndiskBlk
  rw [hP, wp_bind, wp_blkAt, wp_bind]
  exact tidy_modifyBlk (fun _ => rfl) (fun _ => .inr ⟨rfl, rfl⟩) h

theorem tidy_cleanBlk (h : Tidy P m n s) {p : ℕ} (hp : p < n) (hmp : m ≤ p) :
    wp (fun _ => True) (cleanBlk P p) (fun rc s' => rc = .success ∧ Tidy P m n s') s := by
  have hquiet : Keeps (Quiet {p})
      (if (s.req.chain.getD p BlkCtx.zero).blk.valueLocation = .inline then pure .success
        else blkDelValue p) :=
    Keeps.ite (fun _ => Keeps.pure _) fun _ => quiet_blkDelValue (Set.mem_singleton p)
  have hvalue : wp (fun _ => True)
      (if (s.req.chain.getD p BlkCtx.zero).blk.valueLocation = .inline then pure .success
        else blkDelValue p) (fun rc s' => rc = .success ∧ Tidy P m n s') s :=
    wp_ite.2 ⟨fun _ => ⟨rfl, h⟩, fun _ => tidy_blkDelValue h hp⟩
  unfold cleanBlk
  rw [wp_bind, wp_blkAt, wp_checked]
  refine wp_mono (wp_and hvalue (hquiet s)) ?_
  rintro rc s₁ ⟨⟨rfl, h₁⟩, hq⟩
  refine ⟨fun hno => absurd rfl hno, fun _ => ?_⟩
  rw [wp_checked]
  refine wp_mono (tidy_freeMetaBlk h₁ (h.inRange p hp) fun q hq' => ?_) ?_
  · rw [hq.lba]
    exact h.distinct p hp q (hq'.trans_le hmp)
  · rintro rc s₂ ⟨rfl, h₂⟩
    refine ⟨fun hno => absurd rfl hno, fun _ => ?_⟩
    rw [wp_bind]
    refine wp_mono (tidy_deleteOndiskBlk hP h₂ p) fun _ s₃ h₃ => ?_
    rw [wp_bind]
    exact wp_mono (tidy_modifyBlk (fun _ => rfl) (fun _ => .inl rfl) h₃) fun _ _ h₄ => ⟨rfl, h₄⟩

theorem cleanUpward_success {p : ℕ} (h : Tidy P p n s) :
    wp (fun _ => True) (cleanUpward P p) (fun rc _ => rc = .success) s := by
  induction p generalizing s with
  | zero => exact rfl
  | succ p ih =>
    have hp : p < n := h.le
    unfold cleanUpward
    rw [wp_bind, wp_blkAt, wp_ite]
    refine ⟨fun _ => ?_, fun _ => rfl⟩
    rw [wp_bind]
    refine wp_mono (tidy_modifyStat h _) fun _ s₁ h₁ => ?_
    rw [wp_checked]
    refine wp_mono (tidy_dropEntryDc h₁ p) ?_
    rintro rc s₂ ⟨rfl, h₂⟩
    refine ⟨fun hno => absurd rfl hno, fun _ => ?_⟩
    rw [wp_checked]
    refine wp_mono (tidy_cleanBlk hP (h₂.mono p.le_succ) hp le_rfl) ?_
    rintro rc s₃ ⟨rfl, h₃⟩
    refine ⟨fun hno => absurd rfl hno, fun _ => ?_⟩
    rw [wp_ite]
    refine ⟨fun _ => rfl, fun _ => ?_⟩
    rw [wp_bind]
    exact wp_mono (tidy_clearExtension h₃ (p - 1)) fun _ s₄ h₄ => ih h₄

/-- `clean_collision_extension` up to the loop, with the block before as it is then. -/
theorem tidy_cleanExtension {p : ℕ} (h : Tidy P p n s) (hp : p < n) (hp0 : p ≠ 0) (x : ℕ)
    {k : M Status} {Q : Status → Sys → Prop}
    (hk : ∀ s', Tidy P p n s' → s'.req.req = s.req.req →
      (s'.req.chain.getD (p - 1) BlkCtx.zero).blk =
        unlinked (s.req.chain.getD (p - 1) BlkCtx.zero).blk x → wp (fun _ => True) k Q s') :
    wp (fun _ => True) (do
      modifyStat fun st => { st with ce := st.ce - 1 }
      (if (s.req.chain.getD (p - 1) BlkCtx.zero).blk.collisionExtensionIndex = x then
        clearExtension (p - 1) else pure ())
      checked (dropEntryDc p) (checked (cleanBlk P p) k)) Q s := by
  have hstays : ∀ {m : M Status}, Keeps (Quiet {p}) m → Keeps (Stays BlkCtx.blk (p - 1)) m :=
    fun hm => hm.mono fun _ _ hq => hq.stays (by rw [Set.mem_singleton_iff]; omega)
  have hrest : ∀ s₁, Tidy P p n s₁ → s₁.req.req = s.req.req →
      (s₁.req.chain.getD (p - 1) BlkCtx.zero).blk =
        unlinked (s.req.chain.getD (p - 1) BlkCtx.zero).blk x →
      wp (fun _ => True) (checked (dropEntryDc p) (checked (cleanBlk P p) k)) Q s₁ := by
    intro s₁ h₁ hreq hblk
    rw [wp_checked]
    refine wp_mono (wp_and (tidy_dropEntryDc h₁ p) (hstays (quiet_dropEntryDc p) s₁)) ?_
    rintro rc s₂ ⟨⟨rfl, h₂⟩, hreq₂, hblk₂⟩
    refine ⟨fun hno => absurd rfl hno, fun _ => ?_⟩
    rw [wp_checked]
    refine wp_mono (wp_and (tidy_cleanBlk hP h₂ hp le_rfl)
      (hstays (quiet_cleanBlk hP (Set.mem_singleton p)) s₂)) ?_
    rintro rc s₃ ⟨⟨rfl, h₃⟩, hreq₃, hblk₃⟩
    exact ⟨fun hno => absurd rfl hno, fun _ =>
      hk s₃ h₃ (hreq₃.trans (hreq₂.trans hreq)) (hblk₃.trans (hblk₂.trans hblk))⟩
  have h₁ := tidy_modifyStat h fun st => { st with ce := st.ce - 1 }
  unfold modifyStat modifyCtx at h₁ ⊢
  rw [wp_modify] at h₁
  rw [wp_bind, wp_modify, wp_bind, wp_ite]
  refine ⟨fun hlink => ?_, fun hlink => hrest _ h₁ rfl ?_⟩
  · have h₂ := tidy_clearExtension h₁ (p - 1)
    unfold clearExtension modifyBlk at h₂ ⊢
    rw [wp_modify] at h₂ ⊢
    refine hrest _ h₂ rfl ?_
    unfold unlinked
    dsimp only
    rw [if_pos hlink]
    by_cases hlen : p - 1 < s.req.chain.length
    · rw [getD_modify hlen]
    · rw [List.modify_eq_self (by omega), List.getD_eq_getElem?_getD,
        List.getElem?_eq_none (by omega)]
      rfl
  · unfold unlinked
    rw [if_neg hlink]

/-- `clean_collision_extension` of a block whose blocks before are in use. -/
theorem cleanCollisionExtension_success {p : ℕ} (h : Tidy P p n s) (hp : p < n) :
    wp (fun _ => True) (cleanCollisionExtension P p) (fun rc _ => rc = .success) s := by
  unfold cleanCollisionExtension
  rw [wp_bind, wp_dssAssert]
  refine ⟨fun hp0 => ?_, fun _ => trivial⟩
  rw [wp_bind, wp_blkAt, wp_bind, wp_blkAt, wp_ite]
  exact ⟨fun _ => tidy_cleanExtension hP h hp hp0 _ fun s' h' _ _ => cleanUpward_success hP h',
    fun _ => rfl⟩

/-- The block before the extension is not empty without it: it stays as it is, up to the link. -/
theorem tidy_cleanCollisionExtension {p : ℕ} (h : Tidy P p n s) (hp : p < n)
    (hstays : holdsNothing (unlinked (s.req.chain.getD (p - 1) BlkCtx.zero).blk
      (s.req.chain.getD p BlkCtx.zero).index) = false) :
    wp (fun _ => True) (cleanCollisionExtension P p) (fun _ s' => Tidy P p n s' ∧
      s'.req.req = s.req.req ∧ (s'.req.chain.getD (p - 1) BlkCtx.zero).blk.collisionTbl =
        (s.req.chain.getD (p - 1) BlkCtx.zero).blk.collisionTbl) s := by
  unfold cleanCollisionExtension
  rw [wp_bind, wp_dssAssert]
  refine ⟨fun hp0 => ?_, fun _ => trivial⟩
  rw [wp_bind, wp_blkAt, wp_bind, wp_blkAt, wp_ite]
  refine ⟨fun _ => tidy_cleanExtension hP h hp hp0 _ fun s' h' hreq hblk => ?_,
    fun _ => ⟨h, rfl, rfl⟩⟩
  obtain ⟨q, rfl⟩ := Nat.exists_eq_succ_of_ne_zero hp0
  rw [Nat.succ_sub_one] at hblk hstays
  unfold cleanUpward
  rw [wp_bind, wp_blkAt, hblk, hstays, if_neg (by decide), wp_pure, Nat.succ_sub_one, hblk]
  exact ⟨h', hreq, rfl⟩

theorem stays_freeParent (p : ℕ) : Keeps (Stays BlkCtx.blk p) (freeParent P p) := by
  have hstate : Keeps (Stays BlkCtx.blk p) (modifyBlk p fun b => { b with state := .empty }) :=
    stays_modifyBlk fun _ => rfl
  have hquiet : ∀ {α : Type} {m : M α}, Keeps (Quiet ∅) m → Keeps (Stays BlkCtx.blk p) m :=
    fun hm => stays_of_quiet hm
  unfold freeParent deleteOndiskBlk
  rw [hP]
  refine Keeps.bind (hquiet (quiet_blkAt p)) fun b =>
    keeps_checked (Keeps.ite (fun _ => ?_) fun _ => ?_) ?_
  · refine Keeps.bind (hquiet (quiet_dcTableDelete _ _)) fun rc => ?_
    exact keeps_checked (Keeps.pure _) (hquiet (quiet_countThen _ _))
  · exact hquiet (quiet_countThen _ _)
  · refine Keeps.bind hstate fun _ => keeps_checked (hquiet (quiet_setBlkState _ _ _ _)) ?_
    refine Keeps.bind (Keeps.bind (hquiet (quiet_blkAt p)) fun b => ?_) fun _ => Keeps.pure _
    exact Keeps.bind hstate fun _ => Keeps.pure _

/-- `_delete_collision_entry` on a block that has no entries any more: it gets a state that fits, or
goes. -/
theorem settleParent_success {p : ℕ} (h : Tidy P m n s) (hp : p < m) :
    wp (fun _ => True) (settleParent P p) (fun rc s' => rc = .success ∧ (Tidy P m n s' ∨
      (s'.req.chain.getD p BlkCtx.zero).blk.numValidColEntry = 0)) s := by
  unfold settleParent
  rw [wp_bind, wp_blkAt, wp_ite]
  refine ⟨fun hempty => ?_, fun _ => ⟨rfl, .inl h⟩⟩
  rw [wp_ite]
  refine ⟨fun _ => ?_, fun _ => ?_⟩
  · rw [wp_ite]
    refine ⟨fun _ => ?_, fun _ => ⟨rfl, .inl h⟩⟩
    rw [wp_bind]
    refine wp_mono (wp_and (tidy_modifyBlk (fun _ => rfl) (fun _ => .inr ⟨rfl, rfl⟩) h)
      (quiet_setState (Set.mem_singleton p) _ s)) ?_
    rintro - s₁ ⟨h₁, hq⟩
    rw [wp_bind, show (s.req.chain.getD p BlkCtx.zero).index = s₁.lba p by rw [hq.lba]; rfl]
    refine wp_mono (tidy_setLba h₁ hp (by decide) (by decide)) ?_
    rintro rc s₂ ⟨rfl, h₂⟩
    rw [wp_bind]
    exact wp_mono (tidy_modifyStat h₂ _) fun _ s₃ h₃ => ⟨rfl, .inl h₃⟩
  · refine wp_mono (wp_and (freeParent_success h (hp.trans_le h.le)) (stays_freeParent hP p s)) ?_
    rintro rc s₁ ⟨rfl, -, hblk⟩
    refine ⟨rfl, .inr ?_⟩
    rw [hblk]
    exact hempty.1

omit hP in
theorem leaveDcParent_success {p : ℕ} (h : Tidy P m n s ∨
      (s.req.chain.getD p BlkCtx.zero).blk.numValidColEntry = 0) (hp : p < m) (col : ℕ) :
    wp (fun _ => True) (leaveDcParent p col) (fun rc _ => rc = .success) s := by
  unfold leaveDcParent
  rw [wp_bind, wp_blkAt, wp_bind, wp_blkAt, wp_ite]
  refine ⟨fun hdc => ?_, fun _ => rfl⟩
  replace h := h.resolve_right fun hnone => by
    have h1 := hdc.2
    omega
  dsimp only
  rw [wp_bind]
  refine wp_mono (wp_and (tidy_modifyBlk (fun _ => rfl) (fun _ => .inr ⟨rfl, rfl⟩) h)
    (quiet_setBlk (Set.mem_singleton p) _ s)) ?_
  rintro - s₁ ⟨h₁, hq⟩
  rw [wp_ite]
  refine ⟨fun _ => ?_, fun _ => rfl⟩
  rw [wp_bind]
  refine wp_mono (tidy_dcTableDelete h₁ _ _) ?_
  rintro rc s₂ ⟨hrc, h₂, hlba₂⟩
  rw [wp_ite]
  refine ⟨fun hno => ?_, fun _ => ?_⟩
  · exact absurd hrc (not_or.2 hno)
  · rw [wp_bind]
    refine wp_mono (wp_and (tidy_modifyStat h₂ _) (quiet_modifyStat (T := ∅) _ s₂)) ?_
    rintro - s₃ ⟨h₃, hq₃⟩
    rw [wp_bind, show (s.req.chain.getD p BlkCtx.zero).index = s₃.lba p by
      rw [hq₃.lba, hlba₂, hq.lba]
      rfl]
    refine wp_mono (tidy_setLba h₃ hp (by decide) (by decide)) ?_
    rintro rc s₄ ⟨rfl, -⟩
    rw [wp_bind]
    exact wp_true_iff.2 fun _ _ _ => rfl

/-- `_delete_collision_entry` succeeds. -/
theorem deleteCollisionEntry_success {p : ℕ} (h : Tidy P m n s) (hp : p < m)
    (hfound : ∃ i, isEntryMatch ((s.req.chain.getD p BlkCtx.zero).blk.collisionTbl i)
      s.req.req.key = true) (col : ℕ) :
    wp (fun _ => True) (deleteCollisionEntry P p col) (fun rc _ => rc = .success) s := by
  unfold deleteCollisionEntry
  rw [wp_bind, wp_get, wp_bind, wp_blkAt]
  split
  · rename_i hnone
    obtain ⟨i, hi⟩ := hfound
    exact absurd hi (List.find?_eq_none.1 hnone i (List.mem_finRange i))
  · rename_i i hi
    rw [wp_bind]
    refine wp_mono (tidy_modifyBlk (fun _ => rfl) (fun _ => .inr ⟨rfl, rfl⟩) h) fun _ s₁ h₁ => ?_
    rw [wp_bind, wp_blkAt, wp_ite]
    refine ⟨fun _ => ?_, fun _ => ?_⟩
    · exact cleanCollisionExtension_success hP (h₁.mono hp.le) (hp.trans_le h.le)
    · rw [wp_checked]
      refine wp_mono (settleParent_success hP h₁ hp) ?_
      rintro rc s₂ ⟨rfl, h₂⟩
      exact ⟨fun hno => absurd rfl hno, fun _ => leaveDcParent_success h₂ hp col⟩

end

end

end DssSdk.Kvtrans
