import DssSdk.Kvtrans.StoredValues
import DssSdk.Kvtrans.DataBlocks
import DssSdk.Kvtrans.Statistics

/-!
# Requests on one block

The handlers of a request whose chain is its entry block, in the memory build and without data
collisions. They work on a device of block states, meta blocks and values.

* `Device`, `Shows`: the device of a translator;
* `On`: a request on one block of a device;
* `blkInitValue_on`, `blkDelValue_on`: the blocks of a value are taken, and are freed;
* `initMetaBlk_on`, `updateMetaBlk_on`: a new key, and a new value or the deletion of a key.

All of them return: no request on one block reaches an assertion.
-/

namespace DssSdk.Kvtrans

open BlockAllocator Program Extents

/-- The blocks of a device, each with its state, its meta block and its bytes. -/
structure Device where
  cell : ℕ → ℕ
  metas : ℕ → Option OndiskMeta
  datas : ℕ → List UInt8

namespace Device

/-- The blocks of the extents in the state `v`. -/
def fill (D : Device) (es : List (ℕ × ℕ)) (v : ℕ) : Device :=
  { D with cell := fun x => if Covers es x then v else D.cell x }

/-- A meta block and the bytes of its value. -/
def put (P : Params) (D : Device) (h : ℕ) (blk : OndiskMeta) (value : List UInt8) : Device :=
  { D with
    metas := Function.update D.metas h (some blk)
    datas := if blk.valueLocation = .inline then D.datas
      else insertAll P D.datas value 0 blk.placeValue }

/-- No meta block. -/
def drop (D : Device) (h : ℕ) : Device := { D with metas := Function.update D.metas h none }

theorem fill_of_covers (D : Device) {es : List (ℕ × ℕ)} {x : ℕ} (hx : Covers es x) (v : ℕ) :
    (D.fill es v).cell x = v := if_pos hx

theorem fill_of_not_covers (D : Device) {es : List (ℕ × ℕ)} {x : ℕ} (hx : ¬ Covers es x) (v : ℕ) :
    (D.fill es v).cell x = D.cell x := if_neg hx

theorem covers_one {h x : ℕ} : Covers [(h, 1)] x ↔ x = h := by
  simp only [covers_cons, not_covers_nil, or_false]
  unfold Holds
  dsimp only
  omega

@[simp] theorem fill_nil (D : Device) (v : ℕ) : D.fill [] v = D := by
  unfold fill
  simp only [not_covers_nil, if_false]

end Device

variable (P : Params)

/-- The translator has the device, and no data collision. -/
structure Shows (D : Device) (c : Ctx) : Prop where
  serves : ∀ r, Serves P ⟨c, r⟩
  noDc : c.dcTbl = fun _ => none
  cell : ∀ x, P.blkOffset ≤ x → c.alloc.alloc.cellOf x = D.cell x
  metas : c.metas = D.metas
  datas : c.datas = D.datas
  dense : c.alloc.alloc.jso.jarrFreeContigLen.Dense

/-- In the disk build the I/O task of the request is empty, no request waits, and no meta block is dirty
but the entry block of the key, when it was loaded to be modified. -/
def Calm (q : Req) (s : Sys) : Prop :=
  P.build = .disk → s.req.io = [] ∧ s.req.ioToQueue = false ∧ s.ctx.kvReqQueue = [] ∧
    ∀ x, s.ctx.dirtyMetaLba x = true →
      x = P.hash (bytes q.key q.length) ∧ modifyMeta q.opc = true ∧ s.req.state ≠ .reqInitialized

/-- A request on one block of the device. -/
structure On (D : Device) (q : Req) (st : ReqState) (b : BlkCtx) (s : Sys) : Prop where
  ctx : Shows P D s.ctx
  chain : s.req.chain = [b]
  req : s.req.req = q
  state : s.req.state = st
  calm : Calm P q s

section

variable {P} {D : Device} {q : Req} {st st' : ReqState} {b b' : BlkCtx} {s s' : Sys}

theorem Shows.congr {c c' : Ctx} (h : Shows P D c) (halloc : c'.alloc = c.alloc)
    (hdc : c'.dcTbl = c.dcTbl) (hmetas : c'.metas = c.metas) (hdatas : c'.datas = c.datas) :
    Shows P D c' := by
  refine ⟨fun r => ?_, hdc.trans h.noDc, fun x hx => ?_, hmetas.trans h.metas, hdatas.trans h.datas,
    by rw [halloc]; exact h.dense⟩
  · obtain ⟨hinv, hoffset, hblocks, hstates⟩ := h.serves r
    refine ⟨?_, ?_, ?_, ?_⟩ <;> dsimp only <;> rw [halloc]
    · exact hinv
    · exact hoffset
    · exact hblocks
    · exact hstates
  · rw [halloc]
    exact h.cell x hx

theorem Calm.congr (h : Calm P q s) (hio : s'.req.io = s.req.io)
    (hio' : s'.req.ioToQueue = s.req.ioToQueue) (hqueue : s'.ctx.kvReqQueue = s.ctx.kvReqQueue)
    (hdirty : s'.ctx.dirtyMetaLba = s.ctx.dirtyMetaLba) (hst : s'.req.state ≠ .reqInitialized) :
    Calm P q s' := by
  intro hP
  obtain ⟨h₁, h₂, h₃, h₄⟩ := h hP
  refine ⟨hio.trans h₁, hio'.trans h₂, hqueue.trans h₃, fun x hx => ?_⟩
  rw [hdirty] at hx
  exact ⟨(h₄ x hx).1, (h₄ x hx).2.1, hst⟩

theorem On.serves (h : On P D q st b s) : Serves P s := h.ctx.serves s.req

theorem On.cell (h : On P D q st b s) {x : ℕ} (hx : P.blkOffset ≤ x) : s.cell x = D.cell x :=
  h.ctx.cell x hx

theorem On.isDc (h : On P D q st b s) (x : ℕ) : (s.ctx.dcTbl x).isSome = false := by
  rw [h.ctx.noDc]
  rfl

theorem On.getD_chain (h : On P D q st b s) : s.req.chain.getD 0 BlkCtx.zero = b := by
  rw [h.chain]
  rfl

theorem On.wp_blkAt {E : Fault → Prop} {Q : BlkCtx → Sys → Prop} (h : On P D q st b s) :
    wp E (blkAt 0) Q s ↔ Q b s := by
  rw [Kvtrans.wp_blkAt, h.getD_chain]

theorem On.wp_modifyBlk {E : Fault → Prop} {Q : Unit → Sys → Prop} {f : BlkCtx → BlkCtx}
    (h : On P D q st b s) (hQ : ∀ s', On P D q st (f b) s' → Q () s') : wp E (modifyBlk 0 f) Q s := by
  unfold modifyBlk
  rw [wp_modify]
  exact hQ _ ⟨h.ctx, by dsimp only; rw [h.chain]; rfl, h.req, h.state, h.calm⟩

theorem On.wp_setState {E : Fault → Prop} {Q : Unit → Sys → Prop} (h : On P D q st b s)
    (hst : st' ≠ .reqInitialized)
    (hQ : ∀ s', On P D q st' b s' → s'.req.allocFailed = s.req.allocFailed → Q () s') :
    wp E (modifyReq fun r => { r with state := st' }) Q s := by
  unfold modifyReq
  rw [wp_modify]
  exact hQ _ ⟨h.ctx, h.chain, h.req, rfl, h.calm.congr rfl rfl rfl rfl hst⟩ rfl

end

/-! ### The block states -/

/-- A block context with other extents. -/
def BlkCtx.withPlaces (b : BlkCtx) (locs : List ValueLoc) (remote : ℕ) : BlkCtx :=
  { b with blk := { b.blk with placeValue := locs }, remoteValBlocks := remote }

/-- Only the allocator and the extents of the block context change, and a failed allocation stays
recorded. -/
structure Searches (s s' : Sys) : Prop where
  ctx : s'.ctx = { s.ctx with alloc := s'.ctx.alloc }
  req : s'.req.req = s.req.req
  state : s'.req.state = s.req.state
  io : s'.req.io = s.req.io
  ioToQueue : s'.req.ioToQueue = s.req.ioToQueue
  failed : s.req.allocFailed = true → s'.req.allocFailed = true
  dense : s.ctx.alloc.alloc.jso.jarrFreeContigLen.Dense →
    s'.ctx.alloc.alloc.jso.jarrFreeContigLen.Dense
  chain : ∀ b, s.req.chain = [b] → ∃ locs remote, s'.req.chain = [b.withPlaces locs remote]

instance : IsPreorder Sys Searches where
  refl s := ⟨rfl, rfl, rfl, rfl, rfl, id, id, fun b hb => ⟨b.blk.placeValue, b.remoteValBlocks, hb⟩⟩
  trans s s₁ s₂ h h' := by
    refine ⟨?_, h'.req.trans h.req, h'.state.trans h.state, h'.io.trans h.io,
      h'.ioToQueue.trans h.ioToQueue, h'.failed ∘ h.failed, h'.dense ∘ h.dense, fun b hb => ?_⟩
    · rw [h'.ctx, h.ctx]
    · obtain ⟨locs, remote, hb₁⟩ := h.chain b hb
      obtain ⟨locs', remote', hb₂⟩ := h'.chain _ hb₁
      exact ⟨locs', remote', hb₂⟩

theorem searches_of {s s' : Sys} (hctx : s'.ctx = { s.ctx with alloc := s'.ctx.alloc })
    (hreq : s'.req = { s.req with
      baMetaUpdated := s'.req.baMetaUpdated, allocFailed := s'.req.allocFailed })
    (hfailed : s.req.allocFailed = true → s'.req.allocFailed = true)
    (hdense : s.ctx.alloc.alloc.jso.jarrFreeContigLen.Dense →
      s'.ctx.alloc.alloc.jso.jarrFreeContigLen.Dense) : Searches s s' := by
  refine ⟨hctx, by rw [hreq], by rw [hreq], by rw [hreq], by rw [hreq], hfailed, hdense, fun b hb => ?_⟩
  refine ⟨b.blk.placeValue, b.remoteValBlocks, ?_⟩
  rw [hreq]
  exact hb

theorem searches_call {s : Sys} {call : Context.Call} {r : Context.Reply}
    (h : s.ctx.alloc.call call = some r) :
    Searches s { s with ctx := { s.ctx with alloc := r.ctx } } :=
  searches_of rfl rfl id (Context.step_dense (Option.map_eq_some_iff.2 ⟨r, h, rfl⟩))

theorem searches_setBaMetaUpdated : Keeps Searches setBaMetaUpdated :=
  Keeps.modify fun _ => searches_of rfl rfl id id

theorem searches_recordAllocFailed : Keeps Searches recordAllocFailed :=
  Keeps.modify fun _ => searches_of rfl rfl (fun _ => rfl) id

theorem searches_setBlkState (hasCtx : Bool) (index n : ℕ) (state : BlkState) :
    Keeps Searches (setBlkState hasCtx index n state) :=
  keeps_setBlkState (fun _ _ _ h => searches_call h) searches_setBaMetaUpdated hasCtx index n state

theorem searches_allocContig (state : BlkState) (hint n : ℕ) :
    Keeps Searches (allocContig state hint n) := by
  intro s
  unfold allocContig
  rw [wp_bind, wp_get]
  split
  · trivial
  · rename_i r hr
    have hrest : Keeps Searches (if r.status = .success then do
          setBaMetaUpdated
          return r.allocatedStartBlock
        else do
          if n = 1 then recordAllocFailed
          return none) := by
      refine Keeps.ite (fun _ => ?_) fun _ => ?_
      · exact Keeps.bind searches_setBaMetaUpdated fun _ => Keeps.pure _
      · refine Keeps.ite (fun _ => ?_) fun _ => Keeps.pure _
        exact Keeps.bind searches_recordAllocFailed fun _ => Keeps.pure _
    unfold modifyCtx
    rw [wp_bind, wp_modify]
    refine wp_mono (hrest _) fun _ s' h => trans_of Searches ?_ h
    have hcall : s.ctx.alloc.call (.allocBlocksContig state.toCell hint n true) = some r := hr
    exact searches_call hcall

theorem searches_findDataBlocks (fuel n : ℕ) : Keeps Searches (findDataBlocks P 0 fuel n) := by
  induction fuel generalizing n with
  | zero => exact Keeps.throw _
  | succ fuel ih =>
    unfold findDataBlocks
    refine Keeps.ite (fun _ => Keeps.pure _) fun _ => Keeps.bind (fun s => refl_of Searches s) fun b => ?_
    refine Keeps.ite (fun _ => Keeps.bind searches_recordAllocFailed fun _ => Keeps.pure _) fun _ => ?_
    refine Keeps.bind (searches_allocContig _ _ _) fun r => ?_
    cases r with
    | some start =>
      refine Keeps.bind (Keeps.ite (fun _ => Keeps.pure _) fun _ => Keeps.throw _) fun _ => ?_
      refine Keeps.bind (Keeps.modify fun s => ?_) fun _ => Keeps.pure _
      refine ⟨rfl, rfl, rfl, rfl, rfl, id, id, fun b hb => ?_⟩
      dsimp only
      rw [hb]
      exact ⟨_, _, rfl⟩
    | none =>
      refine Keeps.ite (fun _ => Keeps.pure _) fun _ => Keeps.bind (ih _) fun rc => ?_
      refine Keeps.ite (fun _ => Keeps.pure _) fun _ => Keeps.bind (ih _) fun rc => ?_
      exact Keeps.ite (fun _ => Keeps.pure _) fun _ => Keeps.pure _

section

variable {P} {D : Device} {q : Req} {st : ReqState} {b : BlkCtx} {s s' : Sys}

theorem On.searches {cell : ℕ → ℕ} {b' : BlkCtx} (h : On P D q st b s) (hsearch : Searches s s')
    (hserves : Serves P s') (hcell : ∀ x, P.blkOffset ≤ x → s'.cell x = cell x)
    (hchain : s'.req.chain = [b']) : On P { D with cell := cell } q st b' s' := by
  refine ⟨⟨fun r => ⟨hserves.inv, hserves.offset, hserves.blocks, hserves.states⟩, ?_, hcell, ?_, ?_,
    hsearch.dense h.ctx.dense⟩, hchain, hsearch.req.trans h.req, hsearch.state.trans h.state, ?_⟩
  · rw [hsearch.ctx]
    exact h.ctx.noDc
  · rw [hsearch.ctx]
    exact h.ctx.metas
  · rw [hsearch.ctx]
    exact h.ctx.datas
  · unfold Calm
    rw [hsearch.io, hsearch.ioToQueue, hsearch.ctx, hsearch.state]
    exact h.calm

theorem On.setsState {i n v : ℕ} (h : On P D q st b s) (hset : SetsState P s i n v s')
    (hsearch : Searches s s') : On P (D.fill [(i, n)] v) q st b s' := by
  refine h.searches hsearch hset.serves (fun x hx => ?_) (hset.frame.chain.trans h.chain)
  rw [hset.cell x hx, h.cell hx]
  simp only [covers_cons, not_covers_nil, or_false]
  rfl

theorem clear_on (h : On P D q st b s) (hasCtx : Bool) {i n : ℕ} (hn : 0 < n) (hin : P.InRange i n)
    (hused : ∀ x, Holds (i, n) x → D.cell x ≠ blockStateFree) :
    wp (fun _ => False) (setBlkState hasCtx i n .empty) (fun rc s' => rc = .success ∧
      On P (D.fill [(i, n)] blockStateFree) q st b s') s := by
  have hclear := clearBlkState_spec h.serves hasCtx hn hin fun x h1 h2 => by
    rw [h.cell (hin.1.trans h1)]
    exact hused x ⟨h1, h2⟩
  refine wp_mono (wp_and hclear (searches_setBlkState hasCtx i n .empty s)) ?_
  rintro rc s₁ ⟨⟨rfl, hset⟩, hsearch⟩
  exact ⟨rfl, h.setsState hset hsearch⟩

theorem allocBlock_on (h : On P D q st b s) {st' : BlkState} (hpos : 0 < st'.toCell)
    (hle : st'.toCell ≤ 8) {i : ℕ} (hin : P.InRange i 1) (hfree : D.cell i = blockStateFree) :
    wp (fun _ => False) (allocContig st' i 1) (fun r s' => r = some i ∧
      On P (D.fill [(i, 1)] st'.toCell) q st b s') s := by
  have hrun : Context.FreeRun s.ctx.alloc i 1 := by
    refine ⟨h.serves.onDevice_iff.2 hin, fun x h1 h2 => ?_⟩
    obtain rfl : x = i := by omega
    exact (h.cell hin.1).trans hfree
  obtain ⟨r, hr, hg⟩ := hrun.granted h.serves.inv.managed st'.toCell Nat.one_pos
  have hstart : wp (fun _ => False) (allocContig st' i 1) (fun r' _ => r' = some i) s := by
    unfold allocContig
    rw [wp_bind, wp_get, hr]
    dsimp only
    unfold modifyCtx setBaMetaUpdated modifyReq
    rw [wp_bind, wp_modify, if_pos hg.status, wp_bind, wp_modify, wp_pure, hg.start]
    rfl
  refine wp_mono (wp_and hstart (wp_and (allocContig_spec h.serves i hpos hle Nat.one_pos)
    (searches_allocContig st' i 1 s))) ?_
  rintro r' s₁ ⟨rfl, ⟨hnone, -⟩ | ⟨j, hj, -, -, hset⟩, hsearch⟩
  · cases hnone
  · cases hj
    exact ⟨rfl, h.setsState hset hsearch⟩

theorem findDataBlocks_on (h : On P D q st b s) (hnone : b.blk.placeValue = []) {n : ℕ}
    (hfit : n < 2 ^ 16) :
    wp (fun _ => False) (findDataBlocks P 0 (n + 1) n) (fun rc s' => ∃ locs remote,
      (locs.map extentOf).Pairwise Apart ∧
      (∀ e ∈ locs.map extentOf, 0 < e.2 ∧ P.InRange e.1 e.2 ∧
        ∀ x, Holds e x → D.cell x = blockStateFree) ∧
      On P (D.fill (locs.map extentOf) BlkState.data.toCell) q st (b.withPlaces locs remote) s' ∧
      (rc = .success ∧ total (locs.map extentOf) = n ∨ rc = .error ∧ s'.req.allocFailed = true) ∧
      (Room P D.cell b.index n → rc = .success)) s := by
  have hplace : s.placeValue 0 = [] := by
    unfold Sys.placeValue
    rw [h.getD_chain, hnone]
  have htakes := findDataBlocks_takes (p := 0) (n := n) h.serves (by rw [h.chain]; exact Nat.one_pos)
    (by rw [hplace]; exact Nat.zero_le _) (Nat.lt_succ_self n)
  have hroom : Room P D.cell b.index n →
      wp (fun _ => True) (findDataBlocks P 0 (n + 1) n) (fun rc _ => rc = .success) s := by
    rintro ⟨hhint, i, hin, hfree⟩
    refine findDataBlocks_success h.serves h.ctx.dense (by rw [hplace]; decide) n ⟨?_, i, hin, ?_⟩
    · rwa [h.getD_chain]
    · exact fun x hx => (h.cell (hin.1.trans hx.1)).trans (hfree x hx)
  have hroom' : wp (fun _ => True) (findDataBlocks P 0 (n + 1) n)
      (fun rc _ => Room P D.cell b.index n → rc = .success) s :=
    wp_true_iff.2 fun rc s' hok h0 => wp_true_iff.1 (hroom h0) rc s' hok
  refine wp_mono (wp_and htakes (wp_and (searches_findDataBlocks P (n + 1) n s) hroom')) ?_
  rintro rc s₁ ⟨⟨ps, ht, hle, hrc⟩, hsearch, hfound⟩
  obtain ⟨locs, remote, hchain⟩ := hsearch.chain b h.chain
  have hlocs : locs = ps.map recorded := by
    have hp := ht.place
    rw [hplace, List.nil_append] at hp
    rw [← hp]
    unfold Sys.placeValue
    rw [hchain]
    rfl
  have hmap : locs.map extentOf = ps := by
    rw [hlocs]
    exact map_extentOf_recorded fun e he => (hle e he).trans_lt hfit
  refine ⟨locs, remote, by rw [hmap]; exact ht.apart, ?_, ?_, by rw [hmap]; exact hrc, hfound⟩
  · rw [hmap]
    intro e he
    obtain ⟨hpos, hin, hfree⟩ := ht.free e he
    exact ⟨hpos, hin, fun x hx => (h.cell (hin.1.trans hx.1)).symm.trans (hfree x hx)⟩
  · rw [hmap]
    refine h.searches hsearch ht.serves (fun x hx => ?_) hchain
    rw [ht.cell x hx, h.cell hx]

end

/-! ### The value of a key -/

/-- What `_blk_init_value` and `_blk_del_value` leave of a meta block. -/
structure SameKey (blk blk' : OndiskMeta) : Prop where
  key : blk'.key = blk.key
  keyLen : blk'.keyLen = blk.keyLen
  isvalid : blk'.isvalid = blk.isvalid
  numValidColEntry : blk'.numValidColEntry = blk.numValidColEntry
  dataCollisionIndex : blk'.dataCollisionIndex = blk.dataCollisionIndex
  collisionExtensionIndex : blk'.collisionExtensionIndex = blk.collisionExtensionIndex

instance : IsPreorder OndiskMeta SameKey where
  refl _ := ⟨rfl, rfl, rfl, rfl, rfl, rfl⟩
  trans _ _ _ h h' := ⟨h'.key.trans h.key, h'.keyLen.trans h.keyLen, h'.isvalid.trans h.isvalid,
    h'.numValidColEntry.trans h.numValidColEntry, h'.dataCollisionIndex.trans h.dataCollisionIndex,
    h'.collisionExtensionIndex.trans h.collisionExtensionIndex⟩

/-- What the handlers leave of a block context. -/
structure SameBlk (b b' : BlkCtx) : Prop where
  index : b'.index = b.index
  state : b'.state = b.state
  flag : b'.flag = b.flag
  ops : b'.ops = b.ops
  dcIndex : b'.dcIndex = b.dcIndex
  blk : SameKey b.blk b'.blk

instance : IsPreorder BlkCtx SameBlk where
  refl _ := ⟨rfl, rfl, rfl, rfl, rfl, refl_of SameKey _⟩
  trans _ _ _ h h' := ⟨h'.index.trans h.index, h'.state.trans h.state, h'.flag.trans h.flag,
    h'.ops.trans h.ops, h'.dcIndex.trans h.dcIndex, trans_of SameKey h.blk h'.blk⟩

section

variable {P} {D : Device} {q : Req} {st : ReqState} {b : BlkCtx} {s s' : Sys}

theorem valueLocationOf_ne (b : BlkCtx) : valueLocationOf b ≠ .inline := by
  unfold valueLocationOf
  split_ifs <;> decide

/-- The value of a request fits in the meta block, or the device has room for it. -/
def Accommodates (P : Params) (D : Device) (q : Req) (h : ℕ) : Prop :=
  q.value.length < maxInlineValue ∨ Room P D.cell h (getNumBlocksRequiredForValue q P.blkSize)

/-- `_blk_init_value` took blocks that were free, and the value fits; or a failed allocation is
recorded, with the blocks that were taken. It succeeds when there is room. -/
structure Inits (P : Params) (D : Device) (q : Req) (st : ReqState) (b : BlkCtx) (rc : Status)
    (s' : Sys) : Prop where
  room : Accommodates P D q b.index → rc = .success
  done : rc = .success → ∃ b', SameBlk b b' ∧ Fits P q.value b'.blk ∧
    (b'.blk.valueLocation = .inline → q.value.length < maxInlineValue) ∧
    (∀ x, Covers (valueExtents b'.blk) x → D.cell x = blockStateFree) ∧
    On P (D.fill (valueExtents b'.blk) BlkState.data.toCell) q st b' s'
  failed : rc ≠ .success → s'.req.allocFailed = true ∧ ∃ b', SameBlk b b' ∧
    (b'.blk.placeValue.map extentOf).Pairwise Apart ∧
    (∀ e ∈ b'.blk.placeValue.map extentOf, 0 < e.2 ∧ P.InRange e.1 e.2 ∧
      ∀ x, Holds e x → D.cell x = blockStateFree) ∧
    On P (D.fill (b'.blk.placeValue.map extentOf) BlkState.data.toCell) q st b' s'

theorem Inits.of_done {D' : Device} {b' : BlkCtx} (h : On P D' q st b' s') (hsame : SameBlk b b')
    (hfits : Fits P q.value b'.blk)
    (hloc : b'.blk.valueLocation = .inline → q.value.length < maxInlineValue)
    (hfree : ∀ x, Covers (valueExtents b'.blk) x → D.cell x = blockStateFree)
    (hD : D' = D.fill (valueExtents b'.blk) BlkState.data.toCell) : Inits P D q st b .success s' := by
  subst hD
  exact ⟨fun _ => rfl, fun _ => ⟨b', hsame, hfits, hloc, hfree, h⟩, fun hne => absurd rfl hne⟩

theorem Inits.of_placed {b' : BlkCtx} {locs : List ValueLoc}
    (h : On P (D.fill (locs.map extentOf) BlkState.data.toCell) q st b' s') (hsame : SameBlk b b')
    (hplace : b'.blk.placeValue = locs) (hloc : b'.blk.valueLocation ≠ .inline)
    (hsize : b'.blk.valueSize = q.value.length) (hapart : (locs.map extentOf).Pairwise Apart)
    (hfree : ∀ e ∈ locs.map extentOf, 0 < e.2 ∧ P.InRange e.1 e.2 ∧
      ∀ x, Holds e x → D.cell x = blockStateFree)
    (hroom : q.value.length ≤ total (locs.map extentOf) * P.blkSize) :
    Inits P D q st b .success s' := by
  have hext : valueExtents b'.blk = locs.map extentOf := by
    rw [valueExtents_of_ne hloc, hplace]
  refine Inits.of_done h hsame ⟨hsize, fun h0 => absurd h0 hloc, ?_, ?_, fun _ => ?_⟩
    (fun h0 => absurd h0 hloc) ?_ (by rw [hext])
  · rwa [hext]
  · rw [hext]
    exact fun e he => ⟨(hfree e he).1, (hfree e he).2.1⟩
  · rw [hext]
    exact hroom
  · rw [hext]
    rintro x ⟨e, he, hx⟩
    exact (hfree e he).2.2 x hx

theorem Inits.of_failed {D' : Device} {b' : BlkCtx} {rc : Status} (hrc : rc ≠ .success)
    (hfull : ¬ Accommodates P D q b.index) (hfailed : s'.req.allocFailed = true)
    (h : On P D' q st b' s') (hsame : SameBlk b b')
    (hapart : (b'.blk.placeValue.map extentOf).Pairwise Apart)
    (hfree : ∀ e ∈ b'.blk.placeValue.map extentOf, 0 < e.2 ∧ P.InRange e.1 e.2 ∧
      ∀ x, Holds e x → D.cell x = blockStateFree)
    (hD : D' = D.fill (b'.blk.placeValue.map extentOf) BlkState.data.toCell) :
    Inits P D q st b rc s' := by
  subst hD
  exact ⟨fun hroom => absurd hroom hfull, fun hok => absurd hok hrc,
    fun _ => ⟨hfailed, b', hsame, hapart, hfree, h⟩⟩

theorem length_le_blocks (hsize : 0 < P.blkSize) (hlong : ¬ q.value.length < maxInlineValue) :
    q.value.length ≤ getNumBlocksRequiredForValue q P.blkSize * P.blkSize ∧
      0 < getNumBlocksRequiredForValue q P.blkSize := by
  unfold getNumBlocksRequiredForValue
  rw [if_neg hlong]
  have hpos : 0 < q.value.length := by
    unfold maxInlineValue at hlong
    omega
  have hdiv := Nat.div_add_mod (q.value.length + P.blkSize - 1) P.blkSize
  have hmod := Nat.mod_lt (q.value.length + P.blkSize - 1) hsize
  constructor
  · rw [Nat.mul_comm]
    omega
  · exact Nat.div_pos (by omega) hsize

theorem blkInitValue_on (h : On P D q st b s) (hsize : 0 < P.blkSize) (hcontig : b.iscontig = false)
    (hblocks : b.valueBlocks = getNumBlocksRequiredForValue q P.blkSize)
    (hfit : getNumBlocksRequiredForValue q P.blkSize < 2 ^ 16) :
    wp (fun _ => False) (blkInitValue P 0) (Inits P D q st b) s := by
  unfold blkInitValue
  simp only [wp_bind, wp_get, h.wp_blkAt, h.req, hcontig]
  rw [wp_ite]
  refine ⟨fun hshort => ?_, fun hlong => ?_⟩
  · rw [wp_bind]
    refine h.wp_modifyBlk fun s₁ h₁ => ?_
    refine Inits.of_done h₁ ⟨rfl, rfl, rfl, rfl, rfl, ⟨rfl, rfl, rfl, rfl, rfl, rfl⟩⟩
      ⟨rfl, fun _ => rfl, List.Pairwise.nil, ?_, fun hne => (hne rfl).elim⟩ (fun _ => hshort) ?_
      (D.fill_nil _).symm
    · rintro e ⟨⟩
    · exact fun x hx => absurd hx not_covers_nil
  · obtain ⟨hle, hpos⟩ := length_le_blocks hsize hlong
    rw [if_neg (by decide), wp_bind]
    refine h.wp_modifyBlk fun s₁ h₁ => ?_
    rw [wp_checked, hblocks]
    refine wp_mono (findDataBlocks_on h₁ rfl hfit) ?_
    rintro rc s₂ ⟨locs, remote, hapart, hfree, h₂, hrc, hroom⟩
    refine ⟨fun hne => ?_, fun hok => ?_⟩
    · have hfull : ¬ Accommodates P D q b.index := by
        rintro (hshort | hplenty)
        · exact hlong hshort
        · exact hne (hroom hplenty)
      exact Inits.of_failed hne hfull (hrc.resolve_left fun h => hne h.1).2 h₂
        ⟨rfl, rfl, rfl, rfl, rfl, ⟨rfl, rfl, rfl, rfl, rfl, rfl⟩⟩ hapart hfree rfl
    · obtain ⟨-, htotal⟩ := hrc.resolve_right fun herr => hok (by rw [herr.1]; decide)
      have hne : locs ≠ [] := by
        rintro rfl
        rw [← htotal] at hpos
        exact absurd hpos (by decide)
      rw [wp_bind, h₂.wp_blkAt, wp_bind, wp_dssAssert]
      refine ⟨fun _ => ?_, fun hno => hno (List.length_pos_iff.2 hne)⟩
      rw [wp_bind]
      refine h₂.wp_modifyBlk fun s₃ h₃ => ?_
      refine Inits.of_placed h₃ ⟨rfl, rfl, rfl, rfl, rfl, ⟨rfl, rfl, rfl, rfl, rfl, rfl⟩⟩ rfl
        (valueLocationOf_ne _) rfl hapart hfree ?_
      rw [htotal]
      exact hle

/-- The loop of `_blk_del_value` over an extent without data collisions. -/
theorem delExtent_on (h : On P D q st b s) {last fuel sIdx eIdx : ℕ} {rc : Status} (hle : sIdx ≤ eIdx)
    (hpos : sIdx < eIdx + fuel) (hlast : fuel ≠ 0 → last + 1 = eIdx + fuel)
    (hin : P.InRange sIdx (eIdx + fuel - sIdx))
    (hused : ∀ x, Holds (sIdx, eIdx + fuel - sIdx) x → D.cell x ≠ blockStateFree) :
    wp (fun _ => False) (delExtent last fuel sIdx eIdx rc) (fun r s' => r = (.success, false) ∧
      On P (D.fill [(sIdx, eIdx + fuel - sIdx)] blockStateFree) q st b s') s := by
  induction fuel generalizing eIdx with
  | zero =>
    unfold delExtent
    rw [if_pos (by omega), wp_bind]
    refine wp_mono (clear_on h true (by omega) hin hused) ?_
    rintro rc s₁ ⟨rfl, h₁⟩
    exact ⟨rfl, h₁⟩
  | succ fuel ih =>
    unfold delExtent dcTableExist
    rw [wp_bind, wp_bind, wp_get, wp_pure, h.isDc, if_neg (by decide)]
    by_cases hend : eIdx = sIdx ∧ eIdx = last
    · obtain ⟨rfl, rfl⟩ := hend
      have hzero : fuel = 0 := by
        have := hlast (by omega)
        omega
      subst hzero
      rw [if_pos ⟨rfl, rfl⟩, wp_bind]
      rw [show eIdx + (0 + 1) - eIdx = 1 by omega] at hin hused ⊢
      refine wp_mono (clear_on h true Nat.one_pos hin hused) ?_
      rintro rc s₁ ⟨rfl, h₁⟩
      exact ⟨rfl, h₁⟩
    · rw [if_neg hend]
      rw [show eIdx + (fuel + 1) = eIdx + 1 + fuel by omega] at hpos hin hused ⊢
      exact ih (by omega) hpos (fun _ => by have := hlast (by omega); omega) hin hused

theorem Device.fill_fill (D : Device) (es fs : List (ℕ × ℕ)) (v : ℕ) :
    (D.fill es v).fill fs v = D.fill (es ++ fs) v := by
  unfold Device.fill
  congr 1
  funext x
  simp only [covers_append]
  split_ifs <;> tauto

/-- The blocks of a value are in use, and disjoint. -/
structure InUse (P : Params) (D : Device) (es : List (ℕ × ℕ)) : Prop where
  apart : es.Pairwise Apart
  used : ∀ e ∈ es, 0 < e.2 ∧ P.InRange e.1 e.2 ∧ ∀ x, Holds e x → D.cell x ≠ blockStateFree

/-- The other extents stay in use when the first one is freed. -/
theorem InUse.tail {e : ℕ × ℕ} {es : List (ℕ × ℕ)} (h : InUse P D (e :: es)) (v : ℕ) :
    InUse P (D.fill [e] v) es := by
  have hapart := List.pairwise_cons.1 h.apart
  refine ⟨hapart.2, fun f hf => ?_⟩
  obtain ⟨hpos, hin, hused⟩ := h.used f (List.mem_cons_of_mem _ hf)
  refine ⟨hpos, hin, fun x hx => ?_⟩
  have hno : ¬ Covers [e] x := by
    simp only [covers_cons, not_covers_nil, or_false]
    exact (hapart.1 f hf).symm.not_holds hx
  show (if Covers [e] x then _ else _) ≠ _
  rw [if_neg hno]
  exact hused x hx

/-- The loop of `_blk_del_value` over the extents. -/
theorem delExtents_on (h : On P D q st b s) {locs : List ValueLoc}
    (huse : InUse P D (locs.map extentOf)) :
    wp (fun _ => False) (delExtents locs .success) (fun r s' => r = (.success, false) ∧
      On P (D.fill (locs.map extentOf) blockStateFree) q st b s') s := by
  induction locs generalizing D s with
  | nil => exact ⟨rfl, (D.fill_nil _).symm ▸ h⟩
  | cons loc locs ih =>
    obtain ⟨hpos, hin, hused⟩ := huse.used _ (List.mem_cons_self ..)
    have hlen : loc.valueIndex + loc.numChunks - loc.valueIndex = loc.numChunks :=
      Nat.add_sub_cancel_left _ _
    have hpos' : 0 < loc.numChunks := hpos
    have hone : wp (fun _ => False) (delExtent (loc.valueIndex + loc.numChunks - 1) loc.numChunks
        loc.valueIndex loc.valueIndex .success) (fun r s' => r = (.success, false) ∧
          On P (D.fill [(loc.valueIndex, loc.valueIndex + loc.numChunks - loc.valueIndex)]
            blockStateFree) q st b s') s :=
      delExtent_on h le_rfl (by omega) (fun _ => by omega) (by rw [hlen]; exact hin)
        (by rw [hlen]; exact hused)
    rw [hlen] at hone
    unfold delExtents
    rw [wp_bind]
    refine wp_mono hone ?_
    rintro r s₁ ⟨rfl, h₁⟩
    dsimp only
    rw [if_neg (by decide)]
    refine wp_mono (ih h₁ (huse.tail _)) ?_
    rintro r s₂ ⟨rfl, h₂⟩
    refine ⟨rfl, ?_⟩
    rw [Device.fill_fill] at h₂
    exact h₂

theorem Inits.of_same {b₁ : BlkCtx} {rc : Status} (hsame : SameBlk b b₁) (h : Inits P D q st b₁ rc s') :
    Inits P D q st b rc s' := by
  refine ⟨fun hroom => h.room (by rwa [hsame.index]), fun hok => ?_, fun hne => ?_⟩
  · obtain ⟨b', hsame', hrest⟩ := h.done hok
    exact ⟨b', trans_of SameBlk hsame hsame', hrest⟩
  · obtain ⟨hfailed, b', hsame', hrest⟩ := h.failed hne
    exact ⟨hfailed, b', trans_of SameBlk hsame hsame', hrest⟩

/-- `_blk_del_value`: the blocks of the value are freed. -/
theorem blkDelValue_on (h : On P D q st b s) (huse : InUse P D (valueExtents b.blk)) :
    wp (fun _ => False) (blkDelValue 0) (fun rc s' => rc = .success ∧ ∃ b', SameBlk b b' ∧
      On P (D.fill (valueExtents b.blk) blockStateFree) q st b' s') s := by
  have hrun : wp (fun _ => False) (if b.blk.valueLocation = .inline then pure (.success, false)
      else delExtents b.blk.placeValue .success) (fun r s' => r = (.success, false) ∧
        On P (D.fill (valueExtents b.blk) blockStateFree) q st b s') s := by
    unfold valueExtents at *
    split_ifs at *
    · exact ⟨rfl, (D.fill_nil _).symm ▸ h⟩
    · exact delExtents_on h huse
  obtain ⟨r, s₁, hok, rfl, h₁⟩ := wp_false_iff.1 hrun
  unfold blkDelValue
  rw [wp_bind, h.wp_blkAt]
  refine (wp_ite_bind_ok hok).2 ?_
  dsimp only
  rw [if_neg (by decide), wp_bind]
  refine h₁.wp_modifyBlk fun s₂ h₂ => ⟨rfl, _, ?_, h₂⟩
  exact ⟨rfl, rfl, rfl, rfl, rfl, ⟨rfl, rfl, rfl, rfl, rfl, rfl⟩⟩

/-- `_blk_update_value`: the old blocks are freed before the new ones are searched. -/
theorem blkUpdateValue_on (h : On P D q st b s) (huse : InUse P D (valueExtents b.blk))
    (hsize : 0 < P.blkSize) (hfit : getNumBlocksRequiredForValue q P.blkSize < 2 ^ 16) :
    wp (fun _ => False) (blkUpdateValue P 0)
      (Inits P (D.fill (valueExtents b.blk) blockStateFree) q st b) s := by
  unfold blkUpdateValue
  rw [wp_checked]
  refine wp_mono (blkDelValue_on h huse) ?_
  rintro rc s₁ ⟨rfl, b₁, hsame, h₁⟩
  refine ⟨fun hne => absurd rfl hne, fun _ => ?_⟩
  rw [wp_bind, wp_get, wp_bind, h₁.req]
  refine h₁.wp_modifyBlk fun s₂ h₂ => ?_
  refine wp_mono (blkInitValue_on h₂ hsize rfl rfl hfit) fun rc s₃ h₃ => ?_
  refine Inits.of_same (trans_of SameBlk hsame ?_) h₃
  exact ⟨rfl, rfl, rfl, rfl, rfl, refl_of SameKey _⟩

/-- The I/O task that writes a meta block and its value. -/
def writeOps (P : Params) (blk : OndiskMeta) : List IoOp :=
  .writeMeta 0 :: if blk.valueLocation = .inline then []
    else (extentOffsets P 0 blk.placeValue).map fun e => .writeData e.1 e.2

/-- A request whose meta block and value are in its I/O task. -/
structure Writes (P : Params) (D : Device) (q : Req) (st : ReqState) (b : BlkCtx) (s : Sys) : Prop where
  ctx : Shows P D s.ctx
  chain : s.req.chain = [b]
  req : s.req.req = q
  state : s.req.state = st
  io : s.req.io = writeOps P b.blk
  ioToQueue : s.req.ioToQueue = true
  queue : s.ctx.kvReqQueue = []
  clean : ∀ x, s.ctx.dirtyMetaLba x = true → x = P.hash (bytes q.key q.length) ∨ x = b.index

/-- The meta block and the value of a request are written: at once in the memory build, and by the I/O
task of the request in the disk build. The device is the one that follows. -/
def Lands (P : Params) (D : Device) (q : Req) (st : ReqState) (b : BlkCtx) (s : Sys) : Prop :=
  match P.build with
  | .memory => On P D q st b s
  | .disk => ∃ D₀, Writes P D₀ q st b s ∧ D = D₀.put P b.index b.blk q.value

theorem lands_memory (hP : P.build = .memory) : Lands P D q st b s ↔ On P D q st b s := by
  unfold Lands
  rw [hP]

theorem lands_disk (hP : P.build = .disk) : Lands P D q st b s ↔
    ∃ D₀, Writes P D₀ q st b s ∧ D = D₀.put P b.index b.blk q.value := by
  unfold Lands
  rw [hP]

theorem calm_memory (hP : P.build = .memory) : Calm P q s := by
  intro hdisk
  rw [hP] at hdisk
  cases hdisk

theorem writeMetaAndData_on (h : On P D q st b s)
    (hmem : P.build = .memory → b.blk.valueLocation ≠ .inline) :
    wp (fun _ => False) (writeMetaAndData P 0) (fun rc s' => rc = .success ∧
      Lands P (D.put P b.index b.blk q.value) q st b s') s := by
  unfold writeMetaAndData writeOndiskBlk writeOndiskData
  rw [wp_bind, wp_bind, h.wp_blkAt]
  cases hP : P.build with
  | memory =>
    simp only [lands_memory hP]
    have h₁ : On P { D with metas := Function.update D.metas b.index (some b.blk) } q st b
        { s with ctx := { s.ctx with metas := Function.update s.ctx.metas b.index (some b.blk) } } :=
      ⟨⟨fun r => ⟨(h.ctx.serves r).inv, (h.ctx.serves r).offset, (h.ctx.serves r).blocks,
        (h.ctx.serves r).states⟩, h.ctx.noDc, h.ctx.cell, by dsimp only; rw [h.ctx.metas], h.ctx.datas,
        h.ctx.dense⟩, h.chain, h.req, h.state, calm_memory hP⟩
    have hloc := hmem hP
    unfold modifyCtx Device.put
    dsimp only
    rw [wp_modify, wp_bind, wp_bind, h₁.wp_blkAt, wp_bind, wp_get, if_neg hloc, wp_modify, if_neg hloc,
      ← h.req]
    exact ⟨rfl, ⟨fun r => ⟨(h.ctx.serves r).inv, (h.ctx.serves r).offset, (h.ctx.serves r).blocks,
      (h.ctx.serves r).states⟩, h.ctx.noDc, h.ctx.cell, by dsimp only; rw [h.ctx.metas],
      by dsimp only; rw [h.ctx.datas]; rfl, h.ctx.dense⟩, h.chain, rfl, h.state, calm_memory hP⟩
  | disk =>
    simp only [lands_disk hP]
    obtain ⟨hio, -, hqueue, hclean⟩ := h.calm hP
    have hdirty : ∀ x, Function.update s.ctx.dirtyMetaLba b.index true x = true →
        x = P.hash (bytes q.key q.length) ∨ x = b.index := by
      intro x hx
      by_cases hxb : x = b.index
      · exact .inr hxb
      · rw [Function.update_of_ne hxb] at hx
        exact .inl (hclean x hx).1
    have hctx : Shows P D { s.ctx with
        dirtyMetaLba := Function.update s.ctx.dirtyMetaLba b.index true } :=
      h.ctx.congr rfl rfl rfl rfl
    unfold modifyReq setLbaDirty modifyCtx
    dsimp only
    rw [wp_bind, wp_modify, wp_modify, wp_bind, wp_bind, wp_blkAt]
    dsimp only
    rw [h.getD_chain, wp_bind, wp_get, wp_ite]
    refine ⟨fun hloc => ⟨rfl, D, ⟨hctx, h.chain, h.req, h.state, ?_, rfl, hqueue, hdirty⟩, rfl⟩,
      fun hloc => ?_⟩
    · dsimp only
      unfold writeOps
      rw [hio, if_pos hloc]
      rfl
    · rw [wp_modify]
      refine ⟨rfl, D, ⟨hctx, h.chain, h.req, h.state, ?_, ?_, hqueue, hdirty⟩, rfl⟩
      · dsimp only
        unfold writeOps
        rw [hio, if_neg hloc]
        rfl
      · simp

theorem Lands.wp_modifyStat {E : Fault → Prop} {Q : Unit → Sys → Prop} {f : Dstat → Dstat}
    (h : Lands P D q st b s) (hQ : ∀ s', Lands P D q st b s' → Q () s') : wp E (modifyStat f) Q s := by
  unfold modifyStat modifyCtx
  rw [wp_modify]
  refine hQ _ ?_
  cases hP : P.build with
  | memory =>
    rw [lands_memory hP] at h ⊢
    exact ⟨h.ctx.congr rfl rfl rfl rfl, h.chain, h.req, h.state, h.calm⟩
  | disk =>
    rw [lands_disk hP] at h ⊢
    obtain ⟨D₀, hw, hD⟩ := h
    exact ⟨D₀, ⟨hw.ctx.congr rfl rfl rfl rfl, hw.chain, hw.req, hw.state, hw.io, hw.ioToQueue, hw.queue,
      hw.clean⟩, hD⟩

theorem On.wp_modifyStat {E : Fault → Prop} {Q : Unit → Sys → Prop} {f : Dstat → Dstat}
    (h : On P D q st b s) (hQ : ∀ s', On P D q st b s' → s'.req = s.req → Q () s') :
    wp E (modifyStat f) Q s := by
  unfold modifyStat modifyCtx
  rw [wp_modify]
  exact hQ _ ⟨h.ctx.congr rfl rfl rfl rfl, h.chain, h.req, h.state, h.calm⟩ rfl

end

/-! ### A new key -/

section

variable {P} {D : Device} {q : Req} {st : ReqState} {b : BlkCtx} {s s' : Sys}

/-- The loop over the extents in the roll back of `init_meta_blk`. -/
theorem rollBackExtents_on (h : On P D q st b s) {locs : List ValueLoc}
    (huse : InUse P D (locs.map extentOf)) :
    wp (fun _ => False) (rollBackExtents locs) (fun ok s' => ok = true ∧
      On P (D.fill (locs.map extentOf) blockStateFree) q st b s') s := by
  induction locs generalizing D s with
  | nil => exact ⟨rfl, (D.fill_nil _).symm ▸ h⟩
  | cons loc locs ih =>
    obtain ⟨hpos, hin, hused⟩ := huse.used _ (List.mem_cons_self ..)
    unfold rollBackExtents
    rw [wp_bind]
    refine wp_mono (clear_on h false hpos hin hused) ?_
    rintro rc s₁ ⟨rfl, h₁⟩
    rw [if_neg (by decide)]
    refine wp_mono (ih h₁ (huse.tail _)) ?_
    rintro ok s₂ ⟨rfl, h₂⟩
    refine ⟨rfl, ?_⟩
    rw [Device.fill_fill] at h₂
    exact h₂

/-- The label `roll_back` of `init_meta_blk`. -/
theorem rollBack_on (h : On P D q st b s) (rc : Status) (huse : InUse P D (b.blk.placeValue.map extentOf))
    (hin : P.InRange b.index 1) (hmeta : D.cell b.index ≠ blockStateFree)
    (hout : ¬ Covers (b.blk.placeValue.map extentOf) b.index) :
    wp (fun _ => False) (rollBack 0 rc) (fun rc' s' => rc' = rc ∧
      On P ((D.fill (b.blk.placeValue.map extentOf) blockStateFree).fill [(b.index, 1)] blockStateFree)
        q st b s') s := by
  unfold rollBack
  rw [wp_bind, h.wp_blkAt, wp_bind]
  refine wp_mono (rollBackExtents_on h huse) ?_
  rintro ok s₁ ⟨rfl, h₁⟩
  rw [if_pos rfl, wp_bind]
  refine wp_mono (clear_on h₁ false Nat.one_pos hin fun x hx => ?_) ?_
  · have hx' : x = b.index := by
      obtain ⟨h1, h2⟩ := hx
      dsimp only at h1 h2
      omega
    subst hx'
    show (if _ then _ else _) ≠ _
    rw [if_neg hout]
    exact hmeta
  · rintro rc₁ s₂ ⟨rfl, h₂⟩
    exact ⟨rfl, h₂⟩

/-- The entry block of a key without collisions. -/
structure IsEntry (k : List UInt8) (blk : OndiskMeta) : Prop where
  key : blk.key = k
  keyLen : blk.keyLen = k.length
  isvalid : blk.isvalid = true
  numValidColEntry : blk.numValidColEntry = 0
  dataCollisionIndex : blk.dataCollisionIndex = 0
  collisionExtensionIndex : blk.collisionExtensionIndex = 0

theorem IsEntry.of_same {key : List UInt8} {blk blk' : OndiskMeta} (h : IsEntry key blk)
    (hsame : SameKey blk blk') : IsEntry key blk' :=
  ⟨hsame.key.trans h.key, hsame.keyLen.trans h.keyLen, hsame.isvalid.trans h.isvalid,
    hsame.numValidColEntry.trans h.numValidColEntry,
    hsame.dataCollisionIndex.trans h.dataCollisionIndex,
    hsame.collisionExtensionIndex.trans h.collisionExtensionIndex⟩

/-- The device with a new value for a key: its meta block at `h`, and blocks that were free. -/
structure Holding (P : Params) (D : Device) (key value : List UInt8) (h : ℕ) (D' : Device) : Prop where
  exists_blk : ∃ blk, IsEntry key blk ∧ Fits P value blk ∧
    (∀ x, Covers (valueExtents blk) x → D.cell x = blockStateFree) ∧
    D' = (D.fill (valueExtents blk) BlkState.data.toCell).put P h blk value

theorem Device.rolledBack {es : List (ℕ × ℕ)} {h v w : ℕ} (hfree : D.cell h = blockStateFree)
    (hes : ∀ x, Covers es x → (D.fill [(h, 1)] v).cell x = blockStateFree) :
    (((D.fill [(h, 1)] v).fill es w).fill es blockStateFree).fill [(h, 1)] blockStateFree = D := by
  obtain ⟨cell, metas, datas⟩ := D
  unfold Device.fill at *
  dsimp only at *
  simp only [covers_one] at *
  congr 1
  funext x
  by_cases hx : x = h
  · rw [if_pos hx, hx, hfree]
  · rw [if_neg hx]
    split_ifs with hc
    · have := hes x hc
      rw [if_neg hx] at this
      exact this.symm
    · rfl

theorem bytes_self (buf : List UInt8) : bytes buf buf.length = buf := by
  unfold bytes
  rw [List.take_length, Nat.sub_self, List.replicate_zero, List.append_nil]

theorem memcpy_nil (src : List UInt8) (n : ℕ) : memcpy [] src n = bytes src n := by
  unfold memcpy
  rw [List.drop_nil, List.append_nil]

/-- `init_meta_blk` on a free block: the key and its value are there, or nothing changed. -/
theorem initMetaBlk_on (h : On P D q st b s) (hsize : 0 < P.blkSize)
    (hfit : getNumBlocksRequiredForValue q P.blkSize < 2 ^ 16) (hin : P.InRange b.index 1)
    (hfree : D.cell b.index = blockStateFree) (hdc : b.dcIndex = 0) (hhash : b.nothash = false)
    (hcontig : b.iscontig = false) (hmem : P.build = .memory → maxInlineValue ≤ q.value.length) :
    wp (fun _ => False) (initMetaBlk P 0) (fun rc s' => ∃ D' b', b'.index = b.index ∧
      (rc = .success ∧ Lands P D' q st b' s' ∧
          Holding P (D.fill [(b.index, 1)] BlkState.metaBlk.toCell) (bytes q.key q.length) q.value b.index
            D' ∨
        rc ≠ .success ∧ On P D' q st b' s' ∧ s'.req.allocFailed = true ∧ D' = D)) s := by
  unfold initMetaBlk allocMetaBlk
  rw [wp_bind, wp_get, wp_bind, h.req]
  refine h.wp_modifyBlk fun s₁ h₁ => ?_
  have hnot : ¬ b.dcIndex > 0 := by omega
  rw [wp_checked, wp_bind, wp_get, wp_bind, h₁.wp_blkAt, h₁.req,
    if_neg (show ¬ b.nothash = true by rw [hhash]; decide), wp_bind]
  refine h₁.wp_modifyBlk fun s₂ h₂ => ?_
  rw [if_neg hnot, wp_bind]
  refine wp_mono (allocBlock_on h₂ (show 0 < BlkState.metaBlk.toCell by decide) (by decide) hin hfree) ?_
  rintro r s₃ ⟨rfl, h₃⟩
  dsimp only
  rw [wp_bind, wp_dssAssert]
  refine ⟨fun _ => ⟨fun hne => absurd rfl hne, fun _ => ?_⟩, fun hne => hne rfl⟩
  rw [wp_bind]
  refine h₃.wp_modifyBlk fun s₄ h₄ => ?_
  rw [wp_bind]
  refine wp_mono (blkInitValue_on h₄ hsize hcontig rfl hfit) fun rc s₅ h₅ => ?_
  rw [wp_ite]
  constructor
  · -- the blocks that were taken go back
    intro hne
    obtain ⟨hfailed, b', hsame, hapart, hplaces, hon⟩ := h₅.failed hne
    have hindex : b'.index = b.index := hsame.index
    have hcov : ∀ x, Covers (b'.blk.placeValue.map extentOf) x →
        (D.fill [(b.index, 1)] BlkState.metaBlk.toCell).cell x = blockStateFree := by
      rintro x ⟨e, he, hx⟩
      exact (hplaces e he).2.2 x hx
    have hself : (D.fill [(b.index, 1)] BlkState.metaBlk.toCell).cell b.index =
        BlkState.metaBlk.toCell :=
      if_pos (by simp [Holds])
    have hout : ¬ Covers (b'.blk.placeValue.map extentOf) b.index := by
      intro hc
      have := hcov _ hc
      rw [hself] at this
      exact absurd this (by decide)
    refine wp_mono (wp_and (rollBack_on hon rc ⟨hapart, fun e he => ⟨(hplaces e he).1,
      (hplaces e he).2.1, fun x hx => ?_⟩⟩ (by rw [hindex]; exact hin) ?_ (by rwa [hindex]))
      (keepsRecord_rollBack 0 rc s₅)) ?_
    · show (if _ then _ else _) ≠ _
      rw [if_pos ⟨e, he, hx⟩]
      decide
    · show (if _ then _ else _) ≠ _
      rw [hindex, if_neg hout, hself]
      decide
    · rintro rc' s₆ ⟨⟨rfl, h₆⟩, hkeep⟩
      rw [hindex, Device.rolledBack hfree hcov] at h₆
      exact ⟨D, b', hindex, .inr ⟨hne, h₆, hkeep hfailed, rfl⟩⟩
  · intro hok
    obtain ⟨b', hsame, hfits, hloc, hplaces, hon⟩ := h₅.done (not_not.1 hok)
    rw [wp_checked]
    refine wp_mono (writeMetaAndData_on hon fun hP h0 => (hmem hP).not_gt (hloc h0)) ?_
    rintro rc' s₆ ⟨rfl, h₆⟩
    refine ⟨fun hne => absurd rfl hne, fun _ => ?_⟩
    unfold countMetaBlk
    rw [wp_bind, wp_blkAt, wp_bind]
    refine h₆.wp_modifyStat fun s₇ h₇ =>
      ⟨_, b', hsame.index, .inl ⟨rfl, h₇, ⟨b'.blk, ?_, hfits, hplaces, ?_⟩⟩⟩
    · refine IsEntry.of_same ⟨?_, ?_, rfl, rfl, if_neg hnot, rfl⟩ hsame.blk
      · exact memcpy_nil _ _
      · exact (length_bytes _ _).symm
    · rw [show b'.index = b.index from hsame.index]

end

/-! ### A key that is there -/

section

variable {P} {D : Device} {q : Req} {st : ReqState} {b : BlkCtx} {s s' : Sys}

/-- A meta block that is deleted; on the disk it stays. -/
def Device.forget (P : Params) (D : Device) (h : ℕ) : Device :=
  match P.build with
  | .memory => D.drop h
  | .disk => D

/-- The device without a key: its meta block and the blocks of its value are free. -/
def Device.without (P : Params) (D : Device) (h : ℕ) (blk : OndiskMeta) : Device :=
  ((D.fill (valueExtents blk) blockStateFree).fill [(h, 1)] blockStateFree).forget P h

/-- `dss_kvtrans_delete_ondisk_blk`. -/
theorem deleteOndiskBlk_on (h : On P D q st b s) :
    wp (fun _ => False) (deleteOndiskBlk P 0) (fun _ s' => ∃ b', b'.index = b.index ∧
      On P (D.forget P b.index) q st b' s') s := by
  unfold deleteOndiskBlk Device.forget
  rw [wp_bind, h.wp_blkAt, wp_bind]
  refine h.wp_modifyBlk fun s₁ h₁ => ?_
  cases hP : P.build with
  | memory =>
    dsimp only
    unfold modifyCtx
    rw [wp_modify]
    refine ⟨{ b with state := .empty }, rfl, ⟨⟨fun r => ⟨(h₁.ctx.serves r).inv, (h₁.ctx.serves r).offset,
      (h₁.ctx.serves r).blocks, (h₁.ctx.serves r).states⟩, h₁.ctx.noDc, h₁.ctx.cell, ?_, h₁.ctx.datas,
      h₁.ctx.dense⟩, h₁.chain, h₁.req, h₁.state, calm_memory hP⟩⟩
    dsimp only
    rw [h₁.ctx.metas]
    rfl
  | disk => exact ⟨{ b with state := .empty }, rfl, h₁⟩

/-- `clean_blk`. -/
theorem cleanBlk_on (h : On P D q st b s)
    (huse : InUse P D (valueExtents b.blk)) (hin : P.InRange b.index 1)
    (hmeta : D.cell b.index ≠ blockStateFree) (hout : ¬ Covers (valueExtents b.blk) b.index) :
    wp (fun _ => False) (cleanBlk P 0) (fun rc s' => rc = .success ∧
      ∃ b', b'.index = b.index ∧ On P (D.without P b.index b.blk) q st b' s') s := by
  have hdel : wp (fun _ => False)
      (if b.blk.valueLocation = .inline then pure .success else blkDelValue 0)
      (fun rc s' => rc = .success ∧ ∃ b', SameBlk b b' ∧
        On P (D.fill (valueExtents b.blk) blockStateFree) q st b' s') s := by
    rw [wp_ite]
    refine ⟨fun hloc => ⟨rfl, b, refl_of SameBlk b, ?_⟩, fun _ => blkDelValue_on h huse⟩
    unfold valueExtents
    rw [if_pos hloc, D.fill_nil]
    exact h
  unfold cleanBlk
  rw [wp_bind, h.wp_blkAt, wp_checked]
  refine wp_mono hdel ?_
  rintro rc s₁ ⟨rfl, b₁, hsame, h₁⟩
  refine ⟨fun hne => absurd rfl hne, fun _ => ?_⟩
  unfold freeMetaBlk dcTableExist
  rw [wp_checked, wp_bind, wp_bind, wp_get, wp_pure, h₁.isDc, if_neg (by decide)]
  refine wp_mono (clear_on h₁ true Nat.one_pos hin fun x hx => ?_) ?_
  · have hx' : x = b.index := by
      obtain ⟨h1, h2⟩ := hx
      dsimp only at h1 h2
      omega
    subst hx'
    show (if _ then _ else _) ≠ _
    rw [if_neg hout]
    exact hmeta
  · rintro rc s₂ ⟨rfl, h₂⟩
    refine ⟨fun hne => absurd rfl hne, fun _ => ?_⟩
    rw [wp_bind]
    refine wp_mono (deleteOndiskBlk_on h₂) ?_
    rintro - s₃ ⟨b₃, hindex, h₃⟩
    rw [hsame.index] at h₃
    rw [wp_bind]
    exact h₃.wp_modifyBlk fun s₄ h₄ =>
      ⟨rfl, { b₃ with blk := OndiskMeta.zero }, hindex.trans hsame.index, h₄⟩

variable {k : List UInt8}

/-- A request on the entry block of the key `k`. -/
structure AtEntry (P : Params) (D : Device) (k : List UInt8) (b : BlkCtx) : Prop where
  entry : IsEntry k b.blk
  state : b.state = .metaBlk
  inRange : P.InRange b.index 1
  used : D.cell b.index ≠ blockStateFree
  value : InUse P D (valueExtents b.blk)
  out : ¬ Covers (valueExtents b.blk) b.index

theorem iskeysame_entry {blk : OndiskMeta} (h : IsEntry k blk) :
    iskeysame blk.key blk.keyLen q.key q.length = decide (k = bytes q.key q.length) := by
  unfold iskeysame
  rw [h.key, h.keyLen]
  congr 1
  rw [eq_iff_iff]
  constructor
  · rintro ⟨hlen, heq⟩
    rw [← heq, ← hlen, bytes_self]
  · intro heq
    have hlen : k.length = q.length := by rw [heq, length_bytes]
    refine ⟨hlen, ?_⟩
    rw [← heq, ← hlen, bytes_self]

/-- `update_meta_blk` for a DELETE: another key is not found, and the key is removed. -/
theorem updateMetaBlk_delete (h : On P D q st b s) (hentry : AtEntry P D k b)
    (hops : b.ops = some .metaBlk) (hflag : b.flag = .toDelete) :
    wp (fun _ => False) (updateMetaBlk P 0) (fun rc s' => ∃ b', b'.index = b.index ∧
      if k = bytes q.key q.length then rc = .success ∧ On P (D.without P b.index b.blk) q st b' s'
      else rc = .notFound ∧ On P D q st b' s') s := by
  unfold updateMetaBlk
  rw [wp_bind, wp_get, wp_bind, h.wp_blkAt, wp_bind, wp_dssAssert]
  refine ⟨fun _ => ?_, fun hno => hno ⟨hentry.entry.isvalid, hentry.entry.numValidColEntry⟩⟩
  rw [h.req, iskeysame_entry hentry.entry, hflag]
  by_cases hk : k = bytes q.key q.length
  · rw [if_neg (by simp [hk]), wp_checked]
    simp only [if_pos hk]
    unfold leaveMetaBlk
    rw [wp_bind, h.wp_blkAt, hentry.state, if_neg (by decide), if_neg (by decide), wp_bind]
    refine h.wp_modifyStat fun s₁ h₁ _ => ⟨fun hne => absurd rfl hne, fun _ => ?_⟩
    rw [hops]
    refine wp_mono (cleanBlk_on h₁ hentry.value hentry.inRange hentry.used hentry.out) ?_
    rintro rc s₂ ⟨rfl, b₂, hindex, h₂⟩
    exact ⟨b₂, hindex, rfl, h₂⟩
  · rw [if_pos (by simp [hk])]
    simp only [if_neg hk]
    exact ⟨b, rfl, rfl, h⟩

/-- `update_meta_blk` for a STORE of the key: the value is replaced, or there is no room for it and a
failed allocation is recorded. -/
theorem updateMetaBlk_store (h : On P D q st b s) (hentry : AtEntry P D k b)
    (hkey : k = bytes q.key q.length) (hsize : 0 < P.blkSize)
    (hfit : getNumBlocksRequiredForValue q P.blkSize < 2 ^ 16) (hflag : b.flag = .newWrite)
    (hmem : P.build = .memory → maxInlineValue ≤ q.value.length) :
    wp (fun _ => False) (updateMetaBlk P 0) (fun rc s' => ∃ D' b', b'.index = b.index ∧
      (rc = .success ∧ Lands P D' q st b' s' ∧
          Holding P (D.fill (valueExtents b.blk) blockStateFree) k q.value b.index D' ∨
        rc ≠ .success ∧ ¬ Accommodates P (D.fill (valueExtents b.blk) blockStateFree) q b.index ∧
          On P D' q st b' s' ∧ s'.req.allocFailed = true)) s := by
  unfold updateMetaBlk
  rw [wp_bind, wp_get, wp_bind, h.wp_blkAt, wp_bind, wp_dssAssert]
  refine ⟨fun _ => ?_, fun hno => hno ⟨hentry.entry.isvalid, hentry.entry.numValidColEntry⟩⟩
  rw [h.req, iskeysame_entry hentry.entry, hflag, if_neg (by simp [hkey]), wp_checked]
  refine wp_mono (blkUpdateValue_on h hentry.value hsize hfit) fun rc s₁ h₁ =>
    ⟨fun hne => ?_, fun hok => ?_⟩
  · obtain ⟨hfailed, b', hsame, -, -, hon⟩ := h₁.failed hne
    exact ⟨_, b', hsame.index, .inr ⟨hne, fun hroom => hne (h₁.room hroom), hon, hfailed⟩⟩
  · obtain ⟨b', hsame, hfits, hloc, hplaces, hon⟩ := h₁.done (not_not.1 hok)
    refine wp_mono (writeMetaAndData_on hon fun hP h0 => (hmem hP).not_gt (hloc h0)) ?_
    rintro rc' s₂ ⟨rfl, h₂⟩
    refine ⟨_, b', hsame.index,
      .inl ⟨rfl, h₂, ⟨b'.blk, hentry.entry.of_same hsame.blk, hfits, hplaces, ?_⟩⟩⟩
    rw [show b'.index = b.index from hsame.index]

end

end DssSdk.Kvtrans
