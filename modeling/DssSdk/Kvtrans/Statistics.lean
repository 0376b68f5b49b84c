import DssSdk.Kvtrans.DataBlocks
import DssSdk.Kvtrans.MetaSync

/-!
# The counters of a translator

`dstat_t` counts blocks by the state that the allocator has for them. The counters are adjusted by the
handlers, and counted again while the bitmap is scanned at boot.

* `blockCounts`: the number of blocks in each state;
* `bootRecount`: the scan at boot, with the switch of `boot_dc_get_next_dmc_blk`;
* `bootRecount_eq`: what the scan counts: a `META` block is counted as a collision and as a meta data
  collision too, and a collision as a meta data collision;
* `complete`: a request that runs to its end before the next one comes in;
* `statExact_iff`: the runs from an empty device in which the counters are exact throughout.
-/

namespace DssSdk.Kvtrans

open BlockAllocator Program Extents

/-! ### Counting blocks -/

/-- The number of blocks whose state is one of those. -/
def countStates (P : Params) (c : Ctx) (q : BlkState → Bool) : ℕ :=
  (List.range' P.blkOffset P.blkNum).countP fun x => (BlkState.ofCell (c.alloc.alloc.cellOf x)).any q

/-- The state of a data block under a data collision. -/
def BlkState.isDc (st : BlkState) : Bool :=
  st = .dataCollision ∨ st = .dataCollisionEmpty ∨ st = .dataCollisionCe

/-- The state of the meta block of a data collision. -/
def BlkState.isMdc (st : BlkState) : Bool := st = .metaDataCollision ∨ st = .metaDataCollisionEntry

/-- The number of blocks in each state. -/
def blockCounts (P : Params) (c : Ctx) : Dstat where
  metaBlk := countStates P c (· = .metaBlk)
  mc := countStates P c (· = .collision)
  dc := countStates P c BlkState.isDc
  mdc := countStates P c BlkState.isMdc
  ce := countStates P c (· = .collisionExtension)

/-- What the switch of `boot_dc_get_next_dmc_blk` counts for a cell: no `break` ends the cases of `META`
and of `COLLISION`. -/
def bootCount (st : Dstat) (v : ℕ) : Dstat :=
  match BlkState.ofCell v with
  | some .metaBlk => { st with metaBlk := st.metaBlk + 1, mc := st.mc + 1, mdc := st.mdc + 1 }
  | some .collision => { st with mc := st.mc + 1, mdc := st.mdc + 1 }
  | some .metaDataCollisionEntry | some .metaDataCollision => { st with mdc := st.mdc + 1 }
  | _ => st

/-- `boot_dc_get_next_dmc_blk`, with the number of blocks behind `dss_mdc_lba`: it stops at the next
`META_DATA_COLLISION_ENTRY`, or at the last block. `none` when the state of a block cannot be read. -/
def bootDcGetNextDmcBlk (alloc : Context) : ℕ → ℕ → Dstat → Option (ℕ × Dstat)
  | 0, lba, st => some (lba, st)
  | n + 1, lba, st =>
      match alloc.getBlockState (lba + 1) with
      | some (.success, v) =>
          if v = BlkState.metaDataCollisionEntry.toCell then some (lba + 1, bootCount st v)
          else bootDcGetNextDmcBlk alloc n (lba + 1) (bootCount st v)
      | _ => none

/-- The calls of `boot_dc_get_next_dmc_blk` until `dss_mdc_lba` is the last block. -/
def bootScan (alloc : Context) (last : ℕ) : ℕ → ℕ → Dstat → Option Dstat
  | 0, _, _ => none
  | fuel + 1, lba, st =>
      match bootDcGetNextDmcBlk alloc (last - lba) lba st with
      | none => none
      | some (lba, st) => if lba = last then some st else bootScan alloc last fuel lba st

/-- The counters after the scan of the bitmap at boot. -/
def bootRecount (P : Params) (c : Ctx) : Option Dstat :=
  bootScan c.alloc (P.blkOffset + P.blkNum - 1) (P.blkNum + 1) (P.blkOffset - 1) Dstat.zero

/-- The counters are the numbers of blocks, and the scan at boot finds the same. -/
structure StatExact (P : Params) (c : Ctx) : Prop where
  counts : c.stat = blockCounts P c
  recount : bootRecount P c = some c.stat

section

variable {P : Params} {c : Ctx}

theorem countStates_pos {q : BlkState → Bool} {x : ℕ} {st : BlkState} (hx : P.InRange x 1)
    (hcell : c.alloc.alloc.cellOf x = st.toCell) (hq : q st = true) : 0 < countStates P c q := by
  obtain ⟨hle, hlt⟩ := hx
  refine List.countP_pos_iff.2 ⟨x, List.mem_range'_1.2 ⟨hle, by omega⟩, ?_⟩
  rw [hcell, BlkState.ofCell_toCell]
  exact hq

theorem countStates_or {q q' : BlkState → Bool} (hne : ∀ st, q st = true → q' st = false) :
    countStates P c (fun st => q st || q' st) = countStates P c q + countStates P c q' := by
  unfold countStates
  induction List.range' P.blkOffset P.blkNum with
  | nil => rfl
  | cons x xs ih =>
    rw [List.countP_cons, List.countP_cons, List.countP_cons, ih]
    cases BlkState.ofCell (c.alloc.alloc.cellOf x) with
    | none => simp
    | some st =>
      have h := hne st
      cases hq : q st with
      | false =>
        simp only [Option.any_some, hq, Bool.false_or]
        simp only [Bool.false_eq_true, ↓reduceIte]
        omega
      | true =>
        simp only [Option.any_some, hq, h hq, Bool.true_or, ↓reduceIte, Bool.false_eq_true]
        omega

end

/-! ### The scan at boot -/

section

variable {P : Params} {s : Sys}

/-- The counters after some blocks. -/
def tally (alloc : Context) (lba n : ℕ) (st : Dstat) : Dstat :=
  (List.range' (lba + 1) n).foldl (fun st x => bootCount st (alloc.alloc.cellOf x)) st

theorem tally_succ (alloc : Context) (lba n : ℕ) (st : Dstat) :
    tally alloc lba (n + 1) st =
      tally alloc (lba + 1) n (bootCount st (alloc.alloc.cellOf (lba + 1))) := by
  unfold tally
  rw [List.range'_succ, List.foldl_cons]

theorem tally_add (alloc : Context) (lba m n : ℕ) (st : Dstat) :
    tally alloc lba (m + n) st = tally alloc (lba + m) n (tally alloc lba m st) := by
  induction m generalizing lba st with
  | zero => simp [tally]
  | succ m ih =>
    rw [Nat.succ_add, tally_succ, ih, tally_succ]
    congr 1
    omega

theorem bootDcGetNextDmcBlk_spec (hs : Serves P s) {n lba : ℕ} (st : Dstat)
    (hin : P.InRange (lba + 1) n) :
    ∃ m ≤ n, (m = 0 → n = 0) ∧ bootDcGetNextDmcBlk s.ctx.alloc n lba st =
      some (lba + m, tally s.ctx.alloc lba m st) := by
  induction n generalizing lba st with
  | zero => exact ⟨0, le_rfl, fun _ => rfl, rfl⟩
  | succ n ih =>
    have hone : P.InRange (lba + 1) 1 := ⟨hin.1, by have := hin.2; omega⟩
    have hrest : P.InRange (lba + 1 + 1) n := ⟨by have := hin.1; omega, by have := hin.2; omega⟩
    unfold bootDcGetNextDmcBlk
    rw [hs.getBlockState hone]
    dsimp only
    by_cases hstop : s.cell (lba + 1) = BlkState.metaDataCollisionEntry.toCell
    · rw [if_pos hstop]
      exact ⟨1, by omega, by omega, rfl⟩
    · rw [if_neg hstop]
      obtain ⟨m, hm, -, heq⟩ := ih (bootCount st (s.cell (lba + 1))) hrest
      refine ⟨m + 1, by omega, by omega, ?_⟩
      rw [heq, tally_succ, show lba + 1 + m = lba + (m + 1) by omega]
      rfl

theorem bootScan_spec (hs : Serves P s) {n lba fuel : ℕ} (st : Dstat) (hin : P.InRange (lba + 1) n)
    (hfuel : n < fuel) :
    bootScan s.ctx.alloc (lba + n) fuel lba st = some (tally s.ctx.alloc lba n st) := by
  induction fuel generalizing n lba st with
  | zero => omega
  | succ fuel ih =>
    unfold bootScan
    rw [Nat.add_sub_cancel_left]
    obtain ⟨m, hm, hzero, heq⟩ := bootDcGetNextDmcBlk_spec hs st hin
    rw [heq]
    dsimp only
    by_cases hlast : m = n
    · rw [if_pos (by omega), hlast]
    · rw [if_neg (by omega)]
      have hin' : P.InRange (lba + m + 1) (n - m) := ⟨by have := hin.1; omega, by have := hin.2; omega⟩
      have h : bootScan s.ctx.alloc (lba + m + (n - m)) fuel (lba + m) (tally s.ctx.alloc lba m st) =
          some (tally s.ctx.alloc (lba + m) (n - m) (tally s.ctx.alloc lba m st)) := ih _ hin' (by omega)
      rw [← tally_add, show m + (n - m) = n by omega, show lba + m + (n - m) = lba + n by omega] at h
      exact h

theorem bootCount_eq (st : Dstat) (v : ℕ) :
    bootCount st v =
      { metaBlk := st.metaBlk + if (BlkState.ofCell v).any (· = .metaBlk) then 1 else 0
        mc := st.mc + if (BlkState.ofCell v).any (fun st => st = .metaBlk || st = .collision)
          then 1 else 0
        dc := st.dc
        mdc := st.mdc + if (BlkState.ofCell v).any
          (fun st => (st = .metaBlk || st = .collision) || st.isMdc) then 1 else 0
        ce := st.ce } := by
  unfold bootCount
  cases BlkState.ofCell v with
  | none => simp
  | some b => cases b <;> simp [BlkState.isMdc]

/-- **The scan at boot.** It counts a `META` block in three counters and a `COLLISION` block in two, and
neither data collisions nor collision extensions. -/
theorem bootRecount_eq (hs : Serves P s) (hpos : 0 < P.blkOffset) :
    bootRecount P s.ctx = some
      { metaBlk := countStates P s.ctx (· = .metaBlk)
        mc := countStates P s.ctx (fun st => st = .metaBlk || st = .collision)
        dc := 0
        mdc := countStates P s.ctx (fun st => (st = .metaBlk || st = .collision) || st.isMdc)
        ce := 0 } := by
  have hstart : P.blkOffset - 1 + 1 = P.blkOffset := by omega
  unfold bootRecount
  rw [show P.blkOffset + P.blkNum - 1 = P.blkOffset - 1 + P.blkNum by omega,
    bootScan_spec hs _ ⟨by omega, by omega⟩ (Nat.lt_succ_self _)]
  unfold tally countStates
  rw [hstart]
  have hfold : ∀ (xs : List ℕ) (st : Dstat),
      xs.foldl (fun st x => bootCount st (s.ctx.alloc.alloc.cellOf x)) st =
        { metaBlk := st.metaBlk + (xs.countP fun x =>
            (BlkState.ofCell (s.ctx.alloc.alloc.cellOf x)).any (· = .metaBlk) : ℕ)
          mc := st.mc + (xs.countP fun x => (BlkState.ofCell (s.ctx.alloc.alloc.cellOf x)).any
            (fun st => st = .metaBlk || st = .collision) : ℕ)
          dc := st.dc
          mdc := st.mdc + (xs.countP fun x => (BlkState.ofCell (s.ctx.alloc.alloc.cellOf x)).any
            (fun st => (st = .metaBlk || st = .collision) || st.isMdc) : ℕ)
          ce := st.ce } := by
    intro xs
    induction xs with
    | nil => simp
    | cons x xs ih =>
      intro st
      rw [List.foldl_cons, ih, bootCount_eq]
      simp only [List.countP_cons, Nat.cast_add, Nat.cast_ite, Nat.cast_one, Nat.cast_zero]
      congr 1 <;> ring
  rw [hfold]
  simp [Dstat.zero]

/-- Exact counters leave no meta block and no collision on the device, and no data collision and no
collision extension. -/
theorem StatExact.vacant (h : StatExact P s.ctx) (hs : Serves P s) (hpos : 0 < P.blkOffset) :
    countStates P s.ctx (· = .metaBlk) = 0 ∧ countStates P s.ctx (· = .collision) = 0 ∧
      countStates P s.ctx BlkState.isDc = 0 ∧ countStates P s.ctx (· = .collisionExtension) = 0 := by
  have heq := h.recount
  rw [bootRecount_eq hs hpos, Option.some.injEq, h.counts] at heq
  unfold blockCounts at heq
  obtain ⟨-, hmc, hdc, hmdc, hce⟩ := Dstat.mk.injEq .. ▸ heq
  have hor : countStates P s.ctx (fun st => st = .metaBlk || st = .collision) =
      countStates P s.ctx (· = .metaBlk) + countStates P s.ctx (· = .collision) :=
    countStates_or fun st => by cases st <;> simp
  have hor' : countStates P s.ctx (fun st => (st = .metaBlk || st = .collision) || st.isMdc) =
      countStates P s.ctx (fun st => st = .metaBlk || st = .collision) +
        countStates P s.ctx BlkState.isMdc :=
    countStates_or fun st => by cases st <;> simp [BlkState.isMdc]
  omega

end

/-! ### Requests, one after the other -/

/-- A request runs to its end: whenever it is suspended its I/O is performed, and the handler is called
again. `none` when an assertion fails, or when the request waits in `kv_req_queue`. -/
def runToEnd (P : Params) : ℕ → Sys → Option (Status × Sys)
  | 0, _ => none
  | calls + 1, s =>
      match kvtransCall P s with
      | .error _ => none
      | .ok ((rc, _), s') =>
          if rc ≠ .success ∨ s'.req.state = .reqCmpl then some (rc, s')
          else if s'.req.id ∈ s'.ctx.kvReqQueue then none
          else
            let (c, r) := performIo P s'.ctx s'.req
            runToEnd P calls ⟨c, r⟩

/-- A request that completes: it was carried out or its key was not found, which are the two statuses
that are sent back, and it found the blocks that it asked for. -/
def complete (P : Params) (c : Ctx) (req : Req) : Option Ctx :=
  match runToEnd P (fuel P) ⟨c, initKvtransReq 0 req⟩ with
  | none => none
  | some (rc, s) =>
      if (rc = .success ∨ rc = .notFound) ∧ s.req.allocFailed = false then some s.ctx else none

/-- The allocator, the request, its state and the record of its allocations stay as they are. -/
structure Settled (s s' : Sys) : Prop where
  alloc : s'.ctx.alloc = s.ctx.alloc
  req : s'.req.req = s.req.req
  state : s'.req.state = s.req.state
  failed : s'.req.allocFailed = s.req.allocFailed

instance : IsPreorder Sys Settled where
  refl _ := ⟨rfl, rfl, rfl, rfl⟩
  trans _ _ _ h h' := ⟨h'.alloc.trans h.alloc, h'.req.trans h.req, h'.state.trans h.state,
    h'.failed.trans h.failed⟩

section

variable {P : Params} {s : Sys}

theorem settled_blkAt (p : ℕ) : Keeps Settled (blkAt p) := fun s => refl_of Settled s

theorem settled_writeMetaAndData (p : ℕ) : Keeps Settled (writeMetaAndData P p) := by
  have hmeta : Keeps Settled (writeOndiskBlk P p) := by
    unfold writeOndiskBlk modifyCtx modifyReq setLbaDirty modifyCtx
    refine Keeps.bind (settled_blkAt p) fun b => ?_
    split
    · exact Keeps.modify fun _ => ⟨rfl, rfl, rfl, rfl⟩
    · exact Keeps.bind (Keeps.modify fun _ => ⟨rfl, rfl, rfl, rfl⟩) fun _ =>
        Keeps.modify fun _ => ⟨rfl, rfl, rfl, rfl⟩
  have hdata : Keeps Settled (writeOndiskData P p) := by
    unfold writeOndiskData modifyCtx modifyReq
    refine Keeps.bind (settled_blkAt p) fun b => Keeps.bind Keeps.get fun s => ?_
    refine Keeps.ite (fun _ => ?_) fun _ => ?_
    · split
      · exact Keeps.throw _
      · exact Keeps.pure _
    · split
      · exact Keeps.modify fun _ => ⟨rfl, rfl, rfl, rfl⟩
      · exact Keeps.modify fun _ => ⟨rfl, rfl, rfl, rfl⟩
  exact Keeps.bind hmeta fun _ => Keeps.bind hdata fun _ => Keeps.pure _

theorem settled_countMetaBlk (p : ℕ) : Keeps Settled (countMetaBlk p) := by
  unfold countMetaBlk modifyStat modifyCtx
  refine Keeps.bind (settled_blkAt p) fun b => ?_
  exact Keeps.bind (Keeps.modify fun _ => ⟨rfl, rfl, rfl, rfl⟩) fun _ => Keeps.pure _

theorem settled_popChain (chain : List BlkCtx) : Keeps Settled (popChain chain) := by
  induction chain with
  | nil => exact Keeps.pure _
  | cons b chain ih =>
    refine Keeps.bind (fun s => ?_) fun _ => ih
    refine wp_mono (popMetaBlkFromQueue_spec s) ?_
    rintro - s₁ ⟨hp, hreq⟩
    refine ⟨?_, by rw [hreq], by rw [hreq], by rw [hreq]⟩
    cases hp with
    | clean hdirty hc => rw [hc]
    | free hdirty hnone hc => rw [hc]
    | woken id r st before after hdirty hqueue hbefore hr hlast hc => rw [hc]

/-! ### The end of a request -/

/-- A request whose handlers have run. -/
def Closing (s : Sys) : Prop :=
  s.req.state = .queueToStartIo ∨ s.req.state = .ioCmpl ∨ s.req.state = .reqCmpl

/-- The allocator stays as it is until the request ends. -/
structure Closes (s s' : Sys) : Prop where
  alloc : s'.ctx.alloc = s.ctx.alloc
  req : s'.req.req = s.req.req
  closing : Closing s'

theorem keyOpsIter_closing (h : Closing s) :
    wp (fun _ => True) (keyOpsIter P) (fun _ s' => Closes s s') s := by
  unfold keyOpsIter modifyReq
  rw [wp_bind, wp_get]
  rcases h with h | h | h
  · rw [h]
    dsimp only
    rw [wp_ite]
    refine ⟨fun _ => ⟨rfl, rfl, .inl h⟩, fun _ => ?_⟩
    rw [wp_bind, wp_modify]
    exact ⟨rfl, rfl, .inr (.inl rfl)⟩
  · rw [h]
    dsimp only
    rw [wp_bind, wp_modify]
    exact ⟨rfl, rfl, .inr (.inr rfl)⟩
  · rw [h]
    dsimp only
    rw [wp_bind]
    have hpop : Keeps Settled (if P.build = .disk then popChain s.req.chain else pure ()) :=
      Keeps.ite (fun _ => settled_popChain _) fun _ => Keeps.pure _
    refine wp_mono (hpop s) ?_
    rintro - s₁ hs₁
    exact ⟨hs₁.alloc, hs₁.req, .inr (.inr (hs₁.state.trans h))⟩

theorem keyOps_closing (n : ℕ) (h : Closing s) :
    wp (fun _ => True) (keyOps P n) (fun _ s' => Closes s s') s := by
  induction n generalizing s with
  | zero => trivial
  | succ n ih =>
    unfold keyOps
    rw [wp_bind, wp_get, wp_bind]
    refine wp_mono (keyOpsIter_closing h) ?_
    intro r s₁ h₁
    cases r with
    | some rc => exact h₁
    | none =>
      dsimp only
      rw [wp_bind, wp_get, wp_ite]
      refine ⟨fun _ => ?_, fun _ => h₁⟩
      refine wp_mono (ih h₁.closing) ?_
      rintro r s₂ h₂
      exact ⟨h₂.alloc.trans h₁.alloc, h₂.req.trans h₁.req, h₂.closing⟩

theorem performIo_alloc (c : Ctx) (r : Kreq) : (performIo P c r).1.alloc = c.alloc := by
  unfold performIo
  suffices h : ∀ (ops : List IoOp) (x : Ctx × Kreq), (ops.foldl (performOp P) x).1.alloc = x.1.alloc from
    h r.io (c, r)
  intro ops
  induction ops with
  | nil => exact fun _ => rfl
  | cons op ops ih =>
    rintro ⟨c, r⟩
    rw [List.foldl_cons, ih]
    cases op with
    | readMeta p => rfl
    | writeMeta p =>
      cases hb : r.chain[p]? with
      | none => simp only [performOp, hb]
      | some b => simp only [performOp, hb]
    | readData loc => rfl
    | writeData loc offset => rfl

theorem kvtransCall_closing (hopc : s.req.req.opc = .store) (h : Closing s) :
    wp (fun _ => True) (kvtransCall P) (fun _ s' => Closes s s') s := by
  unfold kvtransCall handleKreqState modifyReq
  rw [wp_bind, wp_get, hopc]
  dsimp only
  rw [wp_bind, wp_modify]
  refine wp_mono (keyOps_closing (fuel P) ?hclosing) ?_
  case hclosing =>
    rcases h with h | h | h
    · right; left; simp only [h]
    · right; left; simp only [h]
    · right; right; simp only [h]
  rintro r s' h'
  refine ⟨h'.alloc, h'.req.trans ?_, h'.closing⟩
  dsimp only
  split <;> rfl

theorem runToEnd_closing {n : ℕ} {rc : Status} {s' : Sys} (hopc : s.req.req.opc = .store)
    (h : Closing s) (hrun : runToEnd P n s = some (rc, s')) : s'.ctx.alloc = s.ctx.alloc := by
  induction n generalizing s with
  | zero => cases hrun
  | succ n ih =>
    unfold runToEnd at hrun
    have hcall := kvtransCall_closing (P := P) hopc h
    split at hrun
    · cases hrun
    · next rc₁ b s₁ hok =>
      have h₁ : Closes s s₁ := wp_ok (Q := fun _ s₁ => Closes s s₁) hcall hok
      split_ifs at hrun
      · cases hrun
        exact h₁.alloc
      · have hperf : Performed s₁.ctx s₁.req (performIo P s₁.ctx s₁.req).1
            (performIo P s₁.ctx s₁.req).2 := performed_performIo
        have halloc := ih (s := ⟨(performIo P s₁.ctx s₁.req).1, (performIo P s₁.ctx s₁.req).2⟩)
          (by rw [hperf.req, h₁.req]; exact hopc) ?_ hrun
        · rw [halloc]
          show (performIo P s₁.ctx s₁.req).1.alloc = _
          rw [performIo_alloc, h₁.alloc]
        · unfold Closing
          rw [hperf.state]
          exact h₁.closing

end

/-! ### Requests on an empty device -/

/-- The entry block of a request is a block that the hash of its key assigns, and that is free. -/
structure AtFreeBlock (P : Params) (b : BlkCtx) (s : Sys) : Prop where
  chain : s.req.chain = [b]
  state : s.req.state = .entryLoadingDone
  inRange : P.InRange b.index 1
  free : s.cell b.index = blockStateFree
  empty : b.state = .empty
  dcIndex : b.dcIndex = 0
  nothash : b.nothash = false
  iscontig : b.iscontig = false

section

variable {P : Params} {s : Sys}

/-- `_alloc_entry_block` on a device whose blocks are all free. -/
theorem allocEntryBlock_free {b : BlkCtx} (hs : Serves P s)
    (hfree : ∀ x, P.InRange x 1 → s.cell x = blockStateFree) (hchain : s.req.chain = [b])
    (hcontig : b.iscontig = false) :
    wp (fun _ => True) (allocEntryBlock P 0) (fun rc s' => rc = .success ∧ s'.ctx = s.ctx ∧
      s'.req.req = s.req.req ∧ ∃ b', AtFreeBlock P b' s' ∧ b'.flag = b.flag) s := by
  unfold allocEntryBlock modifyBlk modifyReq
  simp only [wp_bind, wp_get, wp_dssAssert, wp_modify]
  refine ⟨fun _ => ⟨fun hrange => ?_, fun _ => trivial⟩, fun _ => trivial⟩
  have hin : P.InRange (P.hash (bytes s.req.req.key s.req.req.length)) 1 := ⟨hrange.1, hrange.2⟩
  have hcell := hfree _ hin
  unfold getBlkState readBlkState modifyBlk
  simp only [wp_bind, wp_get, wp_blkAt, hchain, List.modify_zero_cons, List.getD_cons_zero,
    hs.getBlockState hin, hcell]
  rw [if_neg (by decide)]
  show wp _ (pure (some BlkState.empty)) _ _
  rw [wp_pure]
  simp only [wp_bind, wp_modify, wp_pure, List.modify_zero_cons, List.getD_cons_zero]
  exact ⟨trivial, trivial, trivial, _, ⟨rfl, rfl, hin, hcell, rfl, rfl, rfl, hcontig⟩, rfl⟩

/-- A failed allocation stays recorded. -/
def KeepsRecord (s s' : Sys) : Prop := s.req.allocFailed = true → s'.req.allocFailed = true

instance : IsPreorder Sys KeepsRecord where
  refl _ := id
  trans _ _ _ h h' := h' ∘ h

theorem keepsRecord_setBlkState (hasCtx : Bool) (index n : ℕ) (state : BlkState) :
    Keeps KeepsRecord (setBlkState hasCtx index n state) :=
  keeps_setBlkState (fun _ _ _ _ => id) (Keeps.modify fun _ => id) hasCtx index n state

theorem keepsRecord_rollBack (p : ℕ) (rc : Status) : Keeps KeepsRecord (rollBack p rc) := by
  have hextents : ∀ locs, Keeps KeepsRecord (rollBackExtents locs) := by
    intro locs
    induction locs with
    | nil => exact Keeps.pure _
    | cons loc locs ih =>
      unfold rollBackExtents
      exact Keeps.bind (keepsRecord_setBlkState _ _ _ _) fun _ =>
        Keeps.ite (fun _ => Keeps.pure _) fun _ => ih
  unfold rollBack
  refine Keeps.bind (fun s => refl_of KeepsRecord s) fun b => Keeps.bind (hextents _) fun ok => ?_
  refine Keeps.ite (fun _ => ?_) fun _ => Keeps.pure _
  exact Keeps.bind (keepsRecord_setBlkState _ _ _ _) fun _ =>
    Keeps.ite (fun _ => Keeps.pure _) fun _ => Keeps.pure _

/-! ### A STORE on an empty device -/

/-- A block of the translator is a `META` block. -/
def HasMeta (P : Params) (s : Sys) : Prop :=
  Serves P s ∧ ∃ x, P.InRange x 1 ∧ s.cell x = BlkState.metaBlk.toCell

theorem HasMeta.congr {s' : Sys} (h : HasMeta P s) (halloc : s'.ctx.alloc = s.ctx.alloc) :
    HasMeta P s' := by
  obtain ⟨⟨hinv, hoffset, hblocks, hstates⟩, x, hx, hcell⟩ := h
  unfold HasMeta Sys.cell
  refine ⟨⟨?_, ?_, ?_, ?_⟩, x, hx, ?_⟩
  · rw [halloc]; exact hinv
  · rw [halloc]; exact hoffset
  · rw [halloc]; exact hblocks
  · rw [halloc]; exact hstates
  · rw [halloc]; exact hcell

/-- Blocks for a value, next to a meta block. -/
theorem HasMeta.takes {p : ℕ} {s' : Sys} {ps : List (ℕ × ℕ)} (h : HasMeta P s) (ht : Takes P p s s' ps) :
    HasMeta P s' := by
  obtain ⟨-, x, hx, hcell⟩ := h
  refine ⟨ht.serves, x, hx, ?_⟩
  have hnot : ¬ Covers ps x := by
    rintro ⟨e, he, hxe⟩
    have hfree := (ht.free e he).2.2 x hxe
    rw [hcell] at hfree
    cases hfree
  rw [ht.cell x hx.1, if_neg hnot, hcell]

/-- `_blk_init_value` for a block whose value blocks are allocated on their own. -/
theorem blkInitValue_hasMeta {b : BlkCtx} (h : HasMeta P s) (hchain : s.req.chain = [b])
    (hcontig : b.iscontig = false) :
    wp (fun _ => True) (blkInitValue P 0) (fun rc s' => (rc = .success → HasMeta P s') ∧
      (rc ≠ .success → s'.req.allocFailed = true)) s := by
  unfold blkInitValue modifyBlk
  simp only [wp_bind, wp_get, wp_blkAt, hchain, List.getD_cons_zero, hcontig]
  rw [wp_ite]
  refine ⟨fun _ => ?_, fun _ => ?_⟩
  · rw [wp_bind, wp_modify, wp_pure]
    exact ⟨fun _ => h.congr rfl, fun hne => absurd rfl hne⟩
  · rw [if_neg (by decide), wp_bind, wp_modify, wp_checked, hchain]
    have hs : HasMeta P { s with req := { s.req with chain := [b].modify 0 fun b =>
        { b with
          remoteValBlocks := 0
          blk := { b.blk with valueSize := s.req.req.value.length, placeValue := [] } } } } := h.congr rfl
    have htakes := findDataBlocks_takes (p := 0) (n := b.valueBlocks) hs.1 Nat.one_pos (Nat.zero_le _)
      (Nat.lt_succ_self _)
    refine wp_mono (wp_and (wp_true_iff.2 fun _ _ _ => trivial) htakes) ?_
    rintro rc s₁ ⟨-, ps, ht, -, hrc⟩
    refine ⟨fun hne => ⟨fun hok => absurd hok hne, fun _ => (hrc.resolve_left fun hok => hne hok.1).2⟩,
      fun _ => ?_⟩
    simp only [wp_bind, wp_blkAt, wp_dssAssert, wp_modify, wp_pure]
    exact ⟨fun _ => ⟨fun _ => (hs.takes ht).congr rfl, fun hne => absurd rfl hne⟩, fun _ => trivial⟩

/-- `init_meta_blk` on a free block: it becomes a `META` block, or a failed allocation is recorded. -/
theorem initMetaBlk_hasMeta {b : BlkCtx} (hs : Serves P s) (h : AtFreeBlock P b s) :
    wp (fun _ => True) (initMetaBlk P 0) (fun rc s' => (rc = .success → HasMeta P s') ∧
      (rc ≠ .success → s'.req.allocFailed = true)) s := by
  unfold initMetaBlk allocMetaBlk modifyBlk
  simp only [wp_bind, wp_get, wp_modify, wp_checked, wp_blkAt, h.chain, List.modify_zero_cons,
    List.getD_cons_zero, h.nothash, h.dcIndex]
  rw [if_neg (by decide), if_neg (by decide)]
  simp only [wp_bind, wp_modify, List.modify_zero_cons]
  rw [if_neg (by decide)]
  have hs' : Serves P { s with req := { s.req with chain := [{ b with
      dcIndex := 0
      valueBlocks := getNumBlocksRequiredForValue s.req.req P.blkSize
      nothash := false
      blk := { OndiskMeta.zero with
        key := memcpy [] s.req.req.key s.req.req.length, keyLen := s.req.req.length } }] } } :=
    ⟨hs.inv, hs.offset, hs.blocks, hs.states⟩
  have halloc := @allocContig_spec P _ 1 hs' .metaBlk b.index (by decide) (by decide) Nat.one_pos
  refine wp_mono (wp_and (wp_true_iff.2 fun _ _ _ => trivial) halloc) ?_
  rintro r s₁ ⟨-, ⟨rfl, -, hfailed⟩ | ⟨start, rfl, hin, -, hset⟩⟩
  · refine ⟨fun hne => ⟨fun hok => absurd hok hne, fun _ => hfailed rfl⟩, fun hok => ?_⟩
    exact absurd (show Status.allocContigError ≠ .success by decide) hok
  · dsimp only
    simp only [wp_bind, wp_dssAssert, wp_pure]
    refine ⟨fun _ => ⟨fun hne => absurd rfl hne, fun _ => ?_⟩, fun _ => trivial⟩
    have hmeta : HasMeta P s₁ := by
      refine ⟨hset.serves, start, hin, ?_⟩
      rw [hset.cell start hin.1, if_pos ⟨le_rfl, Nat.lt_succ_self _⟩]
    -- the value, and after it the writes and the counter
    rw [hset.frame.chain]
    refine wp_mono (blkInitValue_hasMeta (hmeta.congr rfl) rfl h.iscontig) ?_
    rintro rc s₂ ⟨hok, hbad⟩
    rw [wp_ite]
    refine ⟨fun hne => ?_, fun hrc => ?_⟩
    · refine wp_mono (wp_and (rollBack_ne_success 0 hne s₂) (keepsRecord_rollBack 0 rc s₂)) ?_
      rintro rc' s₃ ⟨hne', hkeep⟩
      exact ⟨fun hok' => absurd hok' hne', fun _ => hkeep (hbad hne)⟩
    · have hmeta₂ := hok (not_not.1 hrc)
      rw [wp_checked]
      have hwrite : Returns (· = .success) (writeMetaAndData P 0) :=
        Returns.bind fun _ => Returns.bind fun _ => Returns.pure rfl
      refine wp_mono (wp_and (hwrite s₂) (settled_writeMetaAndData (P := P) 0 s₂)) ?_
      rintro rc₁ s₃ ⟨rfl, h₃⟩
      refine ⟨fun hne => absurd rfl hne, fun _ => ?_⟩
      have hcount : Returns (· = .success) (countMetaBlk 0) :=
        Returns.bind fun _ => Returns.bind fun _ => Returns.pure rfl
      refine wp_mono (wp_and (hcount s₃) (settled_countMetaBlk 0 s₃)) ?_
      rintro rc₂ s₄ ⟨rfl, h₄⟩
      exact ⟨fun _ => (hmeta₂.congr h₃.alloc).congr h₄.alloc, fun hne => absurd rfl hne⟩

/-- The request and its state stay as they are. -/
def KeepsRequest (s s' : Sys) : Prop := s'.req.req = s.req.req ∧ s'.req.state = s.req.state

instance : IsPreorder Sys KeepsRequest where
  refl _ := ⟨rfl, rfl⟩
  trans _ _ _ h h' := ⟨h'.1.trans h.1, h'.2.trans h.2⟩

theorem keepsRequest_initMetaBlk : Keeps KeepsRequest (initMetaBlk P 0) := by
  have hquiet {α : Type} {m : M α} (h : Keeps (Quiet {0}) m) : Keeps KeepsRequest m :=
    h.mono fun _ _ h => ⟨h.req, h.state⟩
  have hsettled {α : Type} {m : M α} (h : Keeps Settled m) : Keeps KeepsRequest m :=
    h.mono fun _ _ h => ⟨h.req, h.state⟩
  unfold initMetaBlk
  refine Keeps.bind Keeps.get fun s => Keeps.bind (Keeps.modify fun _ => ⟨rfl, rfl⟩) fun _ => ?_
  refine keeps_checked (hquiet (quiet_allocMetaBlk P rfl)) ?_
  refine Keeps.bind (Keeps.modify fun _ => ⟨rfl, rfl⟩) fun _ => ?_
  refine Keeps.bind (hquiet (quiet_blkInitValue P rfl)) fun rc => ?_
  refine Keeps.ite (fun _ => hquiet (quiet_rollBack 0 rc)) fun _ => ?_
  exact keeps_checked (hsettled (settled_writeMetaAndData 0)) (hsettled (settled_countMetaBlk 0))

/-- A request that does not complete: its status is not sent back, or it ended with a failed
allocation. -/
def Rejected (rc : Status) (s : Sys) : Prop :=
  (rc ≠ .success ∧ rc ≠ .notFound) ∨ s.req.state = .reqCmpl ∧ s.req.allocFailed = true

/-- `req_terminate` after a failed allocation. -/
theorem reqTerminate_rejected {rc : Status} (hrc : rc ≠ .success) (hrc' : rc ≠ .notFound)
    (h : s.req.allocFailed = true) :
    wp (fun _ => True) (reqTerminate P rc) (fun rc' s' => Rejected rc' s') s := by
  unfold reqTerminate modifyReq
  rw [wp_bind, wp_modify]
  cases P.build with
  | memory => exact .inl ⟨hrc, hrc'⟩
  | disk =>
    dsimp only
    rw [wp_bind, wp_get, wp_bind]
    refine wp_mono (settled_popChain _ _) ?_
    rintro - s₁ h₁
    exact .inr ⟨h₁.state, h₁.failed.trans h⟩

theorem entryLoadingDone_store {b : BlkCtx} (hs : Serves P s) (h : AtFreeBlock P b s)
    (hflag : b.flag = .newWrite) :
    wp (fun _ => True) (entryLoadingDone P) (fun r s' => (r = none → s'.req.req = s.req.req ∧ Closing s' ∧ HasMeta P s') ∧
      ∀ rc, r = some rc → Rejected rc s') s := by
  unfold entryLoadingDone assignOps modifyBlk
  simp only [wp_bind, wp_blkAt, h.chain, List.getD_cons_zero, h.empty]
  rw [if_pos (by decide), wp_modify, h.chain, List.modify_zero_cons]
  simp only [List.getD_cons_zero, h.empty, true_or, if_true, hflag]
  rw [if_neg (by decide)]
  have hs' : Serves P { s with req := { s.req with chain := [{ b with ops := some .empty }] } } :=
    ⟨hs.inv, hs.offset, hs.blocks, hs.states⟩
  have h' : AtFreeBlock P { b with ops := some .empty }
      { s with req := { s.req with chain := [{ b with ops := some .empty }] } } :=
    ⟨rfl, h.state, h.inRange, h.free, h.empty, h.dcIndex, h.nothash, h.iscontig⟩
  have hinit := wp_and (wp_and (initMetaBlk_hasMeta hs' h') (keepsRequest_initMetaBlk (P := P) _))
    (found_initMetaBlk P 0 _)
  rw [h.empty, hflag] at hinit
  rw [wp_bind]
  refine wp_mono hinit ?_
  rintro rc s₁ ⟨⟨⟨hok, hbad⟩, hreq, hstate⟩, hfound⟩
  unfold orTerminate
  rw [wp_ite]
  refine ⟨fun hne => ?_, fun hrc => ?_⟩
  · rw [wp_map]
    refine wp_mono (reqTerminate_rejected hne hfound (hbad hne)) ?_
    intro rc' s₂ hrej
    refine ⟨fun hnone => (by cases hnone), fun rc'' heq => ?_⟩
    cases heq
    exact hrej
  · unfold startIoFrom modifyReq
    rw [wp_bind, wp_modify, wp_pure]
    dsimp only
    rw [if_pos (hstate.trans h.state)]
    exact ⟨fun _ => ⟨hreq, .inl rfl, (hok (not_not.1 hrc)).congr rfl⟩, fun _ heq => (by cases heq)⟩

theorem entryLoadingDone_delete {b : BlkCtx} (h : AtFreeBlock P b s) (hflag : b.flag = .toDelete)
    (hclean : s.ctx.dirtyMetaLba b.index = false) :
    wp (fun _ => True) (entryLoadingDone P) (fun r s' => r ≠ none ∧ s'.ctx = s.ctx ∧
      s'.req.state = .reqCmpl) s := by
  unfold entryLoadingDone assignOps modifyBlk
  simp only [wp_bind, wp_blkAt, h.chain, List.getD_cons_zero, h.empty]
  rw [if_pos (by decide), wp_modify, h.chain, List.modify_zero_cons]
  simp only [List.getD_cons_zero, h.empty, true_or, if_true, hflag]
  unfold reqTerminate modifyReq
  rw [wp_map, wp_bind, wp_modify]
  cases P.build with
  | memory => exact ⟨by simp, rfl, rfl⟩
  | disk =>
    dsimp only
    unfold popChain popMetaBlkFromQueue
    rw [wp_bind, wp_get, wp_bind, wp_bind, wp_bind, wp_get, if_pos hclean]
    exact ⟨by simp, rfl, rfl⟩

theorem keyOpsIter_start {c : Ctx} {id : ℕ} {req : Req} (hs : Serves P ⟨c, initKvtransReq id req⟩)
    (hfree : ∀ x, P.InRange x 1 → c.alloc.alloc.cellOf x = blockStateFree) :
    wp (fun _ => True) (keyOpsIter P) (fun r s' => r = none ∧ s'.ctx = c ∧ s'.req.req = req ∧
      ∃ b, AtFreeBlock P b s' ∧ b.flag = if req.opc = .store then .newWrite
        else if req.opc = .delete then .toDelete else BlkCtx.zero.flag) ⟨c, initKvtransReq id req⟩ := by
  have halloc := allocEntryBlock_free (P := P)
    (s := ⟨c, { initKvtransReq id req with chain := [{ BlkCtx.zero with
      iscontig := false
      flag := if req.opc = .store then .newWrite
        else if req.opc = .delete then .toDelete else BlkCtx.zero.flag }] }⟩)
    ⟨hs.inv, hs.offset, hs.blocks, hs.states⟩ hfree rfl rfl
  unfold keyOpsIter modifyBlk
  rw [wp_bind, wp_get]
  show wp _ (modify _ >>= fun _ => allocEntryBlock P 0 >>= fun rc =>
    pure (if rc ≠ .success then some rc else none)) _ _
  rw [wp_bind, wp_modify, wp_bind]
  refine wp_mono halloc ?_
  rintro rc s' ⟨rfl, hctx, hreq, hb⟩
  exact ⟨rfl, hctx, hreq, hb⟩

/-- The loop of `_kvtrans_key_ops` with its first two iterations. -/
theorem keyOps_free {c : Ctx} {id : ℕ} {req : Req} {Q : Status × Bool → Sys → Prop}
    (hs : Serves P ⟨c, initKvtransReq id req⟩)
    (hfree : ∀ x, P.InRange x 1 → c.alloc.alloc.cellOf x = blockStateFree)
    (hrest : ∀ b s', AtFreeBlock P b s' → s'.ctx = c → s'.req.req = req →
      b.flag = (if req.opc = .store then .newWrite
        else if req.opc = .delete then .toDelete else BlkCtx.zero.flag) →
      wp (fun _ => True) (keyOps P (4 * P.blkNum + 15)) Q s') :
    wp (fun _ => True) (keyOps P (fuel P)) Q ⟨c, initKvtransReq id req⟩ := by
  show wp _ (keyOps P (4 * P.blkNum + 15 + 1)) _ _
  unfold keyOps
  rw [wp_bind, wp_get, wp_bind]
  refine wp_mono (keyOpsIter_start hs hfree) ?_
  rintro r s₁ ⟨rfl, hctx, hreq, b, hb, hflag⟩
  dsimp only
  have hne : s₁.req.state ≠ ReqState.reqInitialized := by
    rw [hb.state]
    decide
  rw [wp_bind, wp_get]
  refine (wp_ite.2 ⟨fun _ => hrest b s₁ hb hctx hreq hflag, fun heq => ?_⟩)
  exact absurd hne heq

theorem wp_keyOpsIter_entry {b : BlkCtx} {E : Fault → Prop} {Q : Option Status → Sys → Prop}
    (h : AtFreeBlock P b s) : wp E (keyOpsIter P) Q s ↔ wp E (entryLoadingDone P) Q s := by
  unfold keyOpsIter
  rw [wp_bind, wp_get, h.state]

/-- The first call of the handler for a STORE on an empty device: a `META` block is in place, or the
request does not complete. -/
theorem kvtransCall_store {c : Ctx} {id : ℕ} {req : Req} (hs : Serves P ⟨c, initKvtransReq id req⟩)
    (hfree : ∀ x, P.InRange x 1 → c.alloc.alloc.cellOf x = blockStateFree) (hopc : req.opc = .store) :
    wp (fun _ => True) (kvtransCall P) (fun r s' => s'.req.req = req ∧ Closing s' ∧ HasMeta P s' ∨
      Rejected r.1 s') ⟨c, initKvtransReq id req⟩ := by
  unfold kvtransCall
  have hop : (initKvtransReq id req).req.opc = .store := hopc
  rw [wp_bind, wp_get, hop]
  show wp _ (handleKreqState >>= fun _ => keyOps P (fuel P)) _ _
  unfold handleKreqState modifyReq
  rw [wp_bind, wp_modify]
  refine keyOps_free hs hfree fun b s₁ hb hctx hreq hflag => ?_
  rw [if_pos hopc] at hflag
  have hs₁ : Serves P s₁ := by
    refine ⟨?_, ?_, ?_, ?_⟩
    · rw [hctx]; exact hs.inv
    · rw [hctx]; exact hs.offset
    · rw [hctx]; exact hs.blocks
    · rw [hctx]; exact hs.states
  unfold keyOps
  rw [wp_bind, wp_get, wp_bind, wp_keyOpsIter_entry hb]
  refine wp_mono (entryLoadingDone_store hs₁ hb hflag) ?_
  rintro r s₂ ⟨hnone, hsome⟩
  cases r with
  | some rc => exact .inr (hsome rc rfl)
  | none =>
    obtain ⟨hreq₂, hclosing, hmeta⟩ := hnone rfl
    dsimp only
    rw [wp_bind, wp_get, wp_ite]
    refine ⟨fun _ => ?_, fun _ => .inl ⟨hreq₂.trans hreq, hclosing, hmeta⟩⟩
    refine wp_mono (keyOps_closing _ hclosing) ?_
    intro r s₃ h₃
    exact .inl ⟨h₃.req.trans (hreq₂.trans hreq), h₃.closing, hmeta.congr h₃.alloc⟩

theorem kvtransCall_delete {c : Ctx} {id : ℕ} {req : Req} (hs : Serves P ⟨c, initKvtransReq id req⟩)
    (hfree : ∀ x, P.InRange x 1 → c.alloc.alloc.cellOf x = blockStateFree)
    (hclean : ∀ x, c.dirtyMetaLba x = false) (hopc : req.opc = .delete) :
    wp (fun _ => True) (kvtransCall P) (fun _ s' => s'.ctx = c ∧ s'.req.state = .reqCmpl)
      ⟨c, initKvtransReq id req⟩ := by
  unfold kvtransCall
  have hop : (initKvtransReq id req).req.opc = .delete := hopc
  rw [wp_bind, wp_get, hop]
  show wp _ (handleKreqState >>= fun _ => keyOps P (fuel P)) _ _
  unfold handleKreqState modifyReq
  rw [wp_bind, wp_modify]
  refine keyOps_free hs hfree fun b s₁ hb hctx hreq hflag => ?_
  rw [hopc, if_neg (by decide), if_pos rfl] at hflag
  unfold keyOps
  rw [wp_bind, wp_get, wp_bind, wp_keyOpsIter_entry hb]
  refine wp_mono (entryLoadingDone_delete hb hflag (by rw [hctx]; exact hclean _)) ?_
  rintro r s₂ ⟨hsome, hctx₂, hstate⟩
  cases r with
  | some rc => exact ⟨hctx₂.trans hctx, hstate⟩
  | none => exact absurd rfl hsome

/-! ### Runs from an empty device -/

/-- The allocator options of a translator, as `init_kvtrans_ctx` sets them. -/
def allocOpts (P : Params) (metaStart : ℕ) : Opts :=
  ⟨P.blkNum, defaultBlockStateNum - 1, P.blkOffset, metaStart⟩

section

variable {alloc : Context} {req : Req}

theorem serves_empty {metaStart : ℕ}
    (hinit : dssBlkAllocatorInit (allocOpts P metaStart) = some alloc) (hblocks : 0 < P.blkNum)
    (haddr : P.blkNum + P.blkOffset < 2 ^ 64) (r : Kreq) :
    Serves P ⟨initKvtransCtx alloc, r⟩ ∧ ∀ x, alloc.alloc.cellOf x = blockStateFree := by
  obtain ⟨hinv, hopts, -⟩ := Context.inv_of_init hinit
    ⟨hblocks, haddr, show defaultBlockStateNum - 1 ≤ 15 by decide⟩
  obtain ⟨-, -, hcell⟩ := Context.managed_of_init hinit hblocks haddr
  exact ⟨⟨hinv, by show alloc.opts.logicalStartBlockOffset = _; rw [hopts]; rfl,
    by show alloc.opts.numTotalBlocks = _; rw [hopts]; rfl,
    by show alloc.opts.numBlockStates = _; rw [hopts]; rfl⟩, hcell⟩

/-- A STORE that completes on an empty device leaves a `META` block. -/
theorem complete_store {c : Ctx} (hs : Serves P ⟨initKvtransCtx alloc, initKvtransReq 0 req⟩)
    (hfree : ∀ x, alloc.alloc.cellOf x = blockStateFree) (hopc : req.opc = .store)
    (h : complete P (initKvtransCtx alloc) req = some c) :
    HasMeta P ⟨c, initKvtransReq 0 req⟩ := by
  unfold complete at h
  split at h
  · cases h
  · next rc s' hrun =>
    split_ifs at h with hdone
    cases h
    -- the first call, and the rest of the request
    have hfuel : fuel P = 4 * P.blkNum + 15 + 1 := rfl
    rw [hfuel] at hrun
    unfold runToEnd at hrun
    have hcall := kvtransCall_store hs (fun x _ => hfree x) hopc
    split at hrun
    · cases hrun
    · next rc₁ b₁ s₁ hok =>
      have hpost := wp_ok hcall hok
      dsimp only at hpost
      rcases hpost with ⟨hreq, hclosing, hmeta⟩ | hrej
      · split_ifs at hrun
        · cases hrun
          exact hmeta.congr rfl
        · have hperf : Performed s₁.ctx s₁.req (performIo P s₁.ctx s₁.req).1
              (performIo P s₁.ctx s₁.req).2 := performed_performIo
          have halloc := runToEnd_closing
            (s := ⟨(performIo P s₁.ctx s₁.req).1, (performIo P s₁.ctx s₁.req).2⟩)
            (by rw [hperf.req, hreq]; exact hopc)
            (by unfold Closing; rw [hperf.state]; exact hclosing) hrun
          exact hmeta.congr (halloc.trans (performIo_alloc _ _))
      · exfalso
        rcases hrej with ⟨hne, hne'⟩ | ⟨hstate, hfailed⟩
        · rw [if_pos (.inl hne)] at hrun
          cases hrun
          exact hdone.1.elim hne hne'
        · rw [if_pos (.inr hstate)] at hrun
          cases hrun
          rw [hfailed] at hdone
          exact absurd hdone.2 (by decide)

theorem complete_delete {c : Ctx} (hs : Serves P ⟨initKvtransCtx alloc, initKvtransReq 0 req⟩)
    (hfree : ∀ x, alloc.alloc.cellOf x = blockStateFree) (hopc : req.opc = .delete)
    (h : complete P (initKvtransCtx alloc) req = some c) : c = initKvtransCtx alloc := by
  unfold complete at h
  split at h
  · cases h
  · next rc s' hrun =>
    split_ifs at h with hdone
    cases h
    have hfuel : fuel P = 4 * P.blkNum + 15 + 1 := rfl
    rw [hfuel] at hrun
    unfold runToEnd at hrun
    have hcall := kvtransCall_delete hs (fun x _ => hfree x) (fun _ => rfl) hopc
    split at hrun
    · cases hrun
    · next rc₁ b₁ s₁ hok =>
      obtain ⟨hctx, hstate⟩ := wp_ok (Q := fun _ s' => s'.ctx = initKvtransCtx alloc ∧ s'.req.state = .reqCmpl) hcall hok
      rw [if_pos (.inr hstate)] at hrun
      cases hrun
      exact hctx

theorem statExact_empty (hs : Serves P ⟨initKvtransCtx alloc, initKvtransReq 0 req⟩)
    (hpos : 0 < P.blkOffset) (hfree : ∀ x, alloc.alloc.cellOf x = blockStateFree) :
    StatExact P (initKvtransCtx alloc) := by
  have hzero : ∀ q : BlkState → Bool, q .empty = false → countStates P (initKvtransCtx alloc) q = 0 := by
    intro q hq
    unfold countStates
    rw [List.countP_eq_zero]
    intro x _
    show ¬ (BlkState.ofCell (alloc.alloc.cellOf x)).any q = true
    rw [hfree x]
    show ¬ q .empty = true
    rw [hq]
    decide
  constructor
  · unfold blockCounts
    rw [hzero _ rfl, hzero _ rfl, hzero _ rfl, hzero _ rfl, hzero _ rfl]
    rfl
  · have heq := bootRecount_eq hs hpos
    dsimp only at heq
    rw [heq, hzero _ rfl, hzero _ rfl, hzero _ rfl]
    rfl

/-- A device with a `META` block has no exact counters. -/
theorem HasMeta.not_statExact {s : Sys} (h : HasMeta P s) (hpos : 0 < P.blkOffset) :
    ¬ StatExact P s.ctx := by
  obtain ⟨hs, x, hx, hcell⟩ := h
  intro hexact
  have hmeta := countStates_pos (P := P) (c := s.ctx) (q := (· = .metaBlk)) hx hcell rfl
  rw [(hexact.vacant hs hpos).1] at hmeta
  exact absurd hmeta (lt_irrefl 0)

theorem run_delete {reqs : List Req} {c : Ctx} (hs : ∀ r, Serves P ⟨initKvtransCtx alloc, r⟩)
    (hfree : ∀ x, alloc.alloc.cellOf x = blockStateFree) (hdel : ∀ req ∈ reqs, req.opc = .delete)
    (hrun : Run.run (complete P) (initKvtransCtx alloc) reqs = some c) : c = initKvtransCtx alloc := by
  induction reqs with
  | nil =>
    cases hrun
    rfl
  | cons req reqs ih =>
    rw [Run.run_cons] at hrun
    obtain ⟨c₁, h₁, hrest⟩ := Option.bind_eq_some_iff.1 hrun
    have hc₁ := complete_delete (hs _) hfree (hdel req List.mem_cons_self) h₁
    rw [hc₁] at hrest
    exact ih (fun r hr => hdel r (List.mem_cons_of_mem _ hr)) hrest

/-- **The counters over a run.** From an empty device, over completed STORE and DELETE requests: the
counters are exact after each of them if and only if none is a STORE. The first STORE leaves a `META`
block, which the scan at boot counts three times. -/
theorem statExact_iff {metaStart : ℕ} {reqs : List Req} {c : Ctx}
    (hinit : dssBlkAllocatorInit (allocOpts P metaStart) = some alloc) (hpos : 0 < P.blkOffset)
    (hblocks : 0 < P.blkNum) (haddr : P.blkNum + P.blkOffset < 2 ^ 64)
    (hopc : ∀ req ∈ reqs, req.opc = .store ∨ req.opc = .delete)
    (hrun : Run.run (complete P) (initKvtransCtx alloc) reqs = some c) :
    (∀ before after c', reqs = before ++ after →
        Run.run (complete P) (initKvtransCtx alloc) before = some c' → StatExact P c') ↔
      ∀ req ∈ reqs, req.opc ≠ .store := by
  have hs := fun r => (serves_empty hinit hblocks haddr r).1
  have hfree := (serves_empty hinit hblocks haddr (initKvtransReq 0 ⟨.store, [], 0, []⟩)).2
  constructor
  · intro hexact req hmem hstore
    -- the first STORE
    obtain ⟨before, first, after, hsplit, hdel, hfirst⟩ :
        ∃ before first after, reqs = before ++ first :: after ∧
          (∀ r ∈ before, r.opc = .delete) ∧ first.opc = .store := by
      clear hexact hrun
      induction reqs with
      | nil => exact (List.not_mem_nil hmem).elim
      | cons r reqs ih =>
        rcases hopc r List.mem_cons_self with hr | hr
        · exact ⟨[], r, reqs, rfl, fun _ h => (List.not_mem_nil h).elim, hr⟩
        · have hne : req ≠ r := by
            rintro rfl
            rw [hr] at hstore
            cases hstore
          obtain ⟨before, first, after, hsplit, hdel, hfirst⟩ :=
            ih (fun r' h => hopc r' (List.mem_cons_of_mem _ h))
              ((List.mem_cons.1 hmem).resolve_left hne)
          refine ⟨r :: before, first, after, by rw [hsplit]; rfl, fun r' h => ?_, hfirst⟩
          rcases List.mem_cons.1 h with rfl | h
          · exact hr
          · exact hdel r' h
    rw [hsplit, Run.run_append] at hrun
    obtain ⟨c₁, h₁, hrest⟩ := Option.bind_eq_some_iff.1 hrun
    obtain rfl := run_delete hs hfree hdel h₁
    rw [Run.run_cons] at hrest
    obtain ⟨c₂, h₂, -⟩ := Option.bind_eq_some_iff.1 hrest
    refine (complete_store (hs _) hfree hfirst h₂).not_statExact hpos ?_
    refine hexact (before ++ [first]) after c₂ (by rw [hsplit]; simp) ?_
    rw [Run.run_append, h₁, Option.bind_some, Run.run_cons, h₂]
    rfl
  · intro hno before after c' hsplit hbefore
    have hdel : ∀ r ∈ before, r.opc = .delete := by
      intro r hr
      have hmem : r ∈ reqs := by
        rw [hsplit]
        exact List.mem_append_left _ hr
      exact (hopc r hmem).resolve_left (hno r hmem)
    rw [run_delete hs hfree hdel hbefore]
    exact statExact_empty (hs (initKvtransReq 0 ⟨.store, [], 0, []⟩)) hpos hfree

end

end

/-- Eight blocks on a disk. -/
def diskLine : Params := { lineParams 8 with build := .disk }

/-- A DELETE and a STORE on an empty disk of eight blocks. -/
theorem statExact_iff_eight :
    ∃ alloc c, dssBlkAllocatorInit (allocOpts diskLine 1) = some alloc ∧
      Run.run (complete diskLine) (initKvtransCtx alloc)
        [⟨.delete, [7], 1, []⟩, ⟨.store, [7], 1, [1]⟩] = some c ∧
      ((∀ before after c', [⟨.delete, [7], 1, []⟩, ⟨.store, [7], 1, [1]⟩] = before ++ after →
          Run.run (complete diskLine) (initKvtransCtx alloc) before = some c' →
            StatExact diskLine c') ↔
        ∀ req ∈ ([⟨.delete, [7], 1, []⟩, ⟨.store, [7], 1, [1]⟩] : List Req), req.opc ≠ .store) := by
  obtain ⟨alloc, halloc⟩ := init_lineOpts 8
  obtain ⟨c, hc⟩ : ∃ c, Run.run (complete diskLine) (initKvtransCtx alloc)
      [⟨.delete, [7], 1, []⟩, ⟨.store, [7], 1, [1]⟩] = some c := by
    cases halloc
    exact Option.isSome_iff_exists.1 (by decide +kernel)
  have hinit : dssBlkAllocatorInit (allocOpts diskLine 1) = some alloc := halloc
  exact ⟨alloc, c, hinit, hc,
    statExact_iff hinit (by decide) (by decide) (by decide) (by decide) hc⟩

/-- After the STORE of one byte on an empty disk the counters are one meta block, and the scan at boot
finds a meta block, a collision and a meta data collision. -/
theorem not_statExact_store :
    ∃ alloc c, dssBlkAllocatorInit (allocOpts diskLine 1) = some alloc ∧
      complete diskLine (initKvtransCtx alloc) ⟨.store, [7], 1, [1]⟩ = some c ∧
      c.stat = ⟨1, 0, 0, 0, 0⟩ ∧ bootRecount diskLine c = some ⟨1, 1, 0, 1, 0⟩ ∧
      ¬ StatExact diskLine c := by
  obtain ⟨alloc, halloc⟩ := init_lineOpts 8
  have hresult : (complete diskLine (initKvtransCtx alloc) ⟨.store, [7], 1, [1]⟩).map
      (fun c => (c.stat, bootRecount diskLine c)) =
      some (⟨1, 0, 0, 0, 0⟩, some ⟨1, 1, 0, 1, 0⟩) := by
    cases halloc
    decide +kernel
  obtain ⟨c, hc, heq⟩ := Option.map_eq_some_iff.1 hresult
  obtain ⟨hstat, hboot⟩ := Prod.mk.inj heq
  refine ⟨alloc, c, halloc, hc, hstat, hboot, fun h => ?_⟩
  have hsame := h.recount
  rw [hboot, hstat] at hsame
  revert hsame
  decide

end DssSdk.Kvtrans
