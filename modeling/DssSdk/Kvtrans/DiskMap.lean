import DssSdk.Kvtrans.KeyMap

/-!
# The translator on the disk as a map

In the disk build a request is suspended while its I/O task reads the entry block, writes it or reads the
value, and its handler is called again when the I/O is done. Requests that run to their end one after the
other are answered as a finite map answers them, except that the label `req_terminate` answers SUCCESS.

* `Rests`: a translator with the device, and nothing in flight;
* `Finished`: a request whose I/O is performed;
* `reaches_keyOps`, `reaches_valOps`: a request over all of its calls;
* `runToEnd_conforms`: one request, for each operation;
* `answers_of_run`: every run from an empty device.
-/

namespace DssSdk.Kvtrans.DiskMap

open BlockAllocator Program Extents Device KeyMap

/-- The translator has the device, and no request is in flight. -/
structure Rests (P : Params) (D : Device) (c : Ctx) : Prop where
  ctx : Shows P D c
  queue : c.kvReqQueue = []
  clean : ∀ x, c.dirtyMetaLba x = false

/-- A request whose handlers are done and whose I/O is performed. -/
structure Finished (P : Params) (D : Device) (q : Req) (st : ReqState) (b : BlkCtx) (s : Sys) : Prop where
  ctx : Shows P D s.ctx
  chain : s.req.chain = [b]
  req : s.req.req = q
  state : s.req.state = st
  queue : s.ctx.kvReqQueue = []
  clean : ∀ x, s.ctx.dirtyMetaLba x = true → x = b.index

/-- The request when its I/O is performed. -/
def wake (P : Params) (s : Sys) : Sys := ⟨(performIo P s.ctx s.req).1, (performIo P s.ctx s.req).2⟩

section

variable {P : Params} {D : Device} {q : Req} {st : ReqState} {b : BlkCtx} {s s' : Sys} {m : Map}

/-! ### I/O tasks -/

theorem wake_nil (hio : s.req.io = []) : wake P s = s := by
  unfold wake performIo
  rw [hio]
  rfl

theorem wake_state (s : Sys) : (wake P s).req.req = s.req.req ∧ (wake P s).req.state = s.req.state :=
  ⟨performed_performIo.req, performed_performIo.state⟩

theorem foldl_writeData (es : List (ValueLoc × ℕ)) (c : Ctx) (r : Kreq) :
    (es.map fun e => IoOp.writeData e.1 e.2).foldl (performOp P) (c, r) =
      ({ c with datas := es.foldl (fun d e => insertData P d e.1 r.req.value e.2) c.datas }, r) := by
  induction es generalizing c with
  | nil => rfl
  | cons e es ih =>
    rw [List.map_cons, List.foldl_cons, List.foldl_cons]
    exact ih _

theorem foldl_readData (locs : List ValueLoc) (c : Ctx) (r : Kreq) :
    (locs.map IoOp.readData).foldl (performOp P) (c, r) =
      (c, { r with value := r.value ++ locs.flatMap (retrieveData c.datas) }) := by
  induction locs generalizing r with
  | nil =>
    rw [List.flatMap_nil, List.append_nil]
    rfl
  | cons loc locs ih =>
    rw [List.map_cons, List.foldl_cons, List.flatMap_cons, ← List.append_assoc]
    exact ih _

theorem wake_writes (h : Writes P D q st b s) (hindex : b.index = P.hash (keyOf q)) :
    Finished P (D.put P b.index b.blk q.value) q st b (wake P s) := by
  have hmeta : performOp P (s.ctx, s.req) (.writeMeta 0) =
      ({ s.ctx with metas := Function.update s.ctx.metas b.index (some b.blk) }, s.req) := by
    have hget : s.req.chain[0]? = some b := by
      rw [h.chain]
      rfl
    simp only [performOp, hget]
  have hclean : ∀ x, s.ctx.dirtyMetaLba x = true → x = b.index := by
    intro x hx
    rcases h.clean x hx with rfl | rfl
    · exact hindex.symm
    · rfl
  have hserves := h.ctx.serves
  unfold wake performIo
  rw [h.io]
  unfold writeOps
  rw [List.foldl_cons, hmeta]
  unfold Device.put
  by_cases hloc : b.blk.valueLocation = .inline
  · rw [if_pos hloc, if_pos hloc]
    refine ⟨⟨fun r => ⟨(hserves r).inv, (hserves r).offset, (hserves r).blocks, (hserves r).states⟩,
      h.ctx.noDc, h.ctx.cell, ?_, h.ctx.datas, h.ctx.dense⟩, h.chain, h.req, h.state, h.queue, hclean⟩
    exact congrArg (fun f => Function.update f b.index (some b.blk)) h.ctx.metas
  · rw [if_neg hloc, if_neg hloc, foldl_writeData]
    refine ⟨⟨fun r => ⟨(hserves r).inv, (hserves r).offset, (hserves r).blocks, (hserves r).states⟩,
      h.ctx.noDc, h.ctx.cell, ?_, ?_, h.ctx.dense⟩, h.chain, h.req, h.state, h.queue, hclean⟩
    · exact congrArg (fun f => Function.update f b.index (some b.blk)) h.ctx.metas
    · dsimp only
      rw [h.ctx.datas, h.req]
      rfl

theorem wake_loads (h : Loads P D q .queueToLoadEntry b s) {blk : OndiskMeta}
    (hblk : D.metas b.index = some blk) :
    wp (fun _ => False) handleKreqState
      (fun _ s' => On P D q .entryLoadingDone { b with blk := blk } s' ∧ s'.req.value = s.req.value)
      (wake P s) := by
  have hwake : wake P s = ⟨s.ctx, { s.req with chain := [{ b with blk := blk }] }⟩ := by
    unfold wake performIo
    rw [h.io, List.foldl_cons, List.foldl_nil]
    unfold performOp
    dsimp only
    rw [h.chain]
    simp only [List.modify_cons, ↓reduceIte]
    rw [h.ctx.metas, hblk]
    rfl
  rw [hwake]
  unfold handleKreqState modifyReq
  rw [wp_modify]
  dsimp only
  rw [h.state]
  refine ⟨⟨h.ctx, rfl, h.req, rfl, fun _ => ⟨rfl, h.ioToQueue, h.queue, fun x hx => ?_⟩⟩, rfl⟩
  exact ⟨(h.clean x hx).1, (h.clean x hx).2, by rintro ⟨⟩⟩

/-! ### The end of a STORE or a DELETE -/

theorem finished_of_on (hP : P.build = .disk) (h : On P D q st b s) (hindex : b.index = P.hash (keyOf q)) :
    Finished P D q st b s := by
  obtain ⟨-, -, hqueue, hclean⟩ := h.calm hP
  exact ⟨h.ctx, h.chain, h.req, h.state, hqueue, fun x hx => (hclean x hx).1.trans hindex.symm⟩

theorem popChain_finished (h : Finished P D q st b s) :
    wp (fun _ => False) (popChain s.req.chain) (fun _ s' => Rests P D s'.ctx ∧ s'.req = s.req) s := by
  rw [h.chain]
  unfold popChain popChain popMetaBlkFromQueue
  rw [wp_bind, wp_bind, wp_get, wp_ite]
  constructor
  · intro hdirty
    refine ⟨⟨h.ctx, h.queue, fun x => ?_⟩, rfl⟩
    rw [Bool.eq_false_iff]
    intro hx
    rw [h.clean x hx, hdirty] at hx
    cases hx
  · intro _
    have hnone : findWaiter s.ctx b.index = none := by
      unfold findWaiter
      rw [h.queue]
      rfl
    unfold setLbaDirty modifyCtx
    rw [wp_bind, wp_modify, hnone]
    refine ⟨⟨h.ctx.congr rfl rfl rfl rfl, h.queue, fun x => ?_⟩, rfl⟩
    by_cases hx : x = b.index
    · rw [hx]
      exact Function.update_self ..
    · dsimp only
      rw [Function.update_of_ne hx, Bool.eq_false_iff]
      exact fun hdirty => hx (h.clean x hdirty)

/-- A request that is complete, with the device and the record of its allocations. -/
structure Complete (P : Params) (R : Status → Device → Bool → Prop) (s : Sys) : Prop where
  state : s.req.state = .reqCmpl
  exists_device : ∃ D rc, Rests P D s.ctx ∧ R rc D s.req.allocFailed

theorem keyOps_finished (hP : P.build = .disk) {R : Status → Device → Bool → Prop}
    (h : Finished P D q .ioCmpl b s) (hR : ∀ failed, R .success D failed) (n : ℕ) :
    wp (fun _ => False) (keyOps P (n + 2)) (fun r s' => r.1 = .success ∧ Complete P R s') s := by
  refine wp_keyOps ?_
  unfold keyOpsIter modifyReq
  rw [wp_bind, wp_get, h.state]
  dsimp only
  rw [wp_bind, wp_modify, wp_pure]
  refine ⟨by rintro rc ⟨⟩, fun _ => ⟨by rintro ⟨⟩, wp_keyOps ?_⟩⟩
  have h₁ : Finished P D q .reqCmpl b ⟨s.ctx, { s.req with state := .reqCmpl }⟩ :=
    ⟨h.ctx, h.chain, h.req, rfl, h.queue, h.clean⟩
  unfold keyOpsIter
  rw [wp_bind, wp_get]
  dsimp only
  rw [if_pos hP, wp_bind]
  refine wp_mono (popChain_finished h₁) ?_
  rintro - s₂ ⟨hrests, hreq⟩
  refine ⟨?_, by rintro ⟨⟩⟩
  rintro rc ⟨⟩
  exact ⟨rfl, by rw [hreq], D, .success, hrests, hR _⟩

/-- `req_terminate`: the error is lost. -/
theorem reqTerminate_disk (hP : P.build = .disk) {R : Status → Device → Bool → Prop}
    (h : On P D q st b s) (hindex : b.index = P.hash (keyOf q)) {rc : Status}
    (hR : R rc D s.req.allocFailed) :
    wp (fun _ => False) (reqTerminate P rc) (fun rc' s' => rc' = .success ∧ Complete P R s') s := by
  unfold reqTerminate
  rw [wp_bind]
  refine h.wp_setState (by decide) fun s₁ h₁ hfailed => ?_
  rw [hP]
  dsimp only
  rw [wp_bind, wp_get, wp_bind]
  refine wp_mono (popChain_finished (finished_of_on hP h₁ hindex)) ?_
  rintro - s₂ ⟨hrests, hreq⟩
  exact ⟨rfl, by rw [hreq, h₁.state], D, rc, hrests, by rwa [hreq, hfailed]⟩

/-- The end of a call of a STORE or a DELETE: the request is complete, or it is when its I/O is
performed. -/
structure Ends (P : Params) (q : Req) (R : Status → Device → Bool → Prop) (r : Status × Bool) (s : Sys) :
    Prop where
  status : r.1 = .success
  ends : Complete P R s ∨ s.req.state = .queueToStartIo ∧ s.ctx.kvReqQueue = [] ∧
    ∃ D b, (∀ failed, R .success D failed) ∧ Finished P D q .queueToStartIo b (wake P s)

/-- `QUEUE_TO_START_IO`: the I/O task is submitted, or there is none. -/
theorem keyOps_startIo (hP : P.build = .disk) {R : Status → Device → Bool → Prop}
    (hst : s.req.state = .queueToStartIo) (hqueue : s.ctx.kvReqQueue = [])
    (hR : ∀ failed, R .success D failed) (hwake : Finished P D q .queueToStartIo b (wake P s))
    (hnow : s.req.ioToQueue = false → Finished P D q .queueToStartIo b s) (n : ℕ) :
    wp (fun _ => False) (keyOps P (n + 3)) (Ends P q R) s := by
  by_cases hsubmit : P.build = .disk ∧
      (P.isBaMetaSyncEnabled = true ∧ s.req.baMetaUpdated = true ∨ s.req.ioToQueue = true)
  · unfold keyOps keyOpsIter
    rw [wp_bind, wp_get, wp_bind, wp_bind, wp_get, hst]
    dsimp only
    rw [if_pos hsubmit, wp_pure]
    dsimp only
    rw [wp_bind, wp_get, if_neg (fun h => h hst), wp_pure]
    exact ⟨rfl, .inr ⟨hst, hqueue, D, b, hR, hwake⟩⟩
  · have hidle : s.req.ioToQueue = false := by
      rw [Bool.eq_false_iff]
      exact fun hio => hsubmit ⟨hP, .inr hio⟩
    have h := hnow hidle
    refine wp_keyOps ?_
    unfold keyOpsIter modifyReq
    rw [wp_bind, wp_get, hst]
    dsimp only
    rw [if_neg hsubmit, wp_bind, wp_modify, wp_pure]
    refine ⟨by rintro rc ⟨⟩, fun _ => ⟨by rintro ⟨⟩, ?_⟩⟩
    have h₁ : Finished P D q .ioCmpl b ⟨s.ctx, { s.req with state := .ioCmpl }⟩ :=
      ⟨h.ctx, h.chain, h.req, rfl, h.queue, h.clean⟩
    exact wp_mono (keyOps_finished hP h₁ hR n) fun r s' hr => ⟨hr.1, .inl hr.2⟩

theorem goesOn_disk (hP : P.build = .disk) {R : Status → Device → Bool → Prop} (n : ℕ)
    (hmono : ∀ D' f f', R .success D' f → R .success D' f') :
    GoesOn P q R (Goes P (Ends P q R) (n + 3)) := by
  intro handler s hhandler
  rw [wp_bind]
  refine wp_mono hhandler ?_
  rintro rc s₁ ⟨D', b', hindex, hR, hon⟩
  unfold orTerminate
  rw [wp_ite]
  constructor
  · intro hne
    have h₁ : On P D' q .entryLoadingDone b' s₁ := hon.resolve_right fun h => hne h.1
    rw [wp_map]
    refine wp_mono (reqTerminate_disk hP h₁ hindex hR) ?_
    rintro rc' s₂ ⟨rfl, hcomplete⟩
    refine ⟨?_, by rintro ⟨⟩⟩
    rintro rc ⟨⟩
    exact ⟨rfl, .inl hcomplete⟩
  · intro hok
    obtain rfl := not_not.1 hok
    have hsuccess : ∀ failed, R .success D' failed := fun failed => hmono D' _ failed hR
    unfold startIoFrom modifyReq
    rw [wp_bind, wp_modify, wp_pure]
    dsimp only
    refine ⟨by rintro rc ⟨⟩, fun _ => ?_⟩
    rcases hon with h₁ | ⟨-, h₁⟩
    · have hqueue := (h₁.calm hP).2.2.1
      rw [if_pos h₁.state]
      have h₂ : On P D' q .queueToStartIo b' ⟨s₁.ctx, { s₁.req with state := .queueToStartIo }⟩ :=
        ⟨h₁.ctx, h₁.chain, h₁.req, rfl, h₁.calm.congr rfl rfl rfl rfl (by rintro ⟨⟩)⟩
      have hfin := finished_of_on hP h₂ hindex
      have hwake := wake_nil (P := P) (h₂.calm hP).1
      exact ⟨rfl, keyOps_startIo hP h₂.state hqueue hsuccess (hwake.symm ▸ hfin) (fun _ => hfin) n⟩
    · obtain ⟨D₀, hw, rfl⟩ := (lands_disk hP).1 h₁
      rw [if_pos hw.state]
      have h₂ : Writes P D₀ q .queueToStartIo b' ⟨s₁.ctx, { s₁.req with state := .queueToStartIo }⟩ :=
        ⟨hw.ctx, hw.chain, hw.req, rfl, hw.io, hw.ioToQueue, hw.queue, hw.clean⟩
      refine ⟨rfl, keyOps_startIo hP h₂.state hw.queue hsuccess (wake_writes h₂ hindex) (fun hio => ?_) n⟩
      have htrue := h₂.ioToQueue
      rw [hio] at htrue
      cases htrue

/-! ### All calls of a STORE or a DELETE -/

/-- The request runs to its end. -/
def Reaches (P : Params) (n : ℕ) (Q : Status → Sys → Prop) (s : Sys) : Prop :=
  ∃ rc s', runToEnd P n s = some (rc, s') ∧ Q rc s'

/-- The request ends with a call, or it is suspended and ends later. -/
def Continues (P : Params) (n : ℕ) (Q : Status → Sys → Prop) (r : Status × Bool) (s : Sys) : Prop :=
  s.req.state = .reqCmpl ∧ Q r.1 s ∨
    r.1 = .success ∧ s.req.state ≠ .reqCmpl ∧ s.ctx.kvReqQueue = [] ∧ Reaches P n Q (wake P s)

theorem reaches_of_call {Q : Status → Sys → Prop} {n : ℕ}
    (h : wp (fun _ => False) (kvtransCall P) (Continues P n Q) s) : Reaches P (n + 1) Q s := by
  obtain ⟨⟨rc, returned⟩, s', hok, hcase⟩ := wp_false_iff.1 h
  unfold Reaches runToEnd
  rw [hok]
  dsimp only
  rcases hcase with ⟨hst, hQ⟩ | ⟨hrc, hst, hqueue, hlater⟩
  · rw [if_pos (.inr hst)]
    exact ⟨rc, s', rfl, hQ⟩
  · rw [if_neg (not_or.2 ⟨not_not.2 hrc, hst⟩), hqueue, if_neg List.not_mem_nil]
    exact hlater

/-- `kvtrans_store` and `kvtrans_delete`. -/
theorem wp_kvtransCall_keyOps {E : Fault → Prop} {Q : Status × Bool → Sys → Prop}
    (hopc : s.req.req.opc = .delete ∨ s.req.req.opc = .store) (hst : s.req.state ≠ .queuedForDataIo)
    (h : wp E (do handleKreqState; keyOps P (fuel P)) Q s) : wp E (kvtransCall P) Q s := by
  unfold kvtransCall
  rw [wp_bind, wp_get]
  rcases hopc with hopc | hopc
  · rw [hopc]
    dsimp only
    rw [wp_ite]
    exact ⟨fun h0 => absurd h0 hst, fun _ => h⟩
  · rw [hopc]
    exact h

/-- What a STORE or a DELETE leaves. -/
def KeyOpsEnd (P : Params) (m : Map) (q : Req) (D : Device) (rc : Status) (s : Sys) : Prop :=
  rc = .success ∧ ∃ D' rc', Rests P D' s.ctx ∧ KeyOpsPost P m q D rc' D' s.req.allocFailed

/-- The call ends the request, or one more call does when its I/O is performed. -/
theorem Ends.continues (hP : P.build = .disk) (hopc : q.opc = .delete ∨ q.opc = .store) {n : ℕ}
    {r : Status × Bool} (h : Ends P q (KeyOpsPost P m q D) r s) :
    Continues P (n + 1) (KeyOpsEnd P m q D) r s := by
  obtain ⟨hrc, hcomplete | ⟨hst, hqueue, D', b, hR, hfin⟩⟩ := h
  · exact .inl ⟨hcomplete.state, hrc, hcomplete.exists_device⟩
  · refine .inr ⟨hrc, by rw [hst]; rintro ⟨⟩, hqueue, reaches_of_call ?_⟩
    refine wp_kvtransCall_keyOps (by rwa [hfin.req]) (by rw [hfin.state]; rintro ⟨⟩) ?_
    unfold handleKreqState modifyReq
    rw [wp_bind, wp_modify]
    dsimp only
    rw [hfin.state]
    have h₁ : Finished P D' q .ioCmpl b ⟨(wake P s).ctx, { (wake P s).req with state := .ioCmpl }⟩ :=
      ⟨hfin.ctx, hfin.chain, hfin.req, rfl, hfin.queue, hfin.clean⟩
    refine wp_mono (keyOps_finished hP h₁ hR _) ?_
    rintro r s₂ ⟨hrc', hcomplete'⟩
    exact .inl ⟨hcomplete'.state, hrc', hcomplete'.exists_device⟩

theorem on_init {c : Ctx} (h : Rests P D c) :
    On P D q .reqInitialized BlkCtx.zero ⟨c, initKvtransReq 0 q⟩ := by
  refine ⟨h.ctx, rfl, rfl, rfl, fun _ => ⟨rfl, rfl, h.queue, fun x hx => ?_⟩⟩
  rw [h.clean x] at hx
  cases hx

theorem wp_handleKreqState_init {E : Fault → Prop} {Q : Unit → Sys → Prop}
    (hst : s.req.state = .reqInitialized) : wp E handleKreqState Q s ↔ Q () s := by
  unfold handleKreqState modifyReq
  rw [wp_modify]
  dsimp only
  rw [hst]

/-- A STORE or a DELETE over all of its calls. -/
theorem reaches_keyOps (hP : P.build = .disk) (hsize : 0 < P.blkSize) (hpos : 0 < P.blkOffset) {c : Ctx}
    (h : Rests P D c) (hrep : Represents P ∅ m D) (hkey : iskeynull q.key = false)
    (hin : P.InRange (P.hash (keyOf q)) 1)
    (hopc : q.opc = .delete ∨ q.opc = .store ∧ Storable P m D q) (n : ℕ) :
    Reaches P (n + 3) (KeyOpsEnd P m q D) ⟨c, initKvtransReq 0 q⟩ := by
  have hopc' : q.opc = .delete ∨ q.opc = .store := hopc.imp_right And.left
  have hgo : ∀ k, GoesOn P q (KeyOpsPost P m q D) (Goes P (Ends P q (KeyOpsPost P m q D)) (k + 3)) :=
    fun k => goesOn_disk hP k fun _ _ _ h => h.success
  refine reaches_of_call (wp_kvtransCall_keyOps hopc' (by rintro ⟨⟩) ?_)
  rw [wp_bind, wp_handleKreqState_init rfl]
  unfold fuel keyOps
  rw [wp_bind, wp_get, wp_bind]
  refine wp_mono (keyOpsIter_init hpos (on_init h) hrep hkey hin hopc') ?_
  rintro r s₁ ⟨rfl, ⟨b₁, hent, h₁⟩ | ⟨-, b₁, blk, hblk, hent, h₁⟩⟩
  · dsimp only
    rw [wp_bind, wp_get, if_pos (by rw [h₁.state]; rintro ⟨⟩)]
    refine wp_mono (keyOps_entry (hgo (4 * P.blkNum + 11)) hsize h₁ hent hrep hin rfl rfl hopc) ?_
    exact fun r s₂ hr => hr.continues hP hopc'
  · -- the call ends while the entry block is loaded
    dsimp only
    rw [wp_bind, wp_get, if_pos (by rw [h₁.state]; rintro ⟨⟩)]
    unfold keyOps keyOpsIter
    rw [wp_bind, wp_get, wp_bind, wp_bind, wp_get, h₁.state]
    dsimp only
    rw [wp_pure]
    dsimp only
    rw [wp_bind, wp_get, if_neg (fun h0 => h0 h₁.state), wp_pure]
    refine .inr ⟨rfl, by rw [h₁.state]; rintro ⟨⟩, h₁.queue, reaches_of_call ?_⟩
    have hwake := wake_state (P := P) s₁
    refine wp_kvtransCall_keyOps (by rwa [hwake.1, h₁.req]) (by rw [hwake.2, h₁.state]; rintro ⟨⟩) ?_
    rw [wp_bind]
    refine wp_mono (wake_loads h₁ hblk) ?_
    rintro - s₂ ⟨h₂, -⟩
    refine wp_mono (keyOps_entry (hgo (4 * P.blkNum + 12)) hsize h₂ hent hrep hin rfl rfl hopc) ?_
    exact fun r s₃ hr => hr.continues hP hopc'

/-! ### RETRIEVE and EXIST -/

/-- The buffer of the request stays as it is. -/
structure SameBuffer (s s' : Sys) : Prop where
  value : s'.req.value = s.req.value

instance : IsPreorder Sys SameBuffer where
  refl _ := ⟨rfl⟩
  trans _ _ _ h h' := ⟨h'.value.trans h.value⟩

theorem sameBuffer_modifyBlk (f : BlkCtx → BlkCtx) : Keeps SameBuffer (modifyBlk 0 f) :=
  Keeps.modify fun _ => ⟨rfl⟩

theorem sameBuffer_modifyCtx (f : Ctx → Ctx) : Keeps SameBuffer (modifyCtx f) :=
  Keeps.modify fun _ => ⟨rfl⟩

theorem sameBuffer_setState (st : ReqState) :
    Keeps SameBuffer (modifyReq fun r => { r with state := st }) :=
  Keeps.modify fun _ => ⟨rfl⟩

theorem sameBuffer_blkAt : Keeps SameBuffer (blkAt 0) := fun s => refl_of SameBuffer s

theorem sameBuffer_dssAssert (c : Prop) [Decidable c] : Keeps SameBuffer (dssAssert c) :=
  Keeps.ite (fun _ => Keeps.pure ()) fun _ => Keeps.throw _

theorem sameBuffer_getBlkState : Keeps SameBuffer (getBlkState 0) := by
  unfold getBlkState readBlkState
  refine Keeps.bind sameBuffer_blkAt fun b => Keeps.bind (Keeps.bind Keeps.get fun s => ?_) fun st => ?_
  · split
    · exact Keeps.throw _
    · refine Keeps.ite (fun _ => Keeps.pure _) fun _ => ?_
      split
      · exact Keeps.throw _
      · exact Keeps.pure _
  · split
    · exact Keeps.pure _
    · exact Keeps.bind (sameBuffer_modifyBlk _) fun _ => Keeps.pure _

theorem sameBuffer_loadOndiskBlk : Keeps SameBuffer (loadOndiskBlk P 0) := by
  unfold loadOndiskBlk recordLoad syncMetaBlkToQueue setLbaDirty
  refine Keeps.bind sameBuffer_blkAt fun b => Keeps.bind (sameBuffer_dssAssert _) fun _ => ?_
  refine Keeps.bind (Keeps.bind Keeps.get fun s => ?_) fun _ => ?_
  · split
    · exact Keeps.ite (fun _ => sameBuffer_modifyCtx _) fun _ => Keeps.pure _
    · exact Keeps.pure _
  · split
    · refine Keeps.bind Keeps.get fun s => ?_
      split
      · exact Keeps.bind (sameBuffer_modifyBlk _) fun _ => Keeps.pure _
      · exact Keeps.throw _
    · refine Keeps.bind (Keeps.modify fun _ => ⟨rfl⟩) fun _ => Keeps.bind ?_ fun _ => Keeps.pure _
      refine Keeps.bind Keeps.get fun s => Keeps.bind sameBuffer_blkAt fun b => ?_
      refine Keeps.ite (fun _ => sameBuffer_modifyCtx _) fun _ => ?_
      exact Keeps.ite (fun _ => sameBuffer_modifyCtx _) fun _ => Keeps.pure _

theorem sameBuffer_dcTableLookup (index : ℕ) : Keeps SameBuffer (dcTableLookup index) := by
  unfold dcTableLookup getDc
  refine Keeps.bind (Keeps.bind Keeps.get fun s => ?_) fun it => Keeps.pure _
  split
  · exact Keeps.throw _
  · exact Keeps.pure _

theorem sameBuffer_loadEntry : Keeps SameBuffer (do
    let rc ← loadOndiskBlk P 0
    updateKreqStatAfterIo rc .entryLoadingDone .queueToLoadEntry) := by
  refine Keeps.bind sameBuffer_loadOndiskBlk fun rc => ?_
  unfold updateKreqStatAfterIo
  split
  · exact Keeps.bind (sameBuffer_setState _) fun _ => Keeps.pure _
  · exact Keeps.bind (sameBuffer_setState _) fun _ => Keeps.pure _
  · exact Keeps.pure _

/-- `_alloc_entry_block` reads no value. -/
theorem sameBuffer_allocEntryBlock : Keeps SameBuffer (allocEntryBlock P 0) := by
  unfold allocEntryBlock
  refine Keeps.bind Keeps.get fun s => Keeps.bind (sameBuffer_dssAssert _) fun _ => ?_
  refine Keeps.bind (sameBuffer_modifyBlk _) fun _ => Keeps.bind (sameBuffer_dssAssert _) fun _ => ?_
  refine Keeps.bind sameBuffer_getBlkState fun rc => Keeps.bind sameBuffer_blkAt fun b => ?_
  have hdone : ∀ f : BlkCtx → BlkCtx, Keeps SameBuffer (do
      modifyBlk 0 f
      modifyReq fun r => { r with state := .entryLoadingDone }
      return rc) := by
    intro f
    exact Keeps.bind (sameBuffer_modifyBlk _) fun _ =>
      Keeps.bind (sameBuffer_setState _) fun _ => Keeps.pure _
  split
  case h_1 | h_2 | h_3 => exact hdone _
  case h_4 | h_5 | h_6 =>
    refine Keeps.bind (sameBuffer_dcTableLookup _) fun mdcIndex => ?_
    refine Keeps.bind (sameBuffer_modifyBlk _) fun _ => Keeps.bind (sameBuffer_dssAssert _) fun _ => ?_
    exact sameBuffer_loadEntry
  case h_7 | h_8 | h_9 | h_10 => exact sameBuffer_loadEntry

/-- The answer to a RETRIEVE or an EXIST. -/
structure ReadEnd (P : Params) (m : Map) (q : Req) (D : Device) (cb : Bool) (rc : Status) (s : Sys) :
    Prop where
  rests : Rests P D s.ctx
  status : rc = if (m (keyOf q)).isSome then .success else .notFound
  value : cb = true → ∀ v, m (keyOf q) = some v → s.req.value.take v.length = v

theorem rests_of_on (hP : P.build = .disk) (h : On P D q st b s) (hmod : modifyMeta q.opc = false) :
    Rests P D s.ctx := by
  obtain ⟨-, -, hqueue, hclean⟩ := h.calm hP
  refine ⟨h.ctx, hqueue, fun x => ?_⟩
  rw [Bool.eq_false_iff]
  intro hx
  rw [(hclean x hx).2.1] at hmod
  cases hmod

/-- A request whose I/O task reads its value. -/
structure Fetches (P : Params) (D : Device) (q : Req) (v : List UInt8) (s : Sys) : Prop where
  req : s.req.req = q
  state : s.req.state = .queuedForDataIo
  queue : s.ctx.kvReqQueue = []
  rests : Rests P D (wake P s).ctx
  value : (wake P s).req.value.take v.length = v

/-- `_blk_load_value`: the value is in the meta block, or the I/O task reads it. -/
theorem blkLoadValue_disk (hP : P.build = .disk) (h : On P D q st b s) (hmod : modifyMeta q.opc = false)
    (hempty : s.req.value = []) {k v : List UInt8} (hblk : StoredAt P D k v b.blk) :
    wp (fun _ => False) (blkLoadValue P 0) (fun rc s' => rc = .success ∧
      (On P D q .reqCmpl b s' ∧ s'.req.value.take v.length = v ∨ Fetches P D q v s')) s := by
  have hsize := hblk.fits.size
  have hvalue := hblk.value
  unfold storedValue at hvalue
  unfold blkLoadValue modifyReq
  rw [wp_bind, h.wp_blkAt, wp_bind, wp_get, wp_ite]
  refine ⟨fun hloc => ?_, fun hloc => ?_⟩
  · rw [if_pos hloc] at hvalue
    rw [wp_bind, wp_modify, wp_pure]
    refine ⟨rfl, .inl ⟨⟨h.ctx, h.chain, h.req, rfl, h.calm.congr rfl rfl rfl rfl (by rintro ⟨⟩)⟩, ?_⟩⟩
    dsimp only
    rw [hvalue, List.take_length]
  · rw [if_neg hloc, hsize] at hvalue
    obtain ⟨hio, -, hqueue, -⟩ := h.calm hP
    have hrests := rests_of_on hP h hmod
    rw [hP]
    dsimp only
    rw [wp_bind, wp_modify, wp_pure]
    refine ⟨rfl, .inr ⟨h.req, rfl, hqueue, ?_, ?_⟩⟩
    · unfold wake performIo
      dsimp only
      rw [hio, List.nil_append, foldl_readData]
      exact hrests
    · unfold wake performIo
      dsimp only
      rw [hio, List.nil_append, foldl_readData, hempty, List.nil_append, h.ctx.datas]
      exact hvalue

/-- `kvtrans_retrieve` and `kvtrans_exist`. -/
theorem wp_kvtransCall_valOps {E : Fault → Prop} {Q : Status × Bool → Sys → Prop} (cb : Bool)
    (hopc : s.req.req.opc = if cb then .retrieve else .exist)
    (hst : cb = false → s.req.state ≠ .queuedForDataIo)
    (h : wp E (do handleKreqState; valOps P cb (fuel P) .success) Q s) : wp E (kvtransCall P) Q s := by
  unfold kvtransCall
  rw [wp_bind, wp_get, hopc]
  cases cb with
  | true => exact h
  | false =>
    dsimp only
    rw [if_neg (by decide)]
    dsimp only
    rw [wp_ite]
    exact ⟨fun h0 => absurd h0 (hst rfl), fun _ => h⟩

theorem reaches_fetches {v : List UInt8} (hv : m (keyOf q) = some v) (h : Fetches P D q v s)
    (hopc : q.opc = .retrieve) (n : ℕ) :
    Reaches P (n + 1) (ReadEnd P m q D true) (wake P s) := by
  obtain ⟨hreq, hst⟩ := wake_state (P := P) s
  refine reaches_of_call (wp_kvtransCall_valOps true (by rw [hreq, h.req, hopc]; rfl) (by rintro ⟨⟩) ?_)
  unfold handleKreqState modifyReq
  rw [wp_bind, wp_modify]
  dsimp only
  rw [hst, h.state]
  refine wp_valOps ?_
  unfold valOpsIter modifyReq
  rw [wp_bind, wp_get]
  dsimp only
  rw [wp_bind, wp_modify, wp_pure]
  refine ⟨by rintro rc ⟨⟩, fun _ => ⟨by rintro ⟨⟩, valOps_closes rfl (.inl ⟨rfl, ?_⟩) _⟩⟩
  refine ⟨h.rests, by rw [hv]; rfl, fun _ w hw => ?_⟩
  rw [hv] at hw
  cases hw
  exact h.value

/-- The iterations of the loop of `_kvtrans_val_ops` from the entry block on. -/
theorem valOps_entry (hP : P.build = .disk) {cb : Bool} {rc : Status} {b' : BlkCtx}
    (h : On P D q .entryLoadingDone b' s) (hent : KeyMap.Entered P D q b b') (hrep : Represents P ∅ m D)
    (hin : P.InRange (P.hash (keyOf q)) 1) (hempty : s.req.value = [])
    (hopc : q.opc = if cb then .retrieve else .exist) (n k : ℕ) :
    wp (fun _ => False) (valOps P cb (n + 2) rc) (Continues P (k + 1) (ReadEnd P m q D cb)) s := by
  have hmod : modifyMeta q.opc = false := by
    rw [hopc]
    cases cb <;> rfl
  -- the request is complete, and the next iteration returns
  have hends : ∀ rc s', ValOpsPost P (fun buf v => buf.take v.length = v) m q D cb (rc, true) s' →
      s'.req.state ≠ s.req.state ∧ wp (fun _ => False) (valOps P cb (n + 1) rc)
        (Continues P (k + 1) (ReadEnd P m q D cb)) s' := by
    rintro rc s' ⟨-, ⟨b₁, hon⟩, hrc, hvalue⟩
    refine ⟨by rw [hon.state, h.state]; rintro ⟨⟩, valOps_closes hon.state (.inl ⟨hon.state, ?_⟩) n⟩
    exact ⟨rests_of_on hP hon hmod, hrc, hvalue⟩
  refine wp_valOps (valOpsIter_entry h hent hrep hin
    (fun rc s' hpost => ⟨by rintro rc ⟨⟩, fun _ => hends rc s' hpost⟩) fun hcb v hv hblk => ?_)
  refine wp_mono (blkLoadValue_disk hP h hmod hempty hblk) ?_
  rintro rc s₁ ⟨rfl, ⟨h₁, hvalue⟩ | hfetch⟩
  · refine ⟨by rintro rc ⟨⟩, fun _ => hends _ s₁ ⟨rfl, ⟨_, h₁⟩, by rw [hv]; rfl, fun _ w hw => ?_⟩⟩
    rw [hv] at hw
    cases hw
    exact hvalue
  · subst hcb
    refine ⟨by rintro rc ⟨⟩, fun _ => ⟨by rw [hfetch.state, h.state]; rintro ⟨⟩, ?_⟩⟩
    unfold valOps valOpsIter
    rw [wp_bind, wp_get, wp_bind, wp_bind, wp_get, hfetch.state]
    dsimp only
    rw [wp_pure]
    dsimp only
    rw [wp_bind, wp_get, if_neg (fun h0 => h0 hfetch.state), wp_pure]
    exact .inr ⟨rfl, by rw [hfetch.state]; rintro ⟨⟩, hfetch.queue, reaches_fetches hv hfetch hopc k⟩

/-- A RETRIEVE or an EXIST over all of its calls. -/
theorem reaches_valOps (hP : P.build = .disk) (hpos : 0 < P.blkOffset) {c : Ctx} (h : Rests P D c)
    (hrep : Represents P ∅ m D) (hkey : iskeynull q.key = false) (hin : P.InRange (P.hash (keyOf q)) 1)
    (cb : Bool) (hopc : q.opc = if cb then .retrieve else .exist) (n : ℕ) :
    Reaches P (n + 3) (ReadEnd P m q D cb) ⟨c, initKvtransReq 0 q⟩ := by
  refine reaches_of_call (wp_kvtransCall_valOps cb hopc (fun _ => by rintro ⟨⟩) ?_)
  rw [wp_bind, wp_handleKreqState_init rfl]
  refine wp_valOps ?_
  unfold valOpsIter
  rw [wp_bind, wp_get, (on_init h).state]
  dsimp only
  rw [wp_bind]
  refine wp_mono (wp_and (allocEntryBlock_on (on_init h) hpos hkey hin hrep)
    (sameBuffer_allocEntryBlock _)) ?_
  rintro rc s₁ ⟨⟨rfl, ⟨b₁, hent, h₁⟩ | ⟨-, b₁, blk, hblk, hent, h₁⟩⟩, hbuffer⟩
  · refine ⟨by rintro rc ⟨⟩, fun _ => ⟨by rw [h₁.state]; rintro ⟨⟩, ?_⟩⟩
    exact valOps_entry hP h₁ hent hrep hin hbuffer.value hopc (4 * P.blkNum + 13) (n + 1)
  · -- the call ends while the entry block is loaded
    refine ⟨by rintro rc ⟨⟩, fun _ => ⟨by rw [h₁.state]; rintro ⟨⟩, ?_⟩⟩
    unfold valOps valOpsIter
    rw [wp_bind, wp_get, wp_bind, wp_bind, wp_get, h₁.state]
    dsimp only
    rw [wp_pure]
    dsimp only
    rw [wp_bind, wp_get, if_neg (fun h0 => h0 h₁.state), wp_pure]
    obtain ⟨hreq, hst⟩ := wake_state (P := P) s₁
    refine .inr ⟨rfl, by rw [h₁.state]; rintro ⟨⟩, h₁.queue, reaches_of_call ?_⟩
    refine wp_kvtransCall_valOps cb (by rw [hreq, h₁.req]; exact hopc)
      (fun _ => by rw [hst, h₁.state]; rintro ⟨⟩) ?_
    rw [wp_bind]
    refine wp_mono (wake_loads h₁ hblk) ?_
    rintro - s₂ ⟨h₂, hvalue⟩
    exact valOps_entry hP h₂ hent hrep hin (hvalue.trans hbuffer.value) hopc (4 * P.blkNum + 14) n

end

/-! ### Requests, one after the other -/

variable (P : Params)

/-- The entry block of the key is a meta block. -/
def Stored (q : Req) (c : Ctx) : Prop :=
  c.alloc.alloc.cellOf (P.hash (keyOf q)) = BlkState.metaBlk.toCell

instance (q : Req) (c : Ctx) : Decidable (Stored P q c) := inferInstanceAs (Decidable (_ = _))

/-- The map after a request; a STORE that found no room for a new key leaves no meta block. -/
def nextMap (m : Map) (q : Req) (c : Ctx) : Map :=
  match q.opc with
  | .store => if Stored P q c then Function.update m (keyOf q) (some q.value) else m
  | .delete => Function.update m (keyOf q) none
  | .retrieve | .exist => m

/-- The answer to a request. A STORE or a DELETE is answered SUCCESS, also when it found no room or no
key; the buffer of a RETRIEVE starts with the value. -/
def Conforms (m : Map) (q : Req) (rc : Status) (s : Sys) : Prop :=
  match q.opc with
  | .store => rc = .success ∧ (Stored P q s.ctx ∨ s.req.allocFailed = true)
  | .delete => rc = .success
  | .exist => rc = if (m (keyOf q)).isSome then .success else .notFound
  | .retrieve => rc = (if (m (keyOf q)).isSome then .success else .notFound) ∧
      ∀ v, m (keyOf q) = some v → s.req.value.take v.length = v

/-- The translator and the map beside it, after a request. -/
def step (x : Ctx × Map) (q : Req) : Option (Ctx × Map) :=
  match runToEnd P (fuel P) ⟨x.1, initKvtransReq 0 q⟩ with
  | none => none
  | some (_, s) => some (s.ctx, nextMap P x.2 q s.ctx)

/-- A request runs to its end, and is answered as the map does. -/
def Answered (x : Ctx × Map) (q : Req) : Prop :=
  ∃ rc s, runToEnd P (fuel P) ⟨x.1, initKvtransReq 0 q⟩ = some (rc, s) ∧ Conforms P x.2 q rc s

/-- The translator holds the map, and no request is in flight. -/
def Serving (x : Ctx × Map) : Prop := ∃ D, Rests P D x.1 ∧ Represents P ∅ x.2 D

section

variable {P} {D : Device} {q : Req} {m : Map} {c : Ctx}

/-- One request is answered as the map does, and the map that follows is held. -/
theorem runToEnd_conforms (hP : P.build = .disk) (hsize : 0 < P.blkSize) (hpos : 0 < P.blkOffset)
    {x : Ctx × Map} (hx : Serving P x) (hq : Regular P x q) :
    ∃ rc s, runToEnd P (fuel P) ⟨x.1, initKvtransReq 0 q⟩ = some (rc, s) ∧ Conforms P x.2 q rc s ∧
      Serving P (s.ctx, nextMap P x.2 q s.ctx) := by
  obtain ⟨D, hrests, hrep⟩ := hx
  unfold Conforms nextMap
  cases hopc : q.opc with
  | store =>
    obtain ⟨rc, s, hok, rfl, D', rc', hrests', hpost⟩ := reaches_keyOps hP hsize hpos hrests hrep hq.key
      hq.block (.inr ⟨hopc, hq.storable hrests.ctx hopc⟩) (4 * P.blkNum + 13)
    refine ⟨_, s, hok, ?_⟩
    have hcell : s.ctx.alloc.alloc.cellOf (P.hash (keyOf q)) = D'.cell (P.hash (keyOf q)) :=
      hrests'.ctx.cell _ hq.block.1
    unfold KeyOpsPost at hpost
    rw [hopc] at hpost
    dsimp only
    rcases hpost with ⟨-, hrep'⟩ | ⟨-, hfailed, hnone, rfl⟩
    · have hstored : Stored P q s.ctx := hcell.trans (hrep'.block (keyOf q) (by simp)).2.2
      rw [if_pos hstored]
      exact ⟨⟨rfl, .inl hstored⟩, D', hrests', hrep'⟩
    · have hstored : ¬ Stored P q s.ctx := by
        intro h0
        rcases (hq.storable hrests.ctx hopc).entry with hempty | ⟨hsome, -⟩
        · have hmeta := h0.symm.trans (hcell.trans hempty)
          cases hmeta
        · rw [hnone] at hsome
          cases hsome
      rw [if_neg hstored]
      exact ⟨⟨rfl, .inr hfailed⟩, D', hrests', hrep⟩
  | delete =>
    obtain ⟨rc, s, hok, rfl, D', rc', hrests', hpost⟩ := reaches_keyOps hP hsize hpos hrests hrep hq.key
      hq.block (.inl hopc) (4 * P.blkNum + 13)
    unfold KeyOpsPost at hpost
    rw [hopc] at hpost
    exact ⟨_, s, hok, rfl, D', hrests', hpost.2⟩
  | retrieve =>
    obtain ⟨rc, s, hok, hend⟩ := reaches_valOps hP hpos hrests hrep hq.key hq.block true hopc
      (4 * P.blkNum + 13)
    exact ⟨rc, s, hok, ⟨hend.status, hend.value rfl⟩, D, hend.rests, hrep⟩
  | exist =>
    obtain ⟨rc, s, hok, hend⟩ := reaches_valOps hP hpos hrests hrep hq.key hq.block false hopc
      (4 * P.blkNum + 13)
    exact ⟨rc, s, hok, hend.status, D, hend.rests, hrep⟩

/-- In every run of regular requests from an empty device, each request runs to its end over the calls of
its handler and is answered as a finite map answers it, and the translator holds the map of the requests
so far. -/
theorem answers_of_run {alloc : Context} {metaStart : ℕ} {reqs : List Req} (hP : P.build = .disk)
    (hsize : 0 < P.blkSize) (hpos : 0 < P.blkOffset) (hblocks : 0 < P.blkNum)
    (haddr : P.blkNum + P.blkOffset < 2 ^ 64)
    (hinit : dssBlkAllocatorInit (allocOpts P metaStart) = some alloc)
    (hreqs : Run.Admissible (step P) (Regular P) (initKvtransCtx alloc, fun _ => none) reqs) :
    (∃ x, Run.run (step P) (initKvtransCtx alloc, fun _ => none) reqs = some x ∧ Serving P x) ∧
      Run.Admissible (step P) (Answered P) (initKvtransCtx alloc, fun _ => none) reqs := by
  have hstart : Serving P (initKvtransCtx alloc, fun _ => none) := by
    obtain ⟨D, hshows, hrep⟩ := serving_empty hinit hblocks haddr
    exact ⟨D, ⟨hshows, rfl, fun _ => rfl⟩, hrep⟩
  refine Run.run_meets (fun x q hx hq => ?_) hstart hreqs
  obtain ⟨rc, s, hok, hconf, hnext⟩ := runToEnd_conforms hP hsize hpos hx hq
  refine ⟨⟨rc, s, hok, hconf⟩, _, ?_, hnext⟩
  unfold step
  rw [hok]

/-- The disk of three blocks. -/
def diskParams : Params := { lineParams 3 with build := .disk }

/-- A key on a disk of three blocks is stored in its meta block, updated, read, deleted and looked for. -/
def diskReqs : List Req :=
  [KeyMap.keyReq .store 3, KeyMap.keyReq .store 900, KeyMap.keyReq .retrieve 0, KeyMap.keyReq .delete 0,
    KeyMap.keyReq .exist 0]

theorem answers_diskReqs :
    ∃ alloc, dssBlkAllocatorInit (allocOpts diskParams 1) = some alloc ∧
      (∃ x, Run.run (step diskParams) (initKvtransCtx alloc, fun _ => none) diskReqs = some x ∧
        Serving diskParams x) ∧
      Run.Admissible (step diskParams) (Answered diskParams)
        (initKvtransCtx alloc, fun _ => none) diskReqs := by
  obtain ⟨alloc, halloc⟩ : ∃ alloc, dssBlkAllocatorInit (allocOpts diskParams 1) = some alloc := ⟨_, rfl⟩
  have hfree := (serves_empty halloc (by decide) (by decide) (initKvtransReq 0 (KeyMap.keyReq .store 3))).2
  have hstore : Regular diskParams (initKvtransCtx alloc, fun _ => none) (KeyMap.keyReq .store 3) :=
    ⟨rfl, ⟨by decide, by decide⟩, fun _ => ⟨by decide, by rintro ⟨⟩, .inl (hfree _)⟩⟩
  have hlast : ∀ x,
      step diskParams (initKvtransCtx alloc, fun _ => none) (KeyMap.keyReq .store 3) = some x →
      x.1.alloc.alloc.cellOf 3 = blockStateFree ∧ (x.2 [7]).isSome = true := by
    have hcompute : (step diskParams (initKvtransCtx alloc, fun _ => none) (KeyMap.keyReq .store 3)).map
        (fun x => (x.1.alloc.alloc.cellOf 3, (x.2 [7]).isSome)) = some (blockStateFree, true) := by
      cases halloc
      decide +kernel
    intro x hx
    rw [hx] at hcompute
    exact Prod.mk.inj (Option.some.inj hcompute)
  refine ⟨alloc, halloc, answers_of_run rfl (by decide) (by decide) (by decide) (by decide)
    halloc ⟨hstore, fun x hx => ⟨regular_update .disk (hlast x hx), fun x _ => ?_⟩⟩⟩
  exact ⟨regular_read .disk x (by decide) 0, fun x _ => ⟨regular_read .disk x (by decide) 0, fun x _ =>
    ⟨regular_read .disk x (by decide) 0, fun _ _ => trivial⟩⟩⟩

end

end DssSdk.Kvtrans.DiskMap
