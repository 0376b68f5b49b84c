import DssSdk.Lib.Run
import DssSdk.Kvtrans.ValOpsOutcome

/-!
# Requests in flight

The translator of the disk build with any number of requests in flight. Between two events nothing
runs: every unfinished request is suspended, with its I/O submitted or in `kv_req_queue`.

* `Event`: a request comes in, or the I/O of a suspended request completes;
* `step`: `dss_kvtrans_request_handler` on the request of the event;
* `Suspended`: what is known of a suspended request.
-/

namespace DssSdk.Kvtrans

open Program

/-- An event for the translator. -/
inductive Event
  | start (id : ℕ) (req : Req)
  | ioDone (id : ℕ)
  deriving DecidableEq, Repr

variable (P : Params)

/-- One operation of an I/O task, on the disk and the buffers of the request. -/
def performOp : Ctx × Kreq → IoOp → Ctx × Kreq
  | (c, r), .readMeta p =>
      (c, { r with chain := r.chain.modify p fun b => { b with
        blk := (c.metas b.index).getD OndiskMeta.zero } })
  | (c, r), .writeMeta p =>
      match r.chain[p]? with
      | some b => ({ c with metas := Function.update c.metas b.index (some b.blk) }, r)
      | none => (c, r)
  | (c, r), .readData loc => (c, { r with value := r.value ++ retrieveData c.datas loc })
  | (c, r), .writeData loc offset =>
      ({ c with datas := insertData P c.datas loc r.req.value offset }, r)

/-- The I/O task of a request. -/
def performIo (c : Ctx) (r : Kreq) : Ctx × Kreq := r.io.foldl (performOp P) (c, r)

/-- The translator and the request when the handler is called for an event; `none` for an event
that cannot happen. The request of a call is not among the suspended ones. -/
def handled (c : Ctx) : Event → Option Sys
  | .start id req =>
      if c.kreqs id = none ∧ id ∉ c.kvReqQueue then some ⟨c, initKvtransReq id req⟩ else none
  | .ioDone id =>
      match c.kreqs id with
      | none => none
      | some r =>
          if id ∈ c.kvReqQueue then none
          else
            let (c, r) := performIo P c r
            some ⟨{ c with kreqs := Function.update c.kreqs id none }, r⟩

/-- The end of `dss_kvtrans_request_handler`: the request is completed, or stays suspended. -/
def finish (rc : Status) (s : Sys) : Ctx :=
  if rc ≠ .success ∨ s.req.state = .reqCmpl then s.ctx
  else { s.ctx with kreqs := Function.update s.ctx.kreqs s.req.id (some s.req) }

/-- `dss_kvtrans_request_handler`; `none` when an assertion fails. -/
def step (c : Ctx) (e : Event) : Option Ctx :=
  match handled P c e with
  | none => some c
  | some s =>
      match kvtransCall P s with
      | .error _ => none
      | .ok ((rc, _), s') => some (finish rc s')

/-- The LBA that a request of the queue waits for. -/
def Ctx.waitLba (c : Ctx) (id : ℕ) : Option ℕ := (c.kreqs id).bind fun r => r.lbas.getLast?

/-- A suspended request that modifies meta blocks has the LBA in its chain, and does not wait for
it. -/
def Ctx.Holds (c : Ctx) (id x : ℕ) : Prop :=
  ∃ r, c.kreqs id = some r ∧ modifyMeta r.req.opc = true ∧
    x ∈ if id ∈ c.kvReqQueue then r.lbas.dropLast else r.lbas

/-! ### Suspended requests -/

/-- A suspended request that modifies meta blocks. -/
structure Parked (r : Kreq) : Prop where
  ne_nil : r.chain ≠ []
  flag : ∀ dc, r.entry ≠ some (dc, .update)
  entry : r.state = .queueToLoadEntry → r.chain.length = 1
  ext : r.state = .queueToLoadColExt →
    ∀ c, r.chain.getLast? = some c → c.firstInsertBlkCtx = none
  parked : r.state = .queueToLoadEntry ∨ r.state = .queueToLoadCol ∨
    r.state = .queueToLoadColExt ∨ r.state = .queueToStartIo

/-- A suspended request. -/
structure Suspended (id : ℕ) (r : Kreq) : Prop where
  id_eq : r.id = id
  reader : modifyMeta r.req.opc = false → r.chain.length = 1
  writer : modifyMeta r.req.opc = true → Parked r

/-! ### The completion of the I/O -/

/-- A block context without its copy of the meta block. -/
def BlkCtx.shape (b : BlkCtx) : BlkCtx := { b with blk := OndiskMeta.zero }

/-- What the I/O of a request can change: the disk at the LBAs of its chain, and its buffers. -/
structure Performed (c : Ctx) (r : Kreq) (c' : Ctx) (r' : Kreq) : Prop where
  id : r'.id = r.id
  req : r'.req = r.req
  state : r'.state = r.state
  shape : r'.chain.map BlkCtx.shape = r.chain.map BlkCtx.shape
  dirty : c'.dirtyMetaLba = c.dirtyMetaLba
  queue : c'.kvReqQueue = c.kvReqQueue
  kreqs : c'.kreqs = c.kreqs
  metas : ∀ x, c'.metas x ≠ c.metas x → x ∈ r.lbas

section

variable {P} {c c' : Ctx} {r r' : Kreq}

theorem lbas_eq_shape (r : Kreq) : r.lbas = (r.chain.map BlkCtx.shape).map BlkCtx.index := by
  unfold Kreq.lbas
  rw [List.map_map]
  rfl

theorem entry_eq_shape (r : Kreq) :
    r.entry = (r.chain.map BlkCtx.shape).head?.map fun b => (b.dcIndex, b.flag) := by
  unfold Kreq.entry
  rw [List.head?_map, Option.map_map]
  rfl

theorem Performed.lbas (h : Performed c r c' r') : r'.lbas = r.lbas := by
  rw [lbas_eq_shape, lbas_eq_shape, h.shape]

theorem Performed.entry (h : Performed c r c' r') : r'.entry = r.entry := by
  rw [entry_eq_shape, entry_eq_shape, h.shape]

theorem Performed.length (h : Performed c r c' r') : r'.chain.length = r.chain.length := by
  rw [← List.length_map BlkCtx.shape, h.shape, List.length_map]

theorem Performed.trans {c'' : Ctx} {r'' : Kreq} (h : Performed c r c' r')
    (h' : Performed c' r' c'' r'') : Performed c r c'' r'' := by
  refine ⟨h'.id.trans h.id, h'.req.trans h.req, h'.state.trans h.state, h'.shape.trans h.shape,
    h'.dirty.trans h.dirty, h'.queue.trans h.queue, h'.kreqs.trans h.kreqs, fun x hx => ?_⟩
  by_cases hx' : c''.metas x = c'.metas x
  · rw [hx'] at hx
    exact h.metas x hx
  · rw [← h.lbas]
    exact h'.metas x hx'

theorem performed_performOp (op : IoOp) :
    Performed c r (performOp P (c, r) op).1 (performOp P (c, r) op).2 := by
  cases op with
  | readMeta p =>
    refine ⟨rfl, rfl, rfl, ?_, rfl, rfl, rfl, fun x hx => absurd rfl hx⟩
    exact map_modify_eq (fun b => (by rfl : BlkCtx.shape { b with
      blk := (c.metas b.index).getD OndiskMeta.zero } = b.shape)) _ p
  | writeMeta p =>
    cases hp : r.chain[p]? with
    | none =>
      have hop : performOp P (c, r) (.writeMeta p) = (c, r) := by simp only [performOp, hp]
      rw [hop]
      exact ⟨rfl, rfl, rfl, rfl, rfl, rfl, rfl, fun x hx => absurd rfl hx⟩
    | some b =>
      have hop : performOp P (c, r) (.writeMeta p) =
          ({ c with metas := Function.update c.metas b.index (some b.blk) }, r) := by
        simp only [performOp, hp]
      rw [hop]
      refine ⟨rfl, rfl, rfl, rfl, rfl, rfl, rfl, fun x hx => ?_⟩
      have hxb : x = b.index := by
        by_contra hne
        exact hx (Function.update_of_ne hne _ _)
      rw [hxb]
      exact List.mem_map_of_mem (List.mem_of_getElem? hp)
  | readData loc => exact ⟨rfl, rfl, rfl, rfl, rfl, rfl, rfl, fun x hx => absurd rfl hx⟩
  | writeData loc offset => exact ⟨rfl, rfl, rfl, rfl, rfl, rfl, rfl, fun x hx => absurd rfl hx⟩

theorem performed_performIo : Performed c r (performIo P c r).1 (performIo P c r).2 := by
  unfold performIo
  generalize r.io = ops
  suffices h : ∀ cr : Ctx × Kreq, Performed cr.1 cr.2 (ops.foldl (performOp P) cr).1
      (ops.foldl (performOp P) cr).2 from h (c, r)
  induction ops with
  | nil => exact fun cr => ⟨rfl, rfl, rfl, rfl, rfl, rfl, rfl, fun x hx => absurd rfl hx⟩
  | cons op ops ih => exact fun cr => (performed_performOp op).trans (ih _)

theorem Parked.performed (h : Parked r) (h' : Performed c r c' r') : Parked r' where
  ne_nil := fun hc => by
    have hlen := h'.length
    rw [hc] at hlen
    exact h.ne_nil (List.eq_nil_of_length_eq_zero hlen.symm)
  flag := fun dc => by
    rw [h'.entry]
    exact h.flag dc
  entry := fun hst => h'.length.trans (h.entry (h'.state.symm.trans hst))
  ext := fun hst b hb => by
    have hshape : r.chain.getLast?.map BlkCtx.shape = some b.shape := by
      rw [← List.getLast?_map, ← h'.shape, List.getLast?_map, hb]
      rfl
    obtain ⟨b', hb', hs⟩ := Option.map_eq_some_iff.1 hshape
    have hfirst := h.ext (h'.state.symm.trans hst) b' hb'
    rw [← hfirst]
    exact (congrArg BlkCtx.firstInsertBlkCtx hs).symm
  parked := by
    rw [h'.state]
    exact h.parked

end

/-! ### Calls of the handler -/

/-- Only the state and the I/O task of the request change. -/
structure Woken (s s₁ : Sys) : Prop where
  ctx : s₁.ctx = s.ctx
  id : s₁.req.id = s.req.id
  req : s₁.req.req = s.req.req
  chain : s₁.req.chain = s.req.chain

theorem woken_handleKreqState : Keeps Woken handleKreqState := by
  apply Keeps.modify
  intro s
  dsimp only
  split
  all_goals exact ⟨rfl, rfl, rfl, rfl⟩

section

variable {P} {s : Sys}

/-- A suspended request whose I/O is done. -/
theorem Parked.ready (h : Parked s.req) :
    wp (fun _ => True) handleKreqState (fun _ s₁ => Woken s s₁ ∧ Ready s₁) s := by
  refine wp_true_iff.2 fun _ s₁ hs₁ => ?_
  have hw := woken_handleKreqState.ok hs₁
  refine ⟨hw, ?_⟩
  have hentry : s₁.req.entry = s.req.entry := by rw [Kreq.entry, Kreq.entry, hw.chain]
  have hne : s₁.req.chain ≠ [] := by rw [hw.chain]; exact h.ne_nil
  have hflag : ∀ dc, s₁.req.entry ≠ some (dc, .update) := by rw [hentry]; exact h.flag
  cases hs₁
  rcases h.parked with hst | hst | hst | hst
  · refine ⟨hne, hflag, fun _ => ?_, fun he => ?_, Or.inl ?_⟩
    · rw [hw.chain]
      exact h.entry hst
    · simp [hst] at he
    · simp [hst]
  · refine ⟨hne, hflag, fun he => ?_, fun he => ?_, Or.inr (Or.inl ?_)⟩ <;> simp_all
  · refine ⟨hne, hflag, fun he => ?_, fun _ => Or.inl ?_, Or.inr (Or.inr (Or.inl ?_))⟩
    · simp [hst] at he
    · unfold LastInsert
      rw [hw.chain]
      exact h.ext hst
    · simp [hst]
  · refine ⟨hne, hflag, fun he => ?_, fun he => ?_, ?_⟩ <;> simp_all

/-- `kvtrans_store` and `kvtrans_delete`. -/
theorem wp_kvtransCall_writer {Q : Status × Bool → Sys → Prop}
    (hmod : modifyMeta s.req.req.opc = true)
    (h : wp (fun _ => True) (do handleKreqState; keyOps P (fuel P)) Q s) :
    wp (fun _ => True) (kvtransCall P) Q s := by
  unfold kvtransCall
  rw [wp_bind, wp_get]
  split
  · exact h
  · rw [wp_ite]
    exact ⟨fun _ => trivial, fun _ => h⟩
  · rename_i hopc
    rw [hopc] at hmod
    cases hmod
  · rename_i hopc
    rw [hopc] at hmod
    cases hmod

/-- `kvtrans_retrieve` and `kvtrans_exist`. -/
theorem wp_kvtransCall_reader {Q : Status × Bool → Sys → Prop}
    (hmod : modifyMeta s.req.req.opc = false)
    (h : ∀ cb, wp (fun _ => True) (do handleKreqState; valOps P cb (fuel P) .success) Q s) :
    wp (fun _ => True) (kvtransCall P) Q s := by
  unfold kvtransCall
  rw [wp_bind, wp_get]
  split
  · rename_i hopc
    rw [hopc] at hmod
    cases hmod
  · rename_i hopc
    rw [hopc] at hmod
    cases hmod
  · exact h true
  · rw [wp_ite]
    exact ⟨fun _ => trivial, fun _ => h false⟩

variable (hP : P.build = .disk)

include hP

theorem kvtransCall_writer (hmod : modifyMeta s.req.req.opc = true) (h : Parked s.req) :
    wp (fun _ => True) (kvtransCall P)
      (fun r s' => ∃ s₁, Woken s s₁ ∧ Ready s₁ ∧ CallOutcome s₁ s' r) s := by
  refine wp_kvtransCall_writer hmod ?_
  rw [wp_bind]
  refine wp_mono h.ready ?_
  rintro - s₁ ⟨hw, hr⟩
  exact wp_mono (keyOps_spec hP hr _) fun r s' hc => ⟨s₁, hw, hr, hc⟩

theorem kvtransCall_start {c : Ctx} {id : ℕ} {req : Req} (hmod : modifyMeta req.opc = true) :
    wp (fun _ => True) (kvtransCall P)
      (fun r s' => ∃ s₀, Touches 0 ⟨c, initKvtransReq id req⟩ s₀ ∧
        (s₀.req.chain.getD 0 BlkCtx.zero).flag ≠ .update ∧ StartOutcome s₀ s' r)
      ⟨c, initKvtransReq id req⟩ := by
  refine wp_kvtransCall_writer hmod ?_
  unfold handleKreqState modifyReq
  rw [wp_bind, wp_modify]
  exact keyOps_start hP rfl rfl hmod _

theorem kvtransCall_reader (hmod : modifyMeta s.req.req.opc = false)
    (hlen : s.req.chain.length = 1) :
    wp (fun _ => True) (kvtransCall P)
      (fun r s' => ∃ s₁, Woken s s₁ ∧ ReadOutcome s₁ s' r.1) s := by
  refine wp_kvtransCall_reader hmod fun cb => ?_
  rw [wp_bind]
  refine wp_true_iff.2 fun _ s₁ hs₁ => ?_
  have hw := woken_handleKreqState.ok hs₁
  have hst : s₁.req.state ≠ .queueToLoadEntry := by
    cases hs₁
    dsimp only
    split <;> simp_all
  refine wp_mono (valOps_spec hP cb _ _ (by rw [hw.chain, hlen]) hst) fun r s' h => ?_
  exact ⟨s₁, hw, h⟩

end

/-! ### The release of a block -/

/-- The block state of the last block context is read again. -/
def Kreq.refresh (r : Kreq) (st : BlkState) : Kreq :=
  { r with chain := r.chain.modify (r.chain.length - 1) fun b => { b with state := st } }

/-- What `_pop_meta_blk_from_queue` does for the block `x`. -/
inductive Pops (x : ℕ) (c c' : Ctx) : Prop
  | clean (hdirty : c.dirtyMetaLba x = false) (hc : c' = c)
  | free (hdirty : c.dirtyMetaLba x = true)
      (hnone : ∀ id ∈ c.kvReqQueue, ∀ r, c.kreqs id = some r → x ∉ r.lbas)
      (hc : c' = { c with dirtyMetaLba := Function.update c.dirtyMetaLba x false })
  | woken (id : ℕ) (r : Kreq) (st : BlkState) (before after : List ℕ)
      (hdirty : c.dirtyMetaLba x = true) (hqueue : c.kvReqQueue = before ++ id :: after)
      (hbefore : ∀ id ∈ before, ∀ r, c.kreqs id = some r → x ∉ r.lbas)
      (hr : c.kreqs id = some r) (hlast : r.lbas.getLast? = some x)
      (hc : c' = { c with
        kvReqQueue := c.kvReqQueue.erase id
        dirtyMetaLba := Function.update c.dirtyMetaLba x (modifyMeta r.req.opc)
        kreqs := Function.update c.kreqs id (some (r.refresh st)) })

section

variable {c c' : Ctx} {r : Kreq} {x : ℕ}

theorem any_index_eq_true_iff : (r.chain.any fun b => b.index = x) = true ↔ x ∈ r.lbas := by
  rw [List.any_eq_true, Kreq.lbas, List.mem_map]
  simp only [decide_eq_true_eq]

theorem findWaiter_eq_none (h : findWaiter c x = none) :
    ∀ id ∈ c.kvReqQueue, ∀ r, c.kreqs id = some r → x ∉ r.lbas := by
  intro id hid r hr hx
  have hnone := List.findSome?_eq_none_iff.1 h id hid
  rw [hr, Option.bind_some, if_pos (any_index_eq_true_iff.2 hx)] at hnone
  cases hnone

theorem findWaiter_eq_some {w : ℕ × Kreq} (h : findWaiter c x = some w) :
    ∃ before after, c.kvReqQueue = before ++ w.1 :: after ∧
      (∀ id ∈ before, ∀ r, c.kreqs id = some r → x ∉ r.lbas) ∧
      c.kreqs w.1 = some w.2 ∧ x ∈ w.2.lbas := by
  obtain ⟨before, id, after, hq, hid, hbefore⟩ := List.findSome?_eq_some_iff.1 h
  obtain ⟨r, hr, hw⟩ := Option.bind_eq_some_iff.1 hid
  split_ifs at hw with hany
  cases hw
  refine ⟨before, after, hq, fun id hid r hr hx => ?_, hr, any_index_eq_true_iff.1 hany⟩
  have hnone := hbefore id hid
  rw [hr, Option.bind_some, if_pos (any_index_eq_true_iff.2 hx)] at hnone
  cases hnone

theorem getLast?_lbas_of_findIdx
    (h : r.chain.findIdx (fun b => b.index = x) + 1 = r.chain.length) :
    r.lbas.getLast? = some x := by
  have hlt : r.chain.findIdx (fun b => b.index = x) < r.chain.length := by omega
  have hget := List.findIdx_getElem (w := hlt)
  unfold Kreq.lbas
  rw [List.getLast?_map, List.getLast?_eq_getElem?, show r.chain.length - 1 =
    r.chain.findIdx (fun b => b.index = x) by omega, List.getElem?_eq_getElem hlt, Option.map_some]
  exact congrArg some (of_decide_eq_true hget)

theorem readBlkState_spec (index : ℕ) (s : Sys) :
    wp (fun _ => True) (readBlkState index) (fun _ s' => s' = s) s := by
  unfold readBlkState
  rw [wp_bind, wp_get]
  split
  · trivial
  · rw [wp_ite]
    refine ⟨fun _ => rfl, fun _ => ?_⟩
    split
    · trivial
    · rfl

theorem wakeWaiter_spec (s : Sys) (id : ℕ) (r : Kreq) (post : Unit → Sys → Prop)
    (h : ∀ st, post () { s with ctx := { s.ctx with
      kreqs := Function.update s.ctx.kreqs id (some (r.refresh st)) } }) :
    wp (fun _ => True) (do
      match ← readBlkState x with
      | none => throw .assertFailed
      | some st =>
          let last := r.chain.length - 1
          let kreq := { r with chain := r.chain.modify last fun b => { b with state := st } }
          modifyCtx fun c => { c with kreqs := Function.update c.kreqs id (some kreq) }) post s := by
  rw [wp_bind]
  refine wp_mono (readBlkState_spec _ _) ?_
  rintro st s' rfl
  split
  · trivial
  · exact h _

theorem popMetaBlkFromQueue_spec (s : Sys) :
    wp (fun _ => True) (popMetaBlkFromQueue x)
      (fun _ s' => Pops x s.ctx s'.ctx ∧ s'.req = s.req) s := by
  unfold popMetaBlkFromQueue
  rw [wp_bind, wp_get, wp_ite]
  refine ⟨fun hd => ⟨.clean hd rfl, rfl⟩, fun hd => ?_⟩
  have hdirty : s.ctx.dirtyMetaLba x = true := by simpa using hd
  unfold setLbaDirty modifyCtx
  rw [wp_bind, wp_modify]
  cases hw : findWaiter s.ctx x with
  | none => exact ⟨.free hdirty (findWaiter_eq_none hw) rfl, rfl⟩
  | some w =>
    obtain ⟨id, r⟩ := w
    obtain ⟨before, after, hq, hbefore, hr, hx⟩ := findWaiter_eq_some hw
    dsimp only
    rw [wp_bind, wp_dssAssert]
    refine ⟨fun hidx => ?_, fun _ => trivial⟩
    have hlast := getLast?_lbas_of_findIdx hidx
    -- the last steps, with the dirty LBAs as they are then
    have htail : ∀ d : ℕ → Bool, d = Function.update s.ctx.dirtyMetaLba x (modifyMeta r.req.opc) →
        ∀ st, Pops x s.ctx { s.ctx with
          kvReqQueue := s.ctx.kvReqQueue.erase id
          dirtyMetaLba := d
          kreqs := Function.update s.ctx.kreqs id (some (r.refresh st)) } := by
      rintro d rfl st
      exact .woken id r st before after hdirty hq hbefore hr hlast rfl
    rw [wp_bind, wp_modify, wp_ite]
    refine ⟨fun hmod => ?_, fun hmod => ?_⟩
    · rw [wp_bind, wp_modify]
      refine wakeWaiter_spec _ id r _ fun st => ⟨htail _ ?_ st, rfl⟩
      rw [hmod]
      exact Function.update_idem _ _ _
    · refine wakeWaiter_spec _ id r _ fun st => ⟨htail _ ?_ st, rfl⟩
      rw [Bool.eq_false_iff.2 hmod]

theorem Kreq.map_refresh {γ : Type} {g : BlkCtx → γ} (hg : ∀ b st, g { b with state := st } = g b)
    (r : Kreq) (st : BlkState) : (r.refresh st).chain.map g = r.chain.map g :=
  map_modify_eq (fun b => hg b st) _ _

theorem Kreq.lbas_refresh (r : Kreq) (st : BlkState) : (r.refresh st).lbas = r.lbas :=
  Kreq.map_refresh (fun _ _ => rfl) r st

theorem Suspended.refresh {id : ℕ} (h : Suspended id r) (st : BlkState) :
    Suspended id (r.refresh st) where
  id_eq := h.id_eq
  reader := fun hmod => (List.length_modify _ _ _).trans (h.reader hmod)
  writer := fun hmod => by
    have hp := h.writer hmod
    have hlen : (r.refresh st).chain.length = r.chain.length := List.length_modify _ _ _
    refine ⟨fun hc => ?_, fun dc => ?_, fun hst => hlen.trans (hp.entry hst), fun hst b hb => ?_,
      hp.parked⟩
    · rw [hc] at hlen
      exact hp.ne_nil (List.eq_nil_of_length_eq_zero hlen.symm)
    · have hentry : (r.refresh st).entry = r.entry := by
        unfold Kreq.entry
        rw [← List.head?_map, ← List.head?_map, Kreq.map_refresh (fun _ _ => rfl)]
      rw [hentry]
      exact hp.flag dc
    · have hinsert : r.chain.getLast?.map BlkCtx.firstInsertBlkCtx =
          some b.firstInsertBlkCtx := by
        rw [← List.getLast?_map, ← Kreq.map_refresh (fun _ _ => rfl) r st, List.getLast?_map, hb]
        rfl
      obtain ⟨b', hb', hs⟩ := Option.map_eq_some_iff.1 hinsert
      rw [← hs]
      exact hp.ext hst b' hb'

end

/-! ### What a call leaves suspended -/

section

variable {s s₁ s' : Sys}

theorem Parked.of_entry {r : Kreq} (hlen : r.chain.length = 1)
    (hflag : (r.chain.getD 0 BlkCtx.zero).flag ≠ .update) (hstate : r.state = .queueToLoadEntry) :
    Parked r where
  ne_nil := fun h => by rw [h] at hlen; cases hlen
  flag := fun dc hentry => by
    cases hc : r.chain with
    | nil => rw [hc] at hlen; cases hlen
    | cons b l =>
      rw [hc] at hflag
      rw [Kreq.entry, hc] at hentry
      exact hflag (Prod.mk.inj (Option.some.inj hentry)).2
  entry := fun _ => hlen
  ext := fun h => by rw [hstate] at h; cases h
  parked := Or.inl hstate

theorem CallOutcome.parked {rc : Status} (hs : Ready s) (h : CallOutcome s s' (rc, false)) :
    Parked s'.req := by
  have hg := h.grows
  have hne := hg.ne_nil hs.ne_nil
  have hflag : ∀ dc, s'.req.entry ≠ some (dc, .update) := by
    rw [hg.entry hs.ne_nil]
    exact hs.flag
  cases h with
  | writing opens hstate =>
    refine ⟨hne, hflag, fun he => ?_, fun he => ?_, Or.inr (Or.inr (Or.inr hstate))⟩
    · rw [hstate] at he
      cases he
    · rw [hstate] at he
      cases he
  | @loading s₂ s₃ y opens issues marks hstate =>
    refine ⟨hne, hflag, fun he => ?_, fun _ b hb => issues.lastInsert b ?_, ?_⟩
    · rcases hstate with h | h <;> rw [h] at he <;> cases he
    · rw [List.getLast?_eq_getElem?] at hb ⊢
      rw [← hb, marks.length_eq]
      refine (marks.frame _ fun hi => ?_).symm
      have : s₃.req.chain.length - 1 + 1 < s₃.req.chain.length := hi
      omega
    · exact hstate.elim (fun h => Or.inr (Or.inl h)) fun h => Or.inr (Or.inr (Or.inl h))

end

end DssSdk.Kvtrans
