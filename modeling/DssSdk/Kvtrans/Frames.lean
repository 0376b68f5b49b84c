import DssSdk.Lib.Program
import DssSdk.BlockAllocator.Impresario
import DssSdk.Kvtrans.KeyOps

/-!
# What the handlers do to the meta synchronisation

In the disk build a handler changes nothing on the disk itself: it queues I/O. To the meta
synchronisation it shows only through the LBAs of its chain:

* `Quiet`: the chain, the dirty LBAs, the waiting requests and the disk stay as they are;
* `Adds`: blocks come to the end of the chain, and LBAs of the chain become dirty; `Opens`: the new
  blocks are blocks that the allocator handed out, and they are dirty;
* `Issues`: the load of a block was issued, or the request waits for the block.

The handlers are quiet, up to the writes, `open_free_blk` and the loads.
-/

namespace DssSdk.Kvtrans

open Program

/-- The LBAs of the chain of a request. -/
def Kreq.lbas (r : Kreq) : List ℕ := r.chain.map BlkCtx.index

/-- The LBAs of the chain, each with whether the allocator handed it out (`nothash`). -/
def Kreq.cores (r : Kreq) : List (ℕ × Bool) := r.chain.map fun b => (b.index, b.nothash)

/-- The `dc_index` and the flag of the entry block. -/
def Kreq.entry (r : Kreq) : Option (ℕ × OpsFlag) :=
  r.chain.head?.map fun b => (b.dcIndex, b.flag)

theorem Kreq.lbas_eq_cores (r : Kreq) : r.lbas = r.cores.map Prod.fst := by
  unfold Kreq.lbas Kreq.cores
  rw [List.map_map]
  rfl

theorem Kreq.length_cores (r : Kreq) : r.cores.length = r.chain.length := List.length_map _

theorem map_modify_eq {γ : Type} {g : BlkCtx → γ} {f : BlkCtx → BlkCtx} (h : ∀ b, g (f b) = g b)
    (l : List BlkCtx) (p : ℕ) : (l.modify p f).map g = l.map g := by
  apply List.ext_getElem?
  intro i
  rw [List.getElem?_map, List.getElem?_map, List.getElem?_modify]
  by_cases hi : p = i
  · cases l[i]? with
    | none => simp
    | some b => simp [hi, h]
  · simp [hi]

/-- Nothing that the meta synchronisation sees changes, and only the block contexts at the positions
in `T` do. -/
structure Quiet (T : Set ℕ) (s s' : Sys) : Prop where
  id : s'.req.id = s.req.id
  req : s'.req.req = s.req.req
  state : s'.req.state = s.req.state
  cores : s'.req.cores = s.req.cores
  entry : s'.req.entry = s.req.entry
  frame : ∀ i ∉ T, s'.req.chain[i]? = s.req.chain[i]?
  dirty : s'.ctx.dirtyMetaLba = s.ctx.dirtyMetaLba
  queue : s'.ctx.kvReqQueue = s.ctx.kvReqQueue
  kreqs : s'.ctx.kreqs = s.ctx.kreqs
  metas : s'.ctx.metas = s.ctx.metas

instance (T : Set ℕ) : IsPreorder Sys (Quiet T) where
  refl _ := ⟨rfl, rfl, rfl, rfl, rfl, fun _ _ => rfl, rfl, rfl, rfl, rfl⟩
  trans _ _ _ h h' :=
    ⟨h'.id.trans h.id, h'.req.trans h.req, h'.state.trans h.state, h'.cores.trans h.cores,
      h'.entry.trans h.entry, fun i hi => (h'.frame i hi).trans (h.frame i hi), h'.dirty.trans h.dirty, h'.queue.trans h.queue,
      h'.kreqs.trans h.kreqs, h'.metas.trans h.metas⟩

theorem keeps_checked {R : Sys → Sys → Prop} [IsPreorder Sys R] {m k : M Status}
    (hm : Keeps R m) (hk : Keeps R k) : Keeps R (checked m k) :=
  Keeps.bind hm fun _ => Keeps.ite (fun _ => Keeps.pure _) fun _ => hk

@[simp] theorem wp_checked {E : Fault → Prop} {m k : M Status} {Q : Status → Sys → Prop} {s : Sys} :
    wp E (checked m k) Q s ↔
      wp E m (fun rc s' => (rc ≠ .success → Q rc s') ∧ (¬ rc ≠ .success → wp E k Q s')) s := by
  unfold checked
  simp only [wp_bind, wp_ite, wp_pure]

@[simp] theorem wp_dssAssert {E : Fault → Prop} {c : Prop} [Decidable c] {Q : Unit → Sys → Prop}
    {s : Sys} : wp E (dssAssert c) Q s ↔ (c → Q () s) ∧ (¬ c → E .assertFailed) := wp_ite

@[simp] theorem wp_blkAt {E : Fault → Prop} {p : ℕ} {Q : BlkCtx → Sys → Prop} {s : Sys} :
    wp E (blkAt p) Q s ↔ Q (s.req.chain.getD p BlkCtx.zero) s := Iff.rfl

theorem getD_modify {l : List BlkCtx} {p : ℕ} (hp : p < l.length) (f : BlkCtx → BlkCtx) :
    (l.modify p f).getD p BlkCtx.zero = f (l.getD p BlkCtx.zero) := by
  rw [List.getD_eq_getElem?_getD, List.getD_eq_getElem?_getD, List.getElem?_modify,
    List.getElem?_eq_getElem hp]
  simp

/-! ### Quiet functions -/

section

variable {T : Set ℕ}

theorem quiet_blkAt (p : ℕ) : Keeps (Quiet T) (blkAt p) := fun s => refl_of (Quiet T) s

theorem quiet_dssAssert (c : Prop) [Decidable c] : Keeps (Quiet T) (dssAssert c) :=
  Keeps.ite (fun _ => Keeps.pure ()) fun _ => Keeps.throw _

theorem quiet_modifyBlk {p : ℕ} (hp : p ∈ T) {f : BlkCtx → BlkCtx}
    (hindex : ∀ b, (f b).index = b.index) (hnothash : ∀ b, (f b).nothash = b.nothash)
    (hentry : p = 0 → ∀ b, ((f b).dcIndex, (f b).flag) = (b.dcIndex, b.flag)) :
    Keeps (Quiet T) (modifyBlk p f) := by
  apply Keeps.modify
  intro s
  have hcores : (s.req.chain.modify p f).map (fun b => (b.index, b.nothash)) =
      s.req.chain.map fun b => (b.index, b.nothash) :=
    map_modify_eq (fun b => by rw [hindex, hnothash]) _ p
  have hhead : (s.req.chain.modify p f).head?.map (fun b => (b.dcIndex, b.flag)) =
      s.req.chain.head?.map fun b => (b.dcIndex, b.flag) := by
    rw [List.head?_eq_getElem?, List.head?_eq_getElem?, List.getElem?_modify]
    by_cases hp : p = 0
    · cases s.req.chain[0]? with
      | none => simp
      | some b => simpa [hp] using hentry hp b
    · simp [hp]
  have hframe : ∀ i ∉ T, (s.req.chain.modify p f)[i]? = s.req.chain[i]? := by
    intro i hi
    rw [List.getElem?_modify_ne]
    rintro rfl
    exact hi hp
  exact ⟨rfl, rfl, rfl, hcores, hhead, hframe, rfl, rfl, rfl, rfl⟩

theorem quiet_modifyReq {f : Kreq → Kreq} (hid : ∀ r, (f r).id = r.id)
    (hreq : ∀ r, (f r).req = r.req) (hstate : ∀ r, (f r).state = r.state)
    (hchain : ∀ r, (f r).chain = r.chain) : Keeps (Quiet T) (modifyReq f) := by
  apply Keeps.modify
  intro s
  exact ⟨hid _, hreq _, hstate _, congrArg (List.map _) (hchain _),
    congrArg (fun l => l.head?.map fun b : BlkCtx => (b.dcIndex, b.flag)) (hchain _),
    fun i _ => congrArg (fun l : List BlkCtx => l[i]?) (hchain _), rfl, rfl, rfl, rfl⟩

theorem quiet_modifyCtx {f : Ctx → Ctx} (hdirty : ∀ c, (f c).dirtyMetaLba = c.dirtyMetaLba)
    (hqueue : ∀ c, (f c).kvReqQueue = c.kvReqQueue) (hkreqs : ∀ c, (f c).kreqs = c.kreqs)
    (hmetas : ∀ c, (f c).metas = c.metas) : Keeps (Quiet T) (modifyCtx f) := by
  apply Keeps.modify
  intro s
  exact ⟨rfl, rfl, rfl, rfl, rfl, fun _ _ => rfl, hdirty _, hqueue _, hkreqs _, hmetas _⟩

theorem quiet_setBaMetaUpdated : Keeps (Quiet T) setBaMetaUpdated :=
  quiet_modifyReq (fun _ => rfl) (fun _ => rfl) (fun _ => rfl) fun _ => rfl

theorem quiet_recordAllocFailed : Keeps (Quiet T) recordAllocFailed :=
  quiet_modifyReq (fun _ => rfl) (fun _ => rfl) (fun _ => rfl) fun _ => rfl

theorem quiet_setAlloc (a : BlockAllocator.Context) :
    Keeps (Quiet T) (modifyCtx fun c => { c with alloc := a }) :=
  quiet_modifyCtx (fun _ => rfl) (fun _ => rfl) (fun _ => rfl) fun _ => rfl

theorem quiet_allocContig (state : BlkState) (hint n : ℕ) :
    Keeps (Quiet T) (allocContig state hint n) := by
  unfold allocContig
  refine Keeps.bind Keeps.get fun s => ?_
  split
  · exact Keeps.throw _
  · refine Keeps.bind (quiet_setAlloc _) fun _ => Keeps.ite (fun _ => ?_) fun _ => ?_
    · exact Keeps.bind quiet_setBaMetaUpdated fun _ => Keeps.pure _
    · refine Keeps.ite (fun _ => ?_) fun _ => Keeps.pure _
      exact Keeps.bind quiet_recordAllocFailed fun _ => Keeps.pure _

section

variable {R : Sys → Sys → Prop} [IsPreorder Sys R]
  (halloc : ∀ (s : Sys) (call : BlockAllocator.Context.Call) (r : BlockAllocator.Context.Reply),
    s.ctx.alloc.call call = some r → R s { s with ctx := { s.ctx with alloc := r.ctx } })
  (hflag : Keeps R setBaMetaUpdated)

include halloc hflag

theorem wp_storeAlloc (hasCtx : Bool) (s : Sys) (call : BlockAllocator.Context.Call) :
    wp (fun _ => True) (match s.ctx.alloc.call call with
      | none => (throw .allocatorAbort : M Status)
      | some r => do
          modifyCtx fun c => { c with alloc := r.ctx }
          if r.status ≠ .success then return .setBlkStateError
          else
            if hasCtx then setBaMetaUpdated
            return .success) (fun _ s' => R s s') s := by
  cases hcall : s.ctx.alloc.call call with
  | none => trivial
  | some r =>
    have hrest : Keeps R (if r.status ≠ .success then (pure .setBlkStateError : M Status)
        else do
          if hasCtx then setBaMetaUpdated
          return .success) :=
      Keeps.ite (fun _ => Keeps.pure _) fun _ =>
        Keeps.ite (fun _ => Keeps.bind hflag fun _ => Keeps.pure _) fun _ => Keeps.pure _
    dsimp only
    unfold modifyCtx
    rw [wp_bind, wp_modify]
    exact wp_mono (hrest _) fun _ s' h => trans_of R (halloc s call r hcall) h

theorem keeps_setBlkState (hasCtx : Bool) (index n : ℕ) (state : BlkState) :
    Keeps R (setBlkState hasCtx index n state) := by
  intro s
  unfold setBlkState dssAssert
  rw [wp_bind, wp_get]
  split
  · trivial
  · rw [wp_ite]
    refine ⟨fun _ => refl_of R s, fun _ => ?_⟩
    by_cases hempty : state = .empty
    · rw [if_neg (not_not.2 hempty), if_pos hempty]
      exact wp_storeAlloc halloc hflag hasCtx s (.clearBlocks index n)
    · rw [if_pos hempty, if_neg hempty, wp_bind, wp_ite, wp_pure]
      exact ⟨fun _ => wp_storeAlloc halloc hflag hasCtx s (.setBlocksState index n state.toCell),
        fun _ => trivial⟩

end

theorem quiet_setBlkState (hasCtx : Bool) (index n : ℕ) (state : BlkState) :
    Keeps (Quiet T) (setBlkState hasCtx index n state) :=
  keeps_setBlkState (fun s _ r _ => (quiet_setAlloc r.ctx) s) quiet_setBaMetaUpdated hasCtx index n state

theorem quiet_readBlkState (index : ℕ) : Keeps (Quiet T) (readBlkState index) := by
  unfold readBlkState
  refine Keeps.bind Keeps.get fun s => ?_
  split
  · exact Keeps.throw _
  · refine Keeps.ite (fun _ => Keeps.pure _) fun _ => ?_
    split
    · exact Keeps.throw _
    · exact Keeps.pure _

theorem quiet_setState {p : ℕ} (hp : p ∈ T) (st : BlkState) :
    Keeps (Quiet T) (modifyBlk p fun b => { b with state := st }) :=
  quiet_modifyBlk hp (fun _ => rfl) (fun _ => rfl) fun _ _ => rfl

theorem quiet_getBlkState {p : ℕ} (hp : p ∈ T) : Keeps (Quiet T) (getBlkState p) := by
  unfold getBlkState
  refine Keeps.bind (quiet_blkAt p) fun b => Keeps.bind (quiet_readBlkState _) fun st => ?_
  split
  · exact Keeps.pure _
  · exact Keeps.bind (quiet_setState hp _) fun _ => Keeps.pure _

theorem quiet_dcTableExist (index : ℕ) : Keeps (Quiet T) (dcTableExist index) :=
  Keeps.bind Keeps.get fun _ => Keeps.pure _

theorem quiet_getDc (index : ℕ) : Keeps (Quiet T) (getDc index) := by
  unfold getDc
  refine Keeps.bind Keeps.get fun s => ?_
  split
  · exact Keeps.throw _
  · exact Keeps.pure _

theorem quiet_dcTableLookup (index : ℕ) : Keeps (Quiet T) (dcTableLookup index) :=
  Keeps.bind (quiet_getDc index) fun _ => Keeps.pure _

theorem quiet_storeDc (index : ℕ) (it : Option DcItem) : Keeps (Quiet T) (storeDc index it) :=
  quiet_modifyCtx (fun _ => rfl) (fun _ => rfl) (fun _ => rfl) fun _ => rfl

theorem quiet_modifyStat (f : Dstat → Dstat) : Keeps (Quiet T) (modifyStat f) :=
  quiet_modifyCtx (fun _ => rfl) (fun _ => rfl) (fun _ => rfl) fun _ => rfl

theorem quiet_countThen (f : Dstat → Dstat) (rc : Status) :
    Keeps (Quiet T) (do modifyStat f; return rc) :=
  Keeps.bind (quiet_modifyStat f) fun _ => Keeps.pure _

theorem quiet_countMetaBlk (p : ℕ) : Keeps (Quiet T) (countMetaBlk p) := by
  unfold countMetaBlk
  exact Keeps.bind (quiet_blkAt p) fun _ => quiet_countThen _ _

theorem quiet_dcTableUpdate (index : ℕ) (oriState : BlkState) :
    Keeps (Quiet T) (dcTableUpdate index oriState) := by
  unfold dcTableUpdate
  refine Keeps.bind (quiet_dssAssert _) fun _ => keeps_checked (quiet_setBlkState _ _ _ _) ?_
  refine Keeps.bind (quiet_getDc _) fun it => ?_
  exact Keeps.bind (quiet_storeDc _ _) fun _ => Keeps.pure _

theorem quiet_dcTableInsert (dcIndex mdcIndex : ℕ) (oriState : BlkState) :
    Keeps (Quiet T) (dcTableInsert dcIndex mdcIndex oriState) := by
  unfold dcTableInsert
  refine Keeps.bind (quiet_dcTableExist _) fun exist => Keeps.ite (fun _ => Keeps.pure _) fun _ => ?_
  refine Keeps.bind (quiet_dssAssert _) fun _ => Keeps.bind (quiet_setBlkState _ _ _ _) fun rc => ?_
  refine Keeps.ite (fun _ => Keeps.bind (quiet_storeDc _ _) fun _ => Keeps.pure _) fun _ => ?_
  refine Keeps.bind (quiet_setBlkState _ _ _ _) fun rc => ?_
  refine Keeps.ite (fun _ => Keeps.bind (quiet_storeDc _ _) fun _ => Keeps.pure _) fun _ => ?_
  refine Keeps.bind (quiet_setBlkState _ _ _ _) fun rc => Keeps.ite (fun _ => Keeps.pure _) fun _ => ?_
  exact Keeps.bind (quiet_storeDc _ _) fun _ => Keeps.pure _

theorem quiet_dcTableDelete (dcIndex mdcIndex : ℕ) :
    Keeps (Quiet T) (dcTableDelete dcIndex mdcIndex) := by
  unfold dcTableDelete
  refine Keeps.bind (quiet_getDc _) fun it => Keeps.ite (fun _ => Keeps.pure _) fun _ => ?_
  refine Keeps.bind (quiet_setBlkState _ _ _ _) fun rc => ?_
  exact Keeps.bind (quiet_storeDc _ _) fun _ => quiet_countThen _ _

theorem quiet_recordLoad (index : ℕ) : Keeps (Quiet T) (recordLoad index) := by
  unfold recordLoad
  refine Keeps.bind Keeps.get fun s => ?_
  split
  · refine Keeps.ite (fun _ => ?_) fun _ => Keeps.pure _
    exact quiet_modifyCtx (fun _ => rfl) (fun _ => rfl) (fun _ => rfl) fun _ => rfl
  · exact Keeps.pure _

variable (P : Params)

theorem quiet_setBlk {p : ℕ} (hp : p ∈ T) (f : BlkCtx → OndiskMeta) :
    Keeps (Quiet T) (modifyBlk p fun b => { b with blk := f b }) :=
  quiet_modifyBlk hp (fun _ => rfl) (fun _ => rfl) fun _ _ => rfl

theorem quiet_findDataBlocks {p : ℕ} (hp : p ∈ T) (fuel n : ℕ) : Keeps (Quiet T) (findDataBlocks P p fuel n) := by
  induction fuel generalizing n with
  | zero => exact Keeps.throw _
  | succ fuel ih =>
    unfold findDataBlocks
    refine Keeps.ite (fun _ => Keeps.pure _) fun _ => Keeps.bind (quiet_blkAt p) fun b => ?_
    refine Keeps.ite (fun _ => Keeps.bind quiet_recordAllocFailed fun _ => Keeps.pure _) fun _ => ?_
    refine Keeps.bind (quiet_allocContig _ _ _) fun start => ?_
    split
    · refine Keeps.bind (quiet_dssAssert _) fun _ => Keeps.bind ?_ fun _ => Keeps.pure _
      exact quiet_modifyBlk hp (fun _ => rfl) (fun _ => rfl) fun _ _ => rfl
    · refine Keeps.ite (fun _ => Keeps.pure _) fun _ => Keeps.bind (ih _) fun rc => ?_
      refine Keeps.ite (fun _ => Keeps.pure _) fun _ => Keeps.bind (ih _) fun rc => ?_
      exact Keeps.ite (fun _ => Keeps.pure _) fun _ => Keeps.pure _

theorem quiet_blkInitValue {p : ℕ} (hp : p ∈ T) : Keeps (Quiet T) (blkInitValue P p) := by
  unfold blkInitValue
  refine Keeps.bind Keeps.get fun s => Keeps.bind (quiet_blkAt p) fun b => ?_
  refine Keeps.ite (fun _ => Keeps.bind (quiet_setBlk hp _) fun _ => Keeps.pure _) fun _ => ?_
  refine Keeps.ite (fun _ => Keeps.bind ?_ fun _ => Keeps.pure _) fun _ => Keeps.bind ?_ fun _ => ?_
  · exact quiet_modifyBlk hp (fun _ => rfl) (fun _ => rfl) fun _ _ => rfl
  · exact quiet_modifyBlk hp (fun _ => rfl) (fun _ => rfl) fun _ _ => rfl
  · refine keeps_checked (quiet_findDataBlocks P hp _ _) ?_
    refine Keeps.bind (quiet_blkAt p) fun b => Keeps.bind (quiet_dssAssert _) fun _ => ?_
    exact Keeps.bind (quiet_setBlk hp _) fun _ => Keeps.pure _

theorem quiet_delExtent (last fuel sIdx eIdx : ℕ) (rc : Status) :
    Keeps (Quiet T) (delExtent last fuel sIdx eIdx rc) := by
  induction fuel generalizing sIdx eIdx rc with
  | zero =>
    unfold delExtent
    refine Keeps.ite (fun _ => ?_) fun _ => Keeps.pure _
    exact Keeps.bind (quiet_setBlkState _ _ _ _) fun _ => Keeps.pure _
  | succ fuel ih =>
    have hdc : ∀ rc : Status, Keeps (Quiet T) (if rc ≠ .success then pure (rc, true) else do
        let rc ← dcTableUpdate eIdx .empty
        delExtent last fuel (eIdx + 1) (eIdx + 1) rc) := fun rc =>
      Keeps.ite (fun _ => Keeps.pure _) fun _ =>
        Keeps.bind (quiet_dcTableUpdate _ _) fun rc => ih _ _ rc
    unfold delExtent
    refine Keeps.bind (quiet_dcTableExist _) fun exist => Keeps.ite (fun _ => ?_) fun _ => ?_
    · refine Keeps.ite (fun _ => ?_) fun _ => ?_
      · exact Keeps.bind (quiet_setBlkState _ _ _ _) hdc
      · exact Keeps.bind (Keeps.pure _) hdc
    · refine Keeps.ite (fun _ => ?_) fun _ => ih _ _ _
      exact Keeps.bind (quiet_setBlkState _ _ _ _) fun _ => Keeps.pure _

theorem quiet_delExtents (locs : List ValueLoc) (rc : Status) :
    Keeps (Quiet T) (delExtents locs rc) := by
  induction locs generalizing rc with
  | nil => exact Keeps.pure _
  | cons loc locs ih =>
    unfold delExtents
    refine Keeps.bind (quiet_delExtent _ _ _ _ _) fun r => ?_
    exact Keeps.ite (fun _ => Keeps.pure _) fun _ => ih _

theorem quiet_blkDelValue {p : ℕ} (hp : p ∈ T) : Keeps (Quiet T) (blkDelValue p) := by
  have htail : ∀ r : Status × Bool, Keeps (Quiet T) (if r.2 = true then pure r.1 else do
      modifyBlk p fun b => { b with
        blk := { b.blk with
          valueBuffer := if b.blk.valueLocation = .inline then [] else b.blk.valueBuffer
          valueSize := 0, valueLocation := .inline, placeValue := [] } }
      pure r.1) := fun r =>
    Keeps.ite (fun _ => Keeps.pure _) fun _ => Keeps.bind (quiet_setBlk hp _) fun _ => Keeps.pure _
  unfold blkDelValue
  refine Keeps.bind (quiet_blkAt p) fun b => Keeps.ite (fun _ => ?_) fun _ => ?_
  · exact Keeps.bind (Keeps.pure _) htail
  · exact Keeps.bind (quiet_delExtents _ _) htail

theorem quiet_blkUpdateValue {p : ℕ} (hp : p ∈ T) : Keeps (Quiet T) (blkUpdateValue P p) := by
  unfold blkUpdateValue
  refine keeps_checked (quiet_blkDelValue hp) ?_
  refine Keeps.bind Keeps.get fun s => Keeps.bind ?_ fun _ => quiet_blkInitValue P hp
  exact quiet_modifyBlk hp (fun _ => rfl) (fun _ => rfl) fun _ _ => rfl

theorem quiet_rollBackExtents (locs : List ValueLoc) : Keeps (Quiet T) (rollBackExtents locs) := by
  induction locs with
  | nil => exact Keeps.pure _
  | cons loc locs ih =>
    unfold rollBackExtents
    refine Keeps.bind (quiet_setBlkState _ _ _ _) fun rc => ?_
    exact Keeps.ite (fun _ => Keeps.pure _) fun _ => ih

theorem quiet_rollBack (p : ℕ) (rc : Status) : Keeps (Quiet T) (rollBack p rc) := by
  unfold rollBack
  refine Keeps.bind (quiet_blkAt p) fun b => Keeps.bind (quiet_rollBackExtents _) fun ok => ?_
  refine Keeps.ite (fun _ => ?_) fun _ => Keeps.pure _
  refine Keeps.bind (quiet_setBlkState _ _ _ _) fun _ => ?_
  exact Keeps.ite (fun _ => Keeps.pure _) fun _ => Keeps.pure _

theorem quiet_allocMetaBlk {p : ℕ} (hp : p ∈ T) : Keeps (Quiet T) (allocMetaBlk P p) := by
  unfold allocMetaBlk
  refine Keeps.bind Keeps.get fun s => Keeps.bind (quiet_blkAt p) fun b => ?_
  refine Keeps.ite (fun _ => Keeps.pure _) fun _ => Keeps.bind ?_ fun _ => ?_
  · exact quiet_modifyBlk hp (fun _ => rfl) (fun _ => rfl) fun _ _ => rfl
  · refine Keeps.bind (quiet_allocContig _ _ _) fun start => ?_
    split
    · exact Keeps.pure _
    · exact Keeps.bind (quiet_dssAssert _) fun _ => Keeps.pure _

theorem quiet_freeMetaBlk (index : ℕ) : Keeps (Quiet T) (freeMetaBlk index) := by
  unfold freeMetaBlk
  refine Keeps.bind (quiet_dcTableExist _) fun _ => ?_
  exact Keeps.ite (fun _ => quiet_dcTableUpdate _ _) fun _ => quiet_setBlkState _ _ _ _

theorem quiet_dropDc (p : ℕ) : Keeps (Quiet T) (dropDc p) := by
  unfold dropDc
  refine Keeps.bind (quiet_blkAt p) fun b => Keeps.bind (quiet_dcTableDelete _ _) fun rc => ?_
  refine Keeps.ite (fun _ => ?_) fun _ => Keeps.pure _
  exact Keeps.bind (quiet_dssAssert _) fun _ => Keeps.pure _

theorem quiet_dropEntryDc (p : ℕ) : Keeps (Quiet T) (dropEntryDc p) := by
  unfold dropEntryDc
  refine Keeps.bind (quiet_blkAt p) fun b => Keeps.ite (fun _ => ?_) fun _ => Keeps.pure _
  exact Keeps.bind (quiet_dssAssert _) fun _ => keeps_checked (quiet_dropDc p) (quiet_countThen _ _)

theorem quiet_clearExtension {p : ℕ} (hp : p ∈ T) : Keeps (Quiet T) (clearExtension p) := quiet_setBlk hp _

theorem quiet_firstEntryState (b : BlkCtx) (colIndex : ℕ) :
    Keeps (Quiet T) (firstEntryState b colIndex) := by
  unfold firstEntryState
  have hset : ∀ index st f, Keeps (Quiet T) (checked (setBlkState true index 1 st) do
      modifyStat f
      return .success) :=
    fun _ _ f => keeps_checked (quiet_setBlkState _ _ _ _) (quiet_countThen f _)
  refine Keeps.ite (fun _ => ?_) fun _ => Keeps.ite (fun _ => hset _ _ _) fun _ => ?_
  · exact Keeps.bind (quiet_dssAssert _) fun _ => Keeps.pure _
  · exact Keeps.ite (fun _ => hset _ _ _) fun _ => Keeps.pure _

theorem quiet_leaveMetaBlk {p : ℕ} (hp : p ∈ T) : Keeps (Quiet T) (leaveMetaBlk p) := by
  unfold leaveMetaBlk
  refine Keeps.bind (quiet_blkAt p) fun b => Keeps.ite (fun _ => ?_) fun _ => ?_
  · exact Keeps.bind (quiet_dssAssert _) fun _ => keeps_checked (quiet_dropDc p) (quiet_countThen _ _)
  · refine Keeps.ite (fun _ => ?_) fun _ => quiet_countThen _ _
    refine Keeps.bind (quiet_modifyStat _) fun _ => ?_
    exact Keeps.bind (quiet_setBlk hp _) fun _ => Keeps.pure _

theorem quiet_linkExtension {p : ℕ} (hp : p ∈ T) (colIndex : ℕ) : Keeps (Quiet T) (linkExtension p colIndex) := by
  unfold linkExtension
  refine Keeps.bind (quiet_blkAt p) fun b => Keeps.bind (quiet_dssAssert _) fun _ => ?_
  refine Keeps.bind (quiet_setBlk hp _) fun _ => ?_
  exact Keeps.bind (quiet_setBlkState _ _ _ _) fun _ => quiet_countThen _ _

theorem quiet_fillSlot {p : ℕ} (hp : p ∈ T) (i : Fin maxColTblSize) (colIndex : ℕ) :
    Keeps (Quiet T) (fillSlot p i colIndex) := by
  unfold fillSlot
  refine Keeps.bind Keeps.get fun s => Keeps.bind (quiet_blkAt p) fun b => ?_
  refine Keeps.bind (quiet_setBlk hp _) fun _ => keeps_checked ?_ ?_
  · exact Keeps.ite (fun _ => quiet_setBlkState _ _ _ _) fun _ => Keeps.pure _
  · exact Keeps.bind (quiet_setBlk hp _) fun _ => Keeps.pure _

theorem quiet_setFirstInsert {p : ℕ} (hp : p ∈ T) : Keeps (Quiet T) (setFirstInsert p) :=
  quiet_modifyBlk hp (fun _ => rfl) (fun _ => rfl) fun _ _ => rfl

theorem quiet_leaveCollisionBlk (p : ℕ) : Keeps (Quiet T) (leaveCollisionBlk p) := by
  unfold leaveCollisionBlk
  refine Keeps.bind (quiet_blkAt p) fun b => Keeps.ite (fun _ => ?_) fun _ => Keeps.pure _
  exact keeps_checked (quiet_dropDc p)
    (keeps_checked (quiet_setBlkState _ _ _ _) (quiet_countThen _ _))

theorem quiet_assignOps {p : ℕ} (hp : p ∈ T) : Keeps (Quiet T) (assignOps p) := by
  unfold assignOps
  refine Keeps.bind (quiet_blkAt p) fun b => Keeps.ite (fun _ => ?_) fun _ => Keeps.throw _
  exact quiet_modifyBlk hp (fun _ => rfl) (fun _ => rfl) fun _ _ => rfl

theorem quiet_leaveDcParent {p : ℕ} (hp : p ∈ T) (col : ℕ) : Keeps (Quiet T) (leaveDcParent p col) := by
  unfold leaveDcParent
  refine Keeps.bind (quiet_blkAt p) fun b => Keeps.bind (quiet_blkAt col) fun c => ?_
  refine Keeps.ite (fun _ => Keeps.bind (quiet_setBlk hp _) fun _ => ?_) fun _ => Keeps.pure _
  refine Keeps.ite (fun _ => ?_) fun _ => Keeps.pure _
  refine Keeps.bind (quiet_dcTableDelete _ _) fun rc => ?_
  refine Keeps.ite (fun _ => Keeps.pure _) fun _ => Keeps.bind (quiet_modifyStat _) fun _ => ?_
  exact Keeps.bind (quiet_setBlkState _ _ _ _) fun _ => quiet_countThen _ _

section

variable {P} (hP : P.build = .disk)

include hP

theorem quiet_deleteOndiskBlk {p : ℕ} (hp : p ∈ T) : Keeps (Quiet T) (deleteOndiskBlk P p) := by
  unfold deleteOndiskBlk
  rw [hP]
  exact Keeps.bind (quiet_blkAt p) fun b => Keeps.bind (quiet_setState hp _) fun _ => Keeps.pure _

theorem quiet_cleanBlk {p : ℕ} (hp : p ∈ T) : Keeps (Quiet T) (cleanBlk P p) := by
  unfold cleanBlk
  refine Keeps.bind (quiet_blkAt p) fun b => keeps_checked ?_ ?_
  · exact Keeps.ite (fun _ => Keeps.pure _) fun _ => quiet_blkDelValue hp
  · refine keeps_checked (quiet_freeMetaBlk _) ?_
    refine Keeps.bind (quiet_deleteOndiskBlk hP hp) fun _ => ?_
    exact Keeps.bind (quiet_setBlk hp _) fun _ => Keeps.pure _

theorem quiet_cleanUpward {p : ℕ} (hp : ∀ i < p, i ∈ T) : Keeps (Quiet T) (cleanUpward P p) := by
  induction p with
  | zero => exact Keeps.pure _
  | succ p ih =>
    have hpT : p ∈ T := hp p (Nat.lt_succ_self p)
    unfold cleanUpward
    refine Keeps.bind (quiet_blkAt p) fun pre => Keeps.ite (fun _ => ?_) fun _ => Keeps.pure _
    refine Keeps.bind (quiet_modifyStat _) fun _ => ?_
    refine keeps_checked (quiet_dropEntryDc p) (keeps_checked (quiet_cleanBlk hP hpT) ?_)
    refine Keeps.ite (fun _ => Keeps.pure _) fun hp0 => ?_
    refine Keeps.bind (quiet_clearExtension (hp (p - 1) (by omega))) fun _ => ?_
    exact ih fun i hi => hp i (by omega)

theorem quiet_cleanCollisionExtension {p : ℕ} (hp : ∀ i ≤ p, i ∈ T) :
    Keeps (Quiet T) (cleanCollisionExtension P p) := by
  unfold cleanCollisionExtension
  refine Keeps.bind (quiet_dssAssert _) fun _ => Keeps.bind (quiet_blkAt p) fun ce => ?_
  refine Keeps.bind (quiet_blkAt _) fun pre => Keeps.ite (fun _ => ?_) fun _ => Keeps.pure _
  refine Keeps.bind (quiet_modifyStat _) fun _ => ?_
  refine Keeps.bind (Keeps.ite (fun _ => quiet_clearExtension (hp _ (by omega)))
    fun _ => Keeps.pure _) fun _ => ?_
  exact keeps_checked (quiet_dropEntryDc p) (keeps_checked (quiet_cleanBlk hP (hp p le_rfl))
    (quiet_cleanUpward hP fun i hi => hp i (by omega)))

theorem quiet_registerCleanBlk (row : Option BlkState) {p : ℕ} (hp : ∀ i ≤ p, i ∈ T) :
    Keeps (Quiet T) (registerCleanBlk P row p) := by
  have hpT : p ∈ T := hp p le_rfl
  unfold registerCleanBlk
  split
  · exact quiet_cleanBlk hP hpT
  · exact quiet_cleanBlk hP hpT
  · exact quiet_cleanBlk hP hpT
  · exact quiet_cleanCollisionExtension hP hp
  · exact Keeps.throw _

theorem quiet_freeParent {p : ℕ} (hp : p ∈ T) : Keeps (Quiet T) (freeParent P p) := by
  unfold freeParent
  refine Keeps.bind (quiet_blkAt p) fun b => keeps_checked (Keeps.ite (fun _ => ?_) fun _ => ?_) ?_
  · exact Keeps.bind (quiet_dcTableDelete _ _) fun _ =>
      keeps_checked (Keeps.pure _) (quiet_countThen _ _)
  · exact quiet_countThen _ _
  · refine Keeps.bind (quiet_setState hp _) fun _ => keeps_checked (quiet_setBlkState _ _ _ _) ?_
    exact Keeps.bind (quiet_deleteOndiskBlk hP hp) fun _ => Keeps.pure _

theorem quiet_settleParent {p : ℕ} (hp : p ∈ T) : Keeps (Quiet T) (settleParent P p) := by
  unfold settleParent
  refine Keeps.bind (quiet_blkAt p) fun b => Keeps.ite (fun _ => ?_) fun _ => Keeps.pure _
  refine Keeps.ite (fun _ => Keeps.ite (fun _ => ?_) fun _ => Keeps.pure _) fun _ =>
    quiet_freeParent hP hp
  refine Keeps.bind (quiet_setState hp _) fun _ => ?_
  exact Keeps.bind (quiet_setBlkState _ _ _ _) fun _ => quiet_countThen _ _

theorem quiet_deleteCollisionEntry {p : ℕ} (hp : ∀ i ≤ p, i ∈ T) (col : ℕ) :
    Keeps (Quiet T) (deleteCollisionEntry P p col) := by
  have hpT : p ∈ T := hp p le_rfl
  unfold deleteCollisionEntry
  refine Keeps.bind Keeps.get fun s => Keeps.bind (quiet_blkAt p) fun b => ?_
  split
  · exact Keeps.pure _
  · refine Keeps.bind (quiet_setBlk hpT _) fun _ => Keeps.bind (quiet_blkAt p) fun b => ?_
    refine Keeps.ite (fun _ => quiet_cleanCollisionExtension hP hp) fun _ => ?_
    exact keeps_checked (quiet_settleParent hP hpT) (quiet_leaveDcParent hpT col)

end

end

end DssSdk.Kvtrans
