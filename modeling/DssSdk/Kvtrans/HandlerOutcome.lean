import DssSdk.Kvtrans.Frames

/-!
# The outcome of a handler

A handler of the block context at the end of the chain fails, or succeeds with the blocks it
opened, or issues a load (`Outcome`). The blocks it opened are dirty and hold the key of the request
(`Opens`, `FreshLast`); for a load see `Issues`.
-/

namespace DssSdk.Kvtrans

open Program

/-- The chain grows, and LBAs of the chain become dirty. -/
structure Adds (s s' : Sys) : Prop where
  id : s'.req.id = s.req.id
  req : s'.req.req = s.req.req
  cores : s.req.cores <+: s'.req.cores
  entry : s.req.chain ≠ [] → s'.req.entry = s.req.entry
  dirtyMono : ∀ x, s.ctx.dirtyMetaLba x = true → s'.ctx.dirtyMetaLba x = true
  dirtyNew : ∀ x, s'.ctx.dirtyMetaLba x = true → s.ctx.dirtyMetaLba x = true ∨ x ∈ s'.req.lbas
  queue : s'.ctx.kvReqQueue = s.ctx.kvReqQueue
  kreqs : s'.ctx.kreqs = s.ctx.kreqs
  metas : s'.ctx.metas = s.ctx.metas

/-- The new blocks of the chain were handed out by the allocator and are dirty. -/
structure Opens (s s' : Sys) : Prop where
  adds : Adds s s'
  opened : ∃ opened : List ℕ, s'.req.cores = s.req.cores ++ opened.map (·, true) ∧
    ∀ x ∈ opened, s'.ctx.dirtyMetaLba x = true

/-- The blocks at the positions in `T` may become dirty, and only their block contexts change. -/
structure Marks (T : Set ℕ) (s s' : Sys) : Prop where
  id : s'.req.id = s.req.id
  req : s'.req.req = s.req.req
  state : s'.req.state = s.req.state
  cores : s'.req.cores = s.req.cores
  entry : s'.req.entry = s.req.entry
  frame : ∀ i ∉ T, s'.req.chain[i]? = s.req.chain[i]?
  dirtyMono : ∀ x, s.ctx.dirtyMetaLba x = true → s'.ctx.dirtyMetaLba x = true
  dirtyNew : ∀ x, s'.ctx.dirtyMetaLba x = true →
    s.ctx.dirtyMetaLba x = true ∨ ∃ p ∈ T, s.req.lbas[p]? = some x
  queue : s'.ctx.kvReqQueue = s.ctx.kvReqQueue
  kreqs : s'.ctx.kreqs = s.ctx.kreqs
  metas : s'.ctx.metas = s.ctx.metas

/-- `_sync_meta_blk_to_queue` for the block `y`: the request waits if the block is dirty, and
otherwise a request that modifies meta blocks marks it. -/
def SyncStep (y : ℕ) (s s' : Sys) : Prop :=
  (s.ctx.dirtyMetaLba y = true ∧ s'.ctx.kvReqQueue = s.ctx.kvReqQueue ++ [s.req.id] ∧
    s'.ctx.dirtyMetaLba = s.ctx.dirtyMetaLba) ∨
  (s.ctx.dirtyMetaLba y = false ∧ s'.ctx.kvReqQueue = s.ctx.kvReqQueue ∧
    s'.ctx.dirtyMetaLba = if modifyMeta s.req.req.opc = true then
      Function.update s.ctx.dirtyMetaLba y true else s.ctx.dirtyMetaLba)

/-- The load of the block `y` at the new end of the chain. -/
structure Issues (y : ℕ) (s s' : Sys) : Prop where
  id : s'.req.id = s.req.id
  req : s'.req.req = s.req.req
  cores : s'.req.cores = s.req.cores ++ [(y, false)]
  entry : s.req.chain ≠ [] → s'.req.entry = s.req.entry
  lastInsert : ∀ c, s'.req.chain.getLast? = some c → c.firstInsertBlkCtx = none
  sync : SyncStep y s s'
  kreqs : s'.ctx.kreqs = s.ctx.kreqs
  metas : s'.ctx.metas = s.ctx.metas

/-- The meta block holds the key of the request and nothing else. -/
def Fresh (req : Req) (m : OndiskMeta) : Prop :=
  iskeysame m.key m.keyLen req.key req.length = true ∧ m.isvalid = true ∧
    m.numValidColEntry = 0 ∧ m.collisionExtensionIndex = 0

/-- The block context at position `p` is fresh. -/
def FreshAt (p : ℕ) (s : Sys) : Prop := Fresh s.req.req (s.req.chain.getD p BlkCtx.zero).blk

/-- The last block context holds the key of the request and nothing else. -/
def FreshLast (s : Sys) : Prop := FreshAt (s.req.chain.length - 1) s

/-- What a handler of the last block context does. -/
inductive Outcome (s s' : Sys) : Status → Prop
  | failed {rc : Status} (hrc : rc ≠ .success) (adds : Adds s s') : Outcome s s' rc
  | opened (opens : Opens s s') (hstate : s'.req.state = s.req.state)
      (fresh : s'.req.chain.length ≠ s.req.chain.length → FreshLast s') : Outcome s s' .success
  | issued (y : ℕ) (issues : Issues y s s')
      (hstate : s'.req.state = .queueToLoadCol ∨ s'.req.state = .queueToLoadColExt) :
      Outcome s s' .success

/-! ### The relations -/

section

variable {s s₁ s₂ : Sys} {T : Set ℕ}

theorem Quiet.length_eq (h : Quiet T s s₁) : s₁.req.chain.length = s.req.chain.length := by
  rw [← Kreq.length_cores, ← Kreq.length_cores, h.cores]

theorem Quiet.marks (h : Quiet T s s₁) : Marks T s s₁ where
  id := h.id
  req := h.req
  state := h.state
  cores := h.cores
  entry := h.entry
  frame := h.frame
  dirtyMono := fun x hx => by rw [h.dirty]; exact hx
  dirtyNew := fun x hx => Or.inl (by rw [← h.dirty]; exact hx)
  queue := h.queue
  kreqs := h.kreqs
  metas := h.metas

theorem Marks.mono {T' : Set ℕ} (h : Marks T s s₁) (hT : T ⊆ T') : Marks T' s s₁ where
  id := h.id
  req := h.req
  state := h.state
  cores := h.cores
  entry := h.entry
  frame := fun i hi => h.frame i fun hi' => hi (hT hi')
  dirtyMono := h.dirtyMono
  dirtyNew := fun x hx => (h.dirtyNew x hx).imp_right fun ⟨p, hp, hx⟩ => ⟨p, hT hp, hx⟩
  queue := h.queue
  kreqs := h.kreqs
  metas := h.metas

theorem Marks.lbas_eq (h : Marks T s s₁) : s₁.req.lbas = s.req.lbas := by
  rw [Kreq.lbas_eq_cores, Kreq.lbas_eq_cores, h.cores]

theorem Marks.length_eq (h : Marks T s s₁) : s₁.req.chain.length = s.req.chain.length := by
  rw [← Kreq.length_cores, ← Kreq.length_cores, h.cores]

instance (T : Set ℕ) : IsPreorder Sys (Marks T) where
  refl s := (refl_of (Quiet T) s).marks
  trans _ _ _ h h' := by
    refine ⟨h'.id.trans h.id, h'.req.trans h.req, h'.state.trans h.state,
      h'.cores.trans h.cores, h'.entry.trans h.entry,
      fun i hi => (h'.frame i hi).trans (h.frame i hi),
      fun x hx => h'.dirtyMono x (h.dirtyMono x hx), fun x hx => ?_, h'.queue.trans h.queue,
      h'.kreqs.trans h.kreqs, h'.metas.trans h.metas⟩
    rcases h'.dirtyNew x hx with hx | hx
    · exact h.dirtyNew x hx
    · rw [h.lbas_eq] at hx
      exact Or.inr hx

theorem Adds.lbas_subset (h : Adds s s₁) : s.req.lbas ⊆ s₁.req.lbas := by
  obtain ⟨l, hl⟩ := h.cores
  rw [Kreq.lbas_eq_cores, Kreq.lbas_eq_cores, ← hl, List.map_append]
  exact List.subset_append_left _ _

theorem Adds.length_le (h : Adds s s₁) : s.req.chain.length ≤ s₁.req.chain.length := by
  have := h.cores.length_le
  rwa [Kreq.length_cores, Kreq.length_cores] at this

theorem Adds.ne_nil (h : Adds s s₁) (hc : s.req.chain ≠ []) : s₁.req.chain ≠ [] := by
  intro hc'
  have hlen := h.length_le
  rw [hc'] at hlen
  exact hc (List.eq_nil_of_length_eq_zero (by simpa using hlen))

theorem Marks.adds (h : Marks T s s₁) : Adds s s₁ where
  id := h.id
  req := h.req
  cores := by rw [h.cores]
  entry := fun _ => h.entry
  dirtyMono := h.dirtyMono
  dirtyNew := fun x hx => by
    rw [h.lbas_eq]
    exact (h.dirtyNew x hx).imp_right fun ⟨_, _, hp⟩ => List.mem_of_getElem? hp
  queue := h.queue
  kreqs := h.kreqs
  metas := h.metas

instance : IsPreorder Sys Adds where
  refl s := (refl_of (Marks ∅) s).adds
  trans _ _ _ h h' := by
    refine ⟨h'.id.trans h.id, h'.req.trans h.req, h.cores.trans h'.cores,
      fun hc => (h'.entry (h.ne_nil hc)).trans (h.entry hc),
      fun x hx => h'.dirtyMono x (h.dirtyMono x hx), fun x hx => ?_, h'.queue.trans h.queue,
      h'.kreqs.trans h.kreqs, h'.metas.trans h.metas⟩
    rcases h'.dirtyNew x hx with h2 | h2
    · exact (h.dirtyNew x h2).imp_right fun h1 => h'.lbas_subset h1
    · exact Or.inr h2

theorem Marks.opens (h : Marks T s s₁) : Opens s s₁ where
  adds := h.adds
  opened := ⟨[], by simp [h.cores], fun _ hx => absurd hx List.not_mem_nil⟩

instance : IsPreorder Sys Opens where
  refl s := (refl_of (Marks ∅) s).opens
  trans _ _ _ h h' := by
    obtain ⟨o, ho, hd⟩ := h.opened
    obtain ⟨o', ho', hd'⟩ := h'.opened
    refine ⟨trans_of Adds h.adds h'.adds, o ++ o', ?_, fun x hx => ?_⟩
    · rw [ho', ho, List.map_append, List.append_assoc]
    · rcases List.mem_append.1 hx with hx | hx
      · exact h'.adds.dirtyMono x (hd x hx)
      · exact hd' x hx

theorem Outcome.quiet_trans {rc : Status} (h : Quiet T s s₁) (h' : Outcome s₁ s₂ rc) :
    Outcome s s₂ rc := by
  have ho : Opens s s₁ := h.marks.opens
  cases h' with
  | failed hrc adds => exact .failed hrc (trans_of Adds ho.adds adds)
  | opened opens hstate fresh =>
    refine .opened (trans_of Opens ho opens) (hstate.trans h.state) fun hlen => fresh ?_
    rw [h.length_eq]
    exact hlen
  | issued y issues hstate =>
    refine .issued y ⟨issues.id.trans h.id, issues.req.trans h.req, ?_, fun hc => ?_,
      issues.lastInsert, ?_, issues.kreqs.trans h.kreqs, issues.metas.trans h.metas⟩ hstate
    · rw [issues.cores, h.cores]
    · exact (issues.entry (ho.adds.ne_nil hc)).trans h.entry
    · have hsync := issues.sync
      rw [SyncStep, h.dirty, h.queue, h.id, h.req] at hsync
      exact hsync

theorem Outcome.of_marks (h : Marks T s s₁) (rc : Status) : Outcome s s₁ rc := by
  by_cases hrc : rc = .success
  · rw [hrc]
    exact .opened h.opens h.state fun hlen => absurd h.length_eq hlen
  · exact .failed hrc h.adds

theorem Outcome.of_quiet (h : Quiet T s s₁) (rc : Status) : Outcome s s₁ rc :=
  .of_marks h.marks rc

end

/-! ### Writes -/

section

variable {P : Params} {s : Sys} {p : ℕ}

theorem Kreq.lbas_getElem? {r : Kreq} (hp : p < r.chain.length) :
    r.lbas[p]? = some (r.chain.getD p BlkCtx.zero).index := by
  unfold Kreq.lbas
  rw [List.getElem?_map, List.getD_eq_getElem?_getD, List.getElem?_eq_getElem hp]
  rfl

section

variable (hP : P.build = .disk)

include hP

theorem writeOndiskBlk_spec (hp : p < s.req.chain.length) :
    wp (fun _ => True) (writeOndiskBlk P p)
      (fun _ s' => Marks {p} s s' ∧
        s'.ctx.dirtyMetaLba (s.req.chain.getD p BlkCtx.zero).index = true ∧
        s'.req.chain = s.req.chain) s := by
  unfold writeOndiskBlk blkAt modifyReq setLbaDirty modifyCtx
  simp only [wp_bind, wp_get, wp_pure, hP, wp_modify]
  refine ⟨⟨rfl, rfl, rfl, rfl, rfl, fun _ _ => rfl, fun x hx => ?_, fun x hx => ?_, rfl, rfl,
    rfl⟩, ?_, trivial⟩
  · simp only [Function.update_apply]
    split_ifs
    · rfl
    · exact hx
  · simp only [Function.update_apply] at hx
    split_ifs at hx with h
    · exact Or.inr ⟨p, rfl, by rw [Kreq.lbas_getElem? hp, h]⟩
    · exact Or.inl hx
  · exact Function.update_self _ _ _

theorem quiet_writeOndiskData {T : Set ℕ} (p : ℕ) : Keeps (Quiet T) (writeOndiskData P p) := by
  unfold writeOndiskData
  refine Keeps.bind (quiet_blkAt p) fun b => Keeps.bind Keeps.get fun s => ?_
  rw [hP]
  refine Keeps.ite (fun _ => Keeps.pure _) fun _ => ?_
  exact quiet_modifyReq (fun _ => rfl) (fun _ => rfl) (fun _ => rfl) fun _ => rfl

/-- The chain of a request and the request itself. -/
def SameChain (s s' : Sys) : Prop := s'.req.chain = s.req.chain ∧ s'.req.req = s.req.req

theorem sameChain_writeOndiskData (p : ℕ) : Keeps SameChain (writeOndiskData P p) := by
  intro s
  simp [writeOndiskData, blkAt, modifyReq, wp_ite, hP, SameChain]

theorem writeMetaAndData_spec (hp : p < s.req.chain.length) :
    wp (fun _ => True) (writeMetaAndData P p)
      (fun _ s' => Marks {p} s s' ∧
        s'.ctx.dirtyMetaLba (s.req.chain.getD p BlkCtx.zero).index = true ∧
        s'.req.chain = s.req.chain) s := by
  unfold writeMetaAndData
  rw [wp_bind]
  refine wp_mono (writeOndiskBlk_spec hP hp) ?_
  rintro - s₁ ⟨hm, hd, hc⟩
  refine ((quiet_writeOndiskData (T := {p}) hP p).and (sameChain_writeOndiskData hP p)).wp_then ?_
  rintro - s₂ ⟨hq, hsame⟩
  refine ⟨trans_of (Marks {p}) hm hq.marks, ?_, hsame.1.trans hc⟩
  rw [hq.dirty]
  exact hd

end

/-! ### New blocks -/

/-- The part of a meta block that its value does not touch. -/
def keyPart (m : OndiskMeta) : List UInt8 × ℕ × Bool × ℕ × ℕ :=
  (m.key, m.keyLen, m.isvalid, m.numValidColEntry, m.collisionExtensionIndex)

/-- What `g` reads in the block context at position `p` stays, and the request. -/
def Stays {γ : Type} (g : BlkCtx → γ) (p : ℕ) (s s' : Sys) : Prop :=
  s'.req.req = s.req.req ∧
    g (s'.req.chain.getD p BlkCtx.zero) = g (s.req.chain.getD p BlkCtx.zero)

section

variable {γ : Type} {g : BlkCtx → γ} {p : ℕ}

instance : IsPreorder Sys (Stays g p) where
  refl _ := ⟨rfl, rfl⟩
  trans _ _ _ h h' := ⟨h'.1.trans h.1, h'.2.trans h.2⟩

theorem stays_modifyBlk {f : BlkCtx → BlkCtx} (hf : ∀ b, g (f b) = g b) :
    Keeps (Stays g p) (modifyBlk p f) := by
  apply Keeps.modify
  intro s
  refine ⟨rfl, ?_⟩
  change g ((s.req.chain.modify p f).getD p BlkCtx.zero) = _
  by_cases hp : p < s.req.chain.length
  · rw [getD_modify hp, hf]
  · rw [List.modify_eq_self (by omega)]

theorem Quiet.stays {T : Set ℕ} {s s' : Sys} (h : Quiet T s s') (hp : p ∉ T) : Stays g p s s' := by
  refine ⟨h.req, ?_⟩
  rw [List.getD_eq_getElem?_getD, List.getD_eq_getElem?_getD, h.frame p hp]

theorem stays_of_quiet {α : Type} {m : M α} (h : Keeps (Quiet ∅) m) : Keeps (Stays g p) m :=
  h.mono fun _ _ hs => hs.stays (Set.notMem_empty p)

end

theorem keyPart_findDataBlocks (p fuel n : ℕ) :
    Keeps (Stays (fun b => keyPart b.blk) p) (findDataBlocks P p fuel n) := by
  induction fuel generalizing n with
  | zero => exact Keeps.throw _
  | succ fuel ih =>
    unfold findDataBlocks
    refine Keeps.ite (fun _ => Keeps.pure _) fun _ =>
      Keeps.bind (stays_of_quiet (quiet_blkAt p)) fun b => ?_
    refine Keeps.ite (fun _ => ?_) fun _ => ?_
    · exact Keeps.bind (stays_of_quiet quiet_recordAllocFailed) fun _ => Keeps.pure _
    · refine Keeps.bind (stays_of_quiet (quiet_allocContig _ _ _)) fun start => ?_
      split
      · refine Keeps.bind (stays_of_quiet (quiet_dssAssert _)) fun _ => ?_
        exact Keeps.bind (stays_modifyBlk fun _ => rfl) fun _ => Keeps.pure _
      · refine Keeps.ite (fun _ => Keeps.pure _) fun _ => Keeps.bind (ih _) fun rc => ?_
        refine Keeps.ite (fun _ => Keeps.pure _) fun _ => Keeps.bind (ih _) fun rc => ?_
        exact Keeps.ite (fun _ => Keeps.pure _) fun _ => Keeps.pure _

theorem keyPart_blkInitValue (p : ℕ) :
    Keeps (Stays (fun b => keyPart b.blk) p) (blkInitValue P p) := by
  unfold blkInitValue
  refine Keeps.bind Keeps.get fun s => Keeps.bind (stays_of_quiet (quiet_blkAt p)) fun b => ?_
  refine Keeps.ite (fun _ => ?_) fun _ => Keeps.ite (fun _ => ?_) fun _ => ?_
  · exact Keeps.bind (stays_modifyBlk fun _ => rfl) fun _ => Keeps.pure _
  · exact Keeps.bind (stays_modifyBlk fun _ => rfl) fun _ => Keeps.pure _
  · refine Keeps.bind (stays_modifyBlk fun _ => rfl) fun _ => ?_
    refine keeps_checked (keyPart_findDataBlocks p _ _) ?_
    refine Keeps.bind (stays_of_quiet (quiet_blkAt p)) fun b => ?_
    refine Keeps.bind (stays_of_quiet (quiet_dssAssert _)) fun _ => ?_
    exact Keeps.bind (stays_modifyBlk fun _ => rfl) fun _ => Keeps.pure _

theorem keyPart_allocMetaBlk (p : ℕ) :
    Keeps (Stays (fun b => keyPart b.blk) p) (allocMetaBlk P p) := by
  unfold allocMetaBlk
  refine Keeps.bind Keeps.get fun s => Keeps.bind (stays_of_quiet (quiet_blkAt p)) fun b => ?_
  refine Keeps.ite (fun _ => Keeps.pure _) fun _ => ?_
  refine Keeps.bind (stays_modifyBlk fun _ => rfl) fun _ => ?_
  refine Keeps.bind (stays_of_quiet (quiet_allocContig _ _ _)) fun start => ?_
  split
  · exact Keeps.pure _
  · exact Keeps.bind (stays_of_quiet (quiet_dssAssert _)) fun _ => Keeps.pure _

theorem rollBack_ne_success (p : ℕ) {rc : Status} (hrc : rc ≠ .success) (s : Sys) :
    wp (fun _ => True) (rollBack p rc) (fun rc' _ => rc' ≠ .success) s := by
  unfold rollBack
  simp only [wp_bind, wp_ite, wp_pure]
  refine wp_true_iff.2 fun _ _ _ => wp_true_iff.2 fun _ _ _ => ⟨fun _ => ?_, fun _ => by decide⟩
  exact wp_true_iff.2 fun _ _ _ => ⟨fun _ => by decide, fun _ => hrc⟩

/-- `init_meta_blk`: the block is dirty and holds the key of the request. -/
theorem initMetaBlk_spec (hP : P.build = .disk) (hp : p < s.req.chain.length) :
    wp (fun _ => True) (initMetaBlk P p)
      (fun rc s' => Marks {p} s s' ∧ (rc = .success → FreshAt p s' ∧
        s'.ctx.dirtyMetaLba (s.req.chain.getD p BlkCtx.zero).index = true)) s := by
  unfold initMetaBlk
  rw [wp_bind, wp_get]
  -- the meta block is cleared and gets the key
  have hzero : wp (fun _ => True)
      (modifyBlk p fun b => { b with
        blk := { OndiskMeta.zero with
          key := memcpy [] s.req.req.key s.req.req.length, keyLen := s.req.req.length
          dataCollisionIndex := if b.dcIndex > 0 then b.dcIndex else 0 } })
      (fun _ s₁ => Quiet {p} s s₁ ∧ keyPart (s₁.req.chain.getD p BlkCtx.zero).blk =
        (memcpy [] s.req.req.key s.req.req.length, s.req.req.length, false, 0, 0)) s := by
    refine wp_true_iff.2 fun a s₁ h₁ => ⟨(quiet_setBlk (Set.mem_singleton p) _).ok h₁, ?_⟩
    cases h₁
    exact congrArg (fun b : BlkCtx => keyPart b.blk) (getD_modify hp _)
  rw [wp_bind]
  refine wp_mono hzero ?_
  rintro - s₁ ⟨hq₁, hk₁⟩
  rw [wp_checked]
  refine wp_mono (((quiet_allocMetaBlk P (Set.mem_singleton p)).and (keyPart_allocMetaBlk p)) s₁) ?_
  rintro rc s₂ ⟨hq₂, hreq₂, hk₂⟩
  have hq := trans_of (Quiet {p}) hq₁ hq₂
  refine ⟨fun hrc => ⟨hq.marks, fun h => absurd h hrc⟩, fun _ => ?_⟩
  have hp₂ : p < s₂.req.chain.length := by rw [hq.length_eq]; exact hp
  have hvalid : wp (fun _ => True)
      (modifyBlk p fun b => { b with blk := { b.blk with isvalid := true } })
      (fun _ s₃ => Quiet {p} s s₃ ∧ keyPart (s₃.req.chain.getD p BlkCtx.zero).blk =
        (memcpy [] s.req.req.key s.req.req.length, s.req.req.length, true, 0, 0)) s₂ := by
    refine wp_true_iff.2 fun a s₃ h₃ => ⟨trans_of (Quiet {p}) hq ((quiet_setBlk (Set.mem_singleton p) _).ok h₃), ?_⟩
    cases h₃
    change keyPart ((s₂.req.chain.modify p _).getD p BlkCtx.zero).blk = _
    rw [getD_modify hp₂]
    have h := hk₂.trans hk₁
    simp only [keyPart, Prod.mk.injEq, true_and] at h ⊢
    exact ⟨h.1, h.2.1, h.2.2.2⟩
  rw [wp_bind]
  refine wp_mono hvalid ?_
  rintro - s₃ ⟨hq₃, hk₃⟩
  rw [wp_bind]
  refine wp_mono (((quiet_blkInitValue P (Set.mem_singleton p)).and (keyPart_blkInitValue p)) s₃) ?_
  rintro rc s₄ ⟨hq₄, hreq₄, hk₄⟩
  have hq' := trans_of (Quiet {p}) hq₃ hq₄
  rw [wp_ite]
  refine ⟨fun hrc => ?_, fun _ => ?_⟩
  · -- the roll back gives the error back
    refine wp_true_iff.2 fun rc' s₅ h₅ => ?_
    have hq₅ := trans_of (Quiet {p}) hq' ((quiet_rollBack p rc).ok h₅)
    exact ⟨hq₅.marks, fun h => absurd h (wp_ok (rollBack_ne_success p hrc s₄) h₅)⟩
  · have hp₄ : p < s₄.req.chain.length := by rw [hq'.length_eq]; exact hp
    rw [wp_checked]
    refine wp_mono (writeMetaAndData_spec hP hp₄) ?_
    rintro rc' s₅ ⟨hm, hd, hc⟩
    have hwritten : FreshAt p s₅ ∧
        s₅.ctx.dirtyMetaLba (s.req.chain.getD p BlkCtx.zero).index = true := ?_
    · have hmarks := trans_of (Marks {p}) hq'.marks hm
      exact ⟨fun _ => ⟨hmarks, fun _ => hwritten⟩, fun _ =>
        wp_true_iff.2 fun _ s₆ h₆ => ⟨trans_of (Marks {p}) hmarks ((quiet_countMetaBlk p).ok h₆).marks,
          fun _ => by cases h₆; exact hwritten⟩⟩
    refine ⟨?_, ?_⟩
    · have hk := hk₄.trans hk₃
      have hr : s₅.req.req = s.req.req := hm.req.trans hq'.req
      simp only [keyPart, Prod.mk.injEq] at hk
      unfold FreshAt Fresh
      rw [hc, hr, hk.1, hk.2.1]
      exact ⟨iskeysame_memcpy _ _ _, hk.2.2⟩
    · have h0 := Kreq.lbas_getElem? hp
      have h4 := Kreq.lbas_getElem? hp₄
      rw [hq'.marks.lbas_eq, h0] at h4
      rw [Option.some.inj h4]
      exact hd

end

/-! ### Blocks at the end of the chain -/

/-- The chain up to position `n` stays, and nothing else but the chain changes. -/
structure Touches (n : ℕ) (s s' : Sys) : Prop where
  id : s'.req.id = s.req.id
  req : s'.req.req = s.req.req
  state : s'.req.state = s.req.state
  length : s'.req.chain.length = s.req.chain.length
  take : s'.req.chain.take n = s.req.chain.take n
  dirty : s'.ctx.dirtyMetaLba = s.ctx.dirtyMetaLba
  queue : s'.ctx.kvReqQueue = s.ctx.kvReqQueue
  kreqs : s'.ctx.kreqs = s.ctx.kreqs
  metas : s'.ctx.metas = s.ctx.metas

instance (n : ℕ) : IsPreorder Sys (Touches n) where
  refl _ := ⟨rfl, rfl, rfl, rfl, rfl, rfl, rfl, rfl, rfl⟩
  trans _ _ _ h h' :=
    ⟨h'.id.trans h.id, h'.req.trans h.req, h'.state.trans h.state, h'.length.trans h.length,
      h'.take.trans h.take, h'.dirty.trans h.dirty, h'.queue.trans h.queue,
      h'.kreqs.trans h.kreqs, h'.metas.trans h.metas⟩

theorem touches_modifyBlk (n : ℕ) (f : BlkCtx → BlkCtx) : Keeps (Touches n) (modifyBlk n f) := by
  apply Keeps.modify
  intro s
  refine ⟨rfl, rfl, rfl, List.length_modify _ _ _, ?_, rfl, rfl, rfl, rfl⟩
  apply List.ext_getElem?
  intro i
  rw [List.getElem?_take, List.getElem?_take]
  split_ifs with hi
  · exact List.getElem?_modify_ne _ _ (by omega)
  · rfl

theorem Quiet.touches {n : ℕ} {s s' : Sys} (h : Quiet {n} s s') : Touches n s s' where
  id := h.id
  req := h.req
  state := h.state
  length := h.length_eq
  take := by
    apply List.ext_getElem?
    intro i
    rw [List.getElem?_take, List.getElem?_take]
    split_ifs with hi
    · exact h.frame i (Nat.ne_of_lt hi)
    · rfl
  dirty := h.dirty
  queue := h.queue
  kreqs := h.kreqs
  metas := h.metas

theorem Keeps.touches {α : Type} {m : M α} {n : ℕ} (h : Keeps (Quiet {n}) m) :
    Keeps (Touches n) m := Keeps.mono h fun _ _ => Quiet.touches

/-- One block context comes to the end of the chain. -/
structure Appends (b : BlkCtx) (s s' : Sys) : Prop where
  id : s'.req.id = s.req.id
  req : s'.req.req = s.req.req
  state : s'.req.state = s.req.state
  chain : s'.req.chain = s.req.chain ++ [b]
  dirty : s'.ctx.dirtyMetaLba = s.ctx.dirtyMetaLba
  queue : s'.ctx.kvReqQueue = s.ctx.kvReqQueue
  kreqs : s'.ctx.kreqs = s.ctx.kreqs
  metas : s'.ctx.metas = s.ctx.metas

theorem Appends.cores {b : BlkCtx} {s s' : Sys} (h : Appends b s s') :
    s'.req.cores = s.req.cores ++ [(b.index, b.nothash)] := by
  unfold Kreq.cores
  rw [h.chain, List.map_append]
  rfl

theorem Appends.adds {b : BlkCtx} {s s' : Sys} (h : Appends b s s') : Adds s s' where
  id := h.id
  req := h.req
  cores := ⟨_, h.cores.symm⟩
  entry := fun hc => by
    unfold Kreq.entry
    rw [h.chain, List.head?_append_of_ne_nil _ hc]
  dirtyMono := fun x hx => by rw [h.dirty]; exact hx
  dirtyNew := fun x hx => Or.inl (by rw [← h.dirty]; exact hx)
  queue := h.queue
  kreqs := h.kreqs
  metas := h.metas

theorem getNextBlkCtx_spec {s : Sys} {p : ℕ} (hlen : s.req.chain.length = p + 1) :
    wp (fun _ => True) (getNextBlkCtx p) (fun _ s' => Appends BlkCtx.zero s s') s := by
  unfold getNextBlkCtx modifyReq
  rw [wp_modify]
  dsimp only
  rw [if_pos hlen]
  exact ⟨rfl, rfl, rfl, rfl, rfl, rfl, rfl, rfl⟩

theorem Appends.touches {b : BlkCtx} {s s₁ s₂ : Sys} {n : ℕ} (hlen : s.req.chain.length = n)
    (h : Appends b s s₁) (h' : Touches n s₁ s₂) :
    Appends (s₂.req.chain.getD n BlkCtx.zero) s s₂ := by
  refine ⟨h'.id.trans h.id, h'.req.trans h.req, h'.state.trans h.state, ?_,
    h'.dirty.trans h.dirty, h'.queue.trans h.queue, h'.kreqs.trans h.kreqs,
    h'.metas.trans h.metas⟩
  have htake : s₂.req.chain.take n = s.req.chain := by
    rw [h'.take, h.chain, List.take_left' hlen]
  have hlen₂ : s₂.req.chain.length = n + 1 := by
    rw [h'.length, h.chain, List.length_append, hlen]
    rfl
  have hn : n < s₂.req.chain.length := by omega
  conv_lhs => rw [← List.take_append_drop n s₂.req.chain, htake, List.drop_eq_getElem_cons hn,
    List.drop_eq_nil_of_le (by omega)]
  rw [List.getD_eq_getElem?_getD, List.getElem?_eq_getElem hn]
  rfl

theorem touches_allocFreeBlk (n hint valueBlocks : ℕ) :
    Keeps (Touches n) (allocFreeBlk n hint valueBlocks) := by
  have halloc : ∀ state hint k, Keeps (Touches n) (allocContig state hint k) := fun _ _ _ =>
    Keeps.touches (quiet_allocContig _ _ _)
  have hset : ∀ index k state, Keeps (Touches n) (setBlkState true index k state) := fun _ _ _ =>
    Keeps.touches (quiet_setBlkState _ _ _ _)
  unfold allocFreeBlk
  refine Keeps.bind (halloc _ _ _) fun start => ?_
  split
  · refine Keeps.bind (halloc _ _ _) fun start => ?_
    split
    · exact Keeps.pure _
    · exact Keeps.bind (touches_modifyBlk n _) fun _ => Keeps.pure _
  · refine Keeps.bind (touches_modifyBlk n _) fun _ => Keeps.bind (hset _ _ _) fun rc => ?_
    refine Keeps.ite (fun _ => ?_) fun _ => Keeps.pure _
    exact Keeps.bind (hset _ _ _) fun _ => Keeps.pure _

section

variable {P : Params} {s : Sys} {p : ℕ}

theorem Appends.getD {b : BlkCtx} {s' : Sys} (h : Appends b s s') :
    s'.req.chain.getD s.req.chain.length BlkCtx.zero = b := by
  rw [h.chain, List.getD_eq_getElem?_getD, List.getElem?_append_right (le_refl _)]
  simp

theorem Appends.length {b : BlkCtx} {s' : Sys} (h : Appends b s s') :
    s'.req.chain.length = s.req.chain.length + 1 := by
  rw [h.chain, List.length_append]
  rfl

theorem Appends.frame {b : BlkCtx} {s' : Sys} (h : Appends b s s') {i : ℕ}
    (hi : i < s.req.chain.length) : s'.req.chain[i]? = s.req.chain[i]? := by
  rw [h.chain, List.getElem?_append_left hi]

/-- What `open_free_blk` leaves for the block contexts that were there, and the new one. -/
structure Opened (s s' : Sys) (rc : Status) : Prop where
  adds : Adds s s'
  state : s'.req.state = s.req.state
  length : s'.req.chain.length = s.req.chain.length + 1
  frame : ∀ i < s.req.chain.length, s'.req.chain[i]? = s.req.chain[i]?
  opens : rc = .success → Opens s s'
  fresh : rc = .success → FreshAt s.req.chain.length s'

theorem openFreeBlk_spec (hP : P.build = .disk) (hlen : s.req.chain.length = p + 1) :
    wp (fun _ => True) (openFreeBlk P p) (fun r s' => Opened s s' r.1) s := by
  unfold openFreeBlk
  rw [wp_bind]
  refine wp_mono (getNextBlkCtx_spec hlen) fun _ s₁ h₁ => ?_
  rw [wp_bind, wp_get, wp_bind, wp_blkAt]
  refine (touches_modifyBlk (p + 1) _).wp_then fun _ s₂ h₂ => ?_
  refine (touches_allocFreeBlk (p + 1) _ _).wp_then fun ok s₃ h₃ => ?_
  have happ := h₁.touches hlen (trans_of (Touches (p + 1)) h₂ h₃)
  rw [wp_ite]
  refine ⟨fun _ => ?_, fun _ => ?_⟩
  · rw [wp_bind]
    refine wp_true_iff.2 fun _ s₄ h₄ => ?_
    have happ₄ := h₁.touches hlen (trans_of (Touches (p + 1)) (trans_of (Touches (p + 1)) h₂ h₃)
      ((touches_modifyBlk (p + 1) _).ok h₄))
    have hp₃ : p + 1 < s₃.req.chain.length := by rw [happ.length, hlen]; omega
    have hp₄ : p + 1 < s₄.req.chain.length := by rw [happ₄.length, hlen]; omega
    have hnothash : (s₄.req.chain.getD (p + 1) BlkCtx.zero).nothash = true := by
      cases h₄
      exact congrArg BlkCtx.nothash (getD_modify hp₃ _)
    rw [wp_bind]
    refine wp_mono (initMetaBlk_spec hP hp₄) ?_
    rintro rc s₅ ⟨hm, hok⟩
    rw [wp_bind, wp_blkAt, wp_pure]
    refine ⟨trans_of Adds happ₄.adds hm.adds, hm.state.trans happ₄.state, hm.length_eq.trans happ₄.length, fun i hi => ?_,
      fun hrc => ⟨trans_of Adds happ₄.adds hm.adds,
        [(s₄.req.chain.getD (p + 1) BlkCtx.zero).index], ?_, ?_⟩, fun hrc => ?_⟩
    · exact (hm.frame i (by rw [← hlen]; exact Nat.ne_of_lt hi)).trans (happ₄.frame hi)
    · rw [hm.cores, happ₄.cores, hnothash]
      rfl
    · intro x hx
      rw [List.mem_singleton.1 hx]
      exact (hok hrc).2
    · rw [hlen]
      exact (hok hrc).1
  · have hrc : Status.rollBackError ≠ .success := by decide
    exact ⟨happ.adds, happ.state, happ.length, fun i hi => happ.frame hi, fun h => absurd h hrc,
      fun h => absurd h hrc⟩

theorem FreshAt.of_frame {s' : Sys} {q : ℕ} (h : FreshAt q s) (hreq : s'.req.req = s.req.req)
    (hq : s'.req.chain[q]? = s.req.chain[q]?) : FreshAt q s' := by
  unfold FreshAt at *
  rw [hreq, List.getD_eq_getElem?_getD, hq, ← List.getD_eq_getElem?_getD]
  exact h

/-- A handler that opened a block and then worked on the block before it. -/
theorem Opened.outcome {s₁ s₂ : Sys} {T : Set ℕ} (h : Opened s s₁ .success) (h' : Marks T s₁ s₂)
    (hT : s.req.chain.length ∉ T) (rc : Status) : Outcome s s₂ rc := by
  by_cases hrc : rc = .success
  · rw [hrc]
    refine .opened (trans_of Opens (h.opens rfl) h'.opens) (h'.state.trans h.state) fun _ => ?_
    unfold FreshLast
    rw [h'.length_eq, h.length, Nat.add_sub_cancel]
    exact (h.fresh rfl).of_frame h'.req (h'.frame _ hT)
  · exact .failed hrc (trans_of Adds h.adds h'.adds)

end

/-! ### Loads -/

/-- A load of the block `y`, as the meta synchronisation sees it. -/
structure Synced (y : ℕ) (s s' : Sys) : Prop where
  id : s'.req.id = s.req.id
  req : s'.req.req = s.req.req
  state : s'.req.state = s.req.state
  chain : s'.req.chain = s.req.chain
  sync : SyncStep y s s'
  kreqs : s'.ctx.kreqs = s.ctx.kreqs
  metas : s'.ctx.metas = s.ctx.metas

section

variable {P : Params} {s : Sys} {p : ℕ}

theorem syncMetaBlkToQueue_spec :
    wp (fun _ => True) (syncMetaBlkToQueue p)
      (fun _ s' => Synced (s.req.chain.getD p BlkCtx.zero).index s s') s := by
  unfold syncMetaBlkToQueue modifyCtx setLbaDirty modifyCtx
  simp only [wp_bind, wp_get, wp_blkAt, wp_ite, wp_modify, wp_pure]
  refine ⟨fun hd => ?_, fun hd => ⟨fun hm => ?_, fun hm => ?_⟩⟩
  · exact ⟨rfl, rfl, rfl, rfl, Or.inl ⟨hd, rfl, rfl⟩, rfl, rfl⟩
  · exact ⟨rfl, rfl, rfl, rfl, Or.inr ⟨by simpa using hd, rfl, by rw [if_pos hm]⟩, rfl, rfl⟩
  · exact ⟨rfl, rfl, rfl, rfl, Or.inr ⟨by simpa using hd, rfl, by rw [if_neg hm]⟩, rfl, rfl⟩

theorem loadOndiskBlk_spec (hP : P.build = .disk) :
    wp (fun _ => True) (loadOndiskBlk P p)
      (fun rc s' => rc = .ioSubmitted ∧ Synced (s.req.chain.getD p BlkCtx.zero).index s s') s := by
  unfold loadOndiskBlk
  rw [hP, wp_bind, wp_blkAt]
  refine (quiet_dssAssert (T := ∅) _).wp_then fun _ s₁ h₁ => ?_
  refine (quiet_recordLoad (T := ∅) _).wp_then fun _ s₂ h₂ => ?_
  have hio : Keeps (Quiet ∅)
      (modifyReq fun r => { r with io := r.io ++ [.readMeta p], ioToQueue := false }) :=
    quiet_modifyReq (fun _ => rfl) (fun _ => rfl) (fun _ => rfl) fun _ => rfl
  refine hio.wp_then fun _ s₃ h₃ => ?_
  have hq := trans_of (Quiet ∅) (trans_of (Quiet ∅) h₁ h₂) h₃
  have hchain : s₃.req.chain = s.req.chain :=
    List.ext_getElem? fun i => hq.frame i (Set.notMem_empty i)
  rw [wp_bind]
  refine wp_mono syncMetaBlkToQueue_spec fun _ s₄ h₄ => ?_
  rw [wp_pure]
  rw [hchain] at h₄
  have hsync := h₄.sync
  rw [SyncStep, hq.dirty, hq.queue, hq.id, hq.req] at hsync
  exact ⟨rfl, h₄.id.trans hq.id, h₄.req.trans hq.req, h₄.state.trans hq.state,
    h₄.chain.trans hchain, hsync, h₄.kreqs.trans hq.kreqs, h₄.metas.trans hq.metas⟩

theorem stays_getBlkState {γ : Type} {g : BlkCtx → γ}
    (hg : ∀ b st, g { b with state := st } = g b) : Keeps (Stays g p) (getBlkState p) := by
  unfold getBlkState
  refine Keeps.bind (stays_of_quiet (quiet_blkAt p)) fun b => ?_
  refine Keeps.bind (stays_of_quiet (quiet_readBlkState _)) fun st => ?_
  split
  · exact Keeps.pure _
  · exact Keeps.bind (stays_modifyBlk fun b => hg b _) fun _ => Keeps.pure _

theorem loadNext_spec (hP : P.build = .disk) (hlen : s.req.chain.length = p + 1) (y : ℕ)
    (successStat : ReqState) {queueStat : ReqState}
    (hstat : queueStat = .queueToLoadCol ∨ queueStat = .queueToLoadColExt) :
    wp (fun _ => True) (loadNext P p y successStat queueStat) (fun rc s' => Outcome s s' rc) s := by
  unfold loadNext
  rw [wp_bind]
  refine wp_mono (getNextBlkCtx_spec hlen) fun _ s₁ h₁ => ?_
  rw [wp_bind]
  refine wp_true_iff.2 fun _ s₂ h₂ => ?_
  have h₁₂ := h₁.touches hlen ((touches_modifyBlk (p + 1) _).ok h₂)
  have hb : s₂.req.chain.getD (p + 1) BlkCtx.zero = { BlkCtx.zero with index := y } := by
    have hlen₁ : p + 1 < s₁.req.chain.length := by rw [h₁.length, hlen]; omega
    cases h₂
    change (s₁.req.chain.modify (p + 1) _).getD (p + 1) BlkCtx.zero = _
    rw [getD_modify hlen₁, ← hlen, h₁.getD]
  rw [wp_checked]
  refine wp_mono (((quiet_getBlkState (Set.mem_singleton (p + 1))).and
    (stays_getBlkState (g := fun b => (b.index, b.firstInsertBlkCtx)) fun _ _ => rfl)) s₂) ?_
  rintro rc s₃ ⟨h₃, -, hb₃⟩
  have hadds : Adds s s₃ := trans_of Adds h₁₂.adds h₃.marks.adds
  refine ⟨fun hrc => .failed hrc hadds, fun _ => ?_⟩
  rw [hb] at hb₃
  obtain ⟨hindex, hinsert⟩ := Prod.mk.inj hb₃
  rw [wp_bind]
  refine wp_mono (loadOndiskBlk_spec hP) ?_
  rintro rc s₄ ⟨rfl, h₄⟩
  rw [hindex] at h₄
  unfold updateKreqStatAfterIo modifyReq
  rw [wp_bind, wp_modify, wp_pure]
  have hlen₃ : s₃.req.chain.length = p + 1 + 1 := by rw [h₃.length_eq, h₁₂.length, hlen]
  have hsync := h₄.sync
  rw [SyncStep, h₃.dirty, h₁₂.dirty, h₃.queue, h₁₂.queue, h₃.id, h₁₂.id, h₃.req, h₁₂.req] at hsync
  refine .issued y ⟨h₄.id.trans hadds.id, h₄.req.trans hadds.req, ?_, fun hc => ?_, fun c hc => ?_,
    hsync, h₄.kreqs.trans hadds.kreqs, h₄.metas.trans hadds.metas⟩ hstat
  · change s₄.req.chain.map _ = _
    rw [h₄.chain]
    change s₃.req.cores = _
    rw [h₃.cores, h₁₂.cores, hb]
    rfl
  · change s₄.req.chain.head?.map _ = _
    rw [h₄.chain]
    exact hadds.entry hc
  · change s₄.req.chain.getLast? = some c at hc
    rw [h₄.chain, List.getLast?_eq_getElem?, hlen₃] at hc
    rw [List.getD_eq_getElem?_getD, show p + 1 = p + 1 + 1 - 1 from rfl, hc] at hinsert
    exact hinsert

end

end DssSdk.Kvtrans
