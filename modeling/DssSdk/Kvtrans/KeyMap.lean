import DssSdk.Lib.Run
import DssSdk.Kvtrans.EntryBlock

/-!
# The translator as a map

While every key has an entry block of its own the translator is a finite map from keys to values: each
request, run to its end in the memory build, answers what the map does and leaves the map that follows.

* `keyOps_on`, `valOps_on`: the loops of a request on one block;
* `execute_conforms`: one request, for each operation;
* `conforms_of_run`: every run from an empty device.
-/

namespace DssSdk.Kvtrans.KeyMap

open BlockAllocator Program Extents Device

section

variable {P : Params} {D : Device} {q : Req} {st : ReqState} {b : BlkCtx} {s s' : Sys}

/-! ### STORE and DELETE -/

theorem wp_keyOps {E : Fault → Prop} {Q : Status × Bool → Sys → Prop} {n : ℕ} {s : Sys}
    (h : wp E (keyOpsIter P) (fun r s' => (∀ rc, r = some rc → Q (rc, true) s') ∧
      (r = none → s'.req.state ≠ s.req.state ∧ wp E (keyOps P n) Q s')) s) :
    wp E (keyOps P (n + 1)) Q s := by
  unfold keyOps
  rw [wp_bind, wp_get, wp_bind]
  refine wp_mono h fun r s' hr => ?_
  cases r with
  | some rc => exact hr.1 rc rfl
  | none =>
    obtain ⟨hne, hrest⟩ := hr.2 rfl
    dsimp only
    rw [wp_bind, wp_get, if_pos hne]
    exact hrest

theorem keyOps_closes (hP : P.build = .memory) (h : On P D q .queueToStartIo b s) (n : ℕ) :
    wp (fun _ => False) (keyOps P (n + 3)) (fun r s' => r = (.success, true) ∧ On P D q .reqCmpl b s')
      s := by
  have hdisk : ¬ P.build = .disk := by rw [hP]; decide
  refine wp_keyOps ?_
  unfold keyOpsIter
  rw [wp_bind, wp_get, h.state]
  dsimp only
  rw [if_neg fun h0 => hdisk h0.1, wp_bind]
  refine h.wp_setState (by decide) fun s₁ h₁ _ => ⟨by rintro rc ⟨⟩, fun _ => ⟨by rw [h₁.state]; decide, ?_⟩⟩
  refine wp_keyOps ?_
  unfold keyOpsIter
  rw [wp_bind, wp_get, h₁.state]
  dsimp only
  rw [wp_bind]
  refine h₁.wp_setState (by decide) fun s₂ h₂ _ =>
    ⟨by rintro rc ⟨⟩, fun _ => ⟨by rw [h₂.state]; decide, ?_⟩⟩
  refine wp_keyOps ?_
  unfold keyOpsIter
  rw [wp_bind, wp_get, h₂.state]
  dsimp only
  rw [if_neg hdisk, wp_bind, wp_pure, wp_pure]
  refine ⟨?_, by rintro ⟨⟩⟩
  rintro rc ⟨⟩
  exact ⟨rfl, h₂⟩

/-- `req_terminate`. -/
theorem reqTerminate_on (hP : P.build = .memory) (h : On P D q st b s) (rc : Status) :
    wp (fun _ => False) (reqTerminate P rc) (fun rc' s' => rc' = rc ∧ On P D q .reqCmpl b s' ∧
      s'.req.allocFailed = s.req.allocFailed) s := by
  unfold reqTerminate
  rw [wp_bind]
  refine h.wp_setState (by decide) fun s₁ h₁ hfailed => ?_
  rw [hP]
  exact ⟨rfl, h₁, hfailed⟩

/-- The request is complete, with a status, the device and the record of its allocations. -/
def Ends (P : Params) (q : Req) (R : Status → Device → Bool → Prop) (r : Status × Bool) (s : Sys) : Prop :=
  r.2 = true ∧ ∃ D b, On P D q .reqCmpl b s ∧ R r.1 D s.req.allocFailed

/-- The end of the call after an iteration of the loop. -/
def Goes (P : Params) (E : Status × Bool → Sys → Prop) (n : ℕ) (r : Option Status) (s : Sys) : Prop :=
  (∀ rc, r = some rc → E (rc, true) s) ∧
    (r = none → s.req.state = .queueToStartIo ∧ wp (fun _ => False) (keyOps P n) E s)

theorem goesOn_memory (hP : P.build = .memory) {R : Status → Device → Bool → Prop} (n : ℕ)
    (hmono : ∀ D' f f', R .success D' f → R .success D' f') :
    GoesOn P q R (Goes P (Ends P q R) (n + 3)) := by
  intro handler s hhandler
  rw [wp_bind]
  refine wp_mono hhandler ?_
  rintro rc s₁ ⟨D', b', -, hR, hon⟩
  have h₁ : On P D' q .entryLoadingDone b' s₁ := hon.elim id fun h => (lands_memory hP).1 h.2
  unfold orTerminate
  rw [wp_ite]
  refine ⟨fun hne => ?_, fun hok => ?_⟩
  · rw [wp_map]
    refine wp_mono (reqTerminate_on hP h₁ rc) ?_
    rintro rc' s₂ ⟨rfl, h₂, hfailed⟩
    refine ⟨?_, by rintro ⟨⟩⟩
    rintro rc ⟨⟩
    exact ⟨rfl, D', b', h₂, by rwa [hfailed]⟩
  · obtain rfl := not_not.1 hok
    unfold startIoFrom modifyReq
    rw [wp_bind, wp_modify, wp_pure]
    dsimp only
    rw [if_pos h₁.state]
    have h₂ : On P D' q .queueToStartIo b' ⟨s₁.ctx, { s₁.req with state := .queueToStartIo }⟩ :=
      ⟨h₁.ctx, h₁.chain, h₁.req, rfl, calm_memory hP⟩
    refine ⟨by rintro rc ⟨⟩, fun _ => ⟨rfl, wp_mono (keyOps_closes hP h₂ n) ?_⟩⟩
    rintro r s₃ ⟨rfl, h₃⟩
    exact ⟨rfl, D', b', h₃, hmono D' _ _ hR⟩

theorem on_init (hP : P.build = .memory) {c : Ctx} (h : Shows P D c) :
    On P D q .reqInitialized BlkCtx.zero ⟨c, initKvtransReq 0 q⟩ :=
  ⟨h, rfl, rfl, rfl, calm_memory hP⟩

/-- The entry block is known after `_alloc_entry_block`. -/
theorem Arrives.entered (hP : P.build = .memory) (h : Arrives P D q b s) :
    ∃ b', Entered P D q b b' ∧ On P D q .entryLoadingDone b' s := by
  rcases h with h | ⟨hdisk, -⟩
  · exact h
  · rw [hP] at hdisk
    cases hdisk

variable {m : Map}

/-- The iteration of the loop of `_kvtrans_key_ops` on the entry block. -/
theorem keyOps_entry {E : Status × Bool → Sys → Prop} {n : ℕ} {b' : BlkCtx}
    (hgo : GoesOn P q (KeyOpsPost P m q D) (Goes P E n)) (hsize : 0 < P.blkSize)
    (h : On P D q .entryLoadingDone b' s) (hent : Entered P D q b b') (hrep : Represents P ∅ m D)
    (hin : P.InRange (P.hash (keyOf q)) 1) (hcontig : b.iscontig = false)
    (hflag : b.flag = if q.opc = .store then .newWrite else .toDelete)
    (hopc : q.opc = .delete ∨ q.opc = .store ∧ Storable P m D q) :
    wp (fun _ => False) (keyOps P (n + 1)) E s := by
  refine wp_keyOps ?_
  unfold keyOpsIter
  rw [wp_bind, wp_get, h.state]
  dsimp only
  have hflag' := hent.flag.trans hflag
  have hgoes : wp (fun _ => False) (entryLoadingDone P) (Goes P E n) s := by
    rcases hopc with hdel | ⟨hstore, hable⟩
    · rw [hdel, if_neg (by decide)] at hflag'
      exact entryLoadingDone_delete hgo h hent hrep hin hflag' hdel
    · rw [hstore, if_pos rfl] at hflag'
      exact entryLoadingDone_store hgo hsize h hent hrep hin hflag' (hent.iscontig.trans hcontig) hstore
        hable
  refine wp_mono hgoes fun r s₁ h₁ => ⟨h₁.1, fun hr => ?_⟩
  obtain ⟨hst, hrest⟩ := h₁.2 hr
  exact ⟨by rw [hst]; decide, hrest⟩

/-- The block context of a STORE or a DELETE before `_alloc_entry_block`. -/
def keyBlk (q : Req) : BlkCtx :=
  { BlkCtx.zero with flag := if q.opc = .store then .newWrite else .toDelete }

theorem keyOpsIter_init (hpos : 0 < P.blkOffset) (h : On P D q .reqInitialized BlkCtx.zero s)
    (hrep : Represents P ∅ m D) (hkey : iskeynull q.key = false) (hin : P.InRange (P.hash (keyOf q)) 1)
    (hopc : q.opc = .delete ∨ q.opc = .store) :
    wp (fun _ => False) (keyOpsIter P) (fun r s' => r = none ∧ Arrives P D q (keyBlk q) s') s := by
  unfold keyOpsIter
  rw [wp_bind, wp_get, h.state]
  dsimp only
  rw [wp_bind]
  refine h.wp_modifyBlk fun s₁ h₁ => ?_
  have hblk : { BlkCtx.zero with
      iscontig := false
      flag := if s.req.req.opc = .store then .newWrite
        else if s.req.req.opc = .delete then .toDelete else BlkCtx.zero.flag } = keyBlk q := by
    unfold keyBlk
    rw [h.req]
    rcases hopc with hopc | hopc
    · rw [hopc]
      rfl
    · rw [hopc]
      rfl
  rw [hblk] at h₁
  rw [wp_bind]
  refine wp_mono (allocEntryBlock_on h₁ hpos hkey hin hrep) ?_
  rintro rc s₂ ⟨rfl, harrives⟩
  exact ⟨rfl, harrives⟩

/-- The loop of `_kvtrans_key_ops`. -/
theorem keyOps_on (hP : P.build = .memory) (hsize : 0 < P.blkSize) (hpos : 0 < P.blkOffset)
    (h : On P D q .reqInitialized BlkCtx.zero s) (hrep : Represents P ∅ m D)
    (hkey : iskeynull q.key = false) (hin : P.InRange (P.hash (keyOf q)) 1)
    (hopc : q.opc = .delete ∨ q.opc = .store ∧ Storable P m D q) (n : ℕ) :
    wp (fun _ => False) (keyOps P (n + 5)) (Ends P q (KeyOpsPost P m q D)) s := by
  refine wp_keyOps ?_
  refine wp_mono (keyOpsIter_init hpos h hrep hkey hin (hopc.imp_right And.left)) ?_
  rintro r s₁ ⟨rfl, harrives⟩
  obtain ⟨b₁, hent, h₁⟩ := harrives.entered hP
  refine ⟨by rintro rc ⟨⟩, fun _ => ⟨by rw [h₁.state, h.state]; decide, ?_⟩⟩
  exact keyOps_entry (goesOn_memory hP n fun _ _ _ h => h.success) hsize h₁ hent hrep hin rfl rfl hopc

/-! ### RETRIEVE and EXIST -/

theorem wp_valOps {E : Fault → Prop} {Q : Status × Bool → Sys → Prop} {cb : Bool} {rc : Status} {n : ℕ}
    (h : wp E (valOpsIter P cb rc) (fun r s' => (∀ rc', r.1 = some rc' → Q (rc', true) s') ∧
      (r.1 = none → s'.req.state ≠ s.req.state ∧ wp E (valOps P cb n r.2) Q s')) s) :
    wp E (valOps P cb (n + 1) rc) Q s := by
  unfold valOps
  rw [wp_bind, wp_get, wp_bind]
  refine wp_mono h fun r s' hr => ?_
  obtain ⟨r₁, r₂⟩ := r
  cases r₁ with
  | some rc => exact hr.1 rc rfl
  | none =>
    obtain ⟨hne, hrest⟩ := hr.2 rfl
    dsimp only
    rw [wp_bind, wp_get, if_pos hne]
    exact hrest

theorem valOps_closes {cb : Bool} {rc : Status} {Q : Status × Bool → Sys → Prop}
    (h : s.req.state = .reqCmpl) (hQ : Q (rc, true) s) (n : ℕ) :
    wp (fun _ => False) (valOps P cb (n + 1) rc) Q s := by
  refine wp_valOps ?_
  unfold valOpsIter
  rw [wp_bind, wp_get, h]
  dsimp only
  rw [wp_pure]
  refine ⟨?_, by rintro ⟨⟩⟩
  rintro rc' ⟨⟩
  exact hQ

/-- `_blk_load_value`. -/
theorem blkLoadValue_on (hP : P.build = .memory) (h : On P D q st b s) :
    wp (fun _ => False) (blkLoadValue P 0) (fun rc s' => rc = .success ∧ On P D q .reqCmpl b s' ∧
      s'.req.value = storedValue D.datas b.blk) s := by
  unfold blkLoadValue storedValue
  rw [wp_bind, h.wp_blkAt, wp_bind, wp_get, wp_ite]
  refine ⟨fun hloc => ?_, fun hloc => ?_⟩
  · unfold modifyReq
    rw [wp_bind, wp_modify, if_pos hloc]
    exact ⟨rfl, ⟨h.ctx, h.chain, h.req, rfl, calm_memory hP⟩, rfl⟩
  · rw [hP]
    dsimp only
    unfold modifyReq
    rw [wp_bind, wp_modify, if_neg hloc, ← h.ctx.datas]
    exact ⟨rfl, ⟨h.ctx, h.chain, h.req, rfl, calm_memory hP⟩, rfl⟩

/-- The loop of `_kvtrans_val_ops`. -/
theorem valOps_on (hP : P.build = .memory) (hpos : 0 < P.blkOffset) {cb : Bool} {rc : Status}
    (h : On P D q .reqInitialized BlkCtx.zero s) (hrep : Represents P ∅ m D)
    (hkey : iskeynull q.key = false) (hin : P.InRange (P.hash (keyOf q)) 1) (n : ℕ) :
    wp (fun _ => False) (valOps P cb (n + 3) rc) (ValOpsPost P Eq m q D cb) s := by
  refine wp_valOps ?_
  unfold valOpsIter
  rw [wp_bind, wp_get, h.state]
  dsimp only
  rw [wp_bind]
  refine wp_mono (allocEntryBlock_on h hpos hkey hin hrep) ?_
  rintro rc s₁ ⟨rfl, harrives⟩
  obtain ⟨b₁, hent, h₁⟩ := harrives.entered hP
  rw [wp_pure]
  refine ⟨by rintro rc ⟨⟩, fun _ => ⟨by rw [h₁.state]; decide, wp_valOps ?_⟩⟩
  -- the request is complete, and the next iteration returns
  have hends : ∀ rc s', ValOpsPost P Eq m q D cb (rc, true) s' →
      s'.req.state ≠ s₁.req.state ∧ wp (fun _ => False) (valOps P cb (n + 1) rc)
        (ValOpsPost P Eq m q D cb) s' := by
    intro rc s' hpost
    obtain ⟨b', hon⟩ := hpost.2.1
    exact ⟨by rw [hon.state, h₁.state]; decide, valOps_closes hon.state hpost n⟩
  refine valOpsIter_entry h₁ hent hrep hin
    (fun rc s' hpost => ⟨by rintro rc ⟨⟩, fun _ => hends rc s' hpost⟩) fun _ v hv hblk => ?_
  refine wp_mono (blkLoadValue_on hP h₁) ?_
  rintro rc s₂ ⟨rfl, h₂, hvalue⟩
  refine ⟨by rintro rc ⟨⟩, fun _ => hends _ s₂ ⟨rfl, ⟨_, h₂⟩, by rw [hv]; rfl, fun _ w hw => ?_⟩⟩
  rw [hvalue, hblk.value]
  rw [hv] at hw
  exact Option.some.inj hw

end

/-! ### Requests, one after the other -/

/-- The reply to a request is the one of the map; a STORE succeeds, or it found no room. -/
def Conforms (m : Map) (q : Req) (rep : Reply) : Prop :=
  match q.opc with
  | .store => rep.status = .success ∨ rep.allocFailed = true
  | .delete | .exist => rep.status = if (m (keyOf q)).isSome then .success else .notFound
  | .retrieve => rep.status = (if (m (keyOf q)).isSome then .success else .notFound) ∧
      ∀ v, m (keyOf q) = some v → rep.value = v

/-- The map after a request; a STORE that found no room changes nothing. -/
def nextMap (m : Map) (q : Req) (rep : Reply) : Map :=
  match q.opc with
  | .store => if rep.status = .success then Function.update m (keyOf q) (some q.value) else m
  | .delete => Function.update m (keyOf q) none
  | .retrieve | .exist => m

variable (P : Params)

/-- The device of a translator. -/
def deviceOf (c : Ctx) : Device := ⟨c.alloc.alloc.cellOf, c.metas, c.datas⟩

/-- A request of a client: its key is not null and has a block, and the device can take the value of a
STORE. -/
structure Regular (x : Ctx × Map) (q : Req) : Prop where
  key : iskeynull q.key = false
  block : P.InRange (P.hash (keyOf q)) 1
  store : q.opc = .store → Storable P x.2 (deviceOf x.1) q

/-- The translator and the map beside it, after a request. -/
def step (x : Ctx × Map) (q : Req) : Option (Ctx × Map) :=
  match execute P x.1 q with
  | .error _ => none
  | .ok rep => some (rep.ctx, nextMap x.2 q rep)

/-- A request is answered as the map does. -/
def Answered (x : Ctx × Map) (q : Req) : Prop := ∃ rep, execute P x.1 q = .ok rep ∧ Conforms x.2 q rep

/-- The translator holds the map. -/
def Serving (x : Ctx × Map) : Prop := ∃ D, Shows P D x.1 ∧ Represents P ∅ x.2 D

section

variable {P} {D : Device} {q : Req} {m : Map} {c : Ctx}

theorem Regular.storable {y : Ctx × Map} (hq : Regular P y q) (hshows : Shows P D y.1)
    (hopc : q.opc = .store) : Storable P y.2 D q := by
  obtain ⟨hfits, hlarge, hentry⟩ := hq.store hopc
  refine ⟨hfits, hlarge, hentry.imp (fun h0 => ?_) fun ⟨hsome, hroom⟩ => ⟨hsome, fun blk hblk => ?_⟩⟩
  · rwa [← hshows.cell _ hq.block.1]
  · rw [← hshows.metas] at hblk
    refine (hroom blk hblk).imp id fun h0 => h0.congr fun x hx => ?_
    unfold fill deviceOf
    dsimp only
    rw [hshows.cell x hx]

theorem execute_of_call {Q : Status → Sys → Prop}
    (h : wp (fun _ => False) (kvtransCall P) (fun r s => r.2 = true ∧ Q r.1 s) ⟨c, initKvtransReq 0 q⟩) :
    ∃ rc s, execute P c q = .ok ⟨rc, s.req.value, s.req.allocFailed, s.ctx⟩ ∧ Q rc s := by
  have hproc : wp (fun _ => False) (kvProcess P (4 * P.blkNum + 15 + 1)) Q ⟨c, initKvtransReq 0 q⟩ := by
    unfold kvProcess
    rw [wp_bind]
    refine wp_mono h ?_
    rintro ⟨rc, returned⟩ s ⟨rfl, hQ⟩
    exact hQ
  obtain ⟨rc, s, hok, hQ⟩ := wp_false_iff.1 hproc
  refine ⟨rc, s, ?_, hQ⟩
  unfold execute fuel
  rw [hok]

theorem execute_keyOps (hP : P.build = .memory) (hsize : 0 < P.blkSize) (hpos : 0 < P.blkOffset)
    (hshows : Shows P D c) (hrep : Represents P ∅ m D) (hkey : iskeynull q.key = false)
    (hin : P.InRange (P.hash (keyOf q)) 1)
    (hopc : q.opc = .delete ∨ q.opc = .store ∧ Storable P m D q) :
    ∃ rep D', execute P c q = .ok rep ∧ Shows P D' rep.ctx ∧
      KeyOpsPost P m q D rep.status D' rep.allocFailed := by
  have hloop := keyOps_on hP hsize hpos (on_init hP hshows) hrep hkey hin hopc (4 * P.blkNum + 11)
  have hcall : wp (fun _ => False) (kvtransCall P) (fun r s => r.2 = true ∧
      ∃ D' b, On P D' q .reqCmpl b s ∧ KeyOpsPost P m q D r.1 D' s.req.allocFailed)
      ⟨c, initKvtransReq 0 q⟩ := by
    unfold kvtransCall
    rw [wp_bind, wp_get, show (initKvtransReq 0 q).req = q from rfl]
    rcases hopc with hdel | ⟨hstore, -⟩
    · rw [hdel]
      exact hloop
    · rw [hstore]
      exact hloop
  obtain ⟨rc, s, hok, D', b, hon, hpost⟩ := execute_of_call
    (Q := fun rc s => ∃ D' b, On P D' q .reqCmpl b s ∧ KeyOpsPost P m q D rc D' s.req.allocFailed) hcall
  exact ⟨_, D', hok, hon.ctx, hpost⟩

theorem execute_valOps (hP : P.build = .memory) (hpos : 0 < P.blkOffset) (hshows : Shows P D c)
    (hrep : Represents P ∅ m D) (hkey : iskeynull q.key = false) (hin : P.InRange (P.hash (keyOf q)) 1)
    (hopc : q.opc = .retrieve ∨ q.opc = .exist) :
    ∃ rep, execute P c q = .ok rep ∧ Shows P D rep.ctx ∧
      rep.status = (if (m (keyOf q)).isSome then .success else .notFound) ∧
      (q.opc = .retrieve → ∀ v, m (keyOf q) = some v → rep.value = v) := by
  have hloop : ∀ cb, wp (fun _ => False) (valOps P cb (4 * P.blkNum + 13 + 3) .success)
      (ValOpsPost P Eq m q D cb) ⟨c, initKvtransReq 0 q⟩ :=
    fun cb => valOps_on hP hpos (on_init hP hshows) hrep hkey hin (4 * P.blkNum + 13)
  have hcall : wp (fun _ => False) (kvtransCall P) (fun r s => r.2 = true ∧
      Shows P D s.ctx ∧ r.1 = (if (m (keyOf q)).isSome then .success else .notFound) ∧
      (q.opc = .retrieve → ∀ v, m (keyOf q) = some v → s.req.value = v)) ⟨c, initKvtransReq 0 q⟩ := by
    unfold kvtransCall
    rw [wp_bind, wp_get, show (initKvtransReq 0 q).req = q from rfl]
    rcases hopc with hopc | hopc
    · rw [hopc]
      refine wp_mono (hloop true) ?_
      rintro r s ⟨hr, ⟨b, hon⟩, hrc, hvalue⟩
      exact ⟨hr, hon.ctx, hrc, fun _ => hvalue rfl⟩
    · rw [hopc]
      refine wp_mono (hloop false) ?_
      rintro r s ⟨hr, ⟨b, hon⟩, hrc, -⟩
      exact ⟨hr, hon.ctx, hrc, by rintro ⟨⟩⟩
  obtain ⟨rc, s, hok, hctx, hrc, hvalue⟩ := execute_of_call
    (Q := fun rc s => Shows P D s.ctx ∧
      rc = (if (m (keyOf q)).isSome then .success else .notFound) ∧
      (q.opc = .retrieve → ∀ v, m (keyOf q) = some v → s.req.value = v)) hcall
  exact ⟨_, hok, hctx, hrc, hvalue⟩

/-- A request is answered as the map does, and the map that follows is held. -/
theorem execute_conforms (hP : P.build = .memory) (hsize : 0 < P.blkSize) (hpos : 0 < P.blkOffset)
    {x : Ctx × Map} (hx : Serving P x) (hq : Regular P x q) :
    ∃ rep, execute P x.1 q = .ok rep ∧ Conforms x.2 q rep ∧ Serving P (rep.ctx, nextMap x.2 q rep) := by
  obtain ⟨D, hshows, hrep⟩ := hx
  unfold Conforms nextMap
  cases hopc : q.opc with
  | store =>
    obtain ⟨rep, D', hok, hshows', hpost⟩ := execute_keyOps hP hsize hpos hshows hrep hq.key hq.block
      (.inr ⟨hopc, hq.storable hshows hopc⟩)
    unfold KeyOpsPost at hpost
    rw [hopc] at hpost
    refine ⟨rep, hok, ?_⟩
    dsimp only
    rcases hpost with ⟨hrc, hrep'⟩ | ⟨hne, hfailed, -, rfl⟩
    · rw [if_pos hrc]
      exact ⟨.inl hrc, D', hshows', hrep'⟩
    · refine ⟨.inr hfailed, ?_⟩
      rw [if_neg hne]
      exact ⟨D', hshows', hrep⟩
  | delete =>
    obtain ⟨rep, D', hok, hshows', hpost⟩ := execute_keyOps hP hsize hpos hshows hrep hq.key hq.block
      (.inl hopc)
    unfold KeyOpsPost at hpost
    rw [hopc] at hpost
    exact ⟨rep, hok, hpost.1, D', hshows', hpost.2⟩
  | retrieve =>
    obtain ⟨rep, hok, hshows', hrc, hvalue⟩ := execute_valOps hP hpos hshows hrep hq.key hq.block
      (.inl hopc)
    exact ⟨rep, hok, ⟨hrc, hvalue hopc⟩, D, hshows', hrep⟩
  | exist =>
    obtain ⟨rep, hok, hshows', hrc, -⟩ := execute_valOps hP hpos hshows hrep hq.key hq.block
      (.inr hopc)
    exact ⟨rep, hok, hrc, D, hshows', hrep⟩

theorem serving_empty {alloc : Context} {metaStart : ℕ}
    (hinit : dssBlkAllocatorInit (allocOpts P metaStart) = some alloc) (hblocks : 0 < P.blkNum)
    (haddr : P.blkNum + P.blkOffset < 2 ^ 64) : Serving P (initKvtransCtx alloc, fun _ => none) := by
  have hempty := fun r => serves_empty hinit hblocks haddr r
  refine ⟨⟨alloc.alloc.cellOf, fun _ => none, fun _ => []⟩, ⟨fun r => (hempty r).1, rfl, fun _ _ => rfl,
    rfl, rfl, Context.dense_of_init hinit⟩, represents_empty fun x _ => (hempty (initKvtransReq 0 ⟨.exist, [], 0, []⟩)).2 x⟩

end

/-- In every run of regular requests from an empty device, each request returns and is answered as a
finite map answers it, and the translator holds the map of the requests so far. -/
theorem conforms_of_run {alloc : Context} {metaStart : ℕ} {reqs : List Req} (hP : P.build = .memory)
    (hsize : 0 < P.blkSize) (hpos : 0 < P.blkOffset) (hblocks : 0 < P.blkNum)
    (haddr : P.blkNum + P.blkOffset < 2 ^ 64)
    (hinit : dssBlkAllocatorInit (allocOpts P metaStart) = some alloc)
    (hreqs : Run.Admissible (step P) (Regular P) (initKvtransCtx alloc, fun _ => none) reqs) :
    (∃ x, Run.run (step P) (initKvtransCtx alloc, fun _ => none) reqs = some x ∧ Serving P x) ∧
      Run.Admissible (step P) (Answered P) (initKvtransCtx alloc, fun _ => none) reqs := by
  have hstart : Serving P (initKvtransCtx alloc, fun _ => none) :=
    serving_empty hinit hblocks haddr
  refine Run.run_meets (fun x q hx hq => ?_) hstart hreqs
  obtain ⟨rep, hok, hconf, hnext⟩ := execute_conforms hP hsize hpos hx hq
  refine ⟨⟨rep, hok, hconf⟩, _, ?_, hnext⟩
  unfold step
  rw [hok]

/-- A request for the key of one byte. -/
def keyReq (opc : Opc) (n : ℕ) : Req := ⟨opc, [7], 1, List.replicate n 1⟩

/-- A key on a device of three blocks is stored, updated, read, deleted and looked for. -/
def keyReqs : List Req :=
  [keyReq .store 800, keyReq .store 900, keyReq .retrieve 0, keyReq .delete 0, keyReq .exist 0]

theorem blocks_keyReq (opc : Opc) {n : ℕ} (hn : maxInlineValue ≤ n) (hn' : n ≤ 4096) :
    getNumBlocksRequiredForValue (keyReq opc n) (lineParams 3).blkSize = 1 := by
  have hpos : 0 < maxInlineValue := by decide
  unfold getNumBlocksRequiredForValue keyReq lineParams
  dsimp only
  rw [List.length_replicate, if_neg (by omega)]
  omega

theorem large_keyReq (opc : Opc) {n : ℕ} (hn : maxInlineValue ≤ n) :
    maxInlineValue ≤ (keyReq opc n).value.length := by
  unfold keyReq
  rwa [List.length_replicate]

theorem regular_read (build : Build) (x : Ctx × Map) {opc : Opc} (hopc : opc ≠ .store) (n : ℕ) :
    Regular { lineParams 3 with build := build } x (keyReq opc n) :=
  ⟨rfl, ⟨le_rfl, show 1 + 1 ≤ 1 + 3 by decide⟩, fun h => absurd h hopc⟩

theorem regular_update (build : Build) {x : Ctx × Map}
    (h : x.1.alloc.alloc.cellOf 3 = blockStateFree ∧ (x.2 [7]).isSome = true) :
    Regular { lineParams 3 with build := build } x (keyReq .store 900) := by
  obtain ⟨hcell, hsome⟩ := h
  have hone := blocks_keyReq .store (n := 900) (by decide) (by decide)
  refine ⟨rfl, ⟨le_rfl, show 1 + 1 ≤ 1 + 3 by decide⟩, fun _ => ⟨by rw [hone]; decide,
    fun _ => large_keyReq _ (by decide), .inr ⟨hsome, fun blk _ => .inr ?_⟩⟩⟩
  rw [hone]
  refine ⟨⟨show 1 ≤ 2 by decide, show 2 + 1 ≤ 1 + 3 by decide⟩, 3,
    ⟨show 1 ≤ 3 by decide, show 3 + 1 ≤ 1 + 3 by decide⟩, fun y hy => ?_⟩
  obtain rfl : y = 3 := Nat.le_antisymm (Nat.lt_succ_iff.1 hy.2) hy.1
  unfold fill
  dsimp only
  split_ifs
  · rfl
  · exact hcell

theorem conforms_keyReqs :
    ∃ alloc, dssBlkAllocatorInit (allocOpts (lineParams 3) 1) = some alloc ∧
      (∃ x, Run.run (step (lineParams 3)) (initKvtransCtx alloc, fun _ => none) keyReqs = some x ∧
        Serving (lineParams 3) x) ∧
      Run.Admissible (step (lineParams 3)) (Answered (lineParams 3))
        (initKvtransCtx alloc, fun _ => none) keyReqs := by
  obtain ⟨alloc, halloc⟩ : ∃ alloc,
    dssBlkAllocatorInit (allocOpts (lineParams 3) 1) = some alloc := ⟨_, rfl⟩
  have hfree := (serves_empty halloc (by decide) (by decide) (initKvtransReq 0 (keyReq .store 800))).2
  have hstore : Regular (lineParams 3) (initKvtransCtx alloc, fun _ => none) (keyReq .store 800) :=
    ⟨rfl, ⟨by decide, by decide⟩, fun _ =>
      ⟨by rw [blocks_keyReq _ (by decide) (by decide)]; decide, fun _ => large_keyReq _ (by decide),
        .inl (hfree _)⟩⟩
  have hlast : ∀ x, step (lineParams 3) (initKvtransCtx alloc, fun _ => none) (keyReq .store 800) = some x →
      x.1.alloc.alloc.cellOf 3 = blockStateFree ∧ (x.2 [7]).isSome = true := by
    have hcompute : (step (lineParams 3) (initKvtransCtx alloc, fun _ => none) (keyReq .store 800)).map
        (fun x => (x.1.alloc.alloc.cellOf 3, (x.2 [7]).isSome)) = some (blockStateFree, true) := by
      cases halloc
      decide +kernel
    intro x hx
    rw [hx] at hcompute
    exact Prod.mk.inj (Option.some.inj hcompute)
  refine ⟨alloc, halloc, conforms_of_run (lineParams 3) rfl (by decide) (by decide) (by decide) (by decide)
    halloc ⟨hstore, fun x hx => ⟨regular_update .memory (hlast x hx), fun x _ => ?_⟩⟩⟩
  exact ⟨regular_read .memory x (by decide) 0, fun x _ => ⟨regular_read .memory x (by decide) 0, fun x _ =>
    ⟨regular_read .memory x (by decide) 0, fun _ _ => trivial⟩⟩⟩

end DssSdk.Kvtrans.KeyMap
