import DssSdk.Kvtrans.RemovedEntry

/-!
# The queue of waiting requests

Requests that wait in `kv_req_queue` and the dirty LBAs, over any interleaving of requests.

* `SyncInv A c`: every request of the queue waits for a dirty LBA, and every dirty LBA is held by a
  suspended request or is one of the LBAs `A` of the request that runs;
* the release of an LBA keeps it as long as no request waits behind a reader (`NoneBehindReader`);
* a request releases its chain as long as the entry that it deletes can be removed (`EntryRemovable`);
* `noLostWakeUp`: the invariant over whole runs.
-/

namespace DssSdk.Kvtrans

open Program

/-- The request reads. -/
def Ctx.reads (c : Ctx) (id : ℕ) : Bool := (c.kreqs id).any fun r => modifyMeta r.req.opc = false

/-- No request waits behind a reader for the same LBA. -/
def NoneBehindReader (c : Ctx) : Prop :=
  c.kvReqQueue.Pairwise fun id id' => c.reads id = true → c.waitLba id ≠ c.waitLba id'

/-- The invariant of the meta synchronisation, with the LBAs of the request that runs. -/
structure SyncInv (A : List ℕ) (c : Ctx) : Prop where
  suspended : ∀ id r, c.kreqs id = some r → Suspended id r
  queued : ∀ id ∈ c.kvReqQueue, c.kreqs id ≠ none
  nodup : c.kvReqQueue.Nodup
  wait : ∀ id ∈ c.kvReqQueue, ∀ x, c.waitLba id = some x → c.dirtyMetaLba x = true
  held : ∀ x, c.dirtyMetaLba x = true → (∃ id, c.Holds id x) ∨ x ∈ A

section

variable {A : List ℕ} {c c' : Ctx} {id x : ℕ} {r : Kreq}

theorem Ctx.waitLba_eq (hr : c.kreqs id = some r) : c.waitLba id = r.lbas.getLast? := by
  unfold Ctx.waitLba
  rw [hr]
  rfl

theorem Ctx.Holds.congr (h : c.Holds id x) (hk : c'.kreqs id = c.kreqs id)
    (hq : id ∈ c'.kvReqQueue ↔ id ∈ c.kvReqQueue) : c'.Holds id x := by
  obtain ⟨r, hr, hm, hx⟩ := h
  refine ⟨r, hk.trans hr, hm, ?_⟩
  rw [if_congr hq rfl rfl]
  exact hx

theorem SyncInv.congr (h : SyncInv A c) (hk : c'.kreqs = c.kreqs)
    (hq : c'.kvReqQueue = c.kvReqQueue) (hd : c'.dirtyMetaLba = c.dirtyMetaLba) : SyncInv A c' where
  suspended := by rw [hk]; exact h.suspended
  queued := by rw [hk, hq]; exact h.queued
  nodup := by rw [hq]; exact h.nodup
  wait := fun id hid x hx => by
    rw [hd]
    rw [hq] at hid
    refine h.wait id hid x ?_
    rw [← hx, Ctx.waitLba, Ctx.waitLba, hk]
  held := fun x hx => by
    rw [hd] at hx
    refine (h.held x hx).imp_left fun ⟨id, hid⟩ => ⟨id, hid.congr (by rw [hk]) (by rw [hq])⟩

theorem SyncInv.grow {A' : List ℕ} (h : SyncInv A c) (hk : c'.kreqs = c.kreqs)
    (hq : c'.kvReqQueue = c.kvReqQueue)
    (hmono : ∀ x, c.dirtyMetaLba x = true → c'.dirtyMetaLba x = true)
    (hnew : ∀ x, c'.dirtyMetaLba x = true → c.dirtyMetaLba x = true ∨ x ∈ A') (hA : A ⊆ A') :
    SyncInv A' c' where
  suspended := by rw [hk]; exact h.suspended
  queued := by rw [hk, hq]; exact h.queued
  nodup := by rw [hq]; exact h.nodup
  wait := fun id hid x hx => by
    rw [hq] at hid
    refine hmono x (h.wait id hid x ?_)
    rw [← hx, Ctx.waitLba, Ctx.waitLba, hk]
  held := fun x hx => by
    rcases hnew x hx with hx | hx
    · rcases h.held x hx with ⟨id, hid⟩ | hx
      · exact Or.inl ⟨id, hid.congr (by rw [hk]) (by rw [hq])⟩
      · exact Or.inr (hA hx)
    · exact Or.inr hx

theorem SyncInv.adds {s s' : Sys} (h : SyncInv A s.ctx) (h' : Adds s s') (hA : A ⊆ s.req.lbas) :
    SyncInv s'.req.lbas s'.ctx :=
  h.grow h'.kreqs h'.queue h'.dirtyMono h'.dirtyNew (List.Subset.trans hA h'.lbas_subset)

/-! ### The release of an LBA -/

theorem waitLba_refresh (c' : Ctx) (st : BlkState) (hr : c.kreqs id = some r)
    (hk : c'.kreqs = Function.update c.kreqs id (some (r.refresh st))) (id' : ℕ) :
    c'.waitLba id' = c.waitLba id' ∧ c'.reads id' = c.reads id' := by
  unfold Ctx.waitLba Ctx.reads
  rw [hk, Function.update_apply]
  split_ifs with h
  · rw [h, hr, Option.bind_some, Option.bind_some, Kreq.lbas_refresh]
    exact ⟨rfl, rfl⟩
  · exact ⟨rfl, rfl⟩

/-- The release of an LBA of the request that runs. -/
theorem SyncInv.pop (h : SyncInv (x :: A) c) (hK : NoneBehindReader c) (hp : Pops x c c') :
    SyncInv A c' := by
  cases hp with
  | clean hdirty hc =>
    subst hc
    refine ⟨h.suspended, h.queued, h.nodup, h.wait, fun y hy => (h.held y hy).imp_right fun hA => ?_⟩
    rcases List.mem_cons.1 hA with rfl | hA
    · rw [hdirty] at hy
      cases hy
    · exact hA
  | free hdirty hnone hc =>
    subst hc
    refine ⟨h.suspended, h.queued, h.nodup, fun id hid y hy => ?_, fun y hy => ?_⟩
    · have hyx : y ≠ x := by
        rintro rfl
        obtain ⟨r, hr⟩ := Option.ne_none_iff_exists'.1 (h.queued id hid)
        refine hnone id hid r hr (List.mem_of_getLast? ?_)
        rw [← Ctx.waitLba_eq hr]
        exact hy
      exact (Function.update_of_ne hyx _ _).trans (h.wait id hid y hy)
    · dsimp only at hy
      rw [Function.update_apply] at hy
      split_ifs at hy with hyx
      refine (h.held y hy).imp_right fun hA => ?_
      exact (List.mem_cons.1 hA).resolve_left hyx
  | woken id r st before after hdirty hqueue hbefore hr hlast hc =>
    subst hc
    have hmem : id ∈ c.kvReqQueue := by rw [hqueue]; simp
    have hne : ∀ {id'}, id' ∈ c.kvReqQueue.erase id → id' ≠ id ∧ id' ∈ c.kvReqQueue :=
      fun h' => h.nodup.mem_erase_iff.1 h'
    have hsame := waitLba_refresh { c with
      kvReqQueue := c.kvReqQueue.erase id
      dirtyMetaLba := Function.update c.dirtyMetaLba x (modifyMeta r.req.opc)
      kreqs := Function.update c.kreqs id (some (r.refresh st)) } st hr rfl
    refine ⟨fun id' r' hr' => ?_, fun id' hid' => ?_, h.nodup.erase id, fun id' hid' y hy => ?_,
      fun y hy => ?_⟩
    · dsimp only at hr'
      rw [Function.update_apply] at hr'
      split_ifs at hr' with hid
      · cases hr'
        rw [hid]
        exact (h.suspended id r hr).refresh st
      · exact h.suspended id' r' hr'
    · obtain ⟨hid, hq⟩ := hne hid'
      dsimp only
      rw [Function.update_of_ne hid]
      exact h.queued id' hq
    · -- a request that still waits for `x` would be behind the reader that was woken
      obtain ⟨hid, hq⟩ := hne hid'
      rw [(hsame id').1] at hy
      dsimp only
      rw [Function.update_apply]
      split_ifs with hyx
      · subst hyx
        by_contra hmod
        have hreads : c.reads id = true := by
          unfold Ctx.reads
          rw [hr]
          simpa using hmod
        rw [hqueue] at hq hid'
        obtain ⟨r', hr'⟩ := Option.ne_none_iff_exists'.1 (h.queued id' (hqueue ▸ hq))
        rcases List.mem_append.1 hq with hq | hq
        · refine hbefore id' hq r' hr' (List.mem_of_getLast? ?_)
          rw [← Ctx.waitLba_eq hr']
          exact hy
        · have hq' := (List.mem_cons.1 hq).resolve_left hid
          unfold NoneBehindReader at hK
          rw [hqueue] at hK
          have hpair := (List.pairwise_cons.1 (List.pairwise_append.1 hK).2.1).1 id' hq' hreads
          rw [hy, Ctx.waitLba_eq hr, hlast] at hpair
          exact hpair rfl
      · exact h.wait id' hq y hy
    · dsimp only at hy
      rw [Function.update_apply] at hy
      split_ifs at hy with hyx
      · -- the request that was woken holds the LBA now
        refine Or.inl ⟨id, r.refresh st, Function.update_self _ _ _, hy, ?_⟩
        rw [if_neg fun h' => (hne h').1 rfl, Kreq.lbas_refresh, hyx]
        exact List.mem_of_getLast? hlast
      · rcases h.held y hy with ⟨id', hid'⟩ | hA
        · refine Or.inl ⟨id', ?_⟩
          by_cases hid : id' = id
          · subst hid
            obtain ⟨r', hr', hm, hx⟩ := hid'
            rw [hr] at hr'
            cases hr'
            rw [if_pos hmem] at hx
            refine ⟨r.refresh st, Function.update_self _ _ _, hm, ?_⟩
            rw [if_neg fun h' => (hne h').1 rfl, Kreq.lbas_refresh]
            exact List.mem_of_mem_dropLast hx
          · exact hid'.congr (Function.update_of_ne hid _ _) (List.mem_erase_of_ne hid)
        · exact Or.inr ((List.mem_cons.1 hA).resolve_left hyx)

/-- No request comes behind a reader by the release of an LBA. -/
theorem NoneBehindReader.pop (hK : NoneBehindReader c) (hp : Pops x c c') : NoneBehindReader c' := by
  cases hp with
  | clean hdirty hc =>
    subst hc
    exact hK
  | free hdirty hnone hc =>
    subst hc
    exact hK
  | woken id r st before after hdirty hqueue hbefore hr hlast hc =>
    have hsame := waitLba_refresh c' st hr (by rw [hc])
    unfold NoneBehindReader at *
    rw [hc]
    refine (hK.sublist List.erase_sublist).imp fun {a b} hab => ?_
    rw [← hc, (hsame a).1, (hsame a).2, (hsame b).1]
    exact hab

theorem popChain_spec (chain : List BlkCtx) (s : Sys) (h : SyncInv (chain.map BlkCtx.index) s.ctx)
    (hK : NoneBehindReader s.ctx) :
    wp (fun _ => True) (popChain chain)
      (fun _ s' => SyncInv [] s'.ctx ∧ s'.req = s.req) s := by
  induction chain generalizing s with
  | nil => exact ⟨h, rfl⟩
  | cons b chain ih =>
    unfold popChain
    rw [wp_bind]
    refine wp_mono (popMetaBlkFromQueue_spec s) ?_
    rintro - s₁ ⟨hp, hreq⟩
    refine wp_mono (ih s₁ (h.pop hK hp) (hK.pop hp)) ?_
    rintro - s₂ ⟨h₂, hreq₂⟩
    exact ⟨h₂, hreq₂.trans hreq⟩

end

/-! ### Requests that are suspended -/

section

variable {A : List ℕ} {c c' : Ctx} {id y : ℕ} {r : Kreq}

theorem SyncInv.resume (h : SyncInv [] c) (hr : c.kreqs id = some r) (hq : id ∉ c.kvReqQueue)
    (hk : c'.kreqs = Function.update c.kreqs id none) (hqueue : c'.kvReqQueue = c.kvReqQueue)
    (hd : c'.dirtyMetaLba = c.dirtyMetaLba) (hA : modifyMeta r.req.opc = true → r.lbas ⊆ A) :
    SyncInv A c' := by
  have hne : ∀ {id'}, id' ∈ c.kvReqQueue → id' ≠ id := fun h' he => hq (he ▸ h')
  refine ⟨fun id' r' hr' => ?_, fun id' hid' => ?_, ?_, fun id' hid' x hx => ?_, fun x hx => ?_⟩
  · rw [hk, Function.update_apply] at hr'
    split_ifs at hr'
    exact h.suspended id' r' hr'
  · rw [hqueue] at hid'
    rw [hk, Function.update_of_ne (hne hid')]
    exact h.queued id' hid'
  · rw [hqueue]
    exact h.nodup
  · rw [hqueue] at hid'
    rw [hd]
    refine h.wait id' hid' x ?_
    rw [← hx, Ctx.waitLba, Ctx.waitLba, hk, Function.update_of_ne (hne hid')]
  · rw [hd] at hx
    obtain ⟨id', hid'⟩ := (h.held x hx).resolve_right List.not_mem_nil
    by_cases he : id' = id
    · subst he
      obtain ⟨r', hr', hm, hx'⟩ := hid'
      rw [hr] at hr'
      cases hr'
      rw [if_neg hq] at hx'
      exact Or.inr (hA hm hx')
    · exact Or.inl ⟨id', hid'.congr (by rw [hk, Function.update_of_ne he]) (by rw [hqueue])⟩

theorem SyncInv.suspended_update (h : SyncInv A c) (hr : Suspended id r) :
    ∀ id' r', Function.update c.kreqs id (some r) id' = some r' → Suspended id' r' := by
  intro id' r' hr'
  rw [Function.update_apply] at hr'
  split_ifs at hr' with he
  · cases hr'
    rw [he]
    exact hr
  · exact h.suspended id' r' hr'

/-- A request is suspended with its I/O submitted. -/
theorem SyncInv.store (h : SyncInv A c) (hid : c.kreqs id = none) (hq : id ∉ c.kvReqQueue)
    (hr : Suspended id r) (hA : ∀ x ∈ A, modifyMeta r.req.opc = true ∧ x ∈ r.lbas) :
    SyncInv [] { c with kreqs := Function.update c.kreqs id (some r) } := by
  have hne : ∀ {id'}, id' ∈ c.kvReqQueue → id' ≠ id := fun h' he => hq (he ▸ h')
  refine ⟨h.suspended_update hr, fun id' hid' => ?_, h.nodup, fun id' hid' x hx => ?_, fun x hx => ?_⟩
  · dsimp only
    rw [Function.update_of_ne (hne hid')]
    exact h.queued id' hid'
  · refine h.wait id' hid' x ?_
    rw [← hx]
    unfold Ctx.waitLba
    dsimp only
    rw [Function.update_of_ne (hne hid')]
  · refine Or.inl ?_
    rcases h.held x hx with ⟨id', hid'⟩ | hA'
    · have he : id' ≠ id := by
        rintro rfl
        obtain ⟨r', hr', -⟩ := hid'
        rw [hid] at hr'
        cases hr'
      exact ⟨id', hid'.congr (Function.update_of_ne he _ _) Iff.rfl⟩
    · obtain ⟨hm, hx'⟩ := hA x hA'
      refine ⟨id, r, Function.update_self _ _ _, hm, ?_⟩
      rw [if_neg hq]
      exact hx'

theorem SyncInv.storeWaiting (h : SyncInv A c) (hid : c.kreqs id = none) (hq : id ∉ c.kvReqQueue)
    (hr : Suspended id r) (hlast : r.lbas.getLast? = some y) (hd : c.dirtyMetaLba y = true)
    (hA : ∀ x ∈ A, modifyMeta r.req.opc = true ∧ x ∈ r.lbas.dropLast) :
    SyncInv [] { c with
      kvReqQueue := c.kvReqQueue ++ [id], kreqs := Function.update c.kreqs id (some r) } := by
  have hne : ∀ {id'}, id' ∈ c.kvReqQueue → id' ≠ id := fun h' he => hq (he ▸ h')
  have hmem : ∀ {id'}, id' ≠ id → (id' ∈ c.kvReqQueue ++ [id] ↔ id' ∈ c.kvReqQueue) := by
    intro id' he
    rw [List.mem_append, List.mem_singleton]
    exact or_iff_left he
  refine ⟨h.suspended_update hr, fun id' hid' => ?_, ?_, fun id' hid' x hx => ?_, fun x hx => ?_⟩
  · dsimp only
    rw [Function.update_apply]
    split_ifs with he
    · exact Option.some_ne_none r
    · exact h.queued id' ((hmem he).1 hid')
  · rw [List.nodup_append]
    exact ⟨h.nodup, List.nodup_singleton id, fun a ha b hb => by
      rw [List.mem_singleton.1 hb]
      exact hne ha⟩
  · unfold Ctx.waitLba at hx
    dsimp only at hx ⊢
    rw [Function.update_apply] at hx
    split_ifs at hx with he
    · rw [Option.bind_some, hlast] at hx
      cases hx
      exact hd
    · exact h.wait id' ((hmem he).1 hid') x hx
  · refine Or.inl ?_
    rcases h.held x hx with ⟨id', hid'⟩ | hA'
    · have he : id' ≠ id := by
        rintro rfl
        obtain ⟨r', hr', -⟩ := hid'
        rw [hid] at hr'
        cases hr'
      exact ⟨id', hid'.congr (Function.update_of_ne he _ _) (hmem he)⟩
    · obtain ⟨hm, hx'⟩ := hA x hA'
      refine ⟨id, r, Function.update_self _ _ _, hm, ?_⟩
      rw [if_pos (List.mem_append_right _ (List.mem_singleton_self id))]
      exact hx'

end

/-! ### Calls -/

section

variable {A : List ℕ} {c c' : Ctx} {s s₁ s' : Sys}

theorem NoneBehindReader.congr (h : NoneBehindReader c)
    (hk : ∀ id ∈ c.kvReqQueue, c'.kreqs id = c.kreqs id) (hq : c'.kvReqQueue = c.kvReqQueue) :
    NoneBehindReader c' := by
  unfold NoneBehindReader Ctx.reads Ctx.waitLba at *
  rw [hq]
  refine h.imp_of_mem fun {a b} ha hb hab => ?_
  rw [hk a ha, hk b hb]
  exact hab

theorem finish_done {rc : Status} (h : rc ≠ .success ∨ s.req.state = .reqCmpl) :
    finish rc s = s.ctx := if_pos h

theorem finish_suspended (h : s.req.state ≠ .reqCmpl) :
    finish .success s =
      { s.ctx with kreqs := Function.update s.ctx.kreqs s.req.id (some s.req) } :=
  if_neg fun h' => h'.elim (fun h'' => h'' rfl) h

theorem SyncInv.suspend (h : SyncInv s.req.lbas s.ctx) (hmod : modifyMeta s.req.req.opc = true)
    (hid : s.ctx.kreqs s.req.id = none) (hq : s.req.id ∉ s.ctx.kvReqQueue)
    (hparked : Parked s.req) (hstate : s.req.state ≠ .reqCmpl) :
    SyncInv [] (finish .success s) := by
  rw [finish_suspended hstate]
  refine h.store hid hq ⟨rfl, fun hr => ?_, fun _ => hparked⟩ fun x hx => ⟨hmod, hx⟩
  rw [hmod] at hr
  cases hr

/-- A request that modifies meta blocks waits for the block `y`. -/
theorem SyncInv.suspendWaiting {y : ℕ} (h : SyncInv A c) (hA : A = s.req.lbas.dropLast)
    (hmod : modifyMeta s.req.req.opc = true) (hid : c.kreqs s.req.id = none)
    (hq : s.req.id ∉ c.kvReqQueue) (hparked : Parked s.req) (hstate : s.req.state ≠ .reqCmpl)
    (hlast : s.req.lbas.getLast? = some y) (hd : c.dirtyMetaLba y = true)
    (hk : s.ctx.kreqs = c.kreqs) (hqueue : s.ctx.kvReqQueue = c.kvReqQueue ++ [s.req.id])
    (hdirty : s.ctx.dirtyMetaLba = c.dirtyMetaLba) : SyncInv [] (finish .success s) := by
  rw [finish_suspended hstate]
  have hr : Suspended s.req.id s.req := ⟨rfl, fun hr => (by rw [hmod] at hr; cases hr), fun _ => hparked⟩
  refine (h.storeWaiting hid hq hr hlast hd fun x hx => ⟨hmod, hA ▸ hx⟩).congr ?_ hqueue hdirty
  dsimp only
  rw [hk]

/-- A call of `_kvtrans_key_ops` that does not leave early. -/
theorem SyncInv.call {r : Status × Bool} (h : SyncInv A s.ctx) (hA : A ⊆ s.req.lbas) (hs : Ready s)
    (hmod : modifyMeta s.req.req.opc = true) (hid : s.ctx.kreqs s.req.id = none)
    (hq : s.req.id ∉ s.ctx.kvReqQueue) (hK : NoneBehindReader s.ctx) (hcall : CallOutcome s s' r)
    (hleft : ¬ LeavesEarly r s') :
    SyncInv [] (finish r.1 s') := by
  cases hcall with
  | writing opens hstate =>
    have hparked := CallOutcome.parked hs (.writing opens hstate)
    have ha := opens.adds
    refine (h.adds ha hA).suspend (by rw [ha.req]; exact hmod) (by rw [ha.kreqs, ha.id]; exact hid)
      (by rw [ha.queue, ha.id]; exact hq) hparked (by rw [hstate]; decide)
  | @loading s₁ s₂ y opens issues marks hstate =>
    have hparked := CallOutcome.parked hs (.loading y opens issues marks hstate)
    have ha := opens.adds
    have h₁ := h.adds ha hA
    have hne : s'.req.state ≠ .reqCmpl := by rcases hstate with h | h <;> rw [h] <;> decide
    have hid' : s'.req.id = s₁.req.id := marks.id.trans issues.id
    have hmod' : modifyMeta s'.req.req.opc = true := by
      rw [marks.req, issues.req, ha.req]
      exact hmod
    have hk' : s'.ctx.kreqs = s₁.ctx.kreqs := marks.kreqs.trans issues.kreqs
    have hlbas₂ : s₂.req.lbas = s₁.req.lbas ++ [y] := by
      rw [Kreq.lbas_eq_cores, Kreq.lbas_eq_cores, issues.cores, List.map_append]
      rfl
    have hlbas' : s'.req.lbas = s₁.req.lbas ++ [y] := marks.lbas_eq.trans hlbas₂
    have hid₁ : s₁.ctx.kreqs s'.req.id = none := by rw [ha.kreqs, hid', ha.id]; exact hid
    have hq₁ : s'.req.id ∉ s₁.ctx.kvReqQueue := by rw [ha.queue, hid', ha.id]; exact hq
    rcases issues.sync with ⟨hdy, hqueue, hdirty⟩ | ⟨hdy, hqueue, hdirty⟩
    · -- the request waits; what the parent marked are blocks before the last one
      have hnew : ∀ x, s'.ctx.dirtyMetaLba x = true →
          s₁.ctx.dirtyMetaLba x = true ∨ x ∈ s₁.req.lbas := by
        intro x hx
        rcases marks.dirtyNew x hx with hx | ⟨p, hp, hx⟩
        · rw [hdirty] at hx
          exact Or.inl hx
        · have hp' : p < s₁.req.lbas.length := by
            have : p + 1 < s₂.req.chain.length := hp
            have hlen : s₂.req.lbas.length = s₂.req.chain.length := List.length_map _
            rw [hlbas₂, List.length_append, List.length_singleton] at hlen
            omega
          rw [hlbas₂, List.getElem?_append_left hp'] at hx
          exact Or.inr (List.mem_of_getElem? hx)
      have h₂ : SyncInv s₁.req.lbas { s₁.ctx with dirtyMetaLba := s'.ctx.dirtyMetaLba } :=
        h₁.grow rfl rfl (fun x hx => marks.dirtyMono x (by rw [hdirty]; exact hx)) hnew
          (List.Subset.refl _)
      refine h₂.suspendWaiting (by rw [hlbas']; simp) hmod' hid₁ hq₁ hparked hne
        (by rw [hlbas']; simp) (marks.dirtyMono y (by rw [hdirty]; exact hdy)) hk' ?_ rfl
      rw [marks.queue, hqueue, hid']
    · -- the load was issued, and the block is dirty
      have hgrow := (issues.grows.trans marks.grows).dirtyMono
      have hq' : s'.ctx.kvReqQueue = s₁.ctx.kvReqQueue := marks.queue.trans hqueue
      have h₂ : SyncInv s'.req.lbas s'.ctx := by
        refine h₁.grow hk' hq' hgrow (fun x hx => ?_) (by rw [hlbas']; exact List.subset_append_left _ _)
        rcases marks.dirtyNew x hx with hx | ⟨p, -, hx⟩
        · rw [hdirty] at hx
          split_ifs at hx
          · rw [Function.update_apply] at hx
            split_ifs at hx with hxy
            · refine Or.inr ?_
              rw [hlbas', hxy]
              simp
            · exact Or.inl hx
          · exact Or.inl hx
        · refine Or.inr ?_
          rw [marks.lbas_eq]
          exact List.mem_of_getElem? hx
      exact h₂.suspend hmod' (by rw [hk']; exact hid₁) (by rw [hq']; exact hq₁) hparked hne
  | @popped s₁ adds hstate hpop =>
    have h₁ := h.adds adds hA
    obtain ⟨h₂, hreq⟩ := wp_ok (popChain_spec s₁.req.chain s₁ h₁ (hK.congr (fun _ _ => by rw [adds.kreqs]) adds.queue)) hpop
    rw [finish_done (Or.inr (by rw [hreq]; exact hstate))]
    exact h₂
  | left hstart hrc hstate opens issues marks => exact absurd ⟨rfl, hstate⟩ hleft

theorem SyncInv.loadEntry (h : SyncInv [] s₁.ctx) (hlen : s₁.req.chain.length = 1)
    (hid : s₁.ctx.kreqs s₁.req.id = none) (hq : s₁.req.id ∉ s₁.ctx.kvReqQueue)
    (sync : Synced (s₁.req.chain.getD 0 BlkCtx.zero).index s₁
      { s' with req := { s'.req with state := s₁.req.state } })
    (hstate : s'.req.state = .queueToLoadEntry) (hr : Suspended s'.req.id s'.req) :
    SyncInv [] (finish .success s') := by
  have hne : s'.req.state ≠ .reqCmpl := by rw [hstate]; decide
  have hid' : s'.req.id = s₁.req.id := sync.id
  have hk : s'.ctx.kreqs = s₁.ctx.kreqs := sync.kreqs
  have hlbas : s'.req.lbas = [(s₁.req.chain.getD 0 BlkCtx.zero).index] := by
    have hchain : s'.req.chain = s₁.req.chain := sync.chain
    obtain ⟨b, hb⟩ := List.length_eq_one_iff.1 hlen
    rw [Kreq.lbas, hchain, hb]
    rfl
  rw [finish_suspended hne]
  rcases sync.sync with ⟨hdy, hqueue, hdirty⟩ | ⟨hdy, hqueue, hdirty⟩
  · refine (h.storeWaiting (r := s'.req) (by rw [hid']; exact hid) (by rw [hid']; exact hq) hr
      (by rw [hlbas]; rfl) hdy fun x hx => absurd hx List.not_mem_nil).congr ?_ ?_ hdirty
    · dsimp only
      rw [hk]
    · dsimp only
      rw [hid']
      exact hqueue
  · have hd' : s'.ctx.dirtyMetaLba = if modifyMeta s'.req.req.opc = true then
        Function.update s₁.ctx.dirtyMetaLba (s₁.req.chain.getD 0 BlkCtx.zero).index true
        else s₁.ctx.dirtyMetaLba := by
      rw [show s'.req.req = s₁.req.req from sync.req]
      exact hdirty
    have h' : SyncInv (if modifyMeta s'.req.req.opc = true then s'.req.lbas else []) s'.ctx := by
      refine h.grow hk hqueue (fun x hx => ?_) (fun x hx => ?_) (List.nil_subset _)
      · rw [hd']
        split_ifs
        · rw [Function.update_apply]
          split_ifs
          · rfl
          · exact hx
        · exact hx
      · rw [hd'] at hx
        split_ifs at hx ⊢
        · rw [Function.update_apply] at hx
          split_ifs at hx with hxy
          · rw [hlbas, hxy]
            exact Or.inr (List.mem_singleton_self _)
          · exact Or.inl hx
        · exact Or.inl hx
    have hq' : s'.ctx.kvReqQueue = s₁.ctx.kvReqQueue := hqueue
    refine h'.store (r := s'.req) (by rw [hk, hid']; exact hid) (by rw [hid', hq']; exact hq) hr
      fun x hx => ?_
    split_ifs at hx with hm
    · exact ⟨hm, hx⟩
    · exact absurd hx List.not_mem_nil

/-- A call of `_kvtrans_val_ops`. -/
theorem SyncInv.read {rc : Status} (h : SyncInv [] s.ctx) (hlen : s.req.chain.length = 1)
    (hmod : modifyMeta s.req.req.opc = false) (hid : s.ctx.kreqs s.req.id = none)
    (hq : s.req.id ∉ s.ctx.kvReqQueue) (hread : ReadOutcome s s' rc) :
    SyncInv [] (finish rc s') := by
  have hsusp : ∀ s₁, Sits s s₁ → s'.req.req = s₁.req.req → s'.req.chain.length = s₁.req.chain.length →
      Suspended s'.req.id s'.req := by
    intro s₁ sits hreq hlen'
    refine ⟨rfl, fun _ => hlen'.trans (sits.length.trans hlen), fun hm => ?_⟩
    rw [hreq, sits.req, hmod] at hm
    cases hm
  cases hread with
  | idle sits hstate =>
    have h' : SyncInv [] s'.ctx := h.congr sits.kreqs sits.queue sits.dirty
    unfold finish
    split_ifs
    · exact h'
    · exact h'.store (by rw [sits.kreqs, sits.id]; exact hid) (by rw [sits.queue, sits.id]; exact hq)
        (hsusp s' sits rfl rfl) fun x hx => absurd hx List.not_mem_nil
  | @loading s₁ hrc sits sync hstate =>
    rw [hrc]
    refine (h.congr sits.kreqs sits.queue sits.dirty).loadEntry (sits.length.trans hlen)
      (by rw [sits.kreqs, sits.id]; exact hid) (by rw [sits.queue, sits.id]; exact hq) sync hstate ?_
    exact hsusp s₁ sits sync.req (congrArg List.length sync.chain)

/-- The first call of `_kvtrans_key_ops`. -/
theorem SyncInv.start {r : Status × Bool} (h : SyncInv [] s.ctx) (hlen : s.req.chain.length = 1)
    (hflag : (s.req.chain.getD 0 BlkCtx.zero).flag ≠ .update)
    (hmod : modifyMeta s.req.req.opc = true) (hid : s.ctx.kreqs s.req.id = none)
    (hq : s.req.id ∉ s.ctx.kvReqQueue) (hK : NoneBehindReader s.ctx) (hstart : StartOutcome s s' r)
    (hleft : ¬ LeavesEarly r s') :
    SyncInv [] (finish r.1 s') := by
  cases hstart with
  | failed hrc sits hstate =>
    rw [finish_done (Or.inl hrc)]
    exact h.congr sits.kreqs sits.queue sits.dirty
  | @loading s₁ sits sync hstate =>
    have hlen₁ := sits.length.trans hlen
    have hchain : s'.req.chain = s₁.req.chain := sync.chain
    have hreq : s'.req.req = s₁.req.req := sync.req
    refine (h.congr sits.kreqs sits.queue sits.dirty).loadEntry hlen₁
      (by rw [sits.kreqs, sits.id]; exact hid) (by rw [sits.queue, sits.id]; exact hq) sync hstate ?_
    refine ⟨rfl, fun hm => ?_, fun _ => ?_⟩
    · rw [hreq, sits.req, hmod] at hm
      cases hm
    · have hflag' : (s'.req.chain.getD 0 BlkCtx.zero).flag ≠ .update := by
        rw [hchain, sits.flag.2]
        exact hflag
      exact .of_entry (by rw [hchain]; exact hlen₁) hflag' hstate
  | @entered s₁ _ sits ready hstate call marked =>
    refine (h.congr sits.kreqs sits.queue sits.dirty).call (List.nil_subset _) ready
      (by rw [sits.req]; exact hmod) (by rw [sits.kreqs, sits.id]; exact hid)
      (by rw [sits.queue, sits.id]; exact hq)
      (hK.congr (fun _ _ => by rw [sits.kreqs]) sits.queue) call hleft

end

/-! ### Runs -/

/-- The events after which no wake-up is lost: no request waits behind a reader, and if the event
completes the load of a collision block for a DELETE, then the entry can be removed. -/
def WakesAll (P : Params) (c : Ctx) (e : Event) : Prop :=
  NoneBehindReader c ∧
    ∀ s, handled P c e = some s → s.deletesEntry = true → EntryRemovable P s

instance (c : Ctx) : Decidable (NoneBehindReader c) := by
  unfold NoneBehindReader
  infer_instance

section

variable {P : Params} {c c' : Ctx} {e : Event}

theorem step_eq_some (h : step P c e = some c') : (handled P c e = none ∧ c' = c) ∨
    ∃ s rc returned s', handled P c e = some s ∧ kvtransCall P s = .ok ((rc, returned), s') ∧
      c' = finish rc s' := by
  unfold step at h
  split at h
  · rename_i hh
    exact Or.inl ⟨hh, (Option.some.inj h).symm⟩
  · rename_i s hh
    split at h
    · cases h
    · rename_i rc returned s' hcall
      exact Or.inr ⟨s, rc, returned, s', hh, hcall, (Option.some.inj h).symm⟩

theorem handled_start {s : Sys} {id : ℕ} {req : Req} (h : handled P c (.start id req) = some s) :
    c.kreqs id = none ∧ id ∉ c.kvReqQueue ∧ s = ⟨c, initKvtransReq id req⟩ := by
  unfold handled at h
  dsimp only at h
  split_ifs at h with hc
  exact ⟨hc.1, hc.2, (Option.some.inj h).symm⟩

theorem handled_ioDone {s : Sys} {id : ℕ} (h : handled P c (.ioDone id) = some s) :
    ∃ r, c.kreqs id = some r ∧ id ∉ c.kvReqQueue ∧ Performed c r
      { s.ctx with kreqs := c.kreqs } s.req ∧ s.ctx.kreqs = Function.update c.kreqs id none := by
  unfold handled at h
  dsimp only at h
  split at h
  · cases h
  · rename_i r hr
    split_ifs at h with hq
    cases h
    have hp := performed_performIo (P := P) (c := c) (r := r)
    refine ⟨r, hr, hq, ⟨hp.id, hp.req, hp.state, hp.shape, hp.dirty, hp.queue, rfl, hp.metas⟩, ?_⟩
    rw [hp.kreqs]

variable (hP : P.build = .disk)

include hP

theorem SyncInv.not_leavesEarly (h : SyncInv [] c) (hok : WakesAll P c e) {s s' : Sys}
    {r : Status × Bool} (hh : handled P c e = some s) (hmod : modifyMeta s.req.req.opc = true)
    (hcall : kvtransCall P s = .ok (r, s')) : ¬ LeavesEarly r s' := by
  cases e with
  | start id req =>
    obtain ⟨-, -, rfl⟩ := handled_start hh
    exact wp_ok (Q := fun r s' => ¬ LeavesEarly r s') (kvtransCall_start_released hP hmod) hcall
  | ioDone id =>
    obtain ⟨r₀, hr, -, hp, -⟩ := handled_ioDone hh
    have hmod₀ : modifyMeta r₀.req.opc = true := by rw [← hp.req]; exact hmod
    have hparked := ((h.suspended id r₀ hr).writer hmod₀).performed hp
    exact wp_ok (Q := fun r s' => ¬ LeavesEarly r s')
      (kvtransCall_released hP hmod hparked (hok.2 s hh)) hcall

/-- One step keeps the invariant. -/
theorem SyncInv.step (h : SyncInv [] c) (hok : WakesAll P c e) (hstep : step P c e = some c') :
    SyncInv [] c' := by
  have hK := hok.1
  rcases step_eq_some hstep with ⟨-, rfl⟩ | ⟨s, rc, returned, s', hh, hcall, rfl⟩
  · exact h
  have hleft : modifyMeta s.req.req.opc = true → ¬ LeavesEarly (rc, returned) s' :=
    fun hmod => h.not_leavesEarly hP hok hh hmod hcall
  cases e with
  | start id req =>
    obtain ⟨hid, hq, rfl⟩ := handled_start hh
    cases hmod : modifyMeta req.opc with
    | true =>
      obtain ⟨s₀, ht, hflag, hstart⟩ := wp_ok (kvtransCall_start hP hmod) hcall
      refine (h.congr ht.kreqs ht.queue ht.dirty).start ht.length hflag (by rw [ht.req]; exact hmod)
        (by rw [ht.kreqs, ht.id]; exact hid) (by rw [ht.queue, ht.id]; exact hq)
        (hK.congr (fun _ _ => by rw [ht.kreqs]) ht.queue) hstart (hleft hmod)
    | false =>
      obtain ⟨s₁, hw, hread⟩ := wp_ok (kvtransCall_reader hP hmod rfl) hcall
      refine SyncInv.read (s := s₁) (by rw [hw.ctx]; exact h) (by rw [hw.chain]; rfl) (by rw [hw.req]; exact hmod)
        (by rw [hw.ctx, hw.id]; exact hid) (by rw [hw.ctx, hw.id]; exact hq) hread
  | ioDone id =>
    obtain ⟨r, hr, hq, hp, hk⟩ := handled_ioDone hh
    have hsusp := h.suspended id r hr
    have hqueue : s.ctx.kvReqQueue = c.kvReqQueue := hp.queue
    have hdirty : s.ctx.dirtyMetaLba = c.dirtyMetaLba := hp.dirty
    have hid : s.req.id = id := hp.id.trans hsusp.id_eq
    have hnone : s.ctx.kreqs s.req.id = none := by rw [hk, hid, Function.update_self]
    have hq' : s.req.id ∉ s.ctx.kvReqQueue := by rw [hqueue, hid]; exact hq
    cases hmod : modifyMeta r.req.opc with
    | true =>
      have hmod' : modifyMeta s.req.req.opc = true := by rw [hp.req]; exact hmod
      obtain ⟨s₁, hw, hready, hout⟩ := wp_ok
        (kvtransCall_writer hP hmod' ((hsusp.writer hmod).performed hp)) hcall
      have hlbas : s₁.req.lbas = r.lbas := by
        rw [← hp.lbas, Kreq.lbas, hw.chain]
        rfl
      have hK' : NoneBehindReader s.ctx := by
        refine hK.congr (fun id' hid' => ?_) hqueue
        rw [hk, Function.update_of_ne]
        rintro rfl
        exact hq hid'
      refine SyncInv.call (s := s₁) (A := r.lbas) ?_ (by rw [hlbas]; exact List.Subset.refl _) hready
        (by rw [hw.req]; exact hmod') (by rw [hw.ctx, hw.id]; exact hnone)
        (by rw [hw.ctx, hw.id]; exact hq') (by rw [hw.ctx]; exact hK') hout (hleft hmod')
      rw [hw.ctx]
      exact h.resume hr hq hk hqueue hdirty fun _ => List.Subset.refl _
    | false =>
      have hmod' : modifyMeta s.req.req.opc = false := by rw [hp.req]; exact hmod
      have hlen : s.req.chain.length = 1 := hp.length.trans (hsusp.reader hmod)
      obtain ⟨s₁, hw, hread⟩ := wp_ok (kvtransCall_reader hP hmod' hlen) hcall
      refine SyncInv.read (s := s₁) ?_ (by rw [hw.chain]; exact hlen) (by rw [hw.req]; exact hmod')
        (by rw [hw.ctx, hw.id]; exact hnone) (by rw [hw.ctx, hw.id]; exact hq') hread
      rw [hw.ctx]
      refine h.resume hr hq hk hqueue hdirty fun hm => ?_
      rw [hmod] at hm
      cases hm

end

/-! ### The other requests -/

/-- A suspended request goes on waiting for its I/O or its block, or is woken. -/
structure Apart (id : ℕ) (c c' : Ctx) : Prop where
  kreqs : ∀ r, c.kreqs id = some r → ∃ r', c'.kreqs id = some r' ∧ r'.req = r.req ∧ r'.lbas = r.lbas
  queue : id ∈ c'.kvReqQueue → id ∈ c.kvReqQueue

section

variable {s s₁ s' : Sys} {P : Params} {c c' : Ctx} {e : Event} {id x : ℕ}

theorem Apart.of_eq (hk : c'.kreqs = c.kreqs) (hq : c'.kvReqQueue = c.kvReqQueue) :
    Apart id c c' where
  kreqs := fun r hr => ⟨r, by rw [hk, hr], rfl, rfl⟩
  queue := fun h => by rw [← hq]; exact h

instance (id : ℕ) : IsPreorder Ctx (Apart id) where
  refl _ := .of_eq rfl rfl
  trans c c' c'' h h' := by
    refine ⟨fun r hr => ?_, fun hq => h.queue (h'.queue hq)⟩
    obtain ⟨r', hr', hreq, hlbas⟩ := h.kreqs r hr
    obtain ⟨r'', hr'', hreq', hlbas'⟩ := h'.kreqs r' hr'
    exact ⟨r'', hr'', hreq'.trans hreq, hlbas'.trans hlbas⟩

theorem Pops.apart (h : Pops x c c') : Apart id c c' := by
  cases h with
  | clean hdirty hc => exact .of_eq (by rw [hc]) (by rw [hc])
  | free hdirty hnone hc => exact .of_eq (by rw [hc]) (by rw [hc])
  | woken id' r st before after hdirty hqueue hbefore hr hlast hc =>
    subst hc
    refine ⟨fun r' hr' => ?_, List.mem_of_mem_erase⟩
    dsimp only
    rw [Function.update_apply]
    split_ifs with hid
    · rw [hid, hr] at hr'
      cases hr'
      exact ⟨_, rfl, rfl, Kreq.lbas_refresh r st⟩
    · exact ⟨r', hr', rfl, rfl⟩

theorem popChain_apart (chain : List BlkCtx) (s : Sys) :
    wp (fun _ => True) (popChain chain)
      (fun _ s' => Apart id s.ctx s'.ctx ∧ s'.req = s.req) s := by
  induction chain generalizing s with
  | nil => exact ⟨refl_of (Apart id) s.ctx, rfl⟩
  | cons b chain ih =>
    unfold popChain
    rw [wp_bind]
    refine wp_mono (popMetaBlkFromQueue_spec s) fun _ s₁ h => ?_
    exact wp_mono (ih s₁) fun _ s₂ h₂ =>
      ⟨trans_of (Apart id) h.1.apart h₂.1, h₂.2.trans h.2⟩

theorem SyncStep.apart {y : ℕ} (h : SyncStep y s s') (hk : s'.ctx.kreqs = s.ctx.kreqs)
    (hid : id ≠ s.req.id) : Apart id s.ctx s'.ctx := by
  refine ⟨fun r hr => ⟨r, by rw [hk, hr], rfl, rfl⟩, fun hq => ?_⟩
  rcases h with ⟨-, hqueue, -⟩ | ⟨-, hqueue, -⟩
  · rw [hqueue, List.mem_append, List.mem_singleton] at hq
    exact hq.resolve_right hid
  · rw [← hqueue]
    exact hq

theorem CallOutcome.apart {r : Status × Bool} (h : CallOutcome s s' r) (hid : id ≠ s.req.id) :
    Apart id s.ctx s'.ctx ∧ s'.req.id = s.req.id := by
  have hadds : ∀ {s₁}, Adds s s₁ → Apart id s.ctx s₁.ctx := fun ha => .of_eq ha.kreqs ha.queue
  cases h with
  | writing opens hstate => exact ⟨hadds opens.adds, opens.adds.id⟩
  | @loading s₁ s₂ y opens issues marks hstate =>
    have h₂ := issues.sync.apart issues.kreqs (by rw [opens.adds.id]; exact hid)
    refine ⟨?_, marks.id.trans (issues.id.trans opens.adds.id)⟩
    exact trans_of (Apart id) (trans_of (Apart id) (hadds opens.adds) h₂)
      (.of_eq marks.kreqs marks.queue)
  | @popped s₁ adds hstate hpop =>
    obtain ⟨h₂, hreq⟩ := wp_ok (Q := fun _ s' => Apart id s₁.ctx s'.ctx ∧ s'.req = s₁.req)
      (popChain_apart _ _) hpop
    exact ⟨trans_of (Apart id) (hadds adds) h₂, by rw [hreq, adds.id]⟩
  | @left rc s₁ s₂ hstart hrc hstate opens issues marks =>
    have h₂ : Apart id s₁.ctx s₂.ctx ∧ s₂.req.id = s₁.req.id := by
      rcases issues with rfl | ⟨y, issues⟩
      · exact ⟨refl_of (Apart id) s₂.ctx, rfl⟩
      · exact ⟨issues.sync.apart issues.kreqs (by rw [opens.adds.id]; exact hid), issues.id⟩
    refine ⟨?_, marks.id.trans (h₂.2.trans opens.adds.id)⟩
    exact trans_of (Apart id) (trans_of (Apart id) (hadds opens.adds) h₂.1)
      (.of_eq marks.kreqs marks.queue)

theorem Synced.apart {y : ℕ} (h : Synced y s { s' with req := { s'.req with state := s.req.state } })
    (hid : id ≠ s.req.id) : Apart id s.ctx s'.ctx ∧ s'.req.id = s.req.id :=
  ⟨SyncStep.apart h.sync h.kreqs hid, h.id⟩

theorem Sits.apart (h : Sits s s₁) (h' : Apart id s₁.ctx s'.ctx ∧ s'.req.id = s₁.req.id) :
    Apart id s.ctx s'.ctx ∧ s'.req.id = s.req.id :=
  ⟨trans_of (Apart id) (.of_eq h.kreqs h.queue) h'.1, h'.2.trans h.id⟩

theorem StartOutcome.apart {r : Status × Bool} (h : StartOutcome s s' r) (hid : id ≠ s.req.id) :
    Apart id s.ctx s'.ctx ∧ s'.req.id = s.req.id := by
  cases h with
  | failed hrc sits hstate => exact ⟨.of_eq sits.kreqs sits.queue, sits.id⟩
  | @loading s₁ sits sync hstate => exact sits.apart (sync.apart (by rw [sits.id]; exact hid))
  | @entered s₁ r sits ready hstate call marked =>
    exact sits.apart (call.apart (by rw [sits.id]; exact hid))

theorem ReadOutcome.apart {rc : Status} (h : ReadOutcome s s' rc) (hid : id ≠ s.req.id) :
    Apart id s.ctx s'.ctx ∧ s'.req.id = s.req.id := by
  cases h with
  | idle sits hstate => exact ⟨.of_eq sits.kreqs sits.queue, sits.id⟩
  | @loading s₁ hrc sits sync hstate => exact sits.apart (sync.apart (by rw [sits.id]; exact hid))

theorem finish_apart {rc : Status} (hid : id ≠ s.req.id) : Apart id s.ctx (finish rc s) := by
  unfold finish
  split_ifs
  · exact refl_of (Apart id) s.ctx
  · refine ⟨fun r hr => ⟨r, ?_, rfl, rfl⟩, fun h => h⟩
    exact (Function.update_of_ne hid _ _).trans hr

theorem Ctx.Holds.apart (h : c.Holds id x) (h' : Apart id c c') : c'.Holds id x := by
  obtain ⟨r, hr, hmod, hx⟩ := h
  obtain ⟨r', hr', hreq, hlbas⟩ := h'.kreqs r hr
  refine ⟨r', hr', by rw [hreq]; exact hmod, ?_⟩
  rw [hlbas]
  by_cases hq' : id ∈ c'.kvReqQueue
  · rw [if_pos (h'.queue hq')] at hx
    rw [if_pos hq']
    exact hx
  · rw [if_neg hq']
    split_ifs at hx
    · exact List.mem_of_mem_dropLast hx
    · exact hx

end

/-! ### The end of a request -/

/-- The request ends in the event with the release of its chain, and the LBA is in it. -/
def Releases (P : Params) (c : Ctx) (id x : ℕ) (e : Event) : Prop :=
  e = .ioDone id ∧ ∃ s rc s₁ s', handled P c e = some s ∧ kvtransCall P s = .ok ((rc, true), s') ∧
    x ∈ s₁.req.lbas ∧ popChain s₁.req.chain s₁ = .ok ((), s')

/-- The request does not end before it releases the LBA. -/
def ReleasedBeforeEnd (P : Params) (id x : ℕ) : Ctx → List Event → Prop
  | _, [] => True
  | c, e :: events => ∀ c', step P c e = some c' →
      Releases P c id x e ∨ (c'.kreqs id ≠ none ∧ ReleasedBeforeEnd P id x c' events)

section

variable {s s' : Sys} {P : Params} {c c' : Ctx} {e : Event} {id x : ℕ}

/-- The call of a request that goes on. -/
theorem CallOutcome.holds {r : Status × Bool} (h : CallOutcome s s' r) (hx : x ∈ s.req.lbas)
    (hmod : modifyMeta s.req.req.opc = true) (hq : s.req.id ∉ s.ctx.kvReqQueue)
    (hr : r.2 = false) : (finish r.1 s').Holds s.req.id x := by
  cases h with
  | writing opens hstate =>
    have ha := opens.adds
    rw [finish_suspended (by rw [hstate]; decide)]
    refine ⟨s'.req, by rw [ha.id]; exact Function.update_self _ _ _, by rw [ha.req]; exact hmod, ?_⟩
    have hq' : s.req.id ∉ s'.ctx.kvReqQueue := by rw [ha.queue]; exact hq
    rw [if_neg hq']
    exact ha.lbas_subset hx
  | @loading s₁ s₂ y opens issues marks hstate =>
    have ha := opens.adds
    have hne : s'.req.state ≠ .reqCmpl := by rcases hstate with h | h <;> rw [h] <;> decide
    have hid : s'.req.id = s.req.id := marks.id.trans (issues.id.trans ha.id)
    have hlbas : s'.req.lbas = s₁.req.lbas ++ [y] := by
      rw [marks.lbas_eq, Kreq.lbas_eq_cores, Kreq.lbas_eq_cores, issues.cores, List.map_append]
      rfl
    rw [finish_suspended hne]
    refine ⟨s'.req, by rw [hid]; exact Function.update_self _ _ _, ?_, ?_⟩
    · rw [marks.req, issues.req, ha.req]
      exact hmod
    · rw [hlbas, List.dropLast_concat]
      split_ifs
      · exact ha.lbas_subset hx
      · exact List.mem_append_left _ (ha.lbas_subset hx)
  | popped adds hstate hpop => cases hr
  | left hstart hrc hstate opens issues marks => cases hr

variable (hP : P.build = .disk)

include hP

theorem kvtransCall_apart {r : Status × Bool} (h : SyncInv [] c) (hh : handled P c e = some s)
    (hcall : kvtransCall P s = .ok (r, s')) (hid : id ≠ s.req.id) :
    Apart id s.ctx s'.ctx ∧ s'.req.id = s.req.id := by
  cases e with
  | start id' req =>
    obtain ⟨-, -, rfl⟩ := handled_start hh
    cases hmod : modifyMeta req.opc with
    | true =>
      obtain ⟨s₀, ht, -, hstart⟩ := wp_ok (kvtransCall_start hP hmod) hcall
      obtain ⟨h₀, hid'⟩ := hstart.apart (by rw [ht.id]; exact hid)
      exact ⟨trans_of (Apart id) (.of_eq ht.kreqs ht.queue) h₀, hid'.trans ht.id⟩
    | false =>
      obtain ⟨s₁, hw, hread⟩ := wp_ok (kvtransCall_reader hP hmod rfl) hcall
      obtain ⟨h₁, hid'⟩ := hread.apart (by rw [hw.id]; exact hid)
      rw [← hw.ctx]
      exact ⟨h₁, hid'.trans hw.id⟩
  | ioDone id' =>
    obtain ⟨r', hr, -, hp, -⟩ := handled_ioDone hh
    have hsusp := h.suspended id' r' hr
    cases hmod : modifyMeta r'.req.opc with
    | true =>
      obtain ⟨s₁, hw, -, hout⟩ := wp_ok (kvtransCall_writer hP (by rw [hp.req]; exact hmod)
        ((hsusp.writer hmod).performed hp)) hcall
      obtain ⟨h₁, hid'⟩ := hout.apart (by rw [hw.id]; exact hid)
      rw [← hw.ctx]
      exact ⟨h₁, hid'.trans hw.id⟩
    | false =>
      obtain ⟨s₁, hw, hread⟩ := wp_ok (kvtransCall_reader hP (by rw [hp.req]; exact hmod)
        (hp.length.trans (hsusp.reader hmod))) hcall
      obtain ⟨h₁, hid'⟩ := hread.apart (by rw [hw.id]; exact hid)
      rw [← hw.ctx]
      exact ⟨h₁, hid'.trans hw.id⟩

/-- A step lets the requests hold their LBAs, except the one that releases its chain. -/
theorem SyncInv.holds (h : SyncInv [] c) (hok : WakesAll P c e) (hholds : c.Holds id x)
    (hstep : Kvtrans.step P c e = some c') : Releases P c id x e ∨ c'.Holds id x := by
  rcases step_eq_some hstep with ⟨-, rfl⟩ | ⟨s, rc, returned, s', hh, hcall, rfl⟩
  · exact Or.inr hholds
  by_cases hid : id = s.req.id
  · cases e with
    | start id' req =>
      obtain ⟨hnone, -, rfl⟩ := handled_start hh
      obtain ⟨r, hr, -⟩ := hholds
      rw [hid, show (initKvtransReq id' req).id = id' from rfl, hnone] at hr
      cases hr
    | ioDone id' =>
      obtain ⟨r', hr', hq, hp, hk⟩ := handled_ioDone hh
      have hsusp := h.suspended id' r' hr'
      have hid' : id = id' := hid.trans (hp.id.trans hsusp.id_eq)
      subst hid'
      obtain ⟨r, hr, hmod, hx⟩ := hholds
      rw [hr] at hr'
      cases hr'
      rw [if_neg hq] at hx
      have hmod' : modifyMeta s.req.req.opc = true := by rw [hp.req]; exact hmod
      obtain ⟨s₁, hw, hready, hout⟩ := wp_ok (kvtransCall_writer hP hmod'
        ((hsusp.writer hmod).performed hp)) hcall
      have hx₁ : x ∈ s₁.req.lbas := by
        have hlbas : s₁.req.lbas = r'.lbas := by
          rw [← hp.lbas, Kreq.lbas, hw.chain]
          rfl
        rw [hlbas]
        exact hx
      cases hret : returned with
      | false =>
        have hqueue : s.ctx.kvReqQueue = c.kvReqQueue := hp.queue
        have hholds' := hout.holds hx₁ (by rw [hw.req]; exact hmod')
          (by rw [hw.ctx, hw.id, ← hid, hqueue]; exact hq) hret
        rw [hw.id, ← hid] at hholds'
        exact Or.inr hholds'
      | true =>
        subst hret
        have hleft := h.not_leavesEarly hP hok hh hmod' hcall
        cases hout with
        | @popped s₂ adds hstate hpop =>
          exact Or.inl ⟨rfl, s, _, s₂, s', hh, hcall, adds.lbas_subset hx₁, hpop⟩
        | left hstart hrc hstate opens issues marks => exact absurd ⟨rfl, hstate⟩ hleft
  · have hs : Apart id c s.ctx := by
      cases e with
      | start id' req =>
        obtain ⟨-, -, rfl⟩ := handled_start hh
        exact refl_of (Apart id) c
      | ioDone id' =>
        obtain ⟨r', hr', hq, hp, hk⟩ := handled_ioDone hh
        have hid' : id ≠ id' := by
          rw [hp.id, (h.suspended id' r' hr').id_eq] at hid
          exact hid
        have hqueue : s.ctx.kvReqQueue = c.kvReqQueue := hp.queue
        refine ⟨fun r hr => ⟨r, ?_, rfl, rfl⟩, fun hq => by rw [← hqueue]; exact hq⟩
        rw [hk, Function.update_of_ne hid', hr]
    obtain ⟨hcall', hreq⟩ := kvtransCall_apart hP h hh hcall hid
    refine Or.inr (hholds.apart (trans_of (Apart id) (trans_of (Apart id) hs hcall') ?_))
    exact finish_apart (by rw [hreq]; exact hid)

theorem SyncInv.releasedBeforeEnd {events : List Event} (h : SyncInv [] c)
    (hok : Run.Admissible (Kvtrans.step P) (WakesAll P) c events) (hholds : c.Holds id x) :
    ReleasedBeforeEnd P id x c events := by
  induction events generalizing c with
  | nil => trivial
  | cons e events ih =>
    intro c' hstep
    refine (h.holds hP hok.1 hholds hstep).imp_right fun hholds' => ⟨?_, ?_⟩
    · obtain ⟨r, hr, -⟩ := hholds'
      rw [hr]
      exact Option.some_ne_none _
    · exact ih (h.step hP hok.1 hstep) (hok.2 c' hstep) hholds'

end

/-! ### Whole runs -/

/-- No wake-up is lost, with `events` what comes next: a request of the queue waits for a dirty LBA,
and a dirty LBA is held by an unfinished request that releases it before it ends. -/
structure NoLostWakeUp (P : Params) (c : Ctx) (events : List Event) : Prop where
  waiting : ∀ id ∈ c.kvReqQueue, ∃ x, c.waitLba id = some x ∧ c.dirtyMetaLba x = true
  held : ∀ x, c.dirtyMetaLba x = true → ∃ id, c.Holds id x ∧ ReleasedBeforeEnd P id x c events
  idle : (∀ id, c.kreqs id = none) → c.kvReqQueue = [] ∧ ∀ x, c.dirtyMetaLba x = false

section

variable {P : Params} {c : Ctx} {e : Event}

theorem syncInv_initKvtransCtx (alloc : BlockAllocator.Context) :
    SyncInv [] (initKvtransCtx alloc) where
  suspended := fun id r hr => by cases hr
  queued := fun id hid => absurd hid List.not_mem_nil
  nodup := List.nodup_nil
  wait := fun id hid => absurd hid List.not_mem_nil
  held := fun x hx => by cases hx

theorem Suspended.exists_getLast? {id : ℕ} {r : Kreq} (h : Suspended id r) :
    ∃ x, r.lbas.getLast? = some x := by
  have hne : r.chain ≠ [] := by
    cases hmod : modifyMeta r.req.opc with
    | true => exact (h.writer hmod).ne_nil
    | false =>
      have hlen := h.reader hmod
      intro hc
      rw [hc] at hlen
      cases hlen
  have hne' : r.lbas ≠ [] := fun hc => hne (List.map_eq_nil_iff.1 hc)
  exact ⟨_, List.getLast?_eq_some_getLast hne'⟩

theorem SyncInv.noLostWakeUp (hP : P.build = .disk) {events : List Event} (h : SyncInv [] c)
    (hok : Run.Admissible (Kvtrans.step P) (WakesAll P) c events) : NoLostWakeUp P c events := by
  have hheld : ∀ x, c.dirtyMetaLba x = true → ∃ id, c.Holds id x :=
    fun x hx => (h.held x hx).resolve_right List.not_mem_nil
  refine ⟨fun id hid => ?_, fun x hx => ?_, fun hidle => ⟨?_, fun x => ?_⟩⟩
  · obtain ⟨r, hr⟩ := Option.ne_none_iff_exists'.1 (h.queued id hid)
    obtain ⟨x, hx⟩ := (h.suspended id r hr).exists_getLast?
    rw [← Ctx.waitLba_eq hr] at hx
    exact ⟨x, hx, h.wait id hid x hx⟩
  · obtain ⟨id, hid⟩ := hheld x hx
    exact ⟨id, hid, h.releasedBeforeEnd hP hok hid⟩
  · exact List.eq_nil_iff_forall_not_mem.2 fun id hid => h.queued id hid (hidle id)
  · by_contra hx
    obtain ⟨id, r, hr, -⟩ := hheld x (by simpa using hx)
    rw [hidle id] at hr
    cases hr

/-- In every run in which no request waits behind a reader and every entry that is deleted can be
removed, no wake-up is lost. -/
theorem noLostWakeUp_of_run (hP : P.build = .disk) (alloc : BlockAllocator.Context)
    {events next : List Event}
    (hok : Run.Admissible (step P) (WakesAll P) (initKvtransCtx alloc) (events ++ next))
    (hrun : Run.run (step P) (initKvtransCtx alloc) events = some c) : NoLostWakeUp P c next := by
  obtain ⟨hevents, hnext⟩ := hok.append
  have h : SyncInv [] c := Run.run_inv
    (fun _ _ _ (h : SyncInv [] _) hok hstep => h.step hP hok hstep) (syncInv_initKvtransCtx alloc)
    hevents hrun
  exact h.noLostWakeUp hP (hnext c hrun)

/-- A device with eight blocks, and the first byte of a key as its hash. -/
def eightBlocks : Params where
  build := .disk
  blkOffset := 1
  blkNum := 8
  blkSize := 4096
  isBaMetaSyncEnabled := false
  hash := fun key => 1 + (key.headD 0).toNat % 8

/-- The empty device. -/
def eightEmptyBlocks : Ctx :=
  initKvtransCtx ((BlockAllocator.dssBlkAllocatorInit ⟨8, 8, 1, 1⟩).get (by rfl))

/-- A request for the key of one byte `1`. -/
def oneByteReq (opc : Opc) : Req := ⟨opc, [1], 1, [7]⟩

/-- A DELETE of the key `[9]` that has loaded the block `3` of the key, behind the block `2` of the
key `[1]`. -/
def deletesNine (alloc : BlockAllocator.Context) : Sys where
  ctx := initKvtransCtx alloc
  req := { initKvtransReq 0 ⟨.delete, [9], 1, []⟩ with
    state := .queueToLoadCol
    chain := [
      { BlkCtx.zero with
        index := 2, state := .collision, flag := .toDelete
        blk := { OndiskMeta.zero with
          key := [1], keyLen := 1, isvalid := true, valueSize := 1, valueBuffer := [7]
          numValidColEntry := 1
          collisionTbl := fun i =>
            if i.val = 0 then ⟨[9], 3, .metaColEntry⟩ else OndiskMeta.zero.collisionTbl i } },
      { BlkCtx.zero with
        index := 3, state := .metaBlk
        blk := { OndiskMeta.zero with
          key := [9], keyLen := 1, isvalid := true, valueSize := 1, valueBuffer := [7] } }] }

/-- Its entry can be removed, with an allocator that has the two blocks in use. -/
theorem entryRemovable_deletesNine : ∃ alloc, (deletesNine alloc).deletesEntry = true ∧
    EntryRemovable eightBlocks (deletesNine alloc) := by
  let calls : List BlockAllocator.Context.Call := [.setBlocksState 2 1 3, .setBlocksState 3 1 1]
  obtain ⟨alloc, hc⟩ : ∃ alloc,
      Run.run BlockAllocator.Context.step eightEmptyBlocks.alloc calls = some alloc :=
    Option.isSome_iff_exists.1 (by decide +kernel)
  have hall : (Run.run BlockAllocator.Context.step eightEmptyBlocks.alloc calls).all fun c =>
      c.alloc.cellOf 2 ≠ 0 ∧ c.alloc.cellOf 3 ≠ 0 ∧ c.alloc.bitsPerCell = 4 ∧
      c.alloc.data.length = 1 ∧ c.alloc.cells = 8 ∧ c.alloc.logicalStartBlockOffset = 1 ∧
      c.alloc.numBlockStates = 9 ∧ c.opts = ⟨8, 8, 1, 1⟩ := by
    decide +kernel
  rw [hc] at hall
  obtain ⟨h2, h3, hbits, hdata, hcells, hoffset, hstates, hopts⟩ := of_decide_eq_true hall
  have hlba : ∀ p < 2, (deletesNine alloc).lba p = p + 2 ∧ (deletesNine alloc).extents p = [] := by
    intro p hp
    interval_cases p
    · exact ⟨rfl, rfl⟩
    · exact ⟨rfl, rfl⟩
  refine ⟨alloc, rfl, ⟨le_rfl, ?_, fun p hp => ?_, fun p hp q hq => ?_, fun p hp loc hloc => ?_,
    fun p hp => ?_, fun x it hx => ?_, fun x it hx => ?_⟩, ⟨0, rfl⟩, rfl⟩
  · have hsize := congrArg (BlockAllocator.QwordVector64Cell.totalQwords · 4) hcells
    exact ⟨⟨hbits, hdata.trans hsize.symm⟩, hcells, hoffset, hstates,
      congrArg BlockAllocator.Opts.numTotalBlocks hopts,
      congrArg BlockAllocator.Opts.logicalStartBlockOffset hopts,
      congrArg BlockAllocator.Opts.numBlockStates hopts, by decide⟩
  · rw [(hlba p hp).1]
    have hp' : p < 2 := hp
    show 1 ≤ p + 2 ∧ p + 2 + 1 ≤ 1 + 8
    omega
  · rw [(hlba p hp).1, (hlba q (hq.trans hp)).1]
    omega
  · rw [(hlba p hp).2] at hloc
    cases hloc
  · have hp' : p < 2 := hp
    rw [(hlba p hp).1]
    interval_cases p
    · exact h2
    · exact h3
  · cases hx
  · cases hx

/-- A DELETE waits for a STORE of the same key, and a RETRIEVE for the DELETE. -/
def readerLast : List Event :=
  [.start 0 (oneByteReq .store), .start 1 (oneByteReq .delete), .ioDone 0,
    .start 2 (oneByteReq .retrieve), .ioDone 1, .ioDone 1]

theorem wakesAll_of_noEntry (h : NoneBehindReader c)
    (hno : (handled P c e).all (fun s => !s.deletesEntry) = true) : WakesAll P c e := by
  refine ⟨h, fun s hs hdel => ?_⟩
  rw [hs, Option.all_some, hdel] at hno
  cases hno

theorem noLostWakeUp_readerLast :
    ∃ c, Run.run (step eightBlocks) eightEmptyBlocks readerLast = some c ∧
      NoLostWakeUp eightBlocks c [.ioDone 2] := by
  obtain ⟨c, hc⟩ : ∃ c, Run.run (step eightBlocks) eightEmptyBlocks readerLast = some c :=
    Option.isSome_iff_exists.1 (by decide +kernel)
  have hok : Run.Admissible (step eightBlocks)
      (fun c e => NoneBehindReader c ∧ (handled eightBlocks c e).all (fun s => !s.deletesEntry) = true)
      eightEmptyBlocks (readerLast ++ [.ioDone 2]) := by
    decide +kernel
  exact ⟨c, hc, noLostWakeUp_of_run rfl _ (hok.imp fun _ _ _ h => wakesAll_of_noEntry h.1 h.2) hc⟩

/-- Two RETRIEVE wait for a STORE of the same key, and only the first one is woken. -/
def twoReaders : List Event :=
  [.start 0 (oneByteReq .store), .start 1 (oneByteReq .retrieve), .start 2 (oneByteReq .retrieve),
    .ioDone 0]

theorem not_noLostWakeUp_twoReaders :
    ¬ ∀ (P : Params) (alloc : BlockAllocator.Context) (events next : List Event) (c : Ctx),
      P.build = .disk → Run.run (step P) (initKvtransCtx alloc) events = some c →
      NoLostWakeUp P c next := by
  intro hall
  obtain ⟨c, hc⟩ : ∃ c, Run.run (step eightBlocks) eightEmptyBlocks twoReaders = some c :=
    Option.isSome_iff_exists.1 (by decide +kernel)
  have hlost : (Run.run (step eightBlocks) eightEmptyBlocks twoReaders).all fun c =>
      2 ∈ c.kvReqQueue ∧ c.waitLba 2 = some 2 ∧ c.dirtyMetaLba 2 = false := by decide +kernel
  rw [hc] at hlost
  obtain ⟨hq, hwait, hclean⟩ := of_decide_eq_true hlost
  obtain ⟨x, hx, hdirty⟩ := (hall _ _ _ [] c rfl hc).waiting 2 hq
  rw [hwait] at hx
  cases hx
  rw [hclean] at hdirty
  cases hdirty

end

end DssSdk.Kvtrans
