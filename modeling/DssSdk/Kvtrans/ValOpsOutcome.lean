import DssSdk.Kvtrans.KeyOpsOutcome

/-!
# The outcome of a call of `_kvtrans_val_ops`

A request that reads has one block context, which it uses for one block after the other. It marks
nothing: a call ends with the load of a block, or without any effect on the meta synchronisation.
-/

namespace DssSdk.Kvtrans

open Program

/-- What one call of `_kvtrans_val_ops` did. -/
inductive ReadOutcome (s s' : Sys) (rc : Status) : Prop
  | idle (sits : Sits s s') (hstate : s'.req.state ≠ .queueToLoadEntry)
  | loading {s₁ : Sys} (hrc : rc = .success) (sits : Sits s s₁)
      (sync : Synced (s₁.req.chain.getD 0 BlkCtx.zero).index s₁
        { s' with req := { s'.req with state := s₁.req.state } })
      (hstate : s'.req.state = .queueToLoadEntry)

theorem ReadOutcome.sits_trans {s s₁ s' : Sys} {rc : Status} (h : Sits s s₁)
    (h' : ReadOutcome s₁ s' rc) : ReadOutcome s s' rc := by
  cases h' with
  | idle sits hstate => exact .idle (trans_of Sits h sits) hstate
  | loading hrc sits sync hstate => exact .loading hrc (trans_of Sits h sits) sync hstate

section

variable {P : Params} {s : Sys}

theorem ReadOutcome.of_chain {s' : Sys} {rc : Status} (hctx : s'.ctx = s.ctx)
    (hid : s'.req.id = s.req.id) (hreq : s'.req.req = s.req.req)
    (hchain : s'.req.chain = s.req.chain) (hstate : s'.req.state ≠ .queueToLoadEntry) :
    ReadOutcome s s' rc := by
  refine .idle ⟨hid, hreq, by rw [hchain], ⟨hreq, by rw [hchain]⟩, ?_, ?_, ?_, ?_⟩ hstate
  all_goals rw [hctx]

theorem valOps_loading (cb : Bool) (h : s.req.state = .queueToLoadEntry) (fuel : ℕ) (rc : Status) :
    wp (fun _ => True) (valOps P cb fuel rc) (fun r s' => r = (rc, false) ∧ s' = s) s := by
  cases fuel with
  | zero => trivial
  | succ fuel =>
    unfold valOps valOpsIter
    simp [h]

theorem completeReq_spec (s : Sys) (o : Option Status × Status) :
    wp (fun _ => True) (do
      modifyReq fun r => { r with state := .reqCmpl }
      return o) (fun r s' => ReadOutcome s s' (r.1.getD r.2)) s :=
  ReadOutcome.of_chain rfl rfl rfl rfl (by simp)

variable (hP : P.build = .disk)

include hP

theorem valFound_spec (cb : Bool) :
    wp (fun _ => True) (valFound P cb 0) (fun r s' => ReadOutcome s s' (r.1.getD r.2)) s := by
  unfold valFound blkLoadValue modifyReq
  rw [wp_ite, hP]
  refine ⟨fun _ => ?_, fun _ => .of_chain rfl rfl rfl rfl (by simp)⟩
  rw [wp_bind, wp_bind, wp_blkAt, wp_bind, wp_get, wp_ite]
  exact ⟨fun _ => .of_chain rfl rfl rfl rfl (by simp), fun _ => .of_chain rfl rfl rfl rfl (by simp)⟩

theorem loadOther_spec (f : BlkCtx → ℕ) (k : Status → Option Status × Status)
    (hk : (k .success).1.getD (k .success).2 = .success) :
    wp (fun _ => True) (do
        modifyBlk 0 fun b => { b with index := f b }
        let rc ← loadOndiskBlk P 0
        let rc ← updateKreqStatAfterIo rc .entryLoadingDone .queueToLoadEntry
        return k rc) (fun r s' => ReadOutcome s s' (r.1.getD r.2)) s := by
  refine (sits_modifyBlk fun _ => by rfl).wp_then fun _ s₁ h₁ => ?_
  rw [wp_bind]
  refine wp_mono (loadOndiskBlk_spec hP) ?_
  rintro rc s₂ ⟨rfl, h₂⟩
  unfold updateKreqStatAfterIo modifyReq
  rw [wp_bind, wp_bind, wp_modify, wp_pure, wp_pure, hk]
  refine .loading rfl h₁ ?_ rfl
  exact ⟨h₂.id, h₂.req, rfl, h₂.chain, h₂.sync, h₂.kreqs, h₂.metas⟩

theorem collisions_spec (cb : Bool) (b : BlkCtx) (c : Prop) [Decidable c] :
    wp (fun _ => True)
      (if c then valFound P cb 0
      else
        match (List.finRange maxColTblSize).find? fun i =>
          isEntryMatch (b.blk.collisionTbl i) s.req.req.key ∧
            colTblEntryIsvalid (b.blk.collisionTbl i) with
        | some i => do
            if cb then
              modifyBlk 0 fun b => { b with
                index := (b.blk.collisionTbl i).metaCollisionIndex }
              let rc ← loadOndiskBlk P 0
              let rc ← updateKreqStatAfterIo rc .entryLoadingDone .queueToLoadEntry
              return (if rc = .success then none else some rc, rc)
            else
              modifyReq fun r => { r with state := .reqCmpl }
              return (none, .success)
        | none => do
            if 0 < b.blk.collisionExtensionIndex then
              modifyBlk 0 fun b => { b with index := b.blk.collisionExtensionIndex }
              let rc ← loadOndiskBlk P 0
              let rc ← updateKreqStatAfterIo rc .entryLoadingDone .queueToLoadEntry
              return (none, rc)
            else
              modifyReq fun r => { r with state := .reqCmpl }
              return (none, .notFound))
      (fun r s' => ReadOutcome s s' (r.1.getD r.2)) s := by
  rw [wp_ite]
  refine ⟨fun _ => valFound_spec hP cb, fun _ => ?_⟩
  split
  · rw [wp_ite]
    exact ⟨fun _ => loadOther_spec hP _ _ rfl, fun _ => completeReq_spec s _⟩
  · rw [wp_ite]
    exact ⟨fun _ => loadOther_spec hP _ _ rfl, fun _ => completeReq_spec s _⟩

/-- One iteration of the loop of `_kvtrans_val_ops`. -/
theorem valOpsIter_spec (cb : Bool) (rc : Status) (hlen : s.req.chain.length = 1)
    (hst : s.req.state ≠ .queueToLoadEntry) :
    wp (fun _ => True) (valOpsIter P cb rc) (fun r s' => ReadOutcome s s' (r.1.getD r.2)) s := by
  have hstay : ∀ rc, ReadOutcome s s rc := fun rc => .idle (refl_of Sits s) hst
  have hcmpl := completeReq_spec s
  unfold valOpsIter
  rw [wp_bind, wp_get]
  split
  · rw [wp_bind]
    refine wp_mono (allocEntryBlock_spec hP hlen) fun rc s₁ h₁ => ?_
    rw [wp_pure]
    cases h₁ with
    | failed hrc sits hstate => exact .idle sits (by rw [hstate]; decide)
    | untested hrc sits hstate hb => exact .idle sits (by rw [hstate]; decide)
    | loading hrc sits sync hstate => exact .loading hrc sits sync hstate
  · rename_i h
    exact absurd h hst
  · exact hstay rc
  · rw [wp_bind, wp_blkAt]
    generalize s.req.chain.getD 0 BlkCtx.zero = b
    split
    · exact hcmpl _
    · exact hcmpl _
    · rw [wp_ite]
      exact ⟨fun _ => valFound_spec hP cb, fun _ => hcmpl _⟩
    · trivial
    · trivial
    · trivial
    · exact collisions_spec hP cb _ _
    · exact collisions_spec hP cb _ _
    · exact collisions_spec hP cb _ _
    · trivial
  · rw [hP, wp_ite]
    exact ⟨fun _ => hstay rc, fun h => absurd rfl h⟩
  · exact hcmpl _
  · exact hstay rc
  · trivial
  · trivial
  · trivial
  · trivial
  · trivial

/-- A call of `_kvtrans_val_ops`, by induction on the iterations. -/
theorem valOps_spec (cb : Bool) (fuel : ℕ) (rc : Status) (hlen : s.req.chain.length = 1)
    (hst : s.req.state ≠ .queueToLoadEntry) :
    wp (fun _ => True) (valOps P cb fuel rc) (fun r s' => ReadOutcome s s' r.1) s := by
  induction fuel generalizing s rc with
  | zero => trivial
  | succ fuel ih =>
    unfold valOps
    rw [wp_bind, wp_get, wp_bind]
    refine wp_mono (valOpsIter_spec hP cb rc hlen hst) ?_
    rintro ⟨o, rc⟩ s₁ h₁
    cases o with
    | some rc' => exact h₁
    | none =>
      dsimp only
      rw [wp_bind, wp_get, wp_ite]
      refine ⟨fun _ => ?_, fun _ => h₁⟩
      cases h₁ with
      | idle sits hstate =>
        exact wp_mono (ih rc (sits.length.trans hlen) hstate) fun r s' h => h.sits_trans sits
      | loading hrc sits sync hstate =>
        refine wp_mono (valOps_loading cb hstate fuel rc) ?_
        rintro r s' ⟨rfl, rfl⟩
        exact .loading hrc sits sync hstate

end

end DssSdk.Kvtrans
