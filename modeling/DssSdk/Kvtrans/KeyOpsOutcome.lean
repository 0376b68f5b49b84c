import DssSdk.Kvtrans.UpdateOutcome

/-!
# The outcome of a call of `_kvtrans_key_ops`

In the disk build a call ends in one of four ways (`CallOutcome`): the request waits for its writes,
it has issued the load of the next block, it has released its whole chain, or it left early with an
error. `Ready` is what a request has to bring at the start of an iteration.
-/

namespace DssSdk.Kvtrans

open Program

/-- The last block context knows no insertable place. -/
def LastInsert (s : Sys) : Prop :=
  ∀ c, s.req.chain.getLast? = some c → c.firstInsertBlkCtx = none

/-- A request inside the loop of `_kvtrans_key_ops`, after its entry block is known. -/
structure Ready (s : Sys) : Prop where
  ne_nil : s.req.chain ≠ []
  flag : ∀ dc, s.req.entry ≠ some (dc, .update)
  entry : s.req.state = .entryLoadingDone → s.req.chain.length = 1
  ext : s.req.state = .colExtLoadingDone ∨ s.req.state = .colExtLoadingContig →
    LastInsert s ∨ FreshLast s
  running : s.req.state = .entryLoadingDone ∨ s.req.state = .colLoadingDone ∨
    s.req.state = .colExtLoadingDone ∨ s.req.state = .colExtLoadingContig ∨
    s.req.state = .queueToStartIo ∨ s.req.state = .ioCmpl ∨ s.req.state = .reqCmpl

/-- The load of a collision block was issued. -/
def Loading (s : Sys) : Prop :=
  s.req.state = .queueToLoadCol ∨ s.req.state = .queueToLoadColExt

/-- What one call of `_kvtrans_key_ops` did. -/
inductive CallOutcome (s s' : Sys) : Status × Bool → Prop
  | writing (opens : Opens s s') (hstate : s'.req.state = .queueToStartIo) :
      CallOutcome s s' (.success, false)
  | loading {s₁ s₂ : Sys} (y : ℕ) (opens : Opens s s₁) (issues : Issues y s₁ s₂)
      (marks : Marks {i | i + 1 < s₂.req.chain.length} s₂ s') (hstate : Loading s') :
      CallOutcome s s' (.success, false)
  | popped {s₁ : Sys} (adds : Adds s s₁) (hstate : s₁.req.state = .reqCmpl)
      (hpop : popChain s₁.req.chain s₁ = .ok ((), s')) : CallOutcome s s' (.success, true)
  | left {rc : Status} {s₁ s₂ : Sys} (hstart : s.req.state = .colLoadingDone) (hrc : rc ≠ .success)
      (hstate : s'.req.state = .colLoadingDone ∨ Loading s') (opens : Opens s s₁)
      (issues : s₂ = s₁ ∨ ∃ y, Issues y s₁ s₂) (marks : Marks Set.univ s₂ s') :
      CallOutcome s s' (rc, true)

theorem CallOutcome.opens_trans {s s₁ s' : Sys} {r : Status × Bool} (h : Opens s s₁)
    (hcol : s₁.req.state ≠ .colLoadingDone) (h' : CallOutcome s₁ s' r) : CallOutcome s s' r := by
  cases h' with
  | writing opens hstate => exact .writing (trans_of Opens h opens) hstate
  | loading y opens issues marks hstate =>
    exact .loading y (trans_of Opens h opens) issues marks hstate
  | popped adds hstate hpop => exact .popped (trans_of Adds h.adds adds) hstate hpop
  | left hstart hrc hstate opens issues marks => exact absurd hstart hcol

/-- What one iteration of the loop of `_kvtrans_key_ops` did. -/
inductive IterOutcome (s s' : Sys) : Option Status → Prop
  | next (opens : Opens s s') (ready : Ready s') (hcol : s'.req.state ≠ .colLoadingDone)
      (hne : s'.req.state ≠ s.req.state) : IterOutcome s s' none
  | stop (hs : s' = s) (hstate : s.req.state = .queueToStartIo) : IterOutcome s s' none
  | loading (call : CallOutcome s s' (.success, false)) (hstate : Loading s') :
      IterOutcome s s' none
  | returned {rc : Status} (call : CallOutcome s s' (rc, true)) : IterOutcome s s' (some rc)

/-! ### The states of a request -/

section

variable {P : Params} {s : Sys} {T : Set ℕ}

theorem opens_setState (st : ReqState) (s : Sys) :
    Opens s { s with req := { s.req with state := st } } where
  adds := ⟨rfl, rfl, List.prefix_rfl, fun _ => rfl, fun _ h => h, fun _ h => Or.inl h, rfl, rfl,
    rfl⟩
  opened := ⟨[], by simp [Kreq.cores], fun _ h => absurd h List.not_mem_nil⟩

theorem Opens.entry (h : Opens s s₁) (hs : Ready s) : s₁.req.entry = s.req.entry :=
  h.adds.entry hs.ne_nil

theorem Ready.startIo {s₁ : Sys} (hs : Ready s) (h : Opens s s₁)
    (hstate : s₁.req.state = .queueToStartIo ∨ s₁.req.state = .ioCmpl ∨ s₁.req.state = .reqCmpl) :
    Ready s₁ where
  ne_nil := h.adds.ne_nil hs.ne_nil
  flag := fun dc => by rw [h.entry hs]; exact hs.flag dc
  entry := fun he => by rw [he] at hstate; simp at hstate
  ext := fun he => by rcases he with he | he <;> rw [he] at hstate <;> simp at hstate
  running := by rcases hstate with h | h | h <;> simp [h]

theorem Ready.head? (hs : Ready s) :
    s.req.chain.head? = some (s.req.chain.getD 0 BlkCtx.zero) := by
  cases hc : s.req.chain with
  | nil => exact absurd hc hs.ne_nil
  | cons b l => rfl

theorem Ready.of_entry (hlen : s.req.chain.length = 1)
    (hflag : (s.req.chain.getD 0 BlkCtx.zero).flag ≠ .update)
    (hstate : s.req.state = .entryLoadingDone) : Ready s where
  ne_nil := fun h => by rw [h] at hlen; cases hlen
  flag := fun dc hentry => by
    cases hc : s.req.chain with
    | nil => rw [hc] at hlen; cases hlen
    | cons b l =>
      rw [hc] at hflag
      rw [Kreq.entry, hc] at hentry
      exact hflag (Prod.mk.inj (Option.some.inj hentry)).2
  entry := fun _ => hlen
  ext := fun h => by rw [hstate] at h; simp at h
  running := Or.inl hstate

theorem Ready.entry_flag (hs : Ready s) : (s.req.chain.getD 0 BlkCtx.zero).flag ≠ .update := by
  intro hf
  refine hs.flag (s.req.chain.getD 0 BlkCtx.zero).dcIndex ?_
  rw [Kreq.entry, hs.head?, ← hf]
  rfl

theorem Ready.ext_getD {col : ℕ} (hs : Ready s)
    (hst : s.req.state = .colExtLoadingDone ∨ s.req.state = .colExtLoadingContig)
    (hlen : s.req.chain.length = col + 1) :
    (s.req.chain.getD col BlkCtx.zero).firstInsertBlkCtx = none ∨ FreshAt col s := by
  rcases hs.ext hst with h | h
  · refine Or.inl (h _ ?_)
    rw [List.getLast?_eq_getElem?, hlen, List.getD_eq_getElem?_getD, Nat.add_sub_cancel,
      List.getElem?_eq_getElem (by omega)]
    rfl
  · unfold FreshLast at h
    rw [hlen, Nat.add_sub_cancel] at h
    exact Or.inr h

theorem Ready.not_loading (hs : Ready s) : ¬ Loading s := by
  rintro (h | h) <;> have hr := hs.running <;> rw [h] at hr <;> simp at hr

/-- The label `req_terminate` in the disk build. -/
theorem reqTerminate_spec (hP : P.build = .disk) {s₁ : Sys} (h : Adds s s₁) (rc : Status) :
    wp (fun _ => True) (some <$> reqTerminate P rc) (fun o s' => IterOutcome s s' o) s₁ := by
  unfold reqTerminate modifyReq
  rw [wp_map, hP, wp_bind, wp_modify, wp_bind, wp_get, wp_bind]
  refine wp_true_iff.2 fun _ s' hs' => ?_
  exact .returned (.popped (trans_of Adds h (opens_setState .reqCmpl s₁).adds) rfl hs')

theorem startIoFrom_spec {s₁ : Sys} {st : ReqState} (hs : Ready s) (h : Opens s s₁)
    (hst : s.req.state = st) (hst₁ : s₁.req.state = st) (hne : st ≠ .queueToStartIo) :
    wp (fun _ => True) (startIoFrom st) (fun o s' => IterOutcome s s' o) s₁ := by
  unfold startIoFrom modifyReq
  rw [wp_bind, wp_modify, wp_pure]
  dsimp only
  rw [if_pos hst₁]
  have ho := trans_of Opens h (opens_setState .queueToStartIo s₁)
  refine .next ho (hs.startIo ho (Or.inl rfl))
    (by decide : ReqState.queueToStartIo ≠ .colLoadingDone) ?_
  rw [hst]
  exact hne.symm

end

/-! ### The iterations -/

theorem quiet_setupColState {col : ℕ} (hcol : col ≠ 0) :
    Keeps (Quiet {col}) (setupColState col) := by
  unfold setupColState
  refine Keeps.bind (quiet_blkAt col) fun c => ?_
  split
  · exact Keeps.throw _
  · refine Keeps.bind ?_ fun _ => quiet_dssAssert _
    exact quiet_modifyBlk (Set.mem_singleton col) (fun _ => rfl) (fun _ => rfl)
      fun h => absurd h hcol
  · exact quiet_dssAssert _
  · exact quiet_dssAssert _
  · exact quiet_setState (Set.mem_singleton col) _
  · exact quiet_setState (Set.mem_singleton col) _
  · exact Keeps.pure _
  · exact Keeps.pure _
  · exact Keeps.pure _
  · exact Keeps.pure _

theorem quiet_setupCol {col : ℕ} (hcol : col ≠ 0) (b : BlkCtx) :
    Keeps (Quiet {col}) (setupCol col b) :=
  quiet_modifyBlk (Set.mem_singleton col) (fun _ => rfl) (fun _ => rfl) fun h => absurd h hcol

section

variable {P : Params} {s : Sys}

/-- The end of `COL_EXT_LOADING_DONE`: a block that was opened behind the extension is fresh. -/
theorem nextExtension_spec {s₁ : Sys} {col : ℕ} (hs : Ready s)
    (hst : s.req.state = .colExtLoadingDone) (hcol : s.req.chain.length = col + 1)
    (h : Opens s s₁) (hst₁ : s₁.req.state = .colExtLoadingDone)
    (fresh : s₁.req.chain.length ≠ s.req.chain.length → FreshLast s₁) :
    wp (fun _ => True) (nextExtension col) (fun o s' => IterOutcome s s' o) s₁ := by
  unfold nextExtension modifyReq
  rw [wp_bind, wp_get, wp_bind, wp_blkAt, if_pos hst₁, wp_ite]
  refine ⟨fun hnext => ?_, fun _ => ?_⟩
  · rw [wp_bind, wp_modify, wp_pure]
    have ho := trans_of Opens h (opens_setState .colExtLoadingContig s₁)
    have hfresh : FreshLast s₁ := fresh (by omega)
    refine .next ho ⟨ho.adds.ne_nil hs.ne_nil, fun dc => ?_, fun he => ?_, fun _ => Or.inr hfresh, ?_⟩
      (by decide : ReqState.colExtLoadingContig ≠ .colLoadingDone) ?_
    · rw [ho.entry hs]
      exact hs.flag dc
    · cases he
    · exact Or.inr (Or.inr (Or.inr (Or.inl rfl)))
    · rw [hst]
      exact (by decide : ReqState.colExtLoadingContig ≠ .colExtLoadingDone)
  · rw [wp_bind, wp_modify, wp_pure]
    have ho := trans_of Opens h (opens_setState .queueToStartIo s₁)
    refine .next ho (hs.startIo ho (Or.inl rfl))
      (by decide : ReqState.queueToStartIo ≠ .colLoadingDone) ?_
    rw [hst]
    exact (by decide : ReqState.queueToStartIo ≠ .colExtLoadingDone)

/-- The handler of the extension at the end of the chain. A write is not answered with `NOT_FOUND`,
so the insertion at an earlier place is never reached. -/
theorem insertFirst_eq {col : ℕ} {flag : OpsFlag} {rc : Status}
    (h : rc = .notFound → flag = .toDelete) (Q : Status → Sys → Prop) (hQ : Q rc s) :
    wp (fun _ => True) (insertFirst P col flag rc) Q s := by
  unfold insertFirst
  rw [wp_bind, wp_blkAt]
  split
  · rw [wp_ite]
    exact ⟨fun hins => absurd (h hins.1) hins.2, fun _ => hQ⟩
  · exact hQ

theorem keyOps_loading (h : s.req.state = .queueToLoadEntry ∨ Loading s) (fuel : ℕ) :
    wp (fun _ => True) (keyOps P fuel) (fun r s' => r = (.success, false) ∧ s' = s) s := by
  cases fuel with
  | zero => trivial
  | succ fuel =>
    unfold keyOps keyOpsIter
    rcases h with h | h | h <;> simp [h]

variable (hP : P.build = .disk)

include hP

/-- A handler of the last block context, and `QUEUE_TO_START_IO` if it issued no load. -/
theorem Outcome.startIo {s₀ s₁ : Sys} {rc : Status} {st : ReqState} (hs : Ready s)
    (hst : s.req.state = st) (hne : st ≠ .queueToStartIo) (hq : Opens s s₀)
    (hst₀ : s₀.req.state = st) (h : Outcome s₀ s₁ rc) :
    wp (fun _ => True) (orTerminate P rc (startIoFrom st)) (fun o s' => IterOutcome s s' o) s₁ := by
  unfold orTerminate
  rw [wp_ite]
  cases h with
  | failed hrc adds =>
    exact ⟨fun _ => reqTerminate_spec hP (trans_of Adds hq.adds adds) _, fun h => absurd hrc h⟩
  | opened opens hstate fresh =>
    refine ⟨fun h => absurd rfl h, fun _ => ?_⟩
    exact startIoFrom_spec hs (trans_of Opens hq opens) hst (hstate.trans hst₀) hne
  | issued y issues hstate =>
    refine ⟨fun h => absurd rfl h, fun _ => ?_⟩
    unfold startIoFrom modifyReq
    rw [wp_bind, wp_modify, wp_pure]
    dsimp only
    have hne' : s₁.req.state ≠ st := by
      intro h
      rw [← hst] at h
      exact hs.not_loading (hstate.imp h.symm.trans h.symm.trans)
    rw [if_neg hne']
    exact .loading (.loading y hq issues (refl_of _ s₁) hstate) hstate

theorem entryLoadingDone_spec (hs : Ready s) (hst : s.req.state = .entryLoadingDone) :
    wp (fun _ => True) (entryLoadingDone P) (fun o s' => IterOutcome s s' o) s := by
  have hlen : s.req.chain.length = 0 + 1 := hs.entry hst
  unfold entryLoadingDone
  rw [wp_bind]
  refine wp_mono (assignOps_spec (by omega)) ?_
  rintro - s₀ ⟨h₀, hb⟩
  rw [wp_bind, wp_blkAt, hb]
  have hlen₀ : s₀.req.chain.length = 0 + 1 := h₀.length_eq.trans hlen
  have hst₀ : s₀.req.state = .entryLoadingDone := h₀.state.trans hst
  rw [wp_ite]
  refine ⟨fun hinit => ?_, fun hupd => ?_⟩
  · rw [wp_ite]
    refine ⟨fun _ => reqTerminate_spec hP h₀.marks.adds _, fun _ => ?_⟩
    rw [wp_bind]
    refine wp_mono (outcome_registerInitBlk hP _ hlen₀) fun rc s₁ h₁ => ?_
    exact h₁.startIo hP hs hst (by decide) h₀.marks.opens hst₀
  · rw [wp_bind]
    refine wp_mono (outcome_registerUpdateBlk hP ?_ hlen₀) fun rc s₁ h₁ => ?_
    · intro hrow
      exact absurd (Or.inr (Or.inr (Option.some.inj hrow))) hupd
    · exact h₁.startIo hP hs hst (by decide) h₀.marks.opens hst₀

theorem writeParent_spec {T : Set ℕ} {p : ℕ} (hp : p < s.req.chain.length) (hpT : p ∈ T) :
    wp (fun _ => True) (writeParent P p) (fun _ s' => Marks T s s') s := by
  unfold writeParent
  rw [wp_bind, wp_blkAt, wp_ite]
  refine ⟨fun _ => ?_, fun _ => refl_of (Marks T) s⟩
  exact wp_mono (writeOndiskBlk_spec hP hp) fun _ _ h =>
    h.1.mono (Set.singleton_subset_iff.2 hpT)

/-- The end of `COL_LOADING_DONE`, after the handler of the collision block. -/
theorem colTail_spec {T : Set ℕ} {p col : ℕ} (hp : p < s.req.chain.length) (hT : ∀ i ≤ p, i ∈ T)
    (toDelete : Prop) [Decidable toDelete] (st : ReqState) :
    wp (fun _ => True) (do
        let rc ← (if toDelete then deleteCollisionEntry P p col else pure .success)
        if rc ≠ .success then return some rc
        else
          writeParent P p
          startIoFrom st)
      (fun o s' => (∃ rc, rc ≠ .success ∧ o = some rc ∧ Marks T s s') ∨
        (o = none ∧ ∃ s₁, Marks T s s₁ ∧ s' = { s₁ with req :=
          if s₁.req.state = st then { s₁.req with state := .queueToStartIo } else s₁.req })) s := by
  have hdel : Keeps (Quiet T)
      (if toDelete then deleteCollisionEntry P p col else pure .success) :=
    Keeps.ite (fun _ => quiet_deleteCollisionEntry hP hT col) fun _ => Keeps.pure _
  refine hdel.wp_then fun rc s₁ h₁ => ?_
  rw [wp_ite]
  refine ⟨fun hrc => Or.inl ⟨rc, hrc, rfl, h₁.marks⟩, fun _ => ?_⟩
  rw [wp_bind]
  have hp₁ : p < s₁.req.chain.length := by rw [h₁.length_eq]; exact hp
  refine wp_mono (writeParent_spec hP hp₁ (hT p le_rfl)) fun _ s₂ h₂ => ?_
  exact Or.inr ⟨rfl, s₂, trans_of (Marks T) h₁.marks h₂, rfl⟩

theorem colLoadingDone_spec (hs : Ready s) (hst : s.req.state = .colLoadingDone) :
    wp (fun _ => True) (colLoadingDone P) (fun o s' => IterOutcome s s' o) s := by
  unfold colLoadingDone
  rw [wp_bind, wp_get, wp_bind, wp_dssAssert]
  refine ⟨fun hcol => ?_, fun _ => trivial⟩
  rw [wp_bind, wp_blkAt]
  refine (quiet_setupCol hcol _).wp_then fun _ s₁ h₁ => ?_
  refine (quiet_setupColState hcol).wp_then fun _ s₂ h₂ => ?_
  refine (quiet_assignOps (Set.mem_singleton _)).wp_then fun _ s₃ h₃ => ?_
  have hq := trans_of (Quiet _) (trans_of (Quiet _) h₁ h₂) h₃
  rw [wp_bind, wp_blkAt, wp_bind]
  have hlen : s₃.req.chain.length = s.req.chain.length - 1 + 1 := by rw [hq.length_eq]; omega
  refine wp_mono (outcome_registerUpdateBlk hP (fun _ => hcol) hlen) fun rc s₄ h₄ => ?_
  have hst₃ : s₃.req.state = .colLoadingDone := hq.state.trans hst
  unfold orTerminate
  rw [wp_ite]
  cases h₄ with
  | failed hrc adds =>
    exact ⟨fun _ => reqTerminate_spec hP (trans_of Adds hq.marks.adds adds) _,
      fun h => absurd hrc h⟩
  | opened opens hstate fresh =>
    refine ⟨fun h => absurd rfl h, fun _ => ?_⟩
    have ho := trans_of Opens hq.marks.opens opens
    have hst₄ : s₄.req.state = .colLoadingDone := hstate.trans hst₃
    have hp : s.req.chain.length - 1 - 1 < s₄.req.chain.length := by
      have := opens.adds.length_le
      omega
    refine wp_mono (colTail_spec hP hp (fun i _ => Set.mem_univ i) _ _) ?_
    rintro o s' (⟨rc, hrc, rfl, hm⟩ | ⟨rfl, s₅, hm, rfl⟩)
    · exact .returned (.left hst hrc (Or.inl (hm.state.trans hst₄)) ho (Or.inl rfl) hm)
    · have hst₅ : s₅.req.state = .colLoadingDone := hm.state.trans hst₄
      rw [if_pos hst₅]
      have ho' := trans_of Opens (trans_of Opens ho hm.opens) (opens_setState .queueToStartIo s₅)
      refine .next ho' (hs.startIo ho' (Or.inl rfl))
        (by decide : ReqState.queueToStartIo ≠ .colLoadingDone) ?_
      rw [hst]
      exact (by decide : ReqState.queueToStartIo ≠ .colLoadingDone)
  | issued y issues hstate =>
    refine ⟨fun h => absurd rfl h, fun _ => ?_⟩
    have hlen₄ : s₄.req.chain.length = s.req.chain.length - 1 + 1 + 1 := by
      rw [← Kreq.length_cores, issues.cores, List.length_append, Kreq.length_cores, hlen]
      rfl
    refine wp_mono (colTail_spec (T := {i | i + 1 < s₄.req.chain.length}) hP (by omega)
      (fun i hi => show i + 1 < _ by omega) _ _) ?_
    rintro o s' (⟨rc, hrc, rfl, hm⟩ | ⟨rfl, s₅, hm, rfl⟩)
    · refine .returned (.left hst hrc (Or.inr (hstate.imp hm.state.trans hm.state.trans))
        hq.marks.opens (Or.inr ⟨y, issues⟩) (hm.mono (Set.subset_univ _)))
    · have hload : Loading s₅ := hstate.imp hm.state.trans hm.state.trans
      have hst₅ : s₅.req.state ≠ .colLoadingDone := by
        rcases hload with h | h <;> rw [h] <;> decide
      rw [if_neg hst₅]
      exact .loading (.loading y hq.marks.opens issues hm hload) hload

theorem colExtLoadingDone_spec (hs : Ready s) (hst : s.req.state = .colExtLoadingDone) :
    wp (fun _ => True) (colExtLoadingDone P) (fun o s' => IterOutcome s s' o) s := by
  unfold colExtLoadingDone
  rw [wp_bind, wp_get, wp_bind, wp_dssAssert]
  refine ⟨fun hcol => ?_, fun _ => trivial⟩
  rw [wp_bind, wp_blkAt]
  generalize hc : s.req.chain.length - 1 = col at hcol ⊢
  have hlen : s.req.chain.length = col + 1 := by omega
  have hcolT := Set.mem_singleton col
  -- the block context of the extension before its handler runs
  rw [wp_bind]
  refine wp_mono (modifyBlk_spec (by omega) (quiet_setupCol hcol _)) ?_
  rintro - s₁ ⟨h₁, hb₁⟩
  rw [wp_bind]
  refine wp_mono (modifyBlk_spec (by rw [h₁.length_eq]; omega) (quiet_setState hcolT _)) ?_
  rintro - s₂ ⟨h₂, hb₂⟩
  rw [wp_bind]
  refine wp_mono (assignOps_spec (by rw [h₂.length_eq, h₁.length_eq]; omega)) ?_
  rintro - s₃ ⟨h₃, hb₃⟩
  rw [hb₂, hb₁] at hb₃
  have hq := trans_of (Quiet {col}) (trans_of (Quiet {col}) h₁ h₂) h₃
  have hlen₃ : s₃.req.chain.length = col + 1 := hq.length_eq.trans hlen
  have hops : (s₃.req.chain.getD col BlkCtx.zero).ops = some .collisionExtension := by rw [hb₃]
  rw [wp_bind, wp_blkAt, hops, wp_bind]
  refine wp_true_iff.2 fun rc s₄ h₄ => ?_
  have hout : Outcome s₃ s₄ rc := wp_ok (Q := fun rc s' => Outcome s₃ s' rc)
    (outcome_registerUpdateBlk hP (fun _ => hcol) hlen₃) h₄
  have hfound : rc = .notFound → (s.req.chain.getD 0 BlkCtx.zero).flag = .toDelete := by
    intro hrc
    have hflag := hs.entry_flag
    cases hf : (s.req.chain.getD 0 BlkCtx.zero).flag with
    | newWrite =>
      have hw : Writable col s₃ := by
        unfold Writable FreshAt
        rw [hb₃, hq.req]
        exact ⟨hf, (hs.ext_getD (Or.inl hst) hlen).imp_right Or.inr⟩
      have hne := wp_ok (Q := fun rc _ => rc ≠ .notFound)
        (found_updateCollisionExtensionBlk hw (by omega)) h₄
      exact absurd hrc hne
    | update => exact absurd hf hflag
    | toDelete => rfl
  rw [wp_bind]
  refine insertFirst_eq hfound _ ?_
  unfold orTerminate
  rw [wp_ite]
  cases hout with
  | failed hrc adds =>
    exact ⟨fun _ => reqTerminate_spec hP (trans_of Adds hq.marks.adds adds) _,
      fun h => absurd hrc h⟩
  | opened opens hstate fresh =>
    refine ⟨fun h => absurd rfl h, fun _ => ?_⟩
    refine nextExtension_spec hs hst hlen (trans_of Opens hq.marks.opens opens)
      (hstate.trans (hq.state.trans hst)) fun hne => fresh ?_
    rw [hq.length_eq]
    exact hne
  | issued y issues hstate =>
    refine ⟨fun h => absurd rfl h, fun _ => ?_⟩
    have hst₄ : s₄.req.state ≠ .colExtLoadingDone := by
      rcases hstate with h | h <;> rw [h] <;> decide
    unfold nextExtension
    rw [wp_bind, wp_get, wp_bind, wp_blkAt, if_neg hst₄, wp_pure]
    exact .loading (.loading y hq.marks.opens issues (refl_of _ s₄) hstate) hstate

theorem keyOpsIter_spec (hs : Ready s) :
    wp (fun _ => True) (keyOpsIter P) (fun o s' => IterOutcome s s' o) s := by
  unfold keyOpsIter
  rw [wp_bind, wp_get]
  rcases hs.running with h | h | h | h | h | h | h
  · rw [h]
    exact entryLoadingDone_spec hP hs h
  · rw [h]
    exact colLoadingDone_spec hP hs h
  · rw [h]
    exact colExtLoadingDone_spec hP hs h
  · rw [h]
    unfold modifyReq
    dsimp only
    rw [wp_bind, wp_modify, wp_pure]
    have ho := opens_setState .colExtLoadingDone s
    refine .next ho ⟨hs.ne_nil, hs.flag, fun he => ?_, fun _ => hs.ext (Or.inr h), ?_⟩
      (by decide : ReqState.colExtLoadingDone ≠ .colLoadingDone) ?_
    · cases he
    · exact Or.inr (Or.inr (Or.inl rfl))
    · rw [h]
      exact (by decide : ReqState.colExtLoadingDone ≠ .colExtLoadingContig)
  · rw [h]
    dsimp only
    rw [wp_ite]
    refine ⟨fun _ => .stop rfl h, fun _ => ?_⟩
    unfold modifyReq
    rw [wp_bind, wp_modify, wp_pure]
    have ho := opens_setState .ioCmpl s
    refine .next ho (hs.startIo ho (Or.inr (Or.inl rfl)))
      (by decide : ReqState.ioCmpl ≠ .colLoadingDone) ?_
    rw [h]
    exact (by decide : ReqState.ioCmpl ≠ .queueToStartIo)
  · rw [h]
    unfold modifyReq
    dsimp only
    rw [wp_bind, wp_modify, wp_pure]
    have ho := opens_setState .reqCmpl s
    refine .next ho (hs.startIo ho (Or.inr (Or.inr rfl)))
      (by decide : ReqState.reqCmpl ≠ .colLoadingDone) ?_
    rw [h]
    exact (by decide : ReqState.reqCmpl ≠ .ioCmpl)
  · rw [h]
    dsimp only
    rw [if_pos hP, wp_bind]
    refine wp_true_iff.2 fun _ s' hs' => ?_
    exact .returned (.popped (refl_of Adds s) h hs')

/-- A call of `_kvtrans_key_ops`, by induction on the iterations. -/
theorem keyOps_spec (hs : Ready s) (fuel : ℕ) :
    wp (fun _ => True) (keyOps P fuel) (fun r s' => CallOutcome s s' r) s := by
  induction fuel generalizing s with
  | zero => trivial
  | succ fuel ih =>
    unfold keyOps
    rw [wp_bind, wp_get, wp_bind]
    refine wp_mono (keyOpsIter_spec hP hs) fun o s₁ h₁ => ?_
    cases h₁ with
    | next opens ready hcol hne =>
      rw [wp_bind, wp_get, wp_ite]
      refine ⟨fun _ => ?_, fun h => absurd hne h⟩
      exact wp_mono (ih ready) fun r s' h => h.opens_trans opens hcol
    | stop hs₁ hstate =>
      subst hs₁
      rw [wp_bind, wp_get, wp_ite]
      exact ⟨fun h => absurd rfl h, fun _ => .writing (refl_of Opens _) hstate⟩
    | loading call hstate =>
      rw [wp_bind, wp_get, wp_ite]
      refine ⟨fun _ => ?_, fun _ => call⟩
      refine wp_mono (keyOps_loading (Or.inr hstate) fuel) ?_
      rintro r s' ⟨rfl, rfl⟩
      exact call
    | returned call => exact call

end

/-! ### The entry block -/

/-- Only the block context of the entry block is set. -/
structure Sits (s s' : Sys) : Prop where
  id : s'.req.id = s.req.id
  req : s'.req.req = s.req.req
  length : s'.req.chain.length = s.req.chain.length
  flag : Stays BlkCtx.flag 0 s s'
  dirty : s'.ctx.dirtyMetaLba = s.ctx.dirtyMetaLba
  queue : s'.ctx.kvReqQueue = s.ctx.kvReqQueue
  kreqs : s'.ctx.kreqs = s.ctx.kreqs
  metas : s'.ctx.metas = s.ctx.metas

instance : IsPreorder Sys Sits where
  refl _ := ⟨rfl, rfl, rfl, ⟨rfl, rfl⟩, rfl, rfl, rfl, rfl⟩
  trans _ _ _ h h' :=
    ⟨h'.id.trans h.id, h'.req.trans h.req, h'.length.trans h.length,
      trans_of (Stays _ 0) h.flag h'.flag, h'.dirty.trans h.dirty, h'.queue.trans h.queue, h'.kreqs.trans h.kreqs,
      h'.metas.trans h.metas⟩

theorem sits_modifyBlk {f : BlkCtx → BlkCtx}
    (hf : ∀ b, (f b).flag = b.flag) :
    Keeps Sits (modifyBlk 0 f) := by
  intro s
  refine wp_true_iff.2 fun _ s' hs' => ?_
  have ht := (touches_modifyBlk 0 f).ok hs'
  exact ⟨ht.id, ht.req, ht.length, (stays_modifyBlk hf).ok hs', ht.dirty, ht.queue, ht.kreqs,
    ht.metas⟩

theorem sits_of_quiet {α : Type} {m : M α} (h : Keeps (Quiet ∅) m) : Keeps Sits m :=
  h.mono fun _ _ hs => ⟨hs.id, hs.req, hs.length_eq, hs.stays (Set.notMem_empty 0), hs.dirty,
    hs.queue, hs.kreqs, hs.metas⟩

theorem sits_getBlkState : Keeps Sits (getBlkState 0) := by
  unfold getBlkState
  refine Keeps.bind (sits_of_quiet (quiet_blkAt 0)) fun b => ?_
  refine Keeps.bind (sits_of_quiet (quiet_readBlkState _)) fun st => ?_
  split
  · exact Keeps.pure _
  · exact Keeps.bind (sits_modifyBlk fun _ => rfl) fun _ => Keeps.pure _

/-- The entry block was taken without a load: it is empty, or a block of other data. -/
def Untested (b : BlkCtx) : Prop :=
  b.state = .empty ∨ ((b.state = .data ∨ b.state = .collisionExtension) ∧ b.dcIndex = b.index)

/-- What `_alloc_entry_block` does. -/
inductive Entered (s s' : Sys) (rc : Status) : Prop
  | failed (hrc : rc ≠ .success) (sits : Sits s s') (hstate : s'.req.state = .entryLoadingDone)
  | untested (hrc : rc = .success) (sits : Sits s s') (hstate : s'.req.state = .entryLoadingDone)
      (hb : Untested (s'.req.chain.getD 0 BlkCtx.zero))
  | loading {s₁ : Sys} (hrc : rc = .success) (sits : Sits s s₁)
      (sync : Synced (s₁.req.chain.getD 0 BlkCtx.zero).index s₁
        { s' with req := { s'.req with state := s₁.req.state } })
      (hstate : s'.req.state = .queueToLoadEntry)

section

variable {P : Params} {s : Sys}

theorem entered_untested {s₁ : Sys} {f : BlkCtx → BlkCtx} {rc : Status} (h : Sits s s₁)
    (hlen : s.req.chain.length = 1)
    (hf : ∀ b, (f b).flag = b.flag)
    (hb : Untested (f (s₁.req.chain.getD 0 BlkCtx.zero))) :
    wp (fun _ => True) (do
        modifyBlk 0 f
        modifyReq fun r => { r with state := .entryLoadingDone }
        return rc) (fun rc s' => Entered s s' rc) s₁ := by
  rw [wp_bind]
  refine wp_true_iff.2 fun _ s₂ h₂ => ?_
  have hsits : Sits s { s₂ with req := { s₂.req with state := .entryLoadingDone } } := by
    have h' := trans_of Sits h ((sits_modifyBlk hf).ok h₂)
    exact ⟨h'.id, h'.req, h'.length, h'.flag, h'.dirty, h'.queue, h'.kreqs, h'.metas⟩
  have hlen₁ : 0 < s₁.req.chain.length := by rw [h.length, hlen]; exact Nat.one_pos
  by_cases hrc : rc = .success
  · refine .untested hrc hsits rfl ?_
    cases h₂
    change Untested ((s₁.req.chain.modify 0 f).getD 0 BlkCtx.zero)
    rw [getD_modify hlen₁]
    exact hb
  · exact .failed hrc hsits rfl

theorem entered_loading (hP : P.build = .disk) {s₁ : Sys} (h : Sits s s₁) :
    wp (fun _ => True) (do
        let rc ← loadOndiskBlk P 0
        updateKreqStatAfterIo rc .entryLoadingDone .queueToLoadEntry)
      (fun rc s' => Entered s s' rc) s₁ := by
  rw [wp_bind]
  refine wp_mono (loadOndiskBlk_spec hP) ?_
  rintro rc s₂ ⟨rfl, h₂⟩
  unfold updateKreqStatAfterIo modifyReq
  rw [wp_bind, wp_modify, wp_pure]
  refine .loading rfl h ?_ rfl
  exact ⟨h₂.id, h₂.req, rfl, h₂.chain, h₂.sync, h₂.kreqs, h₂.metas⟩

theorem loadCollisionEntry_spec (hP : P.build = .disk) {s₁ : Sys} (h : Sits s s₁) (b : BlkCtx) :
    wp (fun _ => True) (do
      let mdcIndex ← dcTableLookup b.index
      modifyBlk 0 fun b => { b with
        dcIndex := b.index, index := mdcIndex, state := .metaDataCollisionEntry }
      dssAssert (P.blkOffset ≤ mdcIndex ∧ mdcIndex < P.blkOffset + P.blkNum)
      let rc ← loadOndiskBlk P 0
      updateKreqStatAfterIo rc .entryLoadingDone .queueToLoadEntry)
      (fun rc s' => Entered s s' rc) s₁ := by
  refine (sits_of_quiet (quiet_dcTableLookup _)).wp_then fun mdcIndex s₂ h₂ => ?_
  refine (sits_modifyBlk fun _ => by rfl).wp_then fun _ s₃ h₃ => ?_
  refine (sits_of_quiet (quiet_dssAssert _)).wp_then fun _ s₄ h₄ => ?_
  exact entered_loading hP (trans_of Sits (trans_of Sits (trans_of Sits h h₂) h₃) h₄)

theorem allocEntryBlock_spec (hP : P.build = .disk) (hlen : s.req.chain.length = 1) :
    wp (fun _ => True) (allocEntryBlock P 0) (fun rc s' => Entered s s' rc) s := by
  unfold allocEntryBlock
  rw [wp_bind, wp_get]
  refine (sits_of_quiet (quiet_dssAssert _)).wp_then fun _ s₁ h₁ => ?_
  refine (sits_modifyBlk fun _ => by rfl).wp_then fun _ s₂ h₂ => ?_
  refine (sits_of_quiet (quiet_dssAssert _)).wp_then fun _ s₃ h₃ => ?_
  refine sits_getBlkState.wp_then fun rc s₄ h₄ => ?_
  have h : Sits s s₄ := trans_of Sits (trans_of Sits (trans_of Sits h₁ h₂) h₃) h₄
  rw [wp_bind, wp_blkAt]
  split
  · rename_i hst
    exact entered_untested h hlen (fun _ => by rfl) (Or.inl hst)
  · rename_i hst
    exact entered_untested h hlen (fun _ => by rfl) (Or.inr ⟨Or.inr hst, rfl⟩)
  · rename_i hst
    exact entered_untested h hlen (fun _ => by rfl) (Or.inr ⟨Or.inl hst, rfl⟩)
  · exact loadCollisionEntry_spec hP h _
  · exact loadCollisionEntry_spec hP h _
  · exact loadCollisionEntry_spec hP h _
  · exact entered_loading hP h
  · exact entered_loading hP h
  · exact entered_loading hP h
  · exact entered_loading hP h

end

/-! ### The entry block of a request that writes -/

/-- The entry block is a block of other data, which the hash of the key hit: no meta block. -/
def Kreq.dataEntry (r : Kreq) : Bool :=
  r.chain.head?.any fun b => 0 < b.dcIndex ∧ b.dcIndex = b.index

/-- The chain and the dirty LBAs only grow. -/
structure Grows (s s' : Sys) : Prop where
  cores : s.req.cores <+: s'.req.cores
  entry : s.req.chain ≠ [] → s'.req.entry = s.req.entry
  dirtyMono : ∀ x, s.ctx.dirtyMetaLba x = true → s'.ctx.dirtyMetaLba x = true

/-- The entry block is dirty, or it is no meta block. -/
def EntryMarked (s : Sys) : Prop :=
  s.req.dataEntry = true ∨ ∀ x, s.req.lbas.head? = some x → s.ctx.dirtyMetaLba x = true

section

variable {s s₁ s₂ s' : Sys}

theorem Kreq.dataEntry_eq {r r' : Kreq} (hcores : r'.cores.head? = r.cores.head?)
    (hentry : r'.entry = r.entry) : r'.dataEntry = r.dataEntry := by
  unfold Kreq.cores at hcores
  unfold Kreq.entry at hentry
  rw [List.head?_map, List.head?_map] at hcores
  unfold Kreq.dataEntry
  cases h : r.chain.head? with
  | none =>
    rw [h] at hcores
    cases h' : r'.chain.head? with
    | none => rfl
    | some b' => rw [h'] at hcores; cases hcores
  | some b =>
    rw [h] at hcores hentry
    cases h' : r'.chain.head? with
    | none => rw [h'] at hcores; cases hcores
    | some b' =>
      rw [h'] at hcores hentry
      simp only [Option.map_some, Option.some.injEq, Prod.mk.injEq] at hcores hentry
      simp [hcores.1, hentry.1]

theorem Adds.grows (h : Adds s s₁) : Grows s s₁ := ⟨h.cores, h.entry, h.dirtyMono⟩

theorem Marks.grows {T : Set ℕ} (h : Marks T s s₁) : Grows s s₁ := h.adds.grows

theorem Issues.grows {y : ℕ} (h : Issues y s s₁) : Grows s s₁ where
  cores := ⟨_, h.cores.symm⟩
  entry := h.entry
  dirtyMono := fun x hx => by
    rcases h.sync with ⟨-, -, hd⟩ | ⟨-, -, hd⟩
    · rw [hd]
      exact hx
    · rw [hd]
      split_ifs
      · rw [Function.update_apply]
        split_ifs
        · rfl
        · exact hx
      · exact hx

theorem Grows.ne_nil (h : Grows s s₁) (hc : s.req.chain ≠ []) : s₁.req.chain ≠ [] := by
  intro hc'
  have hlen := h.cores.length_le
  rw [Kreq.length_cores, Kreq.length_cores, hc'] at hlen
  exact hc (List.eq_nil_of_length_eq_zero (by simpa using hlen))

theorem Grows.trans (h : Grows s s₁) (h' : Grows s₁ s₂) : Grows s s₂ where
  cores := h.cores.trans h'.cores
  entry := fun hc => (h'.entry (h.ne_nil hc)).trans (h.entry hc)
  dirtyMono := fun x hx => h'.dirtyMono x (h.dirtyMono x hx)

theorem Grows.head?_cores (h : Grows s s₁) (hc : s.req.chain ≠ []) :
    s₁.req.cores.head? = s.req.cores.head? := by
  obtain ⟨l, hl⟩ := h.cores
  rw [← hl, List.head?_append_of_ne_nil]
  unfold Kreq.cores
  simpa using hc

theorem EntryMarked.grows (hs : EntryMarked s) (h : Grows s s₁) (hc : s.req.chain ≠ []) :
    EntryMarked s₁ := by
  have hhead := h.head?_cores hc
  refine hs.imp (fun hd => ?_) fun hd x hx => h.dirtyMono x (hd x ?_)
  · rw [Kreq.dataEntry_eq hhead (h.entry hc)]
    exact hd
  · rw [Kreq.lbas_eq_cores, List.head?_map] at hx ⊢
    rw [← hhead]
    exact hx

theorem Outcome.grows {rc : Status} (h : Outcome s s₁ rc) : Grows s s₁ := by
  cases h with
  | failed hrc adds => exact adds.grows
  | opened opens hstate fresh => exact opens.adds.grows
  | issued y issues hstate => exact issues.grows

theorem CallOutcome.grows {rc : Status} (h : CallOutcome s s' (rc, false)) : Grows s s' := by
  cases h with
  | writing opens hstate => exact opens.adds.grows
  | loading y opens issues marks hstate => exact (opens.adds.grows.trans issues.grows).trans marks.grows

end

section

variable {P : Params} {s : Sys} (hP : P.build = .disk)

include hP

theorem initMetaDataCollisionBlk_marked (hlen : s.req.chain.length = 1)
    (hdc : (s.req.chain.getD 0 BlkCtx.zero).dcIndex = (s.req.chain.getD 0 BlkCtx.zero).index) :
    wp (fun _ => True) (initMetaDataCollisionBlk P 0) (fun _ s' => EntryMarked s') s := by
  -- the handler asserts that it has the index of the data block
  have hpos : wp (fun _ => True) (initMetaDataCollisionBlk P 0)
      (fun _ _ => 0 < (s.req.chain.getD 0 BlkCtx.zero).dcIndex) s := by
    unfold initMetaDataCollisionBlk
    rw [wp_bind, wp_blkAt]
    refine (quiet_dssAssert (T := ∅) _).wp_then fun _ s₁ _ => ?_
    rw [wp_bind, wp_dssAssert]
    exact ⟨fun h => wp_true_iff.2 fun _ _ _ => h, fun _ => trivial⟩
  refine wp_true_iff.2 fun rc s' hs' => ?_
  have h0 := wp_ok hpos hs'
  have hout := wp_ok (Q := fun rc s' => Outcome s s' rc)
    (outcome_initMetaDataCollisionBlk hP hlen) hs'
  have hne : s.req.chain ≠ [] := by
    intro h
    rw [h] at hlen
    cases hlen
  refine EntryMarked.grows (Or.inl ?_) hout.grows hne
  cases hc : s.req.chain with
  | nil => exact absurd hc hne
  | cons b l =>
    rw [hc] at h0 hdc
    simp only [List.getD_cons_zero] at h0 hdc
    simp [Kreq.dataEntry, hc, hdc ▸ h0, hdc]

theorem registerInitBlk_marked (hlen : s.req.chain.length = 1)
    (hb : Untested (s.req.chain.getD 0 BlkCtx.zero)) :
    wp (fun _ => True) (registerInitBlk P (some (s.req.chain.getD 0 BlkCtx.zero).state) 0)
      (fun rc s' => rc = .success → EntryMarked s') s := by
  rcases hb with hst | ⟨hst | hst, hdc⟩
  · rw [hst]
    have hp : 0 < s.req.chain.length := by omega
    refine wp_mono (initMetaBlk_spec hP hp) ?_
    rintro rc s' ⟨hm, hok⟩ hrc
    refine Or.inr fun x hx => ?_
    rw [hm.lbas_eq, List.head?_eq_getElem?, Kreq.lbas_getElem? hp] at hx
    rw [← Option.some.inj hx]
    exact (hok hrc).2
  · rw [hst]
    exact wp_mono (initMetaDataCollisionBlk_marked hP hlen hdc) fun _ _ h _ => h
  · rw [hst]
    exact wp_mono (initMetaDataCollisionBlk_marked hP hlen hdc) fun _ _ h _ => h

theorem entryLoadingDone_marked (hlen : s.req.chain.length = 1)
    (hb : Untested (s.req.chain.getD 0 BlkCtx.zero)) :
    wp (fun _ => True) (entryLoadingDone P) (fun o s' => o = none → EntryMarked s') s := by
  unfold entryLoadingDone
  rw [wp_bind]
  refine wp_mono (assignOps_spec (by omega)) ?_
  rintro - s₁ ⟨h₁, hb₁⟩
  have hstate : (s₁.req.chain.getD 0 BlkCtx.zero).state = (s.req.chain.getD 0 BlkCtx.zero).state := by
    rw [hb₁]
  have hops : (s₁.req.chain.getD 0 BlkCtx.zero).ops =
      some (s₁.req.chain.getD 0 BlkCtx.zero).state := by
    rw [hb₁]
  have huntested : Untested (s₁.req.chain.getD 0 BlkCtx.zero) := by
    rw [hb₁]
    exact hb
  have hempty : (s₁.req.chain.getD 0 BlkCtx.zero).state = .empty ∨
      (s₁.req.chain.getD 0 BlkCtx.zero).state = .data ∨
      (s₁.req.chain.getD 0 BlkCtx.zero).state = .collisionExtension :=
    huntested.imp_right fun h => h.1
  rw [wp_bind, wp_blkAt, if_pos hempty, wp_ite]
  refine ⟨fun _ => ?_, fun _ => ?_⟩
  · rw [wp_map]
    exact wp_true_iff.2 fun _ _ _ h => by cases h
  · rw [wp_bind, hops]
    refine wp_mono (registerInitBlk_marked hP (h₁.length_eq.trans hlen) huntested) fun rc s₂ h₂ => ?_
    unfold orTerminate startIoFrom modifyReq
    rw [wp_ite, wp_map]
    refine ⟨fun _ => wp_true_iff.2 fun _ _ _ h => (by cases h), fun hrc => ?_⟩
    rw [wp_bind, wp_modify, wp_pure]
    intro _
    have hm := h₂ (not_not.1 hrc)
    dsimp only
    split_ifs
    · exact hm
    · exact hm

/-- What the first call of `_kvtrans_key_ops` does: it fails to find the entry block, issues its
load, or takes it without a load. -/
inductive StartOutcome (s s' : Sys) : Status × Bool → Prop
  | failed {rc : Status} (hrc : rc ≠ .success) (sits : Sits s s')
      (hstate : s'.req.state = .entryLoadingDone) : StartOutcome s s' (rc, true)
  | loading {s₁ : Sys} (sits : Sits s s₁)
      (sync : Synced (s₁.req.chain.getD 0 BlkCtx.zero).index s₁
        { s' with req := { s'.req with state := s₁.req.state } })
      (hstate : s'.req.state = .queueToLoadEntry) : StartOutcome s s' (.success, false)
  | entered {s₁ : Sys} {r : Status × Bool} (sits : Sits s s₁) (ready : Ready s₁)
      (hstate : s₁.req.state = .entryLoadingDone) (call : CallOutcome s₁ s' r) (marked : r.2 = false → EntryMarked s') : StartOutcome s s' r

/-- A call of `_kvtrans_key_ops` with an entry block that was taken without a load. -/
theorem keyOps_untested (hs : Ready s) (hst : s.req.state = .entryLoadingDone)
    (hb : Untested (s.req.chain.getD 0 BlkCtx.zero)) (fuel : ℕ) :
    wp (fun _ => True) (keyOps P fuel)
      (fun r s' => CallOutcome s s' r ∧ (r.2 = false → EntryMarked s')) s := by
  cases fuel with
  | zero => trivial
  | succ fuel =>
    have hmarked : wp (fun _ => True) (keyOpsIter P) (fun o s₁ => o = none → EntryMarked s₁) s := by
      unfold keyOpsIter
      rw [wp_bind, wp_get, hst]
      exact entryLoadingDone_marked hP (hs.entry hst) hb
    unfold keyOps
    rw [wp_bind, wp_get, wp_bind]
    refine wp_mono (wp_and (keyOpsIter_spec hP hs) hmarked) ?_
    rintro o s₁ ⟨h₁, hm₁⟩
    cases h₁ with
    | next opens ready hcol hne =>
      rw [wp_bind, wp_get, wp_ite]
      refine ⟨fun _ => wp_mono (keyOps_spec hP ready fuel) fun r s' h => ?_, fun h => absurd hne h⟩
      refine ⟨h.opens_trans opens hcol, fun hr => ?_⟩
      obtain ⟨rc, returned⟩ := r
      cases hr
      exact (hm₁ rfl).grows h.grows ready.ne_nil
    | stop hs₁ hstate =>
      rw [hst] at hstate
      cases hstate
    | loading call hstate =>
      rw [wp_bind, wp_get, wp_ite]
      refine ⟨fun _ => ?_, fun _ => ⟨call, fun _ => hm₁ rfl⟩⟩
      refine wp_mono (keyOps_loading (Or.inr hstate) fuel) ?_
      rintro r s' ⟨rfl, rfl⟩
      exact ⟨call, fun _ => hm₁ rfl⟩
    | returned call => exact ⟨call, fun h => by cases h⟩

/-- The first call of `_kvtrans_key_ops`, after the flag of the entry block is set. -/
theorem keyOps_start (hlen : s.req.chain.length = 1) (hst : s.req.state = .reqInitialized)
    (hopc : modifyMeta s.req.req.opc = true) (fuel : ℕ) :
    wp (fun _ => True) (keyOps P fuel)
      (fun r s' => ∃ s₀, Touches 0 s s₀ ∧ (s₀.req.chain.getD 0 BlkCtx.zero).flag ≠ .update ∧
        StartOutcome s₀ s' r) s := by
  cases fuel with
  | zero => trivial
  | succ fuel =>
    unfold keyOps
    rw [wp_bind, wp_get, wp_bind]
    unfold keyOpsIter
    rw [wp_bind, wp_get, hst]
    dsimp only
    rw [wp_bind]
    refine wp_true_iff.2 fun _ s₀ h₀ => ?_
    have ht := (touches_modifyBlk 0 _).ok h₀
    have hlen₀ : s₀.req.chain.length = 1 := ht.length.trans hlen
    have hb₀ : (s₀.req.chain.getD 0 BlkCtx.zero).flag ≠ .update := by
      have hmod := of_decide_eq_true hopc
      cases h₀
      dsimp only
      rw [getD_modify (by omega)]
      dsimp only
      split_ifs <;> simp_all
    rw [wp_bind]
    refine wp_mono (allocEntryBlock_spec hP hlen₀) fun rc s₁ h₁ => ?_
    rw [wp_pure]
    cases h₁ with
    | failed hrc sits hstate =>
      rw [if_pos hrc, wp_pure]
      exact ⟨s₀, ht, hb₀, .failed hrc sits hstate⟩
    | untested hrc sits hstate hb =>
      rw [if_neg (not_not.2 hrc), wp_bind, wp_get, wp_ite]
      refine ⟨fun _ => ?_, fun h => absurd (by rw [hstate]; decide) h⟩
      have hready : Ready s₁ := by
        refine .of_entry (sits.length.trans hlen₀) ?_ hstate
        rw [sits.flag.2]
        exact hb₀
      refine wp_mono (keyOps_untested hP hready hstate hb fuel) ?_
      rintro r s' ⟨hcall, hmark⟩
      exact ⟨s₀, ht, hb₀, .entered sits hready hstate hcall hmark⟩
    | loading hrc sits sync hstate =>
      rw [if_neg (not_not.2 hrc), wp_bind, wp_get, wp_ite]
      refine ⟨fun _ => ?_, fun h => absurd (by rw [hstate]; decide) h⟩
      refine wp_mono (keyOps_loading (Or.inl hstate) fuel) ?_
      rintro r s' ⟨rfl, rfl⟩
      exact ⟨s₀, ht, hb₀, .loading sits sync hstate⟩

end

end DssSdk.Kvtrans
