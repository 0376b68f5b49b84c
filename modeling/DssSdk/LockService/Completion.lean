import DssSdk.LockService.Exclusion

/-!
# Every request is completed once

The requests that were completed, those that wait, and the counters of the queue pairs.

* `Ledger`: the requests received so far are the completed ones, the waiting ones and the ones in
  work, each of them once, and the counters count the waiting ones;
* `exactlyOnce_of_run`: no assertion fails and the ledger is balanced over whole runs, as long as a
  lock that expires has only waiting requests of the queue pair that finds it expired, and the ends of
  locks that a command sets lie after the readings of the clock that follow (`SetsEnd`).
-/

namespace DssSdk.LockService

open Program

/-- A lock that ends at `expireTick` and gets a later end from the `i`-th reading of the clock ends
after the next reading. -/
def EndsLater (E : Env) (i expireTick : ℕ) (cmd : LockRequest) : Prop :=
  expireTick < expireTickFrom E (E.ticks i) cmd →
    E.ticks (i + 1) < expireTickFrom E (E.ticks i) cmd

/-- The readers at the front of a queue get a lock that ends at `expireTick` and is held under `uuids`,
with the readings of the clock from the `i`-th on: its ends lie after the next readings. -/
def FrontEndsLater (E : Env) : List DflyRequest → ℕ → ℕ → Finset UInt64 → Prop
  | [], _, _, _ => True
  | req :: reqs, i, expireTick, uuids =>
      req.cmd.writeLock = false →
        -- a request whose uuid holds the lock already fails without a look at the clock
        if req.cmd.uuid ∈ uuids then FrontEndsLater E reqs i expireTick uuids
        else EndsLater E i expireTick req.cmd ∧
          FrontEndsLater E reqs
            (if expireTick < expireTickFrom E (E.ticks i) req.cmd then i + 2 else i + 1)
            (max expireTick (expireTickFrom E (E.ticks i) req.cmd)) (insert req.cmd.uuid uuids)

/-- A request that may wait for a lock. -/
structure Waiter (req : DflyRequest) : Prop where
  opc : req.cmd.opc = .lock
  blocking : req.cmd.blocking = true

/-- The requests so far: `waiting` in queues, `inWork` neither completed nor waiting. -/
structure Ledger (E : Env) (s : Service) (waiting : List DflyRequest) (inWork : List ℕ) : Prop where
  ids : (s.completed.map Prod.fst ++ (waiting.map DflyRequest.id ++ inWork)).Perm
    (List.range s.received)
  counts : ∀ q, s.npendingLockReqs q = waiting.countP fun r => r.dqpair = q
  bound : ∀ q, s.npendingLockReqs q ≤ (E.maxPendingLockReqs q).toNat
  waiters : ∀ r ∈ waiting, Waiter r

section

variable {E : Env} {s s' : Service} {req : DflyRequest} {lobj : LockObject}
  {waiting waiting' others reqs : List DflyRequest} {inWork : List ℕ}

theorem Ledger.congr (h : Ledger E s waiting inWork) (hc : s'.completed = s.completed)
    (hn : s'.npendingLockReqs = s.npendingLockReqs) (hr : s'.received = s.received) :
    Ledger E s' waiting inWork where
  ids := by rw [hc, hr]; exact h.ids
  counts := by rw [hn]; exact h.counts
  bound := by rw [hn]; exact h.bound
  waiters := h.waiters

theorem Ledger.perm (h : Ledger E s waiting inWork) (hp : waiting.Perm waiting') :
    Ledger E s waiting' inWork where
  ids := (((hp.map _).append_right _).append_left _).symm.trans h.ids
  counts := fun q => (h.counts q).trans (hp.countP_eq _)
  bound := h.bound
  waiters := fun r hr => h.waiters r (hp.mem_iff.2 hr)

theorem Ledger.lt (h : Ledger E s waiting inWork) (q : ℕ) : s.npendingLockReqs q < 2 ^ 32 :=
  lt_of_le_of_lt (h.bound q) (E.maxPendingLockReqs q).toNat_lt

/-! ### The entries of the ledger -/

theorem Ledger.complete (h : Ledger E s waiting (req.id :: inWork)) :
    wp (fun _ => False) (complete req) (fun _ s' => Ledger E s' waiting inWork) s := by
  refine ⟨?_, h.counts, h.bound, h.waiters⟩
  refine List.Perm.trans ?_ h.ids
  dsimp only
  rw [List.map_cons, List.cons_append]
  refine List.perm_middle.symm.trans (List.Perm.append_left _ ?_)
  exact List.perm_middle.symm

/-- A request comes to a queue. -/
theorem Ledger.wait (h : Ledger E s waiting (req.id :: inWork)) (hreq : Waiter req)
    (hmax : s.npendingLockReqs req.dqpair < (E.maxPendingLockReqs req.dqpair).toNat) :
    wp (fun _ => False) (incPending req.dqpair)
      (fun _ s' => Ledger E s' (waiting ++ [req]) inWork) s := by
  have hinc : (s.npendingLockReqs req.dqpair + 1) % 2 ^ 32 = s.npendingLockReqs req.dqpair + 1 := by
    have := (E.maxPendingLockReqs req.dqpair).toNat_lt
    exact Nat.mod_eq_of_lt (by omega)
  refine ⟨?_, fun q => ?_, fun q => ?_, fun r hr => ?_⟩
  · rw [List.map_append, List.append_assoc]
    exact h.ids
  · dsimp only
    rw [List.countP_append, List.countP_singleton, Function.update_apply, hinc]
    by_cases hq : q = req.dqpair
    · subst hq
      simp [h.counts]
    · simp [hq, Ne.symm hq, h.counts]
  · dsimp only
    rw [Function.update_apply, hinc]
    split_ifs with hq
    · rw [hq]
      omega
    · exact h.bound q
  · rcases List.mem_append.1 hr with hr | hr
    · exact h.waiters r hr
    · rw [List.mem_singleton.1 hr]
      exact hreq

/-- A request leaves the front of a queue. -/
theorem Ledger.leave (h : Ledger E s (req :: waiting) inWork) :
    wp (fun _ => False) (decPending req.dqpair)
      (fun _ s' => Ledger E s' waiting (req.id :: inWork)) s := by
  have hpos : 0 < s.npendingLockReqs req.dqpair := by
    rw [h.counts, List.countP_cons]
    simp
  have hlt := h.lt req.dqpair
  have hdec : (s.npendingLockReqs req.dqpair + (2 ^ 32 - 1)) % 2 ^ 32 =
      s.npendingLockReqs req.dqpair - 1 := by omega
  refine ⟨?_, fun q => ?_, fun q => ?_, fun r hr => h.waiters r (List.mem_cons_of_mem _ hr)⟩
  · refine List.Perm.trans (List.Perm.append_left _ ?_) h.ids
    exact List.perm_middle
  · have hcount := h.counts q
    dsimp only
    rw [Function.update_apply, hdec]
    rw [List.countP_cons] at hcount
    by_cases hq : q = req.dqpair
    · subst hq
      simp only [decide_true, if_true] at hcount ⊢
      omega
    · rw [if_neg hq]
      simpa [Ne.symm hq] using hcount
  · dsimp only
    rw [Function.update_apply, hdec]
    split_ifs with hq
    · rw [hq]
      exact le_trans (Nat.sub_le _ _) (h.bound req.dqpair)
    · exact h.bound q

/-! ### The handlers -/

theorem wp_getTicks {F : Fault → Prop} {Q : ℕ → Service → Prop} :
    wp F (getTicks E) Q s ↔ Q (E.ticks s.reads) { s with reads := s.reads + 1 } := Iff.rfl

theorem waitOrFail_ledger (hopc : req.cmd.opc = .lock)
    (h : Ledger E s (others ++ lobj.pendingLockReqs) (req.id :: inWork)) :
    wp (fun _ => False) (waitOrFail E req lobj) (fun r s' =>
      Ledger E s' (others ++ r.2.pendingLockReqs) (if r.1 = true then inWork else req.id :: inWork) ∧
        r.2.wlock = lobj.wlock ∧
        (r.1 = false → r.2.pendingLockReqs = lobj.pendingLockReqs)) s := by
  unfold waitOrFail isBlockingAllowed
  simp only [wp_bind, wp_get, wp_pure, wp_ite]
  refine ⟨?_, fun _ => ?_⟩
  · rintro ⟨hblock, hmax⟩
    have hwait := h.wait ⟨hopc, hblock⟩ (by simpa using hmax)
    refine wp_mono hwait fun _ s₁ h₁ => ⟨?_, trivial, fun hf => by cases hf⟩
    rw [List.append_assoc] at h₁
    exact h₁
  · exact ⟨h.congr rfl rfl rfl, trivial, fun _ => trivial⟩

theorem verifyUuid_ledger (h : Ledger E s waiting (req.id :: inWork)) :
    wp (fun _ => False) (verifyUuid req lobj) (fun r s' =>
      r = none ∧ Ledger E s' waiting inWork ∨ ∃ uuidHt, r = some { lobj with uuidHt } ∧ s' = s) s := by
  have hfail : wp (fun _ => False) (do
      setStatusCode req .uuidMismatch
      complete req
      return none) (fun r s' => r = none ∧ Ledger E s' waiting inWork ∨
        ∃ uuidHt, r = some { lobj with uuidHt } ∧ s' = s) s := by
    have h' : Ledger E { s with statusCode := Function.update s.statusCode req.id .uuidMismatch }
        waiting (req.id :: inWork) := h.congr rfl rfl rfl
    unfold setStatusCode
    rw [wp_bind, wp_modify, wp_bind]
    exact wp_mono h'.complete fun _ s₁ h₁ => Or.inl ⟨rfl, h₁⟩
  unfold verifyUuid
  cases req.cmd.opc with
  | lock =>
    dsimp only
    rw [wp_ite]
    exact ⟨fun _ => hfail, fun _ => Or.inr ⟨_, rfl, rfl⟩⟩
  | unlock =>
    dsimp only
    rw [wp_ite]
    exact ⟨fun _ => Or.inr ⟨_, rfl, rfl⟩, fun _ => hfail⟩

/-- What `_dfly_nvmf_exec_lock` leaves in work. -/
structure Executed (E : Env) (req : DflyRequest) (others : List DflyRequest) (inWork : List ℕ)
    (lobj : LockObject) (rc : ModuleRc) (lobj' : LockObject) (s' : Service) : Prop where
  ledger : Ledger E s' (others ++ lobj'.pendingLockReqs)
    (if rc = .processed then req.id :: inWork else inWork)
  busy : rc = .queued → lobj.wlock = true ∨ (req.cmd.writeLock = true ∧ 0 < lobj.rcount)
  wlock : req.cmd.writeLock = false → lobj'.wlock = lobj.wlock
  pending : rc ≠ .queued → lobj'.pendingLockReqs = lobj.pendingLockReqs

/-- A read lock that is granted makes the lock end later. -/
def GrantEndsLater (E : Env) (i : ℕ) (lobj : LockObject) (cmd : LockRequest) : Prop :=
  cmd.writeLock = false → lobj.wlock = false → cmd.uuid ∉ lobj.uuidHt →
    EndsLater E i lobj.expireTick cmd

theorem execWriteLock_ledger (hopc : req.cmd.opc = .lock) (hwrite : req.cmd.writeLock = true)
    (h : Ledger E s (others ++ lobj.pendingLockReqs) (req.id :: inWork)) :
    wp (fun _ => False) (execWriteLock E req lobj)
      (fun r s' => Executed E req others inWork lobj r.1 r.2 s') s := by
  have hread : ∀ {b b' : Bool}, req.cmd.writeLock = false → b = b' := fun hf => by
    rw [hwrite] at hf
    cases hf
  unfold execWriteLock
  rw [wp_ite]
  refine ⟨fun _ => ?_, fun hbusy => ?_⟩
  · rw [wp_bind]
    refine wp_mono (verifyUuid_ledger h) ?_
    rintro r s₁ (⟨rfl, h₁⟩ | ⟨uuidHt, rfl, rfl⟩)
    · exact ⟨h₁, fun hrc => (by cases hrc), hread, fun _ => rfl⟩
    · have h' : Ledger E { s₁ with log := .writeLocked lobj.key :: s₁.log }
          (others ++ lobj.pendingLockReqs) (req.id :: inWork) := h.congr rfl rfl rfl
      unfold infoLog
      rw [wp_bind, wp_modify, wp_bind]
      refine wp_mono h'.complete fun _ s₂ h₂ => ?_
      exact ⟨h₂, fun hrc => (by cases hrc), hread, fun _ => rfl⟩
  · rw [wp_bind]
    refine wp_mono (waitOrFail_ledger hopc h) ?_
    rintro ⟨waits, lobj'⟩ s₁ ⟨h₁, -, hp₁⟩
    cases waits with
    | true =>
      refine ⟨h₁, fun _ => ?_, hread, fun hrc => absurd rfl hrc⟩
      cases hw : lobj.wlock with
      | true => exact Or.inl rfl
      | false => exact Or.inr ⟨hwrite, Nat.pos_of_ne_zero fun hr => hbusy ⟨hw, hr⟩⟩
    | false =>
      dsimp only
      rw [if_neg Bool.false_ne_true, wp_bind]
      refine wp_mono (Ledger.complete h₁) fun _ s₂ h₂ => ?_
      exact ⟨h₂, fun hrc => (by cases hrc), hread, fun _ => hp₁ rfl⟩

theorem execReadLock_ledger (hopc : req.cmd.opc = .lock) (hread : req.cmd.writeLock = false)
    (hend : GrantEndsLater E s.reads lobj req.cmd)
    (h : Ledger E s (others ++ lobj.pendingLockReqs) (req.id :: inWork)) :
    wp (fun _ => False) (execReadLock E req lobj)
      (fun r s' => Executed E req others inWork lobj r.1 r.2 s') s := by
  unfold execReadLock
  rw [wp_ite]
  refine ⟨fun hw => ?_, fun hw => ?_⟩
  · rw [wp_bind, wp_dflyAssert]
    refine ⟨fun _ => ?_, fun hn => hn (Nat.lt_succ_self _)⟩
    rw [wp_bind]
    refine wp_mono (wp_and (verifyUuid_ledger h) (verifyUuid_lock hopc)) ?_
    rintro r s₁ ⟨⟨rfl, h₁⟩ | ⟨uuidHt, rfl, rfl⟩, -, hr⟩
    · exact ⟨h₁, fun hrc => (by cases hrc), fun _ => rfl, fun _ => rfl⟩
    · dsimp only
      obtain ⟨hnew, -⟩ := hr.resolve_left fun hn => by cases hn.1
      rw [wp_bind, wp_getTicks, wp_ite]
      refine ⟨fun hlater => ?_, fun _ => ?_⟩
      · rw [wp_bind, wp_getTicks, wp_bind, wp_dflyAssert]
        refine ⟨fun _ => ?_, fun hn => hn (hend hread hw hnew hlater)⟩
        exact ⟨h.congr rfl rfl rfl, fun hrc => (by cases hrc), fun _ => rfl, fun _ => rfl⟩
      · exact ⟨h.congr rfl rfl rfl, fun hrc => (by cases hrc), fun _ => rfl, fun _ => rfl⟩
  · rw [wp_bind]
    refine wp_mono (waitOrFail_ledger hopc h) ?_
    rintro ⟨waits, lobj'⟩ s₁ ⟨h₁, hw₁, hp₁⟩
    cases waits with
    | true =>
      exact ⟨h₁, fun _ => Or.inl (by simpa using hw), fun _ => hw₁, fun hrc => absurd rfl hrc⟩
    | false => exact ⟨h₁, fun hrc => (by cases hrc), fun _ => hw₁, fun _ => hp₁ rfl⟩

theorem execLock_ledger (lobj : LockObject) (hopc : req.cmd.opc = .lock)
    (hend : GrantEndsLater E s.reads lobj req.cmd)
    (h : Ledger E s (others ++ lobj.pendingLockReqs) (req.id :: inWork)) :
    wp (fun _ => False) (execLock E req lobj)
      (fun r s' => Executed E req others inWork lobj r.1 r.2 s') s := by
  unfold execLock
  rw [wp_ite]
  exact ⟨fun hw => execWriteLock_ledger hopc hw h,
    fun hw => execReadLock_ledger hopc (by simpa using hw) hend h⟩

theorem execLock_clock (lobj : LockObject) (hopc : req.cmd.opc = .lock)
    (hread : req.cmd.writeLock = false)
    (hw : lobj.wlock = false) (hfront : FrontEndsLater E (req :: reqs) s.reads lobj.expireTick lobj.uuidHt) :
    wp (fun _ => True) (execLock E req lobj) (fun r s' =>
      FrontEndsLater E reqs s'.reads r.2.expireTick r.2.uuidHt) s := by
  have hnext := hfront hread
  unfold execLock execReadLock verifyUuid
  rw [if_neg (by rw [hread]; decide), if_pos hw, hopc, wp_bind, wp_dflyAssert]
  refine ⟨fun _ => ?_, fun _ => trivial⟩
  dsimp only
  by_cases hmem : req.cmd.uuid ∈ lobj.uuidHt
  · rw [if_pos hmem] at hnext
    rw [if_pos hmem]
    exact hnext
  · rw [if_neg hmem] at hnext
    have hrest := hnext.2
    rw [if_neg hmem, wp_bind, wp_pure, wp_bind, wp_getTicks, wp_ite]
    refine ⟨fun hlater => ?_, fun hlater => ?_⟩
    · rw [if_pos hlater, max_eq_right hlater.le] at hrest
      rw [wp_bind, wp_getTicks, wp_bind, wp_dflyAssert]
      exact ⟨fun _ => hrest, fun _ => trivial⟩
    · rw [if_neg hlater, max_eq_left (not_lt.1 hlater)] at hrest
      exact hrest

theorem completeProcessed_ledger {rc : ModuleRc}
    (h : Ledger E s waiting (if rc = .processed then req.id :: inWork else inWork)) :
    wp (fun _ => False) (completeProcessed rc req) (fun _ s' => Ledger E s' waiting inWork) s := by
  unfold completeProcessed
  rw [wp_ite]
  refine ⟨fun hrc => ?_, fun hrc => ?_⟩
  · rw [if_pos hrc] at h
    exact h.complete
  · rw [if_neg hrc] at h
    exact h

/-! ### The queue -/

theorem sameReads_decPending (q : ℕ) :
    Keeps (fun s s' : Service => s'.reads = s.reads) (decPending q) := .modify fun _ => rfl

theorem sameReads_completeProcessed {rc : ModuleRc} :
    Keeps (fun s s' : Service => s'.reads = s.reads) (completeProcessed rc req) := by
  intro s
  unfold completeProcessed
  rw [wp_ite]
  exact ⟨fun _ => rfl, fun _ => rfl⟩

theorem grantPending_ledger (h : Ledger E s (others ++ req :: reqs) inWork)
    (hw : lobj.wlock = false) (hr : req.cmd.writeLock = true → lobj.rcount = 0)
    (hfront : FrontEndsLater E (req :: reqs) s.reads lobj.expireTick lobj.uuidHt) :
    wp (fun _ => False) (grantPending E req reqs lobj) (fun lobj' s' =>
      Ledger E s' (others ++ reqs) inWork ∧ lobj'.pendingLockReqs = reqs ∧
        (req.cmd.writeLock = false → lobj'.wlock = false ∧
          FrontEndsLater E reqs s'.reads lobj'.expireTick lobj'.uuidHt)) s := by
  have hopc : req.cmd.opc = .lock := (h.waiters req (by simp)).opc
  unfold grantPending
  rw [wp_bind]
  refine wp_mono (wp_and (h.perm List.perm_middle).leave (sameReads_decPending req.dqpair s)) ?_
  rintro - s₁ ⟨h₁, hs₁⟩
  rw [wp_bind]
  rw [← hs₁] at hfront
  have hend : GrantEndsLater E s₁.reads { lobj with pendingLockReqs := reqs } req.cmd := by
    intro hread _ hnew
    have hturn := hfront hread
    rw [if_neg hnew] at hturn
    exact hturn.1
  have hclock : wp (fun _ => True) (execLock E req { lobj with pendingLockReqs := reqs }) (fun r s' =>
      req.cmd.writeLock = false → FrontEndsLater E reqs s'.reads r.2.expireTick r.2.uuidHt) s₁ := by
    by_cases hread : req.cmd.writeLock = false
    · exact wp_mono (execLock_clock { lobj with pendingLockReqs := reqs } hopc hread hw hfront)
        fun _ _ hnext _ => hnext
    · exact wp_true_iff.2 fun _ _ _ hr => absurd hr hread
  refine wp_mono (wp_and (execLock_ledger { lobj with pendingLockReqs := reqs } hopc hend h₁) hclock) ?_
  rintro ⟨rc, lobj'⟩ s₂ ⟨h₂, hnext⟩
  have hrc : rc ≠ .queued := by
    intro hrc
    rcases h₂.busy hrc with hb | ⟨hwrite, hpos⟩
    · rw [show lobj.wlock = true from hb] at hw
      cases hw
    · have := hr hwrite
      have hpos' : 0 < lobj.rcount := hpos
      omega
  have hpending : lobj'.pendingLockReqs = reqs := h₂.pending hrc
  have hledger := h₂.ledger
  dsimp only at hledger ⊢
  rw [hpending] at hledger
  rw [wp_bind, wp_dflyAssert]
  refine ⟨fun _ => ?_, fun hn => hn hrc⟩
  rw [wp_bind]
  refine wp_mono (wp_and (completeProcessed_ledger hledger) (sameReads_completeProcessed s₂)) ?_
  rintro - s₃ ⟨h₃, hs₃⟩
  refine ⟨h₃, hpending, fun hread => ⟨(h₂.wlock hread).trans hw, ?_⟩⟩
  rw [hs₃]
  exact hnext hread

/-- The loop of `dfly_process_pending_lock_reqs`. -/
theorem processPending_ledger (lobj : LockObject) (readers : Bool)
    (h : Ledger E s (others ++ reqs) inWork) (hw : lobj.wlock = false)
    (hr : readers = false → lobj.rcount = 0)
    (hfront : FrontEndsLater E reqs s.reads lobj.expireTick lobj.uuidHt) :
    wp (fun _ => False) (processPending E readers reqs lobj) (fun lobj' s' =>
      Ledger E s' (others ++ lobj'.pendingLockReqs) inWork) s := by
  induction reqs generalizing s lobj readers with
  | nil => exact h
  | cons req reqs ih =>
    have hwaiter : Waiter req := h.waiters req (by simp)
    have hpos : 0 < s.npendingLockReqs req.dqpair := by
      rw [h.counts, List.countP_append, List.countP_cons]
      simp
    unfold processPending
    rw [wp_bind, wp_dflyAssert]
    refine ⟨fun _ => ?_, fun hn => hn hwaiter.opc⟩
    rw [wp_bind, wp_dflyAssert]
    refine ⟨fun _ => ?_, fun hn => hn hwaiter.blocking⟩
    rw [wp_bind, wp_get, wp_bind, wp_dflyAssert]
    refine ⟨fun _ => ?_, fun hn => hn hpos⟩
    rw [wp_ite]
    refine ⟨fun _ => ?_, fun hread => ?_⟩
    · rw [wp_ite]
      refine ⟨fun _ => h, fun hreaders => ?_⟩
      refine wp_mono (grantPending_ledger h hw (fun _ => hr (by simpa using hreaders)) hfront) ?_
      rintro lobj' s' ⟨h', hpending, -⟩
      rw [hpending]
      exact h'
    · rw [wp_bind]
      refine wp_mono (grantPending_ledger h hw (fun hwrite => absurd hwrite hread) hfront) ?_
      rintro lobj₁ s₁ ⟨h₁, -, hnext⟩
      obtain ⟨hw₁, hfront₁⟩ := hnext (by simpa using hread)
      exact ih lobj₁ true h₁ hw₁ (fun hf => by cases hf) hfront₁

theorem expirePending_ledger {q : ℕ} (h : Ledger E s (others ++ reqs) inWork)
    (hq : ∀ r ∈ reqs, r.dqpair = q) :
    wp (fun _ => False) (expirePending q reqs) (fun _ s' =>
      Ledger E s' others inWork ∧ s'.activeLocks = s.activeLocks) s := by
  induction reqs generalizing s with
  | nil =>
    rw [List.append_nil] at h
    exact ⟨h, rfl⟩
  | cons r reqs ih =>
    obtain rfl := hq r List.mem_cons_self
    unfold expirePending
    rw [wp_bind]
    have hleave := (h.perm List.perm_middle).leave
    refine wp_mono (wp_and hleave (sameLocks_decPending r.dqpair s)) ?_
    rintro - s₁ ⟨h₁, hs₁⟩
    have h₁' : Ledger E { s₁ with statusCode := Function.update s₁.statusCode r.id .lockExpired }
        (others ++ reqs) (r.id :: inWork) := h₁.congr rfl rfl rfl
    unfold setStatusCode
    rw [wp_bind, wp_modify, wp_bind]
    refine wp_mono (wp_and h₁'.complete (sameLocks_complete _)) ?_
    rintro - s₂ ⟨h₂, hs₂⟩
    refine wp_mono (ih h₂ fun r' hr' => hq r' (List.mem_cons_of_mem _ hr')) ?_
    rintro - s₃ ⟨h₃, hs₃⟩
    exact ⟨h₃, hs₃.trans (hs₂.activeLocks.trans hs₁.activeLocks)⟩

end

/-! ### The table -/

/-- The requests of all queues. -/
def Service.waiting (s : Service) : List DflyRequest :=
  s.activeLocks.flatMap fun e => e.2.pendingLockReqs

/-- The requests that wait for other keys. -/
def Service.elsewhere (s : Service) (key : List UInt8) : List DflyRequest :=
  (s.activeLocks.filter fun e => e.1 ≠ key).flatMap fun e => e.2.pendingLockReqs

section

variable {E : Env} {s s' : Service} {req : DflyRequest} {lobj : LockObject} {key : List UInt8}
  {inWork : List ℕ}

theorem filter_fst_ne_eq_self {l : List (List UInt8 × LockObject)} (h : key ∉ l.map Prod.fst) :
    l.filter (fun e => e.1 ≠ key) = l := by
  refine List.filter_eq_self.2 fun e he => ?_
  simp only [decide_eq_true_eq]
  rintro rfl
  exact h (List.mem_map_of_mem (f := Prod.fst) he)

theorem waiting_perm (hnodup : (s.activeLocks.map Prod.fst).Nodup)
    (hmem : (key, lobj) ∈ s.activeLocks) :
    s.waiting.Perm (s.elsewhere key ++ lobj.pendingLockReqs) := by
  obtain ⟨l₁, l₂, hl⟩ := List.append_of_mem hmem
  unfold Service.waiting Service.elsewhere
  rw [hl] at hnodup ⊢
  rw [List.map_append, List.map_cons] at hnodup
  have hdis := List.nodup_append.1 hnodup
  have h₁ : key ∉ l₁.map Prod.fst := fun h => hdis.2.2 key h key List.mem_cons_self rfl
  have h₂ : key ∉ l₂.map Prod.fst := (List.nodup_cons.1 hdis.2.1).1
  rw [List.filter_append, List.filter_cons_of_neg (by simp), filter_fst_ne_eq_self h₁,
    filter_fst_ne_eq_self h₂, List.flatMap_append, List.flatMap_cons, List.flatMap_append,
    List.append_assoc]
  exact List.perm_append_comm.append_left _

theorem Service.elsewhere_congr (h : s'.activeLocks = s.activeLocks) (key : List UInt8) :
    s'.elsewhere key = s.elsewhere key := by
  unfold Service.elsewhere
  rw [h]

theorem Service.waiting_congr (h : s'.activeLocks = s.activeLocks) : s'.waiting = s.waiting := by
  unfold Service.waiting
  rw [h]

theorem putObject_ledger (hnodup : (s.activeLocks.map Prod.fst).Nodup)
    (hmem : key ∈ s.activeLocks.map Prod.fst)
    (h : Ledger E s (s.elsewhere key ++ lobj.pendingLockReqs) inWork) :
    wp (fun _ => False) (putObject key lobj) (fun _ s' => Ledger E s' s'.waiting inWork) s := by
  set s' : Service := { s with
    activeLocks := s.activeLocks.map fun e => if e.1 = key then (key, lobj) else e } with hs'
  change Ledger E s' s'.waiting inWork
  have hnodup' : (s'.activeLocks.map Prod.fst).Nodup := by
    rw [hs', map_fst_put]
    exact hnodup
  have hmem' : (key, lobj) ∈ s'.activeLocks := by
    obtain ⟨e, he, rfl⟩ := List.mem_map.1 hmem
    exact List.mem_map.2 ⟨e, he, if_pos rfl⟩
  have helse : s'.elsewhere key = s.elsewhere key := by
    unfold Service.elsewhere
    congr 1
    rw [hs']
    dsimp only
    generalize s.activeLocks = l
    induction l with
    | nil => rfl
    | cons e l ih =>
      rw [List.map_cons]
      by_cases he : e.1 = key
      · rw [if_pos he, List.filter_cons_of_neg (by simp), List.filter_cons_of_neg (by simp [he]), ih]
      · rw [if_neg he, List.filter_cons_of_pos (by simp [he]), List.filter_cons_of_pos (by simp [he]),
          ih]
  have hperm := waiting_perm hnodup' hmem'
  rw [helse] at hperm
  exact (h.perm hperm.symm).congr rfl rfl rfl

theorem dropObject_ledger (h : Ledger E s (s.elsewhere key) inWork) :
    wp (fun _ => False) (dropObject key lobj) (fun _ s' => Ledger E s' s'.waiting inWork) s :=
  h.congr rfl rfl rfl

theorem complete_ledger (h : Ledger E s s.waiting (req.id :: inWork)) :
    wp (fun _ => False) (complete req) (fun _ s' => Ledger E s' s'.waiting inWork) s := by
  refine wp_mono (wp_and h.complete (sameLocks_complete s)) ?_
  rintro - s₁ ⟨h₁, hs₁⟩
  rw [Service.waiting_congr hs₁.activeLocks]
  exact h₁

/-! ### Requests -/

theorem fail_ledger (code : StatusCode) (h : Ledger E s s.waiting [req.id]) :
    wp (fun _ => False) (do setStatusCode req code; complete req)
      (fun _ s' => Ledger E s' s'.waiting []) s := by
  have h' : Ledger E { s with statusCode := Function.update s.statusCode req.id code }
      s.waiting [req.id] := h.congr rfl rfl rfl
  unfold setStatusCode
  rw [wp_bind, wp_modify]
  exact complete_ledger h'

theorem lockObject_ledger (hnodup : (s.activeLocks.map Prod.fst).Nodup)
    (hmem : lobj.key ∈ s.activeLocks.map Prod.fst) (hholds : Holds s.log lobj)
    (hex : Exclusive s.log) (hbound : lobj.rcount + 1 < 2 ^ 16) (hopc : req.cmd.opc = .lock)
    (hend : GrantEndsLater E s.reads lobj req.cmd)
    (h : Ledger E s (s.elsewhere lobj.key ++ lobj.pendingLockReqs) [req.id]) :
    wp (fun _ => False) (lockObject E req lobj) (fun _ s' => Ledger E s' s'.waiting []) s := by
  unfold lockObject
  rw [wp_bind]
  refine wp_mono (wp_and (execLock_ledger lobj hopc hend h) (execLock_spec hholds hex hopc hbound)) ?_
  rintro ⟨rc, lobj'⟩ s₁ ⟨h₁, hs₁⟩
  have hkey : lobj'.key = lobj.key := hs₁.key
  have hactive := hs₁.serves.activeLocks
  have hledger : Ledger E s₁ (s₁.elsewhere lobj'.key ++ lobj'.pendingLockReqs)
      (if rc = .processed then [req.id] else []) := by
    rw [hkey, Service.elsewhere_congr hactive]
    exact h₁.ledger
  dsimp only
  rw [wp_bind]
  refine wp_mono (putObject_ledger (by rw [hactive]; exact hnodup)
    (by rw [hactive, hkey]; exact hmem) hledger) fun _ s₂ h₂ => ?_
  refine wp_mono (wp_and (completeProcessed_ledger h₂) (sameLocks_completeProcessed s₂)) ?_
  rintro - s₃ ⟨h₃, hs₃⟩
  rw [Service.waiting_congr hs₃.activeLocks]
  exact h₃

theorem finishUnlock_ledger (hnodup : (s.activeLocks.map Prod.fst).Nodup)
    (hmem : lobj.key ∈ s.activeLocks.map Prod.fst)
    (hfree : ¬ lobj.Locked → lobj.pendingLockReqs = [])
    (h : Ledger E s (s.elsewhere lobj.key ++ lobj.pendingLockReqs) [req.id]) :
    wp (fun _ => False) (finishUnlock req lobj) (fun _ s' => Ledger E s' s'.waiting []) s := by
  unfold finishUnlock settleObject
  rw [wp_bind, wp_ite]
  refine ⟨fun ⟨hw, hr⟩ => ?_, fun _ => ?_⟩
  · have hpending : lobj.pendingLockReqs = [] := by
      refine hfree fun hlocked => ?_
      unfold LockObject.Locked at hlocked
      rw [hw, hr] at hlocked
      exact hlocked.elim Bool.false_ne_true (lt_irrefl 0)
    rw [hpending, List.append_nil] at h
    exact wp_mono (dropObject_ledger h) fun _ s₁ h₁ => complete_ledger h₁
  · exact wp_mono (putObject_ledger hnodup hmem h) fun _ s₁ h₁ => complete_ledger h₁

theorem drainAndFinish_ledger {lobj₀ : LockObject} {reqs : List DflyRequest}
    (hnodup : (s.activeLocks.map Prod.fst).Nodup) (hmem : lobj₀.key ∈ s.activeLocks.map Prod.fst)
    (hdrained : Drained reqs lobj₀ s lobj s')
    (h : Ledger E s' (s.elsewhere lobj₀.key ++ lobj.pendingLockReqs) [req.id]) :
    wp (fun _ => False) (finishUnlock req lobj) (fun _ s'' => Ledger E s'' s''.waiting []) s' := by
  have hactive := hdrained.serves.activeLocks
  rw [← hdrained.key] at h hmem
  refine finishUnlock_ledger (by rw [hactive]; exact hnodup) (by rw [hactive]; exact hmem)
    (fun hfree => ?_) ?_
  · have hreqs : reqs = [] := by
      by_contra hne
      exact hfree (hdrained.locked (Or.inr hne))
    have hsuffix := hdrained.pending
    rw [hreqs] at hsuffix
    exact List.suffix_nil.1 hsuffix
  · rw [Service.elsewhere_congr hactive]
    exact h

/-- The holder that the unlock takes from the lock is its last one. -/
def Releases (lobj : LockObject) (cmd : LockRequest) : Prop :=
  cmd.uuid ∈ lobj.uuidHt ∧ if cmd.writeLock = true then lobj.wlock = true else lobj.rcount = 1

/-- The readers that an unlock serves make their locks end later. -/
def ReleaseEndsLater (E : Env) (i : ℕ) (lobj : LockObject) (cmd : LockRequest) : Prop :=
  Releases lobj cmd →
    FrontEndsLater E lobj.pendingLockReqs i lobj.expireTick (lobj.uuidHt.erase cmd.uuid)

theorem refuseUnlock_ledger (hinv : LockInv s) (hmem : (lobj.key, lobj) ∈ s.activeLocks)
    (h : Ledger E s s.waiting [req.id]) (sc : StatusCode) :
    wp (fun _ => False) (do setStatusCode req sc; finishUnlock req lobj)
      (fun _ s' => Ledger E s' s'.waiting []) s := by
  unfold setStatusCode
  rw [wp_bind, wp_modify]
  exact finishUnlock_ledger hinv.nodup (List.mem_map_of_mem (f := Prod.fst) hmem)
    (fun hn => absurd (hinv.locked _ hmem) hn) ((h.perm (waiting_perm hinv.nodup hmem)).congr rfl rfl rfl)

theorem verifyUnlock_ledger {next : Option LockObject → M Unit} (hopc : req.cmd.opc = .unlock)
    (hnone : next none = pure ()) (h : Ledger E s s.waiting [req.id])
    (hnext : req.cmd.uuid ∈ lobj.uuidHt → wp (fun _ => False)
      (next (some { lobj with uuidHt := lobj.uuidHt.erase req.cmd.uuid }))
      (fun _ s' => Ledger E s' s'.waiting []) s) :
    wp (fun _ => False) (verifyUuid req lobj >>= next) (fun _ s' => Ledger E s' s'.waiting []) s := by
  rw [wp_bind]
  refine wp_mono (wp_and (verifyUuid_ledger h) (verifyUuid_unlock lobj hopc)) ?_
  rintro r s₁ ⟨⟨rfl, h₁⟩ | ⟨uuidHt, hr₁, rfl⟩, hs₁, hr⟩
  · rw [hnone]
    refine Ledger.perm h₁ ?_
    rw [Service.waiting_congr hs₁.activeLocks]
  · obtain ⟨hu, hr₂⟩ : _ ∧ _ := hr.resolve_left fun hn => by rw [hr₁] at hn; cases hn
    rw [hr₂]
    exact hnext hu

theorem unlockWriter_ledger (hinv : LockInv s) (hmem : (lobj.key, lobj) ∈ s.activeLocks)
    (hopc : req.cmd.opc = .unlock) (hwrite : req.cmd.writeLock = true)
    (hend : ReleaseEndsLater E s.reads lobj req.cmd) (hbound : lobj.pendingLockReqs.length < 2 ^ 16)
    (h : Ledger E s s.waiting [req.id]) :
    wp (fun _ => False) (unlockWriter E req lobj) (fun _ s' => Ledger E s' s'.waiting []) s := by
  have hholds : Holds s.log lobj := hinv.holds _ hmem
  have hkeys : lobj.key ∈ s.activeLocks.map Prod.fst := List.mem_map_of_mem (f := Prod.fst) hmem
  unfold unlockWriter
  rw [wp_ite]
  refine ⟨fun hw => verifyUnlock_ledger hopc rfl h fun hu => ?_, fun hw => ?_⟩
  · have hr₀ : lobj.rcount = 0 := hholds.exclusive hw
    dsimp only
    rw [wp_bind, wp_dflyAssert]
    refine ⟨fun _ => ?_, fun hn => hn hr₀⟩
    unfold infoLog processPendingLockReqs
    rw [wp_bind, wp_modify, wp_bind]
    set s₂ : Service := { s with log := .writeUnLocked lobj.key :: s.log }
    have hledger₂ : Ledger E s₂ (s₂.elsewhere lobj.key ++ lobj.pendingLockReqs) [req.id] :=
      (h.perm (waiting_perm hinv.nodup hmem)).congr rfl rfl rfl
    have hfront : FrontEndsLater E lobj.pendingLockReqs s₂.reads lobj.expireTick
        (lobj.uuidHt.erase req.cmd.uuid) := hend ⟨hu, by rw [if_pos hwrite]; exact hw⟩
    refine wp_mono (wp_and (processPending_ledger { lobj with
        uuidHt := lobj.uuidHt.erase req.cmd.uuid, wlock := false } false hledger₂ rfl
        (fun _ => hr₀) hfront)
      (processPending_spec lobj.pendingLockReqs false (hholds.unlockWrite hw hu)
        (show Exclusive s₂.log from hinv.exclusive) (fun hf => by cases hf) ?_)) ?_
    · dsimp only
      omega
    · rintro lobj' s' ⟨h', hd'⟩
      exact drainAndFinish_ledger (s := s₂) hinv.nodup (by exact hkeys) hd' h'
  · rw [wp_bind, wp_dflyAssert]
    exact ⟨fun _ => refuseUnlock_ledger hinv hmem h _,
      fun hn => hn ((hinv.locked _ hmem).resolve_left hw)⟩

theorem unlockReader_ledger (hinv : LockInv s) (hmem : (lobj.key, lobj) ∈ s.activeLocks)
    (hopc : req.cmd.opc = .unlock) (hread : req.cmd.writeLock = false)
    (hend : ReleaseEndsLater E s.reads lobj req.cmd) (hbound : lobj.pendingLockReqs.length < 2 ^ 16)
    (h : Ledger E s s.waiting [req.id]) :
    wp (fun _ => False) (unlockReader E req lobj) (fun _ s' => Ledger E s' s'.waiting []) s := by
  have hholds : Holds s.log lobj := hinv.holds _ hmem
  have hkeys : lobj.key ∈ s.activeLocks.map Prod.fst := List.mem_map_of_mem (f := Prod.fst) hmem
  unfold unlockReader
  rw [wp_ite]
  refine ⟨fun hr => verifyUnlock_ledger hopc rfl h fun hu => ?_, fun hr => ?_⟩
  · have hw : lobj.wlock = false := by
      by_contra hw
      have := hholds.exclusive (by simpa using hw)
      omega
    dsimp only
    rw [wp_bind, wp_dflyAssert]
    refine ⟨fun _ => ?_, fun hn => hn hw⟩
    unfold infoLog lastReader
    rw [wp_bind, wp_modify, wp_bind]
    set s₂ : Service := { s with log := .readUnLocked lobj.key :: s.log }
    have hholds₂ := hholds.unlockRead hr hu
    have hledger₂ : Ledger E s₂ (s₂.elsewhere lobj.key ++ lobj.pendingLockReqs) [req.id] :=
      (h.perm (waiting_perm hinv.nodup hmem)).congr rfl rfl rfl
    dsimp only
    rw [wp_ite]
    refine ⟨fun hr₀ => ?_, fun hr₀ => ?_⟩
    · unfold processPendingLockReqs
      have hone : lobj.rcount = 1 := by omega
      have hfront : FrontEndsLater E lobj.pendingLockReqs s₂.reads lobj.expireTick
          (lobj.uuidHt.erase req.cmd.uuid) := hend ⟨hu, by rw [if_neg (by rw [hread]; decide)]; exact hone⟩
      refine wp_mono (wp_and (processPending_ledger { lobj with
          uuidHt := lobj.uuidHt.erase req.cmd.uuid, rcount := lobj.rcount - 1 } false hledger₂ hw
          (fun _ => hr₀) hfront)
        (processPending_spec lobj.pendingLockReqs false hholds₂
          (show Exclusive s₂.log from hinv.exclusive) (fun hf => by cases hf) ?_)) ?_
      · dsimp only
        omega
      · rintro lobj' s' ⟨h', hd'⟩
        exact drainAndFinish_ledger (s := s₂) hinv.nodup (by exact hkeys) hd' h'
    · exact finishUnlock_ledger (s := s₂) hinv.nodup (by exact hkeys)
        (fun hn => absurd (Or.inr (Nat.pos_of_ne_zero hr₀)) hn) hledger₂
  · rw [wp_bind, wp_dflyAssert]
    exact ⟨fun _ => refuseUnlock_ledger hinv hmem h _,
      fun hn => hn ((hinv.locked _ hmem).resolve_right hr)⟩

theorem expire_ledger (hinv : LockInv s) (hmem : (lobj.key, lobj) ∈ s.activeLocks)
    (hown : ∀ r ∈ lobj.pendingLockReqs, r.dqpair = req.dqpair)
    (hcount : s.npendingLockReqs req.dqpair = lobj.pendingLockReqs.length)
    (h : Ledger E s s.waiting [req.id]) :
    wp (fun _ => False) (expire req lobj) (fun _ s' => Ledger E s' s'.waiting []) s := by
  have hledger := h.perm (waiting_perm hinv.nodup hmem)
  -- the queue pair waits for no other key
  have hnone : (s.elsewhere lobj.key).countP (fun r => r.dqpair = req.dqpair) = 0 := by
    have hall : lobj.pendingLockReqs.countP (fun r => r.dqpair = req.dqpair) =
        lobj.pendingLockReqs.length := List.countP_eq_length.2 fun r hr => by simpa using hown r hr
    have hq := hledger.counts req.dqpair
    rw [List.countP_append, hall, hcount] at hq
    omega
  unfold expire infoLog
  rw [wp_bind, wp_modify, wp_bind]
  have hledger₁ : Ledger E { s with log := .lockExpired lobj.key :: s.log }
      (s.elsewhere lobj.key ++ lobj.pendingLockReqs) [req.id] := hledger.congr rfl rfl rfl
  refine wp_mono (expirePending_ledger hledger₁ hown) ?_
  rintro - s₂ ⟨h₂, hactive⟩
  rw [wp_bind, wp_get, wp_bind, wp_dflyAssert]
  refine ⟨fun _ => ?_, fun hn => hn (by rw [h₂.counts, hnone])⟩
  rw [wp_bind]
  refine wp_mono (dropObject_ledger ?_) fun _ s₃ h₃ => fail_ledger _ h₃
  rw [Service.elsewhere_congr hactive]
  exact h₂

end

/-! ### Commands -/

/-- If the lock of the key has expired, the requests that wait for it are all of the queue pair of
the command, and this queue pair waits for no other key. -/
def ExpiresAlone (E : Env) (s : Service) (c : Command) : Prop :=
  ∀ lobj ∈ s.find c.cmd.keyStr, isValid E c.dqpair c.cmd = true →
    lobj.expireTick < E.ticks s.reads → (∀ r ∈ lobj.pendingLockReqs, r.dqpair = c.dqpair) ∧
      s.npendingLockReqs c.dqpair = lobj.pendingLockReqs.length

/-- A new lock object gets its end from the `i`-th reading of the clock, and a reader gives it a later
one. -/
def NewEndsLater (E : Env) (i : ℕ) (cmd : LockRequest) : Prop :=
  E.ticks (i + 1) < expireTickFrom E (E.ticks i) cmd ∧
    (cmd.writeLock = false → EndsLater E (i + 2) (expireTickFrom E (E.ticks i) cmd) cmd)

/-- The ends of locks that a command sets lie after the next readings of the clock. -/
def SetsEnd (E : Env) (s : Service) (c : Command) : Prop :=
  isValid E c.dqpair c.cmd = true →
    match s.find c.cmd.keyStr with
    | none => c.cmd.opc = .lock → 0 < s.lobjMp.length → NewEndsLater E s.reads c.cmd
    | some lobj => E.ticks s.reads ≤ lobj.expireTick →
        match c.cmd.opc with
        | .lock => GrantEndsLater E (s.reads + 1) lobj c.cmd
        | .unlock => ReleaseEndsLater E (s.reads + 1) lobj c.cmd

/-- The commands that the service handles as it should. -/
structure Orderly (E : Env) (s : Service) (c : Command) : Prop where
  fits : CounterFits s c
  alone : ExpiresAlone E s c
  setsEnd : SetsEnd E s c

section

variable {E : Env} {s s' : Service} {req : DflyRequest} {lobj : LockObject} {c : Command}

theorem processFound_ledger (hinv : LockInv s) (hmem : (lobj.key, lobj) ∈ s.activeLocks)
    (hrcount : lobj.rcount + 1 < 2 ^ 16) (hpending : lobj.pendingLockReqs.length < 2 ^ 16)
    (hend : E.ticks s.reads ≤ lobj.expireTick →
      match req.cmd.opc with
      | .lock => GrantEndsLater E (s.reads + 1) lobj req.cmd
      | .unlock => ReleaseEndsLater E (s.reads + 1) lobj req.cmd)
    (halone : lobj.expireTick < E.ticks s.reads →
      (∀ r ∈ lobj.pendingLockReqs, r.dqpair = req.dqpair) ∧
        s.npendingLockReqs req.dqpair = lobj.pendingLockReqs.length)
    (h : Ledger E s s.waiting [req.id]) :
    wp (fun _ => False) (processFound E req lobj) (fun _ s' => Ledger E s' s'.waiting []) s := by
  unfold processFound
  rw [wp_bind, wp_getTicks]
  set s₁ : Service := { s with reads := s.reads + 1 }
  have hinv₁ : LockInv s₁ := hinv.sameLocks ⟨rfl, rfl, rfl⟩
  have h₁ : Ledger E s₁ s₁.waiting [req.id] := h.congr rfl rfl rfl
  rw [wp_ite]
  refine ⟨fun hexp => ?_, fun hlive => ?_⟩
  · obtain ⟨hown, hcount⟩ := halone hexp
    exact expire_ledger hinv₁ hmem hown hcount h₁
  · have hend₁ := hend (not_lt.1 hlive)
    cases hopc : req.cmd.opc with
    | lock =>
      rw [hopc] at hend₁
      refine lockObject_ledger hinv₁.nodup (List.mem_map_of_mem (f := Prod.fst) hmem)
        (hinv₁.holds _ hmem) hinv₁.exclusive hrcount hopc hend₁ ?_
      exact h₁.perm (waiting_perm hinv₁.nodup hmem)
    | unlock =>
      rw [hopc] at hend₁
      dsimp only at hend₁ ⊢
      rw [wp_ite]
      exact ⟨fun hwrite => unlockWriter_ledger hinv₁ hmem hopc hwrite hend₁ hpending h₁, fun hread =>
        unlockReader_ledger hinv₁ hmem hopc (by simpa using hread) hend₁ hpending h₁⟩

theorem processNew_ledger (hinv : LockInv s) (hfind : s.find req.cmd.keyStr = none)
    (hend : req.cmd.opc = .lock → 0 < s.lobjMp.length → NewEndsLater E s.reads req.cmd)
    (h : Ledger E s s.waiting [req.id]) :
    wp (fun _ => False) (processNew E req) (fun _ s' => Ledger E s' s'.waiting []) s := by
  unfold processNew
  cases hopc : req.cmd.opc with
  | unlock => exact fail_ledger _ h
  | lock =>
    dsimp only
    rw [wp_bind, wp_get]
    cases hpool : s.lobjMp with
    | nil => exact fail_ledger _ h
    | cons lobj rest =>
      dsimp only
      rw [wp_bind, wp_modify, wp_bind]
      unfold newObject htInsert
      obtain ⟨hafter, hlater⟩ := hend hopc (by rw [hpool]; exact Nat.succ_pos _)
      rw [wp_bind, wp_getTicks, wp_bind, wp_getTicks, wp_bind, wp_dflyAssert]
      refine ⟨fun _ => ?_, fun hn => hn hafter⟩
      rw [wp_bind, wp_modify, wp_pure]
      have hzero := hinv.pool lobj (by rw [hpool]; exact List.mem_cons_self)
      have hkey : req.cmd.keyStr ∉ s.activeLocks.map Prod.fst := not_mem_of_find hfind
      obtain ⟨hreads, hwrites⟩ := hinv.free _ hkey
      refine lockObject_ledger ?_ List.mem_cons_self ⟨fun _ => hzero.1, ?_, ?_, ?_⟩ hinv.exclusive ?_
        hopc (fun hread _ _ => hlater hread) ?_
      · rw [List.map_cons, List.nodup_cons]
        exact ⟨hkey, hinv.nodup⟩
      · dsimp only
        rw [hzero.1, hzero.2]
        rfl
      · exact hzero.1.trans hreads.symm
      · dsimp only
        rw [hwrites, hzero.2]
        rfl
      · dsimp only
        rw [hzero.1]
        decide
      · refine Ledger.congr (s := s) ?_ rfl rfl rfl
        unfold Service.elsewhere
        rw [List.filter_cons_of_neg (by simp), filter_fst_ne_eq_self hkey, List.append_nil]
        exact h

/-- The invariant of the service with its ledger. -/
structure ServiceInv (E : Env) (s : Service) : Prop where
  locks : LockInv s
  ledger : Ledger E s s.waiting []

/-- The service handles one command without a failed assertion. -/
theorem ServiceInv.step (h : ServiceInv E s) (hok : Orderly E s c) :
    ∃ s', LockService.step E s c = some s' ∧ ServiceInv E s' := by
  suffices hwp : wp (fun _ => False) (lockSvcProcessReq E (s.nextReq c))
      (fun _ s' => Ledger E s' s'.waiting []) { s with received := s.received + 1 } by
    obtain ⟨s', hs', hledger⟩ := step_of_wp hwp
    exact ⟨s', hs', h.locks.step hok.fits hs', hledger⟩
  set s₀ : Service := { s with received := s.received + 1 }
  have hinv₀ : LockInv s₀ := h.locks.sameLocks ⟨rfl, rfl, rfl⟩
  have h₀ : Ledger E s₀ s₀.waiting [(s.nextReq c).id] := by
    refine ⟨?_, h.ledger.counts, h.ledger.bound, h.ledger.waiters⟩
    have hids := h.ledger.ids
    rw [List.append_nil] at hids
    rw [← List.append_assoc, List.range_succ]
    exact hids.append_right _
  unfold lockSvcProcessReq isValidLockReq
  rw [wp_bind, wp_ite]
  refine ⟨fun hvalid => ?_, fun _ => ?_⟩
  · rw [wp_pure, if_pos rfl, wp_bind, wp_get]
    cases hf : s₀.find (s.nextReq c).cmd.keyStr with
    | none =>
      have hend := hok.setsEnd hvalid
      rw [show s.find c.cmd.keyStr = none from hf] at hend
      exact processNew_ledger hinv₀ hf hend h₀
    | some lobj =>
      have hmem := mem_of_find hf
      have hkey : lobj.key = (s.nextReq c).cmd.keyStr := hinv₀.key_eq _ hmem
      obtain ⟨hr, hp⟩ := hok.fits lobj hf
      rw [← hkey] at hmem
      have hend := hok.setsEnd hvalid
      rw [show s.find c.cmd.keyStr = some lobj from hf] at hend
      exact processFound_ledger hinv₀ hmem hr hp hend (hok.alone lobj hf hvalid) h₀
  · unfold setStatusCode
    rw [wp_bind, wp_modify, wp_pure, if_neg Bool.false_ne_true]
    exact complete_ledger (h₀.congr rfl rfl rfl)

theorem serviceInv_init (lobjs : ℕ) : ServiceInv E (init lobjs) where
  locks := lockInv_init lobjs
  ledger := ⟨List.Perm.refl _, fun _ => rfl, fun _ => Nat.zero_le _,
    fun _ hr => absurd hr List.not_mem_nil⟩

end

/-! ### Whole runs -/

/-- Every request was completed once or waits in one queue, and the counters of the queue pairs
count the waiting ones. -/
structure ExactlyOnce (s : Service) : Prop where
  once : (s.completed.map Prod.fst ++ s.waiting.map DflyRequest.id).Perm (List.range s.received)
  counts : ∀ q, s.npendingLockReqs q = s.waiting.countP fun r => r.dqpair = q

/-- In every run of orderly commands no assertion fails, and every request is completed once. -/
theorem exactlyOnce_of_run {E : Env} {lobjs : ℕ} {commands : List Command}
    (hok : Run.Admissible (step E) (Orderly E) (init lobjs) commands) :
    ∃ s, Run.run (step E) (init lobjs) commands = some s ∧ ExactlyOnce s := by
  obtain ⟨s, hs, h⟩ := Run.run_total
    (fun _ _ (h : ServiceInv E _) hok => h.step hok) (serviceInv_init lobjs) hok
  refine ⟨s, hs, ?_, h.ledger.counts⟩
  have hids := h.ledger.ids
  rw [List.append_nil] at hids
  exact hids

section

variable (E : Env)

instance (i expireTick : ℕ) (cmd : LockRequest) : Decidable (EndsLater E i expireTick cmd) :=
  inferInstanceAs (Decidable (_ → _))

instance decidableFront :
    ∀ reqs i expireTick uuids, Decidable (FrontEndsLater E reqs i expireTick uuids)
  | [], _, _, _ => isTrue trivial
  | req :: reqs, _, _, uuids =>
      have := decidableFront reqs
      inferInstanceAs (Decidable (_ → if req.cmd.uuid ∈ uuids then _ else _ ∧ _))

instance (s : Service) (c : Command) : Decidable (ExpiresAlone E s c) := by
  unfold ExpiresAlone
  infer_instance

instance (i : ℕ) (cmd : LockRequest) : Decidable (NewEndsLater E i cmd) :=
  inferInstanceAs (Decidable (_ ∧ (_ → _)))

instance (i : ℕ) (lobj : LockObject) (cmd : LockRequest) : Decidable (GrantEndsLater E i lobj cmd) :=
  inferInstanceAs (Decidable (_ → _ → _ → _))

instance (i : ℕ) (lobj : LockObject) (cmd : LockRequest) : Decidable (ReleaseEndsLater E i lobj cmd) :=
  inferInstanceAs (Decidable ((_ ∧ if cmd.writeLock = true then _ else _) → _))

instance (s : Service) (c : Command) : Decidable (SetsEnd E s c) := by
  unfold SetsEnd
  cases s.find c.cmd.keyStr with
  | none => infer_instance
  | some lobj =>
    cases c.cmd.opc with
    | lock => infer_instance
    | unlock => infer_instance

instance (s : Service) (c : Command) : Decidable (Orderly E s c) :=
  decidable_of_iff (CounterFits s c ∧ ExpiresAlone E s c ∧ SetsEnd E s c)
    ⟨fun h => ⟨h.1, h.2.1, h.2.2⟩, fun h => ⟨h.1, h.2, h.3⟩⟩

end

/-- A clock that advances by three ticks with every reading, and jumps once. -/
def walkingClock : Env := ⟨fun i => if i < 14 then 3 * i else 300 + 3 * i, 30, fun _ => 4⟩

/-- A writer waits for a reader, then a reader for the writer, then a reader for another writer, whose
lock ends when the clock jumps: the queue pair of the reader finds it expired and locks the key anew. -/
theorem exactlyOnce_walkingClock :
    ∃ s, Run.run (step walkingClock) (init 1)
      (waitingWriter ++ [⟨0, oneByteLock .unlock 3 false false⟩, ⟨2, oneByteLock .lock 4 true false⟩,
        ⟨1, oneByteLock .lock 5 false true⟩, ⟨1, oneByteLock .lock 6 true false⟩,
        ⟨1, oneByteLock .lock 7 false false⟩]) = some s ∧ ExactlyOnce s :=
  exactlyOnce_of_run (by decide +kernel)

/-- A clock that jumps by a hundred ticks after three readings. -/
def jumpingClock : Env := ⟨fun i => if i < 3 then 0 else 100, 1, fun _ => 4⟩

/-- A writer of another queue pair waits for a lock that expires. -/
def expiredWaiter : List Command :=
  [⟨0, oneByteLock .lock 1 true false⟩, ⟨1, oneByteLock .lock 2 true true⟩,
    ⟨0, oneByteLock .lock 3 true false⟩]

theorem not_exactlyOnce_expiredWaiter :
    ¬ ∀ (E : Env) (lobjs : ℕ) (commands : List Command),
      ∃ s, Run.run (step E) (init lobjs) commands = some s ∧ ExactlyOnce s := by
  intro hall
  obtain ⟨s, hs, -⟩ := hall jumpingClock 1 expiredWaiter
  have hnone : (Run.run (step jumpingClock) (init 1) expiredWaiter).isNone := by decide +kernel
  rw [hs] at hnone
  cases hnone

end DssSdk.LockService
