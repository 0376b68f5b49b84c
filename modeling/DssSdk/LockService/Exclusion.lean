import DssSdk.LockService.Service

/-!
# Readers and writers of a key

What the lock objects say about the locks that were granted and not released.

* `heldReads`, `heldWrites`: the locks of a key that the log shows as held;
* `Exclusive`: no lock of the log was granted against another one;
* `LockInv`: the lock objects agree with the log;
* `excludes_of_run`: the invariant over whole runs, for keys with fewer readers than the counter of
  a lock object can count.
-/

namespace DssSdk.LockService

open Program

/-- The read locks of a key that are held, for a log with the last entry first. -/
def heldReads (key : List UInt8) : List LogEntry → ℕ
  | [] => 0
  | .readLocked k :: log => if k = key then heldReads key log + 1 else heldReads key log
  | .readUnLocked k :: log => if k = key then heldReads key log - 1 else heldReads key log
  | .lockExpired k :: log => if k = key then 0 else heldReads key log
  | .writeLocked _ :: log | .writeUnLocked _ :: log => heldReads key log

/-- The write locks of a key that are held. -/
def heldWrites (key : List UInt8) : List LogEntry → ℕ
  | [] => 0
  | .writeLocked k :: log => if k = key then heldWrites key log + 1 else heldWrites key log
  | .writeUnLocked k :: log => if k = key then heldWrites key log - 1 else heldWrites key log
  | .lockExpired k :: log => if k = key then 0 else heldWrites key log
  | .readLocked _ :: log | .readUnLocked _ :: log => heldWrites key log

/-- A write lock was granted only to a key that nobody held, a read lock only to a key without a
writer. -/
def Exclusive : List LogEntry → Prop
  | [] => True
  | .writeLocked k :: log => heldReads k log = 0 ∧ heldWrites k log = 0 ∧ Exclusive log
  | .readLocked k :: log => heldWrites k log = 0 ∧ Exclusive log
  | _ :: log => Exclusive log

/-- Somebody holds the lock. -/
def LockObject.Locked (lobj : LockObject) : Prop := lobj.wlock = true ∨ 0 < lobj.rcount

/-- A lock object that agrees with the log. -/
structure Holds (log : List LogEntry) (lobj : LockObject) : Prop where
  exclusive : lobj.wlock = true → lobj.rcount = 0
  uuids : lobj.uuidHt.card = lobj.rcount + lobj.wlock.toNat
  reads : lobj.rcount = heldReads lobj.key log
  writes : lobj.wlock.toNat = heldWrites lobj.key log

/-- What the handlers of the lock object of `key` leave alone. -/
structure Serves (key : List UInt8) (s s' : Service) : Prop where
  activeLocks : s'.activeLocks = s.activeLocks
  lobjMp : s'.lobjMp = s.lobjMp
  others : ∀ k ≠ key, heldReads k s'.log = heldReads k s.log ∧
    heldWrites k s'.log = heldWrites k s.log

instance (key : List UInt8) : IsPreorder Service (Serves key) where
  refl _ := ⟨rfl, rfl, fun _ _ => ⟨rfl, rfl⟩⟩
  trans _ _ _ h h' := by
    refine ⟨h'.activeLocks.trans h.activeLocks, h'.lobjMp.trans h.lobjMp, fun k hk => ?_⟩
    exact ⟨(h'.others k hk).1.trans (h.others k hk).1, (h'.others k hk).2.trans (h.others k hk).2⟩

/-- Neither the locks nor the log change. -/
structure SameLocks (s s' : Service) : Prop where
  activeLocks : s'.activeLocks = s.activeLocks
  lobjMp : s'.lobjMp = s.lobjMp
  log : s'.log = s.log

instance : IsPreorder Service SameLocks where
  refl _ := ⟨rfl, rfl, rfl⟩
  trans _ _ _ h h' := ⟨h'.activeLocks.trans h.activeLocks, h'.lobjMp.trans h.lobjMp, h'.log.trans h.log⟩

theorem SameLocks.serves {s s' : Service} (h : SameLocks s s') (key : List UInt8) :
    Serves key s s' :=
  ⟨h.activeLocks, h.lobjMp, fun _ _ => by rw [h.log]; exact ⟨rfl, rfl⟩⟩

/-- The key of a log entry. -/
def LogEntry.key : LogEntry → List UInt8
  | readLocked k | writeLocked k | readUnLocked k | writeUnLocked k | lockExpired k => k

theorem held_cons_of_ne {e : LogEntry} {k : List UInt8} (hk : k ≠ e.key) (log : List LogEntry) :
    heldReads k (e :: log) = heldReads k log ∧ heldWrites k (e :: log) = heldWrites k log := by
  cases e with
  | readLocked k' => exact ⟨if_neg (Ne.symm hk), rfl⟩
  | writeLocked k' => exact ⟨rfl, if_neg (Ne.symm hk)⟩
  | readUnLocked k' => exact ⟨if_neg (Ne.symm hk), rfl⟩
  | writeUnLocked k' => exact ⟨rfl, if_neg (Ne.symm hk)⟩
  | lockExpired k' => exact ⟨if_neg (Ne.symm hk), if_neg (Ne.symm hk)⟩

theorem SameLocks.log_cons {s s' : Service} (h : SameLocks s s') (e : LogEntry) :
    Serves e.key s { s' with log := e :: s'.log } := by
  refine ⟨h.activeLocks, h.lobjMp, fun k hk => ?_⟩
  rw [← h.log]
  exact held_cons_of_ne hk s'.log

/-! ### The handlers -/

section

variable {E : Env} {s : Service} {req : DflyRequest} {lobj : LockObject}

theorem wp_dflyAssert {F : Fault → Prop} {Q : Unit → Service → Prop} {c : Prop} [Decidable c] :
    wp F (dflyAssert c) Q s ↔ (c → Q () s) ∧ (¬ c → F .assertFailed) := by
  unfold dflyAssert
  rw [wp_ite]
  rfl

theorem sameLocks_setStatusCode (code : StatusCode) : Keeps SameLocks (setStatusCode req code) :=
  .modify fun _ => ⟨rfl, rfl, rfl⟩

theorem sameLocks_complete : Keeps SameLocks (complete req) := .modify fun _ => ⟨rfl, rfl, rfl⟩

theorem sameLocks_completeProcessed {rc : ModuleRc} : Keeps SameLocks (completeProcessed rc req) :=
  .ite (fun _ => sameLocks_complete) fun _ => .pure _

theorem sameLocks_getTicks : Keeps SameLocks (getTicks E) :=
  .bind .get fun _ => .bind (.modify fun _ => ⟨rfl, rfl, rfl⟩) fun _ => .pure _

theorem sameLocks_decPending (q : ℕ) : Keeps SameLocks (decPending q) :=
  .modify fun _ => ⟨rfl, rfl, rfl⟩

theorem waitOrFail_spec :
    wp (fun _ => True) (waitOrFail E req lobj) (fun r s' => SameLocks s s' ∧
      (r.1 = true ∧ r.2 = { lobj with pendingLockReqs := lobj.pendingLockReqs ++ [req] } ∨
        r.1 = false ∧ r.2 = lobj)) s := by
  unfold waitOrFail isBlockingAllowed
  simp only [wp_bind, wp_get, wp_pure, wp_ite]
  refine ⟨fun _ => ⟨⟨rfl, rfl, rfl⟩, ?_⟩, fun _ => ⟨⟨rfl, rfl, rfl⟩, ?_⟩⟩
  · simp
  · simp

theorem verifyUuid_lock (hopc : req.cmd.opc = .lock) :
    wp (fun _ => True) (verifyUuid req lobj) (fun r s' => SameLocks s s' ∧
      (r = none ∧ req.cmd.uuid ∈ lobj.uuidHt ∨ req.cmd.uuid ∉ lobj.uuidHt ∧
        r = some { lobj with uuidHt := insert req.cmd.uuid lobj.uuidHt })) s := by
  unfold verifyUuid
  rw [hopc]
  dsimp only
  rw [wp_ite]
  refine ⟨fun hmem => ?_, fun hmem => ?_⟩
  · exact ⟨⟨rfl, rfl, rfl⟩, Or.inl ⟨rfl, hmem⟩⟩
  · exact ⟨⟨rfl, rfl, rfl⟩, Or.inr ⟨hmem, rfl⟩⟩

theorem verifyUuid_unlock (lobj : LockObject) (hopc : req.cmd.opc = .unlock) :
    wp (fun _ => True) (verifyUuid req lobj) (fun r s' => SameLocks s s' ∧
      (r = none ∨ req.cmd.uuid ∈ lobj.uuidHt ∧
        r = some { lobj with uuidHt := lobj.uuidHt.erase req.cmd.uuid })) s := by
  unfold verifyUuid
  rw [hopc]
  dsimp only
  rw [wp_ite]
  refine ⟨fun hmem => ?_, fun hmem => ?_⟩
  · exact ⟨⟨rfl, rfl, rfl⟩, Or.inr ⟨hmem, rfl⟩⟩
  · exact ⟨⟨rfl, rfl, rfl⟩, Or.inl rfl⟩

/-- What `_dfly_nvmf_exec_lock` does to a lock object. -/
structure Served (req : DflyRequest) (lobj : LockObject) (s : Service) (rc : ModuleRc)
    (lobj' : LockObject) (s' : Service) : Prop where
  key : lobj'.key = lobj.key
  serves : Serves lobj.key s s'
  holds : Holds s'.log lobj'
  exclusive : Exclusive s'.log
  locked : lobj'.Locked
  rcount : lobj'.rcount ≤ lobj.rcount + 1
  pending : rc ≠ .queued → lobj'.pendingLockReqs = lobj.pendingLockReqs

theorem Holds.locked_of_mem {log : List LogEntry} {u : UInt64} (h : Holds log lobj)
    (hu : u ∈ lobj.uuidHt) : lobj.Locked := by
  have hpos := Finset.card_pos.2 ⟨u, hu⟩
  rw [h.uuids] at hpos
  unfold LockObject.Locked
  cases hw : lobj.wlock with
  | true => exact Or.inl rfl
  | false =>
    rw [hw] at hpos
    exact Or.inr hpos

theorem execWriteLock_spec (h : Holds s.log lobj) (hex : Exclusive s.log)
    (hopc : req.cmd.opc = .lock) :
    wp (fun _ => True) (execWriteLock E req lobj) (fun r s' => Served req lobj s r.1 r.2 s') s := by
  unfold execWriteLock
  rw [wp_ite]
  refine ⟨fun ⟨hw, hr⟩ => ?_, fun hbusy => ?_⟩
  · rw [wp_bind]
    refine wp_mono (verifyUuid_lock hopc) ?_
    rintro r s₁ ⟨h₁, ⟨rfl, hmem⟩ | ⟨hmem, rfl⟩⟩
    · refine ⟨rfl, h₁.serves _, by rw [h₁.log]; exact h, by rw [h₁.log]; exact hex,
        h.locked_of_mem hmem, Nat.le_succ _, fun _ => rfl⟩
    · simp only [infoLog, complete, wp_bind, wp_modify, wp_pure]
      have hreads := h.reads
      have hwrites := h.writes
      rw [hr] at hreads
      rw [hw] at hwrites
      have hserves := h₁.log_cons (.writeLocked lobj.key)
      refine ⟨rfl, ⟨hserves.activeLocks, hserves.lobjMp, hserves.others⟩, ⟨fun _ => hr, ?_, ?_, ?_⟩,
        ?_, Or.inl rfl, Nat.le_succ _, fun _ => rfl⟩
      · rw [Finset.card_insert_of_notMem hmem, h.uuids, hr, hw]
        rfl
      · simp only [heldReads, h₁.log, hr]
        exact hreads
      · simp only [heldWrites, h₁.log, if_true, ← hwrites]
        rfl
      · simp only [Exclusive, h₁.log]
        exact ⟨hreads.symm, hwrites.symm, hex⟩
  · have hlocked : lobj.Locked := by
      unfold LockObject.Locked
      by_contra hfree
      rw [not_or] at hfree
      refine hbusy ⟨by simpa using hfree.1, by omega⟩
    rw [wp_bind]
    refine wp_mono waitOrFail_spec ?_
    rintro ⟨waits, lobj'⟩ s₁ ⟨h₁, ⟨rfl, rfl⟩ | ⟨rfl, rfl⟩⟩
    · refine ⟨rfl, h₁.serves _, ?_, by rw [h₁.log]; exact hex, hlocked, Nat.le_succ _,
        fun hrc => absurd rfl hrc⟩
      rw [h₁.log]
      exact ⟨h.exclusive, h.uuids, h.reads, h.writes⟩
    · simp only [complete, Bool.false_eq_true, if_false, wp_bind, wp_modify, wp_pure]
      refine ⟨rfl, ⟨h₁.activeLocks, h₁.lobjMp, (h₁.serves _).others⟩, ?_, ?_, hlocked, Nat.le_succ _,
        fun _ => rfl⟩
      · rw [show ({ s₁ with completed := _ } : Service).log = s.log from h₁.log]
        exact h
      · rw [show ({ s₁ with completed := _ } : Service).log = s.log from h₁.log]
        exact hex

/-- The counter counts one more reader. -/
theorem Holds.read {log : List LogEntry} {u : UInt64} (h : Holds log lobj) (hw : lobj.wlock = false)
    (hu : u ∉ lobj.uuidHt) (hbound : lobj.rcount + 1 < 2 ^ 16) (expireTick : ℕ) :
    Holds (.readLocked lobj.key :: log) { lobj with
      uuidHt := insert u lobj.uuidHt, rcount := (lobj.rcount + 1) % 2 ^ 16, expireTick } := by
  have hmod : (lobj.rcount + 1) % 2 ^ 16 = lobj.rcount + 1 := Nat.mod_eq_of_lt hbound
  refine ⟨fun hw' => ?_, ?_, ?_, ?_⟩
  · rw [hw] at hw'
    cases hw'
  · have huuids := h.uuids
    dsimp only
    rw [Finset.card_insert_of_notMem hu, hmod]
    omega
  · rw [hmod]
    simp only [heldReads, if_true, h.reads]
  · exact h.writes

theorem execReadLock_spec (h : Holds s.log lobj) (hex : Exclusive s.log)
    (hopc : req.cmd.opc = .lock) (hbound : lobj.rcount + 1 < 2 ^ 16) :
    wp (fun _ => True) (execReadLock E req lobj) (fun r s' => Served req lobj s r.1 r.2 s') s := by
  unfold execReadLock
  rw [wp_ite]
  refine ⟨fun hw => ?_, fun hw => ?_⟩
  · rw [wp_bind, wp_dflyAssert]
    refine ⟨fun _ => ?_, fun _ => trivial⟩
    rw [wp_bind]
    refine wp_mono (verifyUuid_lock hopc) ?_
    rintro r s₁ ⟨h₁, ⟨rfl, hmem⟩ | ⟨hmem, rfl⟩⟩
    · refine ⟨rfl, h₁.serves _, by rw [h₁.log]; exact h, by rw [h₁.log]; exact hex,
        h.locked_of_mem hmem, Nat.le_succ _, fun _ => rfl⟩
    · have hmod : (lobj.rcount + 1) % 2 ^ 16 = lobj.rcount + 1 := Nat.mod_eq_of_lt hbound
      have hwrites := h.writes
      rw [hw] at hwrites
      -- the request is granted, whatever the clock shows
      have hgrant : ∀ s₂ expireTick, SameLocks s s₂ →
          Served req lobj s .processed { lobj with
            uuidHt := insert req.cmd.uuid lobj.uuidHt
            rcount := (lobj.rcount + 1) % 2 ^ 16, expireTick }
            { s₂ with log := .readLocked lobj.key :: s₂.log } := by
        intro s₂ expireTick h₂
        refine ⟨rfl, h₂.log_cons (.readLocked lobj.key), ?_, ?_, Or.inr ?_, ?_, fun _ => rfl⟩
        · dsimp only
          rw [h₂.log]
          exact h.read hw hmem hbound expireTick
        · simp only [Exclusive, h₂.log]
          exact ⟨hwrites.symm, hex⟩
        · dsimp only
          omega
        · dsimp only
          omega
      refine sameLocks_getTicks.wp_then fun t s₂ h₂ => ?_
      have h₂' := trans_of SameLocks h₁ h₂
      dsimp only
      rw [wp_ite]
      refine ⟨fun _ => ?_, fun _ => hgrant s₂ _ h₂'⟩
      refine sameLocks_getTicks.wp_then fun t' s₃ h₃ => ?_
      rw [wp_bind, wp_dflyAssert]
      exact ⟨fun _ => hgrant s₃ _ (trans_of SameLocks h₂' h₃), fun _ => trivial⟩
  · have hlocked : lobj.Locked := Or.inl (by simpa using hw)
    rw [wp_bind]
    refine wp_mono waitOrFail_spec ?_
    rintro ⟨waits, lobj'⟩ s₁ ⟨h₁, ⟨rfl, rfl⟩ | ⟨rfl, rfl⟩⟩
    · refine ⟨rfl, h₁.serves _, ?_, by rw [h₁.log]; exact hex, hlocked, Nat.le_succ _,
        fun hrc => absurd rfl hrc⟩
      rw [h₁.log]
      exact ⟨h.exclusive, h.uuids, h.reads, h.writes⟩
    · exact ⟨rfl, h₁.serves _, by rw [h₁.log]; exact h, by rw [h₁.log]; exact hex, hlocked,
        Nat.le_succ _, fun _ => rfl⟩

theorem execLock_spec (h : Holds s.log lobj) (hex : Exclusive s.log)
    (hopc : req.cmd.opc = .lock) (hbound : lobj.rcount + 1 < 2 ^ 16) :
    wp (fun _ => True) (execLock E req lobj) (fun r s' => Served req lobj s r.1 r.2 s') s := by
  unfold execLock
  rw [wp_ite]
  exact ⟨fun _ => execWriteLock_spec h hex hopc, fun _ => execReadLock_spec h hex hopc hbound⟩

/-! ### The queue -/

/-- What the loop over the queue does to a lock object. -/
structure Drained (reqs : List DflyRequest) (lobj : LockObject) (s : Service)
    (lobj' : LockObject) (s' : Service) : Prop where
  key : lobj'.key = lobj.key
  serves : Serves lobj.key s s'
  holds : Holds s'.log lobj'
  exclusive : Exclusive s'.log
  locked : lobj.Locked ∨ reqs ≠ [] → lobj'.Locked
  pending : lobj'.pendingLockReqs <:+ reqs

theorem grantPending_spec {reqs : List DflyRequest} (h : Holds s.log lobj) (hex : Exclusive s.log)
    (hopc : req.cmd.opc = .lock) (hbound : lobj.rcount + 1 < 2 ^ 16) :
    wp (fun _ => True) (grantPending E req reqs lobj)
      (fun lobj' s' => Served req { lobj with pendingLockReqs := reqs } s .processed lobj' s') s := by
  unfold grantPending
  refine (sameLocks_decPending _).wp_then fun _ s₁ h₁ => ?_
  have h' : Holds s₁.log { lobj with pendingLockReqs := reqs } := by
    rw [h₁.log]
    exact ⟨h.exclusive, h.uuids, h.reads, h.writes⟩
  rw [wp_bind]
  refine wp_mono (execLock_spec h' (by rw [h₁.log]; exact hex) hopc hbound) ?_
  rintro ⟨rc, lobj'⟩ s₂ h₂
  rw [wp_bind, wp_dflyAssert]
  refine ⟨fun hrc => ?_, fun _ => trivial⟩
  have hserves := trans_of (Serves lobj.key) (h₁.serves lobj.key) h₂.serves
  have hpending := h₂.pending hrc
  refine sameLocks_completeProcessed.wp_then fun _ s₃ h₃ => ?_
  refine ⟨h₂.key, trans_of (Serves lobj.key) hserves (h₃.serves _), ?_, ?_, h₂.locked, h₂.rcount,
    fun _ => hpending⟩
  · rw [h₃.log]
    exact h₂.holds
  · rw [h₃.log]
    exact h₂.exclusive

/-- The loop of `dfly_process_pending_lock_reqs`. -/
theorem processPending_spec (reqs : List DflyRequest) (readers : Bool) (h : Holds s.log lobj)
    (hex : Exclusive s.log) (hreaders : readers = true → lobj.Locked)
    (hbound : lobj.rcount + reqs.length < 2 ^ 16) :
    wp (fun _ => True) (processPending E readers reqs lobj)
      (fun lobj' s' => Drained reqs lobj s lobj' s') s := by
  induction reqs generalizing s lobj readers with
  | nil =>
    refine ⟨rfl, refl_of (Serves lobj.key) s, ⟨h.exclusive, h.uuids, h.reads, h.writes⟩, hex, ?_,
      List.suffix_refl _⟩
    exact fun hl => hl.resolve_right fun hne => hne rfl
  | cons req reqs ih =>
    unfold processPending
    rw [List.length_cons] at hbound
    have hb : lobj.rcount + 1 < 2 ^ 16 := by omega
    rw [wp_bind, wp_dflyAssert]
    refine ⟨fun hopc => ?_, fun _ => trivial⟩
    rw [wp_bind, wp_dflyAssert]
    refine ⟨fun _ => ?_, fun _ => trivial⟩
    rw [wp_bind, wp_get, wp_bind, wp_dflyAssert]
    refine ⟨fun _ => ?_, fun _ => trivial⟩
    rw [wp_ite]
    refine ⟨fun _ => ?_, fun _ => ?_⟩
    · rw [wp_ite]
      refine ⟨fun hr => ?_, fun _ => ?_⟩
      · exact ⟨rfl, refl_of (Serves lobj.key) s, ⟨h.exclusive, h.uuids, h.reads, h.writes⟩, hex,
          fun _ => hreaders hr, List.suffix_refl _⟩
      · refine wp_mono (grantPending_spec h hex hopc hb) fun lobj' s' h' => ?_
        refine ⟨h'.key, h'.serves, h'.holds, h'.exclusive, fun _ => h'.locked, ?_⟩
        rw [h'.pending (by decide)]
        exact List.suffix_cons _ _
    · rw [wp_bind]
      refine wp_mono (grantPending_spec h hex hopc hb) fun lobj₁ s₁ h₁ => ?_
      have hrcount : lobj₁.rcount ≤ lobj.rcount + 1 := h₁.rcount
      have hkey : lobj₁.key = lobj.key := h₁.key
      refine wp_mono (ih true h₁.holds h₁.exclusive (fun _ => h₁.locked) (by omega))
        fun lobj' s' h' => ?_
      refine ⟨h'.key.trans hkey, ?_, h'.holds, h'.exclusive, fun _ => h'.locked (Or.inl h₁.locked),
        h'.pending.trans (List.suffix_cons _ _)⟩
      have hserves' := h'.serves
      rw [hkey] at hserves'
      exact trans_of (Serves lobj.key) h₁.serves hserves'

end

/-! ### The table -/

/-- The invariant of the service for the keys other than `key`. -/
structure Rest (key : List UInt8) (s : Service) : Prop where
  nodup : (s.activeLocks.map Prod.fst).Nodup
  key_eq : ∀ e ∈ s.activeLocks, e.1 ≠ key → e.2.key = e.1
  holds : ∀ e ∈ s.activeLocks, e.1 ≠ key → Holds s.log e.2
  locked : ∀ e ∈ s.activeLocks, e.1 ≠ key → e.2.Locked
  free : ∀ k ≠ key, k ∉ s.activeLocks.map Prod.fst → heldReads k s.log = 0 ∧ heldWrites k s.log = 0
  pool : ∀ lobj ∈ s.lobjMp, lobj.rcount = 0 ∧ lobj.wlock = false

/-- The invariant of the service. -/
structure LockInv (s : Service) : Prop where
  nodup : (s.activeLocks.map Prod.fst).Nodup
  key_eq : ∀ e ∈ s.activeLocks, e.2.key = e.1
  holds : ∀ e ∈ s.activeLocks, Holds s.log e.2
  locked : ∀ e ∈ s.activeLocks, e.2.Locked
  free : ∀ k, k ∉ s.activeLocks.map Prod.fst → heldReads k s.log = 0 ∧ heldWrites k s.log = 0
  pool : ∀ lobj ∈ s.lobjMp, lobj.rcount = 0 ∧ lobj.wlock = false
  exclusive : Exclusive s.log

section

variable {E : Env} {s s' : Service} {req : DflyRequest} {lobj : LockObject} {key : List UInt8}

theorem LockInv.rest (h : LockInv s) (key : List UInt8) : Rest key s where
  nodup := h.nodup
  key_eq := fun e he _ => h.key_eq e he
  holds := fun e he _ => h.holds e he
  locked := fun e he _ => h.locked e he
  free := fun k _ hk => h.free k hk
  pool := h.pool

theorem LockInv.sameLocks (h : LockInv s) (h' : SameLocks s s') : LockInv s' where
  nodup := by rw [h'.activeLocks]; exact h.nodup
  key_eq := by rw [h'.activeLocks]; exact h.key_eq
  holds := by rw [h'.activeLocks, h'.log]; exact h.holds
  locked := by rw [h'.activeLocks]; exact h.locked
  free := by rw [h'.activeLocks, h'.log]; exact h.free
  pool := by rw [h'.lobjMp]; exact h.pool
  exclusive := by rw [h'.log]; exact h.exclusive

theorem Holds.others {log log' : List LogEntry} (h : Holds log lobj)
    (hlog : heldReads lobj.key log' = heldReads lobj.key log ∧
      heldWrites lobj.key log' = heldWrites lobj.key log) : Holds log' lobj :=
  ⟨h.exclusive, h.uuids, h.reads.trans hlog.1.symm, h.writes.trans hlog.2.symm⟩

theorem Rest.serves (h : Rest key s) (h' : Serves key s s') : Rest key s' where
  nodup := by rw [h'.activeLocks]; exact h.nodup
  key_eq := by rw [h'.activeLocks]; exact h.key_eq
  holds := fun e he hne => by
    rw [h'.activeLocks] at he
    refine (h.holds e he hne).others ?_
    rw [h.key_eq e he hne]
    exact h'.others e.1 hne
  locked := by rw [h'.activeLocks]; exact h.locked
  free := fun k hk hmem => by
    rw [h'.activeLocks] at hmem
    rw [(h'.others k hk).1, (h'.others k hk).2]
    exact h.free k hk hmem
  pool := by rw [h'.lobjMp]; exact h.pool

theorem map_fst_put (l : List (List UInt8 × LockObject)) :
    (l.map fun e => if e.1 = key then (key, lobj) else e).map Prod.fst = l.map Prod.fst := by
  rw [List.map_map]
  refine List.map_congr_left fun e _ => ?_
  simp only [Function.comp_apply]
  split_ifs with he
  · exact he.symm
  · rfl

/-- The lock object goes back into the table. -/
theorem Rest.put (h : Rest key s) (hmem : key ∈ s.activeLocks.map Prod.fst)
    (hholds : Holds s.log lobj) (hex : Exclusive s.log) (hlocked : lobj.Locked)
    (hkey : lobj.key = key) :
    wp (fun _ => True) (putObject key lobj) (fun _ s' => LockInv s') s := by
  have hcases : ∀ e ∈ s.activeLocks.map (fun e => if e.1 = key then (key, lobj) else e),
      e = (key, lobj) ∨ (e ∈ s.activeLocks ∧ e.1 ≠ key) := by
    intro e he
    obtain ⟨e', he', rfl⟩ := List.mem_map.1 he
    split_ifs with hk
    · exact Or.inl rfl
    · exact Or.inr ⟨he', hk⟩
  refine ⟨?_, fun e he => ?_, fun e he => ?_, fun e he => ?_, fun k hk => ?_, h.pool, hex⟩
  · rw [map_fst_put]
    exact h.nodup
  · rcases hcases e he with rfl | ⟨he, hk⟩
    · exact hkey
    · exact h.key_eq e he hk
  · rcases hcases e he with rfl | ⟨he, hk⟩
    · exact hholds
    · exact h.holds e he hk
  · rcases hcases e he with rfl | ⟨he, hk⟩
    · exact hlocked
    · exact h.locked e he hk
  · rw [map_fst_put] at hk
    exact h.free k (fun hkk => hk (hkk ▸ hmem)) hk

/-- The lock object goes back to the pool. -/
theorem Rest.drop (lobj : LockObject) (h : Rest key s) (hex : Exclusive s.log)
    (hfree : heldReads key s.log = 0 ∧ heldWrites key s.log = 0)
    (hlobj : lobj.rcount = 0 ∧ lobj.wlock = false) :
    wp (fun _ => True) (dropObject key lobj) (fun _ s' => LockInv s') s := by
  have hcases : ∀ e ∈ s.activeLocks.filter (fun e => e.1 ≠ key), e ∈ s.activeLocks ∧ e.1 ≠ key := by
    intro e he
    rw [List.mem_filter] at he
    exact ⟨he.1, by simpa using he.2⟩
  refine ⟨?_, fun e he => ?_, fun e he => ?_, fun e he => ?_, fun k hk => ?_, fun l hl => ?_, hex⟩
  · exact h.nodup.sublist (List.filter_sublist.map _)
  · exact h.key_eq e (hcases e he).1 (hcases e he).2
  · exact h.holds e (hcases e he).1 (hcases e he).2
  · exact h.locked e (hcases e he).1 (hcases e he).2
  · by_cases hkk : k = key
    · rw [hkk]
      exact hfree
    · refine h.free k hkk fun hmem => hk ?_
      obtain ⟨e, he, rfl⟩ := List.mem_map.1 hmem
      exact List.mem_map_of_mem (List.mem_filter.2 ⟨he, by simpa using hkk⟩)
  · rcases List.mem_cons.1 hl with rfl | hl
    · exact hlobj
    · exact h.pool l hl

/-! ### Requests -/

theorem lockObject_spec (h : Rest lobj.key s) (hmem : lobj.key ∈ s.activeLocks.map Prod.fst)
    (hholds : Holds s.log lobj) (hex : Exclusive s.log) (hopc : req.cmd.opc = .lock)
    (hbound : lobj.rcount + 1 < 2 ^ 16) :
    wp (fun _ => True) (lockObject E req lobj) (fun _ s' => LockInv s') s := by
  unfold lockObject
  rw [wp_bind]
  refine wp_mono (execLock_spec hholds hex hopc hbound) ?_
  rintro ⟨rc, lobj'⟩ s₁ h₁
  have hrest := h.serves h₁.serves
  have hkey : lobj'.key = lobj.key := h₁.key
  dsimp only
  rw [wp_bind, hkey]
  refine wp_mono (hrest.put (by rw [h₁.serves.activeLocks]; exact hmem) h₁.holds h₁.exclusive
    h₁.locked hkey) fun _ s₂ h₂ => ?_
  exact wp_mono (sameLocks_completeProcessed s₂) fun _ s₃ h₃ => h₂.sameLocks h₃

theorem finishUnlock_spec (h : Rest lobj.key s) (hmem : lobj.key ∈ s.activeLocks.map Prod.fst)
    (hholds : Holds s.log lobj) (hex : Exclusive s.log) :
    wp (fun _ => True) (finishUnlock req lobj) (fun _ s' => LockInv s') s := by
  unfold finishUnlock
  rw [wp_bind]
  have hdrop : wp (fun _ => True) (settleObject lobj) (fun _ s' => LockInv s') s := by
    unfold settleObject
    rw [wp_ite]
    refine ⟨fun ⟨hw, hr⟩ => ?_, fun hbusy => ?_⟩
    · refine h.drop _ hex ⟨?_, ?_⟩ ⟨hr, hw⟩
      · rw [← hholds.reads, hr]
      · rw [← hholds.writes, hw]
        rfl
    · refine h.put hmem hholds hex ?_ rfl
      unfold LockObject.Locked
      by_contra hfree
      rw [not_or] at hfree
      exact hbusy ⟨by simpa using hfree.1, by omega⟩
  refine wp_mono hdrop fun _ s₁ h₁ => ?_
  exact wp_mono (sameLocks_complete s₁) fun _ s₂ h₂ => h₁.sameLocks h₂

theorem drainAndFinish_spec {reqs : List DflyRequest} {lobj₀ : LockObject} (h : Rest lobj₀.key s)
    (hmem : lobj₀.key ∈ s.activeLocks.map Prod.fst) (hdrained : Drained reqs lobj₀ s lobj s') :
    wp (fun _ => True) (finishUnlock req lobj) (fun _ s' => LockInv s') s' := by
  have hrest := h.serves hdrained.serves
  rw [← hdrained.key] at hrest hmem
  refine finishUnlock_spec hrest ?_ hdrained.holds hdrained.exclusive
  rw [hdrained.serves.activeLocks]
  exact hmem

theorem Holds.unlockWrite {log : List LogEntry} {u : UInt64} (h : Holds log lobj)
    (hw : lobj.wlock = true) (hu : u ∈ lobj.uuidHt) :
    Holds (.writeUnLocked lobj.key :: log)
      { lobj with uuidHt := lobj.uuidHt.erase u, wlock := false } := by
  have hwrites := h.writes
  rw [hw] at hwrites
  refine ⟨fun hw' => (by cases hw'), ?_, h.reads, ?_⟩
  · dsimp only
    rw [Finset.card_erase_of_mem hu, h.uuids, hw]
    rfl
  · simp only [heldWrites, if_true, ← hwrites]
    rfl

theorem Holds.unlockRead {log : List LogEntry} {u : UInt64} (h : Holds log lobj)
    (hr : 0 < lobj.rcount) (hu : u ∈ lobj.uuidHt) :
    Holds (.readUnLocked lobj.key :: log)
      { lobj with uuidHt := lobj.uuidHt.erase u, rcount := lobj.rcount - 1 } := by
  have huuids := h.uuids
  refine ⟨fun hw => ?_, ?_, ?_, h.writes⟩
  · rw [h.exclusive hw] at hr
    exact absurd hr (lt_irrefl 0)
  · dsimp only
    rw [Finset.card_erase_of_mem hu]
    omega
  · simp only [heldReads, if_true, h.reads]

theorem refuseUnlock_spec (h : LockInv s) (hmem : (lobj.key, lobj) ∈ s.activeLocks) (sc : StatusCode) :
    wp (fun _ => True) (do setStatusCode req sc; finishUnlock req lobj) (fun _ s' => LockInv s') s := by
  refine (sameLocks_setStatusCode _).wp_then fun _ s₁ h₁ => ?_
  have h' := h.sameLocks h₁
  refine finishUnlock_spec (h'.rest _) ?_ (by rw [h₁.log]; exact h.holds _ hmem) h'.exclusive
  rw [h₁.activeLocks]
  exact List.mem_map_of_mem (f := Prod.fst) hmem

/-- The other keys, when an unlock is in the log. -/
theorem LockInv.logged (h : LockInv s) (hmem : (lobj.key, lobj) ∈ s.activeLocks) (h₁ : SameLocks s s₁)
    {e : LogEntry} (he : e.key = lobj.key) :
    Rest lobj.key { s₁ with log := e :: s₁.log } ∧ lobj.key ∈ s₁.activeLocks.map Prod.fst := by
  rw [← he]
  refine ⟨(h.rest e.key).serves (h₁.log_cons e), ?_⟩
  rw [h₁.activeLocks, he]
  exact List.mem_map_of_mem (f := Prod.fst) hmem

theorem unlockWriter_spec (h : LockInv s) (hmem : (lobj.key, lobj) ∈ s.activeLocks)
    (hopc : req.cmd.opc = .unlock) (hbound : lobj.pendingLockReqs.length < 2 ^ 16) :
    wp (fun _ => True) (unlockWriter E req lobj) (fun _ s' => LockInv s') s := by
  have hholds := h.holds _ hmem
  unfold unlockWriter
  rw [wp_ite]
  refine ⟨fun hw => ?_, fun hw => ?_⟩
  · rw [wp_bind]
    refine wp_mono (verifyUuid_unlock _ hopc) ?_
    rintro r s₁ ⟨h₁, rfl | ⟨hu, rfl⟩⟩
    · exact h.sameLocks h₁
    · dsimp only
      rw [wp_bind, wp_dflyAssert]
      refine ⟨fun hr => ?_, fun _ => trivial⟩
      unfold infoLog
      rw [wp_bind, wp_modify, wp_bind]
      set s₂ : Service := { s₁ with log := .writeUnLocked lobj.key :: s₁.log } with hs₂
      obtain ⟨hrest, hkeys⟩ := h.logged hmem h₁ (e := .writeUnLocked lobj.key) rfl
      have hlog : s₂.log = .writeUnLocked lobj.key :: s.log := by rw [hs₂, ← h₁.log]
      have hholds₁ : Holds s₂.log
          { lobj with uuidHt := lobj.uuidHt.erase req.cmd.uuid, wlock := false } := by
        rw [hlog]
        exact hholds.unlockWrite hw hu
      have hex : Exclusive s₂.log := by
        rw [hlog]
        exact h.exclusive
      refine wp_mono (processPending_spec lobj.pendingLockReqs false hholds₁ hex
        (fun hf => by cases hf) ?_) fun lobj' s' h' => ?_
      · have hr' : lobj.rcount = 0 := hr
        dsimp only
        omega
      · exact drainAndFinish_spec (by exact hrest) (by exact hkeys) h'
  · rw [wp_bind, wp_dflyAssert]
    refine ⟨fun _ => ?_, fun _ => trivial⟩
    exact refuseUnlock_spec h hmem _

theorem unlockReader_spec (h : LockInv s) (hmem : (lobj.key, lobj) ∈ s.activeLocks)
    (hopc : req.cmd.opc = .unlock) (hbound : lobj.pendingLockReqs.length < 2 ^ 16) :
    wp (fun _ => True) (unlockReader E req lobj) (fun _ s' => LockInv s') s := by
  have hholds := h.holds _ hmem
  unfold unlockReader
  rw [wp_ite]
  refine ⟨fun hr => ?_, fun hr => ?_⟩
  · rw [wp_bind]
    refine wp_mono (verifyUuid_unlock _ hopc) ?_
    rintro r s₁ ⟨h₁, rfl | ⟨hu, rfl⟩⟩
    · exact h.sameLocks h₁
    · dsimp only
      rw [wp_bind, wp_dflyAssert]
      refine ⟨fun hw => ?_, fun _ => trivial⟩
      unfold infoLog lastReader
      rw [wp_bind, wp_modify, wp_bind]
      set lobj₁ : LockObject := { lobj with
        uuidHt := lobj.uuidHt.erase req.cmd.uuid, rcount := lobj.rcount - 1 }
      set s₂ : Service := { s₁ with log := .readUnLocked lobj.key :: s₁.log } with hs₂
      obtain ⟨hrest, hkeys⟩ := h.logged hmem h₁ (e := .readUnLocked lobj.key) rfl
      have hlog : s₂.log = .readUnLocked lobj.key :: s.log := by rw [hs₂, ← h₁.log]
      have hholds₁ : Holds s₂.log lobj₁ := by
        rw [hlog]
        exact hholds.unlockRead hr hu
      have hex : Exclusive s₂.log := by
        rw [hlog]
        exact h.exclusive
      rw [wp_ite]
      refine ⟨fun hr' => ?_, fun _ => finishUnlock_spec (by exact hrest) (by exact hkeys) hholds₁ hex⟩
      refine wp_mono (processPending_spec lobj.pendingLockReqs false hholds₁ hex
        (fun hf => by cases hf) (by omega)) fun lobj' s' h' => ?_
      exact drainAndFinish_spec (s := s₂) (by exact hrest) (by exact hkeys) h'
  · rw [wp_bind, wp_dflyAssert]
    refine ⟨fun _ => ?_, fun _ => trivial⟩
    exact refuseUnlock_spec h hmem _

theorem sameLocks_expirePending (q : ℕ) (reqs : List DflyRequest) :
    Keeps SameLocks (expirePending q reqs) := by
  induction reqs with
  | nil => exact .pure _
  | cons r reqs ih =>
    exact .bind (sameLocks_decPending q) fun _ => .bind (sameLocks_setStatusCode _) fun _ =>
      .bind sameLocks_complete fun _ => ih

theorem expire_spec (h : LockInv s) :
    wp (fun _ => True) (expire req lobj) (fun _ s' => LockInv s') s := by
  unfold expire infoLog
  rw [wp_bind, wp_modify]
  set s₁ : Service := { s with log := .lockExpired lobj.key :: s.log } with hs₁
  have hserves : Serves lobj.key s s₁ := (refl_of SameLocks s).log_cons (.lockExpired lobj.key)
  refine (sameLocks_expirePending _ _).wp_then fun _ s₂ h₂ => ?_
  rw [wp_bind, wp_get, wp_bind, wp_dflyAssert]
  refine ⟨fun _ => ?_, fun _ => trivial⟩
  have hrest := ((h.rest lobj.key).serves hserves).serves (h₂.serves _)
  rw [wp_bind]
  refine wp_mono (hrest.drop LockObject.zero ?_ ?_ ⟨rfl, rfl⟩) fun _ s₃ h₃ => ?_
  · rw [h₂.log]
    exact h.exclusive
  · rw [h₂.log]
    simp only [hs₁, heldReads, heldWrites, if_true, and_self]
  · refine wp_mono (Keeps.bind (sameLocks_setStatusCode _) (fun _ => sameLocks_complete) s₃)
      fun _ s₄ h₄ => ?_
    exact h₃.sameLocks h₄

end

/-- The counters of the lock object of the key suffice: fewer than 65535 read locks are held, and
fewer than 65536 requests wait. -/
def CounterFits (s : Service) (c : Command) : Prop :=
  ∀ lobj ∈ s.find c.cmd.keyStr,
    lobj.rcount + 1 < 2 ^ 16 ∧ lobj.pendingLockReqs.length < 2 ^ 16

section

variable {E : Env} {s s' : Service} {req : DflyRequest} {lobj : LockObject} {key : List UInt8}

theorem mem_of_find (h : s.find key = some lobj) : (key, lobj) ∈ s.activeLocks := by
  obtain ⟨l₁, l₂, hl, -⟩ := List.lookup_eq_some_iff.1 h
  rw [hl]
  simp

theorem not_mem_of_find (h : s.find key = none) : key ∉ s.activeLocks.map Prod.fst := by
  intro hmem
  obtain ⟨e, he, rfl⟩ := List.mem_map.1 hmem
  have hne := List.lookup_eq_none_iff.1 h e he
  simp at hne

theorem processFound_spec (h : LockInv s) (hmem : (lobj.key, lobj) ∈ s.activeLocks)
    (hrcount : lobj.rcount + 1 < 2 ^ 16) (hpending : lobj.pendingLockReqs.length < 2 ^ 16) :
    wp (fun _ => True) (processFound E req lobj) (fun _ s' => LockInv s') s := by
  unfold processFound
  refine sameLocks_getTicks.wp_then fun t s₁ h₁ => ?_
  have h' := h.sameLocks h₁
  have hmem' : (lobj.key, lobj) ∈ s₁.activeLocks := by
    rw [h₁.activeLocks]
    exact hmem
  rw [wp_ite]
  refine ⟨fun _ => expire_spec h', fun _ => ?_⟩
  cases hopc : req.cmd.opc with
  | lock =>
    refine lockObject_spec (h'.rest _) ?_ (h'.holds _ hmem') h'.exclusive hopc hrcount
    exact List.mem_map_of_mem (f := Prod.fst) hmem'
  | unlock =>
    dsimp only
    rw [wp_ite]
    exact ⟨fun _ => unlockWriter_spec h' hmem' hopc hpending,
      fun _ => unlockReader_spec h' hmem' hopc hpending⟩

theorem processNew_spec (h : LockInv s) (hfind : s.find req.cmd.keyStr = none) :
    wp (fun _ => True) (processNew E req) (fun _ s' => LockInv s') s := by
  have hfail : ∀ code, wp (fun _ => True) (do setStatusCode req code; complete req)
      (fun _ s' => LockInv s') s := fun code =>
    wp_mono (Keeps.bind (sameLocks_setStatusCode _) (fun _ => sameLocks_complete) s)
      fun _ s₁ h₁ => h.sameLocks h₁
  unfold processNew
  cases hopc : req.cmd.opc with
  | unlock => exact hfail _
  | lock =>
    dsimp only
    rw [wp_bind, wp_get]
    cases hpool : s.lobjMp with
    | nil => exact hfail _
    | cons lobj rest =>
      dsimp only
      rw [wp_bind, wp_modify, wp_bind]
      unfold newObject
      refine sameLocks_getTicks.wp_then fun t s₁ h₁ => ?_
      refine sameLocks_getTicks.wp_then fun t' s₂ h₂ => ?_
      rw [wp_bind, wp_dflyAssert]
      refine ⟨fun _ => ?_, fun _ => trivial⟩
      have h₂' := trans_of SameLocks h₁ h₂
      have hzero := h.pool lobj (by rw [hpool]; exact List.mem_cons_self)
      have hkey : req.cmd.keyStr ∉ s.activeLocks.map Prod.fst := not_mem_of_find hfind
      obtain ⟨hreads, hwrites⟩ := h.free _ hkey
      have hactive : s₂.activeLocks = s.activeLocks := h₂'.activeLocks
      have hlog : s₂.log = s.log := h₂'.log
      have hmp : s₂.lobjMp = rest := h₂'.lobjMp
      refine lockObject_spec ⟨?_, fun e he hne => ?_, fun e he hne => ?_, fun e he hne => ?_,
        fun k hk hmem => ?_, fun l hl => ?_⟩ ?_ ⟨fun _ => hzero.1, ?_, ?_, ?_⟩ ?_ hopc ?_
      · rw [List.map_cons, List.nodup_cons, hactive]
        exact ⟨hkey, h.nodup⟩
      · refine h.key_eq e ?_
        rw [← hactive]
        exact (List.mem_cons.1 he).resolve_left fun hee => hne (by rw [hee])
      · dsimp only
        rw [hlog]
        refine h.holds e ?_
        rw [← hactive]
        exact (List.mem_cons.1 he).resolve_left fun hee => hne (by rw [hee])
      · refine h.locked e ?_
        rw [← hactive]
        exact (List.mem_cons.1 he).resolve_left fun hee => hne (by rw [hee])
      · dsimp only
        rw [hlog]
        refine h.free k fun hmem' => hmem ?_
        rw [List.map_cons, hactive]
        exact List.mem_cons_of_mem _ hmem'
      · refine h.pool l ?_
        rw [hpool, ← hmp]
        exact List.mem_cons_of_mem _ hl
      · exact List.mem_cons_self
      · dsimp only
        rw [hzero.1, hzero.2]
        rfl
      · dsimp only
        rw [hlog, hreads, hzero.1]
      · dsimp only
        rw [hlog, hwrites, hzero.2]
        rfl
      · dsimp only
        rw [hlog]
        exact h.exclusive
      · dsimp only
        rw [hzero.1]
        decide

/-- One command keeps the invariant. -/
theorem LockInv.step {c : Command} (h : LockInv s) (hfits : CounterFits s c)
    (hstep : step E s c = some s') : LockInv s' := by
  unfold LockService.step at hstep
  split at hstep
  · cases hstep
  rename_i s'' hcall
  cases hstep
  refine wp_ok (E := fun _ => True) (Q := fun _ s' => LockInv s') ?_ hcall
  set s₀ : Service := { s with received := s.received + 1 }
  have h₀ : LockInv s₀ := h.sameLocks ⟨rfl, rfl, rfl⟩
  unfold lockSvcProcessReq
  have hvalid : Keeps SameLocks (isValidLockReq E (s.nextReq c)) :=
    .ite (fun _ => .pure _) fun _ => .bind (sameLocks_setStatusCode _) fun _ => .pure _
  refine hvalid.wp_then fun valid s₁ h₁ => ?_
  have h₁' := h₀.sameLocks h₁
  rw [wp_ite]
  refine ⟨fun _ => ?_, fun _ => ?_⟩
  · rw [wp_bind, wp_get]
    have hfind : s₁.find = s.find := by
      funext k
      unfold Service.find
      rw [h₁.activeLocks]
    cases hf : s₁.find (s.nextReq c).cmd.keyStr with
    | none => exact processNew_spec h₁' hf
    | some lobj =>
      have hmem := mem_of_find hf
      have hkey : lobj.key = (s.nextReq c).cmd.keyStr := h₁'.key_eq _ hmem
      rw [hfind] at hf
      obtain ⟨hr, hp⟩ := hfits lobj hf
      rw [← hkey] at hmem
      exact processFound_spec h₁' hmem hr hp
  · exact wp_mono (sameLocks_complete s₁) fun _ s₂ h₂ => h₁'.sameLocks h₂

theorem lockInv_init (lobjs : ℕ) : LockInv (init lobjs) where
  nodup := List.nodup_nil
  key_eq := fun e he => absurd he List.not_mem_nil
  holds := fun e he => absurd he List.not_mem_nil
  locked := fun e he => absurd he List.not_mem_nil
  free := fun _ _ => ⟨rfl, rfl⟩
  pool := fun lobj hl => by
    rw [List.eq_of_mem_replicate hl]
    exact ⟨rfl, rfl⟩
  exclusive := trivial

end

/-! ### Whole runs -/

/-- What the lock objects say: a key has a writer or readers, the counters count the uuids and the
read locks that are held, no lock was granted against another one, and requests wait only for a key
that is locked. -/
structure Excludes (s : Service) : Prop where
  exclusive : ∀ e ∈ s.activeLocks, ¬ (e.2.wlock = true ∧ 0 < e.2.rcount)
  uuids : ∀ e ∈ s.activeLocks, e.2.uuidHt.card = e.2.rcount + e.2.wlock.toNat
  reads : ∀ e ∈ s.activeLocks, e.2.rcount = heldReads e.1 s.log
  granted : Exclusive s.log
  pending : ∀ e ∈ s.activeLocks, e.2.pendingLockReqs ≠ [] → e.2.wlock = true ∨ 0 < e.2.rcount

theorem LockInv.excludes {s : Service} (h : LockInv s) : Excludes s where
  exclusive := fun e he ⟨hw, hr⟩ => by
    rw [(h.holds e he).exclusive hw] at hr
    exact absurd hr (lt_irrefl 0)
  uuids := fun e he => (h.holds e he).uuids
  reads := fun e he => by
    rw [← h.key_eq e he]
    exact (h.holds e he).reads
  granted := h.exclusive
  pending := fun e he _ => h.locked e he

/-- In every run of commands for keys whose counters suffice, readers and writers exclude each
other. -/
theorem excludes_of_run {E : Env} {lobjs : ℕ} {commands : List Command} {s : Service}
    (hok : Run.Admissible (step E) CounterFits (init lobjs) commands)
    (hrun : Run.run (step E) (init lobjs) commands = some s) : Excludes s := by
  have h : LockInv s := Run.run_inv
    (fun _ _ _ (h : LockInv _) hok hstep => h.step hok hstep) (lockInv_init lobjs) hok hrun
  exact h.excludes

instance (s : Service) (c : Command) : Decidable (CounterFits s c) := by
  unfold CounterFits
  infer_instance

/-- A clock that stands still. -/
def stillClock : Env := ⟨fun _ => 0, 1, fun _ => 4⟩

/-- A lock command for the key of one byte `1`. -/
def oneByteLock (opc : Opc) (uuid : UInt64) (writeLock blocking : Bool) : LockRequest :=
  ⟨opc, 1, uuid, 1, 0, 0, writeLock, blocking, [1]⟩

/-- A writer and a reader wait for a reader; the writer comes first, then the reader. -/
def waitingWriter : List Command :=
  [⟨0, oneByteLock .lock 1 false false⟩, ⟨1, oneByteLock .lock 2 true true⟩,
    ⟨0, oneByteLock .unlock 1 false false⟩, ⟨0, oneByteLock .lock 3 false true⟩,
    ⟨1, oneByteLock .unlock 2 true false⟩]

theorem excludes_waitingWriter :
    ∃ s, Run.run (step stillClock) (init 1) waitingWriter = some s ∧ Excludes s := by
  obtain ⟨s, hs⟩ : ∃ s, Run.run (step stillClock) (init 1) waitingWriter = some s :=
    Option.isSome_iff_exists.1 (by decide +kernel)
  exact ⟨s, hs, excludes_of_run (by decide +kernel) hs⟩

/-! ### Too many readers -/

/-- Read locks with the uuids below `n`. -/
def readLocks (n : ℕ) : List Command :=
  (List.range n).map fun i => ⟨0, oneByteLock .lock (UInt64.ofNat i) false false⟩

/-- The lock object after `n` read locks. -/
def readLocked (n : ℕ) : LockObject where
  key := [1]
  rcount := n % 2 ^ 16
  wlock := false
  expireTick := 1
  uuidHt := (Finset.range n).image UInt64.ofNat
  pendingLockReqs := []

theorem ofNat_not_mem {n : ℕ} (hn : n < 2 ^ 64) :
    UInt64.ofNat n ∉ (Finset.range n).image UInt64.ofNat := by
  intro hmem
  obtain ⟨i, hi, hin⟩ := Finset.mem_image.1 hmem
  have hi' := Finset.mem_range.1 hi
  have heq := congrArg UInt64.toNat hin
  rw [UInt64.toNat_ofNat_of_lt' (lt_trans hi' hn), UInt64.toNat_ofNat_of_lt' hn] at heq
  omega

theorem step_of_wp {E : Env} {s : Service} {c : Command} {Q : Unit → Service → Prop}
    (h : wp (fun _ => False) (lockSvcProcessReq E (s.nextReq c))
      Q { s with received := s.received + 1 }) :
    ∃ s', step E s c = some s' ∧ Q () s' := by
  obtain ⟨_, s', hs, hQ⟩ := wp_false_iff.1 h
  refine ⟨s', ?_, hQ⟩
  unfold step
  rw [hs]

theorem step_readLock {s : Service} {n : ℕ} (hn : n < 2 ^ 64)
    (hs : s.activeLocks = [([1], readLocked n)]) :
    ∃ s', step stillClock s ⟨0, oneByteLock .lock (UInt64.ofNat n) false false⟩ = some s' ∧
      s'.activeLocks = [([1], readLocked (n + 1))] := by
  refine step_of_wp (Q := fun _ s' => s'.activeLocks = [([1], readLocked (n + 1))]) ?_
  have hnew := ofNat_not_mem hn
  have huuids : insert (UInt64.ofNat n) ((Finset.range n).image UInt64.ofNat) =
      (Finset.range (n + 1)).image UInt64.ofNat := by
    rw [Finset.range_add_one, Finset.image_insert]
  simp [lockSvcProcessReq, isValidLockReq, isValid, oneByteLock, Service.nextReq, Service.find, hs,
    LockRequest.keyStr, processFound, getTicks, stillClock, readLocked, lockObject,
    execLock, execReadLock, wp_dflyAssert, verifyUuid, hnew, expireTickFrom, infoLog, putObject,
    completeProcessed, complete]
  exact huuids

theorem run_readLocks {n : ℕ} (hn : n + 1 < 2 ^ 64) :
    ∃ s, Run.run (step stillClock) (init 1) (readLocks (n + 1)) = some s ∧
      s.activeLocks = [([1], readLocked (n + 1))] := by
  induction n with
  | zero => exact ⟨_, rfl, rfl⟩
  | succ n ih =>
    obtain ⟨s, hs, hlocks⟩ := ih (by omega)
    obtain ⟨s', hs', hlocks'⟩ := step_readLock (n := n + 1) (by omega) hlocks
    refine ⟨s', ?_, hlocks'⟩
    rw [readLocks, List.range_succ, List.map_append, Run.run_append]
    change (Run.run (step stillClock) (init 1) (readLocks (n + 1))).bind _ = _
    rw [hs, Option.bind_some, List.map_singleton, Run.run_cons, hs']
    rfl

theorem not_excludes_readLocks :
    ¬ ∀ (E : Env) (lobjs : ℕ) (commands : List Command) (s : Service),
      Run.run (step E) (init lobjs) commands = some s → Excludes s := by
  intro hall
  obtain ⟨s, hs, hlocks⟩ := run_readLocks (n := 65535) (by norm_num)
  have huuids := (hall stillClock 1 _ s hs).uuids ([1], readLocked 65536) (by rw [hlocks]; simp)
  have hcard : ((Finset.range 65536).image UInt64.ofNat).card = 65536 := by
    rw [Finset.card_image_of_injOn, Finset.card_range]
    intro i hi j hj hij
    have hi' := Finset.mem_range.1 (Finset.mem_coe.1 hi)
    have hj' := Finset.mem_range.1 (Finset.mem_coe.1 hj)
    have heq := congrArg UInt64.toNat hij
    rwa [UInt64.toNat_ofNat_of_lt' (lt_trans hi' (by decide)),
      UInt64.toNat_ofNat_of_lt' (lt_trans hj' (by decide))] at heq
  change ((Finset.range 65536).image UInt64.ofNat).card = 65536 % 2 ^ 16 + 0 at huuids
  rw [hcard] at huuids
  norm_num at huuids

end DssSdk.LockService
