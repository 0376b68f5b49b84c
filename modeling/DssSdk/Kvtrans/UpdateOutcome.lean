import DssSdk.Kvtrans.HandlerOutcome

/-!
# The outcome of the registered handlers

Each handler of `g_blk_register` in the disk build, on the block context at the end of the chain:
it has an `Outcome`, and while a key is written the handler of a collision extension does not
answer that the key was not found.
-/

namespace DssSdk.Kvtrans

open Program

section

variable {P : Params} {s : Sys} {p : ℕ}

theorem outcome_of_quiet {T : Set ℕ} {m : M Status} (h : Keeps (Quiet T) m) (s : Sys) :
    wp (fun _ => True) m (fun rc s' => Outcome s s' rc) s :=
  wp_mono (h s) fun rc _ hs => .of_quiet hs rc

theorem outcome_then {T : Set ℕ} {α : Type} {m : M α} {f : α → M Status} (h : Keeps (Quiet T) m)
    (hf : ∀ a s', Quiet T s s' → wp (fun _ => True) (f a) (fun rc s'' => Outcome s' s'' rc) s') :
    wp (fun _ => True) (m >>= f) (fun rc s'' => Outcome s s'' rc) s := by
  refine h.wp_then fun a s' hs => ?_
  exact wp_mono (hf a s' hs) fun rc s'' h' => .quiet_trans hs h'

theorem outcome_checked {T : Set ℕ} {m k : M Status} (h : Keeps (Quiet T) m)
    (hk : ∀ s', Quiet T s s' → wp (fun _ => True) k (fun rc s'' => Outcome s' s'' rc) s') :
    wp (fun _ => True) (checked m k) (fun rc s'' => Outcome s s'' rc) s := by
  unfold checked
  refine outcome_then h fun rc s' hs => ?_
  rw [wp_ite]
  exact ⟨fun _ => .of_quiet (refl_of (Quiet T) s') rc, fun _ => hk s' hs⟩

theorem modifyBlk_spec {f : BlkCtx → BlkCtx} (hp : p < s.req.chain.length)
    (h : Keeps (Quiet {p}) (modifyBlk p f)) :
    wp (fun _ => True) (modifyBlk p f) (fun _ s' => Quiet {p} s s' ∧
      s'.req.chain.getD p BlkCtx.zero = f (s.req.chain.getD p BlkCtx.zero)) s := by
  refine wp_true_iff.2 fun _ s' hs' => ⟨h.ok hs', ?_⟩
  cases hs'
  exact getD_modify hp f

/-- The row of `g_blk_register` is the state of the block. -/
theorem assignOps_spec (hp : p < s.req.chain.length) :
    wp (fun _ => True) (assignOps p) (fun _ s' => Quiet {p} s s' ∧
      s'.req.chain.getD p BlkCtx.zero = { s.req.chain.getD p BlkCtx.zero with
        ops := some (s.req.chain.getD p BlkCtx.zero).state }) s := by
  unfold assignOps
  rw [wp_bind, wp_blkAt, wp_ite]
  exact ⟨fun _ => modifyBlk_spec hp (quiet_modifyBlk (Set.mem_singleton p) (fun _ => rfl)
    (fun _ => rfl) fun _ _ => rfl), fun _ => trivial⟩

/-- A block was opened, and then only the block context at position `p` changed. -/
def OpenedFrom (p : ℕ) (s s₂ : Sys) : Prop := ∃ s₁, Opened s s₁ .success ∧ Quiet {p} s₁ s₂

theorem OpenedFrom.marks {s₂ s₃ : Sys} (hlen : s.req.chain.length = p + 1)
    (h : OpenedFrom p s s₂) (h' : Marks {p} s₂ s₃) (rc : Status) : Outcome s s₃ rc := by
  obtain ⟨s₁, h₁, h₂⟩ := h
  refine h₁.outcome (trans_of (Marks {p}) h₂.marks h') ?_ rc
  rw [hlen]
  exact Nat.succ_ne_self p

theorem OpenedFrom.length {s₂ : Sys} (h : OpenedFrom p s s₂) :
    s₂.req.chain.length = s.req.chain.length + 1 := by
  obtain ⟨s₁, h₁, h₂⟩ := h
  rw [h₂.length_eq, h₁.length]

/-- A part that may fail, after a block was opened. -/
theorem OpenedFrom.checked {m k : M Status} {s₂ : Sys} (hlen : s.req.chain.length = p + 1)
    (h : OpenedFrom p s s₂) (hm : Keeps (Quiet {p}) m)
    (hk : ∀ s₃, OpenedFrom p s s₃ → wp (fun _ => True) k (fun rc s' => Outcome s s' rc) s₃) :
    wp (fun _ => True) (checked m k) (fun rc s' => Outcome s s' rc) s₂ := by
  rw [wp_checked]
  refine wp_mono (hm s₂) fun rc s₃ h₃ => ⟨fun _ => h.marks hlen h₃.marks rc, fun _ => hk s₃ ?_⟩
  obtain ⟨s₁, h₁, h₂⟩ := h
  exact ⟨s₁, h₁, trans_of (Quiet {p}) h₂ h₃⟩

variable (hP : P.build = .disk)

include hP

theorem outcome_writeMetaAndData (hp : p < s.req.chain.length) :
    wp (fun _ => True) (writeMetaAndData P p) (fun rc s' => Outcome s s' rc) s :=
  wp_mono (writeMetaAndData_spec hP hp) fun rc _ h => .of_marks h.1 rc

theorem outcome_write (hp : p < s.req.chain.length) :
    wp (fun _ => True) (do writeOndiskBlk P p; return .success)
      (fun rc s' => Outcome s s' rc) s := by
  rw [wp_bind]
  exact wp_mono (writeOndiskBlk_spec hP hp) fun _ _ h => .of_marks h.1 _

/-- The write of the block before a new one. -/
theorem OpenedFrom.write {s₂ : Sys} (hlen : s.req.chain.length = p + 1) (h : OpenedFrom p s s₂) :
    wp (fun _ => True) (do writeOndiskBlk P p; return .success)
      (fun rc s' => Outcome s s' rc) s₂ := by
  have hp : p < s₂.req.chain.length := by
    rw [h.length]
    omega
  rw [wp_bind]
  exact wp_mono (writeOndiskBlk_spec hP hp) fun _ _ hm => h.marks hlen hm.1 _

theorem outcome_openFreeBlk {f : Status × ℕ → M Status} {k : ℕ → M Status}
    (hf : ∀ rc colIndex, f (rc, colIndex) = checked (pure rc) (k colIndex))
    (hlen : s.req.chain.length = p + 1)
    (hk : ∀ colIndex s₁, OpenedFrom p s s₁ →
      wp (fun _ => True) (k colIndex) (fun rc s' => Outcome s s' rc) s₁) :
    wp (fun _ => True) (openFreeBlk P p >>= f) (fun rc s' => Outcome s s' rc) s := by
  rw [wp_bind]
  refine wp_mono (openFreeBlk_spec hP hlen) ?_
  rintro ⟨rc, colIndex⟩ s₁ h₁
  rw [hf, wp_checked, wp_pure]
  refine ⟨fun hrc => .failed hrc h₁.adds, fun hrc => hk colIndex s₁ ⟨s₁, ?_, refl_of _ s₁⟩⟩
  rw [not_not.1 hrc] at h₁
  exact h₁

theorem outcome_addFirstEntry (hlen : s.req.chain.length = p + 1) :
    wp (fun _ => True) (addFirstEntry P p) (fun rc s' => Outcome s s' rc) s := by
  unfold addFirstEntry
  rw [wp_bind, wp_get, wp_bind, wp_blkAt]
  refine outcome_openFreeBlk hP (fun _ _ => rfl) hlen fun colIndex s₁ h₁ => ?_
  refine (quiet_setBlk (Set.mem_singleton p) _).wp_then fun _ s₂ h₂ => ?_
  have h : OpenedFrom p s s₂ := by
    obtain ⟨s₀, h₀, h₀₁⟩ := h₁
    exact ⟨s₀, h₀, trans_of (Quiet {p}) h₀₁ h₂⟩
  exact h.checked hlen (quiet_firstEntryState _ _) fun s₃ h₃ => h₃.write hP hlen

theorem outcome_updateMetaBlk (hlen : s.req.chain.length = p + 1) :
    wp (fun _ => True) (updateMetaBlk P p) (fun rc s' => Outcome s s' rc) s := by
  have hp := Set.mem_singleton p
  unfold updateMetaBlk
  rw [wp_bind, wp_get, wp_bind, wp_blkAt]
  refine outcome_then (quiet_dssAssert (T := {p}) _) fun _ s₁ h₁ => ?_
  have hlen₁ : s₁.req.chain.length = p + 1 := h₁.length_eq.trans hlen
  rw [wp_ite]
  refine ⟨fun _ => ?_, fun _ => ?_⟩
  · split
    · exact outcome_addFirstEntry hP hlen₁
    · exact outcome_of_quiet (T := {p}) (Keeps.pure _) s₁
    · exact outcome_of_quiet (T := {p}) (Keeps.pure _) s₁
  · have hupdate : wp (fun _ => True) (checked (blkUpdateValue P p) (writeMetaAndData P p))
        (fun rc s' => Outcome s₁ s' rc) s₁ := by
      refine outcome_checked (quiet_blkUpdateValue P hp) fun s₂ h₂ => ?_
      exact outcome_writeMetaAndData hP (by rw [h₂.length_eq]; omega)
    split
    · exact hupdate
    · exact hupdate
    · refine outcome_checked (quiet_leaveMetaBlk hp) fun s₂ h₂ => ?_
      exact outcome_of_quiet (quiet_registerCleanBlk hP _ fun i _ => Set.mem_univ i) s₂

theorem outcome_newWriteOps (hlen : s.req.chain.length = p + 1) :
    wp (fun _ => True) (newWriteOps P p) (fun rc s' => Outcome s s' rc) s := by
  have hp := Set.mem_singleton p
  unfold newWriteOps
  rw [wp_bind, wp_blkAt]
  refine outcome_then (quiet_dssAssert (T := {p}) _) fun _ s₁ h₁ => ?_
  have hlen₁ : s₁.req.chain.length = p + 1 := h₁.length_eq.trans hlen
  rw [wp_ite]
  refine ⟨fun _ => ?_, fun _ => ?_⟩
  · unfold refillBlk
    rw [wp_bind, wp_get]
    have hkey : Keeps (Quiet {p}) (modifyBlk p fun b => { b with
        valueBlocks := getNumBlocksRequiredForValue s₁.req.req P.blkSize
        remoteValBlocks := 0
        iscontig := false
        blk := { b.blk with
          key := memcpy b.blk.key s₁.req.req.key s₁.req.req.length, keyLen := s₁.req.req.length
          dataCollisionIndex := if b.dcIndex ≠ 0 then b.dcIndex else b.blk.dataCollisionIndex } }) :=
      quiet_modifyBlk hp (fun _ => rfl) (fun _ => rfl) fun _ _ => rfl
    refine outcome_then hkey fun _ s₂ h₂ => ?_
    refine outcome_checked (quiet_blkInitValue P hp) fun s₃ h₃ => ?_
    exact outcome_writeMetaAndData hP (by rw [h₃.length_eq, h₂.length_eq]; omega)
  · refine outcome_openFreeBlk hP (fun _ _ => rfl) hlen₁ fun colIndex s₂ h₂ => ?_
    refine h₂.checked hlen₁ ?_ fun s₃ h₃ => h₃.write hP hlen₁
    split
    · exact quiet_linkExtension hp _
    · exact quiet_fillSlot hp _ _

theorem outcome_searchTbl (hlen : s.req.chain.length = p + 1) :
    wp (fun _ => True) (searchTbl P p) (fun rc s' => Outcome s s' rc) s := by
  unfold searchTbl
  rw [wp_bind, wp_get, wp_bind, wp_blkAt]
  have hinsert : ∀ c : Prop, ∀ _ : Decidable c,
      Keeps (Quiet {p}) (if c then setFirstInsert p else pure ()) := fun c _ =>
    Keeps.ite (fun _ => quiet_setFirstInsert (Set.mem_singleton p)) fun _ => Keeps.pure _
  refine outcome_then (hinsert _ _) fun _ s₁ h₁ => ?_
  have hlen₁ : s₁.req.chain.length = p + 1 := h₁.length_eq.trans hlen
  split
  · exact loadNext_spec hP hlen₁ _ _ (Or.inl rfl)
  · rw [wp_ite]
    refine ⟨fun _ => loadNext_spec hP hlen₁ _ _ (Or.inr rfl), fun _ => ?_⟩
    rw [wp_ite]
    exact ⟨fun _ => outcome_newWriteOps hP hlen₁,
      fun _ => outcome_of_quiet (T := {p}) (Keeps.pure _) s₁⟩

theorem outcome_invalidateKey (hlen : s.req.chain.length = p + 1) :
    wp (fun _ => True) (invalidateKey P p) (fun rc s' => Outcome s s' rc) s := by
  have hp := Set.mem_singleton p
  unfold invalidateKey
  refine outcome_checked (quiet_blkDelValue hp) fun s₁ h₁ => ?_
  refine outcome_then (quiet_setBlk hp _) fun _ s₂ h₂ => ?_
  refine outcome_checked (quiet_leaveCollisionBlk p) fun s₃ (h₃ : Quiet {p} s₂ s₃) => ?_
  exact outcome_write hP (by rw [h₃.length_eq, h₂.length_eq, h₁.length_eq]; omega)

theorem outcome_updateCollisionBlk (hlen : s.req.chain.length = p + 1) :
    wp (fun _ => True) (updateCollisionBlk P p) (fun rc s' => Outcome s s' rc) s := by
  have hp := Set.mem_singleton p
  unfold updateCollisionBlk
  rw [wp_bind, wp_get, wp_bind, wp_blkAt]
  refine outcome_then (quiet_dssAssert (T := {p}) _) fun _ s₁ h₁ => ?_
  refine outcome_then (quiet_dssAssert (T := {p}) _) fun _ s₂ h₂ => ?_
  have hinsert : ∀ c : Prop, ∀ _ : Decidable c,
      Keeps (Quiet {p}) (if c then setFirstInsert p else pure ()) := fun c _ =>
    Keeps.ite (fun _ => quiet_setFirstInsert hp) fun _ => Keeps.pure _
  refine outcome_then (hinsert _ _) fun _ s₃ h₃ => ?_
  have hlen₃ : s₃.req.chain.length = p + 1 := by
    rw [h₃.length_eq, h₂.length_eq, h₁.length_eq, hlen]
  rw [wp_ite]
  refine ⟨fun _ => ?_, fun _ => outcome_searchTbl hP hlen₃⟩
  have hupdate : wp (fun _ => True) (do let _ ← blkUpdateValue P p; writeMetaAndData P p)
      (fun rc s' => Outcome s₃ s' rc) s₃ := by
    refine outcome_then (quiet_blkUpdateValue P hp) fun _ s₄ h₄ => ?_
    exact outcome_writeMetaAndData hP (by rw [h₄.length_eq]; omega)
  split
  · exact hupdate
  · exact hupdate
  · exact outcome_invalidateKey hP hlen₃

theorem outcome_updateMetaDataCollisionBlk (hlen : s.req.chain.length = p + 1) :
    wp (fun _ => True) (updateMetaDataCollisionBlk P p) (fun rc s' => Outcome s s' rc) s := by
  unfold updateMetaDataCollisionBlk
  rw [wp_bind, wp_blkAt]
  refine outcome_then (quiet_dssAssert (T := {p}) _) fun _ s₁ h₁ => ?_
  have hlen₁ : s₁.req.chain.length = p + 1 := h₁.length_eq.trans hlen
  rw [wp_ite]
  exact ⟨fun _ => outcome_updateMetaBlk hP hlen₁, fun _ => outcome_updateCollisionBlk hP hlen₁⟩

theorem outcome_updateCollisionExtensionBlk (hp0 : p ≠ 0) (hlen : s.req.chain.length = p + 1) :
    wp (fun _ => True) (updateCollisionExtensionBlk P p) (fun rc s' => Outcome s s' rc) s := by
  unfold updateCollisionExtensionBlk
  rw [wp_bind, wp_blkAt]
  refine outcome_then (quiet_dssAssert (T := {p}) _) fun _ s₁ h₁ => ?_
  have hlen₁ : s₁.req.chain.length = p + 1 := h₁.length_eq.trans hlen
  rw [wp_ite]
  refine ⟨fun _ => ?_, fun _ => ?_⟩
  · have hdc : Keeps (Quiet {p}) (modifyBlk p fun b => { b with
        dcIndex := b.blk.dataCollisionIndex }) :=
      quiet_modifyBlk (Set.mem_singleton p) (fun _ => rfl) (fun _ => rfl) fun h => absurd h hp0
    refine outcome_then hdc fun _ s₂ h₂ => ?_
    exact outcome_updateMetaDataCollisionBlk hP (h₂.length_eq.trans hlen₁)
  · rw [wp_ite]
    exact ⟨fun _ => outcome_updateMetaBlk hP hlen₁, fun _ => outcome_updateCollisionBlk hP hlen₁⟩

theorem outcome_initMetaDataCollisionBlk (hlen : s.req.chain.length = p + 1) :
    wp (fun _ => True) (initMetaDataCollisionBlk P p) (fun rc s' => Outcome s s' rc) s := by
  unfold initMetaDataCollisionBlk
  rw [wp_bind, wp_blkAt]
  refine outcome_then (quiet_dssAssert (T := {p}) _) fun _ s₁ h₁ => ?_
  refine outcome_then (quiet_dssAssert (T := {p}) _) fun _ s₂ h₂ => ?_
  have hlen₂ : s₂.req.chain.length = p + 1 := by rw [h₂.length_eq, h₁.length_eq, hlen]
  refine outcome_openFreeBlk hP (fun _ _ => rfl) hlen₂ fun colIndex s₃ h₃ => ?_
  have hinsert : Keeps (Quiet {p}) (do
      let rc ← dcTableInsert (s.req.chain.getD p BlkCtx.zero).dcIndex colIndex
        (s.req.chain.getD p BlkCtx.zero).state
      modifyStat fun st => { st with dc := st.dc + 1 }
      return rc) :=
    Keeps.bind (quiet_dcTableInsert _ _ _) fun _ => quiet_countThen _ _
  refine wp_mono (hinsert s₃) fun rc s₄ h₄ => ?_
  exact h₃.marks hlen₂ h₄.marks rc

/-- The `init_blk` column of `g_blk_register`. -/
theorem outcome_registerInitBlk (row : Option BlkState) (hlen : s.req.chain.length = p + 1) :
    wp (fun _ => True) (registerInitBlk P row p) (fun rc s' => Outcome s s' rc) s := by
  unfold registerInitBlk
  split
  · exact wp_mono (initMetaBlk_spec hP (by omega)) fun rc _ h => .of_marks h.1 rc
  · exact outcome_initMetaDataCollisionBlk hP hlen
  · exact outcome_initMetaDataCollisionBlk hP hlen
  · exact trivial

/-- The `update_blk` column of `g_blk_register`: the handler of an extension is not called for the
entry block. -/
theorem outcome_registerUpdateBlk {row : Option BlkState}
    (hrow : row = some .collisionExtension → p ≠ 0) (hlen : s.req.chain.length = p + 1) :
    wp (fun _ => True) (registerUpdateBlk P row p) (fun rc s' => Outcome s s' rc) s := by
  unfold registerUpdateBlk
  split
  · exact outcome_updateMetaBlk hP hlen
  · exact outcome_updateCollisionBlk hP hlen
  · exact outcome_updateMetaDataCollisionBlk hP hlen
  · exact outcome_updateMetaDataCollisionBlk hP hlen
  · exact outcome_updateMetaDataCollisionBlk hP hlen
  · exact outcome_updateMetaDataCollisionBlk hP hlen
  · exact outcome_updateMetaDataCollisionBlk hP hlen
  · exact outcome_updateCollisionExtensionBlk hP (hrow rfl) hlen
  · exact trivial

end

/-! ### A write does not end with `NOT_FOUND` -/

section

variable (P : Params)

theorem found_checked {m k : M Status} (hm : Returns (· ≠ .notFound) m)
    (hk : Returns (· ≠ .notFound) k) : Returns (· ≠ .notFound) (checked m k) :=
  Returns.bind_of hm fun _ hrc => Returns.ite (fun _ => Returns.pure hrc) fun _ => hk

theorem found_setBlkState (hasCtx : Bool) (index n : ℕ) (state : BlkState) :
    Returns (· ≠ .notFound) (setBlkState hasCtx index n state) := by
  intro s
  unfold setBlkState dssAssert modifyCtx setBaMetaUpdated modifyReq
  rw [wp_bind, wp_get]
  split
  · trivial
  · simp only [wp_ite, wp_pure, wp_bind]
    refine ⟨fun _ => by decide, fun _ => ⟨fun _ => ⟨fun _ => ?_, fun _ => trivial⟩, fun _ => ?_⟩⟩
    · split
      · trivial
      · simp [wp_ite]
    · split
      · trivial
      · simp [wp_ite]

theorem found_dcTableUpdate (index : ℕ) (oriState : BlkState) :
    Returns (· ≠ .notFound) (dcTableUpdate index oriState) := by
  unfold dcTableUpdate
  refine Returns.bind fun _ => found_checked (found_setBlkState _ _ _ _) ?_
  exact Returns.bind fun it => Returns.bind fun _ => Returns.pure (by decide)

theorem found_delExtent (last fuel sIdx eIdx : ℕ) {rc : Status} (hrc : rc ≠ .notFound) :
    Returns (·.1 ≠ .notFound) (delExtent last fuel sIdx eIdx rc) := by
  induction fuel generalizing sIdx eIdx rc with
  | zero =>
    unfold delExtent
    refine Returns.ite (fun _ => ?_) fun _ => Returns.pure hrc
    exact Returns.bind_of (found_setBlkState _ _ _ _) fun _ h => Returns.pure h
  | succ fuel ih =>
    have hdc : ∀ rc : Status, rc ≠ .notFound →
        Returns (·.1 ≠ .notFound) (if rc ≠ .success then pure (rc, true) else do
          let rc ← dcTableUpdate eIdx .empty
          delExtent last fuel (eIdx + 1) (eIdx + 1) rc) := fun rc h =>
      Returns.ite (fun _ => Returns.pure h) fun _ =>
        Returns.bind_of (found_dcTableUpdate _ _) fun _ h => ih _ _ h
    unfold delExtent
    refine Returns.bind fun exist => Returns.ite (fun _ => ?_) fun _ => ?_
    · refine Returns.ite (fun _ => Returns.bind_of (found_setBlkState _ _ _ _) hdc) fun _ => ?_
      exact Returns.bind_of (Returns.pure (by decide)) hdc
    · refine Returns.ite (fun _ => ?_) fun _ => ih _ _ hrc
      exact Returns.bind_of (found_setBlkState _ _ _ _) fun _ h => Returns.pure h

theorem found_delExtents (locs : List ValueLoc) {rc : Status} (hrc : rc ≠ .notFound) :
    Returns (·.1 ≠ .notFound) (delExtents locs rc) := by
  induction locs generalizing rc with
  | nil => exact Returns.pure hrc
  | cons loc locs ih =>
    unfold delExtents
    refine Returns.bind_of (found_delExtent _ _ _ _ hrc) fun r hr => ?_
    exact Returns.ite (fun _ => Returns.pure hr) fun _ => ih hr

theorem found_blkDelValue (p : ℕ) : Returns (· ≠ .notFound) (blkDelValue p) := by
  have htail : ∀ r : Status × Bool, r.1 ≠ .notFound →
      Returns (· ≠ .notFound) (if r.2 = true then pure r.1 else do
        modifyBlk p fun b => { b with
          blk := { b.blk with
            valueBuffer := if b.blk.valueLocation = .inline then [] else b.blk.valueBuffer
            valueSize := 0, valueLocation := .inline, placeValue := [] } }
        pure r.1) := fun r h =>
    Returns.ite (fun _ => Returns.pure h) fun _ => Returns.bind fun _ => Returns.pure h
  unfold blkDelValue
  refine Returns.bind fun b => Returns.ite (fun _ => ?_) fun _ => ?_
  · exact Returns.bind_of (Returns.pure (by decide)) htail
  · exact Returns.bind_of (found_delExtents _ (by decide)) htail

theorem found_findDataBlocks (p fuel n : ℕ) :
    Returns (· ≠ .notFound) (findDataBlocks P p fuel n) := by
  cases fuel with
  | zero => exact Returns.throw _
  | succ fuel =>
    unfold findDataBlocks
    refine Returns.ite (fun _ => Returns.pure (by decide)) fun _ => Returns.bind fun b => ?_
    refine Returns.ite (fun _ => Returns.bind fun _ => Returns.pure (by decide)) fun _ => ?_
    refine Returns.bind fun start => ?_
    split
    · exact Returns.bind fun _ => Returns.bind fun _ => Returns.pure (by decide)
    · refine Returns.ite (fun _ => Returns.pure (by decide)) fun _ => Returns.bind fun rc => ?_
      refine Returns.ite (fun _ => Returns.pure (by decide)) fun _ => Returns.bind fun rc => ?_
      exact Returns.ite (fun _ => Returns.pure (by decide)) fun _ => Returns.pure (by decide)

theorem found_blkInitValue (p : ℕ) : Returns (· ≠ .notFound) (blkInitValue P p) := by
  unfold blkInitValue
  refine Returns.bind fun s => Returns.bind fun b => ?_
  refine Returns.ite (fun _ => Returns.bind fun _ => Returns.pure (by decide)) fun _ => ?_
  refine Returns.ite (fun _ => Returns.bind fun _ => Returns.pure (by decide)) fun _ => ?_
  refine Returns.bind fun _ => found_checked (found_findDataBlocks P p _ _) ?_
  exact Returns.bind fun b => Returns.bind fun _ => Returns.bind fun _ => Returns.pure (by decide)

theorem found_blkUpdateValue (p : ℕ) : Returns (· ≠ .notFound) (blkUpdateValue P p) :=
  found_checked (found_blkDelValue p)
    (Returns.bind fun _ => Returns.bind fun _ => found_blkInitValue P p)

theorem found_writeMetaAndData (p : ℕ) : Returns (· ≠ .notFound) (writeMetaAndData P p) :=
  Returns.bind fun _ => Returns.bind fun _ => Returns.pure (by decide)

theorem found_initMetaBlk (p : ℕ) : Returns (· ≠ .notFound) (initMetaBlk P p) := by
  have hroll : ∀ rc : Status, rc ≠ .notFound → Returns (· ≠ .notFound) (rollBack p rc) := by
    intro rc hrc
    unfold rollBack
    refine Returns.bind fun b => Returns.bind fun ok => ?_
    refine Returns.ite (fun _ => Returns.bind fun _ => ?_) fun _ => Returns.pure (by decide)
    exact Returns.ite (fun _ => Returns.pure (by decide)) fun _ => Returns.pure hrc
  have halloc : Returns (· ≠ .notFound) (allocMetaBlk P p) := by
    unfold allocMetaBlk
    refine Returns.bind fun s => Returns.bind fun b => ?_
    refine Returns.ite (fun _ => Returns.pure (by decide)) fun _ => ?_
    refine Returns.bind fun _ => Returns.bind fun start => ?_
    split
    · exact Returns.pure (by decide)
    · exact Returns.bind fun _ => Returns.pure (by decide)
  unfold initMetaBlk
  refine Returns.bind fun s => Returns.bind fun _ => found_checked halloc ?_
  refine Returns.bind fun _ => Returns.bind_of (found_blkInitValue P p) fun rc hrc => ?_
  refine Returns.ite (fun _ => hroll rc hrc) fun _ => found_checked (found_writeMetaAndData P p) ?_
  exact Returns.bind fun b => Returns.bind fun _ => Returns.pure (by decide)

theorem found_openFreeBlk (p : ℕ) : Returns (·.1 ≠ .notFound) (openFreeBlk P p) := by
  unfold openFreeBlk
  refine Returns.bind fun _ => Returns.bind fun s => Returns.bind fun b => Returns.bind fun _ => ?_
  refine Returns.bind fun ok => Returns.ite (fun _ => ?_) fun _ => Returns.pure (by decide)
  refine Returns.bind fun _ => Returns.bind_of (found_initMetaBlk P _) fun rc hrc => ?_
  exact Returns.bind fun c => Returns.pure hrc

theorem found_addFirstEntry (p : ℕ) : Returns (· ≠ .notFound) (addFirstEntry P p) := by
  have hstate : ∀ b colIndex, Returns (· ≠ .notFound) (firstEntryState b colIndex) := by
    intro b colIndex
    unfold firstEntryState
    refine Returns.ite (fun _ => Returns.bind fun _ => Returns.pure (by decide)) fun _ => ?_
    have hset : ∀ index st f, Returns (· ≠ .notFound) (checked (setBlkState true index 1 st) do
        modifyStat f
        return .success) := fun _ _ _ =>
      found_checked (found_setBlkState _ _ _ _) (Returns.bind fun _ => Returns.pure (by decide))
    refine Returns.ite (fun _ => hset _ _ _) fun _ => ?_
    exact Returns.ite (fun _ => hset _ _ _) fun _ => Returns.pure (by decide)
  unfold addFirstEntry
  refine Returns.bind fun s => Returns.bind fun b => ?_
  refine Returns.bind_of (found_openFreeBlk P p) fun r hr => ?_
  refine found_checked (Returns.pure hr) (Returns.bind fun _ => found_checked (hstate _ _) ?_)
  exact Returns.bind fun _ => Returns.pure (by decide)

theorem found_newWriteOps (p : ℕ) : Returns (· ≠ .notFound) (newWriteOps P p) := by
  unfold newWriteOps refillBlk linkExtension fillSlot
  refine Returns.bind fun b => Returns.bind fun _ => Returns.ite (fun _ => ?_) fun _ => ?_
  · refine Returns.bind fun s => Returns.bind fun _ => ?_
    exact found_checked (found_blkInitValue P p) (found_writeMetaAndData P p)
  · refine Returns.bind_of (found_openFreeBlk P p) fun r hr => ?_
    refine found_checked (Returns.pure hr) (found_checked ?_ ?_)
    · split
      · refine Returns.bind fun b => Returns.bind fun _ => Returns.bind fun _ => ?_
        refine Returns.bind_of (found_setBlkState _ _ _ _) fun rc hrc => ?_
        exact Returns.bind fun _ => Returns.pure hrc
      · refine Returns.bind fun s => Returns.bind fun b => Returns.bind fun _ => ?_
        refine found_checked ?_ (Returns.bind fun _ => Returns.pure (by decide))
        exact Returns.ite (fun _ => found_setBlkState _ _ _ _) fun _ => Returns.pure (by decide)
    · exact Returns.bind fun _ => Returns.pure (by decide)

theorem found_updateKreqStatAfterIo {rc : Status} (hrc : rc ≠ .notFound)
    (successStat queueStat : ReqState) :
    Returns (· ≠ .notFound) (updateKreqStatAfterIo rc successStat queueStat) := by
  unfold updateKreqStatAfterIo
  split
  · exact Returns.bind fun _ => Returns.pure (by decide)
  · exact Returns.bind fun _ => Returns.pure (by decide)
  · exact Returns.pure hrc

theorem found_loadNext (p colIndex : ℕ) (successStat queueStat : ReqState) :
    Returns (· ≠ .notFound) (loadNext P p colIndex successStat queueStat) := by
  have hget : Returns (· ≠ .notFound) (getBlkState (p + 1)) := by
    unfold getBlkState
    refine Returns.bind fun b => Returns.bind fun st => ?_
    split
    · exact Returns.pure (by decide)
    · exact Returns.bind fun _ => Returns.pure (by decide)
  have hload : Returns (· ≠ .notFound) (loadOndiskBlk P (p + 1)) := by
    unfold loadOndiskBlk
    refine Returns.bind fun b => Returns.bind fun _ => Returns.bind fun _ => ?_
    split
    · refine Returns.bind fun s => ?_
      split
      · exact Returns.bind fun _ => Returns.pure (by decide)
      · exact Returns.throw _
    · exact Returns.bind fun _ => Returns.bind fun _ => Returns.pure (by decide)
  unfold loadNext
  refine Returns.bind fun _ => Returns.bind fun _ => found_checked hget ?_
  exact Returns.bind_of hload fun rc hrc => found_updateKreqStatAfterIo hrc _ _

end

/-- The block context writes a key, and no other block context is the first insertable place,
unless it holds the key already. -/
def Writable (p : ℕ) (s : Sys) : Prop :=
  (s.req.chain.getD p BlkCtx.zero).flag = .newWrite ∧
    ((s.req.chain.getD p BlkCtx.zero).firstInsertBlkCtx = none ∨
      (s.req.chain.getD p BlkCtx.zero).firstInsertBlkCtx = some p ∨ FreshAt p s)

section

variable {P : Params} {s : Sys} {p : ℕ}

theorem Writable.of_quiet {s' : Sys} (h : Writable p s) (hq : Quiet ∅ s s') : Writable p s' := by
  have hb : s'.req.chain.getD p BlkCtx.zero = s.req.chain.getD p BlkCtx.zero :=
    (hq.stays (g := fun b => b) (Set.notMem_empty p)).2
  unfold Writable FreshAt
  rw [hb, hq.req]
  exact h

theorem found_updateMetaBlk (h : Writable p s) :
    wp (fun _ => True) (updateMetaBlk P p) (fun rc _ => rc ≠ .notFound) s := by
  unfold updateMetaBlk
  rw [wp_bind, wp_get, wp_bind, wp_blkAt, h.1]
  have hupdate := found_checked (found_blkUpdateValue P p) (found_writeMetaAndData P p)
  refine (quiet_dssAssert (T := ∅) _).wp_then fun _ s₁ _ => ?_
  rw [wp_ite]
  exact ⟨fun _ => found_addFirstEntry P p s₁, fun _ => hupdate s₁⟩

theorem found_searchTbl (hflag : (s.req.chain.getD p BlkCtx.zero).flag = .newWrite)
    (hinsert : (s.req.chain.getD p BlkCtx.zero).firstInsertBlkCtx = none ∨
      (s.req.chain.getD p BlkCtx.zero).firstInsertBlkCtx = some p) :
    wp (fun _ => True) (searchTbl P p) (fun rc _ => rc ≠ .notFound) s := by
  unfold searchTbl
  rw [wp_bind, wp_get, wp_bind, wp_blkAt, wp_bind]
  refine wp_true_iff.2 fun _ s₁ _ => ?_
  split
  · exact found_loadNext P p _ _ _ s₁
  · rw [wp_ite, wp_ite]
    refine ⟨fun _ => found_loadNext P p _ _ _ s₁, fun _ => ⟨fun _ => found_newWriteOps P p s₁, ?_⟩⟩
    intro hn
    exact absurd ⟨hinsert.symm, by rw [hflag]; decide⟩ hn

theorem found_updateCollisionBlk (h : Writable p s) (hp : p < s.req.chain.length) :
    wp (fun _ => True) (updateCollisionBlk P p) (fun rc _ => rc ≠ .notFound) s := by
  obtain ⟨hflag, hinsert⟩ := h
  unfold updateCollisionBlk
  rw [wp_bind, wp_get, wp_bind, wp_blkAt, hflag, wp_bind]
  unfold dssAssert
  simp only [wp_ite, wp_pure, wp_throw, wp_bind, implies_true, and_true]
  intro hnum hstate
  -- a fresh block has no table and no extension
  have hinsert' : (s.req.chain.getD p BlkCtx.zero).firstInsertBlkCtx = none ∨
      (s.req.chain.getD p BlkCtx.zero).firstInsertBlkCtx = some p := by
    rcases hinsert with h | h | ⟨-, -, h0, h1⟩
    · exact Or.inl h
    · exact Or.inr h
    · omega
  have hkey : ∀ s₁, wp (fun _ => True) (writeMetaAndData P p) (fun rc _ => rc ≠ .notFound) s₁ :=
    found_writeMetaAndData P p
  refine ⟨fun _ => ?_, fun _ => ⟨fun _ => wp_true_iff.2 fun _ s₁ _ => hkey s₁, fun _ => ?_⟩⟩
  · unfold setFirstInsert modifyBlk
    rw [wp_modify]
    refine ⟨fun _ => wp_true_iff.2 fun _ s₁ _ => hkey s₁, fun _ => found_searchTbl ?_ (Or.inr ?_)⟩
    · exact (congrArg BlkCtx.flag (getD_modify hp _)).trans hflag
    · exact congrArg BlkCtx.firstInsertBlkCtx (getD_modify hp _)
  · exact found_searchTbl hflag hinsert'

theorem found_updateMetaDataCollisionBlk (h : Writable p s) (hp : p < s.req.chain.length) :
    wp (fun _ => True) (updateMetaDataCollisionBlk P p) (fun rc _ => rc ≠ .notFound) s := by
  unfold updateMetaDataCollisionBlk
  rw [wp_bind, wp_blkAt]
  refine (quiet_dssAssert (T := ∅) _).wp_then fun _ s₁ h₁ => ?_
  rw [wp_ite]
  exact ⟨fun _ => found_updateMetaBlk (h.of_quiet h₁),
    fun _ => found_updateCollisionBlk (h.of_quiet h₁) (by rw [h₁.length_eq]; exact hp)⟩

/-- A write of a key is not answered with `NOT_FOUND` by the handler of an extension. -/
theorem found_updateCollisionExtensionBlk (h : Writable p s) (hp : p < s.req.chain.length) :
    wp (fun _ => True) (updateCollisionExtensionBlk P p) (fun rc _ => rc ≠ .notFound) s := by
  unfold updateCollisionExtensionBlk
  rw [wp_bind, wp_blkAt]
  refine (quiet_dssAssert (T := ∅) _).wp_then fun _ s₁ h₁ => ?_
  have hs₁ := h.of_quiet h₁
  have hp₁ : p < s₁.req.chain.length := by rw [h₁.length_eq]; exact hp
  rw [wp_ite]
  refine ⟨fun _ => ?_, fun _ => ?_⟩
  · unfold modifyBlk
    rw [wp_bind, wp_modify]
    refine found_updateMetaDataCollisionBlk ?_ (by rw [List.length_modify]; exact hp₁)
    unfold Writable FreshAt
    dsimp only
    rw [getD_modify hp₁]
    exact hs₁
  · rw [wp_ite]
    exact ⟨fun _ => found_updateMetaBlk hs₁, fun _ => found_updateCollisionBlk hs₁ hp₁⟩

end

end DssSdk.Kvtrans
