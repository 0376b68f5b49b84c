import DssSdk.Kvtrans.DeleteCalls
import DssSdk.Kvtrans.MetaSync

/-!
# The removal of a collision entry

In `COL_LOADING_DONE` a DELETE first works on the collision block, and then
`_delete_collision_entry` works on the block before it. An error of the second is returned from inside
`_kvtrans_key_ops`, where the LBAs of the chain are not released.

* `Working`, `Worked`: the collision block before and after its handler;
* `EntryRemovable`: what the state before the call has to bring;
* `kvtransCall_released`: with it a call does not leave early.
-/

namespace DssSdk.Kvtrans

open BlockAllocator Program Extents

/-! ### The collision block -/

/-- The table of the block before position `col` has a slot with the key. -/
def Found (col : ℕ) (s : Sys) : Prop :=
  ∃ i, isEntryMatch ((s.req.chain.getD (col - 1) BlkCtx.zero).blk.collisionTbl i)
    s.req.req.key = true

/-- The collision block was worked on: the blocks before it are in use. -/
structure Worked (P : Params) (col : ℕ) (s : Sys) : Prop where
  tidy : Tidy P col (col + 1) s
  found : Found col s

/-- The handler works on the collision block at position `col`, for a DELETE. -/
structure Working (P : Params) (col : ℕ) (s : Sys) : Prop where
  tidy : Tidy P (col + 1) (col + 1) s
  found : Found col s
  stays : holdsNothing (unlinked (s.req.chain.getD (col - 1) BlkCtx.zero).blk
    (s.req.chain.getD col BlkCtx.zero).index) = false
  pos : col ≠ 0

theorem Working.worked {col : ℕ} (h : Working P col s) : Worked P col s :=
  ⟨h.tidy.mono col.le_succ, h.found⟩

/-- Nothing changes for the first `n` blocks of the chain. -/
structure Ahead (n : ℕ) (s s' : Sys) : Prop where
  req : s'.req.req = s.req.req
  alloc : s'.ctx.alloc = s.ctx.alloc
  dcTbl : s'.ctx.dcTbl = s.ctx.dcTbl
  frame : ∀ i < n, s'.req.chain[i]? = s.req.chain[i]?

instance (n : ℕ) : IsPreorder Sys (Ahead n) where
  refl _ := ⟨rfl, rfl, rfl, fun _ _ => rfl⟩
  trans _ _ _ h h' := ⟨h'.req.trans h.req, h'.alloc.trans h.alloc, h'.dcTbl.trans h.dcTbl,
    fun i hi => (h'.frame i hi).trans (h.frame i hi)⟩

section

variable {P : Params} {s s' : Sys} {n col : ℕ}

theorem Ahead.getD (h : Ahead n s s') {i : ℕ} (hi : i < n) :
    s'.req.chain.getD i BlkCtx.zero = s.req.chain.getD i BlkCtx.zero := by
  rw [List.getD_eq_getElem?_getD, List.getD_eq_getElem?_getD, h.frame i hi]

theorem Worked.ahead (h : Worked P col s) (ha : Ahead (col + 1) s s') : Worked P col s' := by
  refine ⟨h.tidy.congr ha.alloc ha.dcTbl (fun p hp => ?_) fun p hp loc hloc => ?_, ?_⟩
  · unfold Sys.lba
    rw [ha.getD hp]
  · unfold Sys.extents at hloc ⊢
    rw [← ha.getD hp]
    exact hloc
  · unfold Found
    rw [ha.getD (show col - 1 < col + 1 by omega), ha.req]
    exact h.found

theorem ahead_modifyBlk {p : ℕ} (hp : n ≤ p) (f : BlkCtx → BlkCtx) :
    Keeps (Ahead n) (modifyBlk p f) := by
  apply Keeps.modify
  intro s
  refine ⟨rfl, rfl, rfl, fun i hi => ?_⟩
  rw [List.getElem?_modify_ne]
  omega

theorem ahead_modifyReq {f : Kreq → Kreq} (hreq : ∀ r, (f r).req = r.req)
    (hchain : ∀ r, (f r).chain = r.chain) : Keeps (Ahead n) (modifyReq f) := by
  apply Keeps.modify
  intro s
  exact ⟨hreq _, rfl, rfl, fun i _ => congrArg (fun l : List BlkCtx => l[i]?) (hchain _)⟩

theorem ahead_modifyCtx {f : Ctx → Ctx} (halloc : ∀ c, (f c).alloc = c.alloc)
    (hdc : ∀ c, (f c).dcTbl = c.dcTbl) : Keeps (Ahead n) (modifyCtx f) := by
  apply Keeps.modify
  intro s
  exact ⟨rfl, halloc _, hdc _, fun _ _ => rfl⟩

theorem ahead_blkAt (p : ℕ) : Keeps (Ahead n) (blkAt p) := fun s => refl_of (Ahead n) s

theorem ahead_getBlkState {p : ℕ} (hp : n ≤ p) : Keeps (Ahead n) (getBlkState p) := by
  have hread : ∀ index, Keeps (Ahead n) (readBlkState index) := by
    intro index s
    refine wp_mono (readBlkState_spec index s) ?_
    rintro - s' rfl
    exact refl_of (Ahead n) _
  unfold getBlkState
  refine Keeps.bind (ahead_blkAt p) fun b => Keeps.bind (hread _) fun st => ?_
  split
  · exact Keeps.pure _
  · exact Keeps.bind (ahead_modifyBlk hp _) fun _ => Keeps.pure _

theorem ahead_setLbaDirty (x : ℕ) (dirty : Bool) : Keeps (Ahead n) (setLbaDirty x dirty) :=
  ahead_modifyCtx (fun _ => rfl) fun _ => rfl

theorem ahead_syncMetaBlkToQueue (p : ℕ) : Keeps (Ahead n) (syncMetaBlkToQueue p) := by
  unfold syncMetaBlkToQueue
  refine Keeps.bind Keeps.get fun s => Keeps.bind (ahead_blkAt p) fun b =>
    Keeps.ite (fun _ => ?_) fun _ => ?_
  · exact ahead_modifyCtx (fun _ => rfl) fun _ => rfl
  · exact Keeps.ite (fun _ => ahead_setLbaDirty _ _) fun _ => Keeps.pure _

theorem ahead_recordLoad (index : ℕ) : Keeps (Ahead n) (recordLoad index) := by
  unfold recordLoad
  refine Keeps.bind Keeps.get fun s => ?_
  split
  · refine Keeps.ite (fun _ => ?_) fun _ => Keeps.pure _
    exact ahead_modifyCtx (fun _ => rfl) fun _ => rfl
  · exact Keeps.pure _

variable (hP : P.build = .disk)

include hP

theorem ahead_loadOndiskBlk (p : ℕ) : Keeps (Ahead n) (loadOndiskBlk P p) := by
  unfold loadOndiskBlk dssAssert
  rw [hP]
  refine Keeps.bind (ahead_blkAt p) fun b =>
    Keeps.bind (Keeps.ite (fun _ => Keeps.pure _) fun _ => Keeps.throw _) fun _ => ?_
  refine Keeps.bind (ahead_recordLoad _) fun _ => ?_
  refine Keeps.bind (ahead_modifyReq (fun _ => rfl) fun _ => rfl) fun _ => ?_
  exact Keeps.bind (ahead_syncMetaBlkToQueue p) fun _ => Keeps.pure _

theorem ahead_writeOndiskBlk (p : ℕ) : Keeps (Ahead n) (writeOndiskBlk P p) := by
  unfold writeOndiskBlk
  rw [hP]
  refine Keeps.bind (ahead_blkAt p) fun b => ?_
  exact Keeps.bind (ahead_modifyReq (fun _ => rfl) fun _ => rfl) fun _ => ahead_setLbaDirty _ _

theorem ahead_loadNext (colIndex : ℕ) (successStat queueStat : ReqState) :
    Keeps (Ahead (col + 1)) (loadNext P col colIndex successStat queueStat) := by
  have hstate : ∀ st, Keeps (Ahead (col + 1)) (modifyReq fun r => { r with state := st }) :=
    fun st => ahead_modifyReq (fun _ => rfl) fun _ => rfl
  have hnext : Keeps (Ahead (col + 1)) (getNextBlkCtx col) := by
    apply Keeps.modify
    intro s
    dsimp only
    split_ifs with hlen
    · refine ⟨rfl, rfl, rfl, fun i hi => ?_⟩
      exact List.getElem?_append_left (by omega)
    · exact refl_of (Ahead _) s
  unfold loadNext
  refine Keeps.bind hnext fun _ => Keeps.bind (ahead_modifyBlk le_rfl _) fun _ => ?_
  refine keeps_checked (ahead_getBlkState le_rfl)
    (Keeps.bind (ahead_loadOndiskBlk hP _) fun rc => ?_)
  unfold updateKreqStatAfterIo
  split
  · exact Keeps.bind (hstate _) fun _ => Keeps.pure _
  · exact Keeps.bind (hstate _) fun _ => Keeps.pure _
  · exact Keeps.pure _

end

section

variable {P : Params} {s s' : Sys} {m n : ℕ}

theorem Found.quiet {col : ℕ} (h : Found col s) (hpos : col ≠ 0) (hq : Quiet {col} s s') :
    Found col s' := by
  have hp : col - 1 ∉ ({col} : Set ℕ) := by
    rw [Set.mem_singleton_iff]
    omega
  unfold Found at h ⊢
  rw [(hq.stays (g := BlkCtx.blk) hp).2, hq.req]
  exact h

/-- A step on the collision block alone. -/
theorem Working.step {α : Type} {col : ℕ} {f : M α} {Q : α → Prop} (h : Working P col s)
    (ht : wp (fun _ => True) f (fun a s' => Q a ∧ Tidy P (col + 1) (col + 1) s') s)
    (hq : Keeps (Quiet {col}) f) : wp (fun _ => True) f (fun a s' => Q a ∧ Working P col s') s := by
  refine wp_mono (wp_and ht (hq s)) ?_
  rintro a s' ⟨⟨ha, ht'⟩, hq'⟩
  have hp : col - 1 ∉ ({col} : Set ℕ) := by
    have := h.pos
    rw [Set.mem_singleton_iff]
    omega
  refine ⟨ha, ht', h.found.quiet h.pos hq', ?_, h.pos⟩
  have hindex : (s'.req.chain.getD col BlkCtx.zero).index =
      (s.req.chain.getD col BlkCtx.zero).index :=
    congrFun hq'.lba col
  rw [(hq'.stays (g := BlkCtx.blk) hp).2, hindex]
  exact h.stays

theorem tidy_leaveMetaBlk (h : Tidy P m n s) (p : ℕ) :
    wp (fun _ => True) (leaveMetaBlk p) (fun rc s' => rc = .success ∧ Tidy P m n s') s := by
  unfold leaveMetaBlk
  rw [wp_bind, wp_blkAt, wp_ite]
  refine ⟨fun _ => ?_, fun _ => ?_⟩
  · rw [wp_bind, wp_dssAssert]
    exact ⟨fun _ => tidy_countedDropDc h p _, fun _ => trivial⟩
  · rw [wp_ite]
    refine ⟨fun _ => ?_, fun _ => ?_⟩
    · rw [wp_bind]
      refine wp_mono (tidy_modifyStat h _) fun _ s₁ h₁ => ?_
      rw [wp_bind]
      exact wp_mono (tidy_modifyBlk (fun _ => rfl) (fun _ => .inr ⟨rfl, rfl⟩) h₁)
        fun _ _ h₂ => ⟨rfl, h₂⟩
    · rw [wp_bind]
      exact wp_mono (tidy_modifyStat h _) fun _ _ h₁ => ⟨rfl, h₁⟩

theorem tidy_leaveCollisionBlk (h : Tidy P m n s) {p : ℕ} (hp : p < m) :
    wp (fun _ => True) (leaveCollisionBlk p) (fun rc s' => rc = .success ∧ Tidy P m n s') s := by
  unfold leaveCollisionBlk
  rw [wp_bind, wp_blkAt, wp_ite]
  refine ⟨fun _ => ?_, fun _ => ⟨rfl, h⟩⟩
  rw [wp_checked]
  refine wp_mono (wp_and (tidy_dropDc h p) (quiet_dropDc (T := ∅) p s)) ?_
  rintro rc s₁ ⟨⟨rfl, h₁⟩, hq⟩
  refine ⟨fun hno => absurd rfl hno, fun _ => ?_⟩
  rw [wp_checked, show (s.req.chain.getD p BlkCtx.zero).index = s₁.lba p by rw [hq.lba]; rfl]
  refine wp_mono (tidy_setLba h₁ hp (by decide) (by decide)) ?_
  rintro rc s₂ ⟨rfl, h₂⟩
  refine ⟨fun hno => absurd rfl hno, fun _ => ?_⟩
  rw [wp_bind]
  exact wp_mono (tidy_modifyStat h₂ _) fun _ _ h₃ => ⟨rfl, h₃⟩

theorem Working.modifyBlk {col : ℕ} (h : Working P col s) {f : BlkCtx → BlkCtx}
    (hindex : ∀ b, (f b).index = b.index) (hnothash : ∀ b, (f b).nothash = b.nothash)
    (hvalue : ∀ b, (f b).blk.valueLocation = .inline ∨
      (f b).blk.valueLocation = b.blk.valueLocation ∧ (f b).blk.placeValue = b.blk.placeValue) :
    wp (fun _ => True) (Kvtrans.modifyBlk col f) (fun _ s' => Working P col s') s := by
  have ht := wp_mono (tidy_modifyBlk (p := col) hindex hvalue h.tidy)
    fun _ _ h' => (⟨trivial, h'⟩ : True ∧ _)
  refine wp_mono (h.step (Q := fun _ => True) ht ?_) fun _ _ h' => h'.2
  exact quiet_modifyBlk (Set.mem_singleton col) hindex hnothash fun h0 => absurd h0 h.pos

section

variable {col : ℕ} (hP : P.build = .disk)

include hP

theorem worked_registerCleanBlk (h : Working P col s) (row : Option BlkState) :
    wp (fun _ => True) (registerCleanBlk P row col) (fun _ s' => Worked P col s') s := by
  have hclean : wp (fun _ => True) (cleanBlk P col) (fun _ s' => Worked P col s') s := by
    refine wp_mono (wp_and (tidy_cleanBlk hP (h.tidy.mono col.le_succ) col.lt_succ_self le_rfl)
      (quiet_cleanBlk hP (Set.mem_singleton col) s)) ?_
    rintro rc s' ⟨⟨-, ht⟩, hq⟩
    exact ⟨ht, h.found.quiet h.pos hq⟩
  unfold registerCleanBlk
  split
  · exact hclean
  · exact hclean
  · exact hclean
  · refine wp_mono
      (tidy_cleanCollisionExtension hP (h.tidy.mono col.le_succ) col.lt_succ_self h.stays) ?_
    rintro rc s' ⟨ht, hreq, htbl⟩
    refine ⟨ht, ?_⟩
    unfold Found
    rw [htbl, hreq]
    exact h.found
  · trivial

theorem worked_updateMetaBlk (h : Working P col s)
    (hflag : (s.req.chain.getD col BlkCtx.zero).flag = .toDelete) :
    wp (fun _ => True) (updateMetaBlk P col) (fun _ s' => Worked P col s') s := by
  unfold updateMetaBlk
  rw [wp_bind, wp_get, wp_bind, wp_blkAt, wp_bind, wp_dssAssert]
  refine ⟨fun _ => ?_, fun _ => trivial⟩
  rw [hflag, wp_ite]
  refine ⟨fun _ => h.worked, fun _ => ?_⟩
  rw [wp_checked]
  refine wp_mono
    (h.step (tidy_leaveMetaBlk h.tidy col) (quiet_leaveMetaBlk (Set.mem_singleton col))) ?_
  rintro rc s₁ ⟨rfl, h₁⟩
  exact ⟨fun hno => absurd rfl hno, fun _ => worked_registerCleanBlk hP h₁ _⟩

theorem worked_invalidateKey (h : Working P col s) :
    wp (fun _ => True) (invalidateKey P col) (fun _ s' => Worked P col s') s := by
  have hcol := Set.mem_singleton col
  unfold invalidateKey
  rw [wp_checked]
  refine wp_mono (h.step (tidy_blkDelValue h.tidy col.lt_succ_self) (quiet_blkDelValue hcol)) ?_
  rintro rc s₁ ⟨rfl, h₁⟩
  refine ⟨fun hno => absurd rfl hno, fun _ => ?_⟩
  rw [wp_bind]
  refine wp_mono (h₁.modifyBlk (fun _ => rfl) (fun _ => rfl) fun _ => .inr ⟨rfl, rfl⟩)
    fun _ s₂ h₂ => ?_
  rw [wp_checked]
  refine wp_mono
    (h₂.step (tidy_leaveCollisionBlk h₂.tidy col.lt_succ_self) (quiet_leaveCollisionBlk col)) ?_
  rintro rc s₃ ⟨rfl, h₃⟩
  refine ⟨fun hno => absurd rfl hno, fun _ => ?_⟩
  rw [wp_bind]
  exact wp_mono (ahead_writeOndiskBlk hP col s₃) fun _ s₄ h₄ => h₃.worked.ahead h₄

theorem worked_searchTbl (h : Working P col s)
    (hflag : (s.req.chain.getD col BlkCtx.zero).flag = .toDelete) :
    wp (fun _ => True) (searchTbl P col) (fun _ s' => Worked P col s') s := by
  have hload : ∀ {s₁ : Sys} (h₁ : Working P col s₁) (x : ℕ) (st st' : ReqState),
      wp (fun _ => True) (loadNext P col x st st') (fun _ s' => Worked P col s') s₁ :=
    fun h₁ x st st' => wp_mono (ahead_loadNext hP x st st' _) fun _ _ ha => h₁.worked.ahead ha
  have hset : ∀ c : Prop, ∀ _ : Decidable c,
      wp (fun _ => True) (if c then setFirstInsert col else pure ()) (fun _ s₁ => Working P col s₁) s := by
    intro c _
    rw [wp_ite]
    exact ⟨fun _ => h.modifyBlk (fun _ => rfl) (fun _ => rfl) fun _ => .inr ⟨rfl, rfl⟩, fun _ => h⟩
  unfold searchTbl
  rw [wp_bind, wp_get, wp_bind, wp_blkAt, wp_bind]
  refine wp_mono (hset _ _) fun _ s₁ h₁ => ?_
  split
  · exact hload h₁ _ _ _
  · rw [wp_ite]
    refine ⟨fun _ => hload h₁ _ _ _, fun _ => ?_⟩
    rw [if_neg fun hw => hw.2 hflag]
    exact h₁.worked

theorem worked_updateCollisionBlk (h : Working P col s)
    (hflag : (s.req.chain.getD col BlkCtx.zero).flag = .toDelete) :
    wp (fun _ => True) (updateCollisionBlk P col) (fun _ s' => Worked P col s') s := by
  unfold updateCollisionBlk
  rw [wp_bind, wp_get, wp_bind, wp_blkAt, wp_bind, wp_dssAssert]
  refine ⟨fun _ => ?_, fun _ => trivial⟩
  rw [wp_bind, wp_dssAssert]
  refine ⟨fun _ => ?_, fun _ => trivial⟩
  rw [wp_bind, if_neg fun hw => hw.2 hflag, wp_pure, wp_ite, hflag]
  exact ⟨fun _ => worked_invalidateKey hP h, fun _ => worked_searchTbl hP h hflag⟩

theorem worked_updateMetaDataCollisionBlk (h : Working P col s)
    (hflag : (s.req.chain.getD col BlkCtx.zero).flag = .toDelete) :
    wp (fun _ => True) (updateMetaDataCollisionBlk P col) (fun _ s' => Worked P col s') s := by
  unfold updateMetaDataCollisionBlk
  rw [wp_bind, wp_blkAt, wp_bind, wp_dssAssert]
  refine ⟨fun _ => ?_, fun _ => trivial⟩
  rw [wp_ite]
  exact ⟨fun _ => worked_updateMetaBlk hP h hflag, fun _ => worked_updateCollisionBlk hP h hflag⟩

theorem worked_updateCollisionExtensionBlk (h : Working P col s)
    (hflag : (s.req.chain.getD col BlkCtx.zero).flag = .toDelete) :
    wp (fun _ => True) (updateCollisionExtensionBlk P col) (fun _ s' => Worked P col s') s := by
  unfold updateCollisionExtensionBlk
  rw [wp_bind, wp_blkAt, wp_bind, wp_dssAssert]
  refine ⟨fun _ => ?_, fun _ => trivial⟩
  rw [wp_ite]
  refine ⟨fun _ => ?_, fun _ => ?_⟩
  · have hstays : Keeps (Stays BlkCtx.flag col)
        (Kvtrans.modifyBlk col fun b => { b with dcIndex := b.blk.dataCollisionIndex }) :=
      stays_modifyBlk fun _ => rfl
    rw [wp_bind]
    refine wp_mono (wp_and (h.modifyBlk (fun _ => rfl) (fun _ => rfl) fun _ => .inr ⟨rfl, rfl⟩)
      (hstays s)) ?_
    rintro - s₁ ⟨h₁, -, hflag₁⟩
    exact worked_updateMetaDataCollisionBlk hP h₁ (hflag₁.trans hflag)
  · rw [wp_ite]
    exact ⟨fun _ => worked_updateMetaBlk hP h hflag, fun _ => worked_updateCollisionBlk hP h hflag⟩

theorem worked_registerUpdateBlk (h : Working P col s)
    (hflag : (s.req.chain.getD col BlkCtx.zero).flag = .toDelete) (row : Option BlkState) :
    wp (fun _ => True) (registerUpdateBlk P row col) (fun _ s' => Worked P col s') s := by
  unfold registerUpdateBlk
  split
  · exact worked_updateMetaBlk hP h hflag
  · exact worked_updateCollisionBlk hP h hflag
  · exact worked_updateMetaDataCollisionBlk hP h hflag
  · exact worked_updateMetaDataCollisionBlk hP h hflag
  · exact worked_updateMetaDataCollisionBlk hP h hflag
  · exact worked_updateMetaDataCollisionBlk hP h hflag
  · exact worked_updateMetaDataCollisionBlk hP h hflag
  · exact worked_updateCollisionExtensionBlk hP h hflag
  · trivial

end

end

/-! ### Calls -/

/-- The load of a collision block is done, for a request that deletes. -/
def Sys.deletesEntry (s : Sys) : Bool :=
  s.req.state = .queueToLoadCol ∧
    (s.req.chain.getD (s.req.chain.length - 1 - 1) BlkCtx.zero).flag = .toDelete

/-- The entry of the collision block can be removed: the blocks of the chain are in use and apart
from the values, the registered blocks are in use, and the block before has a slot with the key and
is not empty without its extension. -/
structure EntryRemovable (P : Params) (s : Sys) : Prop where
  tidy : Tidy P s.req.chain.length s.req.chain.length s
  found : Found (s.req.chain.length - 1) s
  stays : holdsNothing (unlinked (s.req.chain.getD (s.req.chain.length - 1 - 1) BlkCtx.zero).blk
    (s.req.chain.getD (s.req.chain.length - 1) BlkCtx.zero).index) = false

/-- The call returns from inside `COL_LOADING_DONE`, and the chain is not released. -/
def LeavesEarly (r : Status × Bool) (s' : Sys) : Prop :=
  r.2 = true ∧ (s'.req.state = .colLoadingDone ∨ Loading s')

section

variable {P : Params} {s s' : Sys} {col : ℕ}

theorem working_setupColState (h : Working P col s) :
    wp (fun _ => True) (setupColState col)
      (fun _ s' => Working P col s' ∧ Stays BlkCtx.flag col s s') s := by
  have hset : ∀ f : BlkCtx → BlkCtx, (∀ b, (f b).index = b.index) →
      (∀ b, (f b).nothash = b.nothash) → (∀ b, (f b).blk = b.blk) → (∀ b, (f b).flag = b.flag) →
      wp (fun _ => True) (Kvtrans.modifyBlk col f)
        (fun _ s' => Working P col s' ∧ Stays BlkCtx.flag col s s') s := by
    intro f hindex hnothash hblk hflag
    refine wp_and (h.modifyBlk hindex hnothash fun b => .inr ?_) (stays_modifyBlk hflag s)
    rw [hblk]
    exact ⟨rfl, rfl⟩
  have hself : Working P col s ∧ Stays BlkCtx.flag col s s := ⟨h, refl_of (Stays BlkCtx.flag col) s⟩
  unfold setupColState
  rw [wp_bind, wp_blkAt]
  split
  · trivial
  · rw [wp_bind]
    refine wp_mono (hset _ (fun _ => rfl) (fun _ => rfl) (fun _ => rfl) fun _ => rfl)
      fun _ s₁ h₁ => ?_
    rw [wp_dssAssert]
    exact ⟨fun _ => h₁, fun _ => trivial⟩
  · rw [wp_dssAssert]
    exact ⟨fun _ => hself, fun _ => trivial⟩
  · rw [wp_dssAssert]
    exact ⟨fun _ => hself, fun _ => trivial⟩
  · exact hset _ (fun _ => rfl) (fun _ => rfl) (fun _ => rfl) fun _ => rfl
  · exact hset _ (fun _ => rfl) (fun _ => rfl) (fun _ => rfl) fun _ => rfl
  · exact hself
  · exact hself
  · exact hself
  · exact hself

theorem working_assignOps (h : Working P col s) :
    wp (fun _ => True) (assignOps col)
      (fun _ s' => Working P col s' ∧ Stays BlkCtx.flag col s s') s := by
  unfold assignOps
  rw [wp_bind, wp_blkAt, wp_ite]
  refine ⟨fun _ => ?_, fun _ => trivial⟩
  have hops : Keeps (Stays BlkCtx.flag col)
      (Kvtrans.modifyBlk col fun b => { b with ops := some b.state }) :=
    stays_modifyBlk fun _ => rfl
  exact wp_and (h.modifyBlk (fun _ => rfl) (fun _ => rfl) fun _ => .inr ⟨rfl, rfl⟩) (hops s)

theorem not_leavesEarly_of_reqCmpl {r : Status × Bool} (h : s'.req.state = .reqCmpl) :
    ¬ LeavesEarly r s' := by
  rintro ⟨-, hst | hst | hst⟩ <;> rw [h] at hst <;> cases hst

theorem popChain_req (chain : List BlkCtx) :
    Keeps (fun s s' : Sys => s'.req = s.req) (popChain chain) := by
  induction chain with
  | nil => exact fun s => rfl
  | cons b chain ih =>
    intro s
    unfold popChain
    rw [wp_bind]
    refine wp_mono (popMetaBlkFromQueue_spec s) fun _ s₁ h₁ => ?_
    exact wp_mono (ih s₁) fun _ s₂ h₂ => h₂.trans h₁.2

section

variable (hP : P.build = .disk)

include hP

theorem reqTerminate_reqCmpl (rc : Status) (s : Sys) :
    wp (fun _ => True) (reqTerminate P rc) (fun _ s' => s'.req.state = .reqCmpl) s := by
  unfold reqTerminate modifyReq
  rw [wp_bind, wp_modify, hP, wp_bind, wp_get, wp_bind]
  refine wp_mono (popChain_req _ _) fun _ s' hreq => ?_
  rw [wp_pure, hreq]

/-- The handlers of `COL_LOADING_DONE` for a DELETE, up to `_delete_collision_entry`. -/
theorem colHandler_worked (h : Working P col s)
    (hflag : (s.req.chain.getD (col - 1) BlkCtx.zero).flag = .toDelete)
    (hcol : col < s.req.chain.length) {k : Status → M (Option Status)}
    {Q : Option Status → Sys → Prop}
    (hk : ∀ rc s', Worked P col s' → wp (fun _ => True) (k rc) Q s') :
    wp (fun _ => True) (do
      setupCol col (s.req.chain.getD (col - 1) BlkCtx.zero)
      setupColState col
      assignOps col
      let c ← blkAt col
      let rc ← registerUpdateBlk P c.ops col
      k rc) Q s := by
  -- the collision block gets the flag of the block before
  rw [wp_bind]
  refine wp_mono (wp_and (h.modifyBlk (fun _ => rfl) (fun _ => rfl) fun _ => .inr ⟨rfl, rfl⟩)
    (modifyBlk_spec hcol (quiet_setupCol h.pos _))) ?_
  rintro - s₁ ⟨h₁, -, hb₁⟩
  have hflag₁ : (s₁.req.chain.getD col BlkCtx.zero).flag = .toDelete := by
    rw [hb₁]
    exact hflag
  rw [wp_bind]
  refine wp_mono (working_setupColState h₁) ?_
  rintro - s₂ ⟨h₂, -, hflag₂⟩
  rw [wp_bind]
  refine wp_mono (working_assignOps h₂) ?_
  rintro - s₃ ⟨h₃, -, hflag₃⟩
  rw [wp_bind, wp_blkAt, wp_bind]
  exact wp_mono (worked_registerUpdateBlk hP h₃ (hflag₃.trans (hflag₂.trans hflag₁)) _)
    fun rc s₄ h₄ => hk rc s₄ h₄

/-- `COL_LOADING_DONE` returns only when it has released the chain, if an entry that is deleted can
be removed. -/
theorem colLoadingDone_released
    (h : (s.req.chain.getD (s.req.chain.length - 1 - 1) BlkCtx.zero).flag = .toDelete →
      EntryRemovable P s) :
    wp (fun _ => True) (colLoadingDone P) (fun o s' => o ≠ none → s'.req.state = .reqCmpl) s := by
  -- the rest, if `_delete_collision_entry` succeeds where it is called
  have hrest : ∀ (p col : ℕ) (st : OpsFlag) (rc : Status) (s₁ : Sys),
      (st = .toDelete →
        wp (fun _ => True) (deleteCollisionEntry P p col) (fun rc _ => rc = .success) s₁) →
      wp (fun _ => True) (orTerminate P rc do
        let rc ← (if st = .toDelete then deleteCollisionEntry P p col else pure .success)
        if rc ≠ .success then return some rc
        else
          writeParent P p
          startIoFrom .colLoadingDone)
        (fun o s' => o ≠ none → s'.req.state = .reqCmpl) s₁ := by
    intro p col st rc s₁ hdel
    unfold orTerminate
    rw [wp_ite]
    refine ⟨fun _ => ?_, fun _ => ?_⟩
    · rw [wp_map]
      exact wp_mono (reqTerminate_reqCmpl hP rc s₁) fun _ _ hst _ => hst
    · rw [wp_bind]
      have hentry : wp (fun _ => True)
          (if st = .toDelete then deleteCollisionEntry P p col else pure .success)
          (fun rc _ => rc = .success) s₁ := wp_ite.2 ⟨hdel, fun _ => rfl⟩
      refine wp_mono hentry ?_
      rintro rc s₂ rfl
      rw [if_neg (by decide), wp_bind]
      refine wp_true_iff.2 fun _ s₃ _ => ?_
      unfold startIoFrom
      rw [wp_bind]
      exact wp_true_iff.2 fun _ _ _ hno => absurd rfl hno
  unfold colLoadingDone
  rw [wp_bind, wp_get]
  dsimp only
  generalize hcol : s.req.chain.length - 1 = col at h ⊢
  rw [wp_bind, wp_dssAssert]
  refine ⟨fun hpos => ?_, fun _ => trivial⟩
  rw [wp_bind, wp_blkAt]
  by_cases hflag : (s.req.chain.getD (col - 1) BlkCtx.zero).flag = .toDelete
  · obtain ⟨htidy, hfound, hstays⟩ := h hflag
    rw [hcol] at hfound hstays
    rw [show s.req.chain.length = col + 1 by omega] at htidy
    refine colHandler_worked hP ⟨htidy, hfound, hstays, hpos⟩ hflag (by omega) fun rc s₁ h₁ => ?_
    exact hrest _ _ _ rc s₁ fun _ => deleteCollisionEntry_success hP h₁.tidy (by omega) h₁.found col
  · rw [wp_bind]
    refine wp_true_iff.2 fun _ s₁ _ => ?_
    rw [wp_bind]
    refine wp_true_iff.2 fun _ s₂ _ => ?_
    rw [wp_bind]
    refine wp_true_iff.2 fun _ s₃ _ => ?_
    rw [wp_bind, wp_blkAt, wp_bind]
    exact wp_true_iff.2 fun rc s₄ _ => hrest _ _ _ rc s₄ fun hno => absurd hno hflag

omit hP in
/-- Only a call that starts in `COL_LOADING_DONE` can leave early. -/
theorem CallOutcome.not_leavesEarly {r : Status × Bool} (h : CallOutcome s s' r)
    (hcol : s.req.state ≠ .colLoadingDone) : ¬ LeavesEarly r s' := by
  cases h with
  | writing opens hstate => exact fun hno => Bool.noConfusion hno.1
  | loading y opens issues marks hstate => exact fun hno => Bool.noConfusion hno.1
  | popped adds hstate hpop =>
    have hreq := (popChain_req _).ok hpop
    exact not_leavesEarly_of_reqCmpl (by rw [hreq]; exact hstate)
  | left hstart hrc hstate opens issues marks => exact absurd hstart hcol

/-- The loop of `_kvtrans_key_ops`: only the first iteration is in `COL_LOADING_DONE`. -/
theorem keyOps_released (hs : Ready s)
    (hfirst : s.req.state = .colLoadingDone → wp (fun _ => True) (colLoadingDone P)
      (fun o s' => o ≠ none → s'.req.state = .reqCmpl) s) (fuel : ℕ) :
    wp (fun _ => True) (keyOps P fuel) (fun r s' => ¬ LeavesEarly r s') s := by
  by_cases hcol : s.req.state = .colLoadingDone
  · cases fuel with
    | zero => trivial
    | succ fuel =>
      have hiter : wp (fun _ => True) (keyOpsIter P)
          (fun o s' => o ≠ none → s'.req.state = .reqCmpl) s := by
        unfold keyOpsIter
        rw [wp_bind, wp_get, hcol]
        exact hfirst hcol
      unfold keyOps
      rw [wp_bind, wp_get, wp_bind]
      refine wp_mono (wp_and (keyOpsIter_spec hP hs) hiter) ?_
      rintro o s₁ ⟨h₁, hst₁⟩
      cases h₁ with
      | next opens ready hcol₁ hne =>
        rw [wp_bind, wp_get, wp_ite]
        refine ⟨fun _ => ?_, fun h => absurd hne h⟩
        exact wp_mono (keyOps_spec hP ready fuel) fun r s' h => h.not_leavesEarly hcol₁
      | stop hs₁ hstate =>
        rw [hcol] at hstate
        cases hstate
      | loading call hstate =>
        rw [wp_bind, wp_get, wp_ite]
        refine ⟨fun _ => ?_, fun _ hno => Bool.noConfusion hno.1⟩
        refine wp_mono (keyOps_loading (Or.inr hstate) fuel) ?_
        rintro r s' ⟨rfl, rfl⟩ hno
        exact Bool.noConfusion hno.1
      | returned call => exact not_leavesEarly_of_reqCmpl (hst₁ (Option.some_ne_none _))
  · exact wp_mono (keyOps_spec hP hs fuel) fun r s' h => h.not_leavesEarly hcol

/-- A request that goes on does not leave early, if an entry that it deletes can be removed. -/
theorem kvtransCall_released (hmod : modifyMeta s.req.req.opc = true) (h : Parked s.req)
    (hrem : s.deletesEntry = true → EntryRemovable P s) :
    wp (fun _ => True) (kvtransCall P) (fun r s' => ¬ LeavesEarly r s') s := by
  refine wp_kvtransCall_writer hmod ?_
  rw [wp_bind]
  refine wp_true_iff.2 fun _ s₁ hs₁ => ?_
  obtain ⟨hw, hready⟩ := wp_ok h.ready hs₁
  refine keyOps_released hP hready (fun hcol => colLoadingDone_released hP fun hflag => ?_) _
  have hstate : s.req.state = .queueToLoadCol := by
    cases hs₁
    rcases h.parked with hst | hst | hst | hst <;> simp_all
  rw [hw.chain] at hflag
  obtain ⟨htidy, hfound, hstays⟩ := hrem (decide_eq_true ⟨hstate, hflag⟩)
  refine ⟨?_, ?_, ?_⟩
  · rw [hw.chain]
    refine htidy.congr (by rw [hw.ctx]) (by rw [hw.ctx]) (fun p _ => ?_) fun p _ loc hloc => ?_
    · unfold Sys.lba
      rw [hw.chain]
    · unfold Sys.extents at hloc ⊢
      rw [← hw.chain]
      exact hloc
  · unfold Found
    rw [hw.chain, hw.req]
    exact hfound
  · rw [hw.chain]
    exact hstays

theorem kvtransCall_start_released {c : Ctx} {id : ℕ} {req : Req}
    (hmod : modifyMeta req.opc = true) :
    wp (fun _ => True) (kvtransCall P) (fun r s' => ¬ LeavesEarly r s')
      ⟨c, initKvtransReq id req⟩ := by
  refine wp_mono (kvtransCall_start hP hmod) ?_
  rintro r s' ⟨s₀, -, -, hstart⟩
  cases hstart with
  | failed hrc sits hstate =>
    rintro ⟨-, hst | hst | hst⟩ <;> rw [hstate] at hst <;> cases hst
  | loading sits sync hstate => exact fun hno => Bool.noConfusion hno.1
  | entered sits ready hstate call marked =>
    refine call.not_leavesEarly ?_
    rw [hstate]
    decide

end

end

end DssSdk.Kvtrans
