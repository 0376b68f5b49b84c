import DssSdk.Fuse.Account

/-!
# The invariant through the handlers of a pair

One lemma for each function of `fuse_lib.cpp` that works on one item: what it needs of the map and
what it leaves.

* `Ready` of `Account`: nothing of the pair is under way, so that the item may start or end one;
* `Issued`, `Kept`: what the handlers leave as it is;
* `doFuseHandleFuseOp_spec`, `startLinkedFuse_spec`: the loops over the waiting pairs;
* `dflyFuseComplete_spec`: a command of the item came back.
-/

namespace DssSdk.Fuse

open Program

/-! ### The read and the write of a pair -/

section

variable {E : Env} {s : FuseMap} {i : ItemRef}

/-- An item whose key needs a buffer has one. -/
def Item.Buffed (it : Item) : Prop := maxEmbedKeySize < it.key.length → it.largeKeyBuff = true

theorem fusePrepareLargeKey_spec :
    wp (fun _ => True) (fusePrepareLargeKey E i) (fun o s' => Rebuffed i s.toTable s'.toTable ∧
      (s.items i).largeKeyBuff = false ∧
      ∀ k, o = some k → k = (s.items i).key ∧ (s'.items i).largeKeyBuff = true) s := by
  unfold fusePrepareLargeKey
  simp only [wp_bind, wp_getItem, wp_check, wp_nextTick, wp_ite, wp_modifyItem, wp_pure]
  refine ⟨fun hc => ⟨fun _ => ⟨?_, hc.1, ?_⟩, fun _ => ⟨Rebuffed.refl _ _, hc.1, ?_⟩⟩,
    fun _ => trivial⟩
  · exact Rebuffed.setItem { s with ticks := s.ticks + 1 } i _ true _
  · rintro k ⟨⟩
    exact ⟨rfl, by simp⟩
  · rintro k ⟨⟩

/-- What a read or a write of the pair under way leaves as it is. -/
structure Issued (i : ItemRef) (s s' : FuseMap) : Prop where
  on : On s'.toTable i
  clear : s'.Clear i
  requests : s'.requests = s.requests
  nrRequests : s'.nrRequests = s.nrRequests
  delay : s'.wpDelayQueue = s.wpDelayQueue
  others : ∀ j, j ≠ i → s'.items j = s.items j
  key : (s'.items i).key = (s.items i).key
  refCnt : (s'.items i).refCnt = (s.items i).refCnt
  fuseReq : (s'.items i).fuseReq = (s.items i).fuseReq
  waiting : (s'.items i).waiting = (s.items i).waiting
  plain : ∀ io ∈ s'.flight, io.kind = .plain → io ∈ s.flight

theorem Ready.issued {s' : FuseMap} (h : Ready s.toTable i)
    (hs : Rebuffed i s.toTable s'.toTable) : Issued i s s' := by
  have hr := h.rebuffed hs
  exact ⟨hr.toOn, hr.clear, congrArg Traffic.requests hs.traffic,
    congrArg Traffic.nrRequests hs.traffic, congrArg Traffic.wpDelayQueue hs.traffic, hs.others,
    hs.key, hs.refCnt, hs.fuseReq, hs.waiting,
    fun io hio _ => congrArg Traffic.flight hs.traffic ▸ hio⟩

/-- A command of the pair under way is sent. -/
theorem Ready.send {s' : FuseMap} (h : Ready s.toTable i) (hs : Rebuffed i s.toTable s'.toTable)
    {r : ℕ} (hr : (s.items i).fuseReq = some r) {kind : IoKind} (hkind : kind ≠ .plain)
    {key : Option (List UInt8)} (hkey : key = some (s.items i).key ∨ key = none) {t : ℕ} :
    Issued i s { s' with
      flight := s'.flight ++ [⟨kind, i, r, key, (s'.items i).key, s'.ticks, (s'.items i).readAt⟩]
      ticks := t } := by
  have hr' := h.rebuffed hs
  have hon := hr'.toOn.sendFused hr'.clear hr'.idle ⟨kind, i, r, key, (s'.items i).key, s'.ticks,
    (s'.items i).readAt⟩ (hs.fuseReq.trans hr) (by simp [Io.fused, hkind]) rfl rfl
    (by rw [hs.key]; exact hkey)
  have hi := h.issued hs
  refine ⟨hon, hi.clear, hi.requests, hi.nrRequests, hi.delay, hi.others, hi.key, hi.refCnt,
    hi.fuseReq, hi.waiting, fun io hio hk => ?_⟩
  rcases List.mem_append.1 hio with hio | hio
  · exact hi.plain io hio hk
  · rw [List.mem_singleton] at hio
    subst hio
    exact absurd hk hkind

/-- What `do_fuse_F1_op` and `do_fuse_F2_op` do to the item: a command is under way when they say
so, a retry needs an item without a key buffer, and a comparison through the log leaves the key
buffer where it is. -/
structure Opened (i : ItemRef) (s : FuseMap) (rc : IoRc) (s' : FuseMap) : Prop
    extends Issued i s s' where
  idle : rc ≠ .fuseInProgress → s'.fusedOn i = []
  retry : rc = .retry → ¬ (s.items i).Buffed
  compared : rc = .f1Match ∨ rc = .f1Fail → (s'.items i).Buffed

theorem Ready.opened {s₁ s' : FuseMap} {rc : IoRc} (h : Ready s.toTable i)
    (hs : Rebuffed i s.toTable s₁.toTable) (hbuff : (s.items i).Buffed → (s₁.items i).Buffed)
    (ho : Opened i s₁ rc s') : Opened i s rc s' := by
  have h₁ := h.issued hs
  exact ⟨⟨ho.on, ho.clear, ho.requests.trans h₁.requests, ho.nrRequests.trans h₁.nrRequests,
    ho.delay.trans h₁.delay, fun j hj => (ho.others j hj).trans (h₁.others j hj),
    ho.key.trans h₁.key, ho.refCnt.trans h₁.refCnt, ho.fuseReq.trans h₁.fuseReq,
    ho.waiting.trans h₁.waiting, fun io hio hk => h₁.plain io (ho.plain io hio hk) hk⟩, ho.idle, fun hr hb => ho.retry hr (hbuff hb), ho.compared⟩

theorem f1DeviceRead_spec {f1 : ℕ} (h : Ready s.toTable i) (hf1 : (s.items i).fuseReq = some f1) :
    wp (fun _ => True) (f1DeviceRead E i f1) (Opened i s) s := by
  unfold f1DeviceRead
  rw [wp_bind, wp_getItem, wp_ite]
  refine ⟨fun hlarge => ?_, fun hsmall => ?_⟩
  · rw [wp_bind]
    refine wp_mono fusePrepareLargeKey_spec fun o s₁ h₁ => ?_
    obtain ⟨hs₁, hbuff, hk⟩ := h₁
    cases o with
    | none =>
      rw [wp_pure]
      refine ⟨h.issued hs₁, fun _ => (h.rebuffed hs₁).idle, fun _ hb => ?_, fun hrc => ?_⟩
      · rw [hb hlarge] at hbuff
        cases hbuff
      · simp at hrc
    | some key =>
      simp only [wp_bind, wp_send, wp_pure]
      obtain ⟨rfl, _⟩ := hk key rfl
      refine ⟨h.send hs₁ hf1 (by simp) (Or.inl rfl), fun hrc => ?_, fun hrc => ?_, fun hrc => ?_⟩
      · exact absurd rfl hrc
      · cases hrc
      · simp at hrc
  · simp only [wp_bind, wp_send, wp_pure]
    refine ⟨h.send (Rebuffed.refl _ _) hf1 (by simp) (Or.inl rfl), fun hrc => ?_, fun hrc => ?_,
      fun hrc => ?_⟩
    · exact absurd rfl hrc
    · cases hrc
    · simp at hrc

theorem f1WalRead_spec {f1 : ℕ} {val f1Val : Value} (h : Ready s.toTable i)
    (hf1 : (s.items i).fuseReq = some f1) (hbuff : (s.items i).Buffed) :
    wp (fun _ => True) (f1WalRead E i f1 val f1Val) (Opened i s) s := by
  unfold f1WalRead
  rw [wp_bind, wp_nextTick]
  cases hw : E.walIo s.ticks with
  | none =>
    refine wp_mono (f1DeviceRead_spec (s := { s with ticks := s.ticks + 1 }) h hf1) fun rc s' ho => ?_
    have hs : Rebuffed i s.toTable { s with ticks := s.ticks + 1 }.toTable := Rebuffed.refl _ _
    exact h.opened hs id ho
  | some p =>
    obtain ⟨fullSize, data⟩ := p
    unfold walCompare
    simp only [wp_bind, wp_modify, wp_pure, wp_modifyItem]
    have hs := Rebuffed.setItem
      { s with
        ticks := s.ticks + 1
        compared := (f1, fullSize == val.length &&
          fuseCompareValue { val with value := data } f1Val) :: s.compared }
      i none (s.items i).largeKeyBuff (s.items i).readAt
    refine ⟨h.issued hs, fun _ => (h.rebuffed hs).idle, fun hrc => ?_, fun _ => ?_⟩
    · split at hrc <;> cases hrc
    · intro hlarge
      rw [FuseMap.setItem_items_self] at hlarge ⊢
      exact hbuff hlarge

theorem doFuseF1Op_spec {f1 : ℕ} (h : Ready s.toTable i) (hf1 : (s.items i).fuseReq = some f1) :
    wp (fun _ => True) (doFuseF1Op E i) (Opened i s) s := by
  unfold doFuseF1Op
  simp only [wp_bind, wp_getItem, hf1, wp_deref_some, wp_getRequest, wp_nextTick, wp_modifyItem]
  generalize (⟨E.valueBuff s.ticks, (s.requests f1).value.length, 0⟩ : Value) = val
  -- the read buffer is set, and with it the time of the comparison
  generalize hs₁ : FuseMap.setItem _ i _ = s₁
  have hre : Rebuffed i s.toTable s₁.toTable := by
    rw [← hs₁, ← hf1]
    exact Rebuffed.setItem { s with ticks := s.ticks + 1 } i _ (s.items i).largeKeyBuff _
  have hbuff : (s₁.items i).largeKeyBuff = (s.items i).largeKeyBuff := by
    rw [← hs₁, FuseMap.setItem_items_self]
  have hbuffed : (s.items i).Buffed → (s₁.items i).Buffed := by
    intro hb hlarge
    rw [hre.key] at hlarge
    rw [hbuff]
    exact hb hlarge
  have h₁ := h.rebuffed hre
  have hf1' : (s₁.items i).fuseReq = some f1 := hre.fuseReq.trans hf1
  rw [wp_ite]
  refine ⟨fun _ => ?_, fun _ => ?_⟩
  · rw [wp_ite]
    refine ⟨fun hlarge => ?_, fun hsmall => ?_⟩
    · rw [wp_bind]
      refine wp_mono fusePrepareLargeKey_spec fun o s₂ h₂ => ?_
      obtain ⟨hs₂, hfree, hk⟩ := h₂
      cases o with
      | none =>
        rw [wp_pure]
        refine ⟨h.issued (hre.trans hs₂), fun _ => (h₁.rebuffed hs₂).idle, fun _ hb => ?_,
          fun hrc => ?_⟩
        · rw [hbuff, hb hlarge] at hfree
          cases hfree
        · simp at hrc
      | some key =>
        have hb₂ : (s₂.items i).Buffed := fun _ => (hk key rfl).2
        refine wp_mono (f1WalRead_spec (h₁.rebuffed hs₂) (hs₂.fuseReq.trans hf1') hb₂)
          fun rc s' ho => ?_
        exact h.opened (hre.trans hs₂) (fun _ => hb₂) ho
    · have hb₁ : (s₁.items i).Buffed := fun hlarge => absurd (hre.key ▸ hlarge) hsmall
      exact wp_mono (f1WalRead_spec h₁ hf1' hb₁) fun rc s' ho => h.opened hre hbuffed ho
  · exact wp_mono (f1DeviceRead_spec h₁ hf1') fun rc s' ho => h.opened hre hbuffed ho

theorem doFuseF2Op_spec {f2 : ℕ} (h : Ready s.toTable i) (hf2 : (s.items i).fuseReq = some f2) :
    wp (fun _ => True) (doFuseF2Op E i) (fun rc s' => Issued i s s' ∧
      (rc = .fuseInProgress ∨ rc = .retry ∧ s'.fusedOn i = [] ∧ ¬ (s.items i).Buffed)) s := by
  unfold doFuseF2Op
  simp only [wp_bind, wp_getItem, hf2, wp_deref_some]
  rw [wp_ite]
  refine ⟨fun _ => ?_, fun _ => ?_⟩
  · rw [wp_ite]
    refine ⟨fun hlarge => ?_, fun hsmall => ?_⟩
    · rw [wp_bind]
      refine wp_mono fusePrepareLargeKey_spec fun o s₁ h₁ => ?_
      obtain ⟨hs₁, hfree, hk⟩ := h₁
      cases o with
      | none =>
        rw [wp_pure]
        refine ⟨h.issued hs₁, Or.inr ⟨rfl, (h.rebuffed hs₁).idle, fun hb => ?_⟩⟩
        rw [hb hlarge] at hfree
        cases hfree
      | some key =>
        rw [wp_bind, wp_send, wp_pure]
        obtain ⟨rfl, _⟩ := hk key rfl
        exact ⟨h.send hs₁ hf2 (by simp) (Or.inl rfl), Or.inl rfl⟩
    · rw [wp_bind, wp_send, wp_pure]
      exact ⟨h.send (Rebuffed.refl _ _) hf2 (by simp) (Or.inl rfl), Or.inl rfl⟩
  · rw [wp_ite]
    refine ⟨fun hlarge => ?_, fun hsmall => ?_⟩
    · rw [wp_bind]
      refine wp_mono fusePrepareLargeKey_spec fun o s₁ h₁ => ?_
      obtain ⟨hs₁, hfree, hk⟩ := h₁
      cases o with
      | none =>
        rw [wp_bind, wp_send, wp_pure]
        exact ⟨h.send hs₁ hf2 (by simp) (Or.inr rfl), Or.inl rfl⟩
      | some key =>
        rw [wp_pure]
        refine ⟨h.issued hs₁, Or.inr ⟨rfl, (h.rebuffed hs₁).idle, fun hb => ?_⟩⟩
        rw [hb hlarge] at hfree
        cases hfree
    · rw [wp_bind, wp_send, wp_pure]
      exact ⟨h.send (Rebuffed.refl _ _) hf2 (by simp) (Or.inl rfl), Or.inl rfl⟩

/-- What the handlers of a pair leave as it is. -/
structure Kept (i : ItemRef) (s s' : FuseMap) : Prop where
  nrRequests : s'.nrRequests = s.nrRequests
  delay : s'.wpDelayQueue = s.wpDelayQueue
  command : ∀ r, (s'.requests r).toCommand = (s.requests r).toCommand
  others : ∀ j, j ≠ i → s'.items j = s.items j
  key : (s'.items i).key = (s.items i).key
  refCnt : (s'.items i).refCnt ≤ (s.items i).refCnt
  waiting : (s'.items i).waiting.Sublist (s.items i).waiting
  plain : ∀ io ∈ s'.flight, io.kind = .plain → io ∈ s.flight

theorem Kept.of_table {s' : FuseMap} (h : s'.toTable = s.toTable) : Kept i s s' := by
  obtain ⟨t', p', n', c', l', k'⟩ := s'
  dsimp only at h
  subst h
  exact ⟨rfl, rfl, fun _ => rfl, fun _ _ => rfl, rfl, le_rfl, List.Sublist.refl _, fun _ h _ => h⟩

theorem Kept.trans {s₁ s₂ s₃ : FuseMap} (h : Kept i s₁ s₂) (h' : Kept i s₂ s₃) : Kept i s₁ s₃ :=
  ⟨h'.nrRequests.trans h.nrRequests, h'.delay.trans h.delay,
    fun r => (h'.command r).trans (h.command r), fun j hj => (h'.others j hj).trans (h.others j hj),
    h'.key.trans h.key, h'.refCnt.trans h.refCnt, h'.waiting.trans h.waiting,
    fun io hio hk => h.plain io (h'.plain io hio hk) hk⟩

theorem Kept.refCnt_eq_zero {s' : FuseMap} (h : Kept i s s') (hcnt : (s.items i).refCnt = 0) :
    (s'.items i).refCnt = 0 :=
  Nat.le_zero.1 (h.refCnt.trans hcnt.le)

theorem On.not_waiting {s : Table} {r : ℕ} (h : On s i)
    (hkey : (s.requests r).key = (s.items i).key) (hw : r ∉ (s.items i).waiting) (j : ItemRef) :
    r ∉ (s.items j).waiting := by
  intro hj
  have hhold : (s.items j).Holds r := Or.inl hj
  have hji : j = i := h.claim j hhold.active (((h.items j).refs r hhold).key.symm.trans hkey)
  subst hji
  exact hw hj

theorem completePendingFuseOp_spec {r : ℕ} {code : StatusCode} (h : On s.toTable i)
    (hc : s.Clear i) (hkey : (s.requests r).key = (s.items i).key)
    (hop : (s.requests r).opc.isPlain = false) (hw : r ∉ (s.items i).waiting) :
    wp (fun _ => True) (completePendingFuseOp E r code) (fun _ s' => On s'.toTable i ∧
      s'.Clear i ∧ Kept i s s' ∧ s'.items = s.items ∧ s'.flight = s.flight ∧
      ∀ r', r' ≠ r → s'.requests r' = s.requests r') s := by
  have hon := h.clearRequest hc hkey hop (h.not_waiting hkey hw)
  unfold completePendingFuseOp
  simp only [wp_bind, wp_ite, wp_modifyRequest, wp_modify]
  refine ⟨fun _ => ⟨hon, ?_, ⟨rfl, rfl, ?_, fun _ _ => rfl, rfl, le_rfl, List.Sublist.refl _,
    fun _ h _ => h⟩, rfl, rfl, ?_⟩, fun _ => ⟨h, hc, Kept.of_table rfl, by simp⟩⟩
  · rintro r' ⟨hmem, hcmp, hfd⟩
    by_cases hr : r' = r
    · subst hr
      simp [FuseMap.setRequest, Request.clear] at hfd
    · simp only [FuseMap.setRequest, Function.update_of_ne hr] at hcmp hfd
      exact hc r' ⟨hmem, hcmp, hfd⟩
  · intro r'
    by_cases hr : r' = r
    · subst hr
      simp [FuseMap.setRequest, Request.clear]
    · simp [FuseMap.setRequest, hr]
  · intro r' hr
    simp [FuseMap.setRequest, hr]

/-- The pair of an item: the first command is under way or was, the second one is linked to it. -/
structure PairOf (s : FuseMap) (i : ItemRef) (f1 f2 : ℕ) : Prop where
  key₁ : (s.requests f1).key = (s.items i).key
  opc₁ : (s.requests f1).opc.isPlain = false
  notWaiting₁ : f1 ∉ (s.items i).waiting
  key₂ : (s.requests f2).key = (s.items i).key
  opc₂ : (s.requests f2).opc.isPlain = false
  notWaiting₂ : f2 ∉ (s.items i).waiting

theorem On.pairOf {f1 f2 : ℕ} (h : On s.toTable i) (hf1 : (s.items i).fuseReq = some f1)
    (hf2 : (s.requests f1).nextReq = some f2) : PairOf s i f1 f2 := by
  have href := (h.items i).refs f1 (Or.inr hf1)
  have hlink := href.link f2 hf2
  exact ⟨href.key, href.opc, (h.items i).notWaiting f1 hf1, hlink.key,
    Opc.isPlain_of_isF2 hlink.opc, hlink.notWaiting⟩

/-- The pair after a handler that keeps the requests and takes none into the waiting queue. -/
theorem PairOf.kept {s' : FuseMap} {f1 f2 : ℕ} (h : PairOf s i f1 f2) (hk : Kept i s s') :
    PairOf s' i f1 f2 := by
  have hkey : ∀ r, (s'.requests r).key = (s.requests r).key :=
    fun r => congrArg Command.key (hk.command r)
  have hopc : ∀ r, (s'.requests r).opc = (s.requests r).opc :=
    fun r => congrArg Command.opc (hk.command r)
  refine ⟨?_, ?_, fun hmem => h.notWaiting₁ (hk.waiting.subset hmem), ?_, ?_,
    fun hmem => h.notWaiting₂ (hk.waiting.subset hmem)⟩
  · rw [hkey, hk.key]
    exact h.key₁
  · rw [hopc]
    exact h.opc₁
  · rw [hkey, hk.key]
    exact h.key₂
  · rw [hopc]
    exact h.opc₂

theorem failPair_spec {f1 f2 : ℕ} (h : On s.toTable i) (hc : s.Clear i) (hp : PairOf s i f1 f2) :
    wp (fun _ => True) (failPair E f1 f2) (fun _ s' => On s'.toTable i ∧ s'.Clear i ∧
      Kept i s s' ∧ s'.items = s.items ∧ s'.flight = s.flight) s := by
  unfold failPair
  rw [wp_bind]
  refine wp_mono (completePendingFuseOp_spec h hc hp.key₁ hp.opc₁ hp.notWaiting₁)
    fun _ s₁ h₁ => ?_
  obtain ⟨hon₁, hc₁, hk₁, hitems₁, hflight₁, _⟩ := h₁
  have hp₁ := hp.kept hk₁
  refine wp_mono (completePendingFuseOp_spec hon₁ hc₁ hp₁.key₂ hp₁.opc₂ hp₁.notWaiting₂)
    fun _ s₂ h₂ => ?_
  obtain ⟨hon₂, hc₂, hk₂, hitems₂, hflight₂, _⟩ := h₂
  exact ⟨hon₂, hc₂, hk₁.trans hk₂, hitems₂.trans hitems₁, hflight₂.trans hflight₁⟩

theorem wp_wpPendingRemove {F : Fault → Prop} {r : ℕ} {Q : Unit → FuseMap → Prop} :
    wp F (wpPendingRemove r) Q s ↔
      (r ∈ s.wpPendingQueue → Q () { s with wpPendingQueue := s.wpPendingQueue.erase r }) ∧
        (r ∉ s.wpPendingQueue → F .nullPointer) := by
  unfold wpPendingRemove
  simp only [wp_bind, wp_get, wp_ite, wp_modify, wp_throw]

theorem stopTimers_spec {f1 f2 : ℕ} :
    wp (fun _ => True) (stopTimers E f1 f2) (fun _ s' => s'.toTable = s.toTable) s := by
  unfold stopTimers
  simp only [wp_ite, wp_bind, wp_wpPendingRemove, wp_pure, implies_true, and_self]

theorem Issued.kept {s' : FuseMap} (h : Issued i s s') : Kept i s s' :=
  ⟨h.nrRequests, h.delay, fun r => by rw [h.requests], h.others, h.key, h.refCnt.le,
    by rw [h.waiting], h.plain⟩

theorem Ready.setFuseReq {r : Option ℕ} (h : Ready s.toTable i) (hcnt : (s.items i).refCnt = 0)
    (hr : ∀ r', r = some r' → LinkOk s.toTraffic i (s.items i) r') :
    Ready (s.setItem i { s.items i with fuseReq := r }).toTable i := by
  refine h.setItem rfl (List.Sublist.refl _) (fun hpos => ?_) (h.items i).plain
    fun r' hr' => ⟨(hr r' hr').notWaiting, Or.inr (hr r' hr')⟩
  dsimp only at hpos
  rw [hcnt] at hpos
  cases hpos

theorem Kept.setFuseReq (s : FuseMap) (i : ItemRef) (r : Option ℕ) :
    Kept i s (s.setItem i { s.items i with fuseReq := r }) := by
  refine ⟨rfl, rfl, fun _ => rfl, fun j hj => s.setItem_items_of_ne _ hj, ?_, ?_, ?_,
    fun _ h _ => h⟩
  all_goals simp

/-- What the start of a pair does: see `Opened`. -/
structure Handled (i : ItemRef) (f1 : ℕ) (s : FuseMap) (rc : IoRc) (s' : FuseMap) : Prop where
  on : On s'.toTable i
  clear : s'.Clear i
  kept : Kept i s s'
  idle : rc ≠ .fuseInProgress → s'.fusedOn i = []
  notMatch : rc = .fuseInProgress ∨ rc = .f1Fail ∨ rc = .retry
  retry : rc = .retry → ¬ (s.items i).Buffed ∧ s'.requests = s.requests ∧
    (s'.items i).fuseReq = some f1

theorem afterF1Op_spec {s₁ : FuseMap} {f1 f2 : ℕ} {rc : IoRc} (ho : Opened i s rc s₁)
    (hf1 : (s.items i).fuseReq = some f1) (hcnt : (s.items i).refCnt = 0)
    (hf2 : (s.requests f1).nextReq = some f2) :
    wp (fun _ => True) (afterF1Op E i f1 f2 rc) (fun rc' s' => Handled i f1 s rc' s' ∧
      ((s'.items i).fuseReq = none → (s'.items i).Buffed)) s₁ := by
  have hf1₁ : (s₁.items i).fuseReq = some f1 := ho.fuseReq.trans hf1
  have hcnt₁ : (s₁.items i).refCnt = 0 := ho.refCnt.trans hcnt
  have hf2₁ : (s₁.requests f1).nextReq = some f2 := by
    rw [ho.requests]
    exact hf2
  have hpair := ho.on.pairOf hf1₁ hf2₁
  cases rc with
  | f1Match =>
    have hready : Ready s₁.toTable i := ⟨ho.on, ho.clear, ho.idle (by simp)⟩
    have hbuff := ho.compared (Or.inl rfl)
    unfold afterF1Op
    simp only [wp_bind, wp_modifyItem]
    have hready₂ := hready.setFuseReq (r := some f2) hcnt₁ (by
      rintro r' ⟨⟩
      exact ((ho.on.items i).refs f1 (Or.inr hf1₁)).link f2 hf2₁)
    have hk₂ := Kept.setFuseReq s₁ i (some f2)
    have hp₂ := hpair.kept hk₂
    have hreq₂ : ((s₁.setItem i { s₁.items i with fuseReq := some f2 }).items i).fuseReq = some f2 := by
      simp
    refine wp_mono (doFuseF2Op_spec hready₂ hreq₂) fun rc s₃ h₃ => ?_
    obtain ⟨hi₃, hrc | ⟨_, _, hnb⟩⟩ := h₃
    · subst hrc
      have hp₃ := hp₂.kept hi₃.kept
      rw [if_pos (by simp)]
      rw [wp_bind]
      refine wp_mono (completePendingFuseOp_spec hi₃.on hi₃.clear hp₃.key₁ hp₃.opc₁
        hp₃.notWaiting₁) fun _ s₄ h₄ => ?_
      obtain ⟨hon₄, hc₄, hk₄, hitems₄, _, _⟩ := h₄
      rw [wp_pure]
      refine ⟨⟨hon₄, hc₄, (ho.kept.trans hk₂).trans (hi₃.kept.trans hk₄), fun h => absurd rfl h,
        Or.inl rfl, fun h => by cases h⟩, fun hnone => ?_⟩
      rw [hitems₄, hi₃.fuseReq] at hnone
      simp at hnone
    · refine absurd ?_ hnb
      rw [FuseMap.setItem_items_self]
      exact hbuff
  | f1Fail =>
    have hready : Ready s₁.toTable i := ⟨ho.on, ho.clear, ho.idle (by simp)⟩
    have hbuff := ho.compared (Or.inr rfl)
    unfold afterF1Op
    rw [wp_bind]
    refine wp_mono (failPair_spec ho.on ho.clear hpair) fun _ s₂ h₂ => ?_
    obtain ⟨hon₂, hc₂, hk₂, hitems₂, hflight₂⟩ := h₂
    have hidle₂ : s₂.fusedOn i = [] := by
      unfold Traffic.fusedOn
      rw [hflight₂]
      exact hready.idle
    simp only [wp_bind, wp_modifyItem, wp_pure]
    have hready₂ : Ready s₂.toTable i := ⟨hon₂, hc₂, hidle₂⟩
    have hready₃ := hready₂.setFuseReq (r := none) (by rw [hitems₂]; exact hcnt₁) (by simp)
    refine ⟨⟨hready₃.toOn, hready₃.clear, (ho.kept.trans hk₂).trans (Kept.setFuseReq s₂ i none),
      fun _ => hready₃.idle, Or.inr (Or.inl rfl), fun h => by cases h⟩, fun _ => ?_⟩
    rw [FuseMap.setItem_items_self, hitems₂]
    exact hbuff
  | fuseInProgress =>
    refine ⟨⟨ho.on, ho.clear, ho.kept, fun h => absurd rfl h, Or.inl rfl, fun h => by cases h⟩,
      fun hnone => ?_⟩
    rw [hf1₁] at hnone
    cases hnone
  | retry =>
    unfold afterF1Op
    rw [wp_bind, wp_check]
    refine ⟨fun _ => ?_, fun _ => trivial⟩
    rw [wp_pure]
    refine ⟨⟨ho.on, ho.clear, ho.kept, ho.idle, Or.inr (Or.inr rfl),
      fun _ => ⟨ho.retry rfl, ho.requests, hf1₁⟩⟩, fun hnone => ?_⟩
    rw [hf1₁] at hnone
    cases hnone
  | _ =>
    unfold afterF1Op
    rw [wp_bind, wp_check]
    exact ⟨fun hrc => (by cases hrc), fun _ => trivial⟩

theorem doFusePair_spec {f1 : ℕ} (h : Ready s.toTable i) (hf1 : (s.items i).fuseReq = some f1) :
    wp (fun _ => True) (doFusePair E i f1) (fun rc s' => Handled i f1 s rc s' ∧
      ((s'.items i).fuseReq = none → (s'.items i).Buffed)) s := by
  have hcnt : (s.items i).refCnt = 0 := by
    by_contra hne
    rw [(h.items i).exclusive (Nat.pos_of_ne_zero hne)] at hf1
    cases hf1
  unfold doFusePair
  simp only [wp_bind, wp_getRequest]
  rw [wp_deref]
  refine ⟨fun f2 hf2 => ?_, fun _ => trivial⟩
  refine wp_mono stopTimers_spec fun _ s₁ h₁ => ?_
  obtain ⟨t₁, p₁, n₁, c₁, l₁, k₁⟩ := s₁
  dsimp only at h₁
  subst h₁
  refine wp_mono (doFuseF1Op_spec h hf1) fun rc s₂ ho => ?_
  refine wp_mono (afterF1Op_spec ho hf1 hcnt hf2) fun rc' s' h' => ?_
  refine ⟨⟨h'.1.on, h'.1.clear, ?_, h'.1.idle, h'.1.notMatch, h'.1.retry⟩, h'.2⟩
  have h₀ : Kept i s ⟨s.toTable, p₁, n₁, c₁, l₁, k₁⟩ := Kept.of_table rfl
  exact h₀.trans h'.1.kept

theorem wp_findGetLinkedFuse {F : Fault → Prop} {Q : Option ℕ → FuseMap → Prop} :
    wp F (findGetLinkedFuse i) Q s ↔
      Q ((s.items i).waiting.find? fun r => (s.requests r).nextReq.isSome) s := Iff.rfl

theorem Ready.takeWaiting {f1 : ℕ} (h : Ready s.toTable i) (hcnt : (s.items i).refCnt = 0)
    (hmem : f1 ∈ (s.items i).waiting) :
    wp (fun _ => True) (takeWaiting i f1) (fun _ s' => Ready s'.toTable i ∧ Kept i s s' ∧
      (s'.items i).fuseReq = some f1 ∧ s'.requests = s.requests ∧
      (s'.items i).largeKeyBuff = (s.items i).largeKeyBuff) s := by
  unfold DssSdk.Fuse.takeWaiting
  rw [wp_modifyItem]
  refine ⟨h.setItem rfl List.erase_sublist (fun hpos => ?_) (h.items i).plain ?_,
    ⟨rfl, rfl, fun _ => rfl, fun j hj => s.setItem_items_of_ne _ hj, by simp, by simp, ?_,
      fun _ h _ => h⟩, by simp, rfl, by simp⟩
  · dsimp only at hpos
    rw [hcnt] at hpos
    cases hpos
  · rintro r ⟨⟩
    exact ⟨(h.items i).nodup.not_mem_erase, Or.inl (Or.inl hmem)⟩
  · rw [FuseMap.setItem_items_self]
    exact List.erase_sublist

/-- The start of a pair, and of the pairs after it while they fail at once. -/
theorem doFuseHandleFuseOp_spec (n : ℕ) {f1 : ℕ} (h : Ready s.toTable i)
    (hf1 : (s.items i).fuseReq = some f1) :
    wp (fun _ => True) (doFuseHandleFuseOp E i n f1) (Handled i f1 s) s := by
  induction n generalizing s f1 with
  | zero =>
    unfold doFuseHandleFuseOp
    exact wp_mono (doFusePair_spec h hf1) fun rc s' h' => h'.1
  | succ n ih =>
    have hcnt : (s.items i).refCnt = 0 := by
      by_contra hne
      rw [(h.items i).exclusive (Nat.pos_of_ne_zero hne)] at hf1
      cases hf1
    unfold doFuseHandleFuseOp
    rw [wp_bind]
    refine wp_mono (doFusePair_spec h hf1) fun rc s₁ h₁ => ?_
    obtain ⟨hh₁, hbuff⟩ := h₁
    simp only [wp_bind, wp_getItem, wp_ite]
    refine ⟨fun hnone => ?_, fun _ => hh₁⟩
    rw [wp_findGetLinkedFuse]
    cases hfind : (s₁.items i).waiting.find? fun r => (s₁.requests r).nextReq.isSome with
    | none => exact hh₁
    | some f1' =>
      dsimp only
      rw [wp_bind]
      have hready₁ : Ready s₁.toTable i :=
        ⟨hh₁.on, hh₁.clear, (hh₁.on.items i).fusedOn_eq_nil hnone⟩
      refine wp_mono (hready₁.takeWaiting (hh₁.kept.refCnt_eq_zero hcnt)
        (List.mem_of_find?_eq_some hfind)) fun _ s₂ h₂ => ?_
      obtain ⟨hready₂, hk₂, hf1₂, _, hlarge₂⟩ := h₂
      refine wp_mono (ih hready₂ hf1₂) fun rc' s' h' => ?_
      refine ⟨h'.on, h'.clear, (hh₁.kept.trans hk₂).trans h'.kept, h'.idle, h'.notMatch,
        fun hrc => ?_⟩
      -- the first pair left its key buffer with the item, so that the next one does not get as far
      refine absurd ?_ (h'.retry hrc).1
      intro hlarge
      rw [hlarge₂]
      rw [hk₂.key] at hlarge
      exact hbuff hnone hlarge

/-- The pairs that wait are started one after the other. -/
theorem startLinkedFuse_spec (n : ℕ) (h : Ready s.toTable i) (hcnt : (s.items i).refCnt = 0) :
    wp (fun _ => True) (startLinkedFuse E i n) (fun _ s' => On s'.toTable i ∧ Kept i s s') s := by
  induction n generalizing s with
  | zero => exact ⟨h.toOn, Kept.of_table rfl⟩
  | succ n ih =>
    unfold startLinkedFuse
    rw [wp_bind, wp_findGetLinkedFuse]
    cases hfind : (s.items i).waiting.find? fun r => (s.requests r).nextReq.isSome with
    | none => exact ⟨h.toOn, Kept.of_table rfl⟩
    | some f1 =>
      dsimp only
      rw [wp_bind]
      refine wp_mono (h.takeWaiting hcnt (List.mem_of_find?_eq_some hfind)) fun _ s₁ h₁ => ?_
      obtain ⟨hready₁, hk₁, hf1₁, _, _⟩ := h₁
      rw [wp_bind]
      refine wp_mono (doFuseHandleFuseOp_spec n hready₁ hf1₁) fun rc s₂ h₂ => ?_
      have hk₂ := hk₁.trans h₂.kept
      rw [wp_ite]
      refine ⟨fun _ => ⟨h₂.on, hk₂⟩, fun hrc => ?_⟩
      refine wp_mono (ih ⟨h₂.on, h₂.clear, h₂.idle hrc⟩ (hk₂.refCnt_eq_zero hcnt)) fun _ s' h' => ?_
      exact ⟨h'.1, hk₂.trans h'.2⟩

/-! ### Commands that come back -/

theorem f1BufferRelease_spec :
    wp (fun _ => True) (f1BufferRelease i) (fun _ s' => Rebuffed i s.toTable s'.toTable) s := by
  unfold f1BufferRelease
  simp only [wp_bind, wp_getItem, wp_check, wp_modifyItem]
  refine ⟨fun _ => ?_, fun _ => trivial⟩
  exact Rebuffed.setItem s i none (s.items i).largeKeyBuff (s.items i).readAt

theorem Rebuffed.kept {s' : FuseMap} (h : Rebuffed i s.toTable s'.toTable) : Kept i s s' := by
  refine ⟨congrArg Traffic.nrRequests h.traffic, congrArg Traffic.wpDelayQueue h.traffic, ?_,
    h.others, h.key, h.refCnt.le, by rw [h.waiting], ?_⟩
  · intro r
    rw [congrArg Traffic.requests h.traffic]
  · intro io hio _
    rw [← congrArg Traffic.flight h.traffic]
    exact hio

theorem Ready.refCnt_eq_zero {s : Table} {f1 : ℕ} (h : Ready s i)
    (hf1 : (s.items i).fuseReq = some f1) : (s.items i).refCnt = 0 := by
  by_contra hne
  rw [(h.items i).exclusive (Nat.pos_of_ne_zero hne)] at hf1
  cases hf1

theorem Ready.complete {f1 : ℕ} {code : StatusCode} (h : Ready s.toTable i)
    (hf1 : (s.items i).fuseReq = some f1) :
    wp (fun _ => True) (completePendingFuseOp E f1 code) (fun _ s' => Ready s'.toTable i ∧
      Kept i s s' ∧ s'.items = s.items ∧
      ∀ f2, (s.requests f1).nextReq = some f2 → LinkOk s'.toTraffic i (s'.items i) f2) s := by
  have href := (h.items i).refs f1 (Or.inr hf1)
  refine wp_mono (completePendingFuseOp_spec h.toOn h.clear href.key href.opc
    ((h.items i).notWaiting f1 hf1)) fun _ s' h' => ?_
  obtain ⟨hon, hc, hk, hitems, hflight, hreqs⟩ := h'
  have hidle : s'.fusedOn i = [] := by
    unfold Traffic.fusedOn
    rw [hflight]
    exact h.idle
  refine ⟨⟨hon, hc, hidle⟩, hk, hitems, fun f2 hf2 => ?_⟩
  have hlink := href.link f2 hf2
  rw [hitems]
  by_cases heq : f2 = f1
  · -- a request that is linked to itself would be its own second command
    subst heq
    rw [hlink.next] at hf2
    cases hf2
  · refine ⟨?_, ?_, ?_, ?_, ?_, hlink.notWaiting⟩
    · rw [hk.nrRequests]
      exact hlink.lt
    · rw [hreqs f2 heq]
      exact hlink.opc
    · rw [hreqs f2 heq]
      exact hlink.key
    · unfold Traffic.At
      rw [hreqs f2 heq]
      exact hlink.here
    · rw [hreqs f2 heq]
      exact hlink.next

theorem LinkOk.rebuffed {s s' : Table} {f2 : ℕ} (h : LinkOk s.toTraffic i (s.items i) f2)
    (hs : Rebuffed i s s') : LinkOk s'.toTraffic i (s'.items i) f2 := by
  rw [hs.traffic]
  exact ⟨h.lt, h.opc, h.key.trans hs.key.symm, h.here, h.next, by rw [hs.waiting]; exact h.notWaiting⟩

theorem f1Complete_spec {f1 : ℕ} {success : Bool} (h : Ready s.toTable i)
    (hf1 : (s.items i).fuseReq = some f1) :
    wp (fun _ => True) (f1Complete E i f1 success) (fun b s' => On s'.toTable i ∧ s'.Clear i ∧
      Kept i s s' ∧ (b = false → s'.fusedOn i = [])) s := by
  unfold f1Complete
  rw [wp_bind, wp_getRequest, wp_ite]
  refine ⟨fun _ => ?_, fun _ => ?_⟩
  · rw [wp_bind, wp_getItem]
    cases hv : (s.items i).f1ReadVal with
    | none => trivial
    | some readVal =>
      dsimp only
      rw [wp_bind, wp_modify]
      generalize hs₀ : FuseMap.mk s.toTable _ _ _ _ _ = s₀
      have htable : s₀.toTable = s.toTable := by rw [← hs₀]
      have h₀ : Ready s₀.toTable i := htable ▸ h
      have hk₀ : Kept i s s₀ := Kept.of_table htable
      have hf1₀ : (s₀.items i).fuseReq = some f1 := by
        rw [show s₀.items = s.items from congrArg Table.items htable]
        exact hf1
      have hnext₀ : (s₀.requests f1).nextReq = (s.requests f1).nextReq := by
        rw [show s₀.requests = s.requests from congrArg (fun t => t.toTraffic.requests) htable]
      rw [← hnext₀, wp_ite]
      refine ⟨fun _ => ?_, fun _ => ?_⟩
      · -- the values match: the second command is under way
        rw [wp_bind]
        refine wp_mono (h₀.complete hf1₀) fun _ s₁ h₁ => ?_
        obtain ⟨hready₁, hk₁, hitems₁, hlink₁⟩ := h₁
        rw [wp_bind]
        refine wp_mono f1BufferRelease_spec fun _ s₂ hs₂ => ?_
        rw [wp_bind, wp_modifyItem, wp_bind]
        have hready₂ := hready₁.rebuffed hs₂
        have hcnt₂ : (s₂.items i).refCnt = 0 := by
          rw [hs₂.refCnt, hitems₁]
          exact h₀.refCnt_eq_zero hf1₀
        have hready₃ := hready₂.setFuseReq (r := (s₀.requests f1).nextReq) hcnt₂
          fun f2 hf2 => (hlink₁ f2 hf2).rebuffed hs₂
        have hk₃ := ((hk₀.trans hk₁).trans hs₂.kept).trans
          (Kept.setFuseReq s₂ i (s₀.requests f1).nextReq)
        cases hf2 : (s₀.requests f1).nextReq with
        | none =>
          unfold doFuseF2Op
          simp only [wp_bind, wp_getItem, FuseMap.setItem_items_self]
          exact wp_deref.2 ⟨fun _ h => (by cases h), fun _ => trivial⟩
        | some f2 =>
          rw [hf2] at hready₃ hk₃
          have hreq₃ : ((s₂.setItem i { s₂.items i with fuseReq := some f2 }).items i).fuseReq =
              some f2 := by simp
          refine wp_mono (doFuseF2Op_spec hready₃ hreq₃) fun rc s₄ h₄ => ?_
          obtain ⟨hi₄, hrc | ⟨hrc, _⟩⟩ := h₄
          · subst hrc
            exact ⟨hi₄.on, hi₄.clear, hk₃.trans hi₄.kept, fun hb => by cases hb⟩
          · subst hrc
            trivial
      · -- they do not: both requests are answered
        rw [wp_bind]
        refine wp_mono (h₀.complete hf1₀) fun _ s₁ h₁ => ?_
        obtain ⟨hready₁, hk₁, hitems₁, hlink₁⟩ := h₁
        rw [wp_bind]
        refine wp_mono f1BufferRelease_spec fun _ s₂ hs₂ => ?_
        rw [wp_bind, wp_modifyItem, wp_bind, wp_deref]
        refine ⟨fun f2 hf2 => ?_, fun _ => trivial⟩
        have hready₂ := hready₁.rebuffed hs₂
        have hcnt₂ : (s₂.items i).refCnt = 0 := by
          rw [hs₂.refCnt, hitems₁]
          exact h₀.refCnt_eq_zero hf1₀
        have hready₃ := hready₂.setFuseReq (r := none) hcnt₂ (by simp)
        have hk₃ := ((hk₀.trans hk₁).trans hs₂.kept).trans (Kept.setFuseReq s₂ i none)
        have hlink₂ := (hlink₁ f2 hf2).rebuffed hs₂
        rw [wp_bind]
        refine wp_mono (completePendingFuseOp_spec hready₃.toOn hready₃.clear ?_ ?_ ?_)
          fun _ s₄ h₄ => ?_
        · rw [FuseMap.setItem_items_self]
          exact hlink₂.key
        · exact Opc.isPlain_of_isF2 hlink₂.opc
        · rw [FuseMap.setItem_items_self]
          exact hlink₂.notWaiting
        · obtain ⟨hon₄, hc₄, hk₄, _, hflight₄, _⟩ := h₄
          refine ⟨hon₄, hc₄, hk₃.trans hk₄, fun _ => ?_⟩
          unfold Traffic.fusedOn
          rw [hflight₄]
          exact hready₃.idle
  · -- the read failed
    rw [wp_bind]
    refine wp_mono f1BufferRelease_spec fun _ s₁ hs₁ => ?_
    have hready₁ := h.rebuffed hs₁
    rw [wp_bind, wp_deref]
    refine ⟨fun f2 hf2 => ?_, fun _ => trivial⟩
    have hf2₁ : (s₁.requests f1).nextReq = some f2 := by
      rw [show s₁.requests = s.requests from congrArg Traffic.requests hs₁.traffic]
      exact hf2
    rw [wp_bind]
    refine wp_mono (failPair_spec hready₁.toOn hready₁.clear
      (hready₁.toOn.pairOf (hs₁.fuseReq.trans hf1) hf2₁)) fun _ s₂ h₂ => ?_
    obtain ⟨hon₂, hc₂, hk₂, _, hflight₂⟩ := h₂
    refine ⟨hon₂, hc₂, hs₁.kept.trans hk₂, fun _ => ?_⟩
    unfold Traffic.fusedOn
    rw [hflight₂]
    exact hready₁.idle

theorem pairComplete_spec {success : Bool} (h : Ready s.toTable i) :
    wp (fun _ => True) (pairComplete E i success) (fun b s' => On s'.toTable i ∧ s'.Clear i ∧
      Kept i s s' ∧ (b = false → s'.fusedOn i = [])) s := by
  unfold pairComplete
  rw [wp_bind, wp_getItem]
  cases hf : (s.items i).fuseReq with
  | none => exact ⟨h.toOn, h.clear, Kept.of_table rfl, fun _ => h.idle⟩
  | some r =>
    dsimp only
    rw [wp_bind, wp_check]
    refine ⟨fun _ => ?_, fun _ => trivial⟩
    rw [wp_bind, wp_getRequest, wp_ite]
    refine ⟨fun _ => f1Complete_spec h hf, fun _ => ?_⟩
    rw [wp_bind]
    refine wp_mono (h.complete hf) fun _ s₁ h₁ => ?_
    exact ⟨h₁.1.toOn, h₁.1.clear, h₁.2.1, fun _ => h₁.1.idle⟩

theorem plainComplete_spec {r : ℕ} (h : On s.toTable i)
    (hlt : (s.plainOn i).length < (s.items i).refCnt)
    (hfree : ∀ io ∈ s.flight, io.kind = .plain → io.req ≠ r) :
    wp (fun _ => True) (plainComplete i r) (fun n s' => Ready s'.toTable i ∧ Kept i s s' ∧
      n = (s'.items i).refCnt) s := by
  unfold plainComplete
  simp only [wp_bind, wp_getItem, wp_check, wp_modifyItem, wp_getRequest, wp_modifyRequest, wp_pure]
  refine ⟨fun hnone => ⟨fun hop => ?_, fun _ => trivial⟩, fun _ => trivial⟩
  have hi := h.items i
  have hready : Ready s.toTable i := ⟨h, hi.clear hnone, hi.fusedOn_eq_nil hnone⟩
  generalize hs₁ : s.setItem i _ = s₁ at hop ⊢
  have hready₁ : Ready s₁.toTable i := by
    rw [← hs₁]
    refine hready.setItem rfl (List.Sublist.refl _) (fun _ => hnone) (Nat.le_sub_one_of_lt hlt) ?_
    intro r' hr'
    dsimp only at hr'
    rw [hnone] at hr'
    cases hr'
  have hself : s₁.items i = { s.items i with refCnt := (s.items i).refCnt - 1 } := by
    rw [← hs₁, FuseMap.setItem_items_self]
  have hflight : s₁.flight = s.flight := by
    rw [← hs₁]
    rfl
  have hkept : Kept i s s₁ := by
    rw [← hs₁]
    refine ⟨rfl, rfl, fun _ => rfl, fun j hj => s.setItem_items_of_ne _ hj, ?_, ?_, ?_,
      fun _ h _ => h⟩
    all_goals simp
  have hinv : Inv (s₁.setRequest r (s₁.requests r).clear).toTable :=
    hready₁.toInv.setPlain rfl hop fun io hio => hfree io (hflight ▸ hio)
  refine ⟨⟨⟨hinv, hready₁.claim, hready₁.place⟩, ?_, hready₁.idle⟩, hkept.trans ?_, ?_⟩
  · rintro r' ⟨hmem, hcmp, hfd⟩
    by_cases hr : r' = r
    · subst hr
      simp [FuseMap.setRequest, Request.clear] at hfd
    · simp only [FuseMap.setRequest, Function.update_of_ne hr] at hcmp hfd
      exact hready₁.clear r' ⟨hmem, hcmp, hfd⟩
  · refine ⟨rfl, rfl, fun r' => ?_, fun _ _ => rfl, rfl, le_rfl, List.Sublist.refl _, fun _ h _ => h⟩
    by_cases hr : r' = r
    · subst hr
      simp [FuseMap.setRequest, Request.clear]
    · simp [FuseMap.setRequest, hr]
  · rw [FuseMap.setRequest_items, hself]

theorem fuseComplete_spec {success : Bool} (h : Ready s.toTable i) (hcnt : (s.items i).refCnt = 0) :
    wp (fun _ => True) (fuseComplete E i success) (fun _ s' => On s'.toTable i ∧ Kept i s s') s := by
  unfold fuseComplete
  rw [wp_bind]
  refine wp_mono (pairComplete_spec h) fun b s₁ h₁ => ?_
  obtain ⟨hon₁, hc₁, hk₁, hidle₁⟩ := h₁
  rw [wp_ite]
  refine ⟨fun _ => ⟨hon₁, hk₁⟩, fun hb => ?_⟩
  have hready₁ : Ready s₁.toTable i := ⟨hon₁, hc₁, hidle₁ (by simpa using hb)⟩
  have hready₂ := hready₁.setFuseReq (r := none) (hk₁.refCnt_eq_zero hcnt) (by simp)
  have hk₂ := hk₁.trans (Kept.setFuseReq s₁ i none)
  rw [wp_bind, wp_modifyItem, wp_bind, wp_getItem]
  refine wp_mono (startLinkedFuse_spec _ hready₂ (hk₂.refCnt_eq_zero hcnt)) fun _ s' h' => ?_
  exact ⟨h'.1, hk₂.trans h'.2⟩

/-- A command of the item came back. -/
theorem dflyFuseComplete_spec {r : ℕ} {success : Bool} (h : Ready s.toTable i)
    (hr : (s.requests r).fuseData = some i)
    (hplain : 0 < (s.items i).refCnt → (s.plainOn i).length < (s.items i).refCnt ∧
      ∀ io ∈ s.flight, io.kind = .plain → io.req ≠ r) :
    wp (fun _ => True) (dflyFuseComplete E r success)
      (fun _ s' => On s'.toTable i ∧ Kept i s s') s := by
  unfold dflyFuseComplete
  rw [wp_bind, wp_getRequest, hr]
  dsimp only
  rw [wp_bind, wp_getItem, wp_bind, wp_check]
  refine ⟨fun _ => ?_, fun _ => trivial⟩
  have hdrop : wp (fun _ => True) (dropRef i r)
      (fun n s' => Ready s'.toTable i ∧ Kept i s s' ∧ n = (s'.items i).refCnt) s := by
    unfold dropRef
    rw [wp_bind, wp_getItem, wp_ite]
    refine ⟨fun hne => ?_, fun heq => ?_⟩
    · have hpos := hplain (Nat.pos_of_ne_zero hne)
      exact plainComplete_spec h.toOn hpos.1 hpos.2
    · push Not at heq
      exact ⟨h, Kept.of_table rfl, heq.symm⟩
  rw [wp_bind]
  refine wp_mono hdrop fun n s₁ h₁ => ?_
  obtain ⟨hready₁, hk₁, hn⟩ := h₁
  rw [wp_ite]
  refine ⟨fun _ => ⟨hready₁.toOn, hk₁⟩, fun hzero => ?_⟩
  push Not at hzero
  refine wp_mono (fuseComplete_spec hready₁ (hn.symm.trans hzero)) fun _ s' h' => ?_
  exact ⟨h'.1, hk₁.trans h'.2⟩

end

end DssSdk.Fuse
