import DssSdk.Fuse.PairOutcome

/-!
# Fused pairs exclude other writes

The invariant of `Account` over the events of a map.

* `LookedUp`: what a lookup gives;
* `step_inv`: one event;
* `atomic_of_run`: whole runs, as long as no request is given back whose item has plain writes under
  way.
-/

namespace DssSdk.Fuse

open Program

section

variable {E : Env} {s : FuseMap} {i : ItemRef}

/-! ### Lookup -/

theorem lookupLoop_spec (items : ℕ → Item) (key : List UInt8) (js : List ℕ) (avail : Option ℕ) :
    (∀ j a, lookupLoop items key js avail = (some j, a) →
      j ∈ js ∧ (items j).active = true ∧ (items j).key = key) ∧
    ∀ a, lookupLoop items key js avail = (none, a) →
      (∀ j ∈ js, (items j).active = true → (items j).key ≠ key) ∧
      ∀ j, a = some j → avail = some j ∨ j ∈ js ∧ (items j).active = false := by
  induction js generalizing avail with
  | nil =>
    refine ⟨fun j a h => (by cases h), fun a h => ?_⟩
    cases h
    exact ⟨fun j hj => (by cases hj), fun j hj => Or.inl hj⟩
  | cons j₀ js ih =>
    unfold lookupLoop
    by_cases hidle : avail = none ∧ (items j₀).active = false
    · rw [if_pos hidle]
      obtain ⟨hfound, hnone⟩ := ih (some j₀)
      refine ⟨fun j a h => ?_, fun a h => ?_⟩
      · exact ⟨List.mem_cons_of_mem _ (hfound j a h).1, (hfound j a h).2⟩
      · refine ⟨fun j hj hact => ?_, fun j hj => ?_⟩
        · rcases List.mem_cons.1 hj with rfl | hj
          · rw [hidle.2] at hact
            cases hact
          · exact (hnone a h).1 j hj hact
        · rcases (hnone a h).2 j hj with heq | ⟨hmem, hact⟩
          · cases heq
            exact Or.inr ⟨List.mem_cons_self, hidle.2⟩
          · exact Or.inr ⟨List.mem_cons_of_mem _ hmem, hact⟩
    · rw [if_neg hidle]
      by_cases hhit : (items j₀).active = true ∧ (items j₀).key = key
      · rw [if_pos hhit]
        refine ⟨fun j a h => ?_, fun a h => by cases h⟩
        cases h
        exact ⟨List.mem_cons_self, hhit⟩
      · rw [if_neg hhit]
        obtain ⟨hfound, hnone⟩ := ih avail
        refine ⟨fun j a h => ?_, fun a h => ?_⟩
        · exact ⟨List.mem_cons_of_mem _ (hfound j a h).1, (hfound j a h).2⟩
        · refine ⟨fun j hj hact => ?_, fun j hj => ?_⟩
          · rcases List.mem_cons.1 hj with rfl | hj
            · exact fun hk => hhit ⟨hact, hk⟩
            · exact (hnone a h).1 j hj hact
          · rcases (hnone a h).2 j hj with heq | ⟨hmem, hact⟩
            · exact Or.inl heq
            · exact Or.inr ⟨List.mem_cons_of_mem _ hmem, hact⟩

theorem fuseInitItem_not_active {it : Item} {key : List UInt8} (h : it.active = false) :
    (fuseInitItem key it).active = false := by
  have hw := (Item.not_active h).2.1
  simp [fuseInitItem, Item.active, hw]

/-- An idle item has nothing under way. -/
theorem Inv.init {s : Table} (h : Inv s) (hidle : (s.items i).active = false) (key : List UInt8)
    {n : ℕ → ℕ} (hn : ∀ b, s.nrEntries b ≤ n b) :
    Inv { s with nrEntries := n, items := Function.update s.items i (fuseInitItem key (s.items i)) } := by
  obtain ⟨hcnt, hwait, hreq⟩ := Item.not_active hidle
  have hi := h.items i
  have hinit : (fuseInitItem key (s.items i)).active = false := fuseInitItem_not_active hidle
  have hother : ∀ j, (Function.update s.items i (fuseInitItem key (s.items i)) j).active = true →
      j ≠ i ∧ Function.update s.items i (fuseInitItem key (s.items i)) j = s.items j := by
    intro j hj
    have hne : j ≠ i := by
      rintro rfl
      rw [Function.update_self, hinit] at hj
      cases hj
    exact ⟨hne, Function.update_of_ne hne _ _⟩
  constructor
  · intro j
    by_cases hji : j = i
    · subst hji
      dsimp only
      rw [Function.update_self]
      have hnil : s.fusedOn j = [] := hi.fusedOn_eq_nil hreq
      constructor
      · exact fun _ => rfl
      · exact hi.plain.trans hcnt.le
      · exact fun hne => absurd hnil hne
      · exact hi.single
      · intro io hio
        exact absurd hio (by rw [show Traffic.fusedOn _ j = s.fusedOn j from rfl, hnil]; simp)
      · intro io hio hio'
        have hact := hi.active_of_flight hio hio'
        rw [hidle] at hact
        cases hact
      · exact hi.nodup
      · exact fun r hr => by cases hr
      · exact hi.waiting
      · rintro r (hr | hr)
        · have hr' : r ∈ (s.items j).waiting := hr
          rw [hwait] at hr'
          cases hr'
        · cases hr
      · intro r hr
        have hr' := (hi.delayed r hr).1
        rw [hreq] at hr'
        cases hr'
    · dsimp only
      rw [Function.update_of_ne hji]
      exact h.items j
  · intro j j' hj hj' hk
    dsimp only at hj hj' hk
    obtain ⟨-, heq⟩ := hother j hj
    obtain ⟨-, heq'⟩ := hother j' hj'
    rw [heq] at hj hk
    rw [heq'] at hj' hk
    exact h.one j j' hj hj' hk
  · intro j hj
    dsimp only at hj ⊢
    obtain ⟨-, heq⟩ := hother j hj
    rw [heq] at hj ⊢
    exact ⟨(h.home j hj).1, lt_of_lt_of_le (h.home j hj).2 (hn _)⟩
  · exact h.plainReq
  · exact h.plainNodup
  · exact h.delayReq
  · exact h.delayNodup
  · exact h.delayFlight

/-- What a lookup gives: the item of the key, as it was or taken over from another key. -/
structure LookedUp (k : List UInt8) (s : FuseMap) (i : ItemRef) (s' : FuseMap) : Prop where
  on : On s'.toTable i
  key : (s'.items i).key = k
  traffic : s'.toTraffic = s.toTraffic
  others : ∀ j, j ≠ i → s'.items j = s.items j
  item : s'.items i = s.items i ∨
    (s.items i).active = false ∧ s'.items i = fuseInitItem k (s.items i)
  rest : s'.wpPendingQueue = s.wpPendingQueue ∧ s'.ticks = s.ticks ∧ s'.completed = s.completed ∧
    s'.links = s.links ∧ s'.compared = s.compared

theorem fuseMapLookup_spec {F : Fault → Prop} {key : List UInt8} (h : Inv s.toTable) :
    wp F (fuseMapLookup key) (LookedUp key s) s := by
  obtain ⟨hfound, hnone⟩ := lookupLoop_spec (fun j => s.items (bucketOf key, j)) key
    (List.range (s.nrEntries (bucketOf key))) none
  -- an item in use with this key would be in this bucket, and the loop would have found it
  have hfree : ∀ a, lookupLoop (fun j => s.items (bucketOf key, j)) key
      (List.range (s.nrEntries (bucketOf key))) none = (none, a) →
      ∀ j, (s.items j).active = true → (s.items j).key ≠ key := by
    intro a ha j hj hk
    obtain ⟨hb, hlt⟩ := h.home j hj
    rw [hk] at hb
    obtain ⟨b, p⟩ := j
    dsimp only at hb hlt
    subst hb
    exact (hnone a ha).1 p (List.mem_range.2 hlt) hj hk
  unfold fuseMapLookup
  rw [wp_bind, wp_get]
  dsimp only
  split
  · rename_i j a heq
    obtain ⟨hmem, hact, hk⟩ := hfound j a heq
    exact ⟨h.on_of_active hact, hk, rfl, fun _ _ => rfl, Or.inl rfl, rfl, rfl, rfl, rfl, rfl⟩
  · rename_i j heq
    obtain ⟨hmem, hidle⟩ : j ∈ List.range (s.nrEntries (bucketOf key)) ∧
        (s.items (bucketOf key, j)).active = false := by
      rcases (hnone _ heq).2 j rfl with hj | hj
      · cases hj
      · exact hj
    rw [wp_bind, wp_modifyItem, wp_pure]
    have hinv := h.init hidle key (fun b => le_rfl)
    refine ⟨⟨hinv, fun j' hj' hk' => ?_, ?_⟩, by simp [fuseInitItem], rfl,
      fun j' hj' => s.setItem_items_of_ne _ hj', Or.inr ⟨hidle, by simp⟩, rfl, rfl, rfl, rfl, rfl⟩
    · by_contra hne
      rw [FuseMap.setItem_items_of_ne _ _ hne] at hj' hk'
      refine hfree _ heq j' hj' (hk'.trans ?_)
      simp [fuseInitItem]
    · simpa [fuseInitItem, FuseMap.setItem] using hmem
  · rename_i heq
    -- the new item lies behind the others of its bucket and was never used
    have hidle : (s.items (bucketOf key, s.nrEntries (bucketOf key))).active = false := by
      by_contra hact
      have hlt := (h.home _ (by simpa using hact)).2
      exact absurd hlt (lt_irrefl _)
    simp only [wp_bind, wp_modify, wp_modifyItem, wp_pure]
    have hn : ∀ b, s.nrEntries b ≤ Function.update s.nrEntries (bucketOf key)
        (s.nrEntries (bucketOf key) + 1) b := by
      intro b
      by_cases hb : b = bucketOf key
      · subst hb
        simp
      · simp [hb]
    have hinv := h.init hidle key hn
    refine ⟨⟨hinv, fun j' hj' hk' => ?_, ?_⟩, by simp [fuseInitItem], rfl,
      fun j' hj' => FuseMap.setItem_items_of_ne _ _ hj', Or.inr ⟨hidle, by simp⟩,
      rfl, rfl, rfl, rfl, rfl⟩
    · by_contra hne
      rw [FuseMap.setItem_items_of_ne _ _ hne] at hj' hk'
      refine hfree _ heq j' hj' (hk'.trans ?_)
      simp [fuseInitItem]
    · simp [fuseInitItem, FuseMap.setItem]

/-! ### Commands that come to the module -/

/-- A request that nothing in the map refers to. -/
structure Fresh (s : Table) (r : ℕ) : Prop where
  lt : r < s.nrRequests
  next : (s.requests r).nextReq = none
  notRefers : ∀ j, ¬ s.Refers j r
  notDelayed : r ∉ s.wpDelayQueue
  notFlying : ∀ io ∈ s.flight, io.kind = .plain → io.req ≠ r

/-- The pair that the poller is to try again. -/
structure Retried (s : Table) (i : ItemRef) (f1 : ℕ) : Prop extends Ready s i where
  req : (s.items i).fuseReq = some f1
  opc : (s.requests f1).opc = .cmp
  next : (s.requests f1).nextReq ≠ none
  data : (s.requests f1).fuseData = some i

theorem Retried.pushDelay {s : Table} {f1 : ℕ} (h : Retried s i f1) :
    Inv { s with wpDelayQueue := f1 :: s.wpDelayQueue } := by
  have href := (h.items i).refs f1 (Or.inr h.req)
  refine h.toInv.pushDelay ⟨href.lt, Or.inr ⟨h.opc, h.next, by simp [h.data]⟩⟩ ?_ ?_ ?_
  · exact fun hmem => h.clear f1 ⟨hmem, h.opc, h.data⟩
  · rintro io hio hk rfl
    have hp := (h.plainReq io hio hk).2.1
    rw [h.opc] at hp
    cases hp
  · intro j _ hj
    rw [h.data, Option.some.injEq] at hj
    subst hj
    exact ⟨h.req, h.idle⟩

theorem fuseStartFuse_spec {f1 : ℕ} (h : On s.toTable i) (hmem : f1 ∈ (s.items i).waiting)
    (hopc : (s.requests f1).opc = .cmp) (hnext : (s.requests f1).nextReq ≠ none) :
    wp (fun _ => True) (fuseStartFuse E i f1) (fun rc s' => Inv s'.toTable ∧
      (rc = .fuseInProgress ∨ rc = .f1Fail ∨ rc = .retry ∧ Retried s'.toTable i f1 ∧
        s'.requests = s.requests)) s := by
  unfold fuseStartFuse
  rw [wp_bind, wp_getItem, wp_ite]
  refine ⟨fun hfree => ?_, fun _ => ⟨h.toInv, Or.inl rfl⟩⟩
  have hi := h.items i
  have hready : Ready s.toTable i := ⟨h, hi.clear hfree.1, hi.fusedOn_eq_nil hfree.1⟩
  rw [wp_bind]
  refine wp_mono (hready.takeWaiting hfree.2 hmem) fun _ s₁ h₁ => ?_
  obtain ⟨hready₁, hk₁, hf1₁, hreqs₁, _⟩ := h₁
  refine wp_mono (doFuseHandleFuseOp_spec _ hready₁ hf1₁) fun rc s' h' => ?_
  refine ⟨h'.on.toInv, ?_⟩
  rcases h'.notMatch with hrc | hrc | hrc
  · exact Or.inl hrc
  · exact Or.inr (Or.inl hrc)
  · obtain ⟨_, hreqs, hreq⟩ := h'.retry hrc
    have hsame : s'.requests = s.requests := hreqs.trans hreqs₁
    refine Or.inr (Or.inr ⟨hrc, ⟨⟨h'.on, h'.clear, h'.idle (by simp [hrc])⟩, hreq, ?_, ?_, ?_⟩, hsame⟩)
    · rw [hsame]
      exact hopc
    · rw [hsame]
      exact hnext
    · rw [hsame]
      exact hi.waiting f1 hmem

theorem fuseHandlePlainOp_spec {r : ℕ} {rc : IoRc} (h : Inv s.toTable)
    (hop : (s.requests r).opc.isPlain = true)
    (hfree : ∀ io ∈ s.flight, io.kind = .plain → io.req ≠ r) :
    wp (fun _ => True) (fuseHandlePlainOp r rc) (fun rc' s' => Inv s'.toTable ∧
      s'.nrRequests = s.nrRequests ∧ s'.wpDelayQueue = s.wpDelayQueue ∧ s'.flight = s.flight ∧
      (∀ r', (s'.requests r').toCommand = (s.requests r').toCommand) ∧
      (rc' = .retry ∨ rc' = rc ∧ ∃ i, On s'.toTable i ∧ (s'.requests r).fuseData = some i ∧
        (s'.items i).key = (s.requests r).key ∧
        (s'.plainOn i).length < (s'.items i).refCnt)) s := by
  unfold fuseHandlePlainOp
  rw [wp_bind, wp_getRequest, wp_bind]
  refine wp_mono (fuseMapLookup_spec h) fun i s₁ h₁ => ?_
  have hreqs : s₁.requests = s.requests := congrArg Traffic.requests h₁.traffic
  have hnr : s₁.nrRequests = s.nrRequests := congrArg Traffic.nrRequests h₁.traffic
  have hdelay : s₁.wpDelayQueue = s.wpDelayQueue := congrArg Traffic.wpDelayQueue h₁.traffic
  have hflight : s₁.flight = s.flight := congrArg Traffic.flight h₁.traffic
  rw [wp_bind, wp_getItem, wp_ite]
  refine ⟨fun hnone => ?_, fun _ => ?_⟩
  · simp only [wp_bind, wp_modifyItem, wp_modifyRequest, wp_pure]
    generalize hs₂ : s₁.setItem i _ = s₂
    have hon₂ : On s₂.toTable i := by
      rw [← hs₂]
      refine h₁.on.setItem ((h₁.on.items i).update rfl (List.Sublist.refl _) (fun _ => hnone) ?_
        (Or.inl rfl) ?_) rfl
      · exact (h₁.on.items i).plain.trans (Nat.le_succ _)
      · intro r' hr'
        dsimp only at hr'
        rw [hnone] at hr'
        cases hr'
    have htraffic₂ : s₂.toTraffic = s.toTraffic := by
      rw [← hs₂, ← h₁.traffic]
      rfl
    have hreqs₂ : s₂.requests = s.requests := congrArg Traffic.requests htraffic₂
    have hop₂ : (s₂.requests r).opc.isPlain = true := by
      rw [hreqs₂]
      exact hop
    have hinv := hon₂.toInv.setPlain (q := { s₂.requests r with fuseData := some i }) rfl hop₂ (by
      rw [show s₂.flight = s.flight from congrArg Traffic.flight htraffic₂]
      exact hfree)
    have hnr₂ : s₂.nrRequests = s.nrRequests := congrArg Traffic.nrRequests htraffic₂
    have hdelay₂ : s₂.wpDelayQueue = s.wpDelayQueue := congrArg Traffic.wpDelayQueue htraffic₂
    have hflight₂ : s₂.flight = s.flight := congrArg Traffic.flight htraffic₂
    refine ⟨hinv, hnr₂, hdelay₂, hflight₂, fun r' => ?_, Or.inr ⟨trivial, i, ⟨hinv, hon₂.claim,
      hon₂.place⟩, by simp, ?_, ?_⟩⟩
    · by_cases hr : r' = r
      · subst hr
        simp [hreqs₂]
      · rw [FuseMap.setRequest_requests_of_ne _ _ hr, hreqs₂]
    · rw [FuseMap.setRequest_items, ← hs₂, FuseMap.setItem_items_self]
      exact h₁.key
    · have hplain : (s₂.plainOn i).length = (s₁.plainOn i).length := by
        rw [← hs₂]
        rfl
      have hcnt : (s₂.items i).refCnt = (s₁.items i).refCnt + 1 := by
        rw [← hs₂, FuseMap.setItem_items_self]
      have hle := (h₁.on.items i).plain
      show (s₂.plainOn i).length < (s₂.items i).refCnt
      omega
  · refine ⟨h₁.on.toInv, hnr, hdelay, hflight, fun r' => by rw [hreqs], Or.inl rfl⟩

theorem searchF2_spec (requests : ℕ → Request) (f1 : Request) (ws : List ℕ) :
    (searchF2 requests f1 ws).2.Sublist ws ∧
      ∀ f2, (searchF2 requests f1 ws).1 = some f2 →
        f2 ∈ (searchF2 requests f1 ws).2 ∧ (requests f2).opc.isF2 = true ∧
          dflyIsFusePair f1 (requests f2) = true := by
  induction ws with
  | nil => exact ⟨List.Sublist.refl _, fun f2 h => by cases h⟩
  | cons r rs ih =>
    unfold searchF2
    by_cases hctx : (requests r).reqCtx = false
    · rw [if_pos hctx]
      exact ⟨ih.1.trans (List.sublist_cons_self r rs), ih.2⟩
    · rw [if_neg hctx]
      by_cases hpair : (requests r).opc.isF2 = true ∧ dflyIsFusePair f1 (requests r) = true
      · rw [if_pos hpair]
        refine ⟨List.Sublist.refl _, fun f2 h => ?_⟩
        cases h
        exact ⟨List.mem_cons_self, hpair⟩
      · rw [if_neg hpair]
        refine ⟨ih.1.cons_cons r, fun f2 h => ?_⟩
        exact ⟨List.mem_cons_of_mem _ (ih.2 f2 h).1, (ih.2 f2 h).2⟩

theorem wp_startTimer {F : Fault → Prop} {r : ℕ} {Q : Unit → FuseMap → Prop}
    (h : ∀ l, Q () { s with wpPendingQueue := l }) : wp F (startTimer E r) Q s := by
  unfold startTimer
  rw [wp_ite]
  exact ⟨fun _ => h _, fun _ => h s.wpPendingQueue⟩

theorem linkPair_spec {f1 f2 : ℕ} (h : On s.toTable i) (hf1 : (s.items i).Holds f1)
    (hopc : (s.requests f1).opc = .cmp) (hf2 : LinkOk s.toTraffic i (s.items i) f2) :
    wp (fun _ => True) (linkPair f1 f2) (fun _ s' => On s'.toTable i ∧ s'.items = s.items ∧
      (s'.requests f1).opc = .cmp ∧ (s'.requests f1).nextReq ≠ none ∧
      (s'.requests f2).f1Req = some f1 ∧ (s'.requests f2).opc = (s.requests f2).opc) s := by
  have hne : f2 ≠ f1 := by
    rintro rfl
    have hop := hf2.opc
    rw [hopc] at hop
    cases hop
  unfold linkPair
  simp only [wp_bind, wp_modifyRequest, wp_modify]
  generalize hs₁ : s.setRequest f1 _ = s₁
  have hself : s₁.requests f1 = { s.requests f1 with nextReq := some f2 } := by
    rw [← hs₁, FuseMap.setRequest_requests_self]
  have hother : s₁.requests f2 = s.requests f2 := by
    rw [← hs₁, FuseMap.setRequest_requests_of_ne _ _ hne]
  have hinv₁ : Inv s₁.toTable := by
    rw [← hs₁]
    refine h.toInv.relink rfl rfl (fun hq => by cases hq) ?_
    rintro f2' ⟨⟩
    refine ⟨by rw [hopc]; rfl, fun j hj => ?_⟩
    have hji : j = i := h.claim j hj.active
      (((h.items j).refs f1 hj).key.symm.trans ((h.items i).refs f1 hf1).key)
    subst hji
    exact hf2
  have hitems₁ : s₁.items = s.items := by
    rw [← hs₁]
    rfl
  have hinv₂ : Inv (s₁.setRequest f2 { s₁.requests f2 with f1Req := some f1 }).toTable := by
    refine hinv₁.relink rfl rfl id fun f3 hf3 => ?_
    dsimp only at hf3
    rw [hother, hf2.next] at hf3
    cases hf3
  refine ⟨⟨hinv₂, ?_, ?_⟩, hitems₁, ?_, ?_, by simp, by simp [hother]⟩
  · show ∀ j, (s₁.items j).active = true → (s₁.items j).key = (s₁.items i).key → j = i
    rw [hitems₁]
    exact h.claim
  · have hn : s₁.nrEntries = s.nrEntries := by
      rw [← hs₁]
      rfl
    show i.1 = bucketOf (s₁.items i).key ∧ i.2 < s₁.nrEntries i.1
    rw [hitems₁, hn]
    exact h.place
  · rw [FuseMap.setRequest_requests_of_ne _ _ hne.symm, hself]
    exact hopc
  · rw [FuseMap.setRequest_requests_of_ne _ _ hne.symm, hself]
    simp

theorem Fresh.setData {r : ℕ} (hr : Fresh s.toTable r) (h : On s.toTable i) :
    On (s.setRequest r { s.requests r with fuseData := some i }).toTable i := by
  refine ⟨h.toInv.setRequest rfl ?_ ?_ ?_ ?_ ?_, h.claim, h.place⟩
  · exact fun io hio hk heq => absurd heq (hr.notFlying io hio hk)
  · exact fun j hj => absurd (Or.inl (Or.inl hj)) (hr.notRefers j)
  · exact fun j hj => absurd hj (hr.notRefers j)
  · intro f2 hf2
    dsimp only at hf2
    rw [hr.next] at hf2
    cases hf2
  · exact fun hmem => absurd hmem hr.notDelayed

theorem Fresh.lookedUp {s' : FuseMap} {r : ℕ} {k : List UInt8} (hr : Fresh s.toTable r)
    (h : LookedUp k s i s') : Fresh s'.toTable r := by
  have hreqs : s'.requests = s.requests := congrArg Traffic.requests h.traffic
  have hheld : ∀ j f1, (s'.items j).Holds f1 → (s.items j).Holds f1 := by
    intro j f1 hj
    by_cases hji : j = i
    · subst hji
      rcases h.item with heq | ⟨hidle, heq⟩
      · rw [heq] at hj
        exact hj
      · rw [heq] at hj
        have hact := hj.active
        rw [fuseInitItem_not_active hidle] at hact
        cases hact
    · rw [h.others j hji] at hj
      exact hj
  refine ⟨?_, ?_, ?_, ?_, ?_⟩
  · rw [show s'.nrRequests = s.nrRequests from congrArg Traffic.nrRequests h.traffic]
    exact hr.lt
  · rw [hreqs]
    exact hr.next
  · rintro j (hj | ⟨f1, hf1, hnext⟩)
    · exact hr.notRefers j (Or.inl (hheld j r hj))
    · rw [hreqs] at hnext
      exact hr.notRefers j (Or.inr ⟨f1, hheld j f1 hf1, hnext⟩)
  · rw [show s'.wpDelayQueue = s.wpDelayQueue from congrArg Traffic.wpDelayQueue h.traffic]
    exact hr.notDelayed
  · rw [show s'.flight = s.flight from congrArg Traffic.flight h.traffic]
    exact hr.notFlying

/-- A fresh request of the key that knows its item may go into the waiting queue, where it may take
the place of another one. -/
theorem Fresh.requeue {r : ℕ} {w : List ℕ} (h : On s.toTable i) (hr : Fresh s.toTable r)
    (hop : (s.requests r).opc.isPlain = false) (hkey : (s.requests r).key = (s.items i).key)
    (hdata : (s.requests r).fuseData = some i) (hnodup : w.Nodup)
    (hw : ∀ r' ∈ w, r' = r ∨ r' ∈ (s.items i).waiting) :
    On (s.setItem i { s.items i with waiting := w }).toTable i := by
  have hi := h.items i
  have hself : RefOk s.toTraffic i (s.items i) r := by
    refine ⟨hr.lt, hop, hkey, Or.inr hdata, fun _ => hr.next, fun f2 hf2 => ?_⟩
    rw [hr.next] at hf2
    cases hf2
  refine h.setItem (hi.requeue rfl rfl hi.exclusive (Or.inl rfl) hnodup ?_ ?_ ?_) rfl
  · intro r' hr'
    refine ⟨fun hmem => ?_, Or.inr hr'⟩
    rcases hw r' hmem with rfl | hmem
    · exact hr.notRefers i (Or.inl (Or.inr hr'))
    · exact hi.notWaiting r' hr' hmem
  · intro r' hr'
    rcases hw r' hr' with rfl | hmem
    · exact ⟨hdata, hself⟩
    · exact ⟨hi.waiting r' hmem, hi.refs r' (Or.inl hmem)⟩
  · intro r' f2 hr' hf2 hmem
    have hheld : (s.items i).Holds r' := by
      rcases hr' with hr' | hr'
      · rcases hw r' hr' with rfl | hr'
        · have hnone := hr.next
          rw [hf2] at hnone
          cases hnone
        · exact Or.inl hr'
      · exact Or.inr hr'
    rcases hw f2 hmem with rfl | hmem
    · exact hr.notRefers i (Or.inr ⟨r', hheld, hf2⟩)
    · exact ((hi.refs r' hheld).link f2 hf2).notWaiting hmem

/-- A fresh request stays fresh when it gets its item. -/
theorem Fresh.data {r : ℕ} (hr : Fresh s.toTable r) :
    Fresh (s.setRequest r { s.requests r with fuseData := some i }).toTable r := by
  refine ⟨hr.lt, by simpa using hr.next, ?_, hr.notDelayed, hr.notFlying⟩
  rintro j (hj | ⟨f1, hf1, hnext⟩)
  · exact hr.notRefers j (Or.inl hj)
  · refine hr.notRefers j (Or.inr ⟨f1, hf1, ?_⟩)
    have hne : f1 ≠ r := by
      rintro rfl
      exact hr.notRefers j (Or.inl hf1)
    rw [FuseMap.setRequest_requests_of_ne _ _ hne] at hnext
    exact hnext

theorem joinF1_spec {r : ℕ} (h : On s.toTable i) (hr : Fresh s.toTable r)
    (hop : (s.requests r).opc = .cmp) (hkey : (s.requests r).key = (s.items i).key)
    (hdata : (s.requests r).fuseData = some i) :
    wp (fun _ => True) (joinF1 E i r) (fun rc s' => Inv s'.toTable ∧
      (rc = .waitForF2 ∨ rc = .fuseInProgress ∨ rc = .f1Fail ∨
        rc = .retry ∧ Retried s'.toTable i r)) s := by
  have hi := h.items i
  have hplain : (s.requests r).opc.isPlain = false := by rw [hop]; rfl
  obtain ⟨hsub, hfound⟩ := searchF2_spec s.requests (s.requests r) (s.items i).waiting
  unfold joinF1
  rw [wp_bind, wp_get]
  generalize searchF2 s.requests (s.requests r) (s.items i).waiting = p at hsub hfound ⊢
  obtain ⟨found, w⟩ := p
  dsimp only at hsub hfound
  have hnotmem : r ∉ w := fun hmem => hr.notRefers i (Or.inl (Or.inl (hsub.subset hmem)))
  have hnodup : w.Nodup := hi.nodup.sublist hsub
  cases found with
  | none =>
    dsimp only
    rw [wp_bind, wp_modifyItem, wp_pure]
    refine ⟨(hr.requeue h hplain hkey hdata ?_ ?_).toInv, Or.inl rfl⟩
    · exact List.nodup_append.2 ⟨hnodup, by simp, fun r' hr' x hx => by
        rw [List.mem_singleton.1 hx]
        rintro rfl
        exact hnotmem hr'⟩
    · intro r' hr'
      rcases List.mem_append.1 hr' with hr' | hr'
      · exact Or.inr (hsub.subset hr')
      · exact Or.inl (List.mem_singleton.1 hr')
  | some f2 =>
    obtain ⟨hmem, hopF2, _⟩ := hfound f2 rfl
    have hne : f2 ≠ r := by
      rintro rfl
      rw [hop] at hopF2
      cases hopF2
    have href := hi.refs f2 (Or.inl (hsub.subset hmem))
    dsimp only
    rw [wp_bind, wp_modifyItem]
    have hon₁ : On (s.setItem i { s.items i with
        waiting := w.map fun x => if x = f2 then r else x }).toTable i := by
      refine hr.requeue h hplain hkey hdata ?_ ?_
      · refine hnodup.map_on fun x hx y hy heq => ?_
        by_cases hxf : x = f2
        · by_cases hyf : y = f2
          · rw [hxf, hyf]
          · rw [if_pos hxf, if_neg hyf] at heq
            exact absurd (heq ▸ hy) hnotmem
        · by_cases hyf : y = f2
          · rw [if_neg hxf, if_pos hyf] at heq
            exact absurd (heq ▸ hx) hnotmem
          · rwa [if_neg hxf, if_neg hyf] at heq
      · intro r' hr'
        obtain ⟨x, hx, rfl⟩ := List.mem_map.1 hr'
        by_cases hxf : x = f2
        · exact Or.inl (if_pos hxf)
        · rw [if_neg hxf]
          exact Or.inr (hsub.subset hx)
    have hmem₁ : r ∈ ((s.setItem i { s.items i with
        waiting := w.map fun x => if x = f2 then r else x }).items i).waiting := by
      rw [FuseMap.setItem_items_self]
      exact List.mem_map.2 ⟨f2, hmem, if_pos rfl⟩
    have hlink : LinkOk (s.setItem i { s.items i with
        waiting := w.map fun x => if x = f2 then r else x }).toTraffic i
        ((s.setItem i { s.items i with
          waiting := w.map fun x => if x = f2 then r else x }).items i) f2 := by
      rw [FuseMap.setItem_items_self]
      refine ⟨href.lt, hopF2, href.key, href.here, href.next hopF2, fun hmem' => ?_⟩
      obtain ⟨x, hx, heq⟩ := List.mem_map.1 hmem'
      by_cases hxf : x = f2
      · rw [if_pos hxf] at heq
        exact hne heq.symm
      · rw [if_neg hxf] at heq
        exact hxf heq
    rw [wp_bind]
    refine wp_mono (linkPair_spec hon₁ (Or.inl hmem₁) hop hlink) fun _ s₂ h₂ => ?_
    obtain ⟨hon₂, hitems₂, hop₂, hnext₂, _, _⟩ := h₂
    have hmem₂ : r ∈ (s₂.items i).waiting := by
      rw [hitems₂]
      exact hmem₁
    refine wp_mono (fuseStartFuse_spec hon₂ hmem₂ hop₂ hnext₂) fun rc s' h' => ?_
    refine ⟨h'.1, Or.inr ?_⟩
    rcases h'.2 with hrc | hrc | ⟨hrc, hret, _⟩
    · exact Or.inl hrc
    · exact Or.inr (Or.inl hrc)
    · exact Or.inr (Or.inr ⟨hrc, hret⟩)

theorem joinF2_spec {r : ℕ} (h : On s.toTable i) (hr : Fresh s.toTable r)
    (hop : (s.requests r).opc.isF2 = true) (hkey : (s.requests r).key = (s.items i).key)
    (hdata : (s.requests r).fuseData = some i) :
    wp (fun _ => True) (joinF2 E i r) (fun rc s' => Inv s'.toTable ∧
      (rc = .waitForF1 ∨ rc = .fuseInProgress ∨ rc = .f1Fail ∨
        rc = .retry ∧ (s'.requests r).opc.isF2 = true ∧
          ∃ f1, (s'.requests r).f1Req = some f1 ∧ Retried s'.toTable i f1)) s := by
  have hi := h.items i
  have hplain : (s.requests r).opc.isPlain = false := Opc.isPlain_of_isF2 hop
  have hnotmem : r ∉ (s.items i).waiting := fun hmem => hr.notRefers i (Or.inl (Or.inl hmem))
  unfold joinF2
  rw [wp_bind, wp_get]
  cases hfind : (s.items i).waiting.find? fun r' =>
      (s.requests r').opc == .cmp && dflyIsFusePair (s.requests r') (s.requests r) with
  | none =>
    dsimp only
    rw [wp_bind, wp_modifyItem, wp_pure]
    refine ⟨(hr.requeue h hplain hkey hdata ?_ ?_).toInv, Or.inl rfl⟩
    · exact List.nodup_append.2 ⟨hi.nodup, by simp, fun r' hr' x hx => by
        rw [List.mem_singleton.1 hx]
        rintro rfl
        exact hnotmem hr'⟩
    · intro r' hr'
      rcases List.mem_append.1 hr' with hr' | hr'
      · exact Or.inr hr'
      · exact Or.inl (List.mem_singleton.1 hr')
  | some f1 =>
    have hmem := List.mem_of_find?_eq_some hfind
    have hcmp : (s.requests f1).opc = .cmp := by
      have htest := List.find?_some hfind
      simp only [Bool.and_eq_true, beq_iff_eq] at htest
      exact htest.1
    have hlink : LinkOk s.toTraffic i (s.items i) r :=
      ⟨hr.lt, hop, hkey, Or.inr hdata, hr.next, hnotmem⟩
    dsimp only
    rw [wp_bind]
    refine wp_mono (linkPair_spec h (Or.inl hmem) hcmp hlink) fun _ s₂ h₂ => ?_
    obtain ⟨hon₂, hitems₂, hop₂, hnext₂, hf1Req, hopc₂⟩ := h₂
    have hmem₂ : f1 ∈ (s₂.items i).waiting := by
      rw [hitems₂]
      exact hmem
    refine wp_mono (fuseStartFuse_spec hon₂ hmem₂ hop₂ hnext₂) fun rc s' h' => ?_
    refine ⟨h'.1, Or.inr ?_⟩
    rcases h'.2 with hrc | hrc | ⟨hrc, hret, hreqs⟩
    · exact Or.inl hrc
    · exact Or.inr (Or.inl hrc)
    · refine Or.inr (Or.inr ⟨hrc, ?_, f1, ?_, hret⟩)
      · rw [hreqs, hopc₂]
        exact hop
      · rw [hreqs]
        exact hf1Req

theorem lookupData_spec {r : ℕ} {α : Type} {m : ItemRef → M α} {Q : α → FuseMap → Prop}
    (h : Inv s.toTable) (hr : Fresh s.toTable r)
    (hm : ∀ i s₁, On s₁.toTable i → Fresh s₁.toTable r →
      (s₁.requests r).toCommand = (s.requests r).toCommand →
      (s₁.requests r).key = (s₁.items i).key → (s₁.requests r).fuseData = some i →
      wp (fun _ => True) (m i) Q s₁) :
    wp (fun _ => True) (do
      let i ← fuseMapLookup (← getRequest r).key
      modifyRequest r fun q => { q with fuseData := some i }
      m i) Q s := by
  rw [wp_bind, wp_getRequest, wp_bind]
  refine wp_mono (fuseMapLookup_spec h) fun i s₁ h₁ => ?_
  have hreqs₁ : s₁.requests = s.requests := congrArg Traffic.requests h₁.traffic
  have hr₁ := hr.lookedUp h₁
  rw [wp_bind, wp_modifyRequest]
  refine hm i _ (hr₁.setData h₁.on) hr₁.data ?_ ?_ ?_
  · rw [FuseMap.setRequest_requests_self, hreqs₁]
  · rw [FuseMap.setRequest_requests_self, hreqs₁, FuseMap.setRequest_items, h₁.key]
  · rw [FuseMap.setRequest_requests_self]

theorem fuseHandleF1Op_spec {r : ℕ} (h : Inv s.toTable) (hr : Fresh s.toTable r)
    (hop : (s.requests r).opc = .cmp) :
    wp (fun _ => True) (fuseHandleF1Op E r) (fun rc s' => Inv s'.toTable ∧
      (rc = .waitForF2 ∨ rc = .fuseInProgress ∨ rc = .f1Fail ∨
        rc = .retry ∧ ∃ i, Retried s'.toTable i r)) s := by
  unfold fuseHandleF1Op
  rw [wp_bind]
  refine wp_startTimer fun l => ?_
  rw [wp_bind, wp_getRequest, if_neg (by simpa using hr.next)]
  refine lookupData_spec h hr fun i s₁ hon₁ hr₁ hcmd₁ hkey₁ hdata₁ => ?_
  have hop₁ : (s₁.requests r).opc = .cmp := (congrArg Command.opc hcmd₁).trans hop
  refine wp_mono (joinF1_spec hon₁ hr₁ hop₁ hkey₁ hdata₁) fun rc s' h' => ?_
  refine ⟨h'.1, ?_⟩
  rcases h'.2 with hrc | hrc | hrc | ⟨hrc, hret⟩
  · exact Or.inl hrc
  · exact Or.inr (Or.inl hrc)
  · exact Or.inr (Or.inr (Or.inl hrc))
  · exact Or.inr (Or.inr (Or.inr ⟨hrc, i, hret⟩))

theorem fuseHandleF2Op_spec {r : ℕ} (h : Inv s.toTable) (hr : Fresh s.toTable r)
    (hop : (s.requests r).opc.isF2 = true) :
    wp (fun _ => True) (fuseHandleF2Op E r) (fun rc s' => Inv s'.toTable ∧
      (rc = .waitForF1 ∨ rc = .fuseInProgress ∨ rc = .f1Fail ∨
        rc = .retry ∧ (s'.requests r).opc.isF2 = true ∧
          ∃ i f1, (s'.requests r).f1Req = some f1 ∧ Retried s'.toTable i f1)) s := by
  unfold fuseHandleF2Op
  rw [wp_bind]
  refine wp_startTimer fun l => ?_
  refine lookupData_spec h hr fun i s₁ hon₁ hr₁ hcmd₁ hkey₁ hdata₁ => ?_
  have hop₁ : (s₁.requests r).opc.isF2 = true := by
    rw [show (s₁.requests r).opc = (s.requests r).opc from congrArg Command.opc hcmd₁]
    exact hop
  refine wp_mono (joinF2_spec hon₁ hr₁ hop₁ hkey₁ hdata₁) fun rc s' h' => ?_
  refine ⟨h'.1, ?_⟩
  rcases h'.2 with hrc | hrc | hrc | ⟨hrc, hF2, f1, hf1, hret⟩
  · exact Or.inl hrc
  · exact Or.inr (Or.inl hrc)
  · exact Or.inr (Or.inr (Or.inl hrc))
  · exact Or.inr (Or.inr (Or.inr ⟨hrc, hF2, i, f1, hf1, hret⟩))

theorem Retried.requeue {f1 : ℕ} (h : Retried s.toTable i f1) :
    On (s.setItem i { s.items i with
      fuseReq := none, waiting := (s.items i).waiting ++ [f1] }).toTable i := by
  have hi := h.items i
  have hnotmem := hi.notWaiting f1 h.req
  have hheld : ∀ r, r ∈ (s.items i).waiting ++ [f1] → (s.items i).Holds r := by
    intro r hr
    rcases List.mem_append.1 hr with hr | hr
    · exact Or.inl hr
    · rw [List.mem_singleton.1 hr]
      exact Or.inr h.req
  refine h.toOn.setItem (hi.requeue rfl rfl (fun _ => rfl) (Or.inr ⟨h.idle, h.clear⟩) ?_ ?_ ?_ ?_) rfl
  · exact List.nodup_append.2 ⟨hi.nodup, by simp, fun r hr x hx => by
      rw [List.mem_singleton.1 hx]
      rintro rfl
      exact hnotmem hr⟩
  · intro r hr
    cases hr
  · intro r hr
    refine ⟨?_, hi.refs r (hheld r hr)⟩
    rcases List.mem_append.1 hr with hr | hr
    · exact hi.waiting r hr
    · rw [List.mem_singleton.1 hr]
      exact h.data
  · intro r f2 hr hf2 hmem
    have hr' : (s.items i).Holds r := by
      rcases hr with hr | hr
      · exact hheld r hr
      · cases hr
    have hlink := (hi.refs r hr').link f2 hf2
    rcases List.mem_append.1 hmem with hmem | hmem
    · exact hlink.notWaiting hmem
    · have hop := hlink.opc
      rw [List.mem_singleton.1 hmem, h.opc] at hop
      cases hop

theorem fuseRetryF1Op_spec {f1 : ℕ} (h : Retried s.toTable i f1) :
    wp (fun _ => True) (fuseHandleF1Op E f1) (fun rc s' => Inv s'.toTable ∧
      (rc = .fuseInProgress ∨ rc = .f1Fail ∨ rc = .retry ∧ Retried s'.toTable i f1)) s := by
  unfold fuseHandleF1Op
  rw [wp_bind]
  refine wp_startTimer fun l => ?_
  rw [wp_bind, wp_getRequest, if_pos h.next]
  unfold fuseRetryF1Op
  rw [wp_bind, wp_getRequest]
  dsimp only
  rw [h.data]
  dsimp only
  rw [wp_bind, wp_modifyItem]
  have h₀ : Retried (FuseMap.mk s.toTable l s.ticks s.completed s.links s.compared).toTable i f1 := h
  refine wp_mono (fuseStartFuse_spec h₀.requeue (by simp) h.opc h.next) fun rc s' h' => ?_
  refine ⟨h'.1, ?_⟩
  rcases h'.2 with hrc | hrc | ⟨hrc, hret, _⟩
  · exact Or.inl hrc
  · exact Or.inr (Or.inl hrc)
  · exact Or.inr (Or.inr ⟨hrc, hret⟩)

/-! ### Events -/

/-- A plain write that was admitted. -/
structure Admitted (s : Table) (i : ItemRef) (r : ℕ) : Prop extends On s i where
  opc : (s.requests r).opc.isPlain = true
  data : (s.requests r).fuseData = some i
  reqKey : (s.requests r).key = (s.items i).key
  reqLt : r < s.nrRequests
  counted : (s.plainOn i).length < (s.items i).refCnt
  notDelayed : r ∉ s.wpDelayQueue
  notFlying : ∀ io ∈ s.flight, io.kind = .plain → io.req ≠ r

/-- A plain write is handed on. -/
theorem Admitted.forward {r : ℕ} (h : Admitted s.toTable i r) :
    wp (fun _ => True) (forward r) (fun _ s' => Inv s'.toTable) s := by
  unfold DssSdk.Fuse.forward
  rw [wp_bind, wp_getRequest, wp_send, h.data, Option.getD_some, h.reqKey]
  exact h.toOn.sendPlain ⟨.plain, i, r, some (s.items i).key, (s.items i).key, s.ticks,
    (s.items i).readAt⟩ rfl rfl h.counted ⟨h.reqLt, h.opc, h.data⟩ h.notFlying h.notDelayed rfl
    (Or.inl rfl)

theorem dflyFuseReqProcess_plain {r : ℕ} (h : Inv s.toTable)
    (hop : (s.requests r).opc.isPlain = true) (hlt : r < s.nrRequests)
    (hnot : r ∉ s.wpDelayQueue) (hfree : ∀ io ∈ s.flight, io.kind = .plain → io.req ≠ r) :
    wp (fun _ => True) (dflyFuseReqProcess E r) (fun b s' => Inv s'.toTable ∧
      (b = true → ∃ i, Admitted s'.toTable i r)) s := by
  have hreset : wp (fun _ => True) (resetLinks r) (fun _ s' => Inv s'.toTable ∧
      s'.nrRequests = s.nrRequests ∧ s'.wpDelayQueue = s.wpDelayQueue ∧ s'.flight = s.flight ∧
      (s'.requests r).toCommand = (s.requests r).toCommand) s := by
    unfold resetLinks
    rw [wp_bind, wp_getRequest, wp_ite]
    refine ⟨fun _ => ?_, fun _ => ⟨h, rfl, rfl, rfl, rfl⟩⟩
    rw [wp_modifyRequest]
    exact ⟨h.setPlain rfl hop hfree, rfl, rfl, rfl, by simp⟩
  -- both plain opcodes go through the same handler
  have hio : wp (fun _ => True) (fuseIo E r) (fun rc s' => Inv s'.toTable ∧
      s'.nrRequests = s.nrRequests ∧ s'.wpDelayQueue = s.wpDelayQueue ∧ s'.flight = s.flight ∧
      (s'.requests r).toCommand = (s.requests r).toCommand ∧
      (rc = .retry ∨ (rc = .writeSuccess ∨ rc = .deleteSuccess) ∧
        ∃ i, Admitted s'.toTable i r)) s := by
    unfold fuseIo
    rw [wp_bind]
    refine wp_mono hreset fun _ s₁ h₁ => ?_
    obtain ⟨hinv₁, hnr₁, hdelay₁, hflight₁, hcmd₁⟩ := h₁
    have hop₁ : (s₁.requests r).opc.isPlain = true := by
      rw [show (s₁.requests r).opc = (s.requests r).opc from congrArg Command.opc hcmd₁]
      exact hop
    have hspec : ∀ rc, wp (fun _ => True) (fuseHandlePlainOp r rc) (fun rc' s' => Inv s'.toTable ∧
        s'.nrRequests = s.nrRequests ∧ s'.wpDelayQueue = s.wpDelayQueue ∧ s'.flight = s.flight ∧
        (s'.requests r).toCommand = (s.requests r).toCommand ∧
        (rc' = .retry ∨ rc' = rc ∧ ∃ i, Admitted s'.toTable i r)) s₁ := by
      intro rc
      refine wp_mono (fuseHandlePlainOp_spec hinv₁ hop₁ (by rw [hflight₁]; exact hfree))
        fun rc' s' h' => ?_
      obtain ⟨hinv', hnr', hdelay', hflight', hcmd', hrest⟩ := h'
      have hcmd : (s'.requests r).toCommand = (s.requests r).toCommand := (hcmd' r).trans hcmd₁
      refine ⟨hinv', hnr'.trans hnr₁, hdelay'.trans hdelay₁, hflight'.trans hflight₁, hcmd, ?_⟩
      rcases hrest with hrc | ⟨hrc, i, hon, hdata, hkey, hcount⟩
      · exact Or.inl hrc
      · refine Or.inr ⟨hrc, i, hon, ?_, hdata, ?_, ?_, hcount, ?_, ?_⟩
        · rw [show (s'.requests r).opc = (s.requests r).opc from congrArg Command.opc hcmd]
          exact hop
        · rw [hkey]
          exact congrArg Command.key (hcmd' r)
        · rw [hnr', hnr₁]
          exact hlt
        · rw [hdelay', hdelay₁]
          exact hnot
        · rw [hflight', hflight₁]
          exact hfree
    rw [wp_bind, wp_getRequest]
    cases hopc : (s₁.requests r).opc with
    | store =>
      refine wp_mono (hspec .writeSuccess) fun rc s' h' => ?_
      obtain ⟨h1, h2, h3, h4, h5, h6⟩ := h'
      exact ⟨h1, h2, h3, h4, h5, h6.imp_right fun h => ⟨Or.inl h.1, h.2⟩⟩
    | delete =>
      refine wp_mono (hspec .deleteSuccess) fun rc s' h' => ?_
      obtain ⟨h1, h2, h3, h4, h5, h6⟩ := h'
      exact ⟨h1, h2, h3, h4, h5, h6.imp_right fun h => ⟨Or.inr h.1, h.2⟩⟩
    | cmp => rw [hopc] at hop₁; cases hop₁
    | storeFuse2 => rw [hopc] at hop₁; cases hop₁
    | deleteFuse2 => rw [hopc] at hop₁; cases hop₁
  unfold dflyFuseReqProcess
  rw [wp_bind]
  refine wp_mono hio fun rc s' h' => ?_
  obtain ⟨hinv', hnr', hdelay', hflight', hcmd', hrest⟩ := h'
  have hop' : (s'.requests r).opc.isPlain = true := by
    rw [show (s'.requests r).opc = (s.requests r).opc from congrArg Command.opc hcmd']
    exact hop
  rcases hrest with rfl | ⟨rfl | rfl, hadm⟩
  · dsimp only
    unfold wpRetry wpDelay
    rw [wp_bind, wp_bind, wp_getRequest, if_neg (by simp [Opc.isF2_of_isPlain hop'])]
    rw [wp_modify, wp_pure]
    refine ⟨hinv'.pushDelay ⟨?_, Or.inl hop'⟩ ?_ ?_ ?_, fun hb => by cases hb⟩
    · rw [hnr']
      exact hlt
    · rw [hdelay']
      exact hnot
    · rw [hflight']
      exact hfree
    · intro j hcmp _
      rw [hcmp] at hop'
      cases hop'
  · exact ⟨hinv', fun _ => hadm⟩
  · exact ⟨hinv', fun _ => hadm⟩

/-- What becomes of a fused command: it waits or is under way or answered, or its pair is to be tried
again. -/
def Queued (r : ℕ) (rc : IoRc) (s : FuseMap) : Prop :=
  Inv s.toTable ∧ ((rc = .waitForF1 ∨ rc = .waitForF2 ∨ rc = .fuseInProgress ∨ rc = .f1Fail) ∨
    rc = .retry ∧ ∃ i f1, Retried s.toTable i f1 ∧
      (f1 = r ∨ (s.requests r).opc.isF2 = true ∧ (s.requests r).f1Req = some f1))

theorem dflyFuseReqProcess_of_queued {r : ℕ}
    (h : wp (fun _ => True) (fuseIo E r) (fun rc s' => Queued r rc s') s) :
    wp (fun _ => True) (dflyFuseReqProcess E r) (fun b s' => Inv s'.toTable ∧ b = false) s := by
  unfold dflyFuseReqProcess
  rw [wp_bind]
  refine wp_mono h fun rc s' h' => ?_
  obtain ⟨hinv, (rfl | rfl | rfl | rfl) | ⟨rfl, i, f1, hret, hr⟩⟩ := h'
  · exact ⟨hinv, rfl⟩
  · exact ⟨hinv, rfl⟩
  · exact ⟨hinv, rfl⟩
  · exact ⟨hinv, rfl⟩
  · dsimp only
    unfold wpRetry
    rw [wp_bind, wp_bind, wp_getRequest]
    rcases hr with rfl | ⟨hF2, hf1⟩
    · rw [if_neg (by rw [hret.opc]; simp [Opc.isF2])]
      exact ⟨hret.pushDelay, rfl⟩
    · rw [if_pos hF2, hf1]
      exact ⟨hret.pushDelay, rfl⟩

theorem dflyFuseReqProcess_fused {r : ℕ} (h : Inv s.toTable) (hr : Fresh s.toTable r)
    (hop : (s.requests r).opc.isPlain = false) :
    wp (fun _ => True) (dflyFuseReqProcess E r) (fun b s' => Inv s'.toTable ∧ b = false) s := by
  have hreset : wp (fun _ => True) (resetLinks r) (fun _ s' => s' = s) s := by
    unfold resetLinks
    rw [wp_bind, wp_getRequest, wp_ite]
    refine ⟨fun _ => ?_, fun _ => rfl⟩
    rw [wp_modifyRequest]
    have heq : ({ s.requests r with nextReq := none } : Request) = s.requests r := by
      rw [← hr.next]
    rw [heq]
    simp [FuseMap.setRequest]
  refine dflyFuseReqProcess_of_queued ?_
  unfold fuseIo
  rw [wp_bind]
  refine wp_mono hreset fun _ s₁ h₁ => ?_
  subst h₁
  have hF2 : (s₁.requests r).opc.isF2 = true →
      wp (fun _ => True) (fuseHandleF2Op E r) (fun rc s' => Queued r rc s') s₁ := by
    intro hF2
    refine wp_mono (fuseHandleF2Op_spec h hr hF2) fun rc s' h' => ⟨h'.1, ?_⟩
    rcases h'.2 with hrc | hrc | hrc | ⟨hrc, hF2', i, f1, hf1, hret⟩
    · exact Or.inl (Or.inl hrc)
    · exact Or.inl (Or.inr (Or.inr (Or.inl hrc)))
    · exact Or.inl (Or.inr (Or.inr (Or.inr hrc)))
    · exact Or.inr ⟨hrc, i, f1, hret, Or.inr ⟨hF2', hf1⟩⟩
  rw [wp_bind, wp_getRequest]
  cases hopc : (s₁.requests r).opc with
  | store => rw [hopc] at hop; cases hop
  | delete => rw [hopc] at hop; cases hop
  | cmp =>
    refine wp_mono (fuseHandleF1Op_spec h hr hopc) fun rc s' h' => ⟨h'.1, ?_⟩
    rcases h'.2 with hrc | hrc | hrc | ⟨hrc, i, hret⟩
    · exact Or.inl (Or.inr (Or.inl hrc))
    · exact Or.inl (Or.inr (Or.inr (Or.inl hrc)))
    · exact Or.inl (Or.inr (Or.inr (Or.inr hrc)))
    · exact Or.inr ⟨hrc, i, r, hret, Or.inl rfl⟩
  | storeFuse2 => exact hF2 (by rw [hopc]; rfl)
  | deleteFuse2 => exact hF2 (by rw [hopc]; rfl)

theorem dflyFuseReqProcess_retried {f1 : ℕ} (h : Retried s.toTable i f1) :
    wp (fun _ => True) (dflyFuseReqProcess E f1) (fun b s' => Inv s'.toTable ∧ b = false) s := by
  refine dflyFuseReqProcess_of_queued ?_
  unfold fuseIo resetLinks
  rw [wp_bind, wp_bind, wp_getRequest, if_neg (by simp [h.data]), wp_pure, wp_bind, wp_getRequest,
    h.opc]
  refine wp_mono (fuseRetryF1Op_spec h) fun rc s' h' => ⟨h'.1, ?_⟩
  rcases h'.2 with hrc | hrc | ⟨hrc, hret⟩
  · exact Or.inl (Or.inr (Or.inr (Or.inl hrc)))
  · exact Or.inl (Or.inr (Or.inr (Or.inr hrc)))
  · exact Or.inr ⟨hrc, i, f1, hret, Or.inl rfl⟩

theorem Inv.fresh_newRequest {s : Table} (h : Inv s) (c : Command) :
    Fresh { s with
      requests := Function.update s.requests s.nrRequests c.request
      nrRequests := s.nrRequests + 1 } s.nrRequests := by
  refine ⟨Nat.lt_succ_self _, by simp [Command.request], ?_, ?_, ?_⟩
  · rintro j (hj | ⟨f1, hf1, hnext⟩)
    · exact absurd ((h.items j).refs _ hj).lt (lt_irrefl _)
    · have hlt := ((h.items j).refs f1 hf1).lt
      dsimp only at hnext
      rw [Function.update_of_ne hlt.ne] at hnext
      exact absurd (((h.items j).refs f1 hf1).link _ hnext).lt (lt_irrefl _)
  · exact fun hmem => absurd (h.delayReq _ hmem).1 (lt_irrefl _)
  · intro io hio hk heq
    have hlt := (h.plainReq io hio hk).1
    rw [heq] at hlt
    exact absurd hlt (lt_irrefl _)

theorem arrive_spec {c : Command} (h : Inv s.toTable) :
    wp (fun _ => True) (arrive E c) (fun _ s' => Inv s'.toTable) s := by
  unfold arrive
  rw [wp_bind, wp_get, wp_bind, wp_modify, wp_bind]
  have hinv := h.newRequest c.request
  have hfresh := h.fresh_newRequest c
  generalize hs₁ : FuseMap.mk _ _ _ _ _ _ = s₁
  have htable : s₁.toTable = { s.toTable with
      requests := Function.update s.requests s.nrRequests c.request
      nrRequests := s.nrRequests + 1 } := by
    rw [← hs₁]
    rfl
  rw [← htable] at hinv hfresh
  cases hop : (s₁.requests s.nrRequests).opc.isPlain with
  | true =>
    refine wp_mono (dflyFuseReqProcess_plain hinv hop hfresh.lt hfresh.notDelayed hfresh.notFlying)
      fun b s₂ h₂ => ?_
    rw [wp_ite]
    refine ⟨fun hb => ?_, fun _ => h₂.1⟩
    obtain ⟨i, hi⟩ := h₂.2 hb
    exact hi.forward
  | false =>
    refine wp_mono (dflyFuseReqProcess_fused hinv hfresh hop) fun b s₂ h₂ => ?_
    rw [h₂.2, if_neg (by simp)]
    exact h₂.1

theorem dflyFuseGenericPoll_spec (h : Inv s.toTable) :
    wp (fun _ => True) (dflyFuseGenericPoll E) (fun _ s' => Inv s'.toTable) s := by
  unfold dflyFuseGenericPoll
  rw [wp_bind, wp_get]
  cases hd : s.wpDelayQueue with
  | nil => exact h
  | cons r rs =>
    dsimp only
    rw [wp_bind, wp_modify, wp_bind]
    have hsub : rs.Sublist s.wpDelayQueue := by
      rw [hd]
      exact List.sublist_cons_self r rs
    have hinv := h.dropDelay hsub
    have hmem : r ∈ s.wpDelayQueue := by
      rw [hd]
      exact List.mem_cons_self
    have hnot : r ∉ rs := by
      have hnodup := h.delayNodup
      rw [hd] at hnodup
      exact (List.nodup_cons.1 hnodup).1
    obtain ⟨hlt, hop | ⟨hop, hnext, hdata⟩⟩ := h.delayReq r hmem
    · refine wp_mono (dflyFuseReqProcess_plain (s := { s with wpDelayQueue := rs }) hinv hop hlt hnot
        (h.delayFlight r hmem)) fun b s' h' => h'.1
    · obtain ⟨i, hi⟩ := Option.ne_none_iff_exists'.1 hdata
      obtain ⟨hreq, hidle⟩ := (h.items i).delayed r ⟨hmem, hop, hi⟩
      have hheld : (s.items i).Holds r := Or.inr hreq
      have hon := hinv.on_of_active (i := i) hheld.active
      -- another pair of the item in the queue would be this one
      have hclear : Traffic.Clear { s with wpDelayQueue := rs }.toTraffic i := by
        rintro r' ⟨hmem', hop', hdata'⟩
        have hreq' := ((h.items i).delayed r' ⟨hsub.subset hmem', hop', hdata'⟩).1
        rw [hreq, Option.some.injEq] at hreq'
        subst hreq'
        exact hnot hmem'
      refine wp_mono (dflyFuseReqProcess_retried (s := { s with wpDelayQueue := rs }) (i := i)
        ⟨⟨hon, hclear, hidle⟩, hreq, hop, hnext, hi⟩) fun b s' h' => h'.1

end

end DssSdk.Fuse
