import DssSdk.Fuse.Exclusion

/-!
# Fused pairs are atomic

The other events of the module, and what holds after every run of it.

* `ioDone_spec`, `expire_spec`, `dflyReqFini_spec`: commands that come back, requests whose time is
  over, and requests that are given back;
* `Settled`: the condition on a step, that a request is not given back while its item counts plain
  writes;
* `atomic_of_run`: pairs are atomic in every state of a run whose steps meet it.
-/

namespace DssSdk.Fuse

open Program

section

variable {s : Table} {i : ItemRef}

/-- An item that refers to a request of the key of `i` is `i`. -/
theorem On.eq_of_refers (h : On s i) {r : ℕ} (hkey : (s.requests r).key = (s.items i).key)
    {j : ItemRef} (hj : s.Refers j r) : j = i := by
  rcases hj with hj | ⟨f1, hf1, hnext⟩
  · exact h.claim j hj.active (((h.items j).refs r hj).key.symm.trans hkey)
  · have hlink := ((h.items j).refs f1 hf1).link r hnext
    exact h.claim j hf1.active (hlink.key.symm.trans hkey)

theorem Inv.plain_returned (h : Inv s) {n : ℕ} {io : Io} (hn : s.flight[n]? = some io)
    (hk : io.kind = .plain) :
    Ready { s with flight := s.flight.eraseIdx n } io.item ∧
      ((s.flight.eraseIdx n).filter fun x => !x.fused && x.item == io.item).length <
        (s.items io.item).refCnt ∧
      ∀ x ∈ s.flight.eraseIdx n, x.kind = .plain → x.req ≠ io.req := by
  obtain ⟨hlt, rfl⟩ := List.getElem?_eq_some_iff.1 hn
  have hperm := List.getElem_cons_eraseIdx_perm hlt
  generalize hio : s.flight[n] = io at *
  have hf : io.fused = false := by simp [Io.fused, hk]
  have hmem : io ∈ s.flight := List.mem_of_getElem? hn
  have hi := h.items io.item
  have hcount : ((s.flight.eraseIdx n).filter fun x => !x.fused && x.item == io.item).length <
      (s.items io.item).refCnt := by
    have hlen := (hperm.filter fun x => !x.fused && x.item == io.item).length_eq
    rw [List.filter_cons_of_pos (by simp [hf]), List.length_cons] at hlen
    exact lt_of_lt_of_le (by omega) (hlen.le.trans hi.plain)
  have hnone := hi.exclusive (by omega)
  have hon := (h.dropFlight (List.eraseIdx_sublist (l := s.flight) n)).on_of_active (i := io.item)
    (hi.active_of_flight hmem rfl)
  refine ⟨⟨hon, hi.clear hnone, (hon.items io.item).fusedOn_eq_nil hnone⟩, hcount, ?_⟩
  intro x hx hxk heq
  have hnodup := ((hperm.filter fun x => !x.fused).map Io.req).nodup_iff.2 h.plainNodup
  rw [List.filter_cons_of_pos (by simp [hf]), List.map_cons, List.nodup_cons] at hnodup
  refine hnodup.1 (List.mem_map.2 ⟨x, List.mem_filter.2 ⟨hx, ?_⟩, heq⟩)
  simp [Io.fused, hxk]

theorem Inv.fused_returned (h : Inv s) {n : ℕ} {io : Io} (hn : s.flight[n]? = some io)
    (hf : io.fused = true) :
    Ready { s with flight := s.flight.eraseIdx n } io.item ∧
      (s.items io.item).fuseReq ≠ none := by
  obtain ⟨hlt, rfl⟩ := List.getElem?_eq_some_iff.1 hn
  have hperm := List.getElem_cons_eraseIdx_perm hlt
  generalize hio : s.flight[n] = io at *
  have hmem : io ∈ s.flight := List.mem_of_getElem? hn
  have hi := h.items io.item
  have hne : s.fusedOn io.item ≠ [] := List.ne_nil_of_mem (mem_fusedOn.2 ⟨hmem, hf, rfl⟩)
  have hon := (h.dropFlight (List.eraseIdx_sublist (l := s.flight) n)).on_of_active (i := io.item)
    (hi.active_of_flight hmem rfl)
  refine ⟨⟨hon, hi.clear_of_fused hne, ?_⟩, hi.fused hne⟩
  have hlen := (hperm.filter fun x => x.fused && x.item == io.item).length_eq
  rw [List.filter_cons_of_pos (by simp [hf]), List.length_cons] at hlen
  have hsingle := hi.single
  unfold Traffic.fusedOn at hsingle ⊢
  exact List.eq_nil_of_length_eq_zero (by dsimp only; omega)

end

section

variable {E : Env} {s : FuseMap} {i : ItemRef}

theorem putKeyBuff_spec {key : List UInt8} :
    wp (fun _ => True) (putKeyBuff i key) (fun _ s' => Rebuffed i s.toTable s'.toTable) s := by
  unfold putKeyBuff
  rw [wp_ite]
  refine ⟨fun _ => ?_, fun _ => Rebuffed.refl _ _⟩
  simp only [wp_bind, wp_getItem, wp_check, wp_modifyItem]
  refine ⟨fun _ => ?_, fun _ => trivial⟩
  exact Rebuffed.setItem s i (s.items i).f1ReadVal false (s.items i).readAt

theorem dflyKvPoolFuseComplete_spec {success : Bool} (h : Ready s.toTable i) :
    wp (fun _ => True) (dflyKvPoolFuseComplete E i success) (fun _ s' => Inv s'.toTable) s := by
  unfold dflyKvPoolFuseComplete
  rw [wp_bind, wp_getItem, wp_bind]
  refine wp_mono putKeyBuff_spec fun _ s₁ hs₁ => ?_
  have h₁ := h.rebuffed hs₁
  rw [wp_bind, wp_getItem]
  cases hr : (s₁.items i).fuseReq with
  | none => trivial
  | some r =>
    dsimp only
    rw [wp_bind, wp_modifyRequest]
    have href := (h₁.items i).refs r (Or.inr hr)
    have hdelay := h₁.toOn.not_delayed h₁.clear href.key href.opc
    have hinv : Inv (s₁.setRequest r { s₁.requests r with fuseData := some i }).toTable := by
      refine h₁.toInv.setData rfl rfl href.opc ?_ ?_ hdelay
      · intro j hj
        exact absurd hj (h₁.toOn.not_waiting href.key ((h₁.items i).notWaiting r hr) j)
      · intro j hj
        rw [h₁.toOn.eq_of_refers href.key hj]
        exact Or.inr rfl
    have hready : Ready (s₁.setRequest r { s₁.requests r with fuseData := some i }).toTable i := by
      refine ⟨⟨hinv, h₁.claim, h₁.place⟩, ?_, h₁.idle⟩
      rintro r' ⟨hmem, hcmp, hfd⟩
      have hne : r' ≠ r := fun heq => hdelay (heq ▸ hmem)
      simp only [FuseMap.setRequest, Function.update_of_ne hne] at hcmp hfd
      exact h₁.clear r' ⟨hmem, hcmp, hfd⟩
    refine wp_mono (dflyFuseComplete_spec hready (by simp) ?_) fun _ s' h' => h'.1.toInv
    intro hpos
    rw [hready.refCnt_eq_zero hr] at hpos
    cases hpos

theorem dflyFuseWalComplete_spec {r : ℕ} {success : Bool} (h : Ready s.toTable i)
    (hr : (s.items i).fuseReq = some r) :
    wp (fun _ => True)
      (do dflyFuseWalComplete i
          if (← getRequest r).fuseData ≠ none then parentComplete E r success
          else throw .nullPointer) (fun _ s' => Inv s'.toTable) s := by
  unfold dflyFuseWalComplete parentComplete
  rw [wp_bind, wp_bind, wp_getItem, hr]
  dsimp only
  rw [wp_bind, wp_getRequest]
  refine wp_mono putKeyBuff_spec fun _ s₁ hs₁ => ?_
  have h₁ := h.rebuffed hs₁
  have hr₁ : (s₁.items i).fuseReq = some r := hs₁.fuseReq.trans hr
  have href := (h₁.items i).refs r (Or.inr hr₁)
  rw [wp_bind, wp_getRequest, wp_ite]
  refine ⟨fun hdata => ?_, fun _ => trivial⟩
  have hdata' : (s₁.requests r).fuseData = some i := href.here.resolve_left hdata
  rw [wp_bind]
  refine wp_mono (dflyFuseComplete_spec h₁ hdata' ?_) fun _ s₂ h₂ => ?_
  · intro hpos
    rw [h₁.refCnt_eq_zero hr₁] at hpos
    cases hpos
  · obtain ⟨hon₂, hk₂⟩ := h₂
    have hkey₂ : (s₂.requests r).key = (s₂.items i).key := by
      rw [hk₂.key, show (s₂.requests r).key = (s₁.requests r).key from
        congrArg Command.key (hk₂.command r)]
      exact href.key
    rw [wp_modifyRequest]
    refine hon₂.toInv.setData rfl rfl ?_ ?_ (fun _ _ => Or.inl rfl) ?_
    · rw [show (s₂.requests r).opc = (s₁.requests r).opc from
        congrArg Command.opc (hk₂.command r)]
      exact href.opc
    · intro j hj
      refine absurd hj (hon₂.not_waiting hkey₂ (fun hw => ?_) j)
      exact (h₁.items i).notWaiting r hr₁ (hk₂.waiting.subset hw)
    · rw [hk₂.delay]
      exact h₁.toOn.not_delayed h₁.clear href.key href.opc

theorem plainDone_spec {r : ℕ} {success : Bool} {code : StatusCode} (h : Ready s.toTable i)
    (hop : (s.requests r).opc.isPlain = true) (hdata : (s.requests r).fuseData = some i)
    (hcount : (s.plainOn i).length < (s.items i).refCnt)
    (hfree : ∀ x ∈ s.flight, x.kind = .plain → x.req ≠ r) :
    wp (fun _ => True)
      (do if (← getRequest r).fuseData ≠ none then parentComplete E r success
          nvmfComplete r code) (fun _ s' => Inv s'.toTable) s := by
  unfold parentComplete nvmfComplete
  rw [wp_bind, wp_getRequest, if_pos (by simp [hdata]), wp_bind, wp_bind]
  refine wp_mono (dflyFuseComplete_spec h hdata fun _ => ⟨hcount, hfree⟩) fun _ s₁ h₁ => ?_
  obtain ⟨hon₁, hk₁⟩ := h₁
  rw [wp_modifyRequest, wp_modify]
  refine hon₁.toInv.setPlain rfl ?_ fun io hio hk => hfree io (hk₁.plain io hio hk) hk
  rw [show (s₁.requests r).opc = (s.requests r).opc from congrArg Command.opc (hk₁.command r)]
  exact hop

/-- A command comes back. -/
theorem ioDone_spec {n : ℕ} {success : Bool} {data : List UInt8} (h : Inv s.toTable) :
    wp (fun _ => True) (ioDone E n success data) (fun _ s' => Inv s'.toTable) s := by
  unfold ioDone
  rw [wp_bind, wp_get]
  cases hn : s.flight[n]? with
  | none => exact h
  | some io =>
    dsimp only
    rw [wp_bind, wp_modify]
    have hmem : io ∈ s.flight := List.mem_of_getElem? hn
    generalize hs₁ : FuseMap.mk _ _ _ _ _ _ = s₁
    have htable : s₁.toTable = { s.toTable with flight := s.flight.eraseIdx n } := by rw [← hs₁]
    have hfused : io.fused = true →
        Ready s₁.toTable io.item ∧ (s₁.items io.item).fuseReq ≠ none := by
      intro hf
      rw [htable]
      exact h.fused_returned hn hf
    unfold dflyFuseReqComplete
    cases hk : io.kind with
    | plain =>
      obtain ⟨hready, hcount, hfree⟩ := h.plain_returned hn hk
      obtain ⟨_, hop, hdata⟩ := h.plainReq io hmem hk
      rw [← htable] at hready
      have hreqs : s₁.requests = s.requests := by rw [htable]
      refine plainDone_spec hready ?_ ?_ ?_ ?_
      · rw [hreqs]
        exact hop
      · rw [hreqs]
        exact hdata
      · unfold Traffic.plainOn
        rw [htable]
        exact hcount
      · rw [htable]
        exact hfree
    | retrieve =>
      dsimp only
      rw [wp_bind, wp_modifyItem]
      refine dflyKvPoolFuseComplete_spec ((hfused (by simp [Io.fused, hk])).1.rebuffed ?_)
      exact Rebuffed.setItem s₁ io.item _ (s₁.items io.item).largeKeyBuff
        (s₁.items io.item).readAt
    | write => exact dflyKvPoolFuseComplete_spec (hfused (by simp [Io.fused, hk])).1
    | walWrite =>
      have hf : io.fused = true := by simp [Io.fused, hk]
      have hreq : (s₁.items io.item).fuseReq = some io.req := by
        rw [htable]
        exact (h.items io.item).wal io (mem_fusedOn.2 ⟨hmem, hf, rfl⟩) hk
      exact dflyFuseWalComplete_spec (hfused hf).1 hreq

theorem Inv.setWaiting {s : Table} {l : List ℕ} (h : Inv s) (hl : l.Sublist (s.items i).waiting) :
    Inv { s with items := Function.update s.items i { s.items i with waiting := l } } := by
  cases ha : (s.items i).active with
  | false =>
    obtain ⟨-, hnil, -⟩ := Item.not_active ha
    rw [hnil, List.sublist_nil] at hl
    have heq : { s.items i with waiting := l } = s.items i := by rw [hl, ← hnil]
    rw [heq, Function.update_eq_self]
    exact h
  | true =>
    have hi := h.items i
    have hit : ItemOk s.toTraffic i { s.items i with waiting := l } := by
      refine hi.update rfl hl hi.exclusive hi.plain (Or.inl rfl) fun r hr => ?_
      exact ⟨fun hmem => hi.notWaiting r hr (hl.subset hmem), Or.inl (Or.inr hr)⟩
    exact ((h.on_of_active ha).setItem hit rfl).toInv

/-- A request whose time is over. -/
theorem expire_spec (h : Inv s.toTable) :
    wp (fun _ => True) expire (fun _ s' => Inv s'.toTable) s := by
  unfold expire
  rw [wp_bind, wp_get]
  cases s.wpPendingQueue with
  | nil => exact h
  | cons r rs =>
    dsimp only
    unfold dropWaiting nvmfComplete
    rw [wp_bind, wp_modify, wp_bind, wp_bind, wp_getRequest]
    dsimp only
    cases (s.requests r).fuseData with
    | none => exact h
    | some i =>
      dsimp only
      rw [wp_bind, wp_getItem, wp_bind, wp_check]
      refine ⟨fun _ => ?_, fun _ => trivial⟩
      rw [wp_ite]
      refine ⟨fun _ => ?_, fun _ => trivial⟩
      exact h.setWaiting List.erase_sublist

/-- The memory of a request is given back when its item counts no plain write. -/
theorem dflyReqFini_spec {r : ℕ} (h : Inv s.toTable)
    (hok : ∀ i, (s.requests r).fuseData = some i → (s.items i).refCnt = 0) :
    wp (fun _ => True) (dflyReqFini r) (fun _ s' => Inv s'.toTable) s := by
  unfold dflyReqFini
  rw [wp_bind, wp_get, wp_ite]
  refine ⟨fun _ => ?_, fun _ => h⟩
  have hfree : ∀ io ∈ s.flight, io.kind = .plain → io.req ≠ r := by
    rintro io hio hk rfl
    have hmem : io ∈ s.plainOn io.item := mem_plainOn.2 ⟨hio, by simp [Io.fused, hk], rfl⟩
    have hle := (h.items io.item).plain
    rw [hok io.item (h.plainReq io hio hk).2.2] at hle
    exact absurd (List.length_pos_of_mem hmem) (by omega)
  cases hdata : (s.requests r).fuseData with
  | none =>
    dsimp only
    rw [wp_modifyRequest]
    refine h.setRequest rfl ?_ ?_ (fun _ _ => Or.inl rfl) (fun f2 hf2 => (by cases hf2)) ?_
    · exact fun io hio hk heq => absurd heq (hfree io hio hk)
    · intro j hj
      rw [(h.items j).waiting r hj] at hdata
      cases hdata
    · intro hmem
      obtain ⟨_, hp | ⟨_, _, hne⟩⟩ := h.delayReq r hmem
      · exact Or.inl hp
      · exact absurd hdata hne
  | some i =>
    dsimp only
    unfold dflyFuseRelease
    have hcnt := hok i hdata
    have hdelay := h.dropDelay (s.wpDelayQueue.filter_sublist (p := fun x => decide (x ≠ r)))
    have hwait := hdelay.setWaiting (i := i)
      ((s.items i).waiting.filter_sublist (p := fun x => decide (x ≠ r)))
    simp only [wp_bind, wp_modifyItem, wp_modify, wp_modifyRequest]
    rw [show (s.items i).refCnt - 1 = (s.items i).refCnt by omega]
    refine hwait.setRequest rfl ?_ ?_ (fun _ _ => Or.inl rfl) (fun f2 hf2 => (by cases hf2)) ?_
    · exact fun io hio hk heq => absurd heq (hfree io hio hk)
    · intro j hj
      exfalso
      by_cases hji : j = i
      · subst hji
        simp at hj
      · dsimp only at hj
        rw [Function.update_of_ne hji] at hj
        have hj' := (h.items j).waiting r hj
        rw [hdata, Option.some.injEq] at hj'
        exact hji hj'.symm
    · intro hmem
      simp at hmem

/-! ### Runs -/

/-- The condition on a step: a request is given back only when the item that it still names counts
no plain write. -/
def Settled (s : FuseMap) : Event → Prop
  | .fini r => ∀ i, (s.requests r).fuseData = some i → (s.items i).refCnt = 0
  | _ => True

instance decidableSettled (s : FuseMap) : ∀ e, Decidable (Settled s e)
  | .fini r =>
      match h : (s.requests r).fuseData with
      | none => isTrue fun i hi => by rw [h] at hi; cases hi
      | some i =>
          decidable_of_iff ((s.items i).refCnt = 0)
            ⟨fun hc j hj => by rw [h, Option.some.injEq] at hj; exact hj ▸ hc, fun hc => hc i h⟩
  | .arrive _ => isTrue trivial
  | .ioDone _ _ _ => isTrue trivial
  | .poll => isTrue trivial
  | .expire => isTrue trivial

/-- Every step keeps the invariant. -/
theorem Inv.step {e : Event} {s' : FuseMap} (h : Inv s.toTable) (hok : Settled s e)
    (hs : step E s e = some s') : Inv s'.toTable := by
  rw [step_eq_some] at hs
  have hspec : wp (fun _ => True) (handle E e) (fun _ s' => Inv s'.toTable) s := by
    cases e with
    | arrive c => exact arrive_spec h
    | ioDone n success data => exact ioDone_spec h
    | poll => exact dflyFuseGenericPoll_spec h
    | expire => exact expire_spec h
    | fini r => exact dflyReqFini_spec h hok
  exact wp_ok hspec hs

theorem inv_fuseMapCreate : Inv fuseMapCreate.toTable := by
  constructor
  · intro i
    constructor
    all_goals simp [fuseMapCreate, Item.clean, Traffic.plainOn, Traffic.fusedOn, Item.Holds,
      Traffic.Delayed]
  · intro i i' hi
    simp [fuseMapCreate, Item.clean, Item.active] at hi
  · intro i hi
    simp [fuseMapCreate, Item.clean, Item.active] at hi
  all_goals simp [fuseMapCreate]

/-- Fused pairs are atomic in every run in which no request is given back while the item it names
counts plain writes. -/
theorem atomic_of_run (E : Env) {acts : List Event} {s : FuseMap}
    (hok : Run.Admissible (step E) Settled fuseMapCreate acts)
    (hrun : Run.run (step E) fuseMapCreate acts = some s) : Atomic s.toTable := by
  have h : Inv s.toTable := Run.run_inv
    (fun _ _ _ (h : Inv (FuseMap.toTable _)) hok hs => h.step hok hs) inv_fuseMapCreate hok hrun
  exact h.atomic

end

/-- A target without the log, with key buffers, and without timeouts. -/
def plainEnv : Env := ⟨false, 0, 0, fun _ => true, fun _ => none, fun _ => [8]⟩

/-- A command of the first queue pair for the key of one byte `107`, with a value of one byte. -/
def oneByteCommand (opc : Opc) (value : UInt8) (ioSeqNo : UInt32) : Command :=
  ⟨opc, [107], ⟨[value], 1, 0⟩, 0, ioSeqNo⟩

/-- A pair comes while a plain write is under way, and a plain write while the pair is; the first
request is given back in between. -/
def writeAroundPair : List Event :=
  [.arrive (oneByteCommand .store 5 0), .arrive (oneByteCommand .storeFuse2 9 2),
    .arrive (oneByteCommand .cmp 5 1), .ioDone 0 true [], .fini 0,
    .arrive (oneByteCommand .delete 0 3), .ioDone 0 true [5]]

theorem atomic_of_writeAroundPair :
    ∃ s, Run.run (step plainEnv) fuseMapCreate writeAroundPair = some s ∧
      s.flight.map Io.kind = [.write] ∧ Atomic s.toTable := by
  obtain ⟨s, hs⟩ : ∃ s, Run.run (step plainEnv) fuseMapCreate writeAroundPair = some s :=
    Option.isSome_iff_exists.1 (by decide +kernel)
  have hkinds : (Run.run (step plainEnv) fuseMapCreate writeAroundPair).map
      (fun s => s.flight.map Io.kind) = some [.write] := by decide +kernel
  rw [hs, Option.map_some, Option.some.injEq] at hkinds
  exact ⟨s, hs, hkinds, atomic_of_run plainEnv (by decide +kernel) hs⟩

/-- A comparison fails, and its request is given back after the next plain write went on: the item
counts no plain write then, and the next pair starts. The plain write that comes back is taken for
its read, and the read buffer still holds the value of the first comparison. When the read comes
back the item is free for plain writes, with the write of the pair under way. -/
def failedPairGivenBack : List Event :=
  [.arrive (oneByteCommand .cmp 7 0), .arrive (oneByteCommand .storeFuse2 9 1),
    .ioDone 0 true [8], .arrive (oneByteCommand .store 5 2), .fini 0,
    .arrive (oneByteCommand .cmp 8 3), .arrive (oneByteCommand .storeFuse2 9 4),
    .ioDone 0 true [], .ioDone 0 true [5], .arrive (oneByteCommand .store 6 5)]

theorem not_atomic_failedPairGivenBack :
    ¬ ∀ (E : Env) (acts : List Event) (s : FuseMap),
      Run.run (step E) fuseMapCreate acts = some s → Atomic s.toTable := by
  intro hall
  have hflight : (Run.run (step plainEnv) fuseMapCreate failedPairGivenBack).map
      (fun s => s.flight) = some
        [⟨.write, (107, 0), 4, some [107], [107], 5, 3⟩,
          ⟨.plain, (107, 0), 5, some [107], [107], 6, 3⟩] := by decide +kernel
  obtain ⟨s, hs, hs'⟩ := Option.map_eq_some_iff.1 hflight
  have hno := (hall plainEnv failedPairGivenBack s hs).noOtherWrite
  rw [hs'] at hno
  have heq := hno _ List.mem_cons_self rfl _ (List.mem_cons_of_mem _ List.mem_cons_self) rfl rfl
    (by decide)
  cases heq

end DssSdk.Fuse
