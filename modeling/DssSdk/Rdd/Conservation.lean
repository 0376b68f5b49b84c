import DssSdk.Rdd.Queue
import DssSdk.Lib.Run

/-!
# Data-direct requests are conserved

Every request that a queue accepted waits in one place or is finished.

* `places`, `Conserved`: the ring, the pending list and the slots, with the finished requests they
  make up the accepted ones;
* `Possible`: what the verbs, the messages of a thread and the callers of a post rule out;
* `Harmless`: the events after which no request is lost or mixed up;
* `requests_conserved_of_run`: in every run of such events the requests are conserved.

A disconnected queue drains the ring and the pending list, but not the slots. A send that fails leaves
its slot in use, and a receive that fails is taken for the request of an old response.
-/

namespace DssSdk.Rdd

open scoped List

variable {conf : Conf} {info : Req → ReqInfo} {q : Queue}

/-- The requests with a slot. -/
def slotReqs (reqs : ℕ → Slot) (l : List ℕ) : List Req := l.filterMap fun i => (reqs i).ctx

/-- The requests that wait. -/
def places (q : Queue) : List Req :=
  q.ring.getD [] ++ q.pending ++ slotReqs q.reqs q.outstandingReqs

/-- Every accepted request waits in one place or is finished; the slots are free or in use; a slot in
use has a completion to come, which finishes its own request; and a destroyed queue has finished
all. -/
structure Conserved (conf : Conf) (q : Queue) : Prop where
  once : (places q).Nodup
  account : q.accepted.Perm (places q ++ q.finished.map Finish.req)
  slots : (q.freeReqs ++ q.outstandingReqs).Perm (List.range conf.sendQd)
  qd : q.outstandingQd = q.outstandingReqs.length
  coming : ∀ i ∈ q.outstandingReqs, ∃ r, (q.reqs i).ctx = some r ∧
    (i, r) ∈ q.dataWrs ++ q.hostCmds
  origin : ∀ f ∈ q.finished, ∀ o, f.origin = .wc o → o = some f.req
  destroyed : q.destroyed = true → places q = []

/-- A request that `rdd_dss_process_pending` can post. -/
def Supported (conf : Conf) (info : Req → ReqInfo) (r : Req) : Prop :=
  (info r).opc = cmdHostRead ∧ (info r).payloadLen ≤ rdmaMaxKeyedSglLength ∨
    ((info r).opc = cmdCtrlWrite ∨ (info r).opc = cmdCtrlRead) ∧
      (info r).payloadLen ≤ conf.maxSglSegs * maxRddSegSize % 2 ^ 32

/-- The events that can happen: the poller is started once and before the disconnect, a request is not
posted while it waits, and a completion belongs to a posted work request; a response names a
command that waits for it. -/
def Possible (q : Queue) : Event → Prop
  | .established => True
  | .startPoller => q.state = .connecting ∨ q.state = .established
  | .post r => r ∉ q.posting ++ places q
  | .submit r => r ∈ q.posting
  | .poll => q.pollerOn = true
  | .completion (.send i r _) => q.pollerOn = true ∧ (i, r) ∈ q.sendWrs
  | .completion (.data i r _) => q.pollerOn = true ∧ (i, r) ∈ q.dataWrs
  | .completion (.recv rsp cid r ok) =>
      q.pollerOn = true ∧ rsp ∈ q.recvWrs ∧ (ok = true → (cid, r) ∈ q.hostCmds)
  | .disconnect => q.pollerOn = true
  | .shutdown => q.state = .disconnecting ∧ q.destroyed = false

/-- The events that keep every request: supported requests with room in the ring, sends that succeed,
failed receives into a buffer whose last response names no slot in use, and a disconnect without
a slot in use. -/
def Harmless (conf : Conf) (info : Req → ReqInfo) (q : Queue) : Event → Prop
  | .post r => Supported conf info r
  | .submit _ => (q.ring.getD []).length < ringCapacity
  | .completion (.send _ _ ok) => ok = true
  | .completion (.recv rsp _ _ ok) => ok = false → (q.reqs (q.rspCid rsp)).ctx = none
  | .disconnect => q.outstandingReqs = []
  | _ => True

instance (conf : Conf) (info : Req → ReqInfo) (r : Req) : Decidable (Supported conf info r) :=
  inferInstanceAs (Decidable (_ ∧ _ ∨ (_ ∨ _) ∧ _))

instance (q : Queue) : (ev : Event) → Decidable (Possible q ev)
  | .established => isTrue trivial
  | .startPoller => inferInstanceAs (Decidable (_ ∨ _))
  | .post _ => inferInstanceAs (Decidable (¬ _))
  | .submit r => inferInstanceAs (Decidable (r ∈ q.posting))
  | .poll => inferInstanceAs (Decidable (_ = _))
  | .completion (.send _ _ _) => inferInstanceAs (Decidable (_ ∧ _))
  | .completion (.data _ _ _) => inferInstanceAs (Decidable (_ ∧ _))
  | .completion (.recv _ _ _ _) => inferInstanceAs (Decidable (_ ∧ _ ∧ (_ → _)))
  | .disconnect => inferInstanceAs (Decidable (_ = _))
  | .shutdown => inferInstanceAs (Decidable (_ ∧ _))

instance (conf : Conf) (info : Req → ReqInfo) (q : Queue) :
    (ev : Event) → Decidable (Harmless conf info q ev)
  | .established => isTrue trivial
  | .startPoller => isTrue trivial
  | .post r => inferInstanceAs (Decidable (Supported conf info r))
  | .submit _ => inferInstanceAs (Decidable (_ < _))
  | .poll => isTrue trivial
  | .completion (.send _ _ _) => inferInstanceAs (Decidable (_ = _))
  | .completion (.data _ _ _) => isTrue trivial
  | .completion (.recv _ _ _ _) => inferInstanceAs (Decidable (_ → _ = _))
  | .disconnect => inferInstanceAs (Decidable (_ = []))
  | .shutdown => isTrue trivial

/-! ### Slots -/

theorem slotReqs_append (reqs : ℕ → Slot) (l l' : List ℕ) :
    slotReqs reqs (l ++ l') = slotReqs reqs l ++ slotReqs reqs l' :=
  List.filterMap_append

theorem slotReqs_update {reqs : ℕ → Slot} {l : List ℕ} {i : ℕ} (hi : i ∉ l) (s : Slot) :
    slotReqs (Function.update reqs i s) l = slotReqs reqs l := by
  unfold slotReqs
  refine List.filterMap_congr fun j hj => ?_
  rw [Function.update_of_ne]
  rintro rfl
  exact hi hj

theorem slotReqs_ctx {reqs reqs' : ℕ → Slot} (h : ∀ i, (reqs' i).ctx = (reqs i).ctx) (l : List ℕ) :
    slotReqs reqs' l = slotReqs reqs l := by
  unfold slotReqs
  exact List.filterMap_congr fun i _ => h i

/-- The pairs of the slots in use and their requests. -/
def slotPairs (reqs : ℕ → Slot) (l : List ℕ) : List (ℕ × Option Req) :=
  l.map fun i => (i, (reqs i).ctx)

theorem slotPairs_append (reqs : ℕ → Slot) (l l' : List ℕ) :
    slotPairs reqs (l ++ l') = slotPairs reqs l ++ slotPairs reqs l' :=
  List.map_append

theorem slotPairs_update {reqs : ℕ → Slot} {l : List ℕ} {i : ℕ} (hi : i ∉ l) (s : Slot) :
    slotPairs (Function.update reqs i s) l = slotPairs reqs l := by
  unfold slotPairs
  refine List.map_congr_left fun j hj => ?_
  rw [Function.update_of_ne]
  rintro rfl
  exact hi hj

/-- The segments of `rdd_update_sgl_payload` take a value that fits. -/
theorem sglSegments_rest {l segs : ℕ} (h : l ≤ segs * maxRddSegSize) : (sglSegments l segs).2 = 0 := by
  induction segs generalizing l with
  | zero =>
    show l = 0
    omega
  | succ segs ih =>
    unfold sglSegments
    split_ifs with h0 h1
    · rfl
    · dsimp only
      rw [Nat.sub_self]
      exact ih (Nat.zero_le _)
    · dsimp only
      refine ih ?_
      rw [Nat.succ_mul] at h
      omega

/-! ### The invariant -/

/-- The order of the phases: the ring is there between the start of the poller and the shutdown, and
from the disconnect on no slot is in use. -/
structure Phase (q : Queue) : Prop where
  ring : q.ring = none ↔ q.destroyed = true ∨ q.state = .connecting ∨ q.state = .established
  disconnecting : q.state = .disconnecting → q.pollerOn = false ∧ q.outstandingReqs = []
  frozen : q.frozen = true ↔ q.state = .disconnecting
  poller : q.pollerOn = true → q.ring ≠ none
  destroyed : q.destroyed = true → q.state = .disconnecting ∧ q.posting = [] ∧ q.pending = []

/-- What holds in every state of a run. -/
structure QueueInv (conf : Conf) (info : Req → ReqInfo) (q : Queue) : Prop where
  fresh : (q.posting ++ places q).Nodup
  account : q.accepted.Perm (places q ++ q.finished.map Finish.req)
  slots : (q.freeReqs ++ q.outstandingReqs).Perm (List.range conf.sendQd)
  qd : q.outstandingQd = q.outstandingReqs.length
  wrs : ((q.dataWrs ++ q.hostCmds).map fun p => (p.1, some p.2)).Perm
    (slotPairs q.reqs q.outstandingReqs)
  cuid : ∀ i ∈ q.outstandingReqs, ∀ r, (q.reqs i).ctx = some r → q.reqCuid r = (q.reqs i).cuid
  supported : ∀ r ∈ q.posting ++ q.ring.getD [] ++ q.pending, Supported conf info r
  origin : ∀ f ∈ q.finished, ∀ o, f.origin = .wc o → o = some f.req
  phase : Phase q

theorem QueueInv.conserved (h : QueueInv conf info q) : Conserved conf q := by
  refine ⟨(List.nodup_append.1 h.fresh).2.1, h.account, h.slots, h.qd, fun i hi => ?_, h.origin,
    fun hd => ?_⟩
  · have hmem : (i, (q.reqs i).ctx) ∈ (q.dataWrs ++ q.hostCmds).map fun p => (p.1, some p.2) :=
      h.wrs.mem_iff.2 (List.mem_map.2 ⟨i, hi, rfl⟩)
    obtain ⟨⟨j, r⟩, hjr, heq⟩ := List.mem_map.1 hmem
    obtain ⟨rfl, hr⟩ := Prod.mk.inj heq
    exact ⟨r, hr.symm, hjr⟩
  · obtain ⟨hs, -, hp⟩ := h.phase.destroyed hd
    unfold places
    rw [h.phase.ring.2 (Or.inl hd), hp, (h.phase.disconnecting hs).2]
    rfl

theorem queueInv_connect (conf : Conf) (info : Req → ReqInfo) :
    QueueInv conf info (queueConnect conf) := by
  refine ⟨List.nodup_nil, List.Perm.nil, ?_, rfl, List.Perm.nil, ?_, ?_, ?_, ?_⟩
  · show (List.range conf.sendQd ++ []).Perm _
    rw [List.append_nil]
  · intro i hi
    cases hi
  · intro r hr
    cases hr
  · intro f hf
    cases hf
  · refine ⟨⟨fun _ => Or.inr (Or.inl rfl), fun _ => rfl⟩, fun h => ?_, ⟨fun h => ?_, fun h => ?_⟩,
      fun h => ?_, fun h => ?_⟩
    · cases h
    · cases h
    · cases h
    · cases h
    · cases h

theorem QueueInv.nodup (h : QueueInv conf info q) : (q.freeReqs ++ q.outstandingReqs).Nodup :=
  h.slots.nodup_iff.2 List.nodup_range

/-! ### Posting -/

theorem post_inv (h : QueueInv conf info q) {r : Req} (hr : r ∉ q.posting ++ places q)
    (hsup : Supported conf info r) : QueueInv conf info (postReq2queue q r).1 := by
  unfold postReq2queue
  split_ifs with hfrozen
  · exact h
  · push Not at hfrozen
    refine ⟨?_, h.account, h.slots, h.qd, h.wrs, h.cuid, fun r' hr' => ?_, h.origin,
      ⟨h.phase.ring, h.phase.disconnecting, h.phase.frozen, h.phase.poller,
        fun hd => absurd hd hfrozen.1⟩⟩
    · show (q.posting ++ [r] ++ places q).Nodup
      have hperm : (q.posting ++ [r] ++ places q).Perm (r :: (q.posting ++ places q)) := by
        rw [List.append_assoc]
        exact List.perm_middle
      exact hperm.nodup_iff.2 (List.nodup_cons.2 ⟨hr, h.fresh⟩)
    · simp only [List.mem_append, List.mem_singleton] at hr'
      rcases hr' with ((hr' | rfl) | hr') | hr'
      · exact h.supported r' (by simp [hr'])
      · exact hsup
      · exact h.supported r' (by simp [hr'])
      · exact h.supported r' (by simp [hr'])

/-- A request that moves from its post to one of the places is accepted. -/
theorem QueueInv.submitted (h : QueueInv conf info q) {r : Req} (hr : r ∈ q.posting)
    {ring : Option (List Req)} {pending : List Req}
    (hplaces : (ring.getD [] ++ pending ++ slotReqs q.reqs q.outstandingReqs).Perm
      (r :: places q)) (hring : ring = none ↔ q.ring = none) (hstate : q.destroyed = false)
    (hmem : ∀ r' ∈ ring.getD [] ++ pending, r' = r ∨ r' ∈ q.ring.getD [] ++ q.pending) :
    QueueInv conf info { q with
      posting := q.posting.erase r
      accepted := q.accepted ++ [r]
      ring := ring
      pending := pending } := by
  have hpost : q.posting.Perm (r :: q.posting.erase r) := List.perm_cons_erase hr
  refine ⟨?_, ?_, h.slots, h.qd, h.wrs, h.cuid, fun r' hr' => ?_, h.origin, ?_⟩
  · show (q.posting.erase r ++
      (ring.getD [] ++ pending ++ slotReqs q.reqs q.outstandingReqs)).Nodup
    have hperm : (q.posting.erase r ++
        (ring.getD [] ++ pending ++ slotReqs q.reqs q.outstandingReqs)).Perm
        (q.posting ++ places q) := by
      calc q.posting.erase r ++ (ring.getD [] ++ pending ++ slotReqs q.reqs q.outstandingReqs)
          ~ q.posting.erase r ++ (r :: places q) := hplaces.append_left _
        _ ~ r :: (q.posting.erase r ++ places q) := List.perm_middle
        _ ~ q.posting ++ places q := (hpost.append_right _).symm
    exact hperm.nodup_iff.2 h.fresh
  · show (q.accepted ++ [r]).Perm
      (ring.getD [] ++ pending ++ slotReqs q.reqs q.outstandingReqs ++ q.finished.map Finish.req)
    calc q.accepted ++ [r] ~ r :: q.accepted := List.perm_append_singleton r _
      _ ~ r :: (places q ++ q.finished.map Finish.req) := h.account.cons r
      _ ~ _ := (hplaces.append_right _).symm
  · simp only [List.append_assoc, List.mem_append] at hr'
    rcases hr' with hr' | hr'
    · exact h.supported r' (by simp [List.mem_of_mem_erase hr'])
    · rcases hmem r' (List.mem_append.2 hr') with rfl | hold
      · exact h.supported r' (by simp [hr])
      · refine h.supported r' ?_
        rw [List.append_assoc]
        exact List.mem_append_right _ hold
  · refine ⟨?_, h.phase.disconnecting, h.phase.frozen, fun hon => ?_, fun hd => ?_⟩
    · dsimp only
      rw [hring]
      exact h.phase.ring
    · exact fun h0 => h.phase.poller hon (hring.1 h0)
    · exact absurd (hstate.symm.trans hd) (by decide)

theorem submit_inv (h : QueueInv conf info q) {r : Req} (hr : r ∈ q.posting)
    (hroom : (q.ring.getD []).length < ringCapacity) :
    ∃ q', dssSubmitRequest q r = some q' ∧ QueueInv conf info q' := by
  have hnot : q.destroyed = false := by
    by_contra hd
    have := (h.phase.destroyed (by simpa using hd)).2.1
    rw [this] at hr
    cases hr
  unfold dssSubmitRequest
  dsimp only
  by_cases hs : q.state = .connecting ∨ q.state = .established
  · rw [if_pos hs]
    refine ⟨_, rfl, h.submitted hr ?_ Iff.rfl hnot fun r' hr' => ?_⟩
    · unfold places
      calc q.ring.getD [] ++ (q.pending ++ [r]) ++ slotReqs q.reqs q.outstandingReqs
          ~ q.ring.getD [] ++ q.pending ++ (r :: slotReqs q.reqs q.outstandingReqs) := by simp
        _ ~ _ := List.perm_middle
    · simp only [List.mem_append, List.mem_singleton] at hr' ⊢
      tauto
  · rw [if_neg hs]
    cases hring : q.ring with
    | none =>
      rcases h.phase.ring.1 hring with hd | hd
      · exact absurd (hnot.symm.trans hd) (by decide)
      · exact absurd hd hs
    | some ring =>
      rw [hring, Option.getD_some] at hroom
      dsimp only
      rw [if_pos hroom]
      refine ⟨_, rfl, h.submitted hr ?_ (by simp [hring]) hnot fun r' hr' => ?_⟩
      · unfold places
        rw [hring]
        calc ring ++ [r] ++ q.pending ++ slotReqs q.reqs q.outstandingReqs
            ~ ring ++ (r :: (q.pending ++ slotReqs q.reqs q.outstandingReqs)) := by simp
          _ ~ r :: (ring ++ (q.pending ++ slotReqs q.reqs q.outstandingReqs)) := List.perm_middle
          _ ~ _ := by simp
      · rw [hring]
        simp only [Option.getD_some, List.mem_append, List.mem_singleton] at hr' ⊢
        tauto

/-! ### Pending requests get a slot -/

/-- The first pending request takes the first free slot, with a work request for it. -/
theorem QueueInv.taken (h : QueueInv conf info q) {r : Req} {rest : List Req} {i : ℕ}
    {free : List ℕ} (hp : q.pending = r :: rest) (hfree : q.freeReqs = i :: free) (c c' : ℕ)
    {slot : Slot} (hctx : slot.ctx = some r) (hcuid : slot.cuid = c)
    (sendWrs dataWrs hostCmds : List (ℕ × Req))
    (hwrs : (dataWrs ++ hostCmds).Perm ((i, r) :: (q.dataWrs ++ q.hostCmds)))
    (hstate : q.state ≠ .disconnecting) :
    QueueInv conf info { q with
      pending := rest
      reqCuid := Function.update q.reqCuid r c
      cuid := c'
      freeReqs := free
      outstandingReqs := q.outstandingReqs ++ [i]
      outstandingQd := q.outstandingQd + 1
      reqs := Function.update q.reqs i slot
      sendWrs := sendWrs
      dataWrs := dataWrs
      hostCmds := hostCmds } := by
  have hnodup := h.nodup
  rw [hfree] at hnodup
  have hi : i ∉ q.outstandingReqs := fun h0 =>
    (List.nodup_cons.1 hnodup).1 (List.mem_append_right _ h0)
  have hplaces : (q.ring.getD [] ++ rest ++ slotReqs (Function.update q.reqs i slot)
      (q.outstandingReqs ++ [i])) ~ places q := by
    unfold places
    rw [slotReqs_append, slotReqs_update hi, hp]
    have hone : slotReqs (Function.update q.reqs i slot) [i] = [r] := by
      simp [slotReqs, hctx]
    rw [hone]
    calc q.ring.getD [] ++ rest ++ (slotReqs q.reqs q.outstandingReqs ++ [r])
        ~ q.ring.getD [] ++ (rest ++ slotReqs q.reqs q.outstandingReqs ++ [r]) := by simp
      _ ~ q.ring.getD [] ++ (r :: (rest ++ slotReqs q.reqs q.outstandingReqs)) :=
          (List.perm_append_singleton r _).append_left _
      _ ~ _ := by simp
  -- the request had no slot before
  have hother : ∀ j ∈ q.outstandingReqs, (q.reqs j).ctx ≠ some r := by
    intro j hj hjr
    have hmem : r ∈ slotReqs q.reqs q.outstandingReqs := List.mem_filterMap.2 ⟨j, hj, hjr⟩
    have hnd := (List.nodup_append.1 h.fresh).2.1
    unfold places at hnd
    rw [hp] at hnd
    exact (List.nodup_append.1 hnd).2.2 r (by simp) r hmem rfl
  refine ⟨?_, ?_, ?_, ?_, ?_, ?_, fun r' hr' => ?_, h.origin, ?_⟩
  · exact ((hplaces.append_left _).nodup_iff).2 h.fresh
  · exact h.account.trans (hplaces.append_right _).symm
  · show (free ++ (q.outstandingReqs ++ [i])).Perm _
    refine List.Perm.trans ?_ h.slots
    rw [hfree, ← List.append_assoc]
    exact List.perm_append_singleton i _
  · show q.outstandingQd + 1 = (q.outstandingReqs ++ [i]).length
    rw [h.qd, List.length_append]
    rfl
  · show ((dataWrs ++ hostCmds).map fun p => (p.1, some p.2)).Perm
      (slotPairs (Function.update q.reqs i slot) (q.outstandingReqs ++ [i]))
    rw [slotPairs_append, slotPairs_update hi]
    calc (dataWrs ++ hostCmds).map (fun p => (p.1, some p.2))
        ~ (i, some r) :: (q.dataWrs ++ q.hostCmds).map (fun p => (p.1, some p.2)) := hwrs.map _
      _ ~ (i, some r) :: slotPairs q.reqs q.outstandingReqs := h.wrs.cons _
      _ ~ slotPairs q.reqs q.outstandingReqs ++ [(i, some r)] :=
          (List.perm_append_singleton _ _).symm
      _ ~ _ := by simp [slotPairs, hctx]
  · intro j hj r' hr'
    rcases List.mem_append.1 hj with hj | hj
    · have hji : j ≠ i := fun h0 => hi (h0 ▸ hj)
      dsimp only at hr' ⊢
      rw [Function.update_of_ne hji] at hr' ⊢
      have hne : r' ≠ r := fun h0 => hother j hj (h0 ▸ hr')
      rw [Function.update_of_ne hne]
      exact h.cuid j hj r' hr'
    · obtain rfl := List.mem_singleton.1 hj
      dsimp only at hr' ⊢
      rw [Function.update_self, hctx] at hr'
      cases hr'
      rw [Function.update_self, Function.update_self, hcuid]
  · refine h.supported r' ?_
    rw [hp]
    simp only [List.mem_append, List.mem_cons] at hr' ⊢
    tauto
  · refine ⟨h.phase.ring, fun hs => absurd hs hstate, h.phase.frozen, h.phase.poller, fun hd => ?_⟩
    · have := (h.phase.destroyed hd).2.2
      rw [hp] at this
      cases this

/-- The same queue apart from pending requests that got a slot. -/
structure SamePhase (q q' : Queue) : Prop where
  state : q'.state = q.state
  ring : q'.ring = q.ring
  pollerOn : q'.pollerOn = q.pollerOn

theorem postCmd_spec (h : QueueInv conf info q) {r : Req} {rest : List Req}
    (hp : q.pending = r :: rest) (hfull : q.outstandingQd ≠ conf.sendQd)
    (hstate : q.state ≠ .disconnecting) :
    ∃ q', postCmd conf info { q with
        pending := rest
        reqCuid := Function.update q.reqCuid r q.cuid
        cuid := (q.cuid + 1) % 2 ^ 64 } r = some q' ∧
      QueueInv conf info q' ∧ SamePhase q q' := by
  obtain ⟨i, free, hfree⟩ : ∃ i free, q.freeReqs = i :: free := by
    cases hf : q.freeReqs with
    | cons i free => exact ⟨i, free, rfl⟩
    | nil =>
      have hlen := h.slots.length_eq
      rw [hf, List.nil_append, List.length_range] at hlen
      exact absurd (h.qd.trans hlen) hfull
  have hctrl : ∀ opc, (info r).payloadLen ≤ conf.maxSglSegs * maxRddSegSize % 2 ^ 32 →
      ∃ q', postCmdCtrl conf info opc { q with
            pending := rest
            reqCuid := Function.update q.reqCuid r q.cuid
            cuid := (q.cuid + 1) % 2 ^ 64 } r = some q' ∧
        QueueInv conf info q' ∧ SamePhase q q' := by
    intro opc hlen
    have hle : (info r).payloadLen ≤ max 1 conf.maxSglSegs * maxRddSegSize := by
      have h1 := Nat.mod_le (conf.maxSglSegs * maxRddSegSize) (2 ^ 32)
      have h2 : conf.maxSglSegs * maxRddSegSize ≤ max 1 conf.maxSglSegs * maxRddSegSize :=
        Nat.mul_le_mul_right _ (le_max_right _ _)
      omega
    unfold postCmdCtrl getFreeRequest
    dsimp only
    rw [if_neg (by omega), hfree]
    simp only [Option.bind_eq_bind, Option.bind_some]
    rw [if_neg (by simpa using sglSegments_rest hle)]
    refine ⟨_, rfl, h.taken hp hfree _ _ rfl ?_ _ _ _ ?_ hstate, rfl, rfl, rfl⟩
    · simp
    · calc q.dataWrs ++ [(i, r)] ++ q.hostCmds ~ q.dataWrs ++ ((i, r) :: q.hostCmds) := by simp
        _ ~ _ := List.perm_middle
  have hsup := h.supported r (by simp [hp])
  unfold postCmd
  rcases hsup with ⟨hopc, hlen⟩ | ⟨hopc | hopc, hlen⟩
  · rw [if_pos hopc]
    unfold postCmdHostRead getFreeRequest
    dsimp only
    rw [if_neg (by omega), hfree]
    refine ⟨_, rfl, h.taken hp hfree _ _ rfl ?_ _ _ _ ?_ hstate, rfl, rfl, rfl⟩
    · simp
    · rw [← List.append_assoc]
      exact List.perm_append_singleton _ _
  · rw [if_neg (by rw [hopc]; decide), if_pos hopc]
    exact hctrl cmdCtrlWrite hlen
  · rw [if_neg (by rw [hopc]; decide), if_neg (by rw [hopc]; decide), if_pos hopc]
    exact hctrl cmdCtrlRead hlen

theorem processPendingLoop_spec (n : ℕ) (h : QueueInv conf info q)
    (hstate : q.state ≠ .disconnecting) :
    ∃ q', processPendingLoop conf info n q = some q' ∧ QueueInv conf info q' ∧ SamePhase q q' := by
  induction n generalizing q with
  | zero => exact ⟨q, rfl, h, rfl, rfl, rfl⟩
  | succ n ih =>
    unfold processPendingLoop
    cases hp : q.pending with
    | nil => exact ⟨q, rfl, h, rfl, rfl, rfl⟩
    | cons r rest =>
      dsimp only
      by_cases hfull : q.outstandingQd = conf.sendQd
      · rw [if_pos hfull]
        exact ⟨q, rfl, h, rfl, rfl, rfl⟩
      · obtain ⟨q₁, hq₁, hinv, hsame⟩ := postCmd_spec h hp hfull hstate
        obtain ⟨q', hq', hinv', hsame'⟩ := ih hinv (by rw [hsame.state]; exact hstate)
        rw [if_neg hfull, hq₁, Option.bind_some, hq']
        exact ⟨q', rfl, hinv', hsame'.state.trans hsame.state, hsame'.ring.trans hsame.ring,
          hsame'.pollerOn.trans hsame.pollerOn⟩

theorem startPoller_inv (h : QueueInv conf info q)
    (hs : q.state = .connecting ∨ q.state = .established) :
    ∃ q', startCqPoller conf info q = some q' ∧ QueueInv conf info q' := by
  have hne : q.state ≠ .disconnecting := by
    rcases hs with hs | hs <;> simp [hs]
  have hring : q.ring = none := h.phase.ring.2 (Or.inr hs)
  have hoff : ¬ q.pollerOn = true := fun hon => h.phase.poller hon hring
  have hdest : ¬ q.destroyed = true := fun hd => hne (h.phase.destroyed hd).1
  have hplaces : ∀ state, places { q with ring := some [], state := state } = places q := by
    intro state
    unfold places
    rw [hring]
    rfl
  -- the queue with its ring, in the next state
  have hready : ∀ state, state = .ready ∨ state = .live →
      QueueInv conf info { q with ring := some [], state := state } := by
    intro state hstate
    refine ⟨?_, ?_, h.slots, h.qd, h.wrs, h.cuid, fun r hr => ?_, h.origin, ?_⟩
    · rw [hplaces]
      exact h.fresh
    · rw [hplaces]
      exact h.account
    · refine h.supported r ?_
      rw [hring]
      exact hr
    · refine ⟨⟨fun h0 => ?_, fun h0 => ?_⟩, fun h0 => ?_, ⟨fun h0 => ?_, fun h0 => ?_⟩,
        fun _ => Option.some_ne_none _, fun hd => absurd hd hdest⟩
      · cases h0
      · rcases hstate with rfl | rfl <;> rcases h0 with h0 | h0 | h0
        · exact absurd h0 hdest
        · cases h0
        · cases h0
        · exact absurd h0 hdest
        · cases h0
        · cases h0
      · rcases hstate with rfl | rfl <;> cases h0
      · exact absurd (h.phase.frozen.1 h0) hne
      · rcases hstate with rfl | rfl <;> cases h0
  have hrun : ∀ state, state = .ready ∨ state = .live →
      ∃ q', ((dssProcessPending conf info { q with ring := some [], state := state }).bind fun q =>
        some { q with pollerOn := true }) = some q' ∧ QueueInv conf info q' := by
    intro state hstate
    have hst : state ≠ .disconnecting := by
      rcases hstate with rfl | rfl <;> decide
    obtain ⟨q', hq', hinv, hsame⟩ := processPendingLoop_spec reqPerPoll (hready state hstate) hst
    unfold dssProcessPending
    rw [hq', Option.bind_some]
    refine ⟨_, rfl, hinv.fresh, hinv.account, hinv.slots, hinv.qd, hinv.wrs, hinv.cuid,
      hinv.supported, hinv.origin, hinv.phase.ring, fun h0 => ?_, hinv.phase.frozen, fun _ => ?_,
      hinv.phase.destroyed⟩
    · exact absurd (hsame.state.symm.trans h0) hst
    · show q'.ring ≠ none
      rw [hsame.ring]
      exact Option.some_ne_none _
  unfold startCqPoller
  rw [if_neg hoff, if_neg hne]
  rcases hs with hs | hs
  · simp only [hs]
    exact hrun .ready (Or.inl rfl)
  · simp only [hs]
    exact hrun .live (Or.inr rfl)

theorem checkSubmitRing_spec (h : QueueInv conf info q) {ring : List Req} (hring : q.ring = some ring) :
    ∃ q', dssCheckSubmitRing q = some (q', (ring.take reqPerPoll).length) ∧ QueueInv conf info q' ∧
      q'.ring = some (ring.drop reqPerPoll) ∧ q'.state = q.state ∧ q'.pollerOn = q.pollerOn ∧
      q'.posting = q.posting ∧ q'.destroyed = q.destroyed := by
  unfold dssCheckSubmitRing
  rw [hring]
  have hplaces : (ring.drop reqPerPoll ++ (q.pending ++ ring.take reqPerPoll) ++
      slotReqs q.reqs q.outstandingReqs) ~ places q := by
    unfold places
    rw [hring]
    refine List.Perm.append_right _ ?_
    calc ring.drop reqPerPoll ++ (q.pending ++ ring.take reqPerPoll)
        ~ (q.pending ++ ring.take reqPerPoll) ++ ring.drop reqPerPoll := List.perm_append_comm
      _ ~ q.pending ++ ring := by rw [List.append_assoc, List.take_append_drop]
      _ ~ ring ++ q.pending := List.perm_append_comm
  have hdest : q.destroyed = false := by
    by_contra hd
    have := h.phase.ring.2 (Or.inl (by simpa using hd))
    rw [hring] at this
    cases this
  refine ⟨_, rfl, ⟨?_, ?_, h.slots, h.qd, h.wrs, h.cuid, fun r hr => ?_, h.origin, ?_⟩, rfl, rfl, rfl,
    rfl, rfl⟩
  · exact ((hplaces.append_left _).nodup_iff).2 h.fresh
  · exact h.account.trans (hplaces.append_right _).symm
  · refine h.supported r ?_
    rw [hring]
    simp only [Option.getD_some, List.mem_append] at hr ⊢
    rcases hr with (hr | hr) | hr | hr
    · exact Or.inl (Or.inl hr)
    · exact Or.inl (Or.inr (List.mem_of_mem_drop hr))
    · exact Or.inr hr
    · exact Or.inl (Or.inr (List.mem_of_mem_take hr))
  · refine ⟨⟨fun h0 => ?_, fun h0 => ?_⟩, h.phase.disconnecting, h.phase.frozen,
      fun _ => Option.some_ne_none _, fun hd => ?_⟩
    · cases h0
    · have := h.phase.ring.2 h0
      rw [hring] at this
      cases this
    · exact absurd (hdest.symm.trans hd) (by decide)

theorem poll_inv (h : QueueInv conf info q) (hon : q.pollerOn = true) :
    ∃ q', cqPollPending conf info q = some q' ∧ QueueInv conf info q' := by
  have hne : q.state ≠ .disconnecting := fun hs =>
    absurd ((h.phase.disconnecting hs).1.symm.trans hon) (by decide)
  obtain ⟨ring, hring⟩ := Option.ne_none_iff_exists'.1 (h.phase.poller hon)
  obtain ⟨q₁, hq₁, hinv, -, hst, -, -, -⟩ := checkSubmitRing_spec h hring
  obtain ⟨q', hq', hinv', -⟩ := processPendingLoop_spec reqPerPoll hinv (by rw [hst]; exact hne)
  refine ⟨q', ?_, hinv'⟩
  unfold cqPollPending dssProcessPending
  rw [hq₁]
  exact hq'

/-! ### Completions -/

theorem QueueInv.slot_of_wr (h : QueueInv conf info q) {i : ℕ} {r : Req}
    (hwr : (i, r) ∈ q.dataWrs ++ q.hostCmds) :
    i ∈ q.outstandingReqs ∧ (q.reqs i).ctx = some r := by
  have hmem : (i, some r) ∈ slotPairs q.reqs q.outstandingReqs :=
    h.wrs.mem_iff.1 (List.mem_map.2 ⟨(i, r), hwr, rfl⟩)
  obtain ⟨j, hj, heq⟩ := List.mem_map.1 hmem
  obtain ⟨rfl, hr⟩ := Prod.mk.inj heq
  exact ⟨hj, hr⟩

theorem QueueInv.finishSlot (h : QueueInv conf info q) {i : ℕ} {r : Req} (how : Outcome)
    {reqs : ℕ → Slot} (hreqs : ∀ j, (reqs j).ctx = (q.reqs j).ctx ∧ (reqs j).cuid = (q.reqs j).cuid)
    (dataWrs hostCmds : List (ℕ × Req)) (recvWrs : List ℕ) (rspCid : ℕ → ℕ)
    (hwrs : (q.dataWrs ++ q.hostCmds).Perm ((i, r) :: (dataWrs ++ hostCmds))) :
    QueueInv conf info (Rdd.finishSlot { q with
      dataWrs := dataWrs
      hostCmds := hostCmds
      recvWrs := recvWrs
      rspCid := rspCid
      reqs := reqs } i r how (some r)) := by
  obtain ⟨hi, hctx⟩ := h.slot_of_wr (hwrs.mem_iff.2 List.mem_cons_self)
  have hcuid := h.cuid i hi r hctx
  have hout := (List.nodup_append.1 h.nodup).2.1
  have herase : i ∉ q.outstandingReqs.erase i := hout.not_mem_erase
  have hperm : q.outstandingReqs ~ i :: q.outstandingReqs.erase i := List.perm_cons_erase hi
  have hslots : slotReqs q.reqs q.outstandingReqs ~
      r :: slotReqs q.reqs (q.outstandingReqs.erase i) := by
    unfold slotReqs
    refine (hperm.filterMap _).trans ?_
    rw [List.filterMap_cons, hctx]
  have hfree : slotReqs (Function.update reqs i { reqs i with ctx := none })
      (q.outstandingReqs.erase i) = slotReqs q.reqs (q.outstandingReqs.erase i) := by
    rw [slotReqs_update herase]
    exact slotReqs_ctx (fun j => (hreqs j).1) _
  have hplaces : places q ~ r :: (q.ring.getD [] ++ q.pending ++
      slotReqs q.reqs (q.outstandingReqs.erase i)) := by
    unfold places
    exact (hslots.append_left _).trans List.perm_middle
  unfold Rdd.finishSlot putFreeRequest
  dsimp only
  rw [if_pos (by rw [(hreqs i).2]; exact hcuid)]
  refine ⟨?_, ?_, ?_, ?_, ?_, fun j hj r' hr' => ?_, h.supported, ?_, ?_⟩
  · show (q.posting ++ (q.ring.getD [] ++ q.pending ++ slotReqs (Function.update reqs i _)
      (q.outstandingReqs.erase i))).Nodup
    rw [hfree]
    have hnd := (hplaces.append_left q.posting).nodup_iff.1 h.fresh
    exact hnd.sublist ((List.sublist_cons_self r _).append_left _)
  · show q.accepted ~ q.ring.getD [] ++ q.pending ++ slotReqs (Function.update reqs i _)
      (q.outstandingReqs.erase i) ++ (q.finished ++ [_]).map Finish.req
    rw [hfree, List.map_append]
    calc q.accepted ~ places q ++ q.finished.map Finish.req := h.account
      _ ~ r :: (q.ring.getD [] ++ q.pending ++ slotReqs q.reqs (q.outstandingReqs.erase i)) ++
          q.finished.map Finish.req := hplaces.append_right _
      _ ~ (q.ring.getD [] ++ q.pending ++ slotReqs q.reqs (q.outstandingReqs.erase i) ++
          q.finished.map Finish.req) ++ [r] := (List.perm_append_singleton r _).symm
      _ ~ _ := by simp
  · show (q.freeReqs ++ [i] ++ q.outstandingReqs.erase i) ~ _
    calc q.freeReqs ++ [i] ++ q.outstandingReqs.erase i
        ~ q.freeReqs ++ (i :: q.outstandingReqs.erase i) := by simp
      _ ~ q.freeReqs ++ q.outstandingReqs := hperm.symm.append_left _
      _ ~ _ := h.slots
  · show q.outstandingQd - 1 = (q.outstandingReqs.erase i).length
    rw [h.qd, List.length_erase_of_mem hi]
  · show ((dataWrs ++ hostCmds).map fun p => (p.1, some p.2)) ~
      slotPairs (Function.update reqs i _) (q.outstandingReqs.erase i)
    rw [slotPairs_update herase]
    have hpairs : slotPairs reqs (q.outstandingReqs.erase i) =
        slotPairs q.reqs (q.outstandingReqs.erase i) := by
      unfold slotPairs
      exact List.map_congr_left fun j _ => by rw [(hreqs j).1]
    rw [hpairs]
    refine List.Perm.cons_inv (a := (i, some r)) ?_
    have hmap := (hwrs.map fun p : ℕ × Req => (p.1, some p.2)).symm
    rw [List.map_cons] at hmap
    calc (i, some r) :: (dataWrs ++ hostCmds).map (fun p => (p.1, some p.2))
        ~ (q.dataWrs ++ q.hostCmds).map (fun p => (p.1, some p.2)) := hmap
      _ ~ slotPairs q.reqs q.outstandingReqs := h.wrs
      _ ~ slotPairs q.reqs (i :: q.outstandingReqs.erase i) := hperm.map _
      _ ~ _ := by simp [slotPairs, hctx]
  · have hji : j ≠ i := fun h0 => herase (h0 ▸ hj)
    dsimp only at hr' ⊢
    rw [Function.update_of_ne hji] at hr' ⊢
    rw [(hreqs j).1] at hr'
    rw [(hreqs j).2]
    exact h.cuid j (List.mem_of_mem_erase hj) r' hr'
  · intro f hf o ho
    rcases List.mem_append.1 hf with hf | hf
    · exact h.origin f hf o ho
    · obtain rfl := List.mem_singleton.1 hf
      cases ho
      rfl
  · refine ⟨h.phase.ring, fun hs => ?_, h.phase.frozen, h.phase.poller, h.phase.destroyed⟩
    refine ⟨(h.phase.disconnecting hs).1, ?_⟩
    show q.outstandingReqs.erase i = []
    rw [(h.phase.disconnecting hs).2]
    rfl

theorem completeSlot_eq {i : ℕ} {r : Req} (hctx : (q.reqs i).ctx = some r) (inData : Bool)
    (o : Option Req) :
    completeSlot info q i inData o =
      some (finishSlot q i r (if inData then .inDataReady else dssComplete info r) o) := by
  unfold completeSlot
  rw [hctx]

theorem failSlot_eq {i : ℕ} {r : Req} (hctx : (q.reqs i).ctx = some r) (o : Option Req) :
    failSlot q i o = finishSlot q i r .failed o := by
  unfold failSlot
  rw [hctx]

theorem QueueInv.delivered (h : QueueInv conf info q) (sendWrs : List (ℕ × Req)) (recvWrs : List ℕ) :
    QueueInv conf info { q with sendWrs := sendWrs, recvWrs := recvWrs } :=
  ⟨h.fresh, h.account, h.slots, h.qd, h.wrs, h.cuid, h.supported, h.origin,
    h.phase.ring, h.phase.disconnecting, h.phase.frozen, h.phase.poller, h.phase.destroyed⟩

theorem completion_inv (h : QueueInv conf info q) {wc : Wc} (hpos : Possible q (.completion wc))
    (hok : Harmless conf info q (.completion wc)) :
    ∃ q', cqPollWc info q wc = some q' ∧ QueueInv conf info q' := by
  cases wc with
  | send i r ok =>
    obtain rfl : ok = true := hok
    exact ⟨_, rfl, h.delivered _ _⟩
  | data i r ok =>
    obtain ⟨-, hwr⟩ := hpos
    obtain ⟨-, hctx⟩ := h.slot_of_wr (List.mem_append_left _ hwr)
    have hwrs : q.dataWrs ++ q.hostCmds ~ (i, r) :: (q.dataWrs.erase (i, r) ++ q.hostCmds) :=
      (List.perm_cons_erase hwr).append_right _
    unfold cqPollWc processWc deliver
    dsimp only
    cases ok with
    | true =>
      rw [if_pos rfl, completeSlot_eq (r := r) (by exact hctx)]
      exact ⟨_, rfl, h.finishSlot _ (fun _ => ⟨rfl, rfl⟩) _ _ _ _ hwrs⟩
    | false =>
      rw [if_neg (by decide), failSlot_eq (r := r) (by exact hctx)]
      exact ⟨_, rfl, h.finishSlot _ (fun _ => ⟨rfl, rfl⟩) _ _ _ _ hwrs⟩
  | recv rsp cid r ok =>
    obtain ⟨-, -, hcmd⟩ := hpos
    unfold cqPollWc processWc deliver
    dsimp only
    cases ok with
    | true =>
      have hwr := hcmd rfl
      obtain ⟨-, hctx⟩ := h.slot_of_wr (List.mem_append_right _ hwr)
      have hwrs : q.dataWrs ++ q.hostCmds ~ (cid, r) :: (q.dataWrs ++ q.hostCmds.erase (cid, r)) :=
        ((List.perm_cons_erase hwr).append_left _).trans List.perm_middle
      have hreqs : ∀ j, (Function.update q.reqs cid { q.reqs cid with rspIdx := rsp } j).ctx =
          (q.reqs j).ctx ∧ (Function.update q.reqs cid { q.reqs cid with rspIdx := rsp } j).cuid =
          (q.reqs j).cuid := by
        intro j
        by_cases hj : j = cid
        · subst hj
          simp
        · simp [Function.update_of_ne hj]
      rw [if_pos rfl, if_pos rfl, if_pos rfl, Function.update_self,
        completeSlot_eq (r := r) (by simpa using hctx)]
      exact ⟨_, rfl, h.finishSlot _ hreqs _ _ _ _ hwrs⟩
    | false =>
      have hnone := hok rfl
      unfold failSlot
      rw [if_neg (by decide), if_neg (by decide), if_neg (by decide)]
      dsimp only
      rw [hnone]
      exact ⟨_, rfl, h.delivered _ _⟩

/-! ### The other events -/

theorem established_inv (h : QueueInv conf info q) : QueueInv conf info (clQueueEstablished q) := by
  have hkeep : ∀ state, (state = .connecting ∨ state = .established ↔
      q.state = .connecting ∨ q.state = .established) →
      (state = .disconnecting ↔ q.state = .disconnecting) →
      QueueInv conf info { q with state := state } := by
    intro state h1 h2
    refine ⟨h.fresh, h.account, h.slots, h.qd, h.wrs, h.cuid, h.supported, h.origin, ?_, fun h0 => ?_,
      ?_, h.phase.poller, fun h0 => ?_⟩
    · show q.ring = none ↔ q.destroyed = true ∨ state = .connecting ∨ state = .established
      rw [h1]
      exact h.phase.ring
    · exact h.phase.disconnecting (h2.1 h0)
    · exact h.phase.frozen.trans h2.symm
    · obtain ⟨hs, hrest⟩ := h.phase.destroyed h0
      exact ⟨h2.2 hs, hrest⟩
  unfold clQueueEstablished
  cases hs : q.state with
  | connecting => exact hkeep _ (by simp [hs]) (by simp [hs])
  | ready => exact hkeep _ (by simp [hs]) (by simp [hs])
  | established => exact h
  | live => exact h
  | disconnecting => exact h

theorem disconnect_inv (h : QueueInv conf info q) (hon : q.pollerOn = true)
    (hout : q.outstandingReqs = []) : QueueInv conf info (clQueueDisconnect q) := by
  have hring := h.phase.poller hon
  have hdest : ¬ q.destroyed = true := fun hd => hring (h.phase.ring.2 (Or.inl hd))
  refine ⟨h.fresh, h.account, h.slots, h.qd, h.wrs, h.cuid, h.supported, h.origin,
    ⟨fun h0 => absurd h0 hring, fun h0 => ?_⟩, fun _ => ⟨rfl, hout⟩, ⟨fun _ => rfl, fun _ => rfl⟩,
    fun h0 => ?_, fun hd => absurd hd hdest⟩
  · rcases h0 with h0 | h0 | h0
    · exact absurd h0 hdest
    · cases h0
    · cases h0
  · cases h0

theorem drainRing_spec (fuel : ℕ) (h : QueueInv conf info q) {ring : List Req}
    (hring : q.ring = some ring) (hfuel : ring.length < fuel) :
    ∃ q', drainRing fuel q = some q' ∧ QueueInv conf info q' ∧ q'.ring = some [] ∧
      q'.state = q.state ∧ q'.posting = q.posting := by
  induction fuel generalizing q ring with
  | zero => omega
  | succ fuel ih =>
    obtain ⟨q₁, hq₁, hinv, hring₁, hst, -, hpost, -⟩ := checkSubmitRing_spec h hring
    unfold drainRing
    rw [hq₁]
    simp only [Option.bind_eq_bind, Option.bind_some]
    cases ring with
    | nil =>
      refine ⟨q₁, rfl, hinv, hring₁, hst, hpost⟩
    | cons r ring =>
      rw [if_neg (by simp [reqPerPoll])]
      obtain ⟨q', hq', hinv', hring', hst', hpost'⟩ := ih hinv hring₁ (by
        simp only [List.length_drop, List.length_cons, reqPerPoll] at hfuel ⊢
        omega)
      exact ⟨q', hq', hinv', hring', hst'.trans hst, hpost'.trans hpost⟩

theorem shutdown_inv (h : QueueInv conf info q) (hs : q.state = .disconnecting)
    (hd : q.destroyed = false) : ∃ q', cqShutdown q = some q' ∧ QueueInv conf info q' := by
  unfold cqShutdown
  by_cases hpost : q.posting = []
  · rw [if_neg (by simp [hpost])]
    obtain ⟨ring, hring⟩ : ∃ ring, q.ring = some ring := by
      refine Option.ne_none_iff_exists'.1 fun h0 => ?_
      rcases h.phase.ring.1 h0 with h0 | h0 | h0
      · exact absurd (hd.symm.trans h0) (by decide)
      · exact absurd (hs.symm.trans h0) (by decide)
      · exact absurd (hs.symm.trans h0) (by decide)
    obtain ⟨q₁, hq₁, hinv, hring₁, hst, hpost₁⟩ :=
      drainRing_spec ((q.ring.getD []).length + 1) h hring (by rw [hring]; simp)
    have hout := (hinv.phase.disconnecting (hst.trans hs)).2
    have hslots : slotReqs q₁.reqs q₁.outstandingReqs = [] := by
      rw [hout]
      rfl
    have hplaces : places q₁ = q₁.pending := by
      unfold places
      rw [hring₁, hslots]
      simp
    rw [hq₁]
    refine ⟨_, rfl, ?_, ?_, hinv.slots, hinv.qd, hinv.wrs, hinv.cuid, fun r hr => ?_, ?_,
      ⟨fun _ => Or.inl rfl, fun _ => rfl⟩, hinv.phase.disconnecting, hinv.phase.frozen, fun hon => ?_,
      fun _ => ⟨hst.trans hs, hpost₁.trans hpost, rfl⟩⟩
    · show (q₁.posting ++ ([] ++ [] ++ slotReqs q₁.reqs q₁.outstandingReqs)).Nodup
      rw [hslots, hpost₁, hpost]
      exact List.nodup_nil
    · show q₁.accepted ~ [] ++ [] ++ slotReqs q₁.reqs q₁.outstandingReqs ++
        (q₁.finished ++ q₁.pending.map _).map Finish.req
      have hacc := hinv.account
      rw [hplaces] at hacc
      rw [hslots, List.map_append, List.map_map]
      refine hacc.trans (List.perm_append_comm.trans ?_)
      simp [Function.comp_def]
    · rw [show (dssFlushNFailReqs { q₁ with ring := none }).posting = q₁.posting from rfl, hpost₁,
        hpost] at hr
      cases hr
    · intro f hf o ho
      rcases List.mem_append.1 hf with hf | hf
      · exact hinv.origin f hf o ho
      · obtain ⟨r, -, rfl⟩ := List.mem_map.1 hf
        cases ho
    · exact absurd ((hinv.phase.disconnecting (hst.trans hs)).1.symm.trans hon) (by decide)
  · rw [if_pos hpost]
    exact ⟨q, rfl, h⟩

/-- In every run of harmless events no assertion fails and the requests are conserved. -/
theorem requests_conserved_of_run (conf : Conf) (info : Req → ReqInfo) (evs : List Event)
    (hok : Run.Admissible (step conf info) (fun q ev => Possible q ev ∧ Harmless conf info q ev)
      (queueConnect conf) evs) :
    ∃ q, Run.run (step conf info) (queueConnect conf) evs = some q ∧ Conserved conf q := by
  have hstep : ∀ q ev, QueueInv conf info q → Possible q ev ∧ Harmless conf info q ev →
      ∃ q', step conf info q ev = some q' ∧ QueueInv conf info q' := by
    rintro q ev h ⟨hpos, hok⟩
    cases ev with
    | established => exact ⟨_, rfl, established_inv h⟩
    | startPoller => exact startPoller_inv h hpos
    | post r => exact ⟨_, rfl, post_inv h hpos hok⟩
    | submit r => exact submit_inv h hpos hok
    | poll => exact poll_inv h hpos
    | completion wc => exact completion_inv h hpos hok
    | disconnect => exact ⟨_, rfl, disconnect_inv h hpos hok⟩
    | shutdown => exact shutdown_inv h hpos.1 hpos.2
  obtain ⟨q, hrun, hinv⟩ := Run.run_total hstep (queueInv_connect conf info) hok
  exact ⟨q, hrun, hinv.conserved⟩

/-- The even requests read from the host, the odd ones write to it, a page each. -/
def pageInfo (r : Req) : ReqInfo := ⟨if r % 2 = 0 then cmdHostRead else cmdCtrlWrite, 4096, true⟩

/-- Two requests on a queue with one slot: the first is posted before the poller starts, the second
waits for the slot and fails with its transfer; then the queue is disconnected. -/
theorem conserved_oneSlot :
    ∃ q, Run.run (step ⟨8, 1⟩ pageInfo) (queueConnect ⟨8, 1⟩)
        [.post 0, .submit 0, .startPoller, .established, .post 1, .submit 1, .poll,
          .completion (.send 0 0 true), .completion (.recv 0 0 0 true), .poll,
          .completion (.data 0 1 false), .post 2, .disconnect, .submit 2, .shutdown] = some q ∧
      Conserved ⟨8, 1⟩ q :=
  requests_conserved_of_run ⟨8, 1⟩ pageInfo _ (by decide +kernel)

/-- A queue that is disconnected while a request has its slot never finishes it. -/
theorem not_conserved_disconnect :
    ¬ ∀ (conf : Conf) (info : Req → ReqInfo) (evs : List Event),
      Run.Admissible (step conf info) Possible (queueConnect conf) evs →
      ∃ q, Run.run (step conf info) (queueConnect conf) evs = some q ∧ Conserved conf q := by
  intro hall
  obtain ⟨q, hrun, hq⟩ := hall ⟨8, 1⟩ pageInfo
    [.startPoller, .established, .post 1, .submit 1, .poll, .disconnect, .shutdown]
    (by decide +kernel)
  cases hrun
  exact absurd (hq.destroyed rfl) (by decide +kernel)

end DssSdk.Rdd
