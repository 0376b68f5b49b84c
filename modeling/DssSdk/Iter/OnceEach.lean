import DssSdk.Iter.Pages

/-!
# The pool iterator returns every key once

* `Delivered`: the requests are completed once and within bounds, and the keys of the pages arrive
  once, all of them when the end is reported;
* `Possible`: what the caller and the devices do;
* `Harmless`: the events that cannot lose a key or complete a request twice;
* `delivered_of_run`: in every run of such events everything is delivered.

The counter of pending devices must not reach zero before the loop over the devices has ended, since
the end of the loop then completes the request without a copy. A last key of one word is taken for the
end of its page, the string that is logged has no end of its own, and the end of the iteration is
reported when the devices have ended, whether or not their keys fit into the buffer.
-/

namespace DssSdk.Iter

open ByteMemory
open scoped List

/-- A reply with its keys. -/
structure Carries (r : Reply) (ks : List Bytes) : Prop where
  count : getWord r.buffer 0 = ks.length
  encodes : Encodes r.buffer 4 ks
  size : r.size = pageSize ks
  inBuffer : r.size ≤ r.req.length
  outside : ∀ i, r.req.length ≤ i → r.buffer i = r.req.buffer i
  inPage : r.inPage = true

/-- Every request is completed once, when the devices it asks have answered, and then the next one is
accepted. The replies stay within the buffers and the pages. Together they have keys of the pages,
none twice, and all of them when the last one reports the end. -/
structure Delivered (s : State) : Prop where
  once : s.replies.length ≤ s.requests ∧ s.requests ≤ s.replies.length + 1
  completed : s.dispatch = none → (∀ d ∈ s.devs, d.inFlight = false) → s.replies.length = s.requests
  accepts : s.replies.length = s.requests →
    s.dispatch = none ∧ s.nrPendingDev = 0 ∧ (s.status = .opened ∨ s.status = .read)
  keys : ∃ pages, List.Forall₂ Carries s.replies pages ∧ pages.flatten <+~ s.received ∧
    (s.replies.length = s.requests → ∀ r ∈ s.replies.getLast?, r.eof = true →
      pages.flatten ~ s.received)

/-- The events that can happen: a request comes when the one before it is completed, and its buffer
takes a key; a device that is asked answers with a page. -/
def Possible (s : State) : Event → Prop
  | .read req => s.replies.length = s.requests ∧ 12 ≤ req.length ∧ req.length < 2 ^ 31
  | .dispatch => s.dispatch ≠ none
  | .done i keys mem cdw0 sc =>
      (s.devs[i]?).map Dev.inFlight = some true ∧ IsPage keys mem cdw0 ∧ sc < 2 ^ 16

/-- The keys that are left after the last page fit into the buffer, if the devices have ended. -/
def EndFits (devs : List Dev) (req : Option Req) : Prop :=
  allEof devs = true → ∀ r ∈ req, (devs.map Dev.unreadBytes).sum + 4 < r.length

/-- The events that keep every key: neither a device that is skipped nor a page that comes is the last
pending one before the loop over the devices has ended, a page ends well, and with the last page of
the iteration all keys fit. -/
def Harmless (s : State) : Event → Prop
  | .read _ => s.devs ≠ []
  | .dispatch => s.nrPendingDev = 1 →
      ∀ i ∈ s.dispatch, ∀ d ∈ s.devs[i]?, d.skipped = false
  | .done i keys mem cdw0 sc => (s.nrPendingDev = 1 → s.dispatch = none) ∧ EndsWell keys mem ∧
      (s.nrPendingDev = 1 → ∀ d ∈ s.devs[i]?,
        EndFits (s.devs.set i (d.receive mem cdw0 sc)) s.dflyReq)

instance (devs : List Dev) (req : Option Req) : Decidable (EndFits devs req) :=
  inferInstanceAs (Decidable (_ → ∀ r ∈ req, _))

instance (s : State) : (ev : Event) → Decidable (Possible s ev)
  | .read _ => inferInstanceAs (Decidable (_ ∧ _))
  | .dispatch => inferInstanceAs (Decidable (_ ≠ _))
  | .done _ _ _ _ _ => inferInstanceAs (Decidable (_ ∧ _ ∧ _))

instance (s : State) : (ev : Event) → Decidable (Harmless s ev)
  | .read _ => decidable_of_iff (s.devs.isEmpty = false) (by simp [Harmless])
  | .dispatch => inferInstanceAs (Decidable (_ → ∀ i ∈ s.dispatch, ∀ d ∈ s.devs[i]?, _))
  | .done i _ _ _ _ => inferInstanceAs (Decidable ((_ → _) ∧ _ ∧ (_ → ∀ d ∈ s.devs[i]?, _)))

/-- The devices that the loop has not reached. -/
def toVisit (s : State) : ℕ :=
  match s.dispatch with
  | none => 0
  | some i => s.devs.length - i

/-- The requests and the counter of pending devices. -/
structure Counted (s : State) : Prop where
  few : s.devs.length < 2 ^ 8
  small : s.nrPendingDev ≤ s.devs.length
  pending : s.nrPendingDev = s.devs.countP Dev.inFlight + toVisit s
  busy : ∀ i, s.dispatch = some i → s.nrPendingDev ≠ 0
  ahead : ∀ i, s.dispatch = some i → ∀ j d, i ≤ j → s.devs[j]? = some d → d.inFlight = false
  requests : s.requests = s.replies.length + if s.nrPendingDev = 0 then 0 else 1
  status : if s.nrPendingDev = 0 then s.status = .opened ∨ s.status = .read else s.status = .reading
  req : s.nrPendingDev ≠ 0 → ∃ r, s.dflyReq = some r ∧ 12 ≤ r.length ∧ r.length < 2 ^ 31

/-- The keys of the pages are in the replies and in the buffers of the devices. -/
def Kept (s : State) : Prop :=
  ∃ pages unread, List.Forall₂ Carries s.replies pages ∧ Held s.devs unread ∧
    pages.flatten ++ unread ~ s.received ∧
    (s.nrPendingDev = 0 → ∀ r ∈ s.replies.getLast?, r.eof = true → unread = [])

/-- The invariant of the iterator. -/
structure Inv (s : State) : Prop where
  counted : Counted s
  kept : Kept s

variable {s s' : State}

theorem Inv.delivered (h : Inv s) : Delivered s := by
  obtain ⟨hc, pages, unread, hcarry, hheld, hperm, heof⟩ := h
  have hreq := hc.requests
  have hzero : s.replies.length = s.requests → s.nrPendingDev = 0 := by
    intro heq
    by_contra hne
    rw [if_neg hne] at hreq
    omega
  refine ⟨?_, ?_, ?_, ⟨pages, hcarry, ?_, ?_⟩⟩
  · split at hreq <;> omega
  · intro hdisp hall
    have hcount : s.devs.countP Dev.inFlight = 0 := by
      rw [List.countP_eq_zero]
      intro d hd
      simp [hall d hd]
    have hnone : s.nrPendingDev = 0 := by
      rw [hc.pending, hcount]
      simp [toVisit, hdisp]
    rw [hreq, if_pos hnone, Nat.add_zero]
  · intro heq
    have h0 := hzero heq
    refine ⟨?_, h0, ?_⟩
    · cases hdisp : s.dispatch with
      | none => rfl
      | some i => exact absurd h0 (hc.busy i hdisp)
    · have := hc.status
      rwa [if_pos h0] at this
  · exact (List.sublist_append_left _ _).subperm.trans hperm.subperm
  · intro heq r hr hend
    rw [heof (hzero heq) r hr hend, List.append_nil] at hperm
    exact hperm

/-! ### A request -/

theorem countP_inFlight_eq_zero {devs : List Dev} :
    devs.countP Dev.inFlight = 0 ↔ ∀ d ∈ devs, d.inFlight = false := by
  simp [List.countP_eq_zero]

theorem decPending_eq {n : ℕ} (h : n ≠ 0) (hn : n < 2 ^ 8) : decPending n = n - 1 := by
  unfold decPending
  omega

theorem inv_read {req : Req} (h : Inv s) (hp : Possible s (.read req)) (hh : Harmless s (.read req)) :
    ∃ s', step s (.read req) = some s' ∧ Inv s' := by
  obtain ⟨hidle, hmin, hmax⟩ := hp
  obtain ⟨-, h0, hst⟩ := h.delivered.accepts hidle
  have hpend := h.counted.pending
  rw [h0] at hpend
  have hcount : s.devs.countP Dev.inFlight = 0 := by omega
  have hmod : s.devs.length % 2 ^ 8 = s.devs.length := Nat.mod_eq_of_lt h.counted.few
  have hpos : s.devs.length ≠ 0 := by
    rw [Ne, List.length_eq_zero_iff]
    exact hh
  refine ⟨{ s with
    dflyReq := some req
    requests := s.requests + 1
    status := .reading
    nrPendingDev := s.devs.length % 2 ^ 8
    dispatch := some 0 }, ?_, ?_, ?_⟩
  · show (if s.nrPendingDev ≠ 0 then none else if s.status = .opened ∨ s.status = .read then _ else _) = _
    rw [if_neg (not_not.2 h0), if_pos hst]
  · refine ⟨h.counted.few, hmod.le, ?_, ?_, ?_, ?_, ?_, ?_⟩
    · show s.devs.length % 2 ^ 8 = s.devs.countP Dev.inFlight + (s.devs.length - 0)
      rw [hmod, hcount]
      omega
    · intro _ _
      show s.devs.length % 2 ^ 8 ≠ 0
      rwa [hmod]
    · intro _ _ j d _ hd
      exact countP_inFlight_eq_zero.1 hcount d (List.mem_of_getElem? hd)
    · show s.requests + 1 = s.replies.length + if s.devs.length % 2 ^ 8 = 0 then 0 else 1
      rw [hmod, if_neg hpos, hidle]
    · show if s.devs.length % 2 ^ 8 = 0 then _ else _
      rw [hmod, if_neg hpos]
    · exact fun _ => ⟨req, rfl, hmin, hmax⟩
  · obtain ⟨pages, unread, hcarry, hheld, hperm, -⟩ := h.kept
    refine ⟨pages, unread, hcarry, hheld, hperm, fun hzero => ?_⟩
    have hzero' : s.devs.length % 2 ^ 8 = 0 := hzero
    rw [hmod] at hzero'
    exact absurd hzero' hpos

/-! ### A round of the loop over the devices -/

theorem inv_skip {i : ℕ} {d : Dev} (h : Inv s) (hdisp : s.dispatch = some i)
    (hi : s.devs[i]? = some d) (hne : s.nrPendingDev ≠ 1) :
    Inv { s with nrPendingDev := decPending s.nrPendingDev, dispatch := some (i + 1) } := by
  have hc := h.counted
  have hbusy := hc.busy i hdisp
  have hlt : i < s.devs.length := (List.getElem?_eq_some_iff.1 hi).1
  have hdec := decPending_eq hbusy (hc.small.trans_lt hc.few)
  have hpos : s.nrPendingDev - 1 ≠ 0 := by omega
  have hreq := hc.requests
  have hst := hc.status
  rw [if_neg hbusy] at hreq hst
  rw [hdec]
  refine ⟨⟨hc.few, ?_, ?_, fun _ _ => hpos, ?_, ?_, ?_, fun _ => hc.req hbusy⟩, ?_⟩
  · show s.nrPendingDev - 1 ≤ s.devs.length
    exact (Nat.sub_le _ _).trans hc.small
  · have hpend := hc.pending
    simp only [toVisit, hdisp] at hpend ⊢
    omega
  · intro i' hi' j d' hj hd'
    cases hi'
    exact hc.ahead i hdisp j d' (by omega) hd'
  · show s.requests = s.replies.length + if s.nrPendingDev - 1 = 0 then 0 else 1
    rw [if_neg hpos, hreq]
  · show if s.nrPendingDev - 1 = 0 then _ else _
    rwa [if_neg hpos]
  · obtain ⟨pages, unread, hcarry, hheld, hperm, -⟩ := h.kept
    exact ⟨pages, unread, hcarry, hheld, hperm, fun hzero => absurd hzero hpos⟩

theorem inv_ask {i : ℕ} {d : Dev} (h : Inv s) (hdisp : s.dispatch = some i)
    (hi : s.devs[i]? = some d) (hun : d.hasUnread = false) :
    Inv { s with
      devs := s.devs.set i { d with readPos := 0, inFlight := true }, dispatch := some (i + 1) } := by
  have hc := h.counted
  have hbusy := hc.busy i hdisp
  obtain ⟨hlt, hget⟩ := List.getElem?_eq_some_iff.1 hi
  have hlen : (s.devs.set i { d with readPos := 0, inFlight := true }).length = s.devs.length :=
    List.length_set
  refine ⟨⟨?_, ?_, ?_, fun _ _ => hbusy, ?_, hc.requests, hc.status, hc.req⟩, ?_⟩
  · show (s.devs.set i _).length < _
    rw [hlen]
    exact hc.few
  · show s.nrPendingDev ≤ (s.devs.set i _).length
    rw [hlen]
    exact hc.small
  · have hpend := hc.pending
    have hcount : (s.devs.set i { d with readPos := 0, inFlight := true }).countP Dev.inFlight =
        s.devs.countP Dev.inFlight + 1 := by
      rw [List.countP_set hlt, hget, hc.ahead i hdisp i d le_rfl hi]
      simp
    show s.nrPendingDev = List.countP Dev.inFlight (s.devs.set i _) + ((s.devs.set i _).length - (i + 1))
    simp only [toVisit, hdisp] at hpend
    rw [hcount, hlen]
    omega
  · intro i' hi' j d' hj hd'
    cases hi'
    have hd' : (s.devs.set i { d with readPos := 0, inFlight := true })[j]? = some d' := hd'
    rw [List.getElem?_set_ne (by omega)] at hd'
    exact hc.ahead i hdisp j d' (by omega) hd'
  · obtain ⟨pages, unread, hcarry, hheld, hperm, -⟩ := h.kept
    have hnew : Unread { d with readPos := 0, inFlight := true } [] := ⟨rfl, rfl⟩
    obtain ⟨unread', hheld', hperm'⟩ := hheld.set hi (fun rest hr => hr.eq_nil (Or.inr hun)) hnew
    rw [List.append_nil] at hperm'
    exact ⟨pages, unread', hcarry, hheld', (hperm'.append_left _).trans hperm,
      fun hzero => absurd hzero hbusy⟩

theorem inv_loopEnd {i : ℕ} (h : Inv s) (hdisp : s.dispatch = some i) (hi : s.devs[i]? = none) :
    Inv { s with dispatch := none } := by
  have hc := h.counted
  have hge : s.devs.length ≤ i := List.getElem?_eq_none_iff.1 hi
  refine ⟨⟨hc.few, hc.small, ?_, ?_, ?_, hc.requests, hc.status, hc.req⟩, h.kept⟩
  · have hpend := hc.pending
    simp only [toVisit, hdisp] at hpend ⊢
    omega
  · intro _ hnone
    cases hnone
  · intro _ hnone
    cases hnone

theorem inv_dispatch (h : Inv s) (hp : Possible s .dispatch) (hh : Harmless s .dispatch) :
    ∃ s', step s .dispatch = some s' ∧ Inv s' := by
  obtain ⟨i, hdisp⟩ := Option.ne_none_iff_exists'.1 hp
  show ∃ s', dispatchRound s = some s' ∧ Inv s'
  unfold dispatchRound
  rw [hdisp]
  dsimp only
  cases hi : s.devs[i]? with
  | none =>
    dsimp only
    rw [if_neg (h.counted.busy i hdisp)]
    exact ⟨_, rfl, inv_loopEnd h hdisp hi⟩
  | some d =>
    dsimp only
    cases hskip : d.skipped with
    | true =>
      refine ⟨_, rfl, inv_skip h hdisp hi fun hone => ?_⟩
      rw [hh hone i hdisp d hi] at hskip
      cases hskip
    | false =>
      unfold Dev.skipped at hskip
      exact ⟨_, rfl, inv_ask h hdisp hi (Bool.or_eq_false_iff.1 hskip).2⟩

/-! ### A page -/

theorem Held.get {devs : List Dev} {unread : List Bytes} {i : ℕ} {d : Dev} (h : Held devs unread)
    (hi : devs[i]? = some d) : ∃ rest, Unread d rest := by
  induction devs generalizing unread i with
  | nil => cases hi
  | cons e devs ih =>
    obtain ⟨rest, more, -, hrest, hmore⟩ := h
    cases i with
    | zero =>
      cases hi
      exact ⟨rest, hrest⟩
    | succ i => exact ih hmore hi

theorem unread_receive {d : Dev} {rest keys : List Bytes} {mem : Memory} {cdw0 sc : ℕ}
    (h : Unread d rest) (hfl : d.inFlight = true) (hp : IsPage keys mem cdw0)
    (hend : EndsWell keys mem) : Unread (d.receive mem cdw0 sc) keys := by
  unfold Unread at h
  rw [if_pos hfl] at h
  have hcap := hp.cap
  have hmod : cdw0 % 2 ^ 16 = cdw0 := Nat.mod_eq_of_lt (by omega)
  have hsz : (d.receive mem cdw0 sc).itDataSz = cdw0 := hmod
  have hpos : (d.receive mem cdw0 sc).readPos = 0 := h.2
  unfold Unread
  rw [if_neg (by simp [Dev.receive])]
  rcases hp.size with hsize | ⟨hnil, hzero⟩
  · have hbuff : (d.receive mem cdw0 sc).itBuff = mem := by
      refine if_neg ?_
      rw [hmod, hsize]
      unfold pageSize
      omega
    refine Or.inl ⟨keys, hp.lengths, ?_, ?_, hsz.trans hsize, hsz.le.trans hcap, [], rfl, hpos⟩
    · rw [hbuff]
      exact hp.encodes
    · rw [hbuff]
      exact hend
  · exact Or.inr ⟨hnil, hsz.trans hzero, hpos⟩

theorem iterSgReadData_spec {req : Req} {devs : List Dev} {unread : List Bytes}
    (h : Held devs unread) (hd : ∀ d ∈ devs, d.inFlight = false) (hmin : 12 ≤ req.length)
    (hmax : req.length < 2 ^ 31) :
    ∃ devs' r l unread', iterSgReadData req devs = some (devs', r) ∧ unread = l ++ unread' ∧
      Held devs' unread' ∧ Carries r l ∧ r.eof = allEof devs ∧
      devs'.map Dev.inFlight = devs.map Dev.inFlight ∧
      ((devs.map Dev.unreadBytes).sum + 4 < req.length → unread' = []) := by
  have hfilled : Filled req ⟨req.buffer, 4, (req.length : ℤ) - 4, 0, true⟩ [] := filled_nil (by omega)
  obtain ⟨devs', o, l, unread', hcopy, hsplit, hheld, hfill, -, hfl, hall⟩ := copyDevs_spec h hd hfilled
  rw [List.nil_append] at hfill
  have hlen : l.length < 2 ^ 32 := by
    have h₁ := length_le_encodedSize l
    have h₂ := hfill.room
    unfold pageSize at h₂
    omega
  refine ⟨devs', _, l, unread', by rw [iterSgReadData, hcopy]; rfl, hsplit, hheld,
    ⟨?_, ?_, ?_, ?_, ?_, hfill.inPage⟩, rfl, hfl, fun hfits => hall ?_⟩
  · show getWord (putWord o.mem 0 o.nrUnit) 0 = l.length
    rw [hfill.nr]
    exact getWord_putWord_self hlen
  · show Encodes (putWord o.mem 0 o.nrUnit) 4 l
    refine hfill.encodes.congr fun i hi _ => putBytes_of_disjoint (Or.inr ?_)
    rw [length_wordBytes]
    omega
  · show (req.length : ℤ) - o.left = _
    rw [hfill.left]
    omega
  · show (req.length : ℤ) - o.left ≤ (req.length : ℤ)
    rw [hfill.left]
    have := hfill.room
    omega
  · intro i hi
    have hi' : req.length ≤ i := hi
    show putWord o.mem 0 o.nrUnit i = req.buffer i
    rw [← hfill.outside i hi']
    refine putBytes_of_disjoint (Or.inr ?_)
    rw [length_wordBytes]
    omega
  · rw [h.unreadBytes_sum hd] at hfits
    show (encodedSize unread : ℤ) < (req.length : ℤ) - 4
    omega

/-! ### A page that comes -/

section

variable {i : ℕ} {d d' : Dev} {keys : List Bytes} {mem : Memory} {cdw0 sc : ℕ}

/-- A page came, and the device of it is `d'` now. -/
def State.afterPage (s : State) (i : ℕ) (d' : Dev) (keys : List Bytes) : State :=
  { s with
    devs := s.devs.set i d'
    nrPendingDev := s.nrPendingDev - 1
    received := s.received ++ keys }

theorem countP_set_received (hi : s.devs[i]? = some d) (hfl : d.inFlight = true)
    (hd' : d'.inFlight = false) :
    (s.devs.set i d').countP Dev.inFlight = s.devs.countP Dev.inFlight - 1 := by
  obtain ⟨hlt, hget⟩ := List.getElem?_eq_some_iff.1 hi
  rw [List.countP_set hlt, hget, if_pos hfl, if_neg (by simp [hd']), Nat.add_zero]

theorem Counted.pending_ne_zero (hc : Counted s) (hi : s.devs[i]? = some d)
    (hfl : d.inFlight = true) : s.devs.countP Dev.inFlight ≠ 0 ∧ s.nrPendingDev ≠ 0 := by
  have hone : s.devs.countP Dev.inFlight ≠ 0 := by
    rw [Ne, countP_inFlight_eq_zero]
    intro hall
    rw [hall d (List.mem_of_getElem? hi)] at hfl
    cases hfl
  have hpend := hc.pending
  exact ⟨hone, by omega⟩

theorem Counted.afterPage (hc : Counted s) (hi : s.devs[i]? = some d) (hfl : d.inFlight = true)
    (hd' : d'.inFlight = false) (hmore : s.nrPendingDev - 1 ≠ 0) :
    Counted (s.afterPage i d' keys) := by
  obtain ⟨hone, hbusy⟩ := hc.pending_ne_zero hi hfl
  have hlen : (s.devs.set i d').length = s.devs.length := List.length_set
  have hreq := hc.requests
  have hst := hc.status
  rw [if_neg hbusy] at hreq hst
  constructor
  case few =>
    show (s.devs.set i d').length < _
    rw [hlen]
    exact hc.few
  case small =>
    show s.nrPendingDev - 1 ≤ (s.devs.set i d').length
    rw [hlen]
    exact (Nat.sub_le _ _).trans hc.small
  case pending =>
    have hpend := hc.pending
    show s.nrPendingDev - 1 = (s.devs.set i d').countP Dev.inFlight + toVisit _
    rw [countP_set_received hi hfl hd']
    unfold State.afterPage toVisit at *
    dsimp only at *
    rw [hlen]
    omega
  case busy => exact fun _ _ => hmore
  case ahead =>
    intro i' hi' j e hj he
    have he' : (s.devs.set i d')[j]? = some e := he
    rcases eq_or_ne i j with rfl | hij
    · rw [List.getElem?_set_self (List.getElem?_eq_some_iff.1 hi).1] at he'
      cases he'
      exact hd'
    · rw [List.getElem?_set_ne hij] at he'
      exact hc.ahead i' hi' j e hj he'
  case requests =>
    show s.requests = s.replies.length + if s.nrPendingDev - 1 = 0 then 0 else 1
    rw [if_neg hmore, hreq]
  case status =>
    show if s.nrPendingDev - 1 = 0 then _ else _
    rwa [if_neg hmore]
  case req => exact fun _ => hc.req hbusy

/-- The last page came, and the request is completed. -/
theorem Counted.completed (hc : Counted s) (hi : s.devs[i]? = some d) (hfl : d.inFlight = true)
    (hd' : d'.inFlight = false) (hlast : s.nrPendingDev - 1 = 0) (hnone : s.dispatch = none)
    {devs' : List Dev} (hflags : devs'.map Dev.inFlight = (s.devs.set i d').map Dev.inFlight)
    (r : Reply) :
    Counted { s.afterPage i d' keys with
      status := iterUpdateStatus s.status, devs := devs', replies := s.replies ++ [r] } := by
  obtain ⟨hone, hbusy⟩ := hc.pending_ne_zero hi hfl
  have hlen : devs'.length = s.devs.length := by
    have hsame := congrArg List.length hflags
    rwa [List.length_map, List.length_map, List.length_set] at hsame
  have hidle : devs'.countP Dev.inFlight = 0 := by
    have hcount : ∀ l : List Dev, l.countP Dev.inFlight = (l.map Dev.inFlight).countP id :=
      fun l => by rw [List.countP_map]; rfl
    have hpend := hc.pending
    rw [hcount, hflags, ← hcount, countP_set_received hi hfl hd']
    omega
  have hreq := hc.requests
  have hst := hc.status
  rw [if_neg hbusy] at hreq hst
  have hno : ∀ j, s.dispatch ≠ some j := fun j hj => by
    rw [hnone] at hj
    cases hj
  constructor
  case few =>
    show devs'.length < _
    rw [hlen]
    exact hc.few
  case small =>
    show s.nrPendingDev - 1 ≤ _
    rw [hlast]
    exact Nat.zero_le _
  case pending =>
    show s.nrPendingDev - 1 = devs'.countP Dev.inFlight + toVisit _
    rw [hlast, hidle]
    simp [toVisit, State.afterPage, hnone]
  case busy => exact fun j hj => absurd hj (hno j)
  case ahead => exact fun j hj => absurd hj (hno j)
  case requests =>
    show s.requests = (s.replies ++ [r]).length + if s.nrPendingDev - 1 = 0 then 0 else 1
    rw [if_pos hlast, hreq, List.length_append, List.length_singleton, Nat.add_zero]
  case status =>
    show if s.nrPendingDev - 1 = 0 then _ else _
    rw [if_pos hlast]
    right
    show iterUpdateStatus s.status = .read
    rw [hst]
    rfl
  case req => exact fun hne => absurd hlast hne

theorem Kept.afterPage (h : Kept s) (hi : s.devs[i]? = some d) (hfl : d.inFlight = true)
    (hpage : IsPage keys mem cdw0) (hend : EndsWell keys mem) :
    ∃ pages unread, List.Forall₂ Carries s.replies pages ∧
      Held (s.devs.set i (d.receive mem cdw0 sc)) unread ∧
      pages.flatten ++ unread ~ s.received ++ keys := by
  obtain ⟨pages, unread, hcarry, hheld, hperm, -⟩ := h
  obtain ⟨rest, hrest⟩ := hheld.get hi
  have hnew : Unread (d.receive mem cdw0 sc) keys := unread_receive hrest hfl hpage hend
  obtain ⟨unread', hheld', hperm'⟩ := hheld.set hi (fun _ hr => hr.eq_nil (Or.inl hfl)) hnew
  refine ⟨pages, unread', hcarry, hheld', ?_⟩
  calc pages.flatten ++ unread'
      ~ pages.flatten ++ (unread ++ keys) := hperm'.append_left _
    _ = pages.flatten ++ unread ++ keys := (List.append_assoc _ _ _).symm
    _ ~ s.received ++ keys := hperm.append_right keys

theorem inv_done (h : Inv s) (hp : Possible s (.done i keys mem cdw0 sc))
    (hh : Harmless s (.done i keys mem cdw0 sc)) :
    ∃ s', step s (.done i keys mem cdw0 sc) = some s' ∧ Inv s' := by
  obtain ⟨hdev, hpage, -⟩ := hp
  obtain ⟨hlast, hend, hfits⟩ := hh
  obtain ⟨d, hi, hfl⟩ := Option.map_eq_some_iff.1 hdev
  have hc := h.counted
  obtain ⟨hone, hbusy⟩ := hc.pending_ne_zero hi hfl
  have hdec := decPending_eq hbusy (hc.small.trans_lt hc.few)
  obtain ⟨req, hdfly, hmin, hmax⟩ := hc.req hbusy
  obtain ⟨pages, unread, hcarry, hheld, hall⟩ := h.kept.afterPage hi hfl hpage hend
  have hd' : (d.receive mem cdw0 sc).inFlight = false := rfl
  show ∃ s', iterCtrlComplete i mem cdw0 sc { s with received := s.received ++ keys } = some s' ∧ Inv s'
  unfold iterCtrlComplete
  dsimp only
  rw [hi]
  dsimp only
  rw [hdec]
  by_cases hzero : s.nrPendingDev - 1 = 0
  · -- the last page: the request is completed
    have h1 : s.nrPendingDev = 1 := by omega
    have hidle : ∀ e ∈ s.devs.set i (d.receive mem cdw0 sc), e.inFlight = false := by
      have hpend := hc.pending
      rw [← countP_inFlight_eq_zero, countP_set_received hi hfl hd']
      omega
    obtain ⟨devs', r, l, unread', hcopy, rfl, hheld', hcarry', heof, hflags, hempty⟩ :=
      iterSgReadData_spec hheld hidle hmin hmax
    rw [if_pos hzero, hdfly]
    dsimp only
    rw [hcopy]
    refine ⟨_, rfl, ?counted, pages ++ [l], unread', ?carry, hheld', ?perm,
      fun _ r' hr' hr'eof => ?eof⟩
    case counted =>
      rw [← hdfly]
      exact hc.completed hi hfl hd' hzero (hlast h1) hflags r
    case carry => exact List.rel_append hcarry (List.Forall₂.cons hcarry' List.Forall₂.nil)
    case perm =>
      rw [List.flatten_append, List.flatten_singleton, List.append_assoc]
      exact hall
    case eof =>
      have hr'' : (s.replies ++ [r]).getLast? = some r' := hr'
      rw [List.getLast?_append_of_ne_nil _ (by simp), List.getLast?_singleton] at hr''
      cases hr''
      rw [heof] at hr'eof
      exact hempty (hfits h1 d hi hr'eof req hdfly)
  · -- other devices are pending
    rw [if_neg hzero]
    exact ⟨_, rfl, hc.afterPage hi hfl hd' hzero, pages, unread, hcarry, hheld, hall,
      fun h0 => absurd h0 hzero⟩

end

/-! ### Every run -/

theorem inv_step {ev : Event} (h : Inv s) (hok : Possible s ev ∧ Harmless s ev) :
    ∃ s', step s ev = some s' ∧ Inv s' := by
  cases ev with
  | read req => exact inv_read h hok.1 hok.2
  | dispatch => exact inv_dispatch h hok.1 hok.2
  | done i keys mem cdw0 sc => exact inv_done h hok.1 hok.2

theorem inv_opened {n : ℕ} (hn : n < 2 ^ 8) (buffers : ℕ → Memory) : Inv (State.opened n buffers) := by
  have hfresh : ∀ d ∈ (State.opened n buffers).devs, d.inFlight = false := by
    intro d hd
    obtain ⟨i, -, rfl⟩ := List.mem_map.1 hd
    rfl
  have hheld : ∀ l : List ℕ, Held (l.map fun i => ⟨buffers i, 0, 0, 0, false⟩) [] := by
    intro l
    induction l with
    | nil => rfl
    | cons i l ih => exact ⟨[], [], rfl, Or.inr ⟨rfl, rfl, rfl⟩, ih⟩
  refine ⟨⟨?_, Nat.zero_le _, ?_, ?_, ?_, rfl, Or.inl rfl, fun h => absurd rfl h⟩, ?_⟩
  · show ((List.range n).map _).length < _
    rwa [List.length_map, List.length_range]
  · show 0 = (State.opened n buffers).devs.countP Dev.inFlight + 0
    rw [countP_inFlight_eq_zero.2 hfresh]
  · intro i hi
    cases hi
  · intro i hi
    cases hi
  · exact ⟨[], [], List.Forall₂.nil, hheld _, List.Perm.nil, fun _ _ hr => by cases hr⟩

/-- In every run of harmless events the pages are delivered. -/
theorem delivered_of_run {n : ℕ} {buffers : ℕ → Memory} {evs : List Event} (hn : n < 2 ^ 8)
    (hok : Run.Admissible step (fun s ev => Possible s ev ∧ Harmless s ev)
      (State.opened n buffers) evs) :
    ∃ s, Run.run step (State.opened n buffers) evs = some s ∧ Delivered s := by
  obtain ⟨s, hrun, hs⟩ := Run.run_total (fun _ _ h hok => inv_step h hok) (inv_opened hn buffers) hok
  exact ⟨s, hrun, hs.delivered⟩

/-- A page with a key of five bytes. -/
def pageWith (b : UInt8) : Memory :=
  putBytes (putWord (putWord (fun _ => 0) 0 1) 4 5) 8 [b, b, b, b, b]

/-- A page with two keys of five bytes. -/
def pageWithTwo (b c : UInt8) : Memory :=
  putBytes (putWord (putBytes (putWord (putWord (fun _ => 0) 0 2) 4 5) 8 [b, b, b, b, b]) 16 5) 20
    [c, c, c, c, c]

/-- Two requests to two devices. The first device ends with its first page, and is skipped in the
second round. -/
def twoPages : List Event :=
  [.read ⟨64, fun _ => 0⟩, .dispatch, .dispatch, .dispatch,
    .done 1 [[3, 3, 3, 3, 3]] (pageWith 3) 16 0,
    .done 0 [[1, 1, 1, 1, 1], [2, 2, 2, 2, 2]] (pageWithTwo 1 2) 28 endOfIter,
    .read ⟨64, fun _ => 0⟩, .dispatch, .dispatch, .dispatch,
    .done 1 [[4, 4, 4, 4, 4]] (pageWith 4) 16 endOfIter]

theorem delivered_twoPages :
    ∃ s, Run.run step (State.opened 2 fun _ _ => 0) twoPages = some s ∧ Delivered s :=
  delivered_of_run (by decide) (by decide +kernel)

/-- A second key of one byte is left in the buffer, though the end is reported. -/
theorem not_delivered_shortLastKey :
    Run.Admissible step Possible (State.opened 1 fun _ _ => 0)
      [.read ⟨64, fun _ => 0⟩, .dispatch, .dispatch, .done 0 [[1, 2, 3, 4, 5], [6]]
        (putBytes (putWord (putBytes (putWord (putWord (fun _ => 0) 0 2) 4 5) 8 [1, 2, 3, 4, 5])
          16 1) 20 [6]) 24 endOfIter] ∧
    ∃ s, Run.run step (State.opened 1 fun _ _ => 0)
      [.read ⟨64, fun _ => 0⟩, .dispatch, .dispatch, .done 0 [[1, 2, 3, 4, 5], [6]]
        (putBytes (putWord (putBytes (putWord (putWord (fun _ => 0) 0 2) 4 5) 8 [1, 2, 3, 4, 5])
          16 1) 20 [6]) 24 endOfIter] = some s ∧ ¬ Delivered s := by
  refine ⟨by decide, ?_⟩
  have hsum : (Run.run step (State.opened 1 fun _ _ => 0)
      [.read ⟨64, fun _ => 0⟩, .dispatch, .dispatch, .done 0 [[1, 2, 3, 4, 5], [6]]
        (putBytes (putWord (putBytes (putWord (putWord (fun _ => 0) 0 2) 4 5) 8 [1, 2, 3, 4, 5])
          16 1) 20 [6]) 24 endOfIter]).map (fun s => (s.replies.map fun r => (getWord r.buffer 0, r.eof),
            s.received.length, s.requests)) = some ([(1, true)], 2, 1) := by decide
  obtain ⟨s, hs, heq⟩ := Option.map_eq_some_iff.1 hsum
  refine ⟨s, hs, fun h => ?_⟩
  simp only [Prod.mk.injEq] at heq
  obtain ⟨hreplies, hreceived, hrequests⟩ := heq
  obtain ⟨pages, hcarry, -, hall⟩ := h.keys
  obtain ⟨r, hr, hcount⟩ : ∃ r, s.replies = [r] ∧ (getWord r.buffer 0, r.eof) = (1, true) :=
    List.map_eq_singleton_iff.1 hreplies
  rw [hr] at hcarry hall
  obtain ⟨ks, rest, hks, hrest, rfl⟩ := List.forall₂_cons_left_iff.1 hcarry
  obtain rfl := List.forall₂_nil_left_iff.1 hrest
  have hperm := hall hrequests.symm r rfl (congrArg Prod.snd hcount)
  have hlen := hperm.length_eq
  have hone : getWord r.buffer 0 = 1 := congrArg Prod.fst hcount
  rw [List.flatten_singleton, hreceived, ← hks.count, hone] at hlen
  cases hlen

end DssSdk.Iter
