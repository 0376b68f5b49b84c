import DssSdk.Lib.Run
import DssSdk.Qos.Poller

/-!
# No request is lost or scheduled twice

* `Conserved`: both queues hold the requests that were received and not scheduled yet, each sorted by
  its own tag, the counter is their number, and what was scheduled was due and fitted the shuttle;
* `InOrder`: a request that is received finds no request at the head of a queue with a larger tag;
* `conserved_of_run`: with it `Conserved` holds in every state.

`dfly_poller_insert_queue` looks for a request with a tag that is not larger, and inserts behind it.
A request with the smallest tag of all is not inserted.
-/

namespace DssSdk.Qos

/-! ### One queue -/

/-- The queue is sorted by the tag. -/
def SortedBy (tag : ℕ → ℕ) (q : List ℕ) : Prop := q.Pairwise fun a b => tag a ≤ tag b

theorem insertBehind_spec {tag : ℕ → ℕ} {r x : ℕ} {l : List ℕ}
    (hl : l.Pairwise fun a b => tag b ≤ tag a) (hx : x ∈ l) (hle : tag x ≤ tag r) :
    ∃ l', insertBehind tag r l = some l' ∧ l'.Perm (r :: l) ∧
      l'.Pairwise fun a b => tag b ≤ tag a := by
  induction l with
  | nil => exact absurd hx List.not_mem_nil
  | cons a l ih =>
    obtain ⟨ha, hl'⟩ := List.pairwise_cons.1 hl
    rw [insertBehind]
    by_cases hal : tag a ≤ tag r
    · rw [if_pos hal]
      refine ⟨_, rfl, List.Perm.refl _, List.pairwise_cons.2 ⟨fun b hb => ?_, hl⟩⟩
      rcases List.mem_cons.1 hb with rfl | hb
      · exact hal
      · exact (ha b hb).trans hal
    · rw [if_neg hal]
      have hx' : x ∈ l := by
        rcases List.mem_cons.1 hx with rfl | hx
        · exact absurd hle hal
        · exact hx
      obtain ⟨l', hins, hperm, hsorted⟩ := ih hl' hx'
      rw [hins]
      refine ⟨a :: l', rfl, (hperm.cons a).trans (List.Perm.swap r a l), ?_⟩
      refine List.pairwise_cons.2 ⟨fun b hb => ?_, hsorted⟩
      rcases List.mem_cons.1 (hperm.mem_iff.1 hb) with rfl | hb
      · exact (not_le.1 hal).le
      · exact ha b hb

/-- The tag is not below that of the first request. -/
def NotBelowHead (tag : ℕ → ℕ) (q : List ℕ) (t : ℕ) : Prop := ∀ x ∈ q.head?, tag x ≤ t

instance (tag : ℕ → ℕ) (q : List ℕ) (t : ℕ) : Decidable (NotBelowHead tag q t) :=
  inferInstanceAs (Decidable (∀ x ∈ q.head?, tag x ≤ t))

theorem insertQueue_spec {tag : ℕ → ℕ} {q : List ℕ} {r : ℕ} (hq : SortedBy tag q)
    (hr : NotBelowHead tag q (tag r)) :
    (insertQueue tag q r).Perm (r :: q) ∧ SortedBy tag (insertQueue tag q r) := by
  cases q with
  | nil => exact ⟨List.Perm.refl _, List.pairwise_singleton _ r⟩
  | cons x q =>
    have hrev : (x :: q).reverse.Pairwise fun a b => tag b ≤ tag a := List.pairwise_reverse.2 hq
    obtain ⟨l', hins, hperm, hsorted⟩ := insertBehind_spec hrev
      (List.mem_reverse.2 List.mem_cons_self) (hr x rfl)
    rw [insertQueue, if_neg (List.cons_ne_nil x q), hins]
    refine ⟨(List.reverse_perm l').trans (hperm.trans ?_), List.pairwise_reverse.2 hsorted⟩
    exact (List.reverse_perm _).cons r

theorem SortedBy.congr {tag tag' : ℕ → ℕ} {q : List ℕ} (hq : SortedBy tag q)
    (h : ∀ x ∈ q, tag' x = tag x) : SortedBy tag' q := by
  refine List.Pairwise.imp_of_mem (fun {a b} ha hb hab => ?_) hq
  rw [h a ha, h b hb]
  exact hab

/-! ### The invariant -/

/-- The requests that were scheduled. -/
def scheduled (p : Poller) : List ℕ := (p.shuttles.flatMap Shuttle.seats).map Seat.req

/-- What the scheduler returned was due, and fitted. -/
structure Shuttle.Due (c : Shuttle) : Prop where
  room : c.seats.length ≤ c.maxSeats
  due : ∀ s ∈ c.seats, s.rtag ≤ c.resvTick ∨ s.ltag ≤ c.propTick

/-- No request is lost or scheduled twice. -/
structure Conserved (p : Poller) : Prop where
  resv : p.received.Perm (scheduled p ++ p.resvQ)
  prop : p.received.Perm (scheduled p ++ p.propQ)
  resvSorted : SortedBy (fun r => p.qosTags r .resv) p.resvQ
  propSorted : SortedBy (fun r => p.qosTags r .prop) p.propQ
  count : p.qosQc = p.resvQ.length
  due : ∀ c ∈ p.shuttles, c.Due

/-- Both queues hold the same requests, each once. -/
structure Queued (p : Poller) : Prop where
  same : p.resvQ.Perm p.propQ
  nodup : p.resvQ.Nodup
  bound : p.resvQ.length < 2 ^ 32
  resvSorted : SortedBy (fun r => p.qosTags r .resv) p.resvQ
  propSorted : SortedBy (fun r => p.qosTags r .prop) p.propQ
  count : p.qosQc = p.resvQ.length

/-- A poller without one of the waiting requests. -/
def Poller.without (p : Poller) (r : ℕ) : Poller :=
  { p with
    resvQ := p.resvQ.erase r
    propQ := p.propQ.erase r
    qosQc := (p.qosQc + 2 ^ 32 - 1) % 2 ^ 32 }

/-- A waiting request leaves both queues. -/
theorem Queued.take {p : Poller} {r : ℕ} (h : Queued p) (hr : r ∈ p.resvQ) :
    take p r = some (p.without r) ∧ Queued (p.without r) := by
  have hr' : r ∈ p.propQ := h.same.mem_iff.1 hr
  refine ⟨?_, h.same.erase r, h.nodup.erase r, ?_, h.resvSorted.sublist List.erase_sublist,
    h.propSorted.sublist List.erase_sublist, ?_⟩
  · rw [Qos.take, removeFrom, if_pos hr, Option.bind_some, removeFrom, if_pos hr']
    rfl
  · exact (List.length_erase_le).trans_lt h.bound
  · show (p.qosQc + 2 ^ 32 - 1) % 2 ^ 32 = (p.resvQ.erase r).length
    have hlen := List.length_erase_of_mem hr
    have hpos := List.length_pos_of_mem hr
    have hbound := h.bound
    rw [h.count, hlen]
    omega

/-! ### The scheduler -/

/-- What a loop of the scheduler does: the requests of the new seats leave the queues. -/
structure Takes (p p' : Poller) (seats seats' : List Seat) : Prop where
  queued : Queued p'
  taken : ∃ new, seats' = seats ++ new ∧ p.resvQ.Perm (new.map Seat.req ++ p'.resvQ)
  received : p'.received = p.received
  shuttles : p'.shuttles = p.shuttles

theorem Takes.refl {p : Poller} (h : Queued p) (seats : List Seat) : Takes p p seats seats :=
  ⟨h, ⟨[], (List.append_nil seats).symm, List.Perm.refl _⟩, rfl, rfl⟩

theorem Takes.cons {p p' : Poller} {r : ℕ} {seats seats' : List Seat} (hr : r ∈ p.resvQ)
    (h : Takes (p.without r) p' (seats ++ [p.seat r]) seats') : Takes p p' seats seats' := by
  obtain ⟨new, rfl, hnew⟩ := h.taken
  refine ⟨h.queued, ⟨p.seat r :: new, by rw [List.append_assoc]; rfl, ?_⟩, h.received, h.shuttles⟩
  exact (List.perm_cons_erase hr).trans (hnew.cons r)

theorem mem_without {p : Poller} {r : ℕ} {rest : List ℕ} (hrest : ∀ x ∈ r :: rest, x ∈ p.resvQ)
    (hnd : (r :: rest).Nodup) : ∀ x ∈ rest, x ∈ (p.without r).resvQ := by
  intro x hx
  refine (List.mem_erase_of_ne ?_).2 (hrest x (List.mem_cons_of_mem _ hx))
  rintro rfl
  exact (List.nodup_cons.1 hnd).1 hx

theorem forall_mem_snoc {P : Seat → Prop} {seats : List Seat} {s : Seat} (h : ∀ x ∈ seats, P x)
    (hs : P s) : ∀ x ∈ seats ++ [s], P x := by
  intro x hx
  rcases List.mem_append.1 hx with hx | hx
  · exact h x hx
  · rw [List.mem_singleton.1 hx]
    exact hs

theorem schedResv_spec (tick maxSeats : ℕ) {rest : List ℕ} {p : Poller} {seats : List Seat}
    (h : Queued p) (hrest : ∀ r ∈ rest, r ∈ p.resvQ) (hnd : rest.Nodup)
    (hroom : seats.length ≤ maxSeats) (hdue : ∀ s ∈ seats, s.rtag ≤ tick) :
    ∃ p' seats', schedResv tick maxSeats rest p seats = some (p', seats') ∧
      Takes p p' seats seats' ∧ seats'.length ≤ maxSeats ∧ ∀ s ∈ seats', s.rtag ≤ tick := by
  induction rest generalizing p seats with
  | nil => exact ⟨p, seats, rfl, Takes.refl h seats, hroom, hdue⟩
  | cons r rest ih =>
    rw [schedResv]
    by_cases hnow : p.qosTags r .resv ≤ tick ∧ seats.length < maxSeats
    · have hr := hrest r List.mem_cons_self
      obtain ⟨htake, hq⟩ := h.take hr
      have hroom' : (seats ++ [p.seat r]).length ≤ maxSeats := by
        rw [List.length_append]
        exact hnow.2
      obtain ⟨p', seats', hrun, htakes, hout⟩ := ih hq (mem_without hrest hnd)
        (List.nodup_cons.1 hnd).2 hroom' (forall_mem_snoc hdue hnow.1)
      rw [if_pos hnow, htake, Option.bind_some]
      exact ⟨p', seats', hrun, htakes.cons hr, hout⟩
    · rw [if_neg hnow]
      exact ⟨p, seats, rfl, Takes.refl h seats, hroom, hdue⟩

theorem schedProp_spec (tick maxSeats : ℕ) {rest : List ℕ} {p : Poller} {seats : List Seat}
    (h : Queued p) (hrest : ∀ r ∈ rest, r ∈ p.resvQ) (hnd : rest.Nodup)
    (hroom : seats.length ≤ maxSeats) (hdue : ∀ s ∈ seats, s.ltag ≤ tick) :
    ∃ p' seats', schedProp tick maxSeats rest p seats = some (p', seats') ∧
      Takes p p' seats seats' ∧ seats'.length ≤ maxSeats ∧ ∀ s ∈ seats', s.ltag ≤ tick := by
  induction rest generalizing p seats with
  | nil => exact ⟨p, seats, rfl, Takes.refl h seats, hroom, hdue⟩
  | cons r rest ih =>
    rw [schedProp]
    by_cases hfull : maxSeats ≤ seats.length
    · rw [if_pos hfull]
      exact ⟨p, seats, rfl, Takes.refl h seats, hroom, hdue⟩
    rw [if_neg hfull]
    by_cases hnow : p.qosTags r .lim ≤ tick
    · have hr := hrest r List.mem_cons_self
      obtain ⟨htake, hq⟩ := h.take hr
      have hroom' : (seats ++ [p.seat r]).length ≤ maxSeats := by
        rw [List.length_append]
        exact not_le.1 hfull
      obtain ⟨p', seats', hrun, htakes, hout⟩ := ih hq (mem_without hrest hnd)
        (List.nodup_cons.1 hnd).2 hroom' (forall_mem_snoc hdue hnow)
      rw [if_pos hnow, htake, Option.bind_some]
      exact ⟨p', seats', hrun, htakes.cons hr, hout⟩
    · rw [if_neg hnow]
      exact ih h (fun x hx => hrest x (List.mem_cons_of_mem _ hx)) (List.nodup_cons.1 hnd).2 hroom
        hdue

theorem schedule_spec (conf : Conf) {p : Poller} (h : Queued p) (maxSeats resvTick propTick : ℕ) :
    ∃ p' seats, schedule conf p maxSeats resvTick propTick = some (p', seats) ∧
      Takes p p' [] seats ∧ (Shuttle.mk maxSeats resvTick propTick seats).Due := by
  rw [schedule]
  by_cases hoff : conf.qosEnable = false ∨ p.qosQc = 0
  · rw [if_pos hoff]
    exact ⟨p, [], rfl, Takes.refl h [], Nat.zero_le _, fun s hs => absurd hs List.not_mem_nil⟩
  rw [if_neg hoff]
  obtain ⟨p₁, seats, hresv, htakes, hroom, hdue⟩ :=
    schedResv_spec resvTick maxSeats h (fun r hr => hr) h.nodup
      (Nat.zero_le _) (fun s hs => absurd hs List.not_mem_nil)
  rw [hresv, Option.bind_some]
  dsimp only
  by_cases hseats : seats = []
  · subst hseats
    obtain ⟨p₂, seats, hprop, htakes₂, hroom₂, hdue₂⟩ :=
      schedProp_spec propTick maxSeats htakes.queued
        (fun r hr => htakes.queued.same.mem_iff.2 hr)
        (htakes.queued.same.nodup_iff.1 htakes.queued.nodup) (Nat.zero_le _)
        (fun s hs => absurd hs List.not_mem_nil)
    rw [if_neg (not_not.2 rfl), hprop]
    refine ⟨p₂, seats, rfl, ⟨htakes₂.queued, ?_, htakes₂.received.trans htakes.received,
      htakes₂.shuttles.trans htakes.shuttles⟩, hroom₂, fun s hs => Or.inr (hdue₂ s hs)⟩
    -- the first loop took nothing
    obtain ⟨new, hnil, hnone⟩ := htakes.taken
    obtain ⟨new₂, hnew₂, htaken⟩ := htakes₂.taken
    obtain rfl : new = [] := hnil.symm
    exact ⟨new₂, hnew₂, hnone.trans htaken⟩
  · rw [if_pos hseats]
    exact ⟨p₁, seats, rfl, htakes, hroom, fun s hs => Or.inl (hdue s hs)⟩

/-! ### Runs -/

/-- The invariant of a run. -/
structure PollerInv (p : Poller) : Prop where
  queued : Queued p
  history : p.received.Perm (scheduled p ++ p.resvQ)
  due : ∀ c ∈ p.shuttles, c.Due

theorem PollerInv.conserved {p : Poller} (h : PollerInv p) : Conserved p where
  resv := h.history
  prop := h.history.trans (h.queued.same.append_left _)
  resvSorted := h.queued.resvSorted
  propSorted := h.queued.propSorted
  count := h.queued.count
  due := h.due

theorem pollerInv_init (currTags : ℕ → Attr → ℕ) : PollerInv (pollerInit currTags) :=
  ⟨⟨List.Perm.refl _, List.nodup_nil, Nat.two_pow_pos 32, List.Pairwise.nil, List.Pairwise.nil, rfl⟩,
    List.Perm.refl _, fun _ hc => absurd hc List.not_mem_nil⟩

/-- A request that is received does not wait already, and the counter has room for it. -/
def Fresh (conf : Conf) (p : Poller) : Event → Prop
  | .recv e => (e.session conf).isSome → e.req ∉ p.resvQ ∧ p.resvQ.length + 1 < 2 ^ 32
  | .sched _ _ _ => True

/-- A request that is received finds no request at the head of a queue with a larger tag. -/
def InOrder (conf : Conf) (p : Poller) : Event → Prop
  | .recv e => ∀ ses ∈ e.session conf,
      NotBelowHead (fun r => p.qosTags r .resv) p.resvQ (e.tags conf p ses .resv).1 ∧
      NotBelowHead (fun r => p.qosTags r .prop) p.propQ (e.tags conf p ses .prop).1
  | .sched _ _ _ => True

instance (conf : Conf) (p : Poller) (ev : Event) : Decidable (Fresh conf p ev) := by
  cases ev with
  | recv e =>
    exact inferInstanceAs
      (Decidable ((e.session conf).isSome → e.req ∉ p.resvQ ∧ p.resvQ.length + 1 < 2 ^ 32))
  | sched => exact instDecidableTrue

instance (conf : Conf) (p : Poller) (ev : Event) : Decidable (InOrder conf p ev) := by
  cases ev with
  | recv e =>
    exact inferInstanceAs (Decidable (∀ ses ∈ e.session conf,
      NotBelowHead (fun r => p.qosTags r .resv) p.resvQ (e.tags conf p ses .resv).1 ∧
      NotBelowHead (fun r => p.qosTags r .prop) p.propQ (e.tags conf p ses .prop).1))
  | sched => exact instDecidableTrue

theorem insertQueue_update {tags : ℕ → Attr → ℕ} (new : Attr → ℕ) {q : List ℕ} {r : ℕ} {a : Attr}
    (hq : SortedBy (fun x => tags x a) q) (hr : r ∉ q)
    (hhead : NotBelowHead (fun x => tags x a) q (new a)) :
    (insertQueue (fun x => Function.update tags r new x a) q r).Perm (r :: q) ∧
      SortedBy (fun x => Function.update tags r new x a)
        (insertQueue (fun x => Function.update tags r new x a) q r) := by
  have hold : ∀ x ∈ q, Function.update tags r new x a = tags x a := by
    intro x hx
    have hne : x ≠ r := by
      rintro rfl
      exact hr hx
    rw [Function.update_of_ne hne]
  refine insertQueue_spec (hq.congr hold) fun x hx => ?_
  rw [Function.update_self, hold x (List.mem_of_mem_head? hx)]
  exact hhead x hx

theorem qosRecv_inv {conf : Conf} {p : Poller} {e : Recv} (h : PollerInv p)
    (hfresh : Fresh conf p (.recv e)) (horder : InOrder conf p (.recv e)) :
    ∃ p', qosRecv conf p e = some p' ∧ PollerInv p' := by
  rw [qosRecv]
  cases hses : e.session conf with
  | none => exact ⟨p, rfl, h⟩
  | some ses =>
    obtain ⟨hreq, hroom⟩ := hfresh (by rw [hses]; rfl)
    obtain ⟨hresv, hprop⟩ := horder ses hses
    have hreq' : e.req ∉ p.propQ := fun h0 => hreq (h.queued.same.mem_iff.2 h0)
    obtain ⟨hpermR, hsortedR⟩ := insertQueue_update (fun a => (e.tags conf p ses a).1)
      h.queued.resvSorted hreq hresv
    obtain ⟨hpermP, hsortedP⟩ := insertQueue_update (fun a => (e.tags conf p ses a).1)
      h.queued.propSorted hreq' hprop
    dsimp only
    rw [if_neg (by rw [not_or]; exact ⟨hreq, hreq'⟩)]
    have hlen := hpermR.length_eq
    rw [List.length_cons] at hlen
    refine ⟨_, rfl, ⟨?_, ?_, ?_, hsortedR, hsortedP, ?_⟩, ?_, h.due⟩
    · exact hpermR.trans ((h.queued.same.cons _).trans hpermP.symm)
    · exact hpermR.nodup_iff.2 (List.nodup_cons.2 ⟨hreq, h.queued.nodup⟩)
    · dsimp only
      omega
    · dsimp only
      rw [h.queued.count, hlen]
      omega
    · show (p.received ++ [e.req]).Perm (scheduled p ++ _)
      refine (h.history.append_right _).trans ?_
      rw [List.append_assoc]
      exact ((List.perm_append_comm).trans hpermR.symm).append_left _

theorem qosSched_inv (conf : Conf) {p : Poller} (h : PollerInv p) (maxSeats resvTick propTick : ℕ) :
    ∃ p', qosSched conf p maxSeats resvTick propTick = some p' ∧ PollerInv p' := by
  obtain ⟨p', seats, hsched, htakes, hdue⟩ :=
    schedule_spec conf h.queued maxSeats resvTick propTick
  obtain ⟨new, rfl, hperm⟩ := htakes.taken
  rw [qosSched, hsched]
  have hq := htakes.queued
  refine ⟨_, rfl, ⟨hq.same, hq.nodup, hq.bound, hq.resvSorted, hq.propSorted, hq.count⟩, ?_, ?_⟩
  · show p'.received.Perm
      (((p'.shuttles ++ [Shuttle.mk maxSeats resvTick propTick seats]).flatMap Shuttle.seats).map Seat.req ++
        p'.resvQ)
    rw [htakes.received, htakes.shuttles, List.flatMap_append, List.map_append, List.append_assoc]
    refine h.history.trans (List.Perm.append_left _ ?_)
    simpa using hperm
  · intro c hc
    rcases List.mem_append.1 hc with hc | hc
    · rw [htakes.shuttles] at hc
      exact h.due c hc
    · rw [List.mem_singleton.1 hc]
      exact hdue

/-- In every run of calls that receive their requests in order, no request is lost or scheduled
twice, and no call stops. -/
theorem conserved_of_run (conf : Conf) (currTags : ℕ → Attr → ℕ) (evs : List Event)
    (hok : Run.Admissible (pollerStep conf) (fun p ev => Fresh conf p ev ∧ InOrder conf p ev)
      (pollerInit currTags) evs) :
    ∃ p, Run.run (pollerStep conf) (pollerInit currTags) evs = some p ∧ Conserved p := by
  have hstep : ∀ p ev, PollerInv p → Fresh conf p ev ∧ InOrder conf p ev →
      ∃ p', pollerStep conf p ev = some p' ∧ PollerInv p' := by
    intro p ev h hok
    cases ev with
    | recv e => exact qosRecv_inv h hok.1 hok.2
    | sched maxSeats resvTick propTick => exact qosSched_inv conf h maxSeats resvTick propTick
  obtain ⟨p, hrun, hinv⟩ := Run.run_total hstep (pollerInv_init currTags) hok
  exact ⟨p, hrun, hinv.conserved⟩

/-- Two sessions: the first one's requests get their tags ten ticks apart, the second one's three. -/
def twoSessions : Conf where
  qosEnable := true
  credits := fun ses _ => if ses = 0 then 10 else 3

/-- A request of a session at a clock that stands. -/
def recvAt (req ses tick : ℕ) : Event := .recv ⟨req, false, 0, some (some ses), fun _ => tick⟩

/-- Three requests of both sessions in the order of their tags, and two calls of the scheduler. -/
def orderedCalls : List Event :=
  [recvAt 1 1 100, recvAt 2 0 100, recvAt 3 0 100, .sched 2 100 100, .sched 2 120 120]

theorem conserved_orderedCalls :
    Run.Admissible (pollerStep twoSessions)
        (fun p ev => Fresh twoSessions p ev ∧ InOrder twoSessions p ev)
        (pollerInit fun _ _ => 100) orderedCalls ∧
      ∃ p, Run.run (pollerStep twoSessions) (pollerInit fun _ _ => 100) orderedCalls = some p ∧
        Conserved p := by
  have hok : Run.Admissible (pollerStep twoSessions)
      (fun p ev => Fresh twoSessions p ev ∧ InOrder twoSessions p ev)
      (pollerInit fun _ _ => 100) orderedCalls := by
    decide
  exact ⟨hok, conserved_of_run twoSessions (fun _ _ => 100) orderedCalls hok⟩

/-- A request of the second session comes after one of the first with a larger tag. It is in no
queue. -/
theorem not_conserved_smallerTag :
    ¬ ∃ p, Run.run (pollerStep twoSessions) (pollerInit fun _ _ => 100)
      [recvAt 1 0 100, recvAt 2 1 100] = some p ∧ Conserved p := by
  rintro ⟨p, hrun, hp⟩
  have hresv : (Run.run (pollerStep twoSessions) (pollerInit fun _ _ => 100)
      [recvAt 1 0 100, recvAt 2 1 100]).map (fun p => (p.received, scheduled p, p.resvQ)) =
        some ([1, 2], [], [1]) := by
    decide
  rw [hrun] at hresv
  obtain ⟨hreceived, hrest⟩ := Prod.mk.inj (Option.some.inj hresv)
  obtain ⟨hscheduled, hqueue⟩ := Prod.mk.inj hrest
  have hperm := hp.resv
  rw [hreceived, hscheduled, hqueue] at hperm
  exact absurd hperm.length_eq (by decide)

end DssSdk.Qos
