import Mathlib.Tactic

/-!
# The QoS poller

`dfly_poller.c`: a request that comes in gets a reservation, a limit and a proportion tag from its
session, and waits in a queue sorted by the first and in one sorted by the last of them. The
scheduler takes the requests whose reservation tag is due, or else, in the order of the proportion
tags, those whose limit tag is due.

* `Poller`: the queues, the counter, and the tags of the requests and of the sessions;
* `insertQueue`, `getTag`: `dfly_poller_insert_queue`, `dfly_poller_get_tag`;
* `qosRecv`, `qosSched`: `dfly_poller_qos_recv`, `dfly_poller_qos_sched`;
* `Event`, `pollerStep`: one call.

A request is a number and a queue is the list of its requests. `none` is a call that follows or
overwrites links that are not those of a queue: a request is received that waits already, or one is
removed from a queue it is not in. The fields `received` and `shuttles` are a record of what has
happened.
-/

namespace DssSdk.Qos

/-- `dfly_qos_attr`. -/
inductive Attr
  | resv
  | lim
  | prop
  deriving DecidableEq, Repr

/-- `df_qos_enable`, and the credits in the profile of a session. -/
structure Conf where
  qosEnable : Bool
  credits : ℕ → Attr → ℕ

/-- A request that was scheduled, with its tags. -/
structure Seat where
  req : ℕ
  rtag : ℕ
  ltag : ℕ
  deriving DecidableEq, Repr

/-- A call of the scheduler: what it was asked for, both readings of the clock, and what it
returned. -/
structure Shuttle where
  maxSeats : ℕ
  resvTick : ℕ
  propTick : ℕ
  seats : List Seat
  deriving DecidableEq, Repr

/-- `dfly_poller_t`, with `qos_tags` of the requests and `dfs_curr_tags` of the sessions. -/
structure Poller where
  resvQ : List ℕ
  propQ : List ℕ
  qosQc : ℕ
  qosTags : ℕ → Attr → ℕ
  currTags : ℕ → Attr → ℕ
  received : List ℕ
  shuttles : List Shuttle

/-- `dfly_poller_init`, with any tags of the sessions. -/
def pollerInit (currTags : ℕ → Attr → ℕ) : Poller where
  resvQ := []
  propQ := []
  qosQc := 0
  qosTags := fun _ _ => 0
  currTags := currTags
  received := []
  shuttles := []

/-! ### The queues -/

/-- The loop of `dfly_poller_insert_queue` over the queue from its tail on, which ends behind the
first request with a tag that is not larger. -/
def insertBehind (tag : ℕ → ℕ) (r : ℕ) : List ℕ → Option (List ℕ)
  | [] => none
  | x :: rest => if tag x ≤ tag r then some (r :: x :: rest)
      else (insertBehind tag r rest).map fun l => x :: l

/-- `dfly_poller_insert_queue`. A request with the smallest tag is left out unless the queue is
empty. -/
def insertQueue (tag : ℕ → ℕ) (q : List ℕ) (r : ℕ) : List ℕ :=
  if q = [] then [r]
  else ((insertBehind tag r q.reverse).map List.reverse).getD q

/-- `TAILQ_REMOVE`. -/
def removeFrom (q : List ℕ) (r : ℕ) : Option (List ℕ) := if r ∈ q then some (q.erase r) else none

/-! ### `dfly_poller_qos_recv` -/

/-- `dfly_poller_get_tag`: the tag of the request, and the new tag of the session. -/
def getTag (otag credits nops tick : ℕ) : ℕ × ℕ :=
  let iotag := max tick ((otag + credits) % 2 ^ 64)
  (iotag, if nops = 1 then iotag else (iotag + (nops + 2 ^ 64 - 1) % 2 ^ 64 * credits) % 2 ^ 64)

/-- The arguments of `dfly_poller_qos_recv`: the request with its command and the length of its
value, the session of its controller (no controller, or no session or profile), and the clock at
each reading. -/
structure Recv where
  req : ℕ
  isStore : Bool
  valueLength : ℕ
  ctrl : Option (Option ℕ)
  tick : Attr → ℕ

/-- The operations a request counts for. -/
def Recv.nops (e : Recv) : ℕ := if e.isStore then e.valueLength / 4096 else 1

/-- The session whose tags the request takes, if it is queued at all. -/
def Recv.session (conf : Conf) (e : Recv) : Option ℕ := if conf.qosEnable then e.ctrl.join else none

/-- Both tags for an attribute. -/
def Recv.tags (conf : Conf) (p : Poller) (e : Recv) (ses : ℕ) (a : Attr) : ℕ × ℕ :=
  getTag (p.currTags ses a) (conf.credits ses a) e.nops (e.tick a)

/-- `dfly_poller_qos_recv`, which returns 1 if the request has a session. -/
def qosRecv (conf : Conf) (p : Poller) (e : Recv) : Option Poller :=
  match e.session conf with
  | none => some p
  | some ses =>
      if e.req ∈ p.resvQ ∨ e.req ∈ p.propQ then none
      else
        let tags := Function.update p.qosTags e.req fun a => (e.tags conf p ses a).1
        some
          { p with
            resvQ := insertQueue (fun r => tags r .resv) p.resvQ e.req
            propQ := insertQueue (fun r => tags r .prop) p.propQ e.req
            qosQc := (p.qosQc + 1) % 2 ^ 32
            qosTags := tags
            currTags := Function.update p.currTags ses fun a => (e.tags conf p ses a).2
            received := p.received ++ [e.req] }

/-! ### `dfly_poller_qos_sched` -/

/-- A request leaves both queues. -/
def take (p : Poller) (r : ℕ) : Option Poller :=
  (removeFrom p.resvQ r).bind fun resvQ =>
    (removeFrom p.propQ r).map fun propQ =>
      { p with resvQ := resvQ, propQ := propQ, qosQc := (p.qosQc + 2 ^ 32 - 1) % 2 ^ 32 }

/-- The seat of a request. -/
def Poller.seat (p : Poller) (r : ℕ) : Seat := ⟨r, p.qosTags r .resv, p.qosTags r .lim⟩

/-- The loop over the reservation queue. -/
def schedResv (tick maxSeats : ℕ) : List ℕ → Poller → List Seat → Option (Poller × List Seat)
  | [], p, seats => some (p, seats)
  | r :: rest, p, seats =>
      if p.qosTags r .resv ≤ tick ∧ seats.length < maxSeats then
        (take p r).bind fun p' => schedResv tick maxSeats rest p' (seats ++ [p.seat r])
      else some (p, seats)

/-- The loop over the proportional queue. -/
def schedProp (tick maxSeats : ℕ) : List ℕ → Poller → List Seat → Option (Poller × List Seat)
  | [], p, seats => some (p, seats)
  | r :: rest, p, seats =>
      if maxSeats ≤ seats.length then some (p, seats)
      else if p.qosTags r .lim ≤ tick then
        (take p r).bind fun p' => schedProp tick maxSeats rest p' (seats ++ [p.seat r])
      else schedProp tick maxSeats rest p seats

/-- The requests the scheduler takes. -/
def schedule (conf : Conf) (p : Poller) (maxSeats resvTick propTick : ℕ) :
    Option (Poller × List Seat) :=
  if conf.qosEnable = false ∨ p.qosQc = 0 then some (p, [])
  else
    (schedResv resvTick maxSeats p.resvQ p []).bind fun (p₁, seats) =>
      if seats ≠ [] then some (p₁, seats) else schedProp propTick maxSeats p₁.propQ p₁ []

/-- `dfly_poller_qos_sched`. -/
def qosSched (conf : Conf) (p : Poller) (maxSeats resvTick propTick : ℕ) : Option Poller :=
  (schedule conf p maxSeats resvTick propTick).map fun (p', seats) =>
    { p' with shuttles := p'.shuttles ++ [⟨maxSeats, resvTick, propTick, seats⟩] }

/-! ### The calls -/

/-- The calls on a poller. -/
inductive Event
  | recv (e : Recv)
  | sched (maxSeats resvTick propTick : ℕ)

/-- One call. -/
def pollerStep (conf : Conf) (p : Poller) : Event → Option Poller
  | .recv e => qosRecv conf p e
  | .sched maxSeats resvTick propTick => qosSched conf p maxSeats resvTick propTick

end DssSdk.Qos
