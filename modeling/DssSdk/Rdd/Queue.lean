import Mathlib.Tactic

/-!
# The data-direct queue

A queue of `rdd.c`: requests are posted into a ring, moved to the list of pending requests, given one
of the `send_qd` slots and finished by a work completion.

* `Queue`: the fields of `rdd_rdma_queue_s`, with the work requests that the verbs hold;
* `postReq2queue`, `dssSubmitRequest`: a post takes a reference, submits and drops the reference;
* `startCqPoller`, `cqPollPending`, `cqPollWc`: the poller of the queue;
* `clQueueDisconnect`, `cqShutdown`: the end of a queue.

`none` stands for a failed assertion and for a use of a missing pointer. A request is a number; its
opcode and length are given by a function. The fields `accepted` and `finished` record the history.
-/

namespace DssSdk.Rdd

/-- A `dfly_request_t`. -/
abbrev Req := ℕ

/-- The fields of a request that the queue reads. -/
structure ReqInfo where
  opc : ℕ
  payloadLen : ℕ
  dataDirect : Bool
  deriving DecidableEq, Repr

/-- The parameters of a queue. -/
structure Conf where
  maxSglSegs : ℕ
  sendQd : ℕ
  deriving DecidableEq, Repr

/-- `RDD_CMD_HOST_READ`, `RDD_CMD_CTRL_WRITE` and `RDD_CMD_CTRL_READ`. -/
def cmdHostRead : ℕ := 1
def cmdCtrlWrite : ℕ := 2
def cmdCtrlRead : ℕ := 3

/-- `RDD_RDMA_MAX_KEYED_SGL_LENGTH`. -/
def rdmaMaxKeyedSglLength : ℕ := 2 ^ 24 - 1

/-- `MAX_RDD_SEG_SIZE`. -/
def maxRddSegSize : ℕ := 0x800000

/-- `REQ_PER_POLL`. -/
def reqPerPoll : ℕ := 8

/-- The entries that fit in the ring of `65536` slots. -/
def ringCapacity : ℕ := 65535

/-- `rdd_queue_state_e`. -/
inductive QueueState
  | connecting
  | ready
  | established
  | live
  | disconnecting
  deriving DecidableEq, Repr

/-- The fields of `rdd_req_s`; `dataRead` says that the type of its data work request is
`RDD_WR_TYPE_DATA_READ`, and `sgl` has the lengths of its data segments. -/
structure Slot where
  ctx : Option Req
  cuid : ℕ
  opc : ℕ
  rspIdx : ℕ
  dataRead : Bool
  sgl : List ℕ
  deriving DecidableEq, Repr

/-- How a request is finished. -/
inductive Outcome
  | completed
  | inDataReady
  | freed
  | failed
  deriving DecidableEq, Repr

/-- Who finishes a request: the shutdown, or a work completion with the request that its work request
was posted for. -/
inductive Origin
  | flush
  | wc (postedFor : Option Req)
  deriving DecidableEq, Repr

/-- A finished request. -/
structure Finish where
  req : Req
  how : Outcome
  origin : Origin
  deriving DecidableEq, Repr

/-- The state of a queue. The work requests `sendWrs` and `dataWrs` are posted and not completed,
`hostCmds` are commands that the host has to answer, with slot and request; `rspCid` is the field
`cid` of the response buffers. -/
structure Queue where
  state : QueueState
  ring : Option (List Req)
  pending : List Req
  freeReqs : List ℕ
  outstandingReqs : List ℕ
  outstandingQd : ℕ
  reqs : ℕ → Slot
  reqCuid : Req → ℕ
  cuid : ℕ
  frozen : Bool
  posting : List Req
  pollerOn : Bool
  destroyed : Bool
  sendWrs : List (ℕ × Req)
  dataWrs : List (ℕ × Req)
  hostCmds : List (ℕ × Req)
  recvWrs : List ℕ
  rspCid : ℕ → ℕ
  accepted : List Req
  finished : List Finish

/-- `rdd_queue_connect`: all slots are free, and every response buffer is posted. -/
def queueConnect (conf : Conf) : Queue where
  state := .connecting
  ring := none
  pending := []
  freeReqs := List.range conf.sendQd
  outstandingReqs := []
  outstandingQd := 0
  reqs := fun _ => ⟨none, 0, 0, 2 ^ 16 - 1, false, []⟩
  reqCuid := fun _ => 0
  cuid := 0
  frozen := false
  posting := []
  pollerOn := false
  destroyed := false
  sendWrs := []
  dataWrs := []
  hostCmds := []
  recvWrs := List.range conf.sendQd
  rspCid := fun _ => 0
  accepted := []
  finished := []

section

variable (conf : Conf) (info : Req → ReqInfo)

/-- `rdd_cl_queue_established`. -/
def clQueueEstablished (q : Queue) : Queue :=
  match q.state with
  | .connecting => { q with state := .established }
  | .ready => { q with state := .live }
  | _ => q

/-! ### Posting -/

/-- The start of `rdd_post_req2queue`: `false` when the queue is frozen or gone, else the post holds a
reference. -/
def postReq2queue (q : Queue) (r : Req) : Queue × Bool :=
  if q.destroyed ∨ q.frozen then (q, false) else ({ q with posting := q.posting ++ [r] }, true)

/-- `rdd_dss_submit_request`, and the reference is dropped. -/
def dssSubmitRequest (q : Queue) (r : Req) : Option Queue :=
  let q := { q with posting := q.posting.erase r, accepted := q.accepted ++ [r] }
  if q.state = .connecting ∨ q.state = .established then
    some { q with pending := q.pending ++ [r] }
  else
    match q.ring with
    | none => none
    | some ring =>
        if ring.length < ringCapacity then some { q with ring := some (ring ++ [r]) } else none

/-! ### Slots -/

/-- `rdd_get_free_request`. -/
def getFreeRequest (q : Queue) : Option (ℕ × Queue) :=
  match q.freeReqs with
  | [] => none
  | i :: rest =>
      some (i, { q with
        freeReqs := rest
        outstandingReqs := q.outstandingReqs ++ [i]
        outstandingQd := q.outstandingQd + 1 })

/-- `rdd_put_free_request`. -/
def putFreeRequest (q : Queue) (i : ℕ) : Queue :=
  let slot := q.reqs i
  { q with
    outstandingReqs := q.outstandingReqs.erase i
    freeReqs := q.freeReqs ++ [i]
    outstandingQd := q.outstandingQd - 1
    reqs := Function.update q.reqs i { slot with ctx := none }
    -- the response buffer is posted again
    recvWrs := if slot.opc = cmdHostRead then q.recvWrs ++ [slot.rspIdx] else q.recvWrs }

/-- The loop of `rdd_update_sgl_payload`: the segments and the bytes that are left. -/
def sglSegments (l : ℕ) : ℕ → List ℕ × ℕ
  | 0 => ([], l)
  | segs + 1 =>
      if l = 0 then ([], 0)
      else
        let s := if l < maxRddSegSize then l else maxRddSegSize
        let rest := sglSegments (l - s) segs
        (s :: rest.1, rest.2)

/-- `rdd_post_cmd_host_read`; `none` also for a return code that the caller asserts against. -/
def postCmdHostRead (q : Queue) (r : Req) : Option Queue :=
  if (info r).payloadLen > rdmaMaxKeyedSglLength then none
  else do
    let (i, q) ← getFreeRequest q
    some { q with
      reqs := Function.update q.reqs i
        { q.reqs i with ctx := some r, cuid := q.reqCuid r, opc := cmdHostRead }
      sendWrs := q.sendWrs ++ [(i, r)]
      hostCmds := q.hostCmds ++ [(i, r)] }

/-- `rdd_post_cmd_ctrl_write` and `rdd_post_cmd_ctrl_read`, which differ in the opcode. -/
def postCmdCtrl (opc : ℕ) (q : Queue) (r : Req) : Option Queue :=
  let vlen := (info r).payloadLen
  if vlen > conf.maxSglSegs * maxRddSegSize % 2 ^ 32 then none
  else do
    let (i, q) ← getFreeRequest q
    let sgl := sglSegments vlen (max 1 conf.maxSglSegs)
    if sgl.2 ≠ 0 then none
    else
      some { q with
        reqs := Function.update q.reqs i
          { q.reqs i with
            ctx := some r
            cuid := q.reqCuid r
            opc := opc
            dataRead := decide (opc = cmdCtrlRead)
            sgl := sgl.1 }
        dataWrs := q.dataWrs ++ [(i, r)] }

/-- `rdd_post_cmd_ctrl_write`. -/
def postCmdCtrlWrite : Queue → Req → Option Queue := postCmdCtrl conf info cmdCtrlWrite

/-- `rdd_post_cmd_ctrl_read`. -/
def postCmdCtrlRead : Queue → Req → Option Queue := postCmdCtrl conf info cmdCtrlRead

/-- The `switch` of `rdd_dss_process_pending`; a request with another opcode is only reported. -/
def postCmd (q : Queue) (r : Req) : Option Queue :=
  if (info r).opc = cmdHostRead then postCmdHostRead info q r
  else if (info r).opc = cmdCtrlWrite then postCmdCtrlWrite conf info q r
  else if (info r).opc = cmdCtrlRead then postCmdCtrlRead conf info q r
  else some q

/-- The loop of `rdd_dss_process_pending`. -/
def processPendingLoop : ℕ → Queue → Option Queue
  | 0, q => some q
  | n + 1, q =>
      match q.pending with
      | [] => some q
      | r :: rest =>
          if q.outstandingQd = conf.sendQd then some q
          else
            let q := { q with
              pending := rest
              reqCuid := Function.update q.reqCuid r q.cuid
              cuid := (q.cuid + 1) % 2 ^ 64 }
            (postCmd conf info q r).bind (processPendingLoop n)

/-- `rdd_dss_process_pending`. -/
def dssProcessPending : Queue → Option Queue := processPendingLoop conf info reqPerPoll

/-- `_rdd_start_cq_poller`. -/
def startCqPoller (q : Queue) : Option Queue :=
  if q.pollerOn then none
  else if q.state = .disconnecting then some q
  else do
    let q := { q with ring := some [] }
    let q := { q with
      state :=
        match q.state with
        | .connecting => .ready
        | .established => .live
        | state => state }
    let q ← dssProcessPending conf info q
    some { q with pollerOn := true }

/-! ### Completions -/

/-- A work completion: of a command sent to the host, of a data transfer, or of a receive with the
`cid` in the response and the request that the host answers. -/
inductive Wc
  | send (slot : ℕ) (req : Req) (ok : Bool)
  | data (slot : ℕ) (req : Req) (ok : Bool)
  | recv (rsp : ℕ) (cid : ℕ) (req : Req) (ok : Bool)
  deriving DecidableEq, Repr

/-- `rdd_dss_complete`. -/
def dssComplete (r : Req) : Outcome := if (info r).dataDirect then .completed else .freed

/-- A completion finishes the request of a slot, if `rdd_check_cuid` agrees, and frees the slot. -/
def finishSlot (q : Queue) (i : ℕ) (r : Req) (how : Outcome) (postedFor : Option Req) : Queue :=
  let q :=
    if q.reqCuid r = (q.reqs i).cuid then
      { q with finished := q.finished ++ [⟨r, how, .wc postedFor⟩] }
    else q
  putFreeRequest q i

/-- A failed completion of a slot. -/
def failSlot (q : Queue) (i : ℕ) (postedFor : Option Req) : Queue :=
  match (q.reqs i).ctx with
  | none => q
  | some r => finishSlot q i r .failed postedFor

/-- A successful completion of a slot; `inData` says that the data of a request came in, which
`rdd_dss_process_nvmf` hands on. -/
def completeSlot (q : Queue) (i : ℕ) (inData : Bool) (postedFor : Option Req) : Option Queue :=
  match (q.reqs i).ctx with
  | none => none
  | some r =>
      some (finishSlot q i r (if inData then .inDataReady else dssComplete info r) postedFor)

/-- The verbs hand out a completion: the work request is gone, and a response is in its buffer. A
command that was not sent gets no answer. -/
def deliver (q : Queue) : Wc → Queue
  | .send i r ok =>
      { q with
        sendWrs := q.sendWrs.erase (i, r)
        hostCmds := if ok then q.hostCmds else q.hostCmds.erase (i, r) }
  | .data i r _ => { q with dataWrs := q.dataWrs.erase (i, r) }
  | .recv rsp cid r ok =>
      { q with
        recvWrs := q.recvWrs.erase rsp
        hostCmds := if ok then q.hostCmds.erase (cid, r) else q.hostCmds
        rspCid := if ok then Function.update q.rspCid rsp cid else q.rspCid }

/-- `rdd_process_wc`. -/
def processWc (q : Queue) : Wc → Option Queue
  | .send _ _ _ => some q
  | .data i r ok =>
      if ok then completeSlot info q i (q.reqs i).dataRead (some r)
      else some (failSlot q i (some r))
  | .recv rsp _ r ok =>
      let i := q.rspCid rsp
      if ok then
        let slot := q.reqs i
        completeSlot info { q with reqs := Function.update q.reqs i { slot with rspIdx := rsp } } i
          false (some r)
      else some (failSlot q i none)

/-- `rdd_dss_check_submit_ring`, with the number of requests moved. -/
def dssCheckSubmitRing (q : Queue) : Option (Queue × ℕ) :=
  match q.ring with
  | none => none
  | some ring =>
      some ({ q with ring := some (ring.drop reqPerPoll), pending := q.pending ++ ring.take reqPerPoll },
        (ring.take reqPerPoll).length)

/-- The first part of `rdd_cq_poll`: requests of the ring become pending, and pending ones get a
slot. -/
def cqPollPending (q : Queue) : Option Queue := do
  let (q, _) ← dssCheckSubmitRing q
  dssProcessPending conf info q

/-- The second part of `rdd_cq_poll`, with the completion that `ibv_poll_cq` returns. -/
def cqPollWc (q : Queue) (wc : Wc) : Option Queue := processWc info (deliver q wc) wc

/-! ### The end of a queue -/

/-- `__rdd_cl_queue_disconnect`. -/
def clQueueDisconnect (q : Queue) : Queue :=
  { q with frozen := true, state := .disconnecting, pollerOn := false }

/-- `while(rdd_dss_check_submit_ring(q))`, at most one round for each request and one more. -/
def drainRing : ℕ → Queue → Option Queue
  | 0, _ => none
  | fuel + 1, q => do
      let (q, n) ← dssCheckSubmitRing q
      if n = 0 then some q else drainRing fuel q

/-- `rdd_dss_flush_n_fail_reqs`. -/
def dssFlushNFailReqs (q : Queue) : Queue :=
  { q with
    finished := q.finished ++ q.pending.map (fun r => ⟨r, .failed, .flush⟩)
    pending := [] }

/-- `rdd_cq_shutdown` after its timeout: it waits for the posts that hold a reference. -/
def cqShutdown (q : Queue) : Option Queue :=
  if q.posting ≠ [] then some q
  else do
    let q ← drainRing ((q.ring.getD []).length + 1) q
    let q := dssFlushNFailReqs { q with ring := none }
    some { q with destroyed := true }

/-! ### Events -/

/-- What happens to a queue. -/
inductive Event
  | established
  | startPoller
  | post (r : Req)
  | submit (r : Req)
  | poll
  | completion (wc : Wc)
  | disconnect
  | shutdown
  deriving DecidableEq, Repr

/-- The queue after an event. -/
def step (q : Queue) : Event → Option Queue
  | .established => some (clQueueEstablished q)
  | .startPoller => startCqPoller conf info q
  | .post r => some (postReq2queue q r).1
  | .submit r => dssSubmitRequest q r
  | .poll => cqPollPending conf info q
  | .completion wc => cqPollWc info q wc
  | .disconnect => some (clQueueDisconnect q)
  | .shutdown => cqShutdown q

end

end DssSdk.Rdd
