import DssSdk.Kvtrans.Types
import DssSdk.Listing.Read

/-!
# A request on its way through the network module

A KV request is set up by the network module, posted to the translator and, with the listing on, to
the list module, and comes back to the network module, which completes it to the host. The outcome
travels in three fields: the status that the translator returns, the status of the request and the
NVMe completion.

Source: `dss_net_request.c` (`dss_net_setup_request`, `dss_net_request_process`,
`dss_net_teardown_request`), `dss_net_nvmf.c` (`dss_net_setup_nvmf_resp`,
`dss_nvmf_process_as_no_op`), `dss_kvtrans_module.c` (`dss_setup_kvtrans_req`,
`dss_kvtrans_find_instance_context`, `dss_kvtrans_request_handler`,
`dss_kvtrans_net_request_complete`), `kvtrans.c` (`init_kvtrans_req`, `free_kvtrans_req`),
`list_module.cpp` (`list_find_instance_ctx`, `dfly_list_req_process`) and `dfly_request.cpp`
(`dfly_req_fini`).

The calls of the translator are given by what they return. Not modelled: the subsystems in block mode,
the counters, the chain of block contexts and the judy variant of the listing. A pointer to a module
instance is set and reset together with the pointer to its module.
-/

namespace DssSdk.Net

open DssSdk.Listing (Bytes ListInfo ListContext ReadCmd ReadStatus)
open ByteMemory (Memory)

/-- The build and the options: `asserts` is off with `DSS_RELEASE_BUILD`. -/
structure Conf where
  asserts : Bool
  testNicBw : Bool
  listEnabled : Bool
  list : Listing.Conf
  numKvtThreads : ℕ

/-- The operation code of an NVMe command. -/
inductive NvmeOpc
  | kvStore
  | kvRetrieve
  | kvDelete
  | kvListRead
  | read
  | write
  | other
deriving DecidableEq, Repr

/-- `dss_request_opc_t`. -/
inductive Opc
  | noOp
  | kvStore
  | kvRetrieve
  | kvDelete
  | blkRead
  | blkWrite
  | kvListRead
  | passThrough
deriving DecidableEq, Repr

def dssNvmfGetDssOpc : NvmeOpc → Opc
  | .kvStore => .kvStore
  | .kvRetrieve => .kvRetrieve
  | .kvDelete => .kvDelete
  | .read => .blkRead
  | .write => .blkWrite
  | .kvListRead => .kvListRead
  | .other => .passThrough

/-- An NVMe command as the transport hands it over: a value that is not empty has a buffer, and only a
LIST_READ may come without a key. -/
structure Cmd where
  opc : NvmeOpc
  key : Bytes
  cdw10 : ℕ
  invalBytes : ℕ
  hasValue : Bool
  ioDeviceIndex : ℕ
  maxKeysRequested : ℕ
  startKeyOffset : ℕ
  options : ℕ
  key_le : key.length ≤ 1024
  key_ne : opc ≠ .kvListRead → key ≠ []
  inval_le : invalBytes ≤ 4 * cdw10
  value_ok : 4 * cdw10 - invalBytes ≠ 0 → hasValue = true

/-- `req_value.length`. -/
def Cmd.valLength (cmd : Cmd) : ℕ := 4 * cmd.cdw10 - cmd.invalBytes

/-- What the list module reads of a LIST_READ command. -/
def Cmd.readCmd (cmd : Cmd) : ReadCmd where
  key := cmd.key
  startKeyOffset := cmd.startKeyOffset
  maxKeysRequested := cmd.maxKeysRequested
  listSize := 4 * cmd.cdw10
  options := cmd.options
  hasValue := cmd.hasValue
  valLength := cmd.valLength

/-- The status of an NVMe completion. -/
inductive CplStatus
  | success
  | kvKeyNotExist
  | list (status : ReadStatus)
deriving DecidableEq, Repr

/-- The completion of a command; the transport hands it over zeroed. -/
structure Cpl where
  status : CplStatus
  cdw0 : ℤ
deriving DecidableEq, Repr

/-- `dss_kvtrans_status_t`. -/
inductive KvtransStatus
  | error
  | success
  | free
  | found
  | notFound
  | setBlkStateError
  | setDcStateError
  | allocContigError
  | rollBackError
  | mallocError
  | ioError
  | ioQueued
  | ioSubmitted
  | metaSyncTrue
  | metaSyncFalse
deriving DecidableEq, Repr

/-- `dss_request_rc_t`. -/
inductive ReqStatus
  | success
  | keyNotFound
  | error
deriving DecidableEq, Repr

/-- `dss_net_request_state_t`. -/
inductive NetState
  | free
  | init
  | submitted
  | complete
deriving DecidableEq, Repr

/-- `kv_op_t`. -/
inductive KvOp
  | store
  | retrieve
  | delete
  | exist
deriving DecidableEq, Repr

/-- `kvtrans_req_t`: the operation and the length of the value from its request, and its own
fields. -/
structure KvtransReq where
  opc : KvOp
  valLength : ℕ
  initialized : Bool
  id : ℤ
  state : Kvtrans.ReqState
  hasCtx : Bool
  hasIoTasks : Bool
  ioToQueue : Bool
  baMetaUpdated : Bool
  hasDreq : Bool
deriving DecidableEq, Repr

/-- `dss_request_t` and what is read of the `dfly_request` around it: the command in `net.nvmf_req`,
the contexts of the modules and the list data. -/
structure Request where
  status : ReqStatus
  opc : Opc
  hasSs : Bool
  netInst : Option ℕ
  netState : NetState
  kvtInst : Option ℕ
  kvt : KvtransReq
  listData : ListInfo
  listZone : ℕ

/-- The rings that a request is posted to. -/
inductive Place
  | net
  | kvtrans
  | list (inst : ℕ)
deriving DecidableEq, Repr

/-- The request object with the rings it is in, the buffer and the completion of its command, the
completions handed to the transport, the listing and `task_num` of the translator. -/
structure System where
  req : Request
  posted : List Place
  buffer : Memory
  cpl : Cpl
  completed : List Cpl
  listing : ListContext
  taskNum : ℤ

/-- `DSS_ASSERT`. -/
def dssAssert (conf : Conf) (p : Bool) : Option Unit :=
  if conf.asserts = true ∧ p = false then none else some ()

/-- Put the request into a ring. -/
def System.post (s : System) (p : Place) : System := { s with posted := s.posted ++ [p] }

/-! ### The list module -/

/-- The list data of a request without pairs. -/
def noListData : ListInfo := ⟨0, 0, fun _ => 0, fun _ => 0⟩

/-- `dfly_module_post_request` to the list module. A request whose pairs have no zone other than the
first is posted to the network module and then to no instance. -/
def postList (conf : Conf) (cmd : Cmd) (s : System) : Option System :=
  if cmd.opc = .kvListRead then
    let zone := Listing.readZone conf.list s.listing.rootPrefix cmd.readCmd
    some ({ s with req := { s.req with listZone := zone } }.post
      (.list (Listing.instOf conf.list zone)))
  else if s.req.listData.peCntTbd = 0 then
    (Listing.arrive conf.list s.listing.rootPrefix cmd.key).map fun a =>
      { s with
        req := { s.req with listData := a.data }
        listing := { s.listing with rootPrefix := a.rootPrefix } }.post (.list a.inst)
  else
    (Listing.forwardZone s.req.listData.zone s.req.listData.peTotalCnt).map fun zone =>
      s.post (.list (Listing.instOf conf.list zone))

/-- `list_io` for a STORE or DELETE. -/
def listChange (conf : Conf) (inst : ℕ) (op : Listing.Op) (key : Bytes) (s : System) : System :=
  let pass := Listing.listIo conf.list inst op key s.listing s.req.listData
  { s with listing := pass.listing, req := { s.req with listData := pass.data } }

/-- `list_io`. -/
def listIo (conf : Conf) (inst : ℕ) (cmd : Cmd) (s : System) : Option System :=
  match cmd.opc with
  | .kvStore => some (listChange conf inst .store cmd.key s)
  | .kvDelete => some (listChange conf inst .delete cmd.key s)
  | .kvListRead =>
    (Listing.listHandleReadOp s.listing.rootPrefix (s.listing.zones s.req.listZone) cmd.readCmd
      s.buffer).map fun reply =>
        { s with
          buffer := reply.mem
          cpl := ⟨if reply.status = .success then s.cpl.status else .list reply.status, reply.cdw0⟩ }
  | _ => some s

/-- A subsystem in KV mode posts the request to the network module whatever is left of its pairs. -/
def dflyListReqProcess (conf : Conf) (inst : ℕ) (cmd : Cmd) (s : System) : Option System :=
  (listIo conf inst cmd s).map fun s => s.post .net

/-! ### The translator -/

def dssSetupKvtransReq (conf : Conf) (cmd : Cmd) (s : System) : Option System := do
  dssAssert conf (cmd.key.length ≤ 1024)
  let opc ← match s.req.opc with
    | .kvStore => (dssAssert conf (cmd.valLength = 0 ∨ cmd.hasValue)).map fun _ => KvOp.store
    | .kvRetrieve => (dssAssert conf (cmd.valLength = 0 ∨ cmd.hasValue)).map fun _ => KvOp.retrieve
    | .kvDelete => some KvOp.delete
    | _ => (dssAssert conf false).map fun _ => s.req.kvt.opc
  return { s with req := { s.req with kvt := { s.req.kvt with
    opc := opc, valLength := cmd.valLength } } }

/-- `dfly_module_post_request` to the translator, with `dss_kvtrans_find_instance_context`. -/
def postKvtrans (conf : Conf) (cmd : Cmd) (s : System) : Option System := do
  dssAssert conf s.req.kvtInst.isNone
  return { s with req := { s.req with
    kvtInst := some (cmd.ioDeviceIndex % conf.numKvtThreads) } }.post .kvtrans

/-- What a call of `kvtrans_store`, `kvtrans_retrieve` or `kvtrans_delete` returns and leaves in its
request. -/
structure Call where
  rc : KvtransStatus
  state : Kvtrans.ReqState
  valLength : ℕ
  ioToQueue : Bool
  baMetaUpdated : Bool
deriving DecidableEq, Repr

/-- `dss_kvtrans_setup_request` and `init_kvtrans_req`. -/
def initKvtransReq (s : System) : System :=
  { s with
    req := { s.req with kvt := { s.req.kvt with
      hasIoTasks := true
      id := s.taskNum
      hasCtx := true
      baMetaUpdated := false
      ioToQueue := false
      state := .reqInitialized
      initialized := true } }
    taskNum := s.taskNum + 1 }

def freeKvtransReq (kreq : KvtransReq) : KvtransReq :=
  { kreq with
    hasIoTasks := kreq.hasIoTasks && !kreq.initialized
    baMetaUpdated := false
    hasDreq := false
    id := -1
    ioToQueue := false
    hasCtx := false
    initialized := false }

def dssNetSetupNvmfResp (conf : Conf) (cmd : Cmd) (status : ReqStatus) (cdw0 : ℕ) (s : System) :
    Option System :=
  match status with
  | .success =>
    some { s with cpl := ⟨.success, if s.req.opc = .kvRetrieve then cdw0 else s.cpl.cdw0⟩ }
  | .keyNotFound =>
    if cmd.opc = .kvDelete then some { s with cpl := ⟨.success, 0⟩ }
    else some { s with cpl := { s.cpl with status := .kvKeyNotExist } }
  | .error => (dssAssert conf false).map fun _ => s

/-- The status of the request after `dss_kvtrans_net_request_complete`. Only two codes of the
translator are handled. -/
def requestStatus (conf : Conf) (rc : KvtransStatus) (status : ReqStatus) : Option ReqStatus :=
  match rc with
  | .success => some .success
  | .notFound => some .keyNotFound
  | _ => (dssAssert conf false).map fun _ => status

def dssKvtransNetRequestComplete (conf : Conf) (cmd : Cmd) (rc : KvtransStatus) (s : System) :
    Option System := do
  let status ← requestStatus conf rc s.req.status
  let s := { s with req := { s.req with status := status } }
  let s ← dssNetSetupNvmfResp conf cmd status s.req.kvt.valLength s
  if conf.listEnabled then postList conf cmd s else return s.post .net

/-- The state of the request after a call: an error completes it. -/
def stateAfter (call : Call) : Kvtrans.ReqState :=
  if call.rc ≠ .success ∧ ¬(call.rc = .notFound ∧ call.state = .reqCmpl) then .reqCmpl
  else call.state

/-- The handler around a call. A request that is not complete comes back to the ring when its I/O
ends. -/
def dssKvtransRequestHandler (conf : Conf) (cmd : Cmd) (call : Call) (s : System) : Option System :=
  let s := { s with req := { s.req with kvt := { s.req.kvt with hasDreq := true } } }
  let s := if s.req.kvt.initialized then s else initKvtransReq s
  let kvt : KvtransReq := { s.req.kvt with
    state := stateAfter call
    valLength := call.valLength
    ioToQueue := call.ioToQueue
    baMetaUpdated := call.baMetaUpdated }
  if kvt.state = .reqCmpl then
    dssKvtransNetRequestComplete conf cmd call.rc
      { s with req := { s.req with kvt := freeKvtransReq kvt } }
  else some ({ s with req := { s.req with kvt := kvt } }.post .kvtrans)

/-! ### The network module -/

/-- The request object is given a command, and posted to its network instance. -/
def dssNetSetupRequest (conf : Conf) (inst : ℕ) (buffer : Memory) (cmd : Cmd) (s : System) :
    Option System := do
  dssAssert conf (s.req.netState = .free)
  return { s with
    req := { s.req with
      status := .success
      netInst := some inst
      netState := .init
      hasSs := true
      opc := dssNvmfGetDssOpc cmd.opc }
    buffer := buffer
    cpl := ⟨.success, 0⟩ }.post .net

def dssNvmfProcessAsNoOp (conf : Conf) (cmd : Cmd) (s : System) : Option System := do
  let s := { s with req := { s.req with opc := .noOp } }
  let cdw0 ← match cmd.opc with
    | .kvStore | .kvRetrieve => some (cmd.valLength : ℤ)
    | .kvDelete | .read | .write => some s.cpl.cdw0
    | _ => (dssAssert conf false).map fun _ => s.cpl.cdw0
  return { s with cpl := ⟨.success, cdw0⟩ }

def System.setNetState (s : System) (st : NetState) : System :=
  { s with req := { s.req with netState := st } }

/-- `dss_net_request_complete` and `dss_net_teardown_request`. -/
def completeAndTeardown (conf : Conf) (s : System) : Option System := do
  dssAssert conf (s.req.netState = .complete)
  return { s with
    completed := s.completed ++ [s.cpl]
    req := { s.req with
      status := .error
      hasSs := false
      netInst := none
      netState := .free } }

/-- One round of the loop of `dss_net_request_process`, with whether it returns. -/
def netRound (conf : Conf) (cmd : Cmd) (s : System) : Option (System × Bool) :=
  match s.req.netState with
  | .init =>
    if conf.testNicBw then
      (dssNvmfProcessAsNoOp conf cmd s).map fun s => (s.setNetState .complete, false)
    else if conf.listEnabled ∧ s.req.opc = .kvListRead then
      (postList conf cmd (s.setNetState .submitted)).map fun s => (s, true)
    else if s.req.opc = .blkRead then
      (dssNvmfProcessAsNoOp conf cmd s).map fun s => (s.setNetState .complete, false)
    else do
      dssAssert conf (!s.req.kvt.initialized)
      let s ← dssSetupKvtransReq conf cmd s
      let s ← postKvtrans conf cmd (s.setNetState .submitted)
      return (s, true)
  | .submitted => some (s.setNetState .complete, false)
  | .complete => (completeAndTeardown conf s).map fun s => (s, false)
  | .free => some (s, false)

/-- The loop, which ends when a round leaves the state as it is; the state moves at most three
times. -/
def netLoop (conf : Conf) (cmd : Cmd) : ℕ → System → Option System
  | 0, s => some s
  | fuel + 1, s =>
    (netRound conf cmd s).bind fun r =>
      if r.2 = true ∨ r.1.req.netState = s.req.netState then some r.1
      else netLoop conf cmd fuel r.1

def dssNetRequestProcess (conf : Conf) (cmd : Cmd) (s : System) : Option System :=
  netLoop conf cmd 4 s

/-- `dfly_req_fini`: the transport frees the request. -/
def dflyReqFini (s : System) : System :=
  { s with req := { s.req with
    netInst := none
    kvtInst := none
    listData := noListData
    listZone := 0 } }

/-! ### One use of a request object -/

/-- The poll of the ring that holds the request. The translator takes the next of its calls. -/
def poll (conf : Conf) (cmd : Cmd) (calls : List Call) (s : System) :
    Option (System × List Call) :=
  match s.posted with
  | [] => some (s, calls)
  | .net :: rest =>
    (dssNetRequestProcess conf cmd { s with posted := rest }).map fun s => (s, calls)
  | .list inst :: rest =>
    (dflyListReqProcess conf inst cmd { s with posted := rest }).map fun s => (s, calls)
  | .kvtrans :: rest =>
    match calls with
    | [] => none
    | call :: calls =>
      (dssKvtransRequestHandler conf cmd call { s with posted := rest }).map fun s => (s, calls)

def polls (conf : Conf) (cmd : Cmd) : ℕ → List Call → System → Option (System × List Call)
  | 0, calls, s => some (s, calls)
  | n + 1, calls, s => (poll conf cmd calls s).bind fun r => polls conf cmd n r.2 r.1

/-- The calls for one request: those that leave it waiting, and the one that ends it. -/
structure Translation where
  waits : List Call
  last : Call
  waits_open : ∀ c ∈ waits, c.rc = .success ∧ c.state ≠ .reqCmpl
  last_ends : last.rc = .success → last.state = .reqCmpl

def Translation.calls (tr : Translation) : List Call := tr.waits ++ [tr.last]

/-- A command from its set-up until the transport frees the request. -/
def serve (conf : Conf) (inst : ℕ) (buffer : Memory) (cmd : Cmd) (tr : Translation) (s : System) :
    Option System := do
  let s ← dssNetSetupRequest conf inst buffer cmd s
  let r ← polls conf cmd (tr.calls.length + 3) tr.calls s
  return dflyReqFini r.1

end DssSdk.Net
