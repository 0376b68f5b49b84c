import DssSdk.Fuse.Pairs

/-!
# The fuse module

`fuse_module.cpp`, the callbacks of `fuse_lib.cpp`, and `dfly_req_fini`: commands come to the
module, commands come back from the device or from the log, the poller tries delayed requests again
and drops those that waited too long, and the memory of an answered request is given back.

* `dflyFuseReqProcess`, `dflyFuseReqComplete`, `dflyFuseGenericPoll`: the functions of the module;
* `dflyFuseRelease`: what is left of a request is taken out of the map;
* `Event`, `step`: one step of a map, `none` when the target stops.

A delayed write that the poller finds admissible is not handed on: `dfly_fuse_generic_poll` only
prints that it is done, where the loop of the module framework calls `dfly_handle_request`.
-/

namespace DssSdk.Fuse

variable (E : Env)

/-- `fuse_io` on the pointers of a request that is not tried again. -/
def resetLinks (r : ℕ) : M Unit := do
  if (← getRequest r).fuseData = none then modifyRequest r fun q => { q with nextReq := none }
  else pure ()

/-- `fuse_io`. -/
def fuseIo (r : ℕ) : M IoRc := do
  resetLinks r
  match (← getRequest r).opc with
  | .store => fuseHandleStoreOp r
  | .delete => fuseHandleDeleteOp r
  | .cmp => fuseHandleF1Op E r
  | .storeFuse2 => fuseHandleF2Op E r
  | .deleteFuse2 => fuseHandleF2Op E r

/-- A request goes to the queue of the poller. -/
def wpDelay (r : ℕ) : M Unit := modify fun s => { s with wpDelayQueue := r :: s.wpDelayQueue }

/-- `dfly_fuse_req_process` on a request that is to be tried again: for the second command of a pair
the first one is. -/
def wpRetry (r : ℕ) : M Unit := do
  let q ← getRequest r
  if q.opc.isF2 = true then
    match q.f1Req with
    | none => throw .assertFailed
    | some f1 => wpDelay f1
  else wpDelay r

/-- `dfly_fuse_req_process`: true when the request is to be handed on. -/
def dflyFuseReqProcess (r : ℕ) : M Bool := do
  match ← fuseIo E r with
  | .writeSuccess => return true
  | .deleteSuccess => return true
  | .f1Match => return true
  | .retry =>
      wpRetry r
      return false
  | _ => return false

/-- A request is handed on to the log or to the I/O threads. -/
def forward (r : ℕ) : M Unit := do
  let q ← getRequest r
  send .plain (q.fuseData.getD (0, 0)) r (some q.key)

/-- A command comes to the module. -/
def arrive (c : Command) : M Unit := do
  let r := (← get).nrRequests
  modify fun s => { s.setRequest r c.request with nrRequests := r + 1 }
  if (← dflyFuseReqProcess E r) = true then forward r

/-- The answer to a request. -/
def nvmfComplete (r : ℕ) (code : StatusCode) : M Unit :=
  modify fun s => { s with completed := (r, code) :: s.completed }

/-- The key buffer of an item is given back if the key needed one. -/
def putKeyBuff (i : ItemRef) (key : List UInt8) : M Unit :=
  if key.length > maxEmbedKeySize then do
    check ((← getItem i).largeKeyBuff = true)
    modifyItem i fun it => { it with largeKeyBuff := false }
  else pure ()

/-- `dfly_kv_pool_fuse_complete`. -/
def dflyKvPoolFuseComplete (i : ItemRef) (success : Bool) : M Unit := do
  putKeyBuff i (← getItem i).key
  match (← getItem i).fuseReq with
  | none => throw .assertFailed
  | some r =>
      modifyRequest r fun q => { q with fuseData := some i }
      dflyFuseComplete E r success

/-- `dfly_fuse_wal_complete`. -/
def dflyFuseWalComplete (i : ItemRef) : M Unit := do
  match (← getItem i).fuseReq with
  | none => throw .assertFailed
  | some r => putKeyBuff i (← getRequest r).key

/-- `dfly_fuse_complete` for the request that a command was made for. -/
def parentComplete (r : ℕ) (success : Bool) : M Unit := do
  dflyFuseComplete E r success
  modifyRequest r fun q => { q with fuseData := none }

/-- `dfly_fuse_req_complete`. A request of the fabric comes back itself; a command of a pair calls
its callback, and one of the log then completes the request it was made for. Without the item in
that request the code goes on with the command that was just given back. -/
def dflyFuseReqComplete (io : Io) (success : Bool) (data : List UInt8) : M Unit :=
  match io.kind with
  | .plain => do
      if (← getRequest io.req).fuseData ≠ none then parentComplete E io.req success
      nvmfComplete io.req (if success then .success else .deviceError)
  | .retrieve => do
      modifyItem io.item fun it =>
        { it with f1ReadVal := it.f1ReadVal.map fun v => { v with value := data } }
      dflyKvPoolFuseComplete E io.item success
  | .write => dflyKvPoolFuseComplete E io.item success
  | .walWrite => do
      dflyFuseWalComplete io.item
      if (← getRequest io.req).fuseData ≠ none then parentComplete E io.req success
      else throw .nullPointer

/-- The `n`-th of the commands under way comes back, with the data of a read. -/
def ioDone (n : ℕ) (success : Bool) (data : List UInt8) : M Unit := do
  match (← get).flight[n]? with
  | none => pure ()
  | some io =>
      modify fun s => { s with flight := s.flight.eraseIdx n }
      dflyFuseReqComplete E io success data

/-- `dfly_fuse_generic_poll` on the queue of delayed requests. -/
def dflyFuseGenericPoll : M Unit := do
  match (← get).wpDelayQueue with
  | [] => pure ()
  | r :: rs =>
      modify fun s => { s with wpDelayQueue := rs }
      let _ ← dflyFuseReqProcess E r

/-- A request whose time is over leaves the waiting queue of its item. -/
def dropWaiting (r : ℕ) : M Unit := do
  match (← getRequest r).fuseData with
  | none => pure ()
  | some i =>
      let it ← getItem i
      check (it.fuseReq ≠ some r)
      if r ∈ it.waiting then modifyItem i fun it => { it with waiting := it.waiting.erase r }
      else throw .nullPointer

/-- `dfly_fuse_generic_poll` on a request whose time is over. The oldest one is first. -/
def expire : M Unit := do
  match (← get).wpPendingQueue with
  | [] => pure ()
  | r :: rs =>
      modify fun s => { s with wpPendingQueue := rs }
      dropWaiting r
      nvmfComplete r .fuseCmdMissed

/-- `dfly_fuse_release`. -/
def dflyFuseRelease (i : ItemRef) (r : ℕ) : M Unit := do
  modifyItem i fun it =>
    { it with refCnt := it.refCnt - 1, waiting := it.waiting.filter (· ≠ r) }
  modify fun s =>
    { s with
      wpPendingQueue := s.wpPendingQueue.filter (· ≠ r)
      wpDelayQueue := s.wpDelayQueue.filter (· ≠ r) }

/-- `dfly_req_fini`: the memory of an answered request is given back, once. Its command stays known
here under the number of the request. -/
def dflyReqFini (r : ℕ) : M Unit := do
  let s ← get
  if r ∈ s.completed.map Prod.fst ∧ (s.requests r).reqCtx = true then
    match (s.requests r).fuseData with
    | none => modifyRequest r fun q => { q.clear with reqCtx := false }
    | some i =>
        dflyFuseRelease i r
        modifyRequest r fun q => { q.clear with reqCtx := false }
  else pure ()

/-- What may happen to a map. -/
inductive Event
  | arrive (c : Command)
  | ioDone (n : ℕ) (success : Bool) (data : List UInt8)
  | poll
  | expire
  | fini (r : ℕ)
  deriving DecidableEq, Repr

/-- The module on an event. -/
def handle : Event → M Unit
  | .arrive c => arrive E c
  | .ioDone n success data => ioDone E n success data
  | .poll => dflyFuseGenericPoll E
  | .expire => expire
  | .fini r => dflyReqFini r

/-- The map after an event. -/
def step (s : FuseMap) (e : Event) : Option FuseMap :=
  match handle E e s with
  | .ok (_, s') => some s'
  | .error _ => none

theorem step_eq_some {s s' : FuseMap} {e : Event} :
    step E s e = some s' ↔ handle E e s = .ok ((), s') := by
  unfold step
  split
  · rename_i u s₁ h
    simp [h]
  · rename_i f h
    simp [h]

end DssSdk.Fuse
