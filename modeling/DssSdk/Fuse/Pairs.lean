import DssSdk.Fuse.Map

/-!
# Fused pairs

`fuse_lib.cpp`: the handlers of plain writes and of the two commands of a fused pair, the reads and
writes of a pair, and what follows when they come back.

* `doFuseF1Op`, `doFuseF2Op`: the read of the comparison and the write after it;
* `doFuseHandleFuseOp`: a pair is started, and the pairs after it while they fail at once;
* `fuseHandleStoreOp`, `fuseHandleF1Op`, `fuseHandleF2Op`: a command comes to the module;
* `dflyFuseComplete`: a command comes back from the device.

The loops take the next linked pair out of the waiting queue, so that they run at most once for each
request in it; the fuel of the model is the length of the queue.
-/

namespace DssSdk.Fuse

/-- `FUSE_IO_RC_*`. -/
inductive IoRc
  | writeSuccess
  | deleteSuccess
  | f2Complete
  | waitForF2
  | waitForF1
  | fuseInProgress
  | f1Fail
  | f1Match
  | retry
  deriving DecidableEq, Repr

/-- `SAMSUNG_KV_MAX_EMBED_KEY_SIZE`. -/
def maxEmbedKeySize : ℕ := 16

/-- `SAMSUNG_KV_MAX_FABRIC_KEY_SIZE`. -/
def maxFabricKeySize : ℕ := 1023

/-- `fuse_compare_value`: true when the values match. -/
def fuseCompareValue (v₁ v₂ : Value) : Bool :=
  v₁.length - v₁.offset == v₂.length - v₂.offset &&
    (v₁.value.drop v₁.offset.toNat).take v₁.length.toNat ==
      (v₂.value.drop v₂.offset.toNat).take v₁.length.toNat

/-- `dfly_is_fuse_pair`: `dfly_cmd_sequential` on two requests of the fabric. -/
def dflyIsFusePair (f1 f2 : Request) : Bool := f1.qpair == f2.qpair && f2.ioSeqNo == f1.ioSeqNo + 1

/-- A command leaves the module. -/
def send (kind : IoKind) (i : ItemRef) (req : ℕ) (key : Option (List UInt8)) : M Unit :=
  modify fun s =>
    { s with
      flight := s.flight ++ [⟨kind, i, req, key, (s.items i).key, s.ticks, (s.items i).readAt⟩]
      ticks := s.ticks + 1 }

@[simp] theorem wp_send {F : Fault → Prop} {s : FuseMap} {kind : IoKind} {i : ItemRef} {r : ℕ}
    {key : Option (List UInt8)} {Q : Unit → FuseMap → Prop} :
    Program.wp F (send kind i r key) Q s ↔ Q ()
      { s with
        flight := s.flight ++ [⟨kind, i, r, key, (s.items i).key, s.ticks, (s.items i).readAt⟩]
        ticks := s.ticks + 1 } := Iff.rfl

/-- `find_get_linked_fuse`. -/
def findGetLinkedFuse (i : ItemRef) : M (Option ℕ) := do
  let s ← get
  return (s.items i).waiting.find? fun r => (s.requests r).nextReq.isSome

variable (E : Env)

/-- `_complete_pending_fuse_op` after the status was set. The pointers of the request are only
cleared with `fuse_debug_level`. -/
def completePendingFuseOp (r : ℕ) (code : StatusCode) : M Unit := do
  if E.fuseDebugLevel ≠ 0 then
    modifyRequest r Request.clear
  modify fun s => { s with completed := (r, code) :: s.completed }

/-- `TAILQ_REMOVE_INIT` on the queue of the requests that may time out. -/
def wpPendingRemove (r : ℕ) : M Unit := do
  let s ← get
  if r ∈ s.wpPendingQueue then
    modify fun s => { s with wpPendingQueue := s.wpPendingQueue.erase r }
  else throw .nullPointer

/-- `f1_buffer_release`. -/
def f1BufferRelease (i : ItemRef) : M Unit := do
  check ((← getItem i).f1ReadVal.isSome)
  modifyItem i fun it => { it with f1ReadVal := none }

/-- `fuse_prepare_large_key`: the copy of the key, `none` when there is no buffer. -/
def fusePrepareLargeKey (i : ItemRef) : M (Option (List UInt8)) := do
  let it ← getItem i
  check (it.largeKeyBuff = false ∧ it.key.length ≤ maxFabricKeySize + 1)
  let t ← nextTick
  if E.keyBuff t then
    modifyItem i fun it => { it with largeKeyBuff := true }
    return some it.key
  else return none

/-- The comparison of a read through the log. -/
def walCompare (f1 : ℕ) (val f1Val : Value) (fullSize : UInt32) (data : List UInt8) : M IoRc := do
  let ok := fullSize == val.length && fuseCompareValue { val with value := data } f1Val
  modify fun s => { s with compared := (f1, ok) :: s.compared }
  return if ok then .f1Match else .f1Fail

/-- The read of `do_fuse_F1_op` from the device. -/
def f1DeviceRead (i : ItemRef) (f1 : ℕ) : M IoRc := do
  let it ← getItem i
  if it.key.length > maxEmbedKeySize then
    match ← fusePrepareLargeKey E i with
    | some key =>
        send .retrieve i f1 (some key)
        return .fuseInProgress
    | none => return .retry
  else
    send .retrieve i f1 (some it.key)
    return .fuseInProgress

/-- The read of `do_fuse_F1_op` through the log. -/
def f1WalRead (i : ItemRef) (f1 : ℕ) (val f1Val : Value) : M IoRc := do
  let t ← nextTick
  match E.walIo t with
  | some (fullSize, data) =>
      let rc ← walCompare f1 val f1Val fullSize data
      modifyItem i fun it => { it with f1ReadVal := none }
      return rc
  | none => f1DeviceRead E i f1

/-- `do_fuse_F1_op`. -/
def doFuseF1Op (i : ItemRef) : M IoRc := do
  let it ← getItem i
  let f1 ← deref it.fuseReq
  let f1Val := (← getRequest f1).value
  let t ← nextTick
  let val : Value := ⟨E.valueBuff t, f1Val.length, 0⟩
  modifyItem i fun it => { it with f1ReadVal := some val, readAt := t }
  if E.walEnabled then
    if it.key.length > maxEmbedKeySize then
      match ← fusePrepareLargeKey E i with
      | some _ => f1WalRead E i f1 val f1Val
      | none => return .retry
    else f1WalRead E i f1 val f1Val
  else f1DeviceRead E i f1

/-- `do_fuse_F2_op`. Without the log a key that does not fit into the command is sent as the null key
when there is no buffer for it, and is tried again when there is one. -/
def doFuseF2Op (i : ItemRef) : M IoRc := do
  let it ← getItem i
  let f2 ← deref it.fuseReq
  if E.walEnabled then
    if it.key.length > maxEmbedKeySize then
      match ← fusePrepareLargeKey E i with
      | some key =>
          send .walWrite i f2 (some key)
          return .fuseInProgress
      | none => return .retry
    else
      send .walWrite i f2 (some it.key)
      return .fuseInProgress
  else
    if it.key.length > maxEmbedKeySize then
      match ← fusePrepareLargeKey E i with
      | some _ => return .retry
      | none =>
          send .write i f2 none
          return .fuseInProgress
    else
      send .write i f2 (some it.key)
      return .fuseInProgress

/-- The pair is answered as failed. -/
def failPair (f1 f2 : ℕ) : M Unit := do
  completePendingFuseOp E f1 .fuseCmpFailure
  completePendingFuseOp E f2 .fuseCmd2Abort

/-- The pair that is started cannot time out any more. -/
def stopTimers (f1 f2 : ℕ) : M Unit :=
  if E.fuseTimeoutMs > 0 then do
    wpPendingRemove f1
    wpPendingRemove f2
  else pure ()

/-- `do_fuse_handle_fuse_op` after the read of the comparison. After a retry of the second command
`fuse_req` is set, so that the return there leaves the loop as well. -/
def afterF1Op (i : ItemRef) (f1 f2 : ℕ) : IoRc → M IoRc
  | .f1Match => do
      modifyItem i fun it => { it with fuseReq := some f2 }
      let rc ← doFuseF2Op E i
      if rc ≠ .retry then completePendingFuseOp E f1 .success
      return rc
  | .f1Fail => do
      failPair E f1 f2
      modifyItem i fun it => { it with fuseReq := none }
      return .f1Fail
  | .fuseInProgress => return .fuseInProgress
  | rc => do
      check (rc = .retry)
      return rc

/-- The body of `do_fuse_handle_fuse_op` for one pair. -/
def doFusePair (i : ItemRef) (f1 : ℕ) : M IoRc := do
  let f2 ← deref (← getRequest f1).nextReq
  stopTimers E f1 f2
  afterF1Op E i f1 f2 (← doFuseF1Op E i)

/-- The request becomes the one under way and leaves the waiting queue. -/
def takeWaiting (i : ItemRef) (f1 : ℕ) : M Unit :=
  modifyItem i fun it => { it with fuseReq := some f1, waiting := it.waiting.erase f1 }

/-- `do_fuse_handle_fuse_op`. -/
def doFuseHandleFuseOp (i : ItemRef) : ℕ → ℕ → M IoRc
  | 0, f1 => doFusePair E i f1
  | n + 1, f1 => do
      let rc ← doFusePair E i f1
      if (← getItem i).fuseReq = none then
        match ← findGetLinkedFuse i with
        | some f1 =>
            takeWaiting i f1
            doFuseHandleFuseOp i n f1
        | none => return rc
      else return rc

/-- The loop of `dfly_fuse_complete` over the linked pairs. -/
def startLinkedFuse (i : ItemRef) : ℕ → M Unit
  | 0 => pure ()
  | n + 1 => do
      match ← findGetLinkedFuse i with
      | some f1 =>
          takeWaiting i f1
          let rc ← doFuseHandleFuseOp E i n f1
          if rc = .fuseInProgress then pure () else startLinkedFuse i n
      | none => pure ()

/-- `fuse_start_fuse`. -/
def fuseStartFuse (i : ItemRef) (f1 : ℕ) : M IoRc := do
  let it ← getItem i
  if it.fuseReq = none ∧ it.refCnt = 0 then
    takeWaiting i f1
    doFuseHandleFuseOp E i it.waiting.length f1
  else return .fuseInProgress

/-- The test whether a plain write may go on, as `fuse_handle_store_op` and `fuse_handle_delete_op`
have it. -/
def fuseHandlePlainOp (r : ℕ) (rc : IoRc) : M IoRc := do
  let i ← fuseMapLookup (← getRequest r).key
  if (← getItem i).fuseReq = none then
    modifyItem i fun it => { it with refCnt := it.refCnt + 1 }
    modifyRequest r fun q => { q with fuseData := some i }
    return rc
  else return .retry

/-- `fuse_handle_store_op`. -/
def fuseHandleStoreOp (r : ℕ) : M IoRc := fuseHandlePlainOp r .writeSuccess

/-- `fuse_handle_delete_op`. -/
def fuseHandleDeleteOp (r : ℕ) : M IoRc := fuseHandlePlainOp r .deleteSuccess

/-- The search of `fuse_handle_F1_op` through the waiting queue: the second command of the pair, and
the queue without the requests whose memory was given back. -/
def searchF2 (requests : ℕ → Request) (f1 : Request) : List ℕ → Option ℕ × List ℕ
  | [] => (none, [])
  | r :: rs =>
      if (requests r).reqCtx = false then searchF2 requests f1 rs
      else if (requests r).opc.isF2 = true ∧ dflyIsFusePair f1 (requests r) = true then
        (some r, r :: rs)
      else
        let (found, rs') := searchF2 requests f1 rs
        (found, r :: rs')

/-- The timer of a fused command. -/
def startTimer (r : ℕ) : M Unit :=
  if E.fuseTimeoutMs > 0 then
    modify fun s => { s with wpPendingQueue := s.wpPendingQueue ++ [r] }
  else pure ()

/-- The two commands of a pair are linked. -/
def linkPair (f1 f2 : ℕ) : M Unit := do
  modifyRequest f1 fun q => { q with nextReq := some f2 }
  modifyRequest f2 fun q => { q with f1Req := some f1 }
  modify fun s => { s with links := (f1, f2) :: s.links }

/-- `fuse_handle_F1_op` on a pair that is tried again. -/
def fuseRetryF1Op (f1 : ℕ) : M IoRc := do
  match (← getRequest f1).fuseData with
  | none => throw .assertFailed
  | some i =>
      modifyItem i fun it => { it with fuseReq := none, waiting := it.waiting ++ [f1] }
      fuseStartFuse E i f1

/-- `fuse_handle_F1_op` on the item of the key. The first command takes the place of the second in
the waiting queue. -/
def joinF1 (i : ItemRef) (f1 : ℕ) : M IoRc := do
  let s ← get
  match searchF2 s.requests (s.requests f1) (s.items i).waiting with
  | (none, waiting) =>
      modifyItem i fun it => { it with waiting := waiting ++ [f1] }
      return .waitForF2
  | (some f2, waiting) =>
      modifyItem i fun it =>
        { it with waiting := waiting.map fun r => if r = f2 then f1 else r }
      linkPair f1 f2
      fuseStartFuse E i f1

/-- `fuse_handle_F1_op`. -/
def fuseHandleF1Op (f1 : ℕ) : M IoRc := do
  startTimer E f1
  if (← getRequest f1).nextReq ≠ none then fuseRetryF1Op E f1
  else
    let i ← fuseMapLookup (← getRequest f1).key
    modifyRequest f1 fun q => { q with fuseData := some i }
    joinF1 E i f1

/-- `fuse_handle_F2_op` on the item of the key. -/
def joinF2 (i : ItemRef) (f2 : ℕ) : M IoRc := do
  let s ← get
  match (s.items i).waiting.find? fun r =>
      (s.requests r).opc == .cmp && dflyIsFusePair (s.requests r) (s.requests f2) with
  | none =>
      modifyItem i fun it => { it with waiting := it.waiting ++ [f2] }
      return .waitForF1
  | some f1 =>
      linkPair f1 f2
      fuseStartFuse E i f1

/-- `fuse_handle_F2_op`. -/
def fuseHandleF2Op (f2 : ℕ) : M IoRc := do
  startTimer E f2
  let i ← fuseMapLookup (← getRequest f2).key
  modifyRequest f2 fun q => { q with fuseData := some i }
  joinF2 E i f2

/-! ### Commands that come back -/

/-- `dfly_fuse_complete` for the read of a comparison: whether the write of the pair is under way. -/
def f1Complete (i : ItemRef) (f1 : ℕ) (success : Bool) : M Bool := do
  let q ← getRequest f1
  if success then
    match (← getItem i).f1ReadVal with
    | none => throw .assertFailed
    | some readVal =>
        let ok := fuseCompareValue readVal q.value
        modify fun s => { s with compared := (f1, ok) :: s.compared }
        if ok then
          completePendingFuseOp E f1 .success
          f1BufferRelease i
          modifyItem i fun it => { it with fuseReq := q.nextReq }
          match ← doFuseF2Op E i with
          | .fuseInProgress => return true
          | .f2Complete => return false
          | _ => throw .assertFailed
        else
          completePendingFuseOp E f1 .fuseCmpFailure
          f1BufferRelease i
          modifyItem i fun it => { it with fuseReq := none }
          completePendingFuseOp E (← deref q.nextReq) .fuseCmd2Abort
          return false
  else
    f1BufferRelease i
    failPair E f1 (← deref q.nextReq)
    return false

/-- `dfly_fuse_complete` for a plain write: the number of those that are left. -/
def plainComplete (i : ItemRef) (r : ℕ) : M ℕ := do
  let it ← getItem i
  check (it.fuseReq = none)
  modifyItem i fun it => { it with refCnt := it.refCnt - 1 }
  check ((← getRequest r).opc.isPlain = true)
  modifyRequest r Request.clear
  return it.refCnt - 1

/-- `dfly_fuse_complete` for the pair under way: whether its write is under way now. -/
def pairComplete (i : ItemRef) (success : Bool) : M Bool := do
  let it ← getItem i
  match it.fuseReq with
  | none => return false
  | some r =>
      check (it.refCnt = 0)
      if (← getRequest r).opc = .cmp then f1Complete E i r success
      else
        completePendingFuseOp E r .success
        return false

/-- `dfly_fuse_complete` on the counter of the plain writes: the number of those that are left. -/
def dropRef (i : ItemRef) (r : ℕ) : M ℕ := do
  if (← getItem i).refCnt ≠ 0 then plainComplete i r else return 0

/-- `dfly_fuse_complete` when no plain write is left. -/
def fuseComplete (i : ItemRef) (success : Bool) : M Unit := do
  if (← pairComplete E i success) = true then pure ()
  else
    modifyItem i fun it => { it with fuseReq := none }
    startLinkedFuse E i (← getItem i).waiting.length

/-- `dfly_fuse_complete`. -/
def dflyFuseComplete (r : ℕ) (success : Bool) : M Unit := do
  match (← getRequest r).fuseData with
  | none => throw .assertFailed
  | some i =>
      let it ← getItem i
      check (it.fuseReq.isSome = true ∨ it.refCnt ≠ 0)
      if (← dropRef i r) ≠ 0 then pure () else fuseComplete E i success

end DssSdk.Fuse
