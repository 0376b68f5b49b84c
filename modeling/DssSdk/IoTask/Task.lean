import DssSdk.Lib.Program
import DssSdk.Lib.Run

/-!
# I/O tasks

`dss_io_task.c` and the part of `dss_io_bdev.c` that works on a task: block operations are added to
a task, the task is submitted, its operations go to the device one after the other, and the module
that waits for the task is told when the last one came back.

* `IoOp`, `Task`: `dss_io_op_t` and `dss_io_task_t`; `trace` has what the device and the waiting
  module see of the task since its operations were reset;
* `addBlkOp`, `dssIoTaskSubmit`, `submitToDevice`, `ioTaskOpComplete`, `dssIoTaskResetOps`: the
  functions of the source;
* `Event`, `step`: one step of a task, `none` when an assertion fails.

The device calls back after the call that submitted an operation has returned, so that a completion
is an event of its own.
-/

namespace DssSdk.IoTask

/-- The block sizes of a device. `dss_io_dev_set_user_blk_sz` takes only multiples of the size of
the disk. -/
structure Device where
  userBlkSz : UInt32
  diskBlkSz : UInt32
  multiple : diskBlkSz ≤ userBlkSz ∧ userBlkSz % diskBlkSz = 0
  deriving DecidableEq

/-- `dss_io_op_owner_t`. -/
inductive Owner
  | none
  | ba
  | kvtrans
  deriving DecidableEq, Repr

/-- What the caller gives for an operation. Without options an operation does not block and has no
owner. -/
structure BlkOp where
  isWrite : Bool
  lba : UInt64
  nblocks : UInt64
  isBlocking : Bool
  modId : Owner
  device : Device
  deriving DecidableEq

/-- `dss_io_op_t`. -/
structure IoOp extends BlkOp where
  opId : ℕ
  deriving DecidableEq

/-- `dss_io_task_status_t` of a task. -/
inductive TaskStatus
  | success
  | error
  deriving DecidableEq, Repr

/-- What becomes visible outside of the task: it is submitted with a number of operations, an
operation goes to the device with its blocks there, an operation comes back, and the module that
waits gets a message in one of its two queues. -/
inductive Action
  | start (numOps : ℕ)
  | submit (op : IoOp) (diskLba numDiskBlocks : UInt64)
  | complete (op : IoOp) (success : Bool)
  | post (toCq : Bool)
  deriving DecidableEq

/-- `dss_io_task_t`. `cb` has `cb_to_cq` once a callback was set up, `toModule` counts the messages
to the I/O module that it did not take yet. -/
structure Task where
  dreq : Bool
  cb : Option Bool
  ioModule : Bool
  numTotalOps : ℕ
  numOutstandingOps : ℕ
  numOpsDone : ℕ
  opTodoList : List IoOp
  opsInProgress : List IoOp
  opDone : List IoOp
  failedOps : List IoOp
  taskStatus : TaskStatus
  inProgress : Bool
  toModule : ℕ
  trace : List Action
  deriving DecidableEq

/-- `dss_io_task_get_new` on new memory. -/
def dssIoTaskGetNew (ioModule : Bool) : Task where
  dreq := false
  cb := none
  ioModule := ioModule
  numTotalOps := 0
  numOutstandingOps := 0
  numOpsDone := 0
  opTodoList := []
  opsInProgress := []
  opDone := []
  failedOps := []
  taskStatus := .success
  inProgress := false
  toModule := 0
  trace := []

/-- An assertion of the source fails. -/
inductive Fault
  | assertFailed
  deriving DecidableEq, Repr

/-- The functions on a task. -/
abbrev M (α : Type) := StateT Task (Except Fault) α

/-- `DSS_ASSERT`. -/
def dssAssert (c : Prop) [Decidable c] : M Unit := if c then pure () else throw .assertFailed

/-- Something that is seen outside. -/
def record (a : Action) : M Unit := modify fun t => { t with trace := t.trace ++ [a] }

/-- `dss_io_task_setup`: the callback, and the request if there is one. -/
def dssIoTaskSetup (req toCq : Bool) : M Unit :=
  modify fun t => { t with dreq := t.dreq || req, cb := some toCq }

/-- `_dss_io_task_add_blk_op`. Without memory for the operation the task stays as it is. -/
def addBlkOp (memory : Bool) (op : BlkOp) : M Unit := do
  dssAssert ((← get).inProgress = false)
  if memory = true then
    modify fun t =>
      { t with
        numTotalOps := t.numTotalOps + 1
        opTodoList := t.opTodoList ++ [{ op with opId := t.numTotalOps }] }
  else pure ()

/-- The blocks of an operation on the disk. -/
def IoOp.diskBlocks (op : IoOp) : UInt64 × UInt64 :=
  if op.device.userBlkSz = op.device.diskBlkSz then (op.lba, op.nblocks)
  else
    let diskTrFactor := (op.device.userBlkSz / op.device.diskBlkSz).toUInt64
    (op.lba * diskTrFactor, op.nblocks * diskTrFactor)

/-- One round of the loop of `_dss_io_task_submit_to_device`. -/
def submitOp (op : IoOp) : M Unit := do
  dssAssert (op.device.userBlkSz ≠ op.device.diskBlkSz →
    op.device.diskBlkSz ≤ op.device.userBlkSz ∧ op.device.userBlkSz % op.device.diskBlkSz = 0)
  record (.submit op op.diskBlocks.1 op.diskBlocks.2)
  modify fun t =>
    { t with
      opTodoList := t.opTodoList.erase op
      opsInProgress := t.opsInProgress ++ [op]
      numOutstandingOps := t.numOutstandingOps + 1 }

/-- The loop of `_dss_io_task_submit_to_device` over the operations to do. -/
def submitLoop : List IoOp → M Unit
  | [] => pure ()
  | op :: ops => do
      submitOp op
      if op.isBlocking = true then pure () else submitLoop ops

/-- `_dss_io_task_submit_to_device`. -/
def submitToDevice : M Unit := do
  dssAssert ((← get).inProgress = true)
  submitLoop (← get).opTodoList
  dssAssert ((← get).numOutstandingOps ≠ 0)

/-- `dss_io_task_submit`: the task goes to the I/O module if there is one. -/
def dssIoTaskSubmit : M Unit := do
  let t ← get
  dssAssert (t.dreq = true)
  dssAssert (t.inProgress = false)
  record (.start t.numTotalOps)
  modify fun t => { t with inProgress := true }
  if t.ioModule = true then modify fun t => { t with toModule := t.toModule + 1 }
  else submitToDevice

/-- `dss_io_task_submit_to_device`, which the I/O module calls for a message. -/
def dssIoTaskSubmitToDevice : M Unit := do
  modify fun t => { t with inProgress := true }
  submitToDevice

/-- The I/O module takes a message. -/
def ioModuleTakes : M Unit := do
  match (← get).toModule with
  | 0 => pure ()
  | n + 1 =>
      modify fun t => { t with toModule := n }
      dssIoTaskSubmitToDevice

/-- The module that waits for the task gets its message. -/
def postToInstance : M Unit := do
  match (← get).cb with
  | none => throw .assertFailed
  | some toCq =>
      modify fun t => { t with inProgress := false }
      record (.post toCq)

/-- The bookkeeping of `_dss_io_task_op_complete` for the operation that came back. -/
def moveOp (op : IoOp) (success : Bool) : M Unit := do
  modify fun t =>
    { t with
      numOpsDone := t.numOpsDone + 1
      numOutstandingOps := t.numOutstandingOps - 1
      opsInProgress := t.opsInProgress.erase op }
  record (.complete op success)
  if success = true then modify fun t => { t with opDone := t.opDone ++ [op] }
  else modify fun t => { t with failedOps := t.failedOps ++ [op], taskStatus := .error }

/-- `_dss_io_task_op_complete`. -/
def ioTaskOpComplete (op : IoOp) (success : Bool) : M Unit := do
  moveOp op success
  let t ← get
  if t.numOutstandingOps ≠ 0 then pure ()
  else if t.opTodoList ≠ [] then submitToDevice
  else postToInstance

/-- The device calls back for one of the operations that it has. -/
def deviceDone (n : ℕ) (success : Bool) : M Unit := do
  match (← get).opsInProgress[n]? with
  | none => pure ()
  | some op => ioTaskOpComplete op success

/-- `dss_io_task_reset_ops`: the operations are freed one after the other, and the task is as a new
one. -/
def dssIoTaskResetOps : M Unit := do
  let t ← get
  dssAssert (t.inProgress = false)
  dssAssert (t.opTodoList = [])
  dssAssert (t.opsInProgress = [])
  dssAssert (t.failedOps = [])
  dssAssert (t.numOutstandingOps = 0)
  dssAssert (t.numOpsDone = t.numTotalOps)
  dssAssert (t.opDone.length = t.numTotalOps)
  modify fun t =>
    { t with opDone := [], numOpsDone := 0, numTotalOps := 0, taskStatus := .success, trace := [] }

/-- What may happen to a task. -/
inductive Event
  | setup (req toCq : Bool)
  | add (memory : Bool) (op : BlkOp)
  | submit
  | ioModule
  | deviceDone (n : ℕ) (success : Bool)
  | reset
  deriving DecidableEq

/-- The function for an event. -/
def handle : Event → M Unit
  | .setup req toCq => dssIoTaskSetup req toCq
  | .add memory op => addBlkOp memory op
  | .submit => dssIoTaskSubmit
  | .ioModule => ioModuleTakes
  | .deviceDone n success => deviceDone n success
  | .reset => dssIoTaskResetOps

/-- The task after an event. -/
def step (t : Task) (e : Event) : Option Task :=
  match handle e t with
  | .ok (_, t') => some t'
  | .error _ => none

section

open Program

variable {F : Fault → Prop} {t t' : Task} {Q : Unit → Task → Prop}

@[simp] theorem wp_dssAssert {c : Prop} [Decidable c] :
    wp F (dssAssert c) Q t ↔ (c → Q () t) ∧ (¬ c → F .assertFailed) := by
  unfold dssAssert
  rw [wp_ite]
  rfl

@[simp] theorem wp_record {a : Action} :
    wp F (record a) Q t ↔ Q () { t with trace := t.trace ++ [a] } := Iff.rfl

theorem step_eq_some {e : Event} : step t e = some t' ↔ handle e t = .ok ((), t') := by
  unfold step
  split
  · rename_i u t₁ h
    simp [h]
  · rename_i f h
    simp [h]

end

end DssSdk.IoTask
