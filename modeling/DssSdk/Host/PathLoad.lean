import DssSdk.Lib.Run
import DssSdk.Host.PathSelection
import DssSdk.Host.ReadCache

/-!
# The load of the paths

`nkv_framework.h` and `nkv_framework.cpp` with the load balancer: calls of `send_io_to_path` by any
number of threads. An I/O is counted on its path before it is sent and uncounted afterwards.

* `PathIo`: what is asked for; `Flight`: a call with its I/O;
* `performSync`, `performAsync`: the I/O functions of a path without and with a `post_fn`, on a device
  that may fail;
* `loadStep`: a path is chosen, an I/O is performed, it is uncounted, the device completes one;
* `number`, `totalSize`: the I/Os that were started on a path and are not finished.

Not modelled: execution in memory, null pointers, the listing cache, and the waiting for a smaller queue
depth. An asynchronous I/O changes the device when it is completed.
-/

namespace DssSdk.Host.Load

open Run Listing

/-! ### The I/Os -/

/-- An I/O; `rdd` is the operation of the RDD calls, `n` the length of the buffer of a retrieve. -/
inductive PathIo
  | store (rdd : Bool) (k v : Bytes) (opt : StoreOption) (r : Rdma)
  | retrieve (rdd : Bool) (k : Bytes) (n : UInt64) (opt : RetrieveOption) (r : Rdma)
  | delete (k : Bytes)
  | lock (k : Bytes)
  | unlock (k : Bytes)
  | unknown
  deriving DecidableEq, Repr

/-- `which_op`. -/
def PathIo.op : PathIo → WhichOp
  | .store rdd .. => if rdd then .storeRdd else .store
  | .retrieve rdd .. => if rdd then .retrieveRdd else .retrieve
  | .delete _ => .delete
  | .lock _ => .lock
  | .unlock _ => .unlock
  | .unknown => .unknown

/-- `value->length` at the start of the call. -/
def PathIo.valueLength : PathIo → UInt64
  | .store _ _ v .. => UInt64.ofNat v.length
  | .retrieve _ _ n .. => n
  | _ => 0

/-- The configuration; `lockSupported` is `NKV_REMOTE` with the `SAMSUNG_API`. -/
structure LoadConf where
  read : ReadConf
  cacheOn : Bool
  lockSupported : Bool

/-- The codes of the results. -/
def statusOf : NkvResult → SendStatus
  | .success => .success
  | .errKeyLength => .other 0x00D
  | .errValueLength => .other 0x00E
  | .errOptionEncryptionNotSupported => .other 0x010
  | .errOptionCrcNotSupported => .other 0x011
  | .errBufferSmall => .other 0x012
  | .errKeyExist => .other 0x016
  | .errKeyNotExist => .other 0x018
  | .notSupported => .other 0x025

/-- The read cache answers a retrieve. -/
def CacheHit (conf : LoadConf) (s : Path) (k : Bytes) : Prop :=
  conf.cacheOn = true ∧ LooksUp conf.read k ∧ (cached conf.read s k).isSome = true

instance (conf : LoadConf) (s : Path) (k : Bytes) : Decidable (CacheHit conf s k) :=
  inferInstanceAs (Decidable (_ ∧ _))

/-- A retrieve comes to the device. -/
def Reaches (conf : LoadConf) (k : Bytes) (n : ℕ) (opt : RetrieveOption) (r : Rdma) : Prop :=
  ¬ KeyBad conf.read k ∧ n ≤ conf.read.maxValueLength ∧
    if rddRoute conf.read opt.rdd n r = true then conf.read.samsungApi = true
    else ¬ (conf.cacheOn = true ∧ LooksUp conf.read k)

instance (conf : LoadConf) (k : Bytes) (n : ℕ) (opt : RetrieveOption) (r : Rdma) :
    Decidable (Reaches conf k n opt r) :=
  inferInstanceAs (Decidable (_ ∧ _))

/-- `do_lock_io_from_path` and `do_unlock_io_from_path`. -/
def doLockIo (conf : LoadConf) (k : Bytes) (fault : Option SendStatus) : SendStatus :=
  if conf.lockSupported = false then statusOf .notSupported
  else if k = [] then statusOf .errKeyLength
  else fault.getD .success

/-- The I/O functions without a `post_fn`; `n` is `value->length`, `fault` the error of the device when
it has one. -/
def performSync (conf : LoadConf) (s : Path) (n : UInt64) (fault : Option SendStatus) :
    PathIo → Option (Path × IoOutcome)
  | .store _ k v opt r =>
      match storeError conf.read k v opt r, fault with
      | none, some e => some (s, ⟨e, n⟩)
      | _, _ =>
          let res := doStoreIoToPath conf.read conf.cacheOn s k v opt r
          some (res.1, ⟨statusOf res.2, n⟩)
  | .retrieve _ k _ opt r =>
      match fault with
      | some e =>
          if Reaches conf k n.toNat opt r then some (s, ⟨e, n⟩)
          else (doRetrieveIoFromPath conf.read conf.cacheOn s k n.toNat opt r).map fun res =>
            (res.1, ⟨statusOf res.2.result, UInt64.ofNat res.2.length⟩)
      | none => (doRetrieveIoFromPath conf.read conf.cacheOn s k n.toNat opt r).map fun res =>
          (res.1, ⟨statusOf res.2.result, UInt64.ofNat res.2.length⟩)
  | .delete k =>
      match fault with
      | some e => some (s, ⟨if KeyBad conf.read k then statusOf .errKeyLength else e, n⟩)
      | none =>
          let res := doDeleteIoFromPath conf.read conf.cacheOn s k
          some (res.1, ⟨statusOf res.2, n⟩)
  | .lock k | .unlock k => some (s, ⟨doLockIo conf k fault, n⟩)
  | .unknown => none

/-- The I/O functions with a `post_fn`: what they return, no status when the I/O is given to the
device. There is nothing for a retrieve that asks the cache for a key that it does not hold. -/
def performAsync (conf : LoadConf) (s : Path) (n : UInt64) (fault : Option SendStatus) :
    PathIo → Option (Path × Option SendStatus)
  | .store _ k v opt _ =>
      match storeError conf.read k v opt ⟨0, 0, none⟩ with
      | some e => some (s, some (statusOf e))
      | none => some (s, if conf.read.samsungApi = true then fault else some (statusOf .notSupported))
  | .retrieve _ k _ _ _ =>
      if KeyBad conf.read k then some (s, some (statusOf .errKeyLength))
      else if conf.read.maxValueLength < n.toNat then some (s, some (statusOf .errValueLength))
      else if CacheHit conf s k then
        some (cacheTouch conf.read s k,
          some (statusOf (if cached conf.read s k = some [] then .errKeyNotExist else .success)))
      else if conf.cacheOn = true ∧ LooksUp conf.read k then none
      else some (s, if conf.read.samsungApi = true then fault else some (statusOf .notSupported))
  | .delete k =>
      if KeyBad conf.read k then some (s, some (statusOf .errKeyLength))
      else some (s, if conf.read.samsungApi = true then fault else some (statusOf .notSupported))
  | .lock k | .unlock k =>
      some (s,
        some (statusOf (if conf.lockSupported = true ∧ k = [] then .errKeyLength else .notSupported)))
  | .unknown => some (s, some .errWrongInput)

/-- What the device does for an asynchronous I/O. -/
def deviceEffect (conf : LoadConf) (d : Device) : PathIo → Device
  | .store _ k v opt _ => (Device.store (storeType conf.read opt) d k v).1
  | .retrieve _ k n opt _ => (Device.retrieve d k n.toNat opt.delete).1
  | .delete k => Device.delete d k
  | _ => d

/-! ### Calls in flight -/

/-- Where a call of `send_io_to_path` is: before a path is chosen, in an I/O function, behind it, or
with its asynchronous I/O at the device. -/
inductive Phase
  | choosing
  | running
  | returned (status : SendStatus)
  | submitted
  deriving DecidableEq, Repr

/-- A call; `started` is `value->length` when its I/O was started on `path`. -/
structure Flight where
  io : PathIo
  sync : Bool
  valueLength : UInt64
  visited : Finset UInt64
  phase : Phase
  path : UInt64
  started : UInt64

/-- A target with the devices and caches of its paths, and the calls that have not ended. -/
structure LoadState where
  target : NkvTarget
  paths : UInt64 → Path
  flights : List Flight

/-- A call begins; a path goes up or down; a call has its path chosen, performs its I/O, or goes on after
it; the device completes an asynchronous I/O. -/
inductive LoadEvent
  | submit (io : PathIo) (sync : Bool)
  | pathStatus (h : UInt64) (up : Bool)
  | choose (i fuel : ℕ)
  | perform (i : ℕ) (fault : Option SendStatus)
  | account (i : ℕ)
  | aioCompletion (i : ℕ) (fault : Bool)

/-- The part of `send_io_to_path` up to the I/O function. A call may end here. -/
def choose (s : LoadState) (i fuel : ℕ) (f : Flight) : Option LoadState :=
  match loadBalanceGetPath fuel s.target f.visited 0 with
  | none => none
  | some (_, _, .fault) => none
  | some (t, _, .flagged) => some { s with target := t, flights := s.flights.eraseIdx i }
  | some (t, visited, .path h) =>
      match t.find h with
      | none => none
      | some p =>
          if p.pathStatus = false ∨ f.io.op = .unknown then
            some { s with target := t, flights := s.flights.eraseIdx i }
          else
            some { s with
              target := t.beginIo h f.io.op f.valueLength
              flights := s.flights.set i { f with
                visited := visited
                phase := .running
                path := h
                started := f.valueLength } }

/-- The I/O function. -/
def perform (conf : LoadConf) (s : LoadState) (i : ℕ) (f : Flight) (fault : Option SendStatus) :
    Option LoadState :=
  if f.sync then
    (performSync conf (s.paths f.path) f.valueLength fault f.io).map fun res =>
      { s with
        paths := Function.update s.paths f.path res.1
        flights := s.flights.set i
          { f with valueLength := res.2.valueLength, phase := .returned res.2.status } }
  else
    (performAsync conf (s.paths f.path) f.valueLength fault f.io).map fun res =>
      { s with
        paths := Function.update s.paths f.path res.1
        flights :=
          match res.2 with
          | none => s.flights.set i { f with phase := .submitted }
          | some _ => s.flights.eraseIdx i }

/-- The part behind the I/O function for a call without a `post_fn`: the I/O is uncounted, and the call
ends or tries another path. -/
def account (s : LoadState) (i : ℕ) (f : Flight) (status : SendStatus) : LoadState :=
  { s with
    target := s.target.completeIo f.path f.io.op f.valueLength
    flights :=
      if status = .errIo ∧ f.visited.card < s.target.pathCount then
        s.flights.set i { f with phase := .choosing }
      else s.flights.eraseIdx i }

/-- `kvs_aio_completion`, which leaves the load as it is. -/
def aioCompletion (conf : LoadConf) (s : LoadState) (i : ℕ) (f : Flight) (fault : Bool) : LoadState :=
  { s with
    paths :=
      if fault then s.paths
      else Function.update s.paths f.path
        { s.paths f.path with device := deviceEffect conf (s.paths f.path).device f.io }
    flights := s.flights.eraseIdx i }

/-- One step. -/
def loadStep (conf : LoadConf) (s : LoadState) : LoadEvent → Option LoadState
  | .submit io sync =>
      some { s with flights := s.flights ++ [⟨io, sync, io.valueLength, ∅, .choosing, 0, 0⟩] }
  | .pathStatus h up =>
      some { s with target := s.target.modify h fun p => { p with pathStatus := up } }
  | .choose i fuel =>
      match s.flights[i]? with
      | some f => if f.phase = .choosing then choose s i fuel f else none
      | none => none
  | .perform i fault =>
      match s.flights[i]? with
      | some f => if f.phase = .running then perform conf s i f fault else none
      | none => none
  | .account i =>
      match s.flights[i]? with
      | some f =>
          match f.phase with
          | .returned status => some (account s i f status)
          | _ => none
      | none => none
  | .aioCompletion i fault =>
      match s.flights[i]? with
      | some f => if f.phase = .submitted then some (aioCompletion conf s i f fault) else none
      | none => none

/-! ### The load -/

/-- The I/O of the call was started on a path and is not finished. -/
def Flight.On (h : UInt64) (f : Flight) : Prop := f.phase ≠ .choosing ∧ f.path = h

instance (h : UInt64) (f : Flight) : Decidable (f.On h) := inferInstanceAs (Decidable (_ ∧ _))

/-- The value length of the I/O. -/
def Flight.size (f : Flight) : ℕ :=
  match f.io with
  | .store .. | .retrieve .. => f.started.toNat
  | _ => 0

/-- The number of the I/Os on a path that are not finished. -/
def number (h : UInt64) (fs : List Flight) : ℕ := (fs.filter fun f => f.On h).length

/-- The total of their value lengths. -/
def totalSize (h : UInt64) (fs : List Flight) : ℕ := ((fs.filter fun f => f.On h).map Flight.size).sum

/-- The load of every path is that of the I/Os on it, it does not underflow when one of them is
uncounted, and it is zero when there is none. -/
structure Accounted (s : LoadState) : Prop where
  number : ∀ e ∈ s.target.pathMap, e.2.pendingIoNumber.toNat = number e.1 s.flights
  size : ∀ e ∈ s.target.pathMap, e.2.pendingIoSize.toNat = totalSize e.1 s.flights
  noUnderflow : ∀ f ∈ s.flights, ∀ status, f.phase = .returned status →
    ∀ e ∈ s.target.pathMap, e.1 = f.path → ∀ size ∈ countedSize f.io.op f.valueLength,
      1 ≤ e.2.pendingIoNumber.toNat ∧ size.toNat ≤ e.2.pendingIoSize.toNat
  idle : ∀ e ∈ s.target.pathMap, (∀ f ∈ s.flights, ¬ f.On e.1) →
    e.2.pendingIoNumber = 0 ∧ e.2.pendingIoSize = 0

/-- A retrieve that the read cache answers with a value has a buffer of the length of this value. -/
def HitKeeps (conf : LoadConf) (s : Path) (n : UInt64) : PathIo → Prop
  | .retrieve _ k _ opt r =>
      ¬ KeyBad conf.read k → n.toNat ≤ conf.read.maxValueLength →
        rddRoute conf.read opt.rdd n.toNat r = false → CacheHit conf s k →
        ∀ w ∈ cached conf.read s k, w ≠ [] → UInt64.ofNat w.length = n
  | _ => True

/-- An asynchronous I/O passes the checks and is not answered by the read cache. -/
def Submits (conf : LoadConf) (s : Path) (n : UInt64) : PathIo → Prop
  | .store _ k v opt _ => storeError conf.read k v opt ⟨0, 0, none⟩ = none
  | .retrieve _ k _ _ _ =>
      ¬ KeyBad conf.read k ∧ n.toNat ≤ conf.read.maxValueLength ∧ ¬ CacheHit conf s k
  | .delete k => ¬ KeyBad conf.read k
  | _ => False

/-- The condition on a step: an I/O that is started is not one of the RDD operations, and the counters
have room for it; a synchronous retrieve has a buffer of the length that the read cache answers with; an
asynchronous I/O comes to the device and is not completed. -/
def Fits (conf : LoadConf) (s : LoadState) : LoadEvent → Prop
  | .submit .. | .pathStatus .. | .account _ => True
  | .choose i _ => ∀ f ∈ s.flights[i]?, f.io.op ≠ .storeRdd ∧ f.io.op ≠ .retrieveRdd ∧
      ∀ e ∈ s.target.pathMap, e.2.pathStatus = true → number e.1 s.flights + 1 < 2 ^ 32 ∧
        totalSize e.1 s.flights + f.valueLength.toNat < 2 ^ 64
  | .perform i fault => ∀ f ∈ s.flights[i]?,
      if f.sync then HitKeeps conf (s.paths f.path) f.valueLength f.io
      else conf.read.samsungApi = true ∧ fault = none ∧
        Submits conf (s.paths f.path) f.valueLength f.io
  | .aioCompletion .. => False

/-- A target without load, and no call. -/
structure Unloaded (s : LoadState) : Prop where
  flights : s.flights = []
  load : ∀ e ∈ s.target.pathMap, e.2.pendingIoNumber = 0 ∧ e.2.pendingIoSize = 0

end DssSdk.Host.Load
