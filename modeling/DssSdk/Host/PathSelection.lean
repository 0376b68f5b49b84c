import Mathlib.Tactic

/-!
# The choice of a path

`nkv_framework.h` and `nkv_framework.cpp`: a target has paths, and an I/O is sent on the one that the
load balancer selects.

* `NkvTarget`: the paths with their status and load, and the state of the load balancer;
* `loadBalanceExecute`, `loadBalanceGetPath`: `load_balance_execute`, `load_balance_get_path`;
* `sendIoToPath`: the retry loop of `send_io_to_path`, over what the I/Os return.

The loops have fuel. The order of `pathMap` is the order in which the container is walked. What
`send_io_to_path` counts for the statistics is not modelled.
-/

namespace DssSdk.Host

/-- What the load balancer uses of an `NKVTargetPath`; the status is that it is up. -/
structure TargetPath where
  pathStatus : Bool
  pendingIoNumber : UInt32
  pendingIoSize : UInt64
  deriving DecidableEq, Repr

/-- `MAX_PATH_PER_SUBSYS`. -/
def maxPathPerSubsys : ℕ := 4

/-- `NKVTarget`, with the global `nic_load_balance_policy`. -/
structure NkvTarget where
  policy : ℕ
  pathMap : List (UInt64 × TargetPath)
  pathArray : List UInt64
  pathCount : ℕ
  preferredPathHash : UInt64
  lbRrCount : UInt64
  deriving DecidableEq, Repr

/-- `pathMap.find`. -/
def NkvTarget.find (t : NkvTarget) (h : UInt64) : Option TargetPath :=
  (t.pathMap.find? fun e => e.1 = h).map Prod.snd

/-- `load_balance_initialize_cnt`; `none` when it writes behind `path_array`. -/
def loadBalanceInitializeCnt (t : NkvTarget) : Option NkvTarget :=
  if t.pathMap.length ≤ maxPathPerSubsys then
    some { t with
      preferredPathHash := (t.pathMap.head?.map Prod.fst).getD t.preferredPathHash
      pathArray := t.pathMap.map Prod.fst ++ t.pathArray.drop t.pathMap.length
      pathCount := t.pathMap.length }
  else none

/-! ### The policies -/

/-- The loop of `load_balancer_helper_get_nextPath`: the first path with the least load. -/
def getNextPath (load : TargetPath → ℕ) : List (UInt64 × TargetPath) → Option UInt64
  | [] => none
  | e :: es =>
      some (es.foldl (fun mn e => if load e.2 < mn.2 then (e.1, load e.2) else mn)
        (e.1, load e.2)).1

/-- What `load_balance_execute` does: a path, the invalid policy, or an access to an entry that does
not exist. -/
inductive Exec
  | selected (path : UInt64) (t : NkvTarget)
  | invalid
  | fault
  deriving DecidableEq, Repr

/-- The failover policy: the preferred path, which is replaced when it is down. -/
def executeFailover (t : NkvTarget) : Exec :=
  match t.find t.preferredPathHash with
  | none => .fault
  | some p =>
      if p.pathStatus then .selected t.preferredPathHash t
      else
        match t.pathMap.find? fun e => e.1 ≠ t.preferredPathHash ∧ e.2.pathStatus with
        | none => .selected t.preferredPathHash t
        | some e => .selected e.1 { t with preferredPathHash := e.1 }

/-- `load_balance_execute`. -/
def loadBalanceExecute (t : NkvTarget) : Exec :=
  match t.policy with
  | 0 | 1 =>
      match t.pathArray[t.lbRrCount.toNat % t.pathCount]? with
      | none => .fault
      | some path => .selected path { t with lbRrCount := t.lbRrCount + 1 }
  | 2 => executeFailover t
  | 3 =>
      match getNextPath (fun p => p.pendingIoNumber.toNat) t.pathMap with
      | none => .fault
      | some path => .selected path t
  | 4 =>
      match getNextPath (fun p => p.pendingIoSize.toNat) t.pathMap with
      | none => .fault
      | some path => .selected path t
  | _ => .invalid

/-! ### The selection -/

/-- What `load_balance_get_path` returns: a path, or the flag. -/
inductive Selection
  | path (h : UInt64)
  | flagged
  | fault
  deriving DecidableEq, Repr

/-- The loop of `load_balance_get_path`, with the paths that are visited and `selected_path`. -/
def loadBalanceGetPath : ℕ → NkvTarget → Finset UInt64 → UInt64 →
    Option (NkvTarget × Finset UInt64 × Selection)
  | 0, _, _, _ => none
  | fuel + 1, t, visited, selectedPath =>
      if t.pathCount ≤ visited.card then some (t, visited, .path selectedPath)
      else
        match loadBalanceExecute t with
        | .invalid => some (t, visited, .flagged)
        | .fault => some (t, visited, .fault)
        | .selected path t' =>
            if path ∈ visited then loadBalanceGetPath fuel t' visited path
            else
              match t'.find path with
              | none => some (t', visited, .flagged)
              | some p =>
                  if p.pathStatus then some (t', insert path visited, .path path)
                  else loadBalanceGetPath fuel t' (insert path visited) path

/-! ### The retry loop -/

/-- `which_op`. -/
inductive WhichOp
  | store
  | retrieve
  | delete
  | lock
  | unlock
  | storeRdd
  | retrieveRdd
  | unknown
  deriving DecidableEq, Repr

/-- What `send_io_to_path` returns; the other codes are those of the I/O. -/
inductive SendStatus
  | success
  | errIo
  | errCntVerifyFailed
  | errNoCntPathFound
  | errCntPathDown
  | errWrongInput
  | other (code : ℕ)
  deriving DecidableEq, Repr

/-- What an I/O returns, and the length of its value afterwards. -/
structure IoOutcome where
  status : SendStatus
  valueLength : UInt64
  deriving DecidableEq, Repr

/-- The size that an I/O is counted with, if it is counted. -/
def countedSize (op : WhichOp) (valueLength : UInt64) : Option UInt64 :=
  match op with
  | .store | .retrieve => some valueLength
  | .delete | .lock | .unlock => some 0
  | .storeRdd | .retrieveRdd | .unknown => none

/-- `load_balance_update_path_parameter` for an I/O that starts. -/
def TargetPath.begin (p : TargetPath) (size : UInt64) : TargetPath :=
  { p with
    pendingIoNumber := p.pendingIoNumber + 1
    pendingIoSize := p.pendingIoSize + size }

/-- `load_balance_update_path_parameter` for an I/O that is completed. -/
def TargetPath.complete (p : TargetPath) (size : UInt64) : TargetPath :=
  { p with
    pendingIoNumber := p.pendingIoNumber - 1
    pendingIoSize := p.pendingIoSize - size }

/-- The path of a hash replaced. -/
def NkvTarget.modify (t : NkvTarget) (h : UInt64) (f : TargetPath → TargetPath) : NkvTarget :=
  { t with pathMap := t.pathMap.map fun e => if e.1 = h then (e.1, f e.2) else e }

/-- The I/O is counted at its start. -/
def NkvTarget.beginIo (t : NkvTarget) (h : UInt64) (op : WhichOp) (valueLength : UInt64) : NkvTarget :=
  match countedSize op valueLength with
  | none => t
  | some size => t.modify h fun p => p.begin size

/-- The I/O is counted at its end. -/
def NkvTarget.completeIo (t : NkvTarget) (h : UInt64) (op : WhichOp) (valueLength : UInt64) : NkvTarget :=
  match countedSize op valueLength with
  | none => t
  | some size => t.modify h fun p => p.complete size

/-- How a call of `send_io_to_path` ends. -/
inductive SendEnd
  | returned (status : SendStatus)
  | fault
  deriving DecidableEq, Repr

/-- The I/O of a call: the operation, whether it is synchronous, and what it returns on its attempts. -/
structure IoCall where
  op : WhichOp
  sync : Bool
  outcome : ℕ → IoOutcome

/-- The loop of `send_io_to_path` with the load balancer: the paths on which the I/O was sent, and
how the call ends. The fuel is for this loop and for each selection. -/
def sendLoop (io : IoCall) : ℕ → NkvTarget → Finset UInt64 → UInt64 → List UInt64 →
    Option (NkvTarget × List UInt64 × SendEnd)
  | 0, _, _, _, _ => none
  | fuel + 1, t, visited, valueLength, tried =>
      match loadBalanceGetPath (fuel + 1) t visited 0 with
      | none => none
      | some (t, _, .flagged) => some (t, tried, .returned .errNoCntPathFound)
      | some (t, _, .fault) => some (t, tried, .fault)
      | some (t, visited, .path h) =>
          match t.find h with
          | none => some (t, tried, .fault)
          | some p =>
              if p.pathStatus = false then some (t, tried, .returned .errCntPathDown)
              else if io.op = .unknown then some (t, tried, .returned .errWrongInput)
              else
                let out := io.outcome tried.length
                let started := t.beginIo h io.op valueLength
                let ended := if io.sync then started.completeIo h io.op out.valueLength else started
                if io.sync ∧ out.status = .errIo ∧ visited.card < t.pathCount then
                  sendLoop io fuel ended visited out.valueLength (tried ++ [h])
                else some (ended, tried ++ [h], .returned out.status)

/-- How a target is addressed: `nic_load_balance`, `verify_path`, and the hash of the container path. -/
structure Route where
  nicLoadBalance : Bool
  verifyPath : UInt64
  containerPathHash : UInt64
  deriving DecidableEq, Repr

/-- `send_io_to_path`. Without the load balancer the path is the one of the container, and the I/O is
not counted. -/
def sendIoToPath (route : Route) (io : IoCall) (fuel : ℕ) (t : NkvTarget) (valueLength : UInt64) :
    Option (NkvTarget × List UInt64 × SendEnd) :=
  if route.nicLoadBalance then
    if route.containerPathHash ≠ route.verifyPath then some (t, [], .returned .errCntVerifyFailed)
    else sendLoop io fuel t ∅ valueLength []
  else
    match t.find route.containerPathHash with
    | none => some (t, [], .returned .errNoCntPathFound)
    | some p =>
        if p.pathStatus = false then some (t, [], .returned .errCntPathDown)
        else if io.op = .unknown then some (t, [], .returned .errWrongInput)
        else some (t, [route.containerPathHash], .returned (io.outcome 0).status)

end DssSdk.Host
