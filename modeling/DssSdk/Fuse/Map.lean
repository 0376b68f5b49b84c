import DssSdk.Lib.Program
import DssSdk.Lib.Run

/-!
# The fuse map

`fuse_map.cpp`, and the data that `fuse_lib.cpp` works on: a table of buckets whose items hold the
plain writes and the fused pairs that are under way on one key.

* `Request`: what the module reads and writes of a `dfly_request`;
* `Item`: `fuse_map_item_t`;
* `Traffic`, `Table`, `FuseMap`: one map, its queues, and the commands that were sent to the device or to the
  write-ahead log and have not come back;
* `fuseMapLookup`: the item of a key, an idle one that is taken over for it, or a new one.

Items are never removed from a bucket, so that the list of a bucket is given by the number of its
items; an item is named by its bucket and its place there. Requests are numbered in the order they
come to the module: a number is used once, also when the memory of a request is used again.
-/

namespace DssSdk.Fuse

/-- The opcodes that the module handles. `storeFuse2` and `deleteFuse2` are the second commands of
a fused pair, `cmp` is the first. -/
inductive Opc
  | store
  | delete
  | cmp
  | storeFuse2
  | deleteFuse2
  deriving DecidableEq, Repr

/-- `dfly_is_f2_cmd`. -/
def Opc.isF2 : Opc → Bool
  | .storeFuse2 => true
  | .deleteFuse2 => true
  | _ => false

/-- The plain writes. -/
def Opc.isPlain : Opc → Bool
  | .store => true
  | .delete => true
  | _ => false

/-- `struct dfly_value`. -/
structure Value where
  value : List UInt8
  length : UInt32
  offset : UInt32
  deriving DecidableEq, Repr

/-- The bucket of an item and its place in it. -/
abbrev ItemRef := ℕ × ℕ

/-- What a command brings with it: `io_seq_no` is the counter of the queue pair. -/
structure Command where
  opc : Opc
  key : List UInt8
  value : Value
  qpair : ℕ
  ioSeqNo : UInt32
  deriving DecidableEq, Repr

/-- `dfly_request`. `reqCtx` is false when `req_ctx` is null. -/
structure Request extends Command where
  nextReq : Option ℕ
  f1Req : Option ℕ
  fuseData : Option ItemRef
  reqCtx : Bool
  deriving DecidableEq, Repr

/-- A request as it comes to the module. -/
def Command.request (c : Command) : Request where
  toCommand := c
  nextReq := none
  f1Req := none
  fuseData := none
  reqCtx := true

/-- The request without its pointers. -/
def Request.clear (q : Request) : Request := { q with fuseData := none, f1Req := none, nextReq := none }

/-- The memory of a request after `memset`. -/
def Request.zero : Request where
  opc := .store
  key := []
  value := ⟨[], 0, 0⟩
  qpair := 0
  ioSeqNo := 0
  nextReq := none
  f1Req := none
  fuseData := none
  reqCtx := false

/-- `fuse_map_item_t`. `largeKeyBuff` tells that the item holds a key buffer. `readAt` is when its
last comparison began, which no code reads. -/
structure Item where
  key : List UInt8
  refCnt : ℕ
  fuseReq : Option ℕ
  waiting : List ℕ
  f1ReadVal : Option Value
  largeKeyBuff : Bool
  readAt : ℕ
  deriving DecidableEq, Repr

/-- An item after `calloc`. -/
def Item.clean : Item where
  key := []
  refCnt := 0
  fuseReq := none
  waiting := []
  f1ReadVal := none
  largeKeyBuff := false
  readAt := 0

/-- The test of `fuse_map_lookup` for an item in use. -/
def Item.active (it : Item) : Bool := 0 < it.refCnt || it.waiting != [] || it.fuseReq.isSome

/-- The commands that leave the module: plain writes, reads and writes of a pair on the device, and
writes of a pair to the write-ahead log. -/
inductive IoKind
  | plain
  | retrieve
  | write
  | walWrite
  deriving DecidableEq, Repr

/-- A command under way. `item` is the item of its callback, `req` the request it serves. `key` is
the key it carries, `none` for the null key, and `pairKey` the key of the item. `seq` numbers the
commands in the order they were sent, `since` is when the comparison of the pair began. -/
structure Io where
  kind : IoKind
  item : ItemRef
  req : ℕ
  key : Option (List UInt8)
  pairKey : List UInt8
  seq : ℕ
  since : ℕ
  deriving DecidableEq, Repr

/-- A read or a write of a fused pair. -/
def Io.fused (io : Io) : Bool := io.kind ≠ .plain

/-- A command that changes the device. -/
def Io.isWrite (io : Io) : Bool := io.kind ≠ .retrieve

/-- The status of a completed request. -/
inductive StatusCode
  | success
  | deviceError
  | fuseCmpFailure
  | fuseCmd2Abort
  | fuseCmdMissed
  deriving DecidableEq, Repr

/-- The requests that came to the module, the queue of the poller, and the commands under way. -/
structure Traffic where
  requests : ℕ → Request
  nrRequests : ℕ
  wpDelayQueue : List ℕ
  flight : List Io

/-- The table of `fuse_map_t`: the number of items of each bucket, and the items. -/
structure Table extends Traffic where
  nrEntries : ℕ → ℕ
  items : ItemRef → Item

/-- `fuse_map_t`. `ticks` counts what was asked of the environment, `completed` has the requests that
were answered, the last one first. `links` has the pairs that were put together and `compared` the
results of the comparisons: no code reads these two. -/
structure FuseMap extends Table where
  wpPendingQueue : List ℕ
  ticks : ℕ
  completed : List (ℕ × StatusCode)
  links : List (ℕ × ℕ)
  compared : List (ℕ × Bool)

/-- `fuse_map_create`. -/
def fuseMapCreate : FuseMap where
  nrEntries := fun _ => 4
  items := fun _ => Item.clean
  requests := fun _ => Request.zero
  nrRequests := 0
  wpDelayQueue := []
  wpPendingQueue := []
  flight := []
  ticks := 0
  completed := []
  links := []
  compared := []

/-- The configuration of the module, and its environment: what the n-th request to it gives.
`keyBuff` is `dfly_get_key_buff`, `walIo` a read through the log that returns `WAL_SUCCESS` with the
size and the data, or not, and `valueBuff` what a fresh read buffer holds. -/
structure Env where
  walEnabled : Bool
  fuseDebugLevel : ℕ
  fuseTimeoutMs : ℕ
  keyBuff : ℕ → Bool
  walIo : ℕ → Option (UInt32 × List UInt8)
  valueBuff : ℕ → List UInt8

/-- How the target stops: an assertion fails, or a null pointer is used. -/
inductive Fault
  | assertFailed
  | nullPointer
  deriving DecidableEq, Repr

/-- The handlers of the module. -/
abbrev M (α : Type) := StateT FuseMap (Except Fault) α

/-- `assert`. -/
def check (c : Prop) [Decidable c] : M Unit := if c then pure () else throw .assertFailed

/-- The use of a pointer. -/
def deref {α : Type} : Option α → M α
  | some a => pure a
  | none => throw .nullPointer

/-- The map with another item at `i`. -/
def FuseMap.setItem (s : FuseMap) (i : ItemRef) (it : Item) : FuseMap :=
  { s with items := Function.update s.items i it }

/-- The map with another request at `r`. -/
def FuseMap.setRequest (s : FuseMap) (r : ℕ) (req : Request) : FuseMap :=
  { s with requests := Function.update s.requests r req }

/-- The item that a pointer names. -/
def getItem (i : ItemRef) : M Item := do return (← get).items i

/-- The request that a pointer names. -/
def getRequest (r : ℕ) : M Request := do return (← get).requests r

/-- An assignment to fields of an item. -/
def modifyItem (i : ItemRef) (f : Item → Item) : M Unit :=
  modify fun s => s.setItem i (f (s.items i))

/-- An assignment to fields of a request. -/
def modifyRequest (r : ℕ) (f : Request → Request) : M Unit :=
  modify fun s => s.setRequest r (f (s.requests r))

/-- The number of the next request to the environment. -/
def nextTick : M ℕ := do
  let s ← get
  modify fun s => { s with ticks := s.ticks + 1 }
  return s.ticks

/-! ### Rules -/

section

open Program

variable {F : Fault → Prop} {s : FuseMap}

@[simp] theorem wp_check {c : Prop} [Decidable c] {Q : Unit → FuseMap → Prop} :
    wp F (check c) Q s ↔ (c → Q () s) ∧ (¬ c → F .assertFailed) := by
  unfold check
  rw [wp_ite]
  rfl

@[simp] theorem wp_getItem {i : ItemRef} {Q : Item → FuseMap → Prop} :
    wp F (getItem i) Q s ↔ Q (s.items i) s := Iff.rfl

@[simp] theorem wp_getRequest {r : ℕ} {Q : Request → FuseMap → Prop} :
    wp F (getRequest r) Q s ↔ Q (s.requests r) s := Iff.rfl

@[simp] theorem wp_modifyItem {i : ItemRef} {f : Item → Item} {Q : Unit → FuseMap → Prop} :
    wp F (modifyItem i f) Q s ↔ Q () (s.setItem i (f (s.items i))) := Iff.rfl

@[simp] theorem wp_modifyRequest {r : ℕ} {f : Request → Request} {Q : Unit → FuseMap → Prop} :
    wp F (modifyRequest r f) Q s ↔ Q () (s.setRequest r (f (s.requests r))) := Iff.rfl

@[simp] theorem wp_nextTick {Q : ℕ → FuseMap → Prop} :
    wp F nextTick Q s ↔ Q s.ticks { s with ticks := s.ticks + 1 } := Iff.rfl

@[simp] theorem wp_deref_some {α : Type} {a : α} {Q : α → FuseMap → Prop} :
    wp F (deref (some a)) Q s ↔ Q a s := Iff.rfl

theorem wp_deref {α : Type} {o : Option α} {Q : α → FuseMap → Prop} :
    wp F (deref o) Q s ↔ (∀ a, o = some a → Q a s) ∧ (o = none → F .nullPointer) := by
  cases o with
  | none => simp [deref]
  | some a => simp

@[simp] theorem FuseMap.setItem_items_self (s : FuseMap) (i : ItemRef) (it : Item) :
    (s.setItem i it).items i = it := by
  simp [FuseMap.setItem]

theorem FuseMap.setItem_items_of_ne (s : FuseMap) {i j : ItemRef} (it : Item) (h : j ≠ i) :
    (s.setItem i it).items j = s.items j := by
  simp [FuseMap.setItem, h]

@[simp] theorem FuseMap.setRequest_requests_self (s : FuseMap) (r : ℕ) (q : Request) :
    (s.setRequest r q).requests r = q := by
  simp [FuseMap.setRequest]

theorem FuseMap.setRequest_requests_of_ne (s : FuseMap) {r r' : ℕ} (q : Request) (h : r' ≠ r) :
    (s.setRequest r q).requests r' = s.requests r' := by
  simp [FuseMap.setRequest, h]

@[simp] theorem FuseMap.setRequest_items (s : FuseMap) (r : ℕ) (q : Request) :
    (s.setRequest r q).items = s.items := rfl

end

/-! ### Lookup -/

/-- `FUSE_MAX_BUCKET`. -/
def nrBuckets : ℕ := 1048576

/-- `hash_sdbm`. A `char` is signed. -/
def hashSdbm (data : List UInt8) : UInt32 :=
  data.foldl (fun hash c => UInt32.ofBitVec (c.toBitVec.signExtend 32) + (hash <<< 6) +
    (hash <<< 16) - hash) 0

/-- The bucket of a key. -/
def bucketOf (key : List UInt8) : ℕ := (hashSdbm key).toNat % nrBuckets

/-- `fuse_init_item`. -/
def fuseInitItem (key : List UInt8) (it : Item) : Item :=
  { it with key := key, refCnt := 0, fuseReq := none }

/-- The loop of `fuse_map_lookup` over the places of a bucket: the place that was found, if any, and
the first idle place seen before it. -/
def lookupLoop (items : ℕ → Item) (key : List UInt8) : List ℕ → Option ℕ → Option ℕ × Option ℕ
  | [], avail => (none, avail)
  | j :: js, avail =>
      if avail = none ∧ (items j).active = false then lookupLoop items key js (some j)
      else if (items j).active = true ∧ (items j).key = key then (some j, none)
      else lookupLoop items key js avail

/-- `fuse_map_lookup`. -/
def fuseMapLookup (key : List UInt8) : M ItemRef := do
  let s ← get
  let b := bucketOf key
  match lookupLoop (fun j => s.items (b, j)) key (List.range (s.nrEntries b)) none with
  | (some j, _) => return (b, j)
  | (none, some j) =>
      modifyItem (b, j) (fuseInitItem key)
      return (b, j)
  | (none, none) =>
      let j := s.nrEntries b
      modify fun s => { s with nrEntries := Function.update s.nrEntries b (j + 1) }
      modifyItem (b, j) (fuseInitItem key)
      return (b, j)

end DssSdk.Fuse
