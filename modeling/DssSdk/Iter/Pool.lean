import DssSdk.Lib.ByteMemory
import DssSdk.Lib.Run

/-!
# The pool iterator

An ITERATE_READ request of a pool is served from the buffers of its devices. A device whose buffer is
used up is asked for its next page, and when the last page has come, the keys of all buffers are
copied into the buffer of the request as far as they fit. The rest stays for the next request.

Source: `iter_op.cpp` (`get_iter_list_unit`, `iter_sg_read_data`, `iter_update_status`,
`iter_ctrl_complete`, `iter_handle_read_op`) and `dfly_kv_pool_dev.cpp` (`dfly_kv_execute_iter2`,
`dfly_kv_pool_iter_read`).

* `Dev`, `State`: `dev_iterator_info` and `dfly_iterator_info`;
* `copyUnits`, `iterSgReadData`: the copy of the keys;
* `Event`, `step`: a request, one round of the loop that asks the devices, and a page that comes.

The loop over the devices and the completions run on different threads, so that a page may come
between two rounds. The requests are those of the load of the list module, the only ones that reach
the iterator: they are completed by their callback, and `dfly_nvmf_complete` asserts that it gets no
such request. The iterator has been opened; opening and closing it are left out.
-/

namespace DssSdk.Iter

open ByteMemory

/-- A key. -/
abbrev Bytes := List UInt8

/-- `kvs_iterator_status`. -/
inductive Status
  | unknown
  | close
  | closing
  | opening
  | opened
  | reading
  | read
deriving DecidableEq, Repr

/-- The status code of a device that has no more keys. -/
def endOfIter : ℕ := 0x93

/-- `dev_iterator_info`, with whether a read of the device is under way. -/
structure Dev where
  itBuff : Memory
  itDataSz : ℕ
  readPos : ℕ
  isEof : ℕ
  inFlight : Bool

/-- The test for keys that have not been copied: with two words or less the buffer counts as used
up. -/
def Dev.hasUnread (d : Dev) : Bool := decide (d.readPos + 2 * 4 < d.itDataSz)

/-- An ITERATE_READ request: the length and the content of its buffer. -/
structure Req where
  length : ℕ
  buffer : Memory

/-- A request that is completed, with the bytes that are filled, `KVS_ITERATOR_READ_EOF` and whether
the copy stayed within the pages of the devices. -/
structure Reply where
  req : Req
  buffer : Memory
  size : ℤ
  eof : Bool
  inPage : Bool

/-- `dfly_iterator_info`, with the position of the loop over the devices, the requests so far, the
completed ones and the keys of the pages that have come. -/
structure State where
  status : Status
  nrPendingDev : ℕ
  devs : List Dev
  dflyReq : Option Req
  dispatch : Option ℕ
  requests : ℕ
  replies : List Reply
  received : List Bytes

/-! ### The copy -/

/-- A unit in the buffer of a device: where its size stands, its bytes, and how far it moves the read
position. -/
structure IterUnit where
  addr : ℕ
  unitSz : ℕ
  readSz : ℕ

/-- `get_iter_list_unit`. The number of keys at the beginning is skipped. A read position closer to the
end than one word is left to the caller without a unit, who would read through a null pointer. -/
def getIterListUnit (d : Dev) : Option IterUnit :=
  if d.readPos < d.itDataSz ∧ d.readPos + 4 ≤ d.itDataSz then
    let head := if d.readPos = 0 then 4 else 0
    let dataSz := (getWord d.itBuff (d.readPos + head) + 4 - 1) / 4 * 4 % 2 ^ 16
    some ⟨d.readPos + head, dataSz + 4, head + dataSz + 4⟩
  else none

/-- The buffer of the request while it is filled: where the next unit goes, the bytes left, the number
of units and whether all reads were within the page of a device. -/
structure Out where
  mem : Memory
  pos : ℕ
  left : ℤ
  nrUnit : ℕ
  inPage : Bool

/-- What is read of a unit: its bytes, and by `snprintf` the key as a string up to a zero byte. -/
def IterUnit.inPage (u : IterUnit) (d : Dev) : Bool :=
  decide (u.addr + u.unitSz ≤ d.itDataSz) &&
    decide (0 ∈ getBytes d.itBuff (u.addr + 4) (d.itDataSz - (u.addr + 4)))

/-- Copy a unit. -/
def Out.put (o : Out) (d : Dev) (u : IterUnit) : Out where
  mem := putBytes o.mem o.pos (getBytes d.itBuff u.addr u.unitSz)
  pos := o.pos + u.unitSz
  left := o.left - u.unitSz
  nrUnit := o.nrUnit + 1
  inPage := o.inPage && u.inPage d

/-- The loop over the units of a device, with whether the buffer of the request was full. The size of
a key is asserted to be between 1 and 255. -/
def copyUnits : ℕ → Dev → Out → Option (Dev × Out × Bool)
  | 0, d, o => some (d, o, false)
  | fuel + 1, d, o =>
    if d.hasUnread then
      match getIterListUnit d with
      | none => none
      | some u =>
        if (u.unitSz : ℤ) < o.left then
          if 0 < getWord d.itBuff u.addr ∧ getWord d.itBuff u.addr ≤ 255 then
            copyUnits fuel { d with readPos := (d.readPos + u.readSz) % 2 ^ 16 } (o.put d u)
          else none
        else some (d, o, true)
    else some (d, o, false)

/-- The loop over the devices. The read position moves with every unit, so that the bytes of the page
bound the units. -/
def copyDevs : List Dev → Out → Option (List Dev × Out)
  | [], o => some ([], o)
  | d :: ds, o =>
    match copyUnits d.itDataSz d o with
    | none => none
    | some (d', o', true) => some (d' :: ds, o')
    | some (d', o', false) => (copyDevs ds o').map fun r => (d' :: r.1, r.2)

/-- Whether every device has ended. -/
def allEof (devs : List Dev) : Bool := devs.all fun d => decide (d.isEof = endOfIter)

def iterSgReadData (req : Req) (devs : List Dev) : Option (List Dev × Reply) :=
  (copyDevs devs ⟨req.buffer, 4, (req.length : ℤ) - 4, 0, true⟩).map fun r =>
    (r.1, ⟨req, putWord r.2.mem 0 r.2.nrUnit, (req.length : ℤ) - r.2.left, allEof devs, r.2.inPage⟩)

/-! ### Requests and completions -/

def iterUpdateStatus : Status → Status
  | .closing => .close
  | .opening => .opened
  | .reading => .read
  | st => st

/-- `iter_handle_read_op` with `dfly_kv_pool_iter_read`: the request is entered before the status is
looked at. -/
def iterRead (req : Req) (s : State) : Option State :=
  let s := { s with dflyReq := some req, requests := s.requests + 1 }
  if s.nrPendingDev ≠ 0 then none
  else if s.status = .opened ∨ s.status = .read then
    some { s with
      status := .reading
      nrPendingDev := s.devs.length % 2 ^ 8
      dispatch := some 0 }
  else some s

/-- `ATOMIC_DEC_FETCH` of the counter, which has 8 bits. -/
def decPending (n : ℕ) : ℕ := (n + 2 ^ 8 - 1) % 2 ^ 8

/-- A device that is not asked: it has ended, or has keys in its buffer. -/
def Dev.skipped (d : Dev) : Bool := decide (d.isEof = endOfIter) || d.hasUnread

/-- A round of the loop of `dfly_kv_execute_iter2` and, after the last device, its end. The end with
nothing pending completes the request, which fails the assertion of `dfly_nvmf_complete`. -/
def dispatchRound (s : State) : Option State :=
  match s.dispatch with
  | none => none
  | some i =>
    match s.devs[i]? with
    | some d =>
      if d.skipped then
        some { s with nrPendingDev := decPending s.nrPendingDev, dispatch := some (i + 1) }
      else
        some { s with
          devs := s.devs.set i { d with readPos := 0, inFlight := true }
          dispatch := some (i + 1) }
    | none => if s.nrPendingDev = 0 then none else some { s with dispatch := none }

/-- The page of a device. A page without data gets a counter of zero. -/
def Dev.receive (d : Dev) (mem : Memory) (cdw0 sc : ℕ) : Dev :=
  { d with
    itDataSz := cdw0 % 2 ^ 16
    isEof := sc % 2 ^ 16
    itBuff := if cdw0 % 2 ^ 16 = 0 then putWord mem 0 0 else mem
    inFlight := false }

/-- `iter_ctrl_complete` for a read of device `i`. -/
def iterCtrlComplete (i : ℕ) (mem : Memory) (cdw0 sc : ℕ) (s : State) : Option State :=
  match s.devs[i]? with
  | none => none
  | some d =>
    let s := { s with
      devs := s.devs.set i (d.receive mem cdw0 sc)
      nrPendingDev := decPending s.nrPendingDev }
    if s.nrPendingDev = 0 then
      match s.dflyReq with
      | none => none
      | some req =>
        (iterSgReadData req s.devs).map fun r =>
          { s with
            status := iterUpdateStatus s.status
            devs := r.1
            replies := s.replies ++ [r.2] }
    else some s

/-- What happens to the iterator. The page of a device comes with the keys that its bytes stand for. -/
inductive Event
  | read (req : Req)
  | dispatch
  | done (i : ℕ) (keys : List Bytes) (mem : Memory) (cdw0 sc : ℕ)

def step (s : State) : Event → Option State
  | .read req => iterRead req s
  | .dispatch => dispatchRound s
  | .done i keys mem cdw0 sc =>
    iterCtrlComplete i mem cdw0 sc { s with received := s.received ++ keys }

/-- An iterator that has been opened. -/
def State.opened (n : ℕ) (buffers : ℕ → Memory) : State where
  status := .opened
  nrPendingDev := 0
  devs := (List.range n).map fun i => ⟨buffers i, 0, 0, 0, false⟩
  dflyReq := none
  dispatch := none
  requests := 0
  replies := []
  received := []

end DssSdk.Iter
