import DssSdk.Listing.Read

/-!
# Remote listing: the host

`perform_remote_listing` of `nkv_framework.cpp` asks the target for one page of entries after the
other. A page begins after the last key of the one before, and the keys go into the output array of
the caller.

* `kvsListTuple`: the call of the driver, with the command that reaches the target;
* `copyKeys`: the loop that decodes a page;
* `listLoop`, `performRemoteListing`: the loop over the pages.

The driver is modelled from `openmpdk.patch`: it checks the lengths, sends the prefix with the start
key behind it, and has 16 bits for the number of keys and 8 for the offset of the start key. A LIST
command that the target answers transfers the value buffer of the target.
-/

namespace DssSdk.Host.Remote

open DssSdk.Listing (Bytes ReadCmd ReadReply ReadStatus)
open ByteMemory

/-- `nkv_max_key_length` and `nkv_max_value_length`. -/
structure Conf where
  maxKeyLength : ℕ
  maxValueLength : ℕ

/-- An entry of the output array: its buffer, and the length of the buffer or of the key in it. -/
structure Slot where
  key : Bytes
  length : ℕ
deriving DecidableEq, Repr

/-- The key that an entry holds. -/
def Slot.text (s : Slot) : Bytes := s.key.take s.length

/-- The results of the driver that the loop tells apart. -/
inductive KvsResult
  | success
  | endOfList
  | nonexistPrefix
  | failure
deriving DecidableEq, Repr

/-- The result for a status of the target. -/
def kvsResultOf : ReadStatus → KvsResult
  | .success => .success
  | .endOfList => .endOfList
  | .nonexistPrefix => .nonexistPrefix
  | _ => .failure

/-- A target: its reply to a command, given what is in its value buffer; `none` when it stops. -/
abbrev Target := ReadCmd → Memory → Option ReadReply

/-- The command for a prefix and a start key. -/
def listCommand (pre start : Bytes) (maxKeys vlen : ℕ) : ReadCmd where
  key := pre ++ start
  startKeyOffset := pre.length % 2 ^ 8
  maxKeysRequested := maxKeys % 2 ^ 16
  listSize := vlen
  options := 2
  hasValue := true
  valLength := vlen

/-- What the driver checks: the length of the keys, which must not be empty, and of the value. -/
def driverAccepts (pre start : Bytes) (vlen : ℕ) : Bool :=
  decide (pre.length + start.length ≤ 1024) && decide (pre ++ start ≠ []) &&
    decide (vlen ≤ 2 * 1024 * 1024) && decide (vlen % 4 = 0)

/-- `kvs_list_tuple`: the result, the size of the value and the value buffer. The buffer of the target
holds something before the command. -/
def kvsListTuple (target : Target) (pre start : Bytes) (maxKeys vlen : ℕ) (junk : Memory) :
    Option (KvsResult × ℤ × Memory) :=
  if driverAccepts pre start vlen then
    (target (listCommand pre start maxKeys vlen) junk).map fun reply =>
      (kvsResultOf reply.status, reply.cdw0, reply.mem)
  else some (.failure, 0, junk)

/-- The loop over the keys of a page, from address `a` into the array from index `cur` on. An entry
outside the array and a key that does not fit its buffer stop the host. -/
def copyKeys (mem : Memory) : ℕ → ℕ → ℕ → List Slot → Option (List Slot × ℕ)
  | 0, _, cur, keys => some (keys, cur)
  | lnrKeys + 1, a, cur, keys =>
    let lkeyLen := getWord mem a
    match keys[cur]? with
    | none => none
    | some slot =>
      if slot.length < lkeyLen then none
      else
        copyKeys mem lnrKeys (a + 4 + 4 * ((lkeyLen + 4 - 1) / 4)) (cur + 1)
          (keys.set cur ⟨getBytes mem (a + 4) lkeyLen ++ slot.key.drop lkeyLen, lkeyLen⟩)

inductive NkvResult
  | success
  | iterMoreKeys
  | error
deriving DecidableEq, Repr

/-- The output array, `num_keys_iterted`, the start key of the next page and
`iter_info->key_to_start_iter`. -/
structure State where
  keys : List Slot
  numKeys : ℕ
  nextStartKey : Bytes
  keyToStartIter : Bytes
deriving DecidableEq, Repr

/-- How a call ends. -/
inductive End
  | fault
  | returned (result : NkvResult) (s : State)
deriving DecidableEq, Repr

/-- `*max_keys - *num_keys_iterted` in 32 bits. -/
def remaining (maxKeys numKeys : ℕ) : ℕ := (maxKeys + 2 ^ 32 - numKeys) % 2 ^ 32

/-- The end of the loop. -/
def finish (maxKeys : ℕ) (s : State) : End :=
  if remaining maxKeys s.numKeys = 0 then
    .returned .iterMoreKeys { s with keyToStartIter := s.nextStartKey }
  else .returned .success s

/-- The loop over the pages; `junk` gives what the buffer of the target holds before each command.
Without fuel the loop is still under way. A page without keys leaves `keys[cur_index - 1]` to the
entry before. -/
def listLoop (target : Target) (pre : Bytes) (maxKeys vlen : ℕ) (junk : ℕ → Memory) :
    ℕ → ℕ → State → Option End
  | 0, _, _ => none
  | fuel + 1, adjustedMaxKey, s =>
    match kvsListTuple target pre s.nextStartKey adjustedMaxKey vlen (junk fuel) with
    | none => some .fault
    | some (.endOfList, _, _) => some (finish maxKeys s)
    | some (.nonexistPrefix, _, _) => some (finish maxKeys s)
    | some (.failure, _, _) => some (.returned .error s)
    | some (.success, size, mem) =>
      if size = 0 then some (.returned .success s)
      else
        match copyKeys mem (getWord mem 0) 4 s.numKeys s.keys with
        | none => some .fault
        | some (_, 0) => some .fault
        | some (keys, cur + 1) =>
          match keys[cur]? with
          | none => some .fault
          | some slot =>
            let s' := { s with keys := keys, numKeys := cur + 1, nextStartKey := slot.text }
            if cur + 1 < maxKeys then
              listLoop target pre maxKeys vlen junk fuel (remaining maxKeys (cur + 1)) s'
            else some (finish maxKeys s')

end DssSdk.Host.Remote
