import DssSdk.Lib.Run
import DssSdk.Listing.Paths

/-!
# The listing cache of the host

`nkv_framework.cpp`: a path keeps, under the hash of every prefix of its keys, the set of the next
components. A synchronous store and a delete update it, and a thread enters the keys that were on
the device at the start.

* `parseDelimiterEntries`: the directories, the prefixes and the file name of a key;
* `populateIterCache`, `removeFromIterCache`: one prefix;
* `enterKey`, `removeKey`: the loops over the prefixes of a key;
* `Event`, `step`: a store, a delete and the thread that loads the cache.

A store or delete that fails on the device leaves before it reaches the cache. The locks, the
counters and the log output are left out.
-/

namespace DssSdk.Host

open Listing

/-- `NKV_ROOT_PREFIX`, the text `root/`. -/
def rootPrefix : Bytes := [114, 111, 111, 116, 47]

/-- What the listing cache is configured with, and `std::hash` of the platform. -/
structure Conf where
  hash : Bytes → UInt64
  numShards : ℕ
  iterPrefix : Bytes
  transientPrefix : Bytes
  remoteListing : Bool
  maxKeyLength : ℕ

/-- `listing_keys`: the sets by shard and hash. -/
abbrev Cache := ℕ → UInt64 → Option (Finset Bytes)

/-- The shard of a prefix. -/
def shardId (conf : Conf) (p : Bytes) : ℕ := (conf.hash p).toNat % conf.numShards

/-- The set that is kept for a prefix. -/
def find (conf : Conf) (c : Cache) (p : Bytes) : Option (Finset Bytes) :=
  c (shardId conf p) (conf.hash p)

/-- Keep a set for a prefix, or none. -/
def assign (conf : Conf) (c : Cache) (p : Bytes) (o : Option (Finset Bytes)) : Cache :=
  Function.update c (shardId conf p) (Function.update (c (shardId conf p)) (conf.hash p) o)

/-- `populate_iter_cache`. -/
def populateIterCache (conf : Conf) (c : Cache) (p v : Bytes) : Cache :=
  if v = [] then c else assign conf c p (some (insert v ((find conf c p).getD ∅)))

/-- `remove_from_iter_cache`, with `key_prefix_delete`. -/
def removeFromIterCache (conf : Conf) (c : Cache) (p v : Bytes) (root : Bool) : Cache × Bool :=
  if v = [] then (c, true)
  else
    match find conf c p with
    | none => (c, false)
    | some s =>
        if s.erase v = ∅ ∧ root = false then (assign conf c p none, true)
        else (assign conf c p (some (s.erase v)), false)

/-! ### The parts of a key -/

/-- The vectors and the position of the loop of `parse_delimiter_entries`. -/
structure Entries where
  dirs : List Bytes
  prefixes : List Bytes
  curPos : ℕ

/-- A round of the loop, for a delimiter that ends at `next`. -/
def Entries.round (key : Bytes) (s : Entries) (next : ℕ) : Entries where
  dirs := if s.curPos ≠ 0 then s.dirs ++ [(key.drop s.curPos).take (next - s.curPos)] else s.dirs
  prefixes := s.prefixes ++ [key.take next]
  curPos := next

/-- The loop of `parse_delimiter_entries`. -/
def parseLoop (key : Bytes) : Entries := (delimiterEnds 0 key).foldl (Entries.round key) ⟨[], [], 0⟩

/-- The file name after `parse_delimiter_entries`; `f` is what the variable had before. It is left
alone when there is one byte behind the last delimiter. -/
def parseFileName (key f : Bytes) : Bytes :=
  if (parseLoop key).curPos ≠ key.length - 1 then key.drop (parseLoop key).curPos else f

/-- The prefixes of a key with their entries: the next directory, and the file name for the last
prefix. -/
def levels (s : Entries) (fileName : Bytes) : List (Bytes × Bytes) :=
  s.prefixes.zip (s.dirs ++ [fileName])

/-- A key is entered, by a store or by the load thread. -/
def enterKey (conf : Conf) (c : Cache) (key f : Bytes) : Option Cache :=
  let s := parseLoop key
  let fileName := parseFileName key f
  if key = [] then none
  else
    match s.prefixes with
    | [] => some (populateIterCache conf c rootPrefix fileName)
    | p :: ps =>
        if s.dirs.length = ps.length then
          some ((levels s fileName).foldl (fun c pe => populateIterCache conf c pe.1 pe.2)
            (populateIterCache conf c rootPrefix p))
        else none

/-- The rounds of the loop of a delete above the last prefix: they end when a prefix is kept, and
the first prefix of the key is then taken from the root. -/
def removeUp (conf : Conf) (c : Cache) : List (Bytes × Bytes) → Cache
  | [] => c
  | (p, d) :: above =>
      match removeFromIterCache conf c p d false with
      | (c', false) => c'
      | (c', true) =>
          if above = [] then (removeFromIterCache conf c' rootPrefix p true).1
          else removeUp conf c' above

/-- A key is deleted. -/
def removeKey (conf : Conf) (c : Cache) (key : Bytes) : Option Cache :=
  let s := parseLoop key
  let fileName := parseFileName key []
  if key = [] then none
  else
    match (levels s fileName).reverse with
    | [] => some (removeFromIterCache conf c rootPrefix fileName true).1
    | (p, f) :: above =>
        if s.dirs.length = above.length then
          match removeFromIterCache conf c p f false with
          | (c', false) => some c'
          | (c', true) => some (removeUp conf c' above)
        else none

/-! ### Runs -/

/-- A path: its listing cache, the keys that are stored and the file name that the load thread
keeps from key to key. -/
structure State where
  cache : Cache
  keys : Finset Bytes
  fileName : Bytes

def State.init : State := ⟨fun _ _ => none, ∅, []⟩

/-- A store and a delete, with what the device says to them, and a key of the device that the load
thread takes. -/
inductive Event
  | store (key : Bytes) (success : Bool)
  | delete (key : Bytes) (success : Bool)
  | load (key : Bytes)
  deriving DecidableEq, Repr

/-- The length of a key is in order. -/
def KeyLength (conf : Conf) (key : Bytes) : Prop := key ≠ [] ∧ key.length ≤ conf.maxKeyLength

instance (conf : Conf) (key : Bytes) : Decidable (KeyLength conf key) :=
  inferInstanceAs (Decidable (_ ∧ _))

/-- The cache is kept for the keys of one prefix. -/
def Cached (conf : Conf) (key : Bytes) : Prop :=
  (if conf.remoteListing = true then conf.transientPrefix else conf.iterPrefix) <+: key

instance (conf : Conf) (key : Bytes) : Decidable (Cached conf key) :=
  inferInstanceAs (Decidable (_ <+: _))

/-- The path after an event, `none` when an assertion fails. -/
def step (conf : Conf) (s : State) : Event → Option State
  | .store key success =>
      if KeyLength conf key ∧ success = true then
        if Cached conf key then
          (enterKey conf s.cache key []).map fun c =>
            { s with cache := c, keys := insert key s.keys }
        else some { s with keys := insert key s.keys }
      else some s
  | .delete key success =>
      if KeyLength conf key ∧ success = true then
        if Cached conf key then
          (removeKey conf s.cache key).map fun c => { s with cache := c, keys := s.keys.erase key }
        else some { s with keys := s.keys.erase key }
      else some s
  | .load key =>
      (enterKey conf s.cache key s.fileName).map fun c =>
        ⟨c, insert key s.keys, parseFileName key s.fileName⟩

end DssSdk.Host
