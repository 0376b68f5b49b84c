import DssSdk.Lib.CellMemory
import DssSdk.Lib.Run
import DssSdk.Lib.TailQueue

/-!
# The map of a cache buffer

`wal_map.cpp` and the map operations of `wal_log.cpp`: a hash table whose buckets hold a chain of
items and a count of the live ones. The search through a chain is driven by that count, and the
buckets that were used are linked in a tail queue for the flusher.

* `MapItem`, `Bucket`, `WalMap`, `Buffer`: the records. A chain is a list, and a pointer to an
  item is the number of its bucket and its place in the chain;
* `invalidateItem`, `cacheInsertObject`, `mapRead`: the operations of `wal_cache_map_ops`;
* `search`, `lookup`: `wal_map_lookup`;
* `reinit`: `wal_map_reinit`;
* `flushEntry`, `completeEntry`: what the flusher and its completion do to an item;
* `MapEvent`, `mapStep`: the calls.

`none` is a failed assertion, a null pointer that is followed or a loop that does not end. The
argument `addr` of `wal_map_lookup` is zero in every call. The key buffers of the items, the status
for the recovery statistics, the counters and the cache utilization are left out.
-/

namespace DssSdk.Wal

open CellMemory TailQueue

abbrev Bytes := List UInt8

/-- `WAL_ITEM_*`. -/
inductive ItemStatus
  | valid
  | invalid
  | flushing
  | flushed
  | deleted
  deriving DecidableEq, Repr

/-- `wal_map_item_t`. -/
structure MapItem where
  key : Bytes
  valSize : ℕ
  addr : ℕ
  status : ItemStatus
  deriving DecidableEq, Repr

/-- `wal_bucket_t` without its link. -/
structure Bucket where
  entry : List MapItem
  validNrEntries : ℤ
  totalNrEntries : ℤ
  deriving DecidableEq, Repr

/-- `wal_map_t`: the buckets, and the queue of the used ones with all links. -/
structure WalMap where
  table : ℕ → Bucket
  queue : Queue ℕ
  flushHead : Option ℕ

/-- A pointer to an item. -/
structure ItemRef where
  bucket : ℕ
  index : ℕ
  deriving DecidableEq, Repr

/-- A record `[hdr|key|val|chksum]`: its size in blocks, the state of its header, key and value. -/
structure Record where
  szBlk : ℕ
  state : ItemStatus
  key : Bytes
  val : Bytes
  deriving DecidableEq, Repr

/-- What is written to a cache buffer: a record, a bare value when there is no log, or the header
of a dump group with its list of requests. -/
inductive Cell
  | record (r : Record)
  | value (v : Bytes)
  | dumpHdr (reqList : List ℕ)
  deriving DecidableEq, Repr

/-- `DUMP_*`. -/
structure DumpFlags where
  batch : Bool
  single : Bool
  deriving DecidableEq, Repr

/-- `wal_dump_info_t` without its timers. An address is a buffer and an address in it. -/
structure DumpInfo where
  buf : Bool
  dumpAddr : ℕ
  dumpBlk : ℕ
  dumpFlags : DumpFlags
  deriving DecidableEq, Repr

/-- `DUMP_NOT_READY`. -/
def dumpNotReady : DumpFlags := ⟨false, false⟩

/-- `wal_buffer_t` of the cache, with its part of the memory. -/
structure Buffer where
  startAddr : ℕ
  endAddr : ℕ
  currPos : ℕ
  dumpInfo : DumpInfo
  map : WalMap
  mem : Memory Cell
  nrObjectsInserted : ℤ
  nrPendingIo : ℤ

/-- What the map is configured with: `hash_sdbm`, the number of buckets, `__log_enabled`, and a
bound on the rounds of the loops over the queue. -/
structure Conf where
  hash : Bytes → ℕ
  nrBuckets : ℕ
  logEnabled : Bool
  fuel : ℕ
  nrBuckets_pos : 0 < nrBuckets

/-- `wal_object_t`: a key, the value or the buffer for it, and the request. -/
structure Object where
  key : Bytes
  val : Bytes
  req : ℕ
  deriving DecidableEq, Repr

/-- `wal_map_lookup_type_t`. -/
inductive LookupType
  | writeAppend
  | writeInplace
  | delete
  | read
  | invalidate
  deriving DecidableEq, Repr

/-- `wal_map_insert_t`. -/
inductive InsertType
  | insertNew
  | overwriteAppend
  | overwriteInplace
  | overwriteDelete
  deriving DecidableEq, Repr

/-- The bucket of a key. -/
def Conf.bucketIdx (conf : Conf) (key : Bytes) : ℕ := conf.hash key % conf.nrBuckets

/-! ### Access -/

/-- Change a bucket. -/
def Buffer.setBucket (buf : Buffer) (i : ℕ) (b : Bucket) : Buffer :=
  { buf with map := { buf.map with table := Function.update buf.map.table i b } }

/-- The item behind a pointer. -/
def Buffer.item? (buf : Buffer) (ref : ItemRef) : Option MapItem :=
  (buf.map.table ref.bucket).entry[ref.index]?

/-- Change an item of the chain. -/
def Bucket.setItem (b : Bucket) (j : ℕ) (it : MapItem) : Bucket :=
  { b with entry := b.entry.set j it }

/-- Change the item behind a pointer. -/
def Buffer.setItem (buf : Buffer) (ref : ItemRef) (it : MapItem) : Buffer :=
  buf.setBucket ref.bucket ((buf.map.table ref.bucket).setItem ref.index it)

/-! ### The operations on items -/

/-- `WAL_ALIGN`. -/
def walAlign : ℕ := 1024

/-- `__wal_obj_hdr_sz` and `__wal_obj_chksum_sz`. -/
def objHdrSz : ℕ := 24

@[inherit_doc objHdrSz]
def objChksumSz : ℕ := 8

/-- A size in blocks. -/
def blocks (size : ℕ) : ℕ := (size + walAlign - 1) / walAlign

/-- `wal_prepare_object_record`. -/
def prepareObjectRecord (obj : Object) (isDel : Bool) : Record where
  szBlk := blocks (objHdrSz + objChksumSz + obj.key.length + if isDel then 0 else obj.val.length)
  state := if isDel then .deleted else .valid
  key := obj.key
  val := if isDel then [] else obj.val

/-- The state in the header of a record. -/
def Cell.setState (s : ItemStatus) : Cell → Cell
  | .record r => .record { r with state := s }
  | c => c

/-- `wal_map_invalidate_item`, with `rc == 0`. -/
def invalidateItem (conf : Conf) (buf : Buffer) (ref : ItemRef) (it : MapItem) : Buffer × Bool :=
  let b := buf.map.table ref.bucket
  let b' : Bucket :=
    { b.setItem ref.index { it with status := .invalid } with
      validNrEntries := b.validNrEntries - 1 }
  let buf' : Buffer :=
    { buf.setBucket ref.bucket b' with
      mem := if conf.logEnabled then modify buf.mem it.addr (Cell.setState .invalid) else buf.mem }
  match it.status with
  | .valid => ({ buf' with nrObjectsInserted := buf.nrObjectsInserted - 1 }, true)
  | .flushed => (buf', true)
  | .deleted => (buf', true)
  | _ => (buf, false)

/-- `wal_cache_insert_object`, on an item that is still a local of the caller. -/
def cacheInsertObject (conf : Conf) (buf : Buffer) (obj : Object) (it : MapItem)
    (ty : InsertType) : Buffer × MapItem :=
  let isDel := ty == .overwriteDelete
  let inPlace := !conf.logEnabled && obj.val.length < it.valSize
  let pos := if inPlace then it.addr else buf.currPos
  let record := prepareObjectRecord obj isDel
  let szBlk := if conf.logEnabled then record.szBlk else blocks obj.val.length
  let mem' :=
    if conf.logEnabled then write buf.mem pos (szBlk * walAlign) (.record record)
    else write buf.mem pos obj.val.length (.value obj.val)
  let inserted :=
    ty == .insertNew || (ty == .overwriteAppend && it.status == .deleted)
  ({ buf with
      mem := mem'
      currPos := if inPlace then buf.currPos else buf.currPos + szBlk * walAlign
      nrObjectsInserted := if inserted then buf.nrObjectsInserted + 1 else buf.nrObjectsInserted },
    { it with
      addr := pos
      status := if conf.logEnabled && isDel then .deleted else .valid })

/-- `wal_cache_map_read`: the bytes that are read and the number of them. -/
def mapRead (buf : Buffer) (it : MapItem) (size : ℕ) : Bytes × ℕ :=
  let rdSz := min it.valSize size
  match buf.mem it.addr with
  | some (_, .record r) => (r.val.take rdSz, rdSz)
  | some (_, .value v) => (v.take rdSz, rdSz)
  | _ => ([], rdSz)

/-! ### `wal_map_lookup` -/

/-- How a round through a chain ends: with the key, with the count at zero (the next item, the
item before it and the last invalid one on the way), at an invalid item that is the last one while
the count is not zero, or behind the end of the chain. -/
inductive Pass
  | found (i : ℕ)
  | absent (i : ℕ) (pre invalid : Option ℕ)
  | exhausted
  | null
  deriving DecidableEq, Repr

/-- A round of the search, from the item at place `i` on. -/
def pass (key : Bytes) (items : List MapItem) (i : ℕ) (nr : ℤ) (pre invalid : Option ℕ) : Pass :=
  match items with
  | [] => if nr = 0 then .absent i pre invalid else .null
  | it :: rest =>
      if nr = 0 then .absent i pre invalid
      else if it.status = .invalid then
        if rest = [] then .exhausted else pass key rest (i + 1) nr (some i) (some i)
      else if it.key = key then .found i
      else pass key rest (i + 1) (nr - 1) (some i) invalid

/-- `bucket_revalidate`. -/
def Bucket.revalidate (b : Bucket) : Bucket :=
  let ive : ℤ := (b.entry.countP fun it => it.status == .invalid : ℕ)
  if ive ≠ b.totalNrEntries - b.validNrEntries then
    { b with validNrEntries := b.totalNrEntries - ive }
  else b

/-- The search. A second round that ends at an invalid item finds the count as it was, so that the
loop goes on for ever. -/
def search (key : Bytes) (b : Bucket) : Option (Bucket × Pass) :=
  match pass key b.entry 0 b.validNrEntries none none with
  | .null => none
  | .exhausted =>
      let b' := b.revalidate
      match pass key b'.entry 0 b'.validNrEntries none none with
      | .null => none
      | .exhausted => none
      | r => some (b', r)
  | r => some (b, r)

/-- The object in place of the item it was found at, as `wal_map_lookup` leaves the item. -/
def overwriteItem (conf : Conf) (buf : Buffer) (obj : Object) (ref : ItemRef) (it : MapItem)
    (t : InsertType) : Buffer :=
  let (buf', it') := cacheInsertObject conf buf obj it t
  buf'.setItem ref
    (if t = .overwriteDelete then { it' with status := .deleted, valSize := 0 }
    else { it' with valSize := obj.val.length })

/-- The item with the same key was found. -/
def lookupHit (conf : Conf) (buf : Buffer) (obj : Object) (ty : LookupType) (ref : ItemRef)
    (it : MapItem) : Option (Buffer × Option ItemRef) :=
  match ty with
  | .read =>
      if it.status = .invalid ∨ it.status = .deleted then some (buf, none)
      else if obj.val.length = 0 then none
      else if (mapRead buf it obj.val.length).2 = 0 then some (buf, none)
      else some (buf, some ref)
  | .invalidate => some ((invalidateItem conf buf ref it).1, some ref)
  | .delete =>
      if it.status = .deleted then some (buf, none)
      else
        match invalidateItem conf buf ref it with
        | (buf', true) =>
            if conf.logEnabled then
              -- the item stays in the chain, so that the count is put right again
              let b := buf'.map.table ref.bucket
              let buf'' :=
                buf'.setBucket ref.bucket { b with validNrEntries := b.validNrEntries + 1 }
              some (overwriteItem conf buf'' obj ref { it with status := .invalid }
                .overwriteDelete, some ref)
            else none
        | (buf', false) => some (overwriteItem conf buf' obj ref it .overwriteDelete, some ref)
  | .writeAppend => some (overwriteItem conf buf obj ref it .overwriteAppend, some ref)
  | .writeInplace => some (overwriteItem conf buf obj ref it .overwriteInplace, some ref)

/-- The counters after an insertion. -/
def Bucket.countInsert (b : Bucket) : Bucket :=
  { b with
    validNrEntries := b.validNrEntries + 1
    totalNrEntries := max b.totalNrEntries (b.validNrEntries + 1) }

/-- A new item at the end of the chain. -/
def appendItem (conf : Conf) (buf : Buffer) (obj : Object) (i : ℕ) (pre : Option ℕ) :
    Option (Buffer × Option ItemRef) :=
  let b := buf.map.table i
  let (buf', it) := cacheInsertObject conf buf obj ⟨obj.key, 0, 0, .valid⟩ .insertNew
  let it' := { it with valSize := obj.val.length }
  if b.totalNrEntries = 0 then
    let buf'' := buf'.setBucket i { b with entry := [it'] }.countInsert
    some ({ buf'' with map := { buf''.map with queue := buf''.map.queue.insertTail i } },
      some ⟨i, 0⟩)
  else
    match pre with
    | none => none
    | some p =>
        some (buf'.setBucket i { b with entry := b.entry.take (p + 1) ++ [it'] }.countInsert,
          some ⟨i, p + 1⟩)

/-- An item of the chain is used again. -/
def reuseItem (conf : Conf) (buf : Buffer) (obj : Object) (i j : ℕ) (it : MapItem) :
    Buffer × Option ItemRef :=
  let b := buf.map.table i
  let (buf', it') :=
    cacheInsertObject conf buf obj { it with status := .valid, key := obj.key } .insertNew
  let buf'' :=
    buf'.setBucket i (b.setItem j { it' with valSize := obj.val.length }).countInsert
  -- `TAILQ_NEXT(bucket, link) == NULL`
  let q := buf''.map.queue
  ({ buf'' with
      map := { buf''.map with queue := if q.next i = none then q.insertTail i else q } },
    some ⟨i, j⟩)

/-- No item with the key was found, and the search stopped before the item at `j`. `old` is the
bucket as the call found it. -/
def lookupMiss (conf : Conf) (buf : Buffer) (obj : Object) (ty : LookupType) (i : ℕ) (old : Bucket)
    (j : ℕ) (pre invalid : Option ℕ) : Option (Buffer × Option ItemRef) :=
  match ty with
  | .read => some (buf, none)
  | .invalidate => some (buf, none)
  | .delete => some (buf, none)
  | .writeAppend | .writeInplace =>
      let b := buf.map.table i
      if b.totalNrEntries = 0 ∨ b.validNrEntries = b.totalNrEntries then
        if old.validNrEntries = b.validNrEntries ∧ old.totalNrEntries = b.totalNrEntries then
          appendItem conf buf obj i pre
        else none
      else if b.validNrEntries < b.totalNrEntries then
        let k := invalid.getD j
        (b.entry[k]?).map fun it => reuseItem conf buf obj i k it
      else none

/-- `wal_map_lookup`. -/
def lookup (conf : Conf) (buf : Buffer) (obj : Object) (ty : LookupType) :
    Option (Buffer × Option ItemRef) :=
  let i := conf.bucketIdx obj.key
  let b := buf.map.table i
  (search obj.key b).bind fun (b', r) =>
    let buf' := buf.setBucket i b'
    match r with
    | .found j => (b'.entry[j]?).bind fun it => lookupHit conf buf' obj ty ⟨i, j⟩ it
    | .absent j pre invalid => lookupMiss conf buf' obj ty i b j pre invalid
    | _ => none

/-! ### The start and `wal_map_reinit` -/

/-- `wal_map_allocate_item`. -/
def allocateItem : MapItem := ⟨[], 0, 0, .invalid⟩

/-- `wal_map_create`. -/
def mapCreate : WalMap where
  table := fun _ => ⟨[allocateItem, allocateItem, allocateItem], 0, 3⟩
  queue := ⟨none, .head, fun _ => none, fun _ => .head⟩
  flushHead := none

/-- What `wal_map_reinit` does to a bucket. -/
def Bucket.reset (b : Bucket) : Bucket :=
  { b with
    entry := b.entry.map fun it => { it with status := .invalid }
    validNrEntries := 0 }

/-- The loop of `wal_map_reinit` from a bucket on. -/
def reinitLoop : ℕ → WalMap → Option ℕ → Option WalMap
  | _, m, none => some m
  | 0, _, some _ => none
  | fuel + 1, m, some b =>
      reinitLoop fuel
        { m with
          table := Function.update m.table b (m.table b).reset
          queue := m.queue.remove b }
        (m.queue.next b)

/-- `wal_map_reinit`. -/
def reinit (conf : Conf) (m : WalMap) : Option WalMap :=
  (reinitLoop conf.fuel m m.queue.first).map fun m => { m with queue := m.queue.init }

/-! ### The flusher on an item -/

/-- `SAMSUNG_KV_MAX_EMBED_KEY_SIZE`. -/
def maxEmbedKeySize : ℕ := 16

/-- The body of the loop over the items in `wal_cache_flush_spdk_proc`: the buffer, and whether
an I/O was submitted. `keyBuff` says that there is a buffer for a large key; without one the pass
ends, which is the third result. -/
def flushEntry (conf : Conf) (buf : Buffer) (ref : ItemRef) (it : MapItem) (keyBuff : Bool) :
    Option (Buffer × Bool × Bool) :=
  match it.status with
  | .deleted =>
      if conf.logEnabled then
        let buf' := buf.setItem ref { it with status := .invalid }
        let b := buf'.map.table ref.bucket
        some (buf'.setBucket ref.bucket { b with validNrEntries := b.validNrEntries - 1 },
          false, false)
      else none
  | .valid =>
      if maxEmbedKeySize < it.key.length ∧ keyBuff = false then some (buf, false, true)
      else
        some ({ buf.setItem ref { it with status := .flushing } with
          nrPendingIo := buf.nrPendingIo + 1 }, true, false)
  | _ => some (buf, false, false)

/-- `wal_flush_complete` as far as the item and its buffer go. -/
def completeEntry (buf : Buffer) (ref : ItemRef) (it : MapItem) : Option Buffer :=
  if it.status = .flushing then
    some { buf.setItem ref { it with status := .flushed } with
      nrPendingIo := buf.nrPendingIo - 1
      nrObjectsInserted := buf.nrObjectsInserted - 1 }
  else none

/-! ### The calls -/

/-- The calls on the map of a buffer. -/
inductive MapEvent
  | lookup (obj : Object) (ty : LookupType)
  | flush (ref : ItemRef) (keyBuff : Bool)
  | complete (ref : ItemRef)
  | reinit
  deriving DecidableEq

/-- One call. -/
def mapStep (conf : Conf) (buf : Buffer) : MapEvent → Option Buffer
  | .lookup obj ty => (lookup conf buf obj ty).map Prod.fst
  | .flush ref keyBuff =>
      (buf.item? ref).bind fun it => (flushEntry conf buf ref it keyBuff).map Prod.fst
  | .complete ref => (buf.item? ref).bind fun it => completeEntry buf ref it
  | .reinit => (reinit conf buf.map).map fun m => { buf with map := m }

end DssSdk.Wal
