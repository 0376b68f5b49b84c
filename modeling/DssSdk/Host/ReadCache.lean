import DssSdk.Lib.Run
import DssSdk.Listing.Update

/-!
# The read cache of the host

`nkv_framework.cpp`: synchronous stores, retrieves and deletes on a path, with the least recently
used cache of `nkv_utils.h` in front of the device or without it.

* `Lru`: `nkv_lruCache`, the most recent entry first;
* `Device`: the device as a finite map, with the options of the calls;
* `doStoreIoToPath`, `doRetrieveIoFromPath`, `doDeleteIoFromPath`: the calls. The flag `cacheOn` is
  `nkv_use_read_cache`;
* `Call`, `step`: a call, with what it returns added to a log.

Not modelled: asynchronous calls, execution in memory and null pointers. The listing cache is in
`DssSdk.Host.ListingCache`.
-/

namespace DssSdk.Host

open Listing

/-! ### The cache -/

/-- A shard of the cache: the entries of `_cache_list`, which are those of `_cache_map`. -/
abbrev Lru := List (Bytes × Bytes)

namespace Lru

/-- The entry of a key. -/
def lookup (l : Lru) (k : Bytes) : Option Bytes := (l.find? fun e => e.1 = k).map Prod.snd

/-- `del`: there is at most one entry for a key. -/
def del (l : Lru) (k : Bytes) : Lru := l.filter fun e => e.1 ≠ k

/-- `put`, with `_max_size`. -/
def put (maxSize : ℕ) (l : Lru) (k v : Bytes) : Lru :=
  if maxSize < ((k, v) :: l.del k).length then ((k, v) :: l.del k).dropLast else (k, v) :: l.del k

/-- `get`: the entry goes to the front when the cache is nearly full. -/
def touch (maxSize : ℕ) (l : Lru) (k : Bytes) : Lru :=
  match l.lookup k with
  | none => l
  | some v => if 90 * maxSize / 100 < l.length then (k, v) :: l.del k else l

end Lru

/-! ### The device -/

/-- The results of the calls. -/
inductive NkvResult
  | success
  | errKeyLength
  | errValueLength
  | errOptionEncryptionNotSupported
  | errOptionCrcNotSupported
  | errBufferSmall
  | errKeyExist
  | errKeyNotExist
  | notSupported
  deriving DecidableEq, Repr

/-- What is stored on the device. -/
abbrev Device := Bytes → Option Bytes

/-- `kvs_store_type`. -/
inductive StoreType
  | post
  | noOverwrite
  | updateOnly
  | append
  deriving DecidableEq, Repr

namespace Device

/-- A store of the device. -/
def store (ty : StoreType) (d : Device) (k v : Bytes) : Device × NkvResult :=
  match ty, d k with
  | .noOverwrite, some _ => (d, .errKeyExist)
  | .updateOnly, none => (d, .errKeyNotExist)
  | .append, some w => (Function.update d k (some (w ++ v)), .success)
  | _, _ => (Function.update d k (some v), .success)

/-- A retrieve of the device, into a buffer of `n` bytes. -/
def retrieve (d : Device) (k : Bytes) (n : ℕ) (delete : Bool) : Device × NkvResult × Bytes :=
  match d k with
  | none => (d, .errKeyNotExist, [])
  | some w =>
      if n < w.length then (d, .errBufferSmall, [])
      else (if delete = true then Function.update d k none else d, .success, w)

/-- A delete of the device, which does not ask for the key to exist. -/
def delete (d : Device) (k : Bytes) : Device := Function.update d k none

end Device

/-! ### The calls -/

/-- What the read cache is configured with. `rddConn` is the queue handle of the RDD connection of
the path, if it has one. -/
structure ReadConf where
  samsungApi : Bool
  iterPrefix : Bytes
  hash : Bytes → UInt64
  shardSize : ℕ
  cacheSize : ℕ
  useDataCache : Bool
  dataCacheSizeThreshold : ℕ
  maxKeyLength : ℕ
  maxValueLength : ℕ
  rddConn : Option ℕ

/-- `nkv_store_option`. -/
structure StoreOption where
  encrypted : Bool
  crcInMeta : Bool
  noOverwrite : Bool
  updateOnly : Bool
  append : Bool
  rdd : Bool
  deriving DecidableEq, Repr

/-- `nkv_retrieve_option`. -/
structure RetrieveOption where
  delete : Bool
  rdd : Bool
  deriving DecidableEq, Repr

/-- The RDMA key and queue handle of the client, and the key of the memory region that the RDD
connection gives. -/
structure Rdma where
  key : ℕ
  qhandle : ℕ
  mr : Option ℕ
  deriving DecidableEq, Repr

/-- A path: the device and the shards of the cache. -/
structure Path where
  device : Device
  shards : ℕ → Lru

/-- The call takes the RDD route. -/
def rddRoute (conf : ReadConf) (optRdd : Bool) (len : ℕ) (r : Rdma) : Bool :=
  let connects := conf.rddConn.isSome && r.key == 0 && r.qhandle == 0 &&
    (decide (1048576 < len) || len % 4 != 0)
  let qhandle := if connects = true then conf.rddConn.getD 0 else r.qhandle
  let takeRddRoute := connects && r.mr.isSome
  let key := if takeRddRoute = true then r.mr.getD 0 else r.key
  (optRdd || takeRddRoute) && key != 0 && qhandle != 0

/-- The text `.minio.sys`. -/
def minioSys : Bytes := [46, 109, 105, 110, 105, 111, 46, 115, 121, 115]

/-- The cache is asked for the key. -/
def LooksUp (conf : ReadConf) (k : Bytes) : Prop :=
  ¬ minioSys <:+: k ∧ (conf.iterPrefix <+: k ∨ conf.useDataCache = true)

/-- A value of this length is put into the cache. -/
def Puts (conf : ReadConf) (k : Bytes) (len : ℕ) : Prop :=
  ¬ minioSys <:+: k ∧
    (conf.iterPrefix <+: k ∨ conf.useDataCache = true ∧ len ≤ conf.dataCacheSizeThreshold)

instance (conf : ReadConf) (k : Bytes) : Decidable (LooksUp conf k) :=
  inferInstanceAs (Decidable (_ ∧ _))

instance (conf : ReadConf) (k : Bytes) (len : ℕ) : Decidable (Puts conf k len) :=
  inferInstanceAs (Decidable (_ ∧ _))

/-- The shard of a key. -/
def cacheShard (conf : ReadConf) (k : Bytes) : ℕ := (conf.hash k).toNat % conf.shardSize

/-- The cached value of a key. -/
def cached (conf : ReadConf) (s : Path) (k : Bytes) : Option Bytes :=
  (s.shards (cacheShard conf k)).lookup k

/-- A value is put into the cache. -/
def cachePut (conf : ReadConf) (s : Path) (k v : Bytes) : Path :=
  { s with
    shards := Function.update s.shards (cacheShard conf k)
      (Lru.put conf.cacheSize (s.shards (cacheShard conf k)) k v) }

/-- A key is removed from the cache. -/
def cacheDel (conf : ReadConf) (s : Path) (k : Bytes) : Path :=
  { s with
    shards := Function.update s.shards (cacheShard conf k)
      ((s.shards (cacheShard conf k)).del k) }

/-- The cache is asked for a key. -/
def cacheTouch (conf : ReadConf) (s : Path) (k : Bytes) : Path :=
  { s with
    shards := Function.update s.shards (cacheShard conf k)
      (Lru.touch conf.cacheSize (s.shards (cacheShard conf k)) k) }

/-- The length of a key is not in order. -/
def KeyBad (conf : ReadConf) (k : Bytes) : Prop := conf.maxKeyLength < k.length ∨ k = []

instance (conf : ReadConf) (k : Bytes) : Decidable (KeyBad conf k) :=
  inferInstanceAs (Decidable (_ ∨ _))

/-- The store type that the options select. Without the `SAMSUNG_API` they are not looked at. -/
def storeType (conf : ReadConf) (opt : StoreOption) : StoreType :=
  if conf.samsungApi = false then .post
  else if opt.noOverwrite = true then .noOverwrite
  else if opt.updateOnly = true then .updateOnly
  else if opt.append = true then .append
  else .post

/-- The checks of a store before it goes to the device. -/
def storeError (conf : ReadConf) (k v : Bytes) (opt : StoreOption) (r : Rdma) : Option NkvResult :=
  if KeyBad conf k then some .errKeyLength
  else if conf.maxValueLength < v.length then some .errValueLength
  else if conf.samsungApi = true ∧ opt.encrypted = true then some .errOptionEncryptionNotSupported
  else if conf.samsungApi = true ∧ opt.crcInMeta = true then some .errOptionCrcNotSupported
  else if rddRoute conf opt.rdd v.length r = true ∧ conf.samsungApi = false then some .notSupported
  else none

/-- `do_store_io_to_path`. A store on the RDD route does not come to the cache. -/
def doStoreIoToPath (conf : ReadConf) (cacheOn : Bool) (s : Path) (k v : Bytes) (opt : StoreOption)
    (r : Rdma) : Path × NkvResult :=
  match storeError conf k v opt r with
  | some e => (s, e)
  | none =>
      match Device.store (storeType conf opt) s.device k v with
      | (d, .success) =>
          if rddRoute conf opt.rdd v.length r = true then ({ s with device := d }, .success)
          else if cacheOn = true ∧ Puts conf k v.length then
            (cachePut conf { s with device := d } k v, .success)
          else ({ s with device := d }, .success)
      | (d, e) => ({ s with device := d }, e)

/-- What a retrieve gives: its result, the length of the buffer afterwards, the actual length when
it is set, and the bytes that are copied. -/
structure Outcome where
  result : NkvResult
  length : ℕ
  actualLength : Option ℕ
  bytes : Bytes
  deriving DecidableEq, Repr

/-- A retrieve fails before it touches the value. -/
def Outcome.error (e : NkvResult) (n : ℕ) : Outcome := ⟨e, n, none, []⟩

/-- A value that came from the device goes into the cache. -/
def keepValue (conf : ReadConf) (cacheOn : Bool) (s : Path) (k w : Bytes) : Path :=
  if cacheOn = true ∧ w ≠ [] ∧ Puts conf k w.length then cachePut conf s k w else s

/-- The device is asked. A value without bytes is asked for once more; without the `SAMSUNG_API` a
key that does not exist is put into the cache, in a shard that is only known when the cache was
asked. -/
def retrieveFromDevice (conf : ReadConf) (cacheOn : Bool) (s : Path) (k : Bytes) (n : ℕ)
    (delete : Bool) : Option (Path × Outcome) :=
  match s.device.retrieve k n delete with
  | (d, .success, []) =>
      match Device.retrieve d k n delete with
      | (d', .success, w) => some (keepValue conf cacheOn { s with device := d' } k w,
          ⟨.success, n, some w.length, w⟩)
      | (d', e, _) => some ({ s with device := d' }, ⟨e, n, some 0, []⟩)
  | (d, .success, w) => some (keepValue conf cacheOn { s with device := d } k w,
      ⟨.success, n, some w.length, w⟩)
  | (d, e, _) =>
      if cacheOn = true ∧ conf.samsungApi = false ∧ e = .errKeyNotExist ∧ conf.iterPrefix <+: k then
        if LooksUp conf k then some (cachePut conf { s with device := d } k [], .error e n)
        else none
      else some ({ s with device := d }, .error e n)

/-- The value is on the RDD route. -/
def retrieveDirect (conf : ReadConf) (s : Path) (k : Bytes) (n : ℕ) (delete : Bool) :
    Path × Outcome :=
  if conf.samsungApi = false then (s, .error .notSupported n)
  else
    match s.device.retrieve k n delete with
    | (d, .success, w) => ({ s with device := d }, ⟨.success, n, some w.length, w⟩)
    | (d, e, _) => ({ s with device := d }, .error e n)

/-- `do_retrieve_io_from_path`, into a buffer of `n` bytes. It gives `none` when the cache is asked for
a key that it does not hold: `get` ends without a value then. -/
def doRetrieveIoFromPath (conf : ReadConf) (cacheOn : Bool) (s : Path) (k : Bytes) (n : ℕ)
    (opt : RetrieveOption) (r : Rdma) : Option (Path × Outcome) :=
  if KeyBad conf k then some (s, .error .errKeyLength n)
  else if conf.maxValueLength < n then some (s, .error .errValueLength n)
  else if rddRoute conf opt.rdd n r = true then some (retrieveDirect conf s k n opt.delete)
  else if cacheOn = true ∧ LooksUp conf k then
    match cached conf s k with
    | some [] => some (cacheTouch conf s k, .error .errKeyNotExist n)
    | some w => some (cacheTouch conf s k, ⟨.success, w.length, some w.length, w⟩)
    | none => none
  else retrieveFromDevice conf cacheOn s k n opt.delete

/-- `do_delete_io_from_path`. -/
def doDeleteIoFromPath (conf : ReadConf) (cacheOn : Bool) (s : Path) (k : Bytes) :
    Path × NkvResult :=
  if KeyBad conf k then (s, .errKeyLength)
  else if cacheOn = true ∧ LooksUp conf k then
    (cacheDel conf { s with device := s.device.delete k } k, .success)
  else ({ s with device := s.device.delete k }, .success)

/-! ### Runs -/

/-- A synchronous call. -/
inductive Call
  | store (k v : Bytes) (opt : StoreOption) (r : Rdma)
  | retrieve (k : Bytes) (n : ℕ) (opt : RetrieveOption) (r : Rdma)
  | delete (k : Bytes)
  deriving DecidableEq, Repr

/-- What a call returns; a retrieve with the length of its buffer before. -/
inductive Answer
  | stored (result : NkvResult)
  | retrieved (n : ℕ) (outcome : Outcome)
  | deleted (result : NkvResult)
  deriving DecidableEq, Repr

/-- A path and the answers of the calls so far. -/
structure Session where
  path : Path
  answers : List Answer

/-- A path with nothing stored. -/
def Session.init : Session := ⟨⟨fun _ => none, fun _ => []⟩, []⟩

/-- The session after a call, `none` when the code leaves the shards of the cache or takes the value of
a key that the cache does not hold. -/
def serve (conf : ReadConf) (cacheOn : Bool) (s : Session) : Call → Option Session
  | .store k v opt r =>
      let res := doStoreIoToPath conf cacheOn s.path k v opt r
      some ⟨res.1, s.answers ++ [.stored res.2]⟩
  | .retrieve k n opt r =>
      (doRetrieveIoFromPath conf cacheOn s.path k n opt r).map fun res =>
        ⟨res.1, s.answers ++ [.retrieved n res.2]⟩
  | .delete k =>
      let res := doDeleteIoFromPath conf cacheOn s.path k
      some ⟨res.1, s.answers ++ [.deleted res.2]⟩

end DssSdk.Host
