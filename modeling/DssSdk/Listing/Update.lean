import DssSdk.Lib.PrefixTree

/-!
# Prefix listing: the update of a key

The listing module keeps, for every directory prefix of the stored keys, the set of the next
components. A STORE or DELETE request carries its prefix/entry pairs in `list_data`: the zone and
the position of every pair, the deepest last. The instance that owns the zone of the deepest pair
handles it and goes on to the pair above, and a request that meets a zone of another instance is
forwarded, unless the subsystem is in KV mode: there one pass ends it.

Source: `list_module.cpp` (`parse_delimiter_entries_pos`, `list_get_module_ctx_on_change`,
`dfly_list_req_process`) and `list_op.cpp` (`list_handle_store_op`, `list_handle_delete_op`,
`list_find_key_prefix`, `do_list_io`). Not modelled: the listing reads, the judy variant and the
log output. A key has at most 1023 bytes, so that its positions fit the `int16_t` cells.
-/

namespace DssSdk.Listing

/-- A `std::string` of the listing. -/
abbrev Bytes := List UInt8

/-- The byte of `key_default_delimlist`. -/
def delim : UInt8 := 47

/-- The initial value of `NKV_ROOT_PREFIX`, the text `root/`. -/
def rootPrefixInit : Bytes := [114, 111, 111, 116, 47]

/-- The fields of `g_list_conf` that the updates read, and `dss_kv_mode` of the subsystem. A list
instance indexes its zones in a vector of 256 cells. -/
structure Conf where
  zonePerPool : ℕ
  nrCores : ℕ
  prefixHead : Bytes
  kvMode : Bool
  zonePerPool_pos : 0 < zonePerPool
  zonePerPool_le : zonePerPool ≤ 256
  nrCores_pos : 0 < nrCores

/-- A `char` of the key as it enters 32-bit arithmetic: it is signed. -/
def signedChar (b : UInt8) : UInt32 :=
  if b < 128 then b.toUInt32 else b.toUInt32 + 0xFFFFFF00

def hashSdbm (data : Bytes) : UInt32 :=
  data.foldl (fun hash b => signedChar b + (hash <<< 6) + (hash <<< 16) - hash) 0

/-- The zone of a prefix. -/
def zoneOf (conf : Conf) (p : Bytes) : ℕ := (hashSdbm p).toNat % conf.zonePerPool

/-- The instance that serves a zone (`list_module_store_inst_context`). -/
def instOf (conf : Conf) (zone : ℕ) : ℕ := zone % conf.nrCores

/-- `listing_keys` of one zone. -/
abbrev ZoneMap := Bytes → Option (Finset Bytes)

/-- The maps of all zones, and the global `NKV_ROOT_PREFIX`. -/
@[ext] structure ListContext where
  zones : ℕ → ZoneMap
  rootPrefix : Bytes

/-- No zone holds a prefix. -/
def ListContext.init : ListContext := ⟨fun _ _ => none, rootPrefixInit⟩

inductive Op
  | store
  | delete
deriving DecidableEq, Repr

/-- The return codes of an update. -/
inductive Rc
  | passThrough
  | storeContinue
  | storeDone
  | delContinue
  | delDone
deriving DecidableEq, Repr

def Rc.isDone : Rc → Bool
  | storeDone | delDone => true
  | _ => false

/-! ### The handlers of a zone -/

def listHandleStoreOp (zone : ZoneMap) (p entry : Bytes) : ZoneMap × Rc :=
  (if entry = [] then zone else PrefixTree.put zone p entry,
    if (zone p).isSome then .storeDone else .storeContinue)

def listHandleDeleteOp (zone : ZoneMap) (p entry : Bytes) : ZoneMap × Rc :=
  match zone p with
  | none => (zone, .delContinue)
  | some s =>
    if s.erase entry = ∅ then (Function.update zone p none, .delContinue)
    else (Function.update zone p (some (s.erase entry)), .delDone)

/-- The handler the operation code selects. -/
def ioHandler : Op → ZoneMap → Bytes → Bytes → ZoneMap × Rc
  | .store => listHandleStoreOp
  | .delete => listHandleDeleteOp

/-! ### The pairs of a key -/

/-- The positions after each delimiter: where the loop of `parse_delimiter_entries_pos` restarts
its search. -/
def delimiterEnds : ℕ → Bytes → List ℕ
  | _, [] => []
  | cur, b :: rest =>
    if b = delim then (cur + 1) :: delimiterEnds (cur + 1) rest else delimiterEnds (cur + 1) rest

/-- The start positions of the entries of a key. -/
def positions (key : Bytes) : List ℕ := 0 :: delimiterEnds 0 key

/-- The prefixes of the pairs, and the value `NKV_ROOT_PREFIX` is left with. A key with a
delimiter moves the global into its first prefix; a key without copies it, and must not be
empty. -/
def parseDelimiterEntriesPos (root key : Bytes) : Option (List Bytes × Bytes) :=
  match delimiterEnds 0 key with
  | [] => if key = [] then none else some ([root], root)
  | ends => some (root :: ends.map (key.take ·), [])

/-- `dfly_list_info_t`: the zone and the position of every pair, with `-1` in the zone of a pair
that has been handled, and `-1` in both cells behind the last pair. -/
structure ListInfo where
  peTotalCnt : ℕ
  peCntTbd : ℕ
  zone : ℕ → ℤ
  pos : ℕ → ℤ

/-- The list data of a new request. -/
def ListInfo.new (conf : Conf) (prefixes : List Bytes) (key : Bytes) : ListInfo where
  peTotalCnt := prefixes.length
  peCntTbd := prefixes.length
  zone i := (prefixes[i]?).elim (-1) fun p => (zoneOf conf p : ℤ)
  pos i := ((positions key)[i]?).elim (-1) fun pos => (pos : ℤ)

/-- The number of pairs up to the last one that has not been handled. -/
def lastPending (zone : ℕ → ℤ) : ℕ → ℕ
  | 0 => 0
  | i + 1 => if zone i < 0 then lastPending zone i else i + 1

/-- The prefix of pair `i`. -/
def ListInfo.prefixAt (d : ListInfo) (root key : Bytes) (i : ℕ) : Bytes :=
  if d.pos i = 0 then root else key.take (d.pos i).toNat

/-- The entry of pair `i`: up to the next position, or to the end of the key. -/
def ListInfo.entryAt (d : ListInfo) (key : Bytes) (i : ℕ) : Bytes :=
  let next := if d.pos (i + 1) < 0 ∨ (key.length : ℤ) < d.pos (i + 1) then (key.length : ℤ)
    else d.pos (i + 1)
  (key.drop (d.pos i).toNat).take (next - d.pos i).toNat

/-- The deepest pair that is left, if its zone belongs to the instance: its index and the list
data with the pair marked. -/
def listFindKeyPrefix (conf : Conf) (inst : ℕ) (d : ListInfo) : Option (ℕ × ListInfo) :=
  if d.peCntTbd = 0 then none
  else
    match lastPending d.zone d.peTotalCnt with
    | 0 => none
    | i + 1 =>
      if instOf conf (d.zone i).toNat = inst then
        some (i, { d with zone := Function.update d.zone i (-1), peCntTbd := d.peCntTbd - 1 })
      else none

/-! ### A pass of one instance -/

/-- What a pass leaves: the listing, the list data, the last return code and the indices of the
pairs it handled. -/
structure Pass where
  listing : ListContext
  data : ListInfo
  rc : Rc
  handled : List ℕ

/-- The handler of the pair `i`, in its zone. -/
def handlePair (op : Op) (key : Bytes) (L : ListContext) (d : ListInfo) (i : ℕ) : ListContext × Rc :=
  let zone := (d.zone i).toNat
  let res := ioHandler op (L.zones zone) (d.prefixAt L.rootPrefix key i) (d.entryAt key i)
  ({ L with zones := Function.update L.zones zone res.1 }, res.2)

/-- The loop of `do_list_io`; the fuel bounds the pairs left. -/
def doListIo (conf : Conf) (inst : ℕ) (op : Op) (key : Bytes) : ℕ → ListContext → ListInfo → Rc → Pass
  | 0, L, d, rc => ⟨L, d, rc, []⟩
  | fuel + 1, L, d, rc =>
    match listFindKeyPrefix conf inst d with
    | none => ⟨L, d, rc, []⟩
    | some (i, d') =>
      let res := handlePair op key L d i
      if res.2.isDone then ⟨res.1, d', res.2, [i]⟩
      else
        let pass := doListIo conf inst op key fuel res.1 d' res.2
        { pass with handled := i :: pass.handled }

/-! ### Forwarding -/

/-- The zone `list_get_module_ctx_on_change` finds for a request under way: the last cell that is
positive as an unsigned byte. -/
def forwardZone (zone : ℕ → ℤ) : ℕ → Option ℕ
  | 0 => none
  | i + 1 => if 0 < zone i % 256 then some (zone i % 256).toNat else forwardZone zone i

/-- Where a request goes after a pass. -/
inductive Next
  | done
  | forward (inst : ℕ)
  | outOfBounds
deriving DecidableEq, Repr

/-- `dfly_list_req_process` and, for a request that is not done, the lookup of the next instance. In
KV mode the request goes back to the network module, whatever it has left. -/
def nextOf (conf : Conf) (pass : Pass) : Next :=
  if conf.kvMode = true then .done
  else if pass.data.peCntTbd = 0 ∨ pass.rc.isDone then .done
  else
    match forwardZone pass.data.zone pass.data.peTotalCnt with
    | none => .done
    | some zone => if zone < conf.zonePerPool then .forward (instOf conf zone) else .outOfBounds

/-- The pass of an instance over a request. -/
def listIo (conf : Conf) (inst : ℕ) (op : Op) (key : Bytes) (L : ListContext) (d : ListInfo) : Pass :=
  doListIo conf inst op key d.peCntTbd L d .passThrough

/-- The list data of a request and its first instance, after `list_get_module_ctx_on_change`. -/
structure Arrival where
  data : ListInfo
  inst : ℕ
  rootPrefix : Bytes

/-- The arrival of a request, unless an assertion fails: `prefix_key_info` has room for fewer than
512 pairs. -/
def arrive (conf : Conf) (root key : Bytes) : Option Arrival :=
  match parseDelimiterEntriesPos root key with
  | none => none
  | some (prefixes, root') =>
    if prefixes.length < 512 then
      let d := ListInfo.new conf prefixes key
      some ⟨d, instOf conf (d.zone (prefixes.length - 1)).toNat, root'⟩
    else none

/-- The passes over a request until it is done. A pass that handles no pair is repeated without
end, so that the number of pairs bounds the passes. -/
def serve (conf : Conf) (op : Op) (key : Bytes) : ℕ → ListContext → ListInfo → ℕ → Option ListContext
  | 0, _, _, _ => none
  | fuel + 1, L, d, inst =>
    let pass := listIo conf inst op key L d
    match nextOf conf pass with
    | .done => some pass.listing
    | .forward inst' => serve conf op key fuel pass.listing pass.data inst'
    | .outOfBounds => none

/-- A request that is handled completely. -/
def listUpdate (conf : Conf) (L : ListContext) (op : Op) (key : Bytes) : Option ListContext :=
  match arrive conf L.rootPrefix key with
  | none => none
  | some a => serve conf op key a.data.peTotalCnt { L with rootPrefix := a.rootPrefix } a.data a.inst

end DssSdk.Listing
