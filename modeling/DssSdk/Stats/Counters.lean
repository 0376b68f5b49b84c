import DssSdk.Lib.IntFields

/-!
# The counters of the statistics library

`kv_stats_lib.c` keeps counters for every core that asks for them: on a host in four segments, on a
target in one. A segment holds its counters in chunks, one for each device or container, or a single
one.

* `CounterEntry`, `cntTable`: the tables that describe the counters;
* `HostStats`, `TargetStats`: the counters of a core; a count of chunks in a list is that of the list;
* `Cores`, `Registry`: the cores, with their number;
* `kvStatsInit`, `HostStats.call`, `TargetStats.call`: what the users of the library do;
* `getNrChunks`, `dumpCounters`: what a sample takes of a segment;
* `segChunks`, `SingleChunk`, `dumpCounters_eq`: the chunks of a segment, and when a dump has all of
  them.

Memory is always there. `strlen` of a device name and its first characters are those of the list of
its characters.
-/

namespace DssSdk.Stats

open ByteMemory

/-! ### Numbers and strings -/

/-- The bytes of an `int`. -/
def intBytes (x : ℤ) : List UInt8 := leBytes 4 (x % 256 ^ 4).toNat

/-- The bytes of a `long long`. -/
def int64Bytes (x : ℤ) : List UInt8 := leBytes 8 (x % 256 ^ 8).toNat

@[simp] theorem length_intBytes (x : ℤ) : (intBytes x).length = 4 := length_leBytes _ _

@[simp] theorem length_int64Bytes (x : ℤ) : (int64Bytes x).length = 8 := length_leBytes _ _

/-- A string in an array of `n` characters. -/
structure CString (n : ℕ) where
  chars : List UInt8
  fits : chars.length < n

namespace CString

variable {n : ℕ}

/-- The array, with zeros behind the string. -/
def bytes (s : CString n) : List UInt8 := s.chars ++ List.replicate (n - s.chars.length) 0

@[simp] theorem length_bytes (s : CString n) : s.bytes.length = n := by
  have hfits := s.fits
  simp only [bytes, List.length_append, List.length_replicate]
  omega

/-- A string constant. -/
def ofString (s : String) (h : s.toList.length < n) : CString n :=
  ⟨s.toList.map fun c => UInt8.ofNat c.toNat, by simpa using h⟩

end CString

/-! ### The tables -/

/-- `counter_type`. -/
inductive CounterType
  | int64
  | int32
  | string
deriving DecidableEq

/-- The number of a type. -/
def CounterType.code : CounterType → ℤ
  | int64 => 0
  | int32 => 1
  | string => 2

/-- `kv_stats_counters_table_t`. -/
structure CounterEntry where
  name : CString 32
  type : CounterType
  valueSize : ℕ

/-- The entry of a counter of 64 bits. -/
def int64Entry (s : String) (h : s.toList.length < 32) : CounterEntry := ⟨.ofString s h, .int64, 8⟩

/-- `kvb_cnt_table`. -/
def kvbCntTable : List CounterEntry :=
  [int64Entry "kvb__nr_key" (by decide), int64Entry "kvb__nr_get" (by decide),
    int64Entry "kvb__nr_put" (by decide), int64Entry "kvb__nr_del" (by decide),
    int64Entry "kvb__nr_fail" (by decide)]

/-- `kvv_cnt_table`. -/
def kvvCntTable : List CounterEntry :=
  [int64Entry "kvv__dev_id" (by decide), int64Entry "kvv__container_id" (by decide),
    int64Entry "kvv__nr_sync_get" (by decide), int64Entry "kvv__nr_async_get" (by decide),
    int64Entry "kvv__nr_sync_put" (by decide), int64Entry "kvv__nr_async_put" (by decide),
    int64Entry "kvv__nr_del" (by decide), int64Entry "kvv__nr_fail" (by decide)]

/-- `kvs_cnt_table`. -/
def kvsCntTable : List CounterEntry :=
  [int64Entry "kvs__nr_key" (by decide), int64Entry "kvs__nr_get" (by decide),
    int64Entry "kvs__nr_put" (by decide), int64Entry "kvs__nr_del" (by decide),
    int64Entry "kvs__nr_fail" (by decide)]

/-- `kv_nvme_cnt_table`. -/
def kvNvmeCntTable : List CounterEntry :=
  [⟨.ofString "kv_nvme__device_name" (by decide), .string, 256⟩,
    int64Entry "kv_nvme__max_qd" (by decide), int64Entry "kv_nvme__current_qd" (by decide),
    int64Entry "kv_nvme__nr_get" (by decide), int64Entry "kv_nvme__nr_put" (by decide),
    int64Entry "kv_nvme__nr_16b_less" (by decide), int64Entry "kv_nvme__nr_16k_1k" (by decide),
    int64Entry "kv_nvme__nr_1k_4k" (by decide), int64Entry "kv_nvme__nr_4k_32k" (by decide),
    int64Entry "kv_nvme__nr_32k_1m" (by decide), int64Entry "kv_nvme__other_size" (by decide),
    int64Entry "kv_nvme__nr_failure" (by decide)]

/-- `kv_seg_t`. -/
inductive KvSeg
  | kvb
  | kvv
  | kvs
  | kvNvmef
  | kvNvme
deriving DecidableEq

/-- The counters of a segment. -/
def cntTable : KvSeg → List CounterEntry
  | .kvb => kvbCntTable
  | .kvv => kvvCntTable
  | .kvs => kvsCntTable
  | .kvNvmef => kvNvmeCntTable
  | .kvNvme => kvNvmeCntTable

/-- The bytes of a chunk, as the table says. -/
def KvSeg.width (seg : KvSeg) : ℕ := ((cntTable seg).map (·.valueSize)).sum

/-! ### The counters of a core -/

/-- `kvb_counters`: `nr_keys`, `nr_get`, `nr_put`, `nr_del`, `nr_fail`. -/
abbrev KvbCounters := Vector ℤ 5

/-- `kvv_counters`: `nr_sync_get`, `nr_async_get`, `nr_sync_put`, `nr_async_put`, `nr_del`,
`nr_fail`. -/
abbrev KvvCounters := Vector ℤ 6

/-- `kvs_counters`: `nr_keys`, `nr_get`, `nr_put`, `nr_del`, `nr_fail`. -/
abbrev KvsCounters := Vector ℤ 5

/-- `kv_nvme_counters`: `max_qd`, `current_qd`, `nr_get`, `nr_put`, `nr_16b_less`, `nr_16k_1k`,
`nr_1k_4k`, `nr_4k_32k`, `nr_32k_1m`, `other_size`, `nr_failure`. -/
abbrev KvNvmeCounters := Vector ℤ 11

/-- The bytes of some counters. -/
def countersBytes {n : ℕ} (v : Vector ℤ n) : List UInt8 := v.toList.flatMap int64Bytes

@[simp] theorem length_countersBytes {n : ℕ} (v : Vector ℤ n) : (countersBytes v).length = n * 8 := by
  simp [countersBytes, List.length_flatMap]

/-- `kvb_stats` and `kvs_stats`: `kv_stats_get_kvb_counters` counts its calls as chunks. -/
structure SingleStats where
  counters : Vector ℤ 5
  chunkCnt : ℕ

/-- `kvv_container_stats`. -/
structure KvvContainerStats where
  containerId : ℤ
  counters : KvvCounters

/-- `kvv_stats` as an entry of the list of devices. -/
structure KvvDeviceStats where
  deviceId : ℤ
  containerList : List KvvContainerStats

/-- The containers of some devices. -/
def containers (ds : List KvvDeviceStats) : ℕ := (ds.map (·.containerList.length)).sum

/-- `kvv_stats` as the head of the list of devices. -/
structure KvvStats where
  deviceList : List KvvDeviceStats
  chunkCnt : ℕ
  chunkCnt_eq : chunkCnt = containers deviceList

/-- `kv_nvme_stats` and `kv_nvmef_stats` as entries of the list of devices. -/
structure NvmeDeviceStats where
  deviceName : CString 256
  nvmeCounters : KvNvmeCounters

/-- `kv_nvme_stats` and `kv_nvmef_stats` as heads of the list of devices. -/
structure NvmeStats where
  deviceList : List NvmeDeviceStats
  chunkCnt : ℕ
  chunkCnt_eq : chunkCnt = deviceList.length

/-- `host_stats`. -/
structure HostStats where
  kvbCnt : SingleStats
  kvvCnt : KvvStats
  kvsCnt : SingleStats
  kvNvmefCnt : NvmeStats

/-- `target_stats`. -/
structure TargetStats where
  kvNvmeCnt : NvmeStats

/-- New counters of a host. -/
def HostStats.init : HostStats :=
  ⟨⟨.replicate 5 0, 0⟩, ⟨[], 0, rfl⟩, ⟨.replicate 5 0, 0⟩, ⟨[], 0, rfl⟩⟩

/-- New counters of a target. -/
def TargetStats.init : TargetStats := ⟨⟨[], 0, rfl⟩⟩

/-! ### The users of the counters -/

/-- `kv_stats_get_kvb_counters` and `kv_stats_get_kvs_counters`. -/
def SingleStats.get (s : SingleStats) : SingleStats := { s with chunkCnt := s.chunkCnt + 1 }

/-- The list of devices with a new container; `none` if the container is there. -/
def addContainer (devId containerId : ℤ) : List KvvDeviceStats → Option (List KvvDeviceStats)
  | [] => some [⟨devId, [⟨containerId, .replicate 6 0⟩]⟩]
  | d :: ds =>
      if d.deviceId = devId then
        if containerId ∈ d.containerList.map (·.containerId) then none
        else some ({ d with containerList := d.containerList ++ [⟨containerId, .replicate 6 0⟩] } :: ds)
      else (addContainer devId containerId ds).map (d :: ·)

theorem containers_addContainer {devId containerId : ℤ} {ds ds' : List KvvDeviceStats}
    (h : addContainer devId containerId ds = some ds') : containers ds' = containers ds + 1 := by
  induction ds generalizing ds' with
  | nil =>
    cases h
    rfl
  | cons d ds ih =>
    unfold addContainer at h
    split_ifs at h
    · cases h
      simp only [containers, List.map_cons, List.sum_cons, List.length_append, List.length_singleton]
      omega
    · obtain ⟨ds₁, h₁, rfl⟩ := Option.map_eq_some_iff.1 h
      have hsum := ih h₁
      simp only [containers, List.map_cons, List.sum_cons] at hsum ⊢
      omega

/-- `kv_stats_get_kvv_counters`. -/
def KvvStats.get (devId containerId : ℤ) (s : KvvStats) : KvvStats :=
  match h : addContainer devId containerId s.deviceList with
  | none => s
  | some ds => ⟨ds, s.chunkCnt + 1, by rw [containers_addContainer h, s.chunkCnt_eq]⟩

/-- New values for the counters of a container. -/
def KvvStats.update (devId containerId : ℤ) (f : KvvCounters → KvvCounters) (s : KvvStats) :
    KvvStats where
  deviceList := s.deviceList.map fun d => { d with
    containerList := d.containerList.map fun c =>
      if d.deviceId = devId ∧ c.containerId = containerId then { c with counters := f c.counters }
      else c }
  chunkCnt := s.chunkCnt
  chunkCnt_eq := by
    rw [s.chunkCnt_eq]
    simp [containers, Function.comp_def]

/-- `kv_stats_get_nvme_counters`: a device of the name, of `len` characters, or a new one. -/
def NvmeStats.get (deviceName : List UInt8) (len : ℕ) (s : NvmeStats) : NvmeStats :=
  if h : len < 256 then
    if s.deviceList.any fun d => d.deviceName.chars.length = len && d.deviceName.chars = deviceName.take len
    then s
    else
      ⟨s.deviceList ++ [⟨⟨deviceName.take len, (List.length_take_le _ _).trans_lt h⟩, .replicate 11 0⟩],
        s.chunkCnt + 1, by rw [s.chunkCnt_eq, List.length_append]; rfl⟩
  else s

/-- New values for the counters of a device. -/
def NvmeStats.update (deviceName : List UInt8) (f : KvNvmeCounters → KvNvmeCounters) (s : NvmeStats) :
    NvmeStats where
  deviceList := s.deviceList.map fun d =>
    if d.deviceName.chars = deviceName then { d with nvmeCounters := f d.nvmeCounters } else d
  chunkCnt := s.chunkCnt
  chunkCnt_eq := by rw [s.chunkCnt_eq, List.length_map]

/-- A call of a host, or a write of its counters. -/
inductive HostCall
  | getKvb
  | getKvv (devId containerId : ℤ)
  | getKvs
  | getNvmef (deviceName : List UInt8) (len : ℕ)
  | countKvb (f : KvbCounters → KvbCounters)
  | countKvv (devId containerId : ℤ) (f : KvvCounters → KvvCounters)
  | countKvs (f : KvsCounters → KvsCounters)
  | countNvmef (deviceName : List UInt8) (f : KvNvmeCounters → KvNvmeCounters)

def HostStats.call (s : HostStats) : HostCall → HostStats
  | .getKvb => { s with kvbCnt := s.kvbCnt.get }
  | .getKvv devId containerId => { s with kvvCnt := s.kvvCnt.get devId containerId }
  | .getKvs => { s with kvsCnt := s.kvsCnt.get }
  | .getNvmef deviceName len => { s with kvNvmefCnt := s.kvNvmefCnt.get deviceName len }
  | .countKvb f => { s with kvbCnt := { s.kvbCnt with counters := f s.kvbCnt.counters } }
  | .countKvv devId containerId f => { s with kvvCnt := s.kvvCnt.update devId containerId f }
  | .countKvs f => { s with kvsCnt := { s.kvsCnt with counters := f s.kvsCnt.counters } }
  | .countNvmef deviceName f => { s with kvNvmefCnt := s.kvNvmefCnt.update deviceName f }

/-- A call of a target, or a write of its counters. -/
inductive TargetCall
  | getNvme (deviceName : List UInt8) (len : ℕ)
  | countNvme (deviceName : List UInt8) (f : KvNvmeCounters → KvNvmeCounters)

def TargetStats.call (s : TargetStats) : TargetCall → TargetStats
  | .getNvme deviceName len => ⟨s.kvNvmeCnt.get deviceName len⟩
  | .countNvme deviceName f => ⟨s.kvNvmeCnt.update deviceName f⟩

/-! ### The cores -/

/-- `MAX_CPU`. -/
def maxCpu : ℕ := 256

/-- `__host_stats` with `host_nr_cpu`, or `__target_stats` with `target_nr_cpu`. -/
structure Cores (α : Type) where
  stats : List (Option α)
  nrCpu : ℕ
  length_eq : stats.length = maxCpu
  nrCpu_eq : nrCpu = stats.countP Option.isSome

namespace Cores

variable {α : Type}

def empty : Cores α :=
  ⟨.replicate maxCpu none, 0, List.length_replicate, by simp [List.countP_replicate]⟩

/-- Counters for a core that has none. -/
def add (c : Cores α) (cpuId : ℕ) (a : α) : Cores α :=
  match h : c.stats[cpuId]? with
  | some none =>
      ⟨c.stats.set cpuId (some a), c.nrCpu + 1, by rw [List.length_set, c.length_eq], by
        obtain ⟨hlt, hget⟩ := List.getElem?_eq_some_iff.1 h
        rw [List.countP_set hlt, hget, c.nrCpu_eq]
        rfl⟩
  | _ => c

theorem countP_modify (f : α → α) (l : List (Option α)) (i : ℕ) :
    (l.modify i (Option.map f)).countP Option.isSome = l.countP Option.isSome := by
  induction l generalizing i with
  | nil => rw [List.modify_nil]
  | cons o l ih =>
    cases i with
    | zero => simp [List.countP_cons]
    | succ i => rw [List.modify_succ_cons, List.countP_cons, List.countP_cons, ih]

/-- A call for the counters of a core. -/
def modify (c : Cores α) (cpuId : ℕ) (f : α → α) : Cores α :=
  ⟨c.stats.modify cpuId (Option.map f), c.nrCpu, by rw [List.length_modify, c.length_eq],
    by rw [c.nrCpu_eq, countP_modify]⟩

end Cores

/-- The role and the counters of all cores. The role is `-1` as long as it is open. -/
structure Registry where
  isHost : ℤ
  hostStats : Cores HostStats
  targetStats : Cores TargetStats

namespace Registry

/-- `kv_stats_init`. -/
def kvStatsInit (r : Registry) (cpuId : ℤ) (isHost : Bool) : Registry :=
  if isHost = true ∧ r.isHost = 0 then r
  else if isHost = false ∧ r.isHost = 1 then r
  else if cpuId < 0 ∨ maxCpu ≤ cpuId then r
  else if isHost = true then
    if r.hostStats.stats[cpuId.toNat]?.join.isSome = true then r
    else { r with isHost := 1, hostStats := r.hostStats.add cpuId.toNat .init }
  else
    if r.targetStats.stats[cpuId.toNat]?.join.isSome = true then r
    else { r with isHost := 0, targetStats := r.targetStats.add cpuId.toNat .init }

def hostCall (r : Registry) (cpuId : ℕ) (c : HostCall) : Registry :=
  { r with hostStats := r.hostStats.modify cpuId (·.call c) }

def targetCall (r : Registry) (cpuId : ℕ) (c : TargetCall) : Registry :=
  { r with targetStats := r.targetStats.modify cpuId (·.call c) }

end Registry

/-! ### The segments of a core -/

/-- The counters of a core, to which the source has a pointer of type `void *`. -/
inductive CoreStats
  | host (s : HostStats)
  | target (s : TargetStats)

/-- `get_nr_chunks`. A host has the first four segments, a target the last one. -/
def getNrChunks : CoreStats → KvSeg → ℕ
  | .host s, .kvb => s.kvbCnt.chunkCnt
  | .host s, .kvv => s.kvvCnt.chunkCnt
  | .host s, .kvs => s.kvsCnt.chunkCnt
  | .host s, .kvNvmef => s.kvNvmefCnt.chunkCnt
  | .target s, .kvNvme => s.kvNvmeCnt.chunkCnt
  | _, _ => 0

/-- The common part of the functions that dump a segment: nothing if it has no chunks, or if there
is less than the wanted room, which is not a failure. -/
def dumpChunks (chunkCnt need : ℕ) (data : List UInt8) (size : ℤ) : List UInt8 :=
  if chunkCnt = 0 then [] else if size < need then [] else data

/-- `dump_kvb_counters`. -/
def dumpKvbCounters (s : SingleStats) : ℤ → List UInt8 :=
  dumpChunks s.chunkCnt 40 (countersBytes s.counters)

/-- The chunks that `dump_kvv_counters` goes through. -/
def kvvChunks (s : KvvStats) : List (List UInt8) :=
  s.deviceList.flatMap fun d => d.containerList.map fun c =>
    int64Bytes d.deviceId ++ int64Bytes c.containerId ++ countersBytes c.counters

/-- `dump_kvv_counters`. -/
def dumpKvvCounters (s : KvvStats) : ℤ → List UInt8 :=
  dumpChunks s.chunkCnt (s.chunkCnt * (48 + 16)) (kvvChunks s).flatten

/-- `dump_kvs_counters`. -/
def dumpKvsCounters (s : SingleStats) : ℤ → List UInt8 :=
  dumpChunks s.chunkCnt 40 (countersBytes s.counters)

/-- The chunks that `dump_nvmef_counters` and `dump_nvme_counters` go through. -/
def nvmeChunks (s : NvmeStats) : List (List UInt8) :=
  s.deviceList.map fun d => d.deviceName.bytes ++ countersBytes d.nvmeCounters

/-- `dump_nvmef_counters`. -/
def dumpNvmefCounters (s : NvmeStats) : ℤ → List UInt8 :=
  dumpChunks s.chunkCnt ((88 + 256) * s.chunkCnt) (nvmeChunks s).flatten

/-- `dump_nvme_counters`. -/
def dumpNvmeCounters (s : NvmeStats) : ℤ → List UInt8 :=
  dumpChunks s.chunkCnt ((88 + 256) * s.chunkCnt) (nvmeChunks s).flatten

/-- `dump_counters`: the bytes that are written. -/
def dumpCounters : CoreStats → KvSeg → ℤ → List UInt8
  | .host s, .kvb => dumpKvbCounters s.kvbCnt
  | .host s, .kvv => dumpKvvCounters s.kvvCnt
  | .host s, .kvs => dumpKvsCounters s.kvsCnt
  | .host s, .kvNvmef => dumpNvmefCounters s.kvNvmefCnt
  | .target s, .kvNvme => dumpNvmeCounters s.kvNvmeCnt
  | _, _ => fun _ => []

/-- The chunks of a segment. -/
def segChunks : CoreStats → KvSeg → List (List UInt8)
  | .host s, .kvb => if s.kvbCnt.chunkCnt = 0 then [] else [countersBytes s.kvbCnt.counters]
  | .host s, .kvv => kvvChunks s.kvvCnt
  | .host s, .kvs => if s.kvsCnt.chunkCnt = 0 then [] else [countersBytes s.kvsCnt.counters]
  | .host s, .kvNvmef => nvmeChunks s.kvNvmefCnt
  | .target s, .kvNvme => nvmeChunks s.kvNvmeCnt
  | _, _ => []

/-- The counters of the benchmark and of the store have been asked for at most once. -/
def SingleChunk : CoreStats → Prop
  | .host s => s.kvbCnt.chunkCnt ≤ 1 ∧ s.kvsCnt.chunkCnt ≤ 1
  | .target _ => True

instance : DecidablePred SingleChunk
  | .host s => inferInstanceAs (Decidable (s.kvbCnt.chunkCnt ≤ 1 ∧ s.kvsCnt.chunkCnt ≤ 1))
  | .target _ => isTrue trivial

theorem length_kvvChunks (s : KvvStats) : (kvvChunks s).length = s.chunkCnt := by
  rw [s.chunkCnt_eq]
  simp [kvvChunks, containers, List.length_flatMap]

theorem length_nvmeChunks (s : NvmeStats) : (nvmeChunks s).length = s.chunkCnt := by
  rw [nvmeChunks, List.length_map, s.chunkCnt_eq]

variable {s : CoreStats} {seg : KvSeg}

theorem length_of_mem_nvmeChunks {t : NvmeStats} {c : List UInt8} (h : c ∈ nvmeChunks t) :
    c.length = 344 := by
  obtain ⟨d, -, rfl⟩ := List.mem_map.1 h
  simp

theorem length_of_mem_segChunks {c : List UInt8} (h : c ∈ segChunks s seg) :
    c.length = seg.width := by
  have hsingle : ∀ t : SingleStats,
      c ∈ (if t.chunkCnt = 0 then [] else [countersBytes t.counters]) → c.length = 40 := by
    intro t ht
    split_ifs at ht
    · exact absurd ht List.not_mem_nil
    · rw [List.mem_singleton.1 ht, length_countersBytes]
  cases s with
  | host t =>
    cases seg with
    | kvb => exact hsingle t.kvbCnt h
    | kvv =>
      obtain ⟨d, -, hd⟩ := List.mem_flatMap.1 h
      obtain ⟨e, -, rfl⟩ := List.mem_map.1 hd
      simp only [List.length_append, length_int64Bytes, length_countersBytes]
      rfl
    | kvs => exact hsingle t.kvsCnt h
    | kvNvmef => exact length_of_mem_nvmeChunks h
    | kvNvme => exact absurd h List.not_mem_nil
  | target t =>
    cases seg with
    | kvNvme => exact length_of_mem_nvmeChunks h
    | _ => exact absurd h List.not_mem_nil

theorem length_segChunks (h : SingleChunk s) : (segChunks s seg).length = getNrChunks s seg := by
  have hsingle : ∀ t : SingleStats, t.chunkCnt ≤ 1 →
      (if t.chunkCnt = 0 then [] else [countersBytes t.counters]).length = t.chunkCnt := by
    intro t ht
    split_ifs with hzero
    · exact hzero.symm
    · rw [List.length_singleton]
      omega
  cases s with
  | host t =>
    cases seg with
    | kvb => exact hsingle t.kvbCnt h.1
    | kvv => exact length_kvvChunks t.kvvCnt
    | kvs => exact hsingle t.kvsCnt h.2
    | kvNvmef => exact length_nvmeChunks t.kvNvmefCnt
    | kvNvme => rfl
  | target t =>
    cases seg with
    | kvNvme => exact length_nvmeChunks t.kvNvmeCnt
    | _ => rfl

theorem dumpChunks_eq {chunkCnt need : ℕ} {data : List UInt8} {size : ℤ}
    (hnil : chunkCnt = 0 → data = []) (hsize : (need : ℤ) ≤ size) :
    dumpChunks chunkCnt need data size = data := by
  unfold dumpChunks
  split_ifs with hzero hlt
  · exact (hnil hzero).symm
  · omega
  · rfl

/-- A dump with room for all chunks has all of them. -/
theorem dumpCounters_eq {size : ℤ} (h : SingleChunk s)
    (hsize : ((getNrChunks s seg * seg.width : ℕ) : ℤ) ≤ size) :
    dumpCounters s seg size = (segChunks s seg).flatten := by
  have hsingle : ∀ t : SingleStats, t.chunkCnt ≤ 1 → ((t.chunkCnt * 40 : ℕ) : ℤ) ≤ size →
      dumpChunks t.chunkCnt 40 (countersBytes t.counters) size =
        (if t.chunkCnt = 0 then [] else [countersBytes t.counters]).flatten := by
    intro t ht hroom
    unfold dumpChunks
    split_ifs with hzero hlt
    · rfl
    · omega
    · rw [List.flatten_singleton]
  have hnvme : ∀ t : NvmeStats, ((t.chunkCnt * 344 : ℕ) : ℤ) ≤ size →
      dumpChunks t.chunkCnt ((88 + 256) * t.chunkCnt) (nvmeChunks t).flatten size =
        (nvmeChunks t).flatten := by
    intro t hroom
    refine dumpChunks_eq (fun hzero => ?_) (by omega)
    rw [← length_nvmeChunks, List.length_eq_zero_iff] at hzero
    rw [hzero, List.flatten_nil]
  cases s with
  | host t =>
    cases seg with
    | kvb => exact hsingle t.kvbCnt h.1 hsize
    | kvv =>
      refine dumpChunks_eq (fun hzero => ?_) hsize
      rw [← length_kvvChunks, List.length_eq_zero_iff] at hzero
      rw [hzero, List.flatten_nil]
    | kvs => exact hsingle t.kvsCnt h.2 hsize
    | kvNvmef => exact hnvme t.kvNvmefCnt hsize
    | kvNvme => rfl
  | target t =>
    cases seg with
    | kvNvme => exact hnvme t.kvNvmeCnt hsize
    | _ => rfl

end DssSdk.Stats
