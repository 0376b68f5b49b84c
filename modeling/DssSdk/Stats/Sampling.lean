import DssSdk.Lib.Run
import DssSdk.Stats.Counters

/-!
# The samples of the statistics library

`one_sampling` of `kv_stats_lib.c` runs on a timer. It writes a sample of all counters into one of two
buffers, in which the samples are kept as files with a header, and hands the buffer over to the
dumping thread when it is used up.

* `FileHeader`, `dumpFileHeader`: the header of a file, with the counters of each segment;
* `State`, `State.put`, `Cursor`: the service, its writes, and the pointer that a dump advances;
* `dumpSampleMeta`, `dumpSampleData`, `exchangeBuffer`, `completeSample`, `oneSampling`: the source;
* `Action`, `step`: the users of the counters, the timer and the end of the service;
* `SampleData`, `IsFile`, `WellFormed`: what a sample and a file are, and what the buffers should hold;
* `Kept`: the calls that do it.

The buffers are two memories. A finished file and every write are recorded. A call is one step: the
counters do not change during it, and whether the dumper is ready is given for each time it is asked.
`gettimeofday` does not fail. `log_buffer` and the threads that write files are left out.
-/

namespace DssSdk.Stats

open ByteMemory

/-! ### The header of a file -/

/-- `counter_info_t`. -/
structure CounterInfo where
  name : CString 32
  type : CounterType

/-- `file_header_t`. -/
structure FileHeader where
  version : ℤ
  nrSeg : ℕ
  reserved0 : ℤ
  reserved1 : ℤ
  segs : List (List CounterInfo)

/-- The tables that `kv_stats_table_init` sets up. -/
def segmentCntTable (isHost : ℤ) : List (List CounterEntry) :=
  if isHost ≠ 0 then [kvbCntTable, kvvCntTable, kvsCntTable, kvNvmeCntTable] else [kvNvmeCntTable]

/-- `prepare_sample_header`. -/
def prepareSampleHeader (tables : List (List CounterEntry)) : FileHeader :=
  ⟨1, tables.length, 0, 0, tables.map (·.map fun e => ⟨e.name, e.type⟩)⟩

/-- The inner loop of `dump_file_header`: what it writes, and the room that is left or the code of
an error. -/
def dumpCounterInfos : List CounterInfo → ℤ → List UInt8 × Except ℤ ℤ
  | [], size => ([], .ok size)
  | c :: cs, size =>
      if size < 32 then ([], .error (-2))
      else if size - 32 < 4 then (c.name.bytes, .error (-3))
      else
        let (bs, r) := dumpCounterInfos cs (size - 32 - 4)
        (c.name.bytes ++ intBytes c.type.code ++ bs, r)

/-- The outer loop of `dump_file_header`. It does not count the room for the numbers of counters. -/
def dumpSegmentInfos : List (List CounterInfo) → ℤ → List UInt8 × Except ℤ ℤ
  | [], size => ([], .ok size)
  | seg :: segs, size =>
      match dumpCounterInfos seg size with
      | (bs, .error rc) => (intBytes seg.length ++ bs, .error rc)
      | (bs, .ok size) =>
          let (bs', r) := dumpSegmentInfos segs size
          (intBytes seg.length ++ bs ++ bs', r)

/-- The part of the header that is copied as it is. -/
def FileHeader.head (h : FileHeader) : List UInt8 :=
  intBytes h.version ++ intBytes h.nrSeg ++ intBytes h.reserved0 ++ intBytes h.reserved1

/-- `dump_file_header`: what it writes, and what it returns. -/
def dumpFileHeader (h : FileHeader) (size : ℤ) : List UInt8 × ℤ :=
  if size < 16 then ([], -1)
  else
    match dumpSegmentInfos h.segs (size - 16) with
    | (bs, .error rc) => (h.head ++ bs, rc)
    | (bs, .ok _) => (h.head ++ bs, (h.head ++ bs).length)

/-! ### The service -/

/-- The configuration. The size of the buffers is given in megabytes, at least four of them, and is
an `int` in bytes. -/
structure Conf where
  bufferSize : ℕ
  dumpFileSize : ℤ
  maxSamplePerDump : ℤ
  four_le : 4 ≤ bufferSize
  lt_int : bufferSize < 2048

/-- `conf_buffer_size_unit / 2`. -/
def Conf.half (conf : Conf) : ℕ := conf.bufferSize * 1048576 / 2

/-- `PAGE_SIZE * 128`. -/
def minRoom : ℤ := 4096 * 128

/-- A pointer into one of the buffers `data_buffer`. -/
@[ext] structure Ptr where
  buf : Bool
  off : ℕ
deriving DecidableEq

def Ptr.add (p : Ptr) (n : ℕ) : Ptr := ⟨p.buf, p.off + n⟩

/-- A file in a buffer. -/
structure Region where
  start : Ptr
  size : ℤ
deriving DecidableEq

/-- A write, with the buffer that was sampled into at the time. -/
structure Write where
  dest : Ptr
  len : ℕ
  sampled : Bool
deriving DecidableEq

/-- `service_context_t` with the counters and `nr_sample`. `dumpingBuffer` says which of the buffers
the dumper has; `finished` are the files whose size has been set, without those in a buffer that is
sampled again, and `writes` are all writes. -/
structure State where
  conf : Conf
  registry : Registry
  dataBuffer : Bool → Memory
  samplingBuffer : Ptr
  dumpingBuffer : Bool
  samplingBufferSize : ℤ
  nrSegment : ℕ
  dumpFileSize : ℤ
  fileHdrSize : ℤ
  fileHdr : FileHeader
  fileHdrDumpPtr : Ptr
  nrSample : ℤ
  threadTerminate : Bool
  finished : List Region
  writes : List Write

namespace State

/-- A write. -/
def put (s : State) (p : Ptr) (bs : List UInt8) : State :=
  { s with
    dataBuffer := fun b => if b = p.buf then putBytes (s.dataBuffer b) p.off bs else s.dataBuffer b
    writes := ⟨p, bs.length, !s.dumpingBuffer⟩ :: s.writes }

/-- New values for `sampling_buffer` and `sampling_buffer_size`. -/
def moveTo (s : State) (p : Ptr) (size : ℤ) : State :=
  { s with samplingBuffer := p, samplingBufferSize := size }

/-- What `dump_file_header` returns for the header of the service. -/
def headerSize (s : State) : ℤ := (dumpFileHeader s.fileHdr s.samplingBufferSize).2

/-- `dump_file_header(&file_hdr, &sampling_buffer, &sampling_buffer_size)`. -/
def putHeader (s : State) : State :=
  let s' := s.put s.samplingBuffer (dumpFileHeader s.fileHdr s.samplingBufferSize).1
  if s.headerSize < 0 then s'
  else s'.moveTo (s.samplingBuffer.add s.headerSize.toNat) (s.samplingBufferSize - s.headerSize)

/-- `update_file_size_for_dump`. -/
def updateFileSizeForDump (s : State) : State :=
  { s.put (s.fileHdrDumpPtr.add 8) (intBytes s.dumpFileSize) with
    finished := ⟨s.fileHdrDumpPtr, s.dumpFileSize⟩ :: s.finished }

/-- The service in front of `kv_stats_table_init`, for the configuration and its role, with what
`malloc` has left in the buffers. -/
def start (conf : Conf) (isHost : ℤ) (mem : Bool → Memory) : State where
  conf := conf
  registry := ⟨isHost, .empty, .empty⟩
  dataBuffer := mem
  samplingBuffer := ⟨false, 0⟩
  dumpingBuffer := true
  samplingBufferSize := conf.half
  nrSegment := (segmentCntTable isHost).length
  dumpFileSize := 0
  fileHdrSize := 0
  fileHdr := prepareSampleHeader (segmentCntTable isHost)
  fileHdrDumpPtr := ⟨false, 0⟩
  nrSample := 0
  threadTerminate := false
  finished := []
  writes := []

/-- The end of `kv_stats_table_init`: the header of the first file. -/
def tableInit (s : State) : State :=
  { s.putHeader with
    dumpFileSize := s.headerSize
    fileHdrSize := s.headerSize
    fileHdr := { s.fileHdr with reserved0 := s.headerSize } }

/-- The service after `init_kv_stats_service`. -/
def init (conf : Conf) (isHost : ℤ) (mem : Bool → Memory) : State := (start conf isHost mem).tableInit

/-- The middle of `exchange_buffer`: the buffers change their roles. The files in the buffer that the
dumper gives back are dropped. -/
def swapBuffers (s : State) : State :=
  { s.moveTo ⟨s.dumpingBuffer, 0⟩ s.conf.half with
    dumpingBuffer := !s.dumpingBuffer
    fileHdrDumpPtr := ⟨s.dumpingBuffer, 0⟩
    dumpFileSize := s.fileHdrSize
    finished := s.finished.filter (·.start.buf ≠ s.dumpingBuffer) }

/-- `exchange_buffer`. -/
def exchangeBuffer (s : State) : State := s.updateFileSizeForDump.swapBuffers.putHeader

end State

/-! ### A sample -/

/-- A pointer that a dump advances, with the room behind it. -/
structure Cursor where
  state : State
  buffer : Ptr
  size : ℤ

def Cursor.put (c : Cursor) (bs : List UInt8) : Cursor :=
  ⟨c.state.put c.buffer bs, c.buffer.add bs.length, c.size - bs.length⟩

/-- `sample_meta_t`. -/
def sampleMeta (size : ℤ) (tv : ℤ × ℤ) (nrCpu : ℕ) : List UInt8 :=
  intBytes size ++ intBytes tv.1 ++ intBytes tv.2 ++ intBytes nrCpu

/-- `dump_sample_meta`; `none` if there is no room. -/
def dumpSampleMeta (nrCpu : ℕ) (tv : ℤ × ℤ) (s : State) : Option State :=
  if s.samplingBufferSize < 16 then none
  else
    some ((s.put s.samplingBuffer (sampleMeta 16 tv nrCpu)).moveTo (s.samplingBuffer.add 16)
      (s.samplingBufferSize - 16))

/-- `task_meta_t` as far as it is dumped. -/
def taskMeta (cpuId : ℕ) (chunksPerSegment : List ℕ) : List UInt8 :=
  intBytes cpuId ++ intBytes chunksPerSegment.length ++ chunksPerSegment.flatMap fun n => intBytes n

/-- One core in `dump_sample_data`. A segment without room is not a failure. -/
def dumpTask (segs : List KvSeg) (cpuId : ℕ) (core : CoreStats) (c : Cursor) : Except State Cursor :=
  if c.size < ((8 + 4 * segs.length : ℕ) : ℤ) then .error c.state
  else
    .ok (segs.foldl (fun c seg => c.put (dumpCounters core seg c.size))
      (c.put (taskMeta cpuId (segs.map (getNrChunks core)))))

/-- The loop of `dump_sample_data`. -/
def dumpTasks (segs : List KvSeg) (nrCpu : ℕ) :
    ℕ → ℕ → List (Option CoreStats) → Cursor → Except State Cursor
  | _, _, [], c => .ok c
  | cpuIdx, cpuCnt, core :: cores, c =>
      if cpuCnt < nrCpu then
        match core with
        | none => dumpTasks segs nrCpu (cpuIdx + 1) cpuCnt cores c
        | some core =>
            match dumpTask segs cpuIdx core c with
            | .error s => .error s
            | .ok c => dumpTasks segs nrCpu (cpuIdx + 1) (cpuCnt + 1) cores c
      else .ok c

/-- The segments that are dumped: those with an index below `nrSeg` on a host, on a target `kv_nvme`
for each of them. -/
def dumpedSegs (isHost : Bool) (nrSeg : ℕ) : List KvSeg :=
  if isHost = true then [KvSeg.kvb, .kvv, .kvs, .kvNvmef, .kvNvme].take nrSeg
  else List.replicate nrSeg .kvNvme

namespace Registry

/-- `ctx->is_host` as a condition. -/
def host (r : Registry) : Bool := r.isHost ≠ 0

/-- The counters of the cores in the role of the service. -/
def cores (r : Registry) : List (Option CoreStats) :=
  if r.host = true then r.hostStats.stats.map (Option.map .host)
  else r.targetStats.stats.map (Option.map .target)

/-- `nr_cpu`. -/
def nrCpu (r : Registry) : ℕ := if r.host = true then r.hostStats.nrCpu else r.targetStats.nrCpu

end Registry

namespace State

/-- `dump_sample_data`: the size of the data and the new state, or the state when there is not the
room. -/
def dumpSampleData (nrCpu : ℕ) (s : State) : Except State (State × ℕ) :=
  (dumpTasks (dumpedSegs s.registry.host s.nrSegment) nrCpu 0 0 s.registry.cores
    ⟨s, s.samplingBuffer, s.samplingBufferSize⟩).map fun c =>
      (c.state.moveTo c.buffer c.size, c.buffer.off - s.samplingBuffer.off)

/-- The end of a file: the next one starts at a multiple of `KB`, if there is room. -/
def closeFile (s : State) : State :=
  let padding := 1024 - s.dumpFileSize.tmod 1024
  let s :=
    if padding ≠ 1024 then
      s.moveTo (s.samplingBuffer.add padding.toNat) (s.samplingBufferSize - padding)
    else s
  let s := s.updateFileSizeForDump
  if minRoom ≤ s.samplingBufferSize then
    putHeader { s with fileHdrDumpPtr := s.samplingBuffer, dumpFileSize := s.fileHdrSize }
  else s

/-- One more sample. -/
def count (s : State) (size : ℕ) : State :=
  { s with nrSample := s.nrSample + 1, dumpFileSize := s.dumpFileSize + size }

/-- The end of `one_sampling`: the size of the sample is set at the place where `buffer` points. -/
def completeSample (buffer : Ptr) (size : ℕ) (s : State) : State :=
  let s := (s.put buffer (intBytes size)).count size
  if s.conf.dumpFileSize ≤ s.dumpFileSize then s.closeFile else s

/-- `one_sampling` from the test of the buffers on, with whether it gets to its end or is short of
room. -/
def takeSample (buffer : Ptr) (nrCpu : ℕ) (tv : ℤ × ℤ) (s : State) : State × Bool :=
  match dumpSampleMeta nrCpu tv s with
  | none => (s, false)
  | some s =>
      match s.dumpSampleData nrCpu with
      | .error s => (s, false)
      | .ok (s, dataSz) => (s.completeSample buffer (16 + dataSz), true)

/-- The condition at `x_buffer`, apart from a shortage before. -/
def exchangeDue (s : State) : Bool :=
  (s.conf.maxSamplePerDump ≠ 0 && s.conf.maxSamplePerDump ≤ s.nrSample) ||
    s.samplingBufferSize < minRoom

/-- `x_buffer`, when the condition holds, for the answers of the dumper: a sample that does not fit
is tried again. `none` when the call goes on after the last answer. -/
def exchangeLoop (buffer : Ptr) (nrCpu : ℕ) (tv : ℤ × ℤ) : List Bool → State → Option State
  | [], _ => none
  | false :: _, s => some { s with nrSample := 0 }
  | true :: ready, s =>
      let r := takeSample buffer nrCpu tv { s.exchangeBuffer with nrSample := 0 }
      if r.2 = true then some r.1 else exchangeLoop buffer nrCpu tv ready r.1

/-- `one_sampling`. -/
def oneSampling (tv : ℤ × ℤ) (ready : List Bool) (s : State) : Option State :=
  if s.threadTerminate = true then some s.updateFileSizeForDump
  else if s.registry.isHost = -1 then some s
  else if s.exchangeDue = true then
    exchangeLoop s.samplingBuffer s.registry.nrCpu tv ready s
  else
    match takeSample s.samplingBuffer s.registry.nrCpu tv s with
    | (s', true) => some s'
    | (s', false) => exchangeLoop s.samplingBuffer s.registry.nrCpu tv ready s'

end State

/-- What happens in the service. -/
inductive Action
  | kvStatsInit (cpuId : ℤ) (isHost : Bool)
  | hostCall (cpuId : ℕ) (c : HostCall)
  | targetCall (cpuId : ℕ) (c : TargetCall)
  | oneSampling (tv : ℤ × ℤ) (ready : List Bool)
  | stopSampling

def step (s : State) : Action → Option State
  | .kvStatsInit cpuId isHost => some { s with registry := s.registry.kvStatsInit cpuId isHost }
  | .hostCall cpuId c => some { s with registry := s.registry.hostCall cpuId c }
  | .targetCall cpuId c => some { s with registry := s.registry.targetCall cpuId c }
  | .oneSampling tv ready => s.oneSampling tv ready
  | .stopSampling => some { s with threadTerminate := true }

/-! ### What the buffers should hold -/

/-- The chunks of a segment in a sample. -/
structure SegData where
  seg : KvSeg
  chunks : List (List UInt8)
  width_eq : ∀ c ∈ chunks, c.length = seg.width

/-- The counters of a core in a sample. -/
structure TaskData where
  cpuId : ℕ
  segs : List SegData

/-- The numbers of chunks in front are those of the chunks behind them. -/
def TaskData.bytes (t : TaskData) : List UInt8 :=
  taskMeta t.cpuId (t.segs.map (·.chunks.length)) ++ t.segs.flatMap (·.chunks.flatten)

/-- A sample. -/
structure SampleData where
  tv : ℤ × ℤ
  tasks : List TaskData

namespace SampleData

def data (x : SampleData) : List UInt8 := x.tasks.flatMap TaskData.bytes

/-- The size in front is that of the sample. -/
def bytes (x : SampleData) : List UInt8 :=
  sampleMeta ((16 + x.data.length : ℕ) : ℤ) x.tv x.tasks.length ++ x.data

/-- Every core has the segments of a role. -/
def HasSegs (nrSeg : ℕ) (x : SampleData) : Prop :=
  ∃ isHost, ∀ t ∈ x.tasks, t.segs.map (·.seg) = dumpedSegs isHost nrSeg

end SampleData

/-- A whole header. -/
def FileHeader.bytes (h : FileHeader) : List UInt8 :=
  h.head ++ h.segs.flatMap fun seg =>
    intBytes seg.length ++ seg.flatMap fun c => c.name.bytes ++ intBytes c.type.code

/-- A file: the header with the size `size`, and samples. -/
def fileBytes (h : FileHeader) (size : ℤ) (xs : List SampleData) : List UInt8 :=
  FileHeader.bytes { h with reserved0 := size } ++ xs.flatMap SampleData.bytes

namespace State

/-- There is a file with the size `size` in its header at the pointer. -/
def Holds (s : State) (p : Ptr) (size : ℤ) (xs : List SampleData) : Prop :=
  getBytes (s.dataBuffer p.buf) p.off (fileBytes s.fileHdr size xs).length = fileBytes s.fileHdr size xs

/-- The region is a file in its buffer, and its size is the one in the header. -/
def IsFile (s : State) (r : Region) : Prop :=
  ∃ xs : List SampleData, (∀ x ∈ xs, x.HasSegs s.fileHdr.nrSeg) ∧
    r.size = (fileBytes s.fileHdr r.size xs).length ∧ s.Holds r.start r.size xs ∧
    r.start.off + r.size ≤ s.conf.half

/-- The finished files are files, and every write has gone into the buffer that was sampled into. The
other buffer is the dumper's. -/
structure WellFormed (s : State) : Prop where
  files : ∀ r ∈ s.finished, s.IsFile r
  inside : ∀ w ∈ s.writes, w.dest.buf = w.sampled ∧ w.dest.off + w.len ≤ s.conf.half

/-- The room that a core takes. -/
def taskSize (segs : List KvSeg) (core : CoreStats) : ℕ :=
  8 + 4 * segs.length + (segs.map fun seg => getNrChunks core seg * seg.width).sum

/-- The room that some cores take. -/
def coresSize (segs : List KvSeg) (cores : List (Option CoreStats)) : ℕ :=
  (cores.map fun o => o.elim 0 (taskSize segs)).sum

/-- The room that a sample takes. -/
def sampleSize (s : State) : ℕ :=
  16 + coresSize (dumpedSegs s.registry.host s.nrSegment) s.registry.cores

/-- A call that would exchange the buffers finds the dumper busy. Any other call finds the room for
the whole sample, and the counters that come in one chunk have been asked for at most once. -/
def Kept (s : State) : Action → Prop
  | .oneSampling _ ready =>
      s.threadTerminate = true ∨ s.registry.isHost = -1 ∨
        if s.exchangeDue = true then ready.head? ≠ some true
        else (s.sampleSize : ℤ) ≤ s.samplingBufferSize ∧
          ∀ o ∈ s.registry.cores, ∀ core ∈ o, SingleChunk core
  | _ => True

instance decidableKept (s : State) : ∀ a, Decidable (s.Kept a)
  | .oneSampling _ ready => inferInstanceAs (Decidable (s.threadTerminate = true ∨
      s.registry.isHost = -1 ∨ if s.exchangeDue = true then ready.head? ≠ some true
        else (s.sampleSize : ℤ) ≤ s.samplingBufferSize ∧
          ∀ o ∈ s.registry.cores, ∀ core ∈ o, SingleChunk core))
  | .kvStatsInit _ _ => isTrue trivial
  | .hostCall _ _ => isTrue trivial
  | .targetCall _ _ => isTrue trivial
  | .stopSampling => isTrue trivial

end State

end DssSdk.Stats
