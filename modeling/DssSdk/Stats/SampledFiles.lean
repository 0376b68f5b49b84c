import DssSdk.Lib.ByteRegions
import DssSdk.Stats.Sampling

/-!
# The files of the statistics library

A call of `one_sampling` that exchanges the buffers and takes a sample sets the size of the sample in
the buffer that it has handed over, since the pointer to the sample is older than the exchange. Without
such calls, and as long as there is room for whole samples, the buffers hold files.

* `State.fill`, `Cursor.puts`: several writes one behind the other;
* `dumpTask_spec`, `dumpTasks_spec`, `takeSample_spec`: a sample that has room is written as a whole;
* `Base`, `Inv`: the open file, the finished ones and the writes;
* `updateFileSize_base`, `newFile_inv`, `addSample_inv`, `closeFile_inv`: what changes a file;
* `oneSampling_inv`, `step_inv`, `filesWellFormed_of_run`: the runs of calls that are `Kept`;
* `not_wellFormed_of_exchange`: what an exchange leads to.
-/

namespace DssSdk.Stats

open ByteMemory

/-! ### Headers -/

section

variable {h : FileHeader} {size : ℤ}

@[simp] theorem length_sampleMeta (tv : ℤ × ℤ) (nrCpu : ℕ) : (sampleMeta size tv nrCpu).length = 16 := by
  simp [sampleMeta]

@[simp] theorem FileHeader.length_head (h : FileHeader) : h.head.length = 16 := by
  simp [FileHeader.head]

theorem FileHeader.le_length_bytes (h : FileHeader) : 16 ≤ h.bytes.length := by
  simp [FileHeader.bytes]

/-- The bytes of the counters in a header. -/
def infoBytes (cs : List CounterInfo) : List UInt8 :=
  cs.flatMap fun c => c.name.bytes ++ intBytes c.type.code

theorem dumpCounterInfos_eq {cs : List CounterInfo} (hsize : ((infoBytes cs).length : ℤ) ≤ size) :
    dumpCounterInfos cs size = (infoBytes cs, .ok (size - (infoBytes cs).length)) := by
  induction cs generalizing size with
  | nil => simp [dumpCounterInfos, infoBytes]
  | cons c cs ih =>
    have hlen : (infoBytes (c :: cs)).length = 36 + (infoBytes cs).length := by
      simp only [infoBytes, List.flatMap_cons, List.length_append, CString.length_bytes,
        length_intBytes]
    rw [hlen] at hsize ⊢
    push_cast at hsize
    rw [dumpCounterInfos, if_neg (by omega), if_neg (by omega), ih (by omega)]
    simp only [infoBytes, List.flatMap_cons, Prod.mk.injEq, Except.ok.injEq, true_and]
    push_cast
    omega

theorem dumpSegmentInfos_eq {segs : List (List CounterInfo)}
    (hsize : ((segs.flatMap fun seg => intBytes seg.length ++ infoBytes seg).length : ℤ) ≤ size) :
    ∃ room, dumpSegmentInfos segs size =
      (segs.flatMap fun seg => intBytes seg.length ++ infoBytes seg, .ok room) := by
  induction segs generalizing size with
  | nil => exact ⟨size, rfl⟩
  | cons seg segs ih =>
    have hlen : ((seg :: segs).flatMap fun seg => intBytes seg.length ++ infoBytes seg).length =
        4 + (infoBytes seg).length +
          (segs.flatMap fun seg => intBytes seg.length ++ infoBytes seg).length := by
      simp only [List.flatMap_cons, List.length_append, length_intBytes]
    rw [hlen] at hsize
    push_cast at hsize
    have hrest : ((segs.flatMap fun seg => intBytes seg.length ++ infoBytes seg).length : ℤ) ≤
        size - (infoBytes seg).length := by omega
    obtain ⟨room, hroom⟩ := ih hrest
    refine ⟨room, ?_⟩
    rw [dumpSegmentInfos, dumpCounterInfos_eq (by omega)]
    dsimp only
    rw [hroom, List.flatMap_cons]

theorem dumpFileHeader_eq (hsize : (h.bytes.length : ℤ) ≤ size) :
    dumpFileHeader h size = (h.bytes, (h.bytes.length : ℤ)) := by
  have hlen : h.bytes.length =
      16 + (h.segs.flatMap fun seg => intBytes seg.length ++ infoBytes seg).length := by
    rw [FileHeader.bytes, List.length_append, FileHeader.length_head]
    rfl
  rw [hlen] at hsize
  push_cast at hsize
  have hsegs : ((h.segs.flatMap fun seg => intBytes seg.length ++ infoBytes seg).length : ℤ) ≤
      size - 16 := by omega
  obtain ⟨room, hroom⟩ := dumpSegmentInfos_eq hsegs
  rw [dumpFileHeader, if_neg (by omega), hroom]
  rfl

end

/-! ### Writes one behind the other -/

/-- The write goes to some of the `n` bytes behind the pointer. -/
def Write.Between (w : Write) (p : Ptr) (n : ℕ) (sampled : Bool) : Prop :=
  w.dest.buf = p.buf ∧ w.sampled = sampled ∧ p.off ≤ w.dest.off ∧ w.dest.off + w.len ≤ p.off + n

namespace State

/-- Bytes at a pointer, in some writes. -/
def fill (s : State) (p : Ptr) (bs : List UInt8) (ws : List Write) : State :=
  { s with
    dataBuffer := fun b => if b = p.buf then putBytes (s.dataBuffer b) p.off bs else s.dataBuffer b
    writes := ws ++ s.writes }

variable {s : State} {p : Ptr} {xs ys : List UInt8} {ws ws' : List Write}

theorem put_eq_fill : s.put p xs = s.fill p xs [⟨p, xs.length, !s.dumpingBuffer⟩] := rfl

theorem fill_fill {n : ℕ} (hn : xs.length = n) :
    (s.fill p xs ws).fill (p.add n) ys ws' = s.fill p (xs ++ ys) (ws' ++ ws) := by
  subst hn
  unfold fill Ptr.add
  simp only [List.append_assoc, mk.injEq, true_and, and_true]
  funext b
  split_ifs
  · rw [putBytes_append]
  · rfl

theorem fill_overwrite {zs : List UInt8} (h : ys.length = xs.length) :
    (s.fill p (xs ++ zs) ws).fill p ys ws' = s.fill p (ys ++ zs) (ws' ++ ws) := by
  unfold fill
  simp only [List.append_assoc, mk.injEq, true_and, and_true]
  funext b
  split_ifs
  · rw [putBytes_overwrite _ _ h]
  · rfl

end State

namespace Cursor

/-- Writes one behind the other. -/
def puts (c : Cursor) (bss : List (List UInt8)) : Cursor := bss.foldl put c

variable {c : Cursor} {bss bss' : List (List UInt8)}

theorem puts_append : c.puts (bss ++ bss') = (c.puts bss).puts bss' := List.foldl_append

theorem puts_size : (c.puts bss).size = c.size - bss.flatten.length := by
  induction bss generalizing c with
  | nil => simp [puts]
  | cons bs bss ih =>
    have hcons : c.puts (bs :: bss) = (c.put bs).puts bss := rfl
    rw [hcons, ih, List.flatten_cons, List.length_append]
    simp only [put]
    push_cast
    omega

theorem puts_buffer : (c.puts bss).buffer = c.buffer.add bss.flatten.length := by
  induction bss generalizing c with
  | nil => rfl
  | cons bs bss ih =>
    have hcons : c.puts (bs :: bss) = (c.put bs).puts bss := rfl
    rw [hcons, ih, List.flatten_cons, List.length_append]
    simp only [put, Ptr.add, Nat.add_assoc]

theorem puts_state (c : Cursor) (bss : List (List UInt8)) :
    ∃ ws, (∀ w ∈ ws, w.Between c.buffer bss.flatten.length !c.state.dumpingBuffer) ∧
      (c.puts bss).state = c.state.fill c.buffer bss.flatten ws := by
  induction bss generalizing c with
  | nil =>
    refine ⟨[], by simp, ?_⟩
    simp [puts, State.fill]
  | cons bs bss ih =>
    obtain ⟨ws, hws, hstate⟩ := ih (c.put bs)
    have hcons : c.puts (bs :: bss) = (c.put bs).puts bss := rfl
    refine ⟨ws ++ [⟨c.buffer, bs.length, !c.state.dumpingBuffer⟩], ?_, ?_⟩
    · intro w hw
      rw [List.flatten_cons, List.length_append]
      rcases List.mem_append.1 hw with hw | hw
      · obtain ⟨hbuf, hsampled, hlow, hhigh⟩ := hws w hw
        simp only [put, Ptr.add, State.put] at hbuf hsampled hlow hhigh
        exact ⟨hbuf, hsampled, by omega, by omega⟩
      · rw [List.mem_singleton.1 hw]
        exact ⟨rfl, rfl, le_rfl, by dsimp only; omega⟩
    · rw [hcons, hstate, List.flatten_cons, ← State.fill_fill rfl]
      rfl

end Cursor

/-! ### A sample with room -/

section

variable {segs : List KvSeg} {core : CoreStats} {cores : List (Option CoreStats)} {c : Cursor}
  {nrCpu : ℕ}

theorem length_flatten_segChunks {seg : KvSeg} (h : SingleChunk core) :
    (segChunks core seg).flatten.length = getNrChunks core seg * seg.width := by
  rw [← length_segChunks h, List.length_flatten, List.eq_replicate_of_mem (a := seg.width)
    (l := (segChunks core seg).map List.length), List.sum_replicate, List.length_map, smul_eq_mul]
  intro n hn
  obtain ⟨bs, hbs, rfl⟩ := List.mem_map.1 hn
  exact length_of_mem_segChunks hbs

/-- The sample of a core. -/
def taskData (segs : List KvSeg) (cpuId : ℕ) (core : CoreStats) : TaskData :=
  ⟨cpuId, segs.map fun seg => ⟨seg, segChunks core seg, fun _ => length_of_mem_segChunks⟩⟩

/-- The samples of the cores with an index of at least `i`. -/
def tasksFrom (segs : List KvSeg) : ℕ → List (Option CoreStats) → List TaskData
  | _, [] => []
  | i, none :: cores => tasksFrom segs (i + 1) cores
  | i, some core :: cores => taskData segs i core :: tasksFrom segs (i + 1) cores

theorem length_taskMeta (cpuId : ℕ) (ns : List ℕ) : (taskMeta cpuId ns).length = 8 + 4 * ns.length := by
  simp [taskMeta, List.length_flatMap]
  omega

theorem bytes_taskData (h : SingleChunk core) (cpuId : ℕ) : (taskData segs cpuId core).bytes =
    taskMeta cpuId (segs.map (getNrChunks core)) ++ segs.flatMap fun seg => (segChunks core seg).flatten := by
  have hlen : segs.map (fun seg => (segChunks core seg).length) = segs.map (getNrChunks core) :=
    List.map_congr_left fun seg _ => length_segChunks h
  simp only [TaskData.bytes, taskData, List.map_map, List.flatMap_map, Function.comp_def, hlen]

theorem length_bytes_taskData (h : SingleChunk core) (cpuId : ℕ) :
    (taskData segs cpuId core).bytes.length = State.taskSize segs core := by
  rw [bytes_taskData h, List.length_append, length_taskMeta, List.length_map, State.taskSize,
    List.length_flatMap]
  congr 2
  exact List.map_congr_left fun seg _ => length_flatten_segChunks h

theorem dumpSegs_eq (h : SingleChunk core)
    (hsize : (((segs.map fun seg => getNrChunks core seg * seg.width).sum : ℕ) : ℤ) ≤ c.size) :
    segs.foldl (fun c seg => c.put (dumpCounters core seg c.size)) c =
      c.puts (segs.map fun seg => (segChunks core seg).flatten) := by
  induction segs generalizing c with
  | nil => rfl
  | cons seg segs ih =>
    rw [List.map_cons, List.sum_cons] at hsize
    have hseg : dumpCounters core seg c.size = (segChunks core seg).flatten :=
      dumpCounters_eq h (by omega)
    rw [List.foldl_cons, hseg, ih]
    · rfl
    · simp only [Cursor.put]
      rw [length_flatten_segChunks h]
      omega

/-- A core that has room is written as a whole. -/
theorem dumpTask_spec (h : SingleChunk core) (hsize : (State.taskSize segs core : ℤ) ≤ c.size)
    (cpuId : ℕ) : ∃ bss : List (List UInt8), bss.flatten = (taskData segs cpuId core).bytes ∧
      dumpTask segs cpuId core c = .ok (c.puts bss) := by
  refine ⟨taskMeta cpuId (segs.map (getNrChunks core)) ::
    segs.map (fun seg => (segChunks core seg).flatten), ?_, ?_⟩
  · rw [bytes_taskData h, List.flatten_cons, List.flatMap_def]
  · unfold State.taskSize at hsize
    rw [dumpTask, if_neg (by omega), dumpSegs_eq h]
    · rfl
    · simp only [Cursor.put, length_taskMeta, List.length_map]
      omega

theorem tasksFrom_of_countP_eq_zero {i : ℕ} (h : cores.countP Option.isSome = 0) :
    tasksFrom segs i cores = [] := by
  induction cores generalizing i with
  | nil => rfl
  | cons o cores ih =>
    cases o with
    | none => exact ih (by simpa using h)
    | some core => simp at h

theorem length_tasksFrom (i : ℕ) : (tasksFrom segs i cores).length = cores.countP Option.isSome := by
  induction cores generalizing i with
  | nil => rfl
  | cons o cores ih =>
    cases o with
    | none => simp [tasksFrom, ih]
    | some core => simp [tasksFrom, ih]

theorem segs_of_mem_tasksFrom {i : ℕ} {t : TaskData} (h : t ∈ tasksFrom segs i cores) :
    t.segs.map (·.seg) = segs := by
  induction cores generalizing i with
  | nil => exact absurd h List.not_mem_nil
  | cons o cores ih =>
    cases o with
    | none => exact ih h
    | some core =>
      rcases List.mem_cons.1 h with rfl | h
      · simp [taskData, Function.comp_def]
      · exact ih h

theorem coresSize_none : State.coresSize segs (none :: cores) = State.coresSize segs cores := by
  simp [State.coresSize]

theorem coresSize_some : State.coresSize segs (some core :: cores) =
    State.taskSize segs core + State.coresSize segs cores := by
  simp [State.coresSize]

theorem length_flatMap_tasksFrom (h : ∀ o ∈ cores, ∀ core ∈ o, SingleChunk core) (i : ℕ) :
    ((tasksFrom segs i cores).flatMap TaskData.bytes).length = State.coresSize segs cores := by
  induction cores generalizing i with
  | nil => rfl
  | cons o cores ih =>
    have hrest : ∀ o ∈ cores, ∀ core ∈ o, SingleChunk core := fun o ho => h o (List.mem_cons_of_mem _ ho)
    cases o with
    | none => rw [coresSize_none, tasksFrom, ih hrest]
    | some core =>
      rw [coresSize_some, tasksFrom, List.flatMap_cons, List.length_append, ih hrest,
        length_bytes_taskData (h (some core) List.mem_cons_self core rfl)]

/-- Cores that have room are written as a whole. -/
theorem dumpTasks_spec (h : ∀ o ∈ cores, ∀ core ∈ o, SingleChunk core) {cpuIdx cpuCnt : ℕ}
    (hcount : nrCpu = cpuCnt + cores.countP Option.isSome)
    (hsize : (State.coresSize segs cores : ℤ) ≤ c.size) :
    ∃ bss : List (List UInt8), bss.flatten = (tasksFrom segs cpuIdx cores).flatMap TaskData.bytes ∧
      dumpTasks segs nrCpu cpuIdx cpuCnt cores c = .ok (c.puts bss) := by
  induction cores generalizing cpuIdx cpuCnt c with
  | nil => exact ⟨[], rfl, rfl⟩
  | cons o cores ih =>
    have hrest : ∀ o ∈ cores, ∀ core ∈ o, SingleChunk core := fun o ho => h o (List.mem_cons_of_mem _ ho)
    by_cases hlt : cpuCnt < nrCpu
    · cases o with
      | none =>
        rw [coresSize_none] at hsize
        rw [dumpTasks, if_pos hlt]
        exact ih hrest (by simpa using hcount) hsize
      | some core =>
        rw [coresSize_some] at hsize
        rw [List.countP_cons_of_pos rfl] at hcount
        have hcore : SingleChunk core := h (some core) List.mem_cons_self core rfl
        have htask : (State.taskSize segs core : ℤ) ≤ c.size := by omega
        have hcount' : nrCpu = cpuCnt + 1 + cores.countP Option.isSome := by omega
        obtain ⟨bss₁, hbss₁, hdump₁⟩ := dumpTask_spec hcore htask cpuIdx
        have hroom : (State.coresSize segs cores : ℤ) ≤ (c.puts bss₁).size := by
          rw [Cursor.puts_size, hbss₁, length_bytes_taskData hcore]
          omega
        obtain ⟨bss₂, hbss₂, hdump₂⟩ := ih hrest hcount' hroom
        refine ⟨bss₁ ++ bss₂, ?_, ?_⟩
        · rw [List.flatten_append, hbss₁, hbss₂, tasksFrom, List.flatMap_cons]
        · rw [dumpTasks, if_pos hlt, hdump₁]
          dsimp only
          rw [hdump₂, Cursor.puts_append]
    · -- all cores with counters are done
      refine ⟨[], ?_, ?_⟩
      · rw [tasksFrom_of_countP_eq_zero (by omega)]
        rfl
      · cases o with
        | none => rw [dumpTasks, if_neg hlt]; rfl
        | some core => rw [dumpTasks, if_neg hlt]; rfl

end

namespace Registry

theorem nrCpu_eq (r : Registry) : r.nrCpu = r.cores.countP Option.isSome := by
  have hmap : ∀ {α : Type} (c : Cores α) (f : α → CoreStats),
      (c.stats.map (Option.map f)).countP Option.isSome = c.nrCpu := by
    intro α c f
    rw [c.nrCpu_eq, List.countP_map]
    congr 1
    funext o
    exact Option.isSome_map
  unfold nrCpu cores
  split_ifs
  · exact (hmap _ _).symm
  · exact (hmap _ _).symm

end Registry

namespace State

/-- The samples of the cores. -/
def tasks (s : State) : List TaskData :=
  tasksFrom (dumpedSegs s.registry.host s.nrSegment) 0 s.registry.cores

/-- The sample of a state. -/
def sampleData (s : State) (tv : ℤ × ℤ) : SampleData := ⟨tv, s.tasks⟩

/-- The state with its sample, in some writes, before the file is closed. -/
def addSample (s : State) (tv : ℤ × ℤ) (ws : List Write) : State :=
  let n := (s.sampleData tv).bytes.length
  ((s.fill s.samplingBuffer (s.sampleData tv).bytes ws).moveTo (s.samplingBuffer.add n)
    (s.samplingBufferSize - n)).count n

variable {s : State} (h : ∀ o ∈ s.registry.cores, ∀ core ∈ o, SingleChunk core)

include h

theorem length_data : (s.tasks.flatMap TaskData.bytes).length =
    coresSize (dumpedSegs s.registry.host s.nrSegment) s.registry.cores :=
  length_flatMap_tasksFrom h 0

theorem length_bytes_sampleData (tv : ℤ × ℤ) : (s.sampleData tv).bytes.length = s.sampleSize := by
  rw [SampleData.bytes, List.length_append, length_sampleMeta, sampleSize]
  congr 1
  exact length_data h

theorem dumpSampleData_spec
    (hsize : (coresSize (dumpedSegs s.registry.host s.nrSegment) s.registry.cores : ℤ) ≤
      s.samplingBufferSize) :
    ∃ ws, (∀ w ∈ ws, w.Between s.samplingBuffer (s.tasks.flatMap TaskData.bytes).length
        !s.dumpingBuffer) ∧
      s.dumpSampleData s.registry.nrCpu = .ok
        ((s.fill s.samplingBuffer (s.tasks.flatMap TaskData.bytes) ws).moveTo
          (s.samplingBuffer.add (s.tasks.flatMap TaskData.bytes).length)
          (s.samplingBufferSize - (s.tasks.flatMap TaskData.bytes).length),
          (s.tasks.flatMap TaskData.bytes).length) := by
  have hcount : s.registry.nrCpu = 0 + s.registry.cores.countP Option.isSome := by
    rw [Nat.zero_add, Registry.nrCpu_eq]
  have hroom : (coresSize (dumpedSegs s.registry.host s.nrSegment) s.registry.cores : ℤ) ≤
      (Cursor.mk s s.samplingBuffer s.samplingBufferSize).size := hsize
  obtain ⟨bss, hbss, hdump⟩ :
      ∃ bss : List (List UInt8), bss.flatten = s.tasks.flatMap TaskData.bytes ∧
        dumpTasks (dumpedSegs s.registry.host s.nrSegment) s.registry.nrCpu 0 0 s.registry.cores
          ⟨s, s.samplingBuffer, s.samplingBufferSize⟩ =
        .ok ((Cursor.mk s s.samplingBuffer s.samplingBufferSize).puts bss) :=
    dumpTasks_spec h hcount hroom
  obtain ⟨ws, hws, hstate⟩ :
      ∃ ws, (∀ w ∈ ws, w.Between s.samplingBuffer bss.flatten.length !s.dumpingBuffer) ∧
        ((Cursor.mk s s.samplingBuffer s.samplingBufferSize).puts bss).state =
          s.fill s.samplingBuffer bss.flatten ws :=
    Cursor.puts_state ⟨s, s.samplingBuffer, s.samplingBufferSize⟩ bss
  refine ⟨ws, hbss ▸ hws, ?_⟩
  rw [dumpSampleData, hdump]
  simp only [Except.map, hstate, Cursor.puts_buffer, Cursor.puts_size, hbss, Ptr.add,
    Nat.add_sub_cancel_left]

/-- A sample that has room is written as a whole. -/
theorem takeSample_spec (hsize : (s.sampleSize : ℤ) ≤ s.samplingBufferSize) (tv : ℤ × ℤ) :
    ∃ ws, (∀ w ∈ ws, w.Between s.samplingBuffer (s.sampleData tv).bytes.length !s.dumpingBuffer) ∧
      takeSample s.samplingBuffer s.registry.nrCpu tv s =
        (if s.conf.dumpFileSize ≤ (s.addSample tv ws).dumpFileSize then (s.addSample tv ws).closeFile
        else s.addSample tv ws, true) := by
  unfold sampleSize at hsize
  obtain ⟨d, hd⟩ : ∃ d, d = s.tasks.flatMap TaskData.bytes := ⟨_, rfl⟩
  obtain ⟨m, hm⟩ : ∃ m, m = intBytes tv.1 ++ intBytes tv.2 ++ intBytes s.registry.nrCpu := ⟨_, rfl⟩
  have hmeta : ∀ size, sampleMeta size tv s.registry.nrCpu = intBytes size ++ m := by
    intro size
    simp only [sampleMeta, hm, List.append_assoc]
  have hbytes : (s.sampleData tv).bytes = intBytes ((16 + d.length : ℕ) : ℤ) ++ (m ++ d) := by
    have hcpu : s.tasks.length = s.registry.nrCpu := by
      rw [tasks, length_tasksFrom, Registry.nrCpu_eq]
    rw [SampleData.bytes, sampleData, SampleData.data, hcpu, hmeta, ← hd, List.append_assoc]
  have hlen : (s.sampleData tv).bytes.length = 16 + d.length := by
    rw [SampleData.bytes, List.length_append, length_sampleMeta, hd]
    rfl
  have hmlen : (intBytes 16 ++ m).length = 16 := by rw [← hmeta, length_sampleMeta]
  -- the meta data, the data behind it, and the size over the one that was there
  have hput : dumpSampleMeta s.registry.nrCpu tv s =
      some ((s.fill s.samplingBuffer (intBytes 16 ++ m) [⟨s.samplingBuffer, 16, !s.dumpingBuffer⟩]).moveTo
        (s.samplingBuffer.add 16) (s.samplingBufferSize - 16)) := by
    rw [dumpSampleMeta, if_neg (by omega), hmeta, put_eq_fill, hmlen]
  have hroom : (coresSize (dumpedSegs s.registry.host s.nrSegment) s.registry.cores : ℤ) ≤
      s.samplingBufferSize - 16 := by omega
  obtain ⟨ws, hws, hdata⟩ :
      ∃ ws, (∀ w ∈ ws, w.Between (s.samplingBuffer.add 16) d.length !s.dumpingBuffer) ∧
        dumpSampleData s.registry.nrCpu ((s.fill s.samplingBuffer (intBytes 16 ++ m)
          [⟨s.samplingBuffer, 16, !s.dumpingBuffer⟩]).moveTo (s.samplingBuffer.add 16)
            (s.samplingBufferSize - 16)) =
        .ok (((s.fill s.samplingBuffer (intBytes 16 ++ m)
          [⟨s.samplingBuffer, 16, !s.dumpingBuffer⟩]).fill (s.samplingBuffer.add 16) d ws).moveTo
            ((s.samplingBuffer.add 16).add d.length) (s.samplingBufferSize - 16 - d.length), d.length) := by
    subst hd
    exact dumpSampleData_spec (s := (s.fill s.samplingBuffer (intBytes 16 ++ m)
      [⟨s.samplingBuffer, 16, !s.dumpingBuffer⟩]).moveTo _ _) h hroom
  refine ⟨⟨s.samplingBuffer, 4, !s.dumpingBuffer⟩ ::
    (ws ++ [⟨s.samplingBuffer, 16, !s.dumpingBuffer⟩]), ?_, ?_⟩
  · intro w hw
    rw [hlen]
    rcases List.mem_cons.1 hw with rfl | hw
    · exact ⟨rfl, rfl, le_rfl, by dsimp only; omega⟩
    · rcases List.mem_append.1 hw with hw | hw
      · obtain ⟨hbuf, hsampled, hlow, hhigh⟩ := hws w hw
        simp only [Ptr.add] at hbuf hlow hhigh
        exact ⟨hbuf, hsampled, by omega, by omega⟩
      · rw [List.mem_singleton.1 hw]
        exact ⟨rfl, rfl, le_rfl, by dsimp only; omega⟩
  · have hfill : (((s.fill s.samplingBuffer (intBytes 16 ++ m)
          [⟨s.samplingBuffer, 16, !s.dumpingBuffer⟩]).fill (s.samplingBuffer.add 16) d ws).fill
            s.samplingBuffer (intBytes ((16 + d.length : ℕ) : ℤ)) [⟨s.samplingBuffer, 4, !s.dumpingBuffer⟩]) =
        s.fill s.samplingBuffer (s.sampleData tv).bytes (⟨s.samplingBuffer, 4, !s.dumpingBuffer⟩ ::
          (ws ++ [⟨s.samplingBuffer, 16, !s.dumpingBuffer⟩])) := by
      rw [hbytes, fill_fill hmlen, List.append_assoc,
        fill_overwrite (by rw [length_intBytes, length_intBytes])]
      rfl
    have hptr : (s.samplingBuffer.add 16).add d.length = s.samplingBuffer.add (16 + d.length) := by
      simp only [Ptr.add, Nat.add_assoc]
    have hroom' : s.samplingBufferSize - 16 - d.length =
        s.samplingBufferSize - ((16 + d.length : ℕ) : ℤ) := by omega
    rw [takeSample, hput]
    dsimp only
    rw [hdata, hptr, hroom']
    simp only [addSample, ← hfill, hlen]
    rfl

end State

/-! ### Files in a buffer -/

section

variable {h : FileHeader} {v w : ℤ} {xs : List SampleData}

theorem FileHeader.length_bytes (h : FileHeader) :
    h.bytes.length = 16 + (h.segs.map fun seg => 4 + seg.length * 36).sum := by
  simp [FileHeader.bytes, List.length_flatMap]

theorem length_fileBytes (h : FileHeader) (v : ℤ) (xs : List SampleData) :
    (fileBytes h v xs).length = h.bytes.length + (xs.flatMap SampleData.bytes).length := by
  rw [fileBytes, List.length_append, FileHeader.length_bytes, FileHeader.length_bytes]

theorem fileBytes_snoc (x : SampleData) : fileBytes h v (xs ++ [x]) = fileBytes h v xs ++ x.bytes := by
  simp only [fileBytes, List.flatMap_append, List.flatMap_singleton, List.append_assoc]

theorem fileBytes_eq (h : FileHeader) (xs : List SampleData) : ∃ front back : List UInt8,
    front.length = 8 ∧ ∀ v, fileBytes h v xs = front ++ intBytes v ++ back := by
  refine ⟨intBytes h.version ++ intBytes h.nrSeg, intBytes h.reserved1 ++
    ((h.segs.flatMap fun seg => intBytes seg.length ++
      seg.flatMap fun c => c.name.bytes ++ intBytes c.type.code) ++ xs.flatMap SampleData.bytes),
    by simp, fun v => ?_⟩
  simp only [fileBytes, FileHeader.bytes, FileHeader.head, List.append_assoc]

end

namespace State

variable {s : State} {p q : Ptr} {v : ℤ} {xs : List SampleData} {bs : List UInt8} {ws : List Write}
  {r : Region}

theorem holds_header (s : State) (p : Ptr) (ws : List Write) :
    (s.fill p s.fileHdr.bytes ws).Holds p s.fileHdr.reserved0 [] := by
  have hnil : fileBytes s.fileHdr s.fileHdr.reserved0 [] = s.fileHdr.bytes := List.append_nil _
  unfold Holds
  simp only [fill, if_true]
  rw [hnil, getBytes_putBytes_self]

/-- A new size in the header of a file. -/
theorem Holds.patch (h : s.Holds p v xs) (w : ℤ) (ws : List Write) :
    (s.fill (p.add 8) (intBytes w) ws).Holds p w xs := by
  obtain ⟨front, back, hfront, heq⟩ := fileBytes_eq s.fileHdr xs
  have hlen : (fileBytes s.fileHdr w xs).length = (fileBytes s.fileHdr v xs).length := by
    rw [length_fileBytes, length_fileBytes]
  unfold Holds at h ⊢
  simp only [fill, Ptr.add, if_true]
  rw [hlen, heq w, ← hfront]
  rw [heq v] at h ⊢
  exact getBytes_patch h (by rw [length_intBytes, length_intBytes])

theorem Holds.snoc (h : s.Holds p v xs) (x : SampleData) (ws : List Write) :
    (s.fill (p.add (fileBytes s.fileHdr v xs).length) x.bytes ws).Holds p v (xs ++ [x]) := by
  unfold Holds at h ⊢
  simp only [fill, Ptr.add, if_true]
  rw [fileBytes_snoc, List.length_append, getBytes_extend, h]

theorem Holds.fill_of_disjoint (h : s.Holds p v xs) (hq : q.buf ≠ p.buf ∨ q.off + bs.length ≤ p.off ∨
    p.off + (fileBytes s.fileHdr v xs).length ≤ q.off) (ws : List Write) :
    (s.fill q bs ws).Holds p v xs := by
  unfold Holds at h ⊢
  simp only [fill]
  split_ifs with hbuf
  · rw [getBytes_putBytes_of_disjoint, h]
    rcases hq with hq | hq | hq
    · exact absurd hbuf.symm hq
    · exact Or.inr hq
    · exact Or.inl hq
  · exact h

theorem IsFile.fill_of_disjoint (h : s.IsFile r) (hq : q.buf ≠ r.start.buf ∨
    q.off + bs.length ≤ r.start.off ∨ r.start.off + r.size ≤ q.off) (ws : List Write) :
    (s.fill q bs ws).IsFile r := by
  obtain ⟨xs, hsegs, hsize, hholds, hinside⟩ := h
  refine ⟨xs, hsegs, hsize, hholds.fill_of_disjoint ?_ ws, hinside⟩
  rcases hq with hq | hq | hq
  · exact Or.inl hq
  · exact Or.inr (Or.inl hq)
  · refine Or.inr (Or.inr ?_)
    omega

/-! ### The invariant -/

/-- The open file, the finished ones and the writes. A finished file in the buffer that is sampled into
lies in front of the open one or is the open one. -/
structure Base (s : State) : Prop where
  samplingBuf : s.samplingBuffer.buf = !s.dumpingBuffer
  hdrBuf : s.fileHdrDumpPtr.buf = !s.dumpingBuffer
  room : s.samplingBufferSize = s.conf.half - s.samplingBuffer.off
  nrSeg : s.fileHdr.nrSeg = s.nrSegment
  hdrSize : s.fileHdrSize = s.fileHdr.bytes.length
  hdrSmall : s.fileHdr.bytes.length ≤ 4096
  opened : ∃ v xs, (∀ x ∈ xs, SampleData.HasSegs s.fileHdr.nrSeg x) ∧
    s.dumpFileSize = (fileBytes s.fileHdr v xs).length ∧ s.Holds s.fileHdrDumpPtr v xs
  inside : s.fileHdrDumpPtr.off + s.dumpFileSize ≤ s.conf.half
  closed : ∀ r ∈ s.finished, s.IsFile r ∧ (r.start.buf = s.fileHdrDumpPtr.buf →
    r.start.off + r.size ≤ s.fileHdrDumpPtr.off ∨ r = ⟨s.fileHdrDumpPtr, s.dumpFileSize⟩)
  kept : ∀ w ∈ s.writes, w.dest.buf = w.sampled ∧ w.dest.off + w.len ≤ s.conf.half

/-- As long as there is room for a sample, it goes to the end of the open file, which is not one of
the finished ones before the service ends. -/
structure Inv (s : State) : Prop extends Base s where
  adjacent : minRoom ≤ s.samplingBufferSize →
    s.samplingBuffer.off = s.fileHdrDumpPtr.off + s.dumpFileSize
  before : minRoom ≤ s.samplingBufferSize → s.threadTerminate = false → ∀ r ∈ s.finished,
    r.start.buf = s.fileHdrDumpPtr.buf → r.start.off + r.size ≤ s.fileHdrDumpPtr.off

/-- The counters are no part of it. -/
theorem Inv.counters (h : Inv s) (registry : Registry) (nrSample : ℤ) :
    Inv { s with registry := registry, nrSample := nrSample } :=
  ⟨⟨h.samplingBuf, h.hdrBuf, h.room, h.nrSeg, h.hdrSize, h.hdrSmall, h.opened, h.inside, h.closed,
    h.kept⟩, h.adjacent, h.before⟩

theorem Base.wellFormed (h : Base s) : s.WellFormed :=
  ⟨fun r hr => (h.closed r hr).1, h.kept⟩

theorem Base.le_dumpFileSize (h : Base s) : 16 ≤ s.dumpFileSize := by
  obtain ⟨v, xs, -, hsize, -⟩ := h.opened
  have hle := s.fileHdr.le_length_bytes
  rw [hsize, length_fileBytes]
  omega

/-- The size of the open file is set. -/
theorem updateFileSize_base (h : Base s) : Base s.updateFileSizeForDump := by
  obtain ⟨v, xs, hsegs, hsize, hholds⟩ := h.opened
  have hpatch : s.updateFileSizeForDump.Holds s.fileHdrDumpPtr s.dumpFileSize xs :=
    hholds.patch s.dumpFileSize []
  have hsize' : s.dumpFileSize = (fileBytes s.fileHdr s.dumpFileSize xs).length := by
    rw [length_fileBytes, ← length_fileBytes s.fileHdr v xs]
    exact hsize
  have hle := h.le_dumpFileSize
  have hin := h.inside
  have hfile : s.updateFileSizeForDump.IsFile ⟨s.fileHdrDumpPtr, s.dumpFileSize⟩ :=
    ⟨xs, hsegs, hsize', hpatch, h.inside⟩
  refine ⟨h.samplingBuf, h.hdrBuf, h.room, h.nrSeg, h.hdrSize, h.hdrSmall,
    ⟨s.dumpFileSize, xs, hsegs, hsize', hpatch⟩, h.inside, ?_, ?_⟩
  · intro r hr
    rcases List.mem_cons.1 hr with rfl | hr
    · exact ⟨hfile, fun _ => Or.inr rfl⟩
    · obtain ⟨hr, hpos⟩ := h.closed r hr
      refine ⟨?_, hpos⟩
      by_cases hbuf : r.start.buf = s.fileHdrDumpPtr.buf
      · rcases hpos hbuf with hlt | rfl
        · refine IsFile.fill_of_disjoint hr (Or.inr (Or.inr ?_)) []
          simp only [Ptr.add]
          omega
        · exact hfile
      · have hother : (s.fill (s.fileHdrDumpPtr.add 8) (intBytes s.dumpFileSize) []).IsFile r := by
          refine hr.fill_of_disjoint (Or.inl ?_) []
          exact Ne.symm hbuf
        exact hother
  · intro w hw
    rcases List.mem_cons.1 hw with rfl | hw
    · refine ⟨h.hdrBuf, ?_⟩
      simp only [updateFileSizeForDump, put, Ptr.add, length_intBytes]
      omega
    · exact h.kept w hw

theorem moveTo_base (h : Base s) (n : ℕ) :
    Base (s.moveTo (s.samplingBuffer.add n) (s.samplingBufferSize - n)) := by
  refine ⟨h.samplingBuf, h.hdrBuf, ?_, h.nrSeg, h.hdrSize, h.hdrSmall, h.opened, h.inside, h.closed,
    h.kept⟩
  have hroom := h.room
  simp only [moveTo, Ptr.add]
  omega

theorem headerSize_eq (h : (s.fileHdr.bytes.length : ℤ) ≤ s.samplingBufferSize) :
    s.headerSize = s.fileHdr.bytes.length := by
  rw [headerSize, dumpFileHeader_eq h]

theorem putHeader_eq (h : (s.fileHdr.bytes.length : ℤ) ≤ s.samplingBufferSize) : s.putHeader =
    (s.fill s.samplingBuffer s.fileHdr.bytes
      [⟨s.samplingBuffer, s.fileHdr.bytes.length, !s.dumpingBuffer⟩]).moveTo
        (s.samplingBuffer.add s.fileHdr.bytes.length)
        (s.samplingBufferSize - s.fileHdr.bytes.length) := by
  rw [putHeader, headerSize_eq h, dumpFileHeader_eq h]
  dsimp only
  rw [if_neg (by omega)]
  rfl

/-- A new file behind the others. -/
theorem newFile_inv (h : Base s) (hle : s.fileHdrDumpPtr.off + s.dumpFileSize ≤ s.samplingBuffer.off)
    (hroom : minRoom ≤ s.samplingBufferSize) :
    Inv (putHeader { s with fileHdrDumpPtr := s.samplingBuffer, dumpFileSize := s.fileHdrSize }) := by
  have hsize := h.room
  have hsmall := h.hdrSmall
  have hhdr := h.hdrSize
  have hpos := h.le_dumpFileSize
  unfold minRoom at hroom
  -- the finished files end in front of the new one
  have hbefore : ∀ r ∈ s.finished, r.start.buf = s.samplingBuffer.buf →
      r.start.off + r.size ≤ s.samplingBuffer.off := by
    intro r hr hbuf
    rcases (h.closed r hr).2 (by rw [hbuf, h.samplingBuf, h.hdrBuf]) with hlt | rfl
    · omega
    · exact hle
  rw [putHeader_eq (by dsimp only; omega)]
  refine ⟨⟨h.samplingBuf, h.samplingBuf, ?_, h.nrSeg, h.hdrSize, h.hdrSmall,
    ⟨s.fileHdr.reserved0, [], by simp, ?_, ?_⟩, ?_, ?_, ?_⟩, ?_, ?_⟩
  · simp only [moveTo, fill, Ptr.add]
    omega
  · simp only [moveTo, fill]
    rw [hhdr, length_fileBytes]
    simp
  · exact holds_header s s.samplingBuffer []
  · simp only [moveTo, fill]
    omega
  · intro r hr
    have hfile := (h.closed r hr).1
    by_cases hbuf : r.start.buf = s.samplingBuffer.buf
    · have hlt := hbefore r hr hbuf
      exact ⟨IsFile.fill_of_disjoint hfile (Or.inr (Or.inr hlt)) [], fun _ => Or.inl hlt⟩
    · exact ⟨IsFile.fill_of_disjoint hfile (Or.inl (Ne.symm hbuf)) [], fun hno => absurd hno hbuf⟩
  · intro w hw
    rcases List.mem_cons.1 hw with rfl | hw
    · refine ⟨h.samplingBuf, ?_⟩
      simp only [moveTo, fill]
      omega
    · exact h.kept w hw
  · intro _
    simp only [moveTo, fill, Ptr.add]
    omega
  · intro _ _ r hr hbuf
    exact hbefore r hr hbuf

/-- A sample behind the open file. -/
theorem addSample_inv (h : Inv s) (hterm : s.threadTerminate = false)
    (hroom : minRoom ≤ s.samplingBufferSize) {tv : ℤ × ℤ}
    (hsize : ((s.sampleData tv).bytes.length : ℤ) ≤ s.samplingBufferSize)
    (hws : ∀ w ∈ ws, w.Between s.samplingBuffer (s.sampleData tv).bytes.length !s.dumpingBuffer) :
    Inv (s.addSample tv ws) ∧
      (s.addSample tv ws).samplingBuffer.off =
        (s.addSample tv ws).fileHdrDumpPtr.off + (s.addSample tv ws).dumpFileSize := by
  have hadj := h.adjacent hroom
  have hbefore := h.before hroom hterm
  have hrooms := h.room
  have hpos := h.le_dumpFileSize
  obtain ⟨v, xs, hsegs, hlen, hholds⟩ := h.opened
  have hptr : s.samplingBuffer = s.fileHdrDumpPtr.add (fileBytes s.fileHdr v xs).length := by
    have hbuf : s.samplingBuffer.buf = s.fileHdrDumpPtr.buf := h.samplingBuf.trans h.hdrBuf.symm
    have hoff : s.samplingBuffer.off = s.fileHdrDumpPtr.off + (fileBytes s.fileHdr v xs).length := by omega
    exact Ptr.ext hbuf hoff
  have hadj' : (s.addSample tv ws).samplingBuffer.off =
      (s.addSample tv ws).fileHdrDumpPtr.off + (s.addSample tv ws).dumpFileSize := by
    simp only [addSample, count, moveTo, fill, Ptr.add]
    omega
  refine ⟨⟨⟨h.samplingBuf, h.hdrBuf, ?_, h.nrSeg, h.hdrSize, h.hdrSmall,
    ⟨v, xs ++ [s.sampleData tv], ?_, ?_, ?_⟩, ?_, ?_, ?_⟩, fun _ => hadj', ?_⟩, hadj'⟩
  · simp only [addSample, count, moveTo, fill, Ptr.add]
    omega
  · intro x hx
    rcases List.mem_append.1 hx with hx | hx
    · exact hsegs x hx
    · rw [List.mem_singleton.1 hx]
      refine ⟨s.registry.host, fun t ht => ?_⟩
      show _ = dumpedSegs s.registry.host s.fileHdr.nrSeg
      rw [h.nrSeg]
      exact segs_of_mem_tasksFrom ht
  · simp only [addSample, count, moveTo, fill]
    rw [fileBytes_snoc, List.length_append]
    omega
  · show (s.fill s.samplingBuffer (s.sampleData tv).bytes ws).Holds s.fileHdrDumpPtr v _
    rw [hptr]
    exact hholds.snoc _ []
  · simp only [addSample, count, moveTo, fill]
    omega
  · intro r hr
    have hfile := (h.closed r hr).1
    by_cases hbuf : r.start.buf = s.fileHdrDumpPtr.buf
    · have hlt := hbefore r hr hbuf
      refine ⟨IsFile.fill_of_disjoint hfile (Or.inr (Or.inr ?_)) [], fun _ => Or.inl hlt⟩
      omega
    · refine ⟨IsFile.fill_of_disjoint hfile (Or.inl ?_) [], fun hno => absurd hno hbuf⟩
      rw [h.samplingBuf, ← h.hdrBuf]
      exact Ne.symm hbuf
  · intro w hw
    rcases List.mem_append.1 hw with hw | hw
    · obtain ⟨hbuf, hsampled, -, hhigh⟩ := hws w hw
      refine ⟨by rw [hbuf, hsampled, h.samplingBuf], ?_⟩
      simp only [addSample, count, moveTo, fill]
      omega
    · exact h.kept w hw
  · exact fun _ _ r hr hbuf => hbefore r hr hbuf

/-- The end of a file. -/
theorem closeFile_inv (h : Inv s)
    (hadj : s.samplingBuffer.off = s.fileHdrDumpPtr.off + s.dumpFileSize) : Inv s.closeFile := by
  have hpos := h.le_dumpFileSize
  obtain ⟨n, hn⟩ : ∃ n : ℕ, 1024 - s.dumpFileSize.tmod 1024 = n := by
    have hmod := Int.tmod_lt_of_pos s.dumpFileSize (show (0 : ℤ) < 1024 by decide)
    exact ⟨(1024 - s.dumpFileSize.tmod 1024).toNat, by omega⟩
  -- the pointer at the next multiple of 1024
  obtain ⟨k, hk⟩ : ∃ k : ℕ, s.closeFile =
      (if minRoom ≤ s.samplingBufferSize - k then
        putHeader { (s.moveTo (s.samplingBuffer.add k)
            (s.samplingBufferSize - k)).updateFileSizeForDump with
          fileHdrDumpPtr := s.samplingBuffer.add k, dumpFileSize := s.fileHdrSize }
      else (s.moveTo (s.samplingBuffer.add k) (s.samplingBufferSize - k)).updateFileSizeForDump) := by
    by_cases hpad : (n : ℤ) ≠ 1024
    · refine ⟨n, ?_⟩
      simp only [closeFile, hn, if_pos hpad, Int.toNat_natCast]
      rfl
    · refine ⟨0, ?_⟩
      have hzero : s.samplingBufferSize - ((0 : ℕ) : ℤ) = s.samplingBufferSize := sub_zero _
      simp only [closeFile, hn, if_neg hpad, hzero]
      rfl
  have hbase := updateFileSize_base (moveTo_base h.toBase k)
  rw [hk]
  split_ifs with hroom
  · refine newFile_inv hbase ?_ hroom
    simp only [updateFileSizeForDump, put, moveTo, Ptr.add]
    omega
  · exact ⟨hbase, fun hno => absurd hno hroom, fun hno => absurd hno hroom⟩

/-- A call that is `Kept`. -/
theorem oneSampling_inv {s' : State} {tv : ℤ × ℤ} {ready : List Bool} (h : Inv s)
    (hkept : s.Kept (.oneSampling tv ready)) (hstep : s.oneSampling tv ready = some s') : Inv s' := by
  unfold oneSampling at hstep
  split_ifs at hstep with hterm hrole hdue
  · -- the service has ended: the size of the open file is set
    cases hstep
    refine ⟨updateFileSize_base h.toBase, h.adjacent, fun _ hno => ?_⟩
    exact absurd (hterm.symm.trans hno) (by simp)
  · cases hstep
    exact h
  · -- the dumper is busy
    rcases hkept with hno | hno | hkept
    · exact absurd hno hterm
    · exact absurd hno hrole
    · rw [if_pos hdue] at hkept
      cases ready with
      | nil => cases hstep
      | cons isReady ready =>
        cases isReady with
        | true => exact absurd rfl hkept
        | false =>
          cases hstep
          exact h.counters s.registry 0
  · rcases hkept with hno | hno | hkept
    · exact absurd hno hterm
    · exact absurd hno hrole
    · rw [if_neg hdue] at hkept
      obtain ⟨hsize, hsingle⟩ := hkept
      have hroom : minRoom ≤ s.samplingBufferSize := by
        simp only [exchangeDue, Bool.or_eq_true, decide_eq_true_eq, not_or, not_lt] at hdue
        exact hdue.2
      obtain ⟨ws, hws, htake⟩ := takeSample_spec hsingle hsize tv
      rw [htake] at hstep
      obtain ⟨hinv, hadj⟩ := addSample_inv h (Bool.eq_false_iff.2 hterm) hroom
        (by rw [length_bytes_sampleData hsingle]; exact hsize) hws
      split_ifs at hstep
      · cases hstep
        exact closeFile_inv hinv hadj
      · cases hstep
        exact hinv

theorem step_inv {s' : State} {a : Action} (h : Inv s) (hkept : s.Kept a) (hstep : step s a = some s') :
    Inv s' := by
  cases a with
  | oneSampling tv ready => exact oneSampling_inv h hkept hstep
  | stopSampling =>
    cases hstep
    refine ⟨⟨h.samplingBuf, h.hdrBuf, h.room, h.nrSeg, h.hdrSize, h.hdrSmall, h.opened, h.inside,
      h.closed, h.kept⟩, h.adjacent, fun _ hno => ?_⟩
    cases hno
  | _ =>
    cases hstep
    exact h.counters _ s.nrSample

theorem tableInit_inv (hptr : s.samplingBuffer = ⟨!s.dumpingBuffer, 0⟩)
    (hhdr : s.fileHdrDumpPtr = s.samplingBuffer) (hroom : s.samplingBufferSize = s.conf.half)
    (hseg : s.fileHdr.nrSeg = s.nrSegment) (hzero : s.fileHdr.reserved0 = 0)
    (hsmall : s.fileHdr.bytes.length ≤ 4096) (hhalf : 4096 ≤ s.conf.half)
    (hfinished : s.finished = []) (hwrites : s.writes = []) :
    Inv s.tableInit := by
  have hle := s.fileHdr.le_length_bytes
  have hbuf : s.samplingBuffer.buf = !s.dumpingBuffer := by rw [hptr]
  have hoff : s.samplingBuffer.off = 0 := by rw [hptr]
  have hlen : ∀ v, FileHeader.bytes { s.fileHdr with reserved0 := v } = fileBytes s.fileHdr v [] :=
    fun v => (List.append_nil _).symm
  unfold tableInit
  rw [headerSize_eq (by omega), putHeader_eq (by omega)]
  simp only [moveTo, fill]
  refine ⟨⟨hbuf, by rw [hhdr, hbuf], ?_, hseg, ?_, ?_, ⟨0, [], by simp, ?_, ?_⟩, ?_, ?_, ?_⟩, ?_, ?_⟩
  · simp only [Ptr.add]
    omega
  · rw [FileHeader.length_bytes, FileHeader.length_bytes]
  · rw [FileHeader.length_bytes] at hsmall ⊢
    exact hsmall
  · rw [length_fileBytes, FileHeader.length_bytes, FileHeader.length_bytes]
    simp
  · rw [hhdr, ← hzero]
    exact holds_header s s.samplingBuffer []
  · rw [hhdr]
    simp only
    omega
  · intro r hr
    rw [hfinished] at hr
    cases hr
  · intro w hw
    rw [hwrites, List.append_nil, List.mem_singleton] at hw
    rw [hw]
    refine ⟨hbuf, ?_⟩
    simp only
    omega
  · intro _
    rw [hhdr]
    simp only [Ptr.add]
    omega
  · intro _ _ r hr
    rw [hfinished] at hr
    cases hr

theorem init_inv (conf : Conf) (isHost : ℤ) (mem : Bool → Memory) : Inv (init conf isHost mem) := by
  refine tableInit_inv rfl rfl rfl rfl rfl ?_ ?_ rfl rfl
  · show (prepareSampleHeader (segmentCntTable isHost)).bytes.length ≤ 4096
    rw [FileHeader.length_bytes]
    unfold segmentCntTable
    split_ifs
    · decide
    · decide
  · have h4 := conf.four_le
    show 4096 ≤ conf.half
    unfold Conf.half
    omega

end State

/-! ### An exchange -/

namespace State

variable {s s₁ s₂ : State}

/-- The dumper keeps its buffer, and no write is lost. -/
structure Extends (s s' : State) : Prop where
  dumping : s'.dumpingBuffer = s.dumpingBuffer
  writes : s.writes ⊆ s'.writes

theorem Extends.refl (s : State) : Extends s s := ⟨rfl, List.Subset.refl _⟩

theorem Extends.trans (h₁ : Extends s s₁) (h₂ : Extends s₁ s₂) : Extends s s₂ :=
  ⟨h₂.dumping.trans h₁.dumping, List.Subset.trans h₁.writes h₂.writes⟩

theorem extends_put (s : State) (p : Ptr) (bs : List UInt8) : Extends s (s.put p bs) :=
  ⟨rfl, List.subset_cons_self _ _⟩

theorem extends_putHeader (s : State) : Extends s s.putHeader := by
  have hput := s.extends_put s.samplingBuffer (dumpFileHeader s.fileHdr s.samplingBufferSize).1
  unfold putHeader
  dsimp only
  split_ifs
  · exact hput
  · exact ⟨hput.dumping, hput.writes⟩

theorem extends_closeFile (s : State) : Extends s s.closeFile := by
  have hupdate : ∀ p size, Extends s (s.moveTo p size).updateFileSizeForDump := by
    intro p size
    have hput := (s.moveTo p size).extends_put ((s.moveTo p size).fileHdrDumpPtr.add 8)
      (intBytes (s.moveTo p size).dumpFileSize)
    exact ⟨hput.dumping, hput.writes⟩
  have hnew : ∀ s₁ : State, Extends s s₁ → ∀ p size,
      Extends s (putHeader { s₁ with fileHdrDumpPtr := p, dumpFileSize := size }) := by
    intro s₁ h₁ p size
    have hput := extends_putHeader { s₁ with fileHdrDumpPtr := p, dumpFileSize := size }
    exact h₁.trans ⟨hput.dumping, hput.writes⟩
  have hsame := hupdate s.samplingBuffer s.samplingBufferSize
  unfold closeFile
  dsimp only
  split_ifs
  · exact hnew _ (hupdate _ _) _ _
  · exact hupdate _ _
  · exact hnew _ hsame _ _
  · exact hsame

theorem extends_dumpTask {segs : List KvSeg} {cpuId : ℕ} {core : CoreStats} {c c' : Cursor}
    (h : dumpTask segs cpuId core c = .ok c') : Extends c.state c'.state := by
  have hfold : ∀ (l : List KvSeg) (c : Cursor),
      Extends c.state (l.foldl (fun c seg => c.put (dumpCounters core seg c.size)) c).state := by
    intro l
    induction l with
    | nil => exact fun c => Extends.refl _
    | cons seg l ih =>
      intro c
      have hput := extends_put c.state c.buffer (dumpCounters core seg c.size)
      exact hput.trans (ih (c.put (dumpCounters core seg c.size)))
  unfold dumpTask at h
  split_ifs at h
  cases h
  have hmeta := extends_put c.state c.buffer (taskMeta cpuId (segs.map (getNrChunks core)))
  exact hmeta.trans (hfold segs (c.put (taskMeta cpuId (segs.map (getNrChunks core)))))

theorem extends_dumpTasks {segs : List KvSeg} {nrCpu cpuIdx cpuCnt : ℕ}
    {cores : List (Option CoreStats)} {c c' : Cursor}
    (h : dumpTasks segs nrCpu cpuIdx cpuCnt cores c = .ok c') : Extends c.state c'.state := by
  induction cores generalizing cpuIdx cpuCnt c with
  | nil =>
    cases h
    exact Extends.refl _
  | cons o cores ih =>
    cases o with
    | none =>
      unfold dumpTasks at h
      split_ifs at h
      · exact ih h
      · cases h
        exact Extends.refl _
    | some core =>
      unfold dumpTasks at h
      split_ifs at h
      · dsimp only at h
        cases htask : dumpTask segs cpuIdx core c with
        | error s₁ =>
          rw [htask] at h
          cases h
        | ok c₁ =>
          rw [htask] at h
          exact (extends_dumpTask htask).trans (ih h)
      · cases h
        exact Extends.refl _

/-- A sample that gets to its end sets the size where `buffer` points. -/
theorem mem_writes_of_takeSample {buffer : Ptr} {nrCpu : ℕ} {tv : ℤ × ℤ} {s' : State}
    (h : takeSample buffer nrCpu tv s = (s', true)) :
    (⟨buffer, 4, !s.dumpingBuffer⟩ : Write) ∈ s'.writes := by
  unfold takeSample at h
  cases hmeta : dumpSampleMeta nrCpu tv s with
  | none =>
    rw [hmeta] at h
    cases h
  | some s₁ =>
    rw [hmeta] at h
    dsimp only at h
    have hext₁ : Extends s s₁ := by
      unfold dumpSampleMeta at hmeta
      split_ifs at hmeta
      cases hmeta
      have hput := s.extends_put s.samplingBuffer (sampleMeta 16 tv nrCpu)
      exact ⟨hput.dumping, hput.writes⟩
    cases htasks : dumpTasks (dumpedSegs s₁.registry.host s₁.nrSegment) nrCpu 0 0 s₁.registry.cores
        ⟨s₁, s₁.samplingBuffer, s₁.samplingBufferSize⟩ with
    | error s₂ =>
      rw [dumpSampleData, htasks] at h
      cases h
    | ok c =>
      rw [dumpSampleData, htasks] at h
      have hext : Extends s c.state := hext₁.trans (extends_dumpTasks htasks)
      cases h
      rw [← hext.dumping]
      unfold completeSample
      dsimp only
      split_ifs
      · exact (extends_closeFile _).writes List.mem_cons_self
      · exact List.mem_cons_self

theorem dumpingBuffer_nrSample (s : State) (n : ℤ) :
    State.dumpingBuffer { s with nrSample := n } = s.dumpingBuffer := rfl

theorem dumpingBuffer_updateFileSize (s : State) :
    s.updateFileSizeForDump.dumpingBuffer = s.dumpingBuffer := rfl

theorem dumpingBuffer_swapBuffers (s : State) : s.swapBuffers.dumpingBuffer = !s.dumpingBuffer := rfl

theorem dumpingBuffer_exchangeBuffer (s : State) : s.exchangeBuffer.dumpingBuffer = !s.dumpingBuffer := by
  rw [exchangeBuffer, (extends_putHeader _).dumping, dumpingBuffer_swapBuffers,
    dumpingBuffer_updateFileSize]

/-- A call that exchanges the buffers and then takes its sample writes into the buffer that it has
handed over. -/
theorem not_wellFormed_of_exchange {s' : State} {tv : ℤ × ℤ} {ready : List Bool} (h : Inv s)
    (hterm : s.threadTerminate = false) (hrole : s.registry.isHost ≠ -1) (hdue : s.exchangeDue = true)
    (hfits : takeSample s.samplingBuffer s.registry.nrCpu tv { s.exchangeBuffer with nrSample := 0 } =
      (s', true)) :
    s.oneSampling tv (true :: ready) = some s' ∧ ¬ s'.WellFormed := by
  refine ⟨?_, fun hwell => ?_⟩
  · rw [oneSampling, if_neg (Bool.eq_false_iff.1 hterm), if_neg hrole, if_pos hdue, exchangeLoop,
      hfits]
    exact if_pos rfl
  · have hmem := mem_writes_of_takeSample hfits
    rw [dumpingBuffer_nrSample, dumpingBuffer_exchangeBuffer] at hmem
    have hbuf : s.samplingBuffer.buf = !!s.dumpingBuffer := (hwell.inside _ hmem).1
    rw [h.samplingBuf] at hbuf
    exact absurd hbuf (by simp)

end State

/-- Every run of calls that are `Kept`, from any configuration. -/
theorem filesWellFormed_of_run (conf : Conf) (isHost : ℤ) (mem : Bool → Memory) (acts : List Action)
    (h : Run.Admissible step State.Kept (.init conf isHost mem) acts) {s : State}
    (hrun : Run.run step (.init conf isHost mem) acts = some s) : s.WellFormed :=
  (Run.run_inv (fun _ _ _ => State.step_inv) (State.init_inv conf isHost mem) h hrun).toBase.wellFormed

/-- The smallest buffers, with files of a kilobyte, and one sample for each buffer. -/
def smallConf : Conf := ⟨4, 1024, 1, le_rfl, by decide⟩

/-- A target with a core and two devices, and a sample. -/
def oneSample : List Action :=
  [.kvStatsInit 0 false, .targetCall 0 (.getNvme [100] 1), .targetCall 0 (.getNvme [101] 1),
    .oneSampling (0, 0) [true]]

theorem wellFormed_oneSample : ∃ s, Run.run step (.init smallConf 0 fun _ _ => 0) oneSample = some s ∧
    s.finished.length = 1 ∧ s.WellFormed := by
  have hlen : (Run.run step (.init smallConf 0 fun _ _ => 0) oneSample).map (·.finished.length) =
      some 1 := by decide +kernel
  obtain ⟨s, hrun, hfinished⟩ := Option.map_eq_some_iff.1 hlen
  exact ⟨s, hrun, hfinished,
    filesWellFormed_of_run smallConf 0 (fun _ _ => 0) oneSample (by decide +kernel) hrun⟩

/-- With one sample for each buffer, the second call writes into the buffer that it hands over. -/
theorem not_wellFormed_exchange : ¬ ∀ (conf : Conf) (isHost : ℤ) (mem : Bool → Memory)
    (acts : List Action) (s : State),
    Run.run step (.init conf isHost mem) acts = some s → s.WellFormed := by
  intro h
  have hwrites : (Run.run step (.init smallConf 0 fun _ _ => 0)
      (oneSample ++ [.oneSampling (1, 2) [true]])).map
        (fun s => decide ((⟨⟨false, 2500⟩, 4, true⟩ : Write) ∈ s.writes)) = some true := by
    decide +kernel
  obtain ⟨s, hrun, hmem⟩ := Option.map_eq_some_iff.1 hwrites
  have hbuf := ((h _ _ _ _ s hrun).inside _ (of_decide_eq_true hmem)).1
  exact absurd hbuf (by decide)

end DssSdk.Stats
