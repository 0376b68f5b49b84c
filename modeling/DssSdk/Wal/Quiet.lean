import DssSdk.Wal.FlushAccount
import DssSdk.Wal.Service

/-!
# The flusher as it is configured

`wal_cache_flush_spdk_proc` leaves its loop while `nr_pending_io < poll_flush_max_cnt`. With the limit
of 32 that `wal_cache_dev_init` sets, and no I/O under way, it never submits one: no item is ever
`FLUSHING` or `FLUSHED`, no request is sent back for a retry, and the buffers change their roles once.

* `Quiet`: this invariant of a zone;
* `insertObject_cases`, `insertReady_cases`: the ways through `wal_zone_insert_object`;
* `serviceStep_quiet`: every call keeps the invariant.
-/

namespace DssSdk.Wal

open CellMemory TailQueue

/-- No item is flushed, and the flush buffer is unused until the buffers switch. -/
structure Quiet (conf : ZoneConf) (z : Zone) : Prop where
  buf : ∀ id, BufInv conf.toConf true (z.cache id)
  limit : z.pollFlushMaxCnt = 32
  inFlight : z.inFlight = []
  fresh : z.flushDone = true → z.flush.map.table = mapCreate.table

theorem Quiet.log {conf : ZoneConf} {z : Zone} (h : Quiet conf z) :
    BufInv conf.toConf true z.log := h.buf z.logId

theorem Quiet.flush {conf : ZoneConf} {z : Zone} (h : Quiet conf z) :
    BufInv conf.toConf true z.flush := h.buf (!z.logId)

theorem not_holds_of_fresh {buf : Buffer} (h : buf.map.table = mapCreate.table) (ref : ItemRef)
    (it : MapItem) : ¬ buf.Holds ref it := by
  rintro ⟨hit, hlive⟩
  rw [Buffer.item?, h] at hit
  have hmem := List.mem_of_getElem? hit
  simp only [mapCreate, List.mem_cons, List.not_mem_nil, or_false, or_self] at hmem
  exact hlive (by rw [hmem]; rfl)

theorem BufInv.pending_zero {conf : Conf} {buf : Buffer} (h : BufInv conf true buf) :
    buf.nrPendingIo = 0 := by
  rw [h.pending]
  refine countItems_eq_zero rfl fun ref it hit => ?_
  rcases h.logItems rfl ref it hit with hs | hs
  · rw [hs]
    rfl
  · rw [hs]
    rfl

theorem BufInv.setFlushHead {conf : Conf} {buf : Buffer} (h : BufInv conf true buf)
    (o : Option ℕ) : BufInv conf true { buf with map := { buf.map with flushHead := o } } := by
  obtain ⟨l, hl, hmem, -⟩ := h.list
  exact ⟨h.ok, h.inserted, h.pending, h.noDeleted, h.logItems, l, hl, hmem, fun h0 => by cases h0⟩

theorem set_cache (z : Zone) (id : Bool) (buf : Buffer) :
    (z.set id buf).cache = Function.update z.cache id buf := rfl

/-- A change of one buffer. -/
theorem Quiet.set {conf : ZoneConf} {z : Zone} {id : Bool} {buf : Buffer} (h : Quiet conf z)
    (hbuf : BufInv conf.toConf true buf)
    (hfresh : z.flushDone = true → id = !z.logId → buf.map.table = z.flush.map.table) :
    Quiet conf (z.set id buf) := by
  refine ⟨fun id' => ?_, h.limit, h.inFlight, fun hdone => ?_⟩
  · by_cases hid : id' = id
    · subst hid
      rw [set_cache, Function.update_self]
      exact hbuf
    · rw [set_cache, Function.update_of_ne hid]
      exact h.buf id'
  · have hold := h.fresh hdone
    by_cases hid : id = !z.logId
    · subst hid
      rw [set_flush_flush, hfresh hdone rfl]
      exact hold
    · have hne : (!z.logId) ≠ id := Ne.symm hid
      show (Function.update z.cache id buf (!z.logId)).map.table = mapCreate.table
      rw [Function.update_of_ne hne]
      exact hold

theorem Quiet.set_log {conf : ZoneConf} {z : Zone} {buf : Buffer} (h : Quiet conf z)
    (hbuf : BufInv conf.toConf true buf) : Quiet conf (z.set z.logId buf) :=
  h.set hbuf fun _ h0 => absurd h0 (by simp)

/-- The batch size is free. -/
theorem Quiet.batch {conf : ZoneConf} {z : Zone} (h : Quiet conf z) (n : ℕ) :
    Quiet conf { z with logBatchNrObj := n } :=
  ⟨h.buf, h.limit, h.inFlight, h.fresh⟩

theorem Quiet.invalidate_flush {conf : ZoneConf} {z : Zone} {obj : Object} {buf : Buffer}
    {r : Option ItemRef} (h : Quiet conf z)
    (hl : lookup conf.toConf z.flush obj .invalidate = some (buf, r)) :
    BufInv conf.toConf true buf ∧ (z.flushDone = true → buf.map.table = z.flush.map.table) := by
  obtain ⟨buf', r', hl', hinv, -⟩ := h.flush.invalidate obj
  obtain ⟨rfl, rfl⟩ := Prod.mk.inj (Option.some.inj (hl.symm.trans hl'))
  refine ⟨hinv, fun hdone => ?_⟩
  have hmiss : lookup conf.toConf z.flush obj .invalidate = some (z.flush, none) :=
    lookup_miss h.flush.ok
      (fun ref it hit _ => not_holds_of_fresh (h.fresh hdone) ref it hit) (Or.inr (Or.inl rfl))
  obtain ⟨rfl, -⟩ := Prod.mk.inj (Option.some.inj (hl.symm.trans hmiss))
  rfl

theorem flushProc_idle {conf : ZoneConf} {keyBuff : ItemRef → Bool} {z z' : Zone}
    (hidle : z.flush.nrPendingIo < z.pollFlushMaxCnt) (hf : flushProc conf keyBuff z = some z') :
    z' = z := by
  rw [flushProc] at hf
  split_ifs at hf with hdone
  · cases hf
    rfl
  · generalize (z.flush.map.flushHead <|> z.flush.map.queue.first) = o at hf
    cases o with
    | none =>
      cases hfuel : conf.fuel <;>
      · rw [hfuel] at hf
        cases hf
        rfl
    | some i =>
      cases hfuel : conf.fuel with
      | zero =>
        rw [hfuel] at hf
        cases hf
      | succ fuel =>
        rw [hfuel, flushBuckets, if_pos hidle] at hf
        cases hf
        rfl

theorem Quiet.below_limit {conf : ZoneConf} {z : Zone} (h : Quiet conf z) :
    z.flush.nrPendingIo < z.pollFlushMaxCnt := by
  rw [h.limit, h.flush.pending_zero]
  decide

theorem Quiet.flushProc_eq {conf : ZoneConf} {keyBuff : ItemRef → Bool} {z z' : Zone}
    (h : Quiet conf z) (hf : flushProc conf keyBuff z = some z') : z' = z :=
  flushProc_idle h.below_limit hf

theorem Quiet.startFlush {conf : ZoneConf} {z z' : Zone} (h : Quiet conf z)
    (hswitch : z.canSwitch = true) (hstart : startFlush conf z = some z') :
    Quiet conf z' ∧ (∀ ref it, ¬ z'.log.Holds ref it) ∧ z'.flushDone = false := by
  have hfresh := h.fresh (Bool.and_eq_true_iff.1 hswitch).1
  have hnone := not_holds_of_fresh hfresh
  have hzero : z.flush.nrObjectsInserted = 0 := by
    rw [h.flush.inserted]
    exact countItems_eq_zero rfl fun ref it hit => absurd hit (hnone ref it)
  obtain ⟨m, hm, hlog, hflush, hid, hio, hdone, -, hlimit, -⟩ := startFlush_cases hstart
  have hlogInv : BufInv conf.toConf true z'.log := by
    rw [hlog]
    exact h.flush.to_log hzero hm rfl rfl rfl
  have hflushInv : BufInv conf.toConf true z'.flush := by
    rw [hflush]
    exact h.log.setFlushHead none
  refine ⟨⟨fun id => ?_, hlimit.trans h.limit, hio.trans h.inFlight, ?_⟩, ?_, hdone⟩
  · by_cases hlogId : id = z'.logId
    · rw [hlogId]
      exact hlogInv
    · rw [Bool.eq_not_of_ne hlogId]
      exact hflushInv
  · intro h0
    exact absurd (hdone.symm.trans h0) (by decide)
  · intro ref it hit
    rw [hlog] at hit
    exact hnone ref it ((reinit_spec h.flush.ok hm).2 ref it hit)

theorem Quiet.markBatch {conf : ZoneConf} {z : Zone} (h : Quiet conf z) :
    Quiet conf z.markBatch := by
  have hlog : BufInv conf.toConf true { z.log with dumpInfo := z.groupDump } :=
    h.log.of_map rfl rfl rfl
  exact h.set_log hlog

/-! ### `wal_zone_insert_object` -/

/-- The state in which a request with room starts: as it is, or after a switch. -/
inductive Ready (conf : ZoneConf) (z : Zone) (obj : Object) (forDel : Bool) :
    Zone → Option DumpInfo → DumpInfo → Prop
  | room (hroom : isFull conf z obj forDel = false) : Ready conf z obj forDel z none noDump
  | switched {z' : Zone} (hfull : isFull conf z obj forDel = true) (hswitch : z.canSwitch = true)
      (hstart : startFlush conf z.markBatch = some z') :
      Ready conf z obj forDel z' (some z.groupDump)
        (if z.groupDump.dumpBlk ≠ 0 then z.groupDump else noDump)

/-- The ways through `wal_zone_insert_object`. -/
theorem insertObject_cases {conf : ZoneConf} {z : Zone} {obj : Object} {forDel : Bool}
    {out : Inserted} (h : insertObject conf z obj forDel noDump = some out) :
    (∃ z₁ old ret, Ready conf z obj forDel z₁ old ret ∧
        insertReady conf z₁ obj forDel old ret = some out) ∨
      isFull conf z obj forDel = true ∧ z.canSwitch = false ∧
        insertBusy conf z.markBatch obj noDump = some out := by
  have hdump : z.markBatch.log.dumpInfo = z.groupDump := by
    rw [Zone.markBatch, set_log_log]
    rfl
  simp only [insertObject] at h
  by_cases hfull : isFull conf z obj forDel = true
  · rw [if_pos hfull] at h
    by_cases hswitch : z.canSwitch = true
    · rw [if_pos (show z.markBatch.canSwitch = true from hswitch), hdump] at h
      obtain ⟨z₁, hstart, h⟩ := Option.bind_eq_some_iff.1 h
      exact Or.inl ⟨z₁, _, _, .switched hfull hswitch hstart, h⟩
    · rw [if_neg (show ¬ z.markBatch.canSwitch = true from hswitch)] at h
      exact Or.inr ⟨hfull, Bool.eq_false_of_not_eq_true hswitch, h⟩
  · rw [if_neg hfull] at h
    exact Or.inl ⟨z, none, noDump, .room (Bool.eq_false_of_not_eq_true hfull), h⟩

/-- The kind of a store's lookup. -/
def ZoneConf.writeType (conf : ZoneConf) : LookupType :=
  if conf.logEnabled then .writeAppend else .writeInplace

theorem BufInv.invalidate_cases {conf : Conf} {buf buf' : Buffer} {obj : Object}
    {r : Option ItemRef} (h : BufInv conf true buf)
    (hl : lookup conf buf obj .invalidate = some (buf', r)) :
    (r = none ∧ buf' = buf ∧ ∀ ref it, buf.Holds ref it → it.key ≠ obj.key) ∨
      ∃ ref it, r = some ref ∧ buf.Holds ref it ∧ it.key = obj.key ∧
        buf' = invalidated conf buf ref it := by
  rcases lookup_invalidate obj h.ok with ⟨hl', hmiss⟩ | ⟨ref, it, hit, hkey, hl'⟩
  · obtain ⟨rfl, rfl⟩ := Prod.mk.inj (Option.some.inj (hl.symm.trans hl'))
    exact Or.inl ⟨rfl, rfl, hmiss⟩
  · obtain ⟨rfl, rfl⟩ := Prod.mk.inj (Option.some.inj (hl.symm.trans hl'))
    have hne : it.status ≠ .flushing := by
      rcases h.logItems rfl ref it hit with hs | hs
      · rw [hs]
        decide
      · rw [hs]
        decide
    exact Or.inr ⟨ref, it, rfl, hit, hkey, if_neg hne⟩

theorem BufInv.delete_cases {conf : Conf} {buf buf' : Buffer} {obj : Object} {r : Option ItemRef}
    (h : BufInv conf true buf) (hlog : conf.logEnabled = true)
    (hl : lookup conf buf obj .delete = some (buf', r)) :
    (r = none ∧ buf' = buf ∧
        ∀ ref it, buf.Holds ref it → it.key = obj.key → it.status = .deleted) ∨
      ∃ ref it, r = some ref ∧ buf.Holds ref it ∧ it.key = obj.key ∧ it.status = .valid ∧
        buf' = deletedBuf conf buf obj ref it := by
  rcases lookup_delete obj h.ok hlog with ⟨hl', hall⟩ | ⟨ref, it, hit, hkey, hne, hl'⟩
  · obtain ⟨rfl, rfl⟩ := Prod.mk.inj (Option.some.inj (hl.symm.trans hl'))
    exact Or.inl ⟨rfl, rfl, hall⟩
  · obtain ⟨rfl, rfl⟩ := Prod.mk.inj (Option.some.inj (hl.symm.trans hl'))
    exact Or.inr ⟨ref, it, rfl, hit, hkey, (h.logItems rfl ref it hit).resolve_right hne, rfl⟩

theorem item_replace {buf buf' : Buffer} {ref : ItemRef} {it it' : MapItem} {v : ℤ}
    (hit : buf.item? ref = some it)
    (htable : buf'.map.table = Function.update buf.map.table ref.bucket
      ((buf.map.table ref.bucket).replace ref.index it' v)) : buf'.item? ref = some it' := by
  obtain ⟨hlt, -⟩ := List.getElem?_eq_some_iff.1 hit
  rw [Buffer.item?, htable, Function.update_self]
  exact List.getElem?_set_self hlt

theorem BufInv.invalidate_status {conf : Conf} {buf buf' : Buffer} {obj : Object} {ref : ItemRef}
    (h : BufInv conf true buf) (hl : lookup conf buf obj .invalidate = some (buf', some ref)) :
    buf'.statusOf ref = some .invalid := by
  rcases h.invalidate_cases hl with ⟨h0, -⟩ | ⟨ref', it, href, hit, -, rfl⟩
  · cases h0
  · obtain rfl := Option.some.inj href
    have hitem : (invalidated conf buf ref it).item? ref = some { it with status := .invalid } :=
      item_replace hit.1 rfl
    rw [Buffer.statusOf, hitem]
    rfl

theorem insertStore_cases {conf : ZoneConf} {z : Zone} {obj : Object} {old : Option DumpInfo}
    {ret : DumpInfo} {out : Inserted} (h : insertReady conf z obj false old ret = some out) :
    ∃ log ref, lookup conf.toConf z.log obj conf.writeType = some (log, some ref) ∧
      out.rc = .success ∧ out.item = some (z.logId, ref) ∧
      (conf.logEnabled = true ∧
          joinGroup conf (z.set z.logId log) obj false old ret = some (out.zone, out.dump) ∨
        conf.logEnabled = false ∧ out.zone = z.set z.logId log ∧ out.dump = ret) := by
  simp only [insertReady, insertStore, Bool.false_eq_true, if_false] at h
  obtain ⟨⟨log, cached⟩, hl, h⟩ := Option.bind_eq_some_iff.1 h
  obtain ⟨ref, rfl, h⟩ := Option.bind_eq_some_iff.1 h
  refine ⟨log, ref, hl, ?_⟩
  split_ifs at h with hlog
  · obtain ⟨⟨z', dump⟩, hj, rfl⟩ := Option.map_eq_some_iff.1 h
    exact ⟨rfl, rfl, Or.inl ⟨hlog, hj⟩⟩
  · cases h
    exact ⟨rfl, rfl, Or.inr ⟨Bool.eq_false_of_not_eq_true hlog, rfl, rfl⟩⟩

/-- Both lookups of a deletion, and the zone after them. -/
structure Looked (conf : ZoneConf) (z : Zone) (obj : Object) (ty : LookupType) (log flush : Buffer)
    (inLog inFlush : Option ItemRef) : Prop where
  log : lookup conf.toConf z.log obj ty = some (log, inLog)
  flush : lookup conf.toConf z.flush obj .invalidate = some (flush, inFlush)

theorem insertDelete_cases {conf : ZoneConf} {z : Zone} {obj : Object} {old : Option DumpInfo}
    {ret : DumpInfo} {out : Inserted} (hq : Quiet conf z)
    (h : insertReady conf z obj true old ret = some out) :
    conf.logEnabled = true ∧ ∃ log flush inLog inFlush,
      Looked conf z obj .delete log flush inLog inFlush ∧
      ((∃ ref, inLog = some ref ∧ out.rc = .deleteSuccess ∧ out.item = some (z.logId, ref) ∧
          joinGroup conf ((z.set z.logId log).set (!z.logId) flush) obj true old ret =
            some (out.zone, out.dump)) ∨
        inLog = none ∧ out.zone = (z.set z.logId log).set (!z.logId) flush ∧
          ((∃ ref, inFlush = some ref ∧ out.rc = .deleteSuccess ∧
              out.item = some (!z.logId, ref) ∧
              out.dump = { ret with dumpFlags := { ret.dumpFlags with single := true } }) ∨
            inFlush = none ∧ out.rc = .deleteMiss ∧ out.item = none ∧ out.dump = ret)) := by
  simp only [insertReady, insertDelete, if_true] at h
  split_ifs at h with hlog
  obtain ⟨⟨log, inLog⟩, hl, h⟩ := Option.bind_eq_some_iff.1 h
  obtain ⟨⟨flush, inFlush⟩, hf, h⟩ := Option.bind_eq_some_iff.1 h
  refine ⟨hlog, log, flush, inLog, inFlush, ⟨hl, hf⟩, ?_⟩
  have hstatus : ∀ ref, inFlush = some ref → flush.statusOf ref = some .invalid := by
    rintro ref rfl
    exact hq.flush.invalidate_status hf
  dsimp only at h
  cases inFlush with
  | some ref' =>
    have hinvalid := not_not.2 (hstatus ref' rfl)
    cases inLog with
    | some ref =>
      obtain ⟨⟨z', dump⟩, hj, rfl⟩ := Option.map_eq_some_iff.1 h
      exact Or.inl ⟨ref, rfl, if_neg hinvalid, rfl, hj⟩
    | none =>
      cases h
      exact Or.inr ⟨rfl, rfl, Or.inl ⟨ref', rfl, if_neg hinvalid, rfl, rfl⟩⟩
  | none =>
    cases inLog with
    | some ref =>
      obtain ⟨⟨z', dump⟩, hj, rfl⟩ := Option.map_eq_some_iff.1 h
      exact Or.inl ⟨ref, rfl, rfl, rfl, hj⟩
    | none =>
      cases h
      exact Or.inr ⟨rfl, rfl, Or.inr ⟨rfl, rfl, rfl, rfl⟩⟩

theorem insertBusy_cases {conf : ZoneConf} {z : Zone} {obj : Object} {out : Inserted}
    (hq : Quiet conf z) (h : insertBusy conf z obj noDump = some out) :
    ∃ log flush inLog inFlush, Looked conf z obj .invalidate log flush inLog inFlush ∧
      out.zone = (z.set z.logId log).set (!z.logId) flush ∧ out.rc = .writeMiss ∧
      out.item = (inLog.map fun ref => (z.logId, ref)).or
        (inFlush.map fun ref => (!z.logId, ref)) ∧
      out.dump = if out.item.isSome then { noDump with dumpFlags := ⟨false, true⟩ } else noDump := by
  obtain ⟨⟨log, inLog⟩, hl, h⟩ := Option.bind_eq_some_iff.1 h
  obtain ⟨⟨flush, inFlush⟩, hf, rfl⟩ := Option.map_eq_some_iff.1 h
  refine ⟨log, flush, inLog, inFlush, ⟨hl, hf⟩, rfl, ?_⟩
  have hflushing : ¬ inFlush.bind flush.statusOf = some .flushing := by
    cases inFlush with
    | none => exact fun h0 => by cases h0
    | some ref =>
      rw [Option.bind_some, hq.flush.invalidate_status hf]
      decide
  refine ⟨if_neg hflushing, ?_, rfl⟩
  cases inLog with
  | some ref => rfl
  | none => exact if_neg hflushing

/-- A request joins the dump group. -/
def Buffer.joined (buf : Buffer) (obj : Object) (forDel : Bool) (reqs : List ℕ) : Buffer :=
  { buf with
    dumpInfo := { buf.dumpInfo with dumpBlk := buf.dumpInfo.dumpBlk + objectDumpBlk obj forDel }
    mem := modify buf.mem buf.dumpInfo.dumpAddr fun _ => .dumpHdr (reqs ++ [obj.req]) }

/-- The dump group is marked for a dump. -/
def Buffer.marked (buf : Buffer) : Buffer :=
  { buf with
    dumpInfo := { buf.dumpInfo with dumpFlags := { buf.dumpInfo.dumpFlags with batch := true } } }

/-- A request joins the group, which may be full then. A new group is only made without a switch. -/
theorem joinGroup_cases {conf : ZoneConf} {z z' : Zone} {obj : Object} {forDel : Bool}
    {old : Option DumpInfo} {ret dump : DumpInfo}
    (h : joinGroup conf z obj forDel old ret = some (z', dump)) :
    ∃ n reqs, z.log.mem z.log.dumpInfo.dumpAddr = some (n, .dumpHdr reqs) ∧
      (z.logBatchNrObj ≤ reqs.length + 1 ∧
          z' = { z.set z.logId (if old.isSome then (z.log.joined obj forDel reqs).marked
              else (z.log.joined obj forDel reqs).marked.newGroup z.logId) with
            logBatchNrObj := min (z.logBatchNrObj + conf.batchNrObjAdjust) conf.batchNrObj } ∧
          dump = (z.log.joined obj forDel reqs).marked.dumpInfo ∨
        reqs.length + 1 < z.logBatchNrObj ∧ z' = z.set z.logId (z.log.joined obj forDel reqs) ∧
          dump = old.elim ret fun o => if o.dumpBlk ≠ 0 then o else ret) := by
  simp only [joinGroup] at h
  split at h
  · rename_i n reqs hmem
    refine ⟨n, reqs, hmem, ?_⟩
    rw [List.length_append, List.length_singleton] at h
    split at h
    · cases h
    by_cases hfull : z.logBatchNrObj ≤ reqs.length + 1
    · rw [if_pos hfull] at h
      cases h
      exact Or.inl ⟨hfull, rfl, rfl⟩
    · rw [if_neg hfull] at h
      cases h
      refine Or.inr ⟨not_le.1 hfull, rfl, ?_⟩
      cases old with
      | none => rfl
      | some o => rfl
  · cases h

/-! ### The calls keep the invariant -/

theorem joinGroup_quiet {conf : ZoneConf} {z z' : Zone} {obj : Object} {forDel : Bool}
    {old : Option DumpInfo} {ret dump : DumpInfo} (hq : Quiet conf z)
    (h : joinGroup conf z obj forDel old ret = some (z', dump)) : Quiet conf z' := by
  obtain ⟨n, reqs, -, ⟨-, rfl, -⟩ | ⟨-, rfl, -⟩⟩ := joinGroup_cases h
  · have hlog : BufInv conf.toConf true (z.log.joined obj forDel reqs).marked :=
      hq.log.of_map rfl rfl rfl
    refine (hq.set_log ?_).batch _
    split_ifs
    · exact hlog
    · exact hlog.newGroup z.logId
  · exact hq.set_log (hq.log.of_map rfl rfl rfl)

theorem Looked.quiet {conf : ZoneConf} {z : Zone} {obj : Object} {ty : LookupType}
    {log flush : Buffer} {inLog inFlush : Option ItemRef}
    (h : Looked conf z obj ty log flush inLog inFlush) (hq : Quiet conf z)
    (hlog : BufInv conf.toConf true log) :
    Quiet conf ((z.set z.logId log).set (!z.logId) flush) := by
  obtain ⟨hflush, hfresh⟩ := hq.invalidate_flush h.flush
  refine (hq.set_log hlog).set hflush fun hdone _ => ?_
  rw [set_log_flush]
  exact hfresh hdone

theorem BufInv.of_lookup {conf : Conf} {buf buf' : Buffer} {obj : Object} {ty : LookupType}
    {r : Option ItemRef} (h : BufInv conf true buf)
    (hty : ty = .invalidate ∨ ty = .delete ∧ conf.logEnabled = true ∨
      ty = if conf.logEnabled then .writeAppend else .writeInplace)
    (hl : lookup conf buf obj ty = some (buf', r)) : BufInv conf true buf' := by
  rcases hty with rfl | ⟨rfl, hlog⟩ | rfl
  · obtain ⟨buf₁, r₁, hl', hinv, -⟩ := h.invalidate obj
    obtain ⟨rfl, rfl⟩ := Prod.mk.inj (Option.some.inj (hl.symm.trans hl'))
    exact hinv
  · obtain ⟨buf₁, r₁, hl', hinv⟩ := h.delete obj hlog
    obtain ⟨rfl, rfl⟩ := Prod.mk.inj (Option.some.inj (hl.symm.trans hl'))
    exact hinv
  · obtain ⟨buf₁, r₁, hl', hinv⟩ := h.write obj
    obtain ⟨rfl, rfl⟩ := Prod.mk.inj (Option.some.inj (hl.symm.trans hl'))
    exact hinv

theorem Ready.quiet {conf : ZoneConf} {z z' : Zone} {obj : Object} {forDel : Bool}
    {old : Option DumpInfo} {ret : DumpInfo} (h : Ready conf z obj forDel z' old ret)
    (hq : Quiet conf z) : Quiet conf z' := by
  cases h with
  | room hroom => exact hq
  | switched hfull hswitch hstart => exact (hq.markBatch.startFlush hswitch hstart).1

/-- The results of `wal_zone_insert_object` where nothing is flushed. -/
def InsertRc (forDel : Bool) (rc : Rc) : Prop :=
  rc = .writeMiss ∨
    forDel = true ∧ (rc = .deleteSuccess ∨ rc = .deleteMiss) ∨ forDel = false ∧ rc = .success

theorem InsertRc.ne_retry {forDel : Bool} {rc : Rc} (h : InsertRc forDel rc) : rc ≠ .ioRetry := by
  rcases h with rfl | ⟨-, rfl | rfl⟩ | ⟨-, rfl⟩ <;> decide

theorem InsertRc.ne_success {rc : Rc} (h : InsertRc true rc) : rc ≠ .success := by
  rcases h with rfl | ⟨-, rfl | rfl⟩ | ⟨h0, -⟩
  · decide
  · decide
  · decide
  · cases h0

/-- `wal_zone_insert_object` asks for no retry. -/
theorem insertObject_quiet {conf : ZoneConf} {z : Zone} {obj : Object} {forDel : Bool}
    {out : Inserted} (hq : Quiet conf z) (h : insertObject conf z obj forDel noDump = some out) :
    Quiet conf out.zone ∧ InsertRc forDel out.rc := by
  rcases insertObject_cases h with ⟨z₁, old, ret, hready, hins⟩ | ⟨-, -, hbusy⟩
  · have hq₁ := hready.quiet hq
    cases forDel with
    | false =>
      obtain ⟨log, ref, hl, hrc, -, hrest⟩ := insertStore_cases hins
      have hq₂ := hq₁.set_log (hq₁.log.of_lookup (Or.inr (Or.inr rfl)) hl)
      refine ⟨?_, Or.inr (Or.inr ⟨rfl, hrc⟩)⟩
      rcases hrest with ⟨-, hj⟩ | ⟨-, hz, -⟩
      · exact joinGroup_quiet hq₂ hj
      · rw [hz]
        exact hq₂
    | true =>
      obtain ⟨hlog, log, flush, inLog, inFlush, hlooked, hrest⟩ := insertDelete_cases hq₁ hins
      have hq₂ := hlooked.quiet hq₁ (hq₁.log.of_lookup (Or.inr (Or.inl ⟨rfl, hlog⟩)) hlooked.log)
      rcases hrest with ⟨ref, -, hrc, -, hj⟩ | ⟨-, hz, ⟨ref, -, hrc, -⟩ | ⟨-, hrc, -⟩⟩
      · exact ⟨joinGroup_quiet hq₂ hj, Or.inr (Or.inl ⟨rfl, Or.inl hrc⟩)⟩
      · exact ⟨hz ▸ hq₂, Or.inr (Or.inl ⟨rfl, Or.inl hrc⟩)⟩
      · exact ⟨hz ▸ hq₂, Or.inr (Or.inl ⟨rfl, Or.inr hrc⟩)⟩
  · obtain ⟨log, flush, inLog, inFlush, hlooked, hz, hrc, -⟩ := insertBusy_cases hq.markBatch hbusy
    have hq₂ := hlooked.quiet hq.markBatch (hq.markBatch.log.of_lookup (Or.inl rfl) hlooked.log)
    exact ⟨hz ▸ hq₂, Or.inl hrc⟩

theorem pollZone_cases {conf : ZoneConf} {z z' : Zone} {ans : PollAnswers} {dumps : List DumpInfo}
    (hq : Quiet conf z) (h : pollZone conf ans z = some (z', dumps)) :
    (conf.periodicFlush = true ∧ ans.flushPeriod = true ∧ z.canSwitch = true ∧
        z.log.nrObjectsInserted ≠ 0 ∧
        ∃ z₁, startFlush conf z = some z₁ ∧
          (z' = z₁ ∨ z.log.dumpInfo.dumpBlk = 0 ∧
            z' = { z₁ with logBatchNrObj := conf.batchNrObj }) ∧
          dumps = if z.log.dumpInfo.dumpBlk ≠ 0 then [z.groupDump] else []) ∨
      (z.log.dumpInfo.dumpBlk ≠ 0 ∧ ans.dumpTimeout = true ∧ dumps = [z.groupDump] ∧
        (z.log.newGroup z.logId).currPos < z.log.endAddr ∧
        ∃ n, 0 < n ∧ (n = 1 ∨ n ≤ z.logBatchNrObj) ∧
          z' = { z.set z.logId (z.log.newGroup z.logId) with logBatchNrObj := n }) ∨
      dumps = [] ∧ (z' = z ∨ z.log.dumpInfo.dumpBlk = 0 ∧
        z' = { z with logBatchNrObj := conf.batchNrObj }) := by
  simp only [pollZone] at h
  by_cases hperiod : (conf.periodicFlush && z.canSwitch && ans.flushPeriod &&
      decide (z.log.nrObjectsInserted ≠ 0)) = true
  · rw [if_pos hperiod] at h
    simp only [Bool.and_eq_true, decide_eq_true_eq] at hperiod
    obtain ⟨⟨⟨hconf, hswitch⟩, hans⟩, hwork⟩ := hperiod
    obtain ⟨z₁, hstart, h⟩ := Option.bind_eq_some_iff.1 h
    obtain ⟨z₂, hflush, hout⟩ := Option.map_eq_some_iff.1 h
    obtain rfl := (hq.startFlush hswitch hstart).1.flushProc_eq hflush
    obtain ⟨rfl, rfl⟩ := Prod.mk.inj hout
    refine Or.inl ⟨hconf, hans, hswitch, hwork, z₂, hstart, ?_, rfl⟩
    split_ifs with hidle
    · exact Or.inr ⟨hidle.1, rfl⟩
    · exact Or.inl rfl
  · rw [if_neg hperiod] at h
    obtain ⟨z₁, hflush, hout⟩ := Option.bind_eq_some_iff.1 h
    rw [hq.flushProc_eq hflush] at hout
    split_ifs at hout with htimeout hroom hnr hidle
    · cases hout
      exact Or.inr (Or.inl ⟨htimeout.1, htimeout.2, rfl, hroom, 1, Nat.one_pos, Or.inl rfl, rfl⟩)
    · cases hout
      exact Or.inr (Or.inl ⟨htimeout.1, htimeout.2, rfl, hroom, _, Nat.pos_of_ne_zero hnr,
        Or.inr (Nat.sub_le _ _), rfl⟩)
    · cases hout
      exact Or.inr (Or.inr ⟨rfl, Or.inr ⟨hidle.1, rfl⟩⟩)
    · cases hout
      exact Or.inr (Or.inr ⟨rfl, Or.inl rfl⟩)

theorem pollZone_quiet {conf : ZoneConf} {z z' : Zone} {ans : PollAnswers} {dumps : List DumpInfo}
    (hq : Quiet conf z) (h : pollZone conf ans z = some (z', dumps)) : Quiet conf z' := by
  rcases pollZone_cases hq h with ⟨-, -, hswitch, -, z₁, hstart, rfl | ⟨-, rfl⟩, -⟩ |
    ⟨-, -, -, -, n, -, -, rfl⟩ | ⟨-, rfl | ⟨-, rfl⟩⟩
  · exact (hq.startFlush hswitch hstart).1
  · exact (hq.startFlush hswitch hstart).1.batch _
  · exact (hq.set_log (hq.log.newGroup z.logId)).batch n
  · exact hq
  · exact hq.batch _

theorem logInsertObject_same {s s' : Service} {obj : Option Object}
    {item : Option (Bool × ItemRef)} {forDel : Bool} {dump : DumpInfo}
    (h : logInsertObject s obj item forDel dump = some s') :
    s'.zone = s.zone ∧ s'.wpQueue = s.wpQueue ∧ s'.accepted = s.accepted ∧
      s'.completed = s.completed := by
  rw [logInsertObject] at h
  split_ifs at h
  · cases h
    exact ⟨rfl, rfl, rfl, rfl⟩
  · obtain ⟨⟨s₁, n₁⟩, hb, h⟩ := Option.bind_eq_some_iff.1 h
    obtain ⟨⟨s₂, n₂⟩, hs, rfl⟩ := Option.map_eq_some_iff.1 h
    have h₁ : s₁.zone = s.zone ∧ s₁.wpQueue = s.wpQueue ∧ s₁.accepted = s.accepted ∧
        s₁.completed = s.completed := by
      rw [dumpBatch] at hb
      split_ifs at hb
      · obtain ⟨reqs, -, hb⟩ := Option.map_eq_some_iff.1 hb
        split_ifs at hb
        · cases hb
          exact ⟨rfl, rfl, rfl, rfl⟩
        · cases hb
          exact ⟨rfl, rfl, rfl, rfl⟩
      · cases hb
        exact ⟨rfl, rfl, rfl, rfl⟩
    rw [dumpSingle] at hs
    split_ifs at hs
    · obtain ⟨o, -, hs⟩ := Option.bind_eq_some_iff.1 hs
      obtain ⟨it, -, hs⟩ := Option.bind_eq_some_iff.1 hs
      obtain ⟨r, -, hs⟩ := Option.map_eq_some_iff.1 hs
      cases hs
      exact h₁
    · cases hs
      exact h₁

theorem handleDelete_cases {conf : ZoneConf} {s : Service} {obj : Object} {hd : Handled}
    (hq : Quiet conf s.zone) (h : handleDelete conf s obj = some hd) :
    (conf.logEnabled = true ∧ ∃ out, insertObject conf s.zone obj true noDump = some out ∧
        ((out.item.isSome = true ∨ out.dump.dumpFlags.batch = true) ∧
            logInsertObject { s with zone := out.zone } (some obj) out.item true out.dump =
              some hd.service ∧
            hd.rc = (if out.rc = .deleteMiss then .deleteMiss else .deletePending) ∨
          out.item = none ∧ out.dump.dumpFlags.batch = false ∧
            hd.service = { s with zone := out.zone } ∧
            hd.rc = if out.rc = .writeMiss then .deleteSuccess else out.rc)) ∨
      conf.logEnabled = false ∧
        invalidateBoth conf s.zone obj = some (hd.service.zone, hd.rc) ∧
        hd.service = { s with zone := hd.service.zone } := by
  rw [handleDelete] at h
  split_ifs at h with hlog
  · refine Or.inl ⟨hlog, ?_⟩
    obtain ⟨out, hins, h⟩ := Option.bind_eq_some_iff.1 h
    obtain ⟨-, hout⟩ := insertObject_quiet hq hins
    refine ⟨out, hins, ?_⟩
    have hrc : (if out.rc = .writeMiss then Rc.deleteSuccess else out.rc) ≠ .success ∧
        (if out.rc = .writeMiss then Rc.deleteSuccess else out.rc) ≠ .ioRetry ∧
        ((if out.rc = .writeMiss then Rc.deleteSuccess else out.rc) = .deleteMiss ↔
          out.rc = .deleteMiss) := by
      by_cases hmiss : out.rc = .writeMiss
      · rw [if_pos hmiss, hmiss]
        decide
      · rw [if_neg hmiss]
        exact ⟨hout.ne_success, hout.ne_retry, Iff.rfl⟩
    dsimp only at h
    rw [if_neg (fun h0 => hrc.1 h0.1)] at h
    by_cases hdump : out.item.isSome = true ∨ out.dump.dumpFlags.batch = true
    · rw [if_pos ⟨hrc.2.1, hdump⟩] at h
      obtain ⟨s₂, hlogged, rfl⟩ := Option.map_eq_some_iff.1 h
      refine Or.inl ⟨hdump, hlogged, ?_⟩
      simp only [hrc.2.2]
    · rw [if_neg (fun h0 => hdump h0.2)] at h
      cases h
      push Not at hdump
      exact Or.inr ⟨Option.not_isSome_iff_eq_none.1 hdump.1, Bool.eq_false_of_not_eq_true hdump.2,
        rfl, rfl⟩
  · obtain ⟨⟨z, rc⟩, hinv, rfl⟩ := Option.map_eq_some_iff.1 h
    exact Or.inr ⟨Bool.eq_false_of_not_eq_true hlog, hinv, rfl⟩

theorem handleStore_cases {conf : ZoneConf} {s : Service} {obj : Object} {hd : Handled}
    (hq : Quiet conf s.zone) (hsmall : obj.val.length < conf.objectSizeLimit)
    (h : handleStore conf s obj = some hd) :
    ∃ out, insertObject conf s.zone obj false noDump = some out ∧
      ((conf.logEnabled = false ∨ out.item = none) ∧ hd.service = { s with zone := out.zone } ∧
          hd.rc = out.rc ∧ hd.writeMiss = false ∨
        conf.logEnabled = true ∧ out.rc = .success ∧ out.dump.dumpFlags = dumpNotReady ∧
          hd.service = { s with zone := out.zone } ∧ hd.rc = .logPending ∧ hd.writeMiss = false ∨
        conf.logEnabled = true ∧ out.item.isSome = true ∧
          logInsertObject { s with zone := out.zone } (some obj) out.item false out.dump =
            some hd.service ∧
          hd.rc = (if out.rc = .success ∨ out.rc = .writeMiss then .logPending else out.rc) ∧
          hd.writeMiss = decide (out.rc = .writeMiss)) := by
  rw [handleStore, if_neg (not_le.2 hsmall)] at h
  obtain ⟨out, hins, h⟩ := Option.bind_eq_some_iff.1 h
  have hretry := (insertObject_quiet hq hins).2.ne_retry
  refine ⟨out, hins, ?_⟩
  dsimp only at h
  by_cases hlog : conf.logEnabled = false
  · rw [if_pos hlog] at h
    cases h
    exact Or.inl ⟨Or.inl hlog, rfl, rfl, rfl⟩
  · rw [if_neg hlog] at h
    have hlog' := Bool.eq_true_of_not_eq_false hlog
    by_cases hwait : out.rc = .success ∧ out.dump.dumpFlags = dumpNotReady
    · rw [if_pos hwait] at h
      cases h
      exact Or.inr (Or.inl ⟨hlog', hwait.1, hwait.2, rfl, rfl, rfl⟩)
    · rw [if_neg hwait] at h
      by_cases hitem : out.item.isSome = true
      · rw [if_pos ⟨hitem, hretry⟩] at h
        obtain ⟨s₂, hlogged, rfl⟩ := Option.map_eq_some_iff.1 h
        exact Or.inr (Or.inr ⟨hlog', hitem, hlogged, rfl, rfl⟩)
      · rw [if_neg (fun h0 => hitem h0.1)] at h
        cases h
        exact Or.inl ⟨Or.inr (Option.not_isSome_iff_eq_none.1 hitem), rfl, rfl, rfl⟩

theorem invalidateBoth_cases {conf : ZoneConf} {z z' : Zone} {obj : Object} {rc : Rc}
    (hq : Quiet conf z) (h : invalidateBoth conf z obj = some (z', rc)) :
    rc = .deleteSuccess ∧ ∃ log flush inLog inFlush,
      Looked conf z obj .invalidate log flush inLog inFlush ∧
        z' = (z.set z.logId log).set (!z.logId) flush := by
  obtain ⟨⟨log, inLog⟩, hl, h⟩ := Option.bind_eq_some_iff.1 h
  obtain ⟨⟨flush, inFlush⟩, hf, hout⟩ := Option.map_eq_some_iff.1 h
  dsimp only at hout
  cases inFlush with
  | none =>
    cases hout
    exact ⟨rfl, log, flush, inLog, none, ⟨hl, hf⟩, rfl⟩
  | some ref =>
    obtain ⟨rfl, rfl⟩ := Prod.mk.inj hout
    exact ⟨if_neg (not_not.2 (hq.flush.invalidate_status hf)), log, flush, inLog, some ref, ⟨hl, hf⟩,
      rfl⟩

theorem handle_quiet {conf : ZoneConf} {s : Service} {req : Request} {hd : Handled}
    (hq : Quiet conf s.zone) (h : handle conf s req = some hd) :
    Quiet conf hd.service.zone ∧ hd.rc ≠ .ioRetry ∧ hd.service.wpQueue = s.wpQueue ∧
      hd.service.accepted = s.accepted ∧ hd.service.completed = s.completed := by
  have hdelete : ∀ {hd : Handled}, handleDelete conf s req.obj = some hd →
      Quiet conf hd.service.zone ∧ hd.rc ≠ .ioRetry ∧ hd.service.wpQueue = s.wpQueue ∧
        hd.service.accepted = s.accepted ∧ hd.service.completed = s.completed := by
    intro hd h
    rcases handleDelete_cases hq h with ⟨-, out, hins, hrest⟩ | ⟨-, hinv, hs⟩
    · obtain ⟨hq', hout⟩ := insertObject_quiet hq hins
      have hretry := hout.ne_retry
      rcases hrest with ⟨-, hlogged, hrc⟩ | ⟨-, -, hs, hrc⟩
      · obtain ⟨hz, hsame⟩ := logInsertObject_same hlogged
        refine ⟨hz ▸ hq', ?_, hsame⟩
        rw [hrc]
        split_ifs <;> decide
      · refine ⟨hs ▸ hq', ?_, by rw [hs], by rw [hs], by rw [hs]⟩
        rw [hrc]
        split_ifs
        · decide
        · exact hretry
    · obtain ⟨hrc, log, flush, inLog, inFlush, hlooked, hz⟩ := invalidateBoth_cases hq hinv
      refine ⟨?_, by rw [hrc]; decide, by rw [hs], by rw [hs], by rw [hs]⟩
      rw [hz]
      exact hlooked.quiet hq (hq.log.of_lookup (Or.inl rfl) hlooked.log)
  rw [handle] at h
  cases hop : req.op with
  | delete =>
    rw [hop] at h
    exact hdelete h
  | store =>
    rw [hop] at h
    by_cases hsmall : req.obj.val.length < conf.objectSizeLimit
    · obtain ⟨out, hins, hrest⟩ := handleStore_cases hq hsmall h
      obtain ⟨hq', hout⟩ := insertObject_quiet hq hins
      have hretry := hout.ne_retry
      rcases hrest with ⟨-, hs, hrc, -⟩ | ⟨-, -, -, hs, hrc, -⟩ | ⟨-, -, hlogged, hrc, -⟩
      · exact ⟨hs ▸ hq', hrc ▸ hretry, by rw [hs], by rw [hs], by rw [hs]⟩
      · exact ⟨hs ▸ hq', by rw [hrc]; decide, by rw [hs], by rw [hs], by rw [hs]⟩
      · obtain ⟨hz, hsame⟩ := logInsertObject_same hlogged
        refine ⟨hz ▸ hq', ?_, hsame⟩
        rw [hrc]
        split_ifs
        · decide
        · exact hretry
    · have hlarge : handleStore conf s req.obj = handleDelete conf s req.obj := by
        rw [handleStore, if_pos (not_lt.1 hsmall)]
      exact hdelete (hlarge ▸ h)

theorem serve_cases {conf : ZoneConf} {s s' : Service} {req : Request} (hq : Quiet conf s.zone)
    (h : serve conf s req = some s') :
    ∃ hd, handle conf s req = some hd ∧ s' = { hd.service with
      accepted := ⟨req, hd.rc, hd.writeMiss⟩ :: s.accepted } := by
  obtain ⟨hd, hh, rfl⟩ := Option.map_eq_some_iff.1 h
  obtain ⟨-, hretry, -, hacc, -⟩ := handle_quiet hq hh
  refine ⟨hd, hh, ?_⟩
  rw [if_neg hretry, hacc]

theorem dumpObjs_same {s s' : Service} {dumps : List DumpInfo} (h : dumpObjs s dumps = some s') :
    s'.zone = s.zone ∧ s'.wpQueue = s.wpQueue ∧ s'.accepted = s.accepted ∧
      s'.completed = s.completed := by
  induction dumps generalizing s with
  | nil =>
    cases h
    exact ⟨rfl, rfl, rfl, rfl⟩
  | cons dump dumps ih =>
    obtain ⟨s₁, hlogged, hrest⟩ := Option.bind_eq_some_iff.1 h
    obtain ⟨h1, h2, h3, h4⟩ := logInsertObject_same hlogged
    obtain ⟨g1, g2, g3, g4⟩ := ih hrest
    exact ⟨g1.trans h1, g2.trans h2, g3.trans h3, g4.trans h4⟩

/-- The state with the quiet zone: no request waits for a retry. -/
structure QuietService (conf : ZoneConf) (s : Service) : Prop where
  zone : Quiet conf s.zone
  queue : s.wpQueue = []

theorem pollService_cases {conf : ZoneConf} {s s' : Service} {ans : PollAnswers}
    (hq : QuietService conf s) (h : pollService conf ans s = some s') :
    ∃ z dumps, pollZone conf ans s.zone = some (z, dumps) ∧
      dumpObjs { s with zone := z } dumps = some s' := by
  obtain ⟨⟨z, dumps⟩, hp, h⟩ := Option.bind_eq_some_iff.1 h
  obtain ⟨s₁, hd, hout⟩ := Option.bind_eq_some_iff.1 h
  refine ⟨z, dumps, hp, ?_⟩
  rw [(dumpObjs_same hd).2.1, show ({ s with zone := z } : Service).wpQueue = [] from hq.queue]
    at hout
  rw [hd]
  exact hout

/-- One call keeps the invariant. -/
theorem serviceStep_quiet {conf : ZoneConf} {s s' : Service} {ev : ServiceEvent}
    (hq : QuietService conf s) (hstep : serviceStep conf s ev = some s') :
    QuietService conf s' := by
  cases ev with
  | request req =>
    obtain ⟨hd, hh, rfl⟩ := serve_cases hq.zone hstep
    obtain ⟨hzone, -, hqueue, -⟩ := handle_quiet hq.zone hh
    exact ⟨hzone, hqueue.trans hq.queue⟩
  | retrieve obj =>
    obtain ⟨⟨z, found⟩, hr, rfl⟩ := Option.map_eq_some_iff.1 hstep
    obtain rfl := retrieve_same hq.zone.log.ok hq.zone.flush.ok hr
    exact hq
  | poll ans =>
    obtain ⟨z, dumps, hp, hd⟩ := pollService_cases hq hstep
    obtain ⟨hzone, hqueue, -⟩ := dumpObjs_same hd
    exact ⟨hzone ▸ pollZone_quiet hq.zone hp, hqueue.trans hq.queue⟩
  | flushComplete n =>
    obtain ⟨z, hf, rfl⟩ := Option.map_eq_some_iff.1 hstep
    rw [flushComplete, hq.zone.inFlight] at hf
    cases hf
    exact hq
  | logComplete n =>
    have hlog : Wal.logComplete s n = some s' := hstep
    rw [Wal.logComplete] at hlog
    split at hlog
    · cases hlog
      exact hq
    · rename_i id addr hn
      obtain ⟨reqs, -, rfl⟩ := Option.map_eq_some_iff.1 hlog
      refine ⟨hq.zone.set ((hq.zone.buf id).of_map rfl rfl rfl) ?_, hq.queue⟩
      rintro - rfl
      rfl
    · cases hlog
      exact ⟨hq.zone, hq.queue⟩

theorem quietService_create (conf : ZoneConf) (cache log : Layout) :
    QuietService conf (serviceCreate conf cache log) := by
  refine ⟨⟨fun id => ?_, rfl, rfl, fun _ => ?_⟩, rfl⟩
  · cases id with
    | true => exact bufInv_create conf.toConf true true cache.flushStart cache.flushEnd
    | false => exact bufInv_create conf.toConf true false cache.logStart cache.logEnd
  · show (bufferCreate conf.toConf true cache.flushStart cache.flushEnd).map.table = mapCreate.table
    rw [bufferCreate, Buffer.rewind]
    split_ifs <;> rfl

end DssSdk.Wal
