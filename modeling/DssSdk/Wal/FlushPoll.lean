import DssSdk.Wal.Quiet

/-!
# What the flusher submits

A poll of the flusher goes on from a saved bucket, and I/O that it submitted completes in any order.

* `flushStep`, `FlushRun`: polls and completions, with what was submitted;
* `submitted_of_run`: in every series an item is submitted once at most, and only as `VALID`;
* `flush_stalls`: below the limit of the flusher nothing is submitted, in no series of polls and
  completions: the loop is left while `nr_pending_io < poll_flush_max_cnt`, the reverse of the
  condition in `wal_cache_flush_buffer_sync`;
* `below_limit_of_run`: every state of the service is below the limit.
-/

namespace DssSdk.Wal

open CellMemory TailQueue

/-! ### Series of polls and completions -/

/-- The I/O that a poll submitted. -/
def newIo (z z' : Zone) : List (Bool × ItemRef) := z'.inFlight.drop z.inFlight.length

/-- A poll, with the items that there is a key buffer for, or the completion of an I/O. -/
inductive FlushEvent
  | poll (keyBuff : ItemRef → Bool)
  | complete (n : ℕ)

/-- A zone with all I/O that was submitted so far. -/
structure FlushRun where
  zone : Zone
  submitted : List (Bool × ItemRef)

def flushStep (conf : ZoneConf) (s : FlushRun) : FlushEvent → Option FlushRun
  | .poll keyBuff =>
      (flushProc conf keyBuff s.zone).map fun z => ⟨z, s.submitted ++ newIo s.zone z⟩
  | .complete n => (flushComplete s.zone n).map fun z => ⟨z, s.submitted⟩

/-- The flush buffer has an item to write. -/
def HasValid (z : Zone) : Prop := ∃ ref, z.flush.statusOf ref = some .valid

/-- Below the limit, a poll submits an item if there is one. There is a key buffer for every item. -/
def Progress (conf : ZoneConf) (z : Zone) : Prop :=
  HasValid z → z.flush.nrPendingIo < z.pollFlushMaxCnt →
    ∃ z', flushProc conf (fun _ => true) z = some z' ∧ newIo z z' ≠ []

/-- The series goes through and submits every item to write exactly once. -/
def SubmitsAll (conf : ZoneConf) (z : Zone) (evs : List FlushEvent) : Prop :=
  ∃ s, Run.run (flushStep conf) ⟨z, []⟩ evs = some s ∧
    ∀ ref, z.flush.statusOf ref = some .valid → s.submitted.count (!z.logId, ref) = 1

/-- What is submitted was `VALID`, and is submitted once. -/
def SubmitsValid (conf : ZoneConf) (z : Zone) (evs : List FlushEvent) : Prop :=
  ∀ s, Run.run (flushStep conf) ⟨z, []⟩ evs = some s →
    s.submitted.Nodup ∧
      ∀ io ∈ s.submitted, io.1 = (!z.logId) ∧ z.flush.statusOf io.2 = some .valid

/-! ### What a poll submits -/

section

variable {conf : ZoneConf} {keyBuff : ItemRef → Bool} {z z' z'' : Zone}
  {new new' : List (Bool × ItemRef)}

theorem statusOf_replace {buf buf' : Buffer} {ref : ItemRef} {it it' : MapItem} {v : ℤ}
    (hit : buf.item? ref = some it)
    (htable : buf'.map.table = Function.update buf.map.table ref.bucket
      ((buf.map.table ref.bucket).replace ref.index it' v)) (r : ItemRef) :
    buf'.statusOf r = if r = ref then some it'.status else buf.statusOf r := by
  split_ifs with hr
  · rw [hr, Buffer.statusOf, item_replace hit htable]
    rfl
  · unfold Buffer.statusOf Buffer.item?
    rw [htable]
    by_cases hb : r.bucket = ref.bucket
    · have hne : ref.index ≠ r.index := by
        intro hi
        obtain ⟨b, j⟩ := r
        obtain ⟨b', j'⟩ := ref
        cases hb
        cases hi
        exact hr rfl
      rw [hb, Function.update_self]
      show Option.map _ (((buf.map.table ref.bucket).entry.set ref.index it')[r.index]?) = _
      rw [List.getElem?_set_ne hne]
    · rw [Function.update_of_ne hb]

/-- Items that were `VALID` were taken, each of them once, and are not `VALID` any more. No item got
`VALID`. -/
structure Took (z z' : Zone) (taken : List (Bool × ItemRef)) : Prop where
  logId : z'.logId = z.logId
  nodup : taken.Nodup
  valid : ∀ io ∈ taken, io.1 = (!z.logId) ∧ z.flush.statusOf io.2 = some .valid
  gone : ∀ io ∈ taken, z'.flush.statusOf io.2 ≠ some .valid
  keeps : ∀ ref, z'.flush.statusOf ref = some .valid → z.flush.statusOf ref = some .valid

theorem Took.none (hid : z'.logId = z.logId)
    (hkeeps : ∀ ref, z'.flush.statusOf ref = some .valid → z.flush.statusOf ref = some .valid) :
    Took z z' [] :=
  ⟨hid, List.nodup_nil, fun _ hio => (by cases hio), fun _ hio => (by cases hio), hkeeps⟩

theorem Took.trans (h : Took z z' new) (h' : Took z' z'' new') : Took z z'' (new ++ new') := by
  refine ⟨h'.logId.trans h.logId, ?_, fun io hio => ?_, fun io hio => ?_,
    fun ref hs => h.keeps ref (h'.keeps ref hs)⟩
  · refine List.nodup_append'.2 ⟨h.nodup, h'.nodup, fun io hio hio' => ?_⟩
    exact h.gone io hio (h'.valid io hio').2
  · rcases List.mem_append.1 hio with hio | hio
    · exact h.valid io hio
    · obtain ⟨hid, hs⟩ := h'.valid io hio
      exact ⟨hid.trans (congrArg _ h.logId), h.keeps io.2 hs⟩
  · rcases List.mem_append.1 hio with hio | hio
    · exact fun hs => h.gone io hio (h'.keeps io.2 hs)
    · exact h'.gone io hio

/-- The items that were taken were submitted. -/
structure Submits (z z' : Zone) (new : List (Bool × ItemRef)) : Prop where
  took : Took z z' new
  inFlight : z'.inFlight = z.inFlight ++ new

theorem Submits.none (hid : z'.logId = z.logId) (hio : z'.inFlight = z.inFlight)
    (hkeeps : ∀ ref, z'.flush.statusOf ref = some .valid → z.flush.statusOf ref = some .valid) :
    Submits z z' [] :=
  ⟨.none hid hkeeps, by rw [List.append_nil, hio]⟩

theorem Submits.trans (h : Submits z z' new) (h' : Submits z' z'' new') :
    Submits z z'' (new ++ new') := by
  refine ⟨h.took.trans h'.took, ?_⟩
  rw [h'.inFlight, h.inFlight, List.append_assoc]

theorem submits_entry {buf : Buffer} {ref : ItemRef} {it : MapItem} {key sub stop : Bool}
    (hit : z.flush.item? ref = some it)
    (hf : flushEntry conf.toConf z.flush ref it key = some (buf, sub, stop)) :
    Submits z (z.submitted buf sub ref) (if sub then [(!z.logId, ref)] else []) := by
  have hflush : (z.submitted buf sub ref).flush = buf := set_flush_flush z buf
  rcases flushEntry_cases hf with ⟨rfl, rfl⟩ | ⟨hs, rfl, rfl⟩ | ⟨hs, rfl, rfl⟩
  · refine .none rfl (List.append_nil _) fun r hr => ?_
    rwa [hflush] at hr
  · refine .none rfl (List.append_nil _) fun r hr => ?_
    rw [hflush, statusOf_replace hit rfl] at hr
    split_ifs at hr with heq
    · cases hr
    · exact hr
  · have hstatus : z.flush.statusOf ref = some .valid := by
      rw [Buffer.statusOf, hit, Option.map_some, hs]
    refine ⟨⟨rfl, List.nodup_singleton _, fun io hio => ?_, fun io hio => ?_, fun r hr => ?_⟩, rfl⟩
    · obtain rfl := List.mem_singleton.1 hio
      exact ⟨rfl, hstatus⟩
    · obtain rfl := List.mem_singleton.1 hio
      rw [hflush, statusOf_replace hit rfl, if_pos rfl]
      exact fun h0 => (by cases h0)
    · rw [hflush, statusOf_replace hit rfl] at hr
      split_ifs at hr with heq
      · cases hr
      · exact hr

theorem submits_items {i cnt j : ℕ} {n : ℤ} {stop : Bool}
    (hf : flushItems conf keyBuff i cnt j z = some (z', n, stop)) : ∃ new, Submits z z' new := by
  induction cnt generalizing j z n stop with
  | zero =>
    cases hf
    exact ⟨[], .none rfl rfl fun _ hs => hs⟩
  | succ cnt ih =>
    rw [flushItems_succ] at hf
    obtain ⟨it, hit, hf⟩ := Option.bind_eq_some_iff.1 hf
    obtain ⟨⟨buf, sub, stop₁⟩, hentry, hf⟩ := Option.bind_eq_some_iff.1 hf
    have hsub := submits_entry hit hentry
    dsimp only at hf
    by_cases hstop : stop₁ = true
    · rw [if_pos hstop] at hf
      cases hf
      exact ⟨_, hsub⟩
    · rw [if_neg hstop] at hf
      obtain ⟨⟨z₂, n₂, s₂⟩, hrest, hf⟩ := Option.map_eq_some_iff.1 hf
      cases hf
      obtain ⟨new, hnew⟩ := ih hrest
      exact ⟨_, hsub.trans hnew⟩

theorem submits_buckets {fuel : ℕ} {o : Option ℕ} {n : ℤ}
    (hf : flushBuckets conf keyBuff fuel o n z = some z') : ∃ new, Submits z z' new := by
  induction fuel generalizing o n z with
  | zero =>
    cases o with
    | none =>
      cases hf
      exact ⟨[], .none rfl rfl fun _ hs => hs⟩
    | some i => cases hf
  | succ fuel ih =>
    cases o with
    | none =>
      cases hf
      exact ⟨[], .none rfl rfl fun _ hs => hs⟩
    | some i =>
      simp only [flushBuckets] at hf
      split_ifs at hf
      · cases hf
        exact ⟨[], .none rfl rfl fun _ hs => hs⟩
      · obtain ⟨⟨z₁, k, stop⟩, hitems, hf⟩ := Option.bind_eq_some_iff.1 hf
        obtain ⟨new, hnew⟩ := submits_items hitems
        rw [← hnew.took.logId] at hf
        dsimp only at hf
        -- the saved bucket is no part of the items
        have hmove : ∀ o, Submits z (z₁.set (!z₁.logId)
            { z₁.flush with map := { z₁.flush.map with flushHead := o } }) new := by
          intro o
          rw [← List.append_nil new]
          refine hnew.trans (.none rfl rfl fun ref hs => ?_)
          rw [set_flush_flush] at hs
          exact hs
        split_ifs at hf
        · cases hf
          exact ⟨new, hmove _⟩
        · obtain ⟨new', hnew'⟩ := ih hf
          exact ⟨_, (hmove _).trans hnew'⟩

theorem submits_poll (hf : flushProc conf keyBuff z = some z') : Submits z z' (newIo z z') := by
  have hsome : ∃ new, Submits z z' new := by
    rw [flushProc] at hf
    split_ifs at hf
    · cases hf
      exact ⟨[], .none rfl rfl fun _ hs => hs⟩
    · exact submits_buckets hf
  obtain ⟨new, hnew⟩ := hsome
  have heq : newIo z z' = new := by
    rw [newIo, hnew.inFlight, List.drop_left]
  rw [heq]
  exact hnew

/-! ### What a completion leaves -/

theorem flushComplete_cases {n : ℕ} (hf : flushComplete z n = some z') :
    z' = z ∨ ∃ id ref it buf, (z.cache id).item? ref = some it ∧
      completeEntry (z.cache id) ref it = some buf ∧ z'.logId = z.logId ∧
      z'.pollFlushMaxCnt = z.pollFlushMaxCnt ∧ z'.cache = Function.update z.cache id buf := by
  rw [flushComplete] at hf
  split at hf
  · cases hf
    exact Or.inl rfl
  · rename_i id ref hn
    obtain ⟨it, hit, hf⟩ := Option.bind_eq_some_iff.1 hf
    obtain ⟨buf, hc, rfl⟩ := Option.map_eq_some_iff.1 hf
    refine Or.inr ⟨id, ref, it, buf, hit, hc, ?_⟩
    split_ifs <;> exact ⟨rfl, rfl, rfl⟩

/-- After a completion the limit is the same, no more I/O is outstanding, and no item gets `VALID`. -/
theorem flushComplete_flush {n : ℕ} (hf : flushComplete z n = some z') :
    z'.logId = z.logId ∧ z'.pollFlushMaxCnt = z.pollFlushMaxCnt ∧
      z'.flush.nrPendingIo ≤ z.flush.nrPendingIo ∧
      ∀ ref, z'.flush.statusOf ref = some .valid → z.flush.statusOf ref = some .valid := by
  rcases flushComplete_cases hf with rfl | ⟨id, ref, it, buf, hit, hc, hid, hmax, hcache⟩
  · exact ⟨rfl, rfl, le_rfl, fun _ hs => hs⟩
  · refine ⟨hid, hmax, ?_⟩
    have hflush : z'.flush = Function.update z.cache id buf (!z.logId) := by
      rw [Zone.flush, hcache, hid]
    by_cases hside : (!z.logId) = id
    · subst hside
      rw [Function.update_self] at hflush
      rw [hflush]
      obtain ⟨-, rfl⟩ := completeEntry_cases hc
      refine ⟨by simp [Zone.flush], fun r hr => ?_⟩
      rw [statusOf_replace hit rfl] at hr
      split_ifs at hr with heq
      · cases hr
      · exact hr
    · rw [Function.update_of_ne hside] at hflush
      rw [hflush]
      exact ⟨le_rfl, fun _ hs => hs⟩

/-! ### Series -/

/-- A series takes what it submits from the zone that it began with. -/
theorem Took.step {s s' : FlushRun} {ev : FlushEvent} (h : Took z s.zone s.submitted)
    (hs : flushStep conf s ev = some s') : Took z s'.zone s'.submitted := by
  cases ev with
  | poll keyBuff =>
    obtain ⟨z', hf, rfl⟩ := Option.map_eq_some_iff.1 hs
    exact h.trans (submits_poll hf).took
  | complete n =>
    obtain ⟨z', hf, rfl⟩ := Option.map_eq_some_iff.1 hs
    obtain ⟨hid, -, -, hkeeps⟩ := flushComplete_flush hf
    have hnext := h.trans (.none hid hkeeps)
    rwa [List.append_nil] at hnext

/-- In every series, an item is submitted once at most, and only when it is `VALID`. -/
theorem submitted_of_run (conf : ZoneConf) (z : Zone) (evs : List FlushEvent) :
    SubmitsValid conf z evs := by
  intro s hrun
  have htook : Took z s.zone s.submitted :=
    @Run.run_inv _ _ (flushStep conf) (fun _ _ => True) (fun s => Took z s.zone s.submitted)
      (fun s ev s' h _ hs => h.step hs) ⟨z, []⟩ s evs (.none rfl fun _ hs => hs)
      (Run.admissible_true _ _) hrun
  exact ⟨htook.nodup, htook.valid⟩

theorem series_idle {s s' : FlushRun} {evs : List FlushEvent}
    (hidle : s.zone.flush.nrPendingIo < s.zone.pollFlushMaxCnt)
    (hrun : Run.run (flushStep conf) s evs = some s') : s'.submitted = s.submitted := by
  induction evs generalizing s with
  | nil =>
    cases hrun
    rfl
  | cons ev evs ih =>
    rw [Run.run_cons] at hrun
    obtain ⟨s₁, hstep, hrun⟩ := Option.bind_eq_some_iff.1 hrun
    cases ev with
    | poll keyBuff =>
      obtain ⟨z', hf, rfl⟩ := Option.map_eq_some_iff.1 hstep
      obtain rfl := flushProc_idle hidle hf
      have hrest := @ih ⟨s.zone, s.submitted ++ newIo s.zone s.zone⟩ hidle hrun
      rw [hrest, newIo, List.drop_length, List.append_nil]
    | complete n =>
      obtain ⟨z', hf, rfl⟩ := Option.map_eq_some_iff.1 hstep
      obtain ⟨-, hmax, hpend, -⟩ := flushComplete_flush hf
      have hidle' : z'.flush.nrPendingIo < z'.pollFlushMaxCnt := by
        rw [hmax]
        exact hpend.trans_lt hidle
      exact @ih ⟨z', s.submitted⟩ hidle' hrun

/-- Below its limit the flusher makes no progress: a poll submits nothing, and no series of polls
and completions submits the items to write. What a series submits is in order. -/
theorem flush_stalls (hidle : z.flush.nrPendingIo < z.pollFlushMaxCnt) (hvalid : HasValid z) :
    ¬ Progress conf z ∧ ∀ evs, ¬ SubmitsAll conf z evs ∧ SubmitsValid conf z evs := by
  refine ⟨fun hprogress => ?_, fun evs => ⟨?_, submitted_of_run conf z evs⟩⟩
  · obtain ⟨z', hf, hnew⟩ := hprogress hvalid hidle
    obtain rfl := flushProc_idle hidle hf
    exact hnew List.drop_length
  · rintro ⟨s, hrun, hall⟩
    obtain ⟨ref, href⟩ := hvalid
    have hcount := hall ref href
    rw [series_idle hidle hrun] at hcount
    cases hcount

end

/-- A store, and a poll when the flush period is over. -/
def startedFlush : Option Zone :=
  Run.run (zoneStep smallZoneConf) (zoneCreate smallZoneConf 1048576 2096128 2097152 3144704)
    [.insert ⟨[1], [7], 0⟩ false ⟨false, 0, 0, dumpNotReady⟩, .poll periodPoll]

theorem flush_stalls_started : ∃ z, startedFlush = some z ∧ z.flushDone = false ∧
    ¬ Progress smallZoneConf z ∧
      ∀ evs, ¬ SubmitsAll smallZoneConf z evs ∧ SubmitsValid smallZoneConf z evs := by
  have hsome : (startedFlush.map fun z => decide (z.flushDone = false ∧
      z.flush.nrPendingIo < z.pollFlushMaxCnt ∧
      z.flush.statusOf ⟨1, 0⟩ = some .valid)) = some true := by decide +kernel
  obtain ⟨z, hz, hstate⟩ := Option.map_eq_some_iff.1 hsome
  obtain ⟨hdone, hidle, hvalid⟩ := of_decide_eq_true hstate
  exact ⟨z, hz, hdone, flush_stalls hidle ⟨⟨1, 0⟩, hvalid⟩⟩

/-- With no I/O outstanding, a limit of 32 and an item to write, the poll submits nothing. -/
theorem not_progress_started : ∃ z, startedFlush = some z ∧ z.flushDone = false ∧
    z.flush.nrPendingIo = 0 ∧ z.pollFlushMaxCnt = 32 ∧ ¬ Progress smallZoneConf z := by
  have hsome : (startedFlush.map fun z => decide (z.flushDone = false ∧
      z.flush.nrPendingIo = 0 ∧ z.pollFlushMaxCnt = 32 ∧
      z.flush.statusOf ⟨1, 0⟩ = some .valid ∧ z.inFlight = [] ∧
      (flushProc smallZoneConf (fun _ => true) z).map Zone.inFlight = some [])) = some true := by
    decide +kernel
  obtain ⟨z, hz, hstate⟩ := Option.map_eq_some_iff.1 hsome
  obtain ⟨hdone, hpend, hmax, hvalid, hio, hnone⟩ := of_decide_eq_true hstate
  refine ⟨z, hz, hdone, hpend, hmax, fun hprogress => ?_⟩
  obtain ⟨z', hf, hnew⟩ := hprogress ⟨⟨1, 0⟩, hvalid⟩ (by rw [hpend, hmax]; decide)
  rw [hf] at hnone
  apply hnew
  rw [newIo, Option.some.inj hnone, List.drop_nil]

/-- Every state of the service is below the limit of the flusher. -/
theorem below_limit_of_run {conf : ZoneConf} {cache log : Layout} {evs : List ServiceEvent}
    {s : Service} (hrun : Run.run (serviceStep conf) (serviceCreate conf cache log) evs = some s) :
    s.zone.inFlight = [] ∧ s.zone.flush.nrPendingIo < s.zone.pollFlushMaxCnt := by
  have hquiet : QuietService conf s :=
    Run.run_inv (fun s ev s' h _ hs => serviceStep_quiet h hs) (quietService_create conf cache log)
      (Run.admissible_true _ _) hrun
  exact ⟨hquiet.zone.inFlight, hquiet.zone.below_limit⟩

end DssSdk.Wal
