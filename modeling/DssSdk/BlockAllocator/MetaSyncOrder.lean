import DssSdk.BlockAllocator.IoTaskOrderer
import DssSdk.BlockAllocator.BitmapDisk
import DssSdk.Lib.Run

/-!
# The order of the meta sync writes

The orderer runs against a device: a submitted task writes its blocks one at a time in any order,
and is completed when all are written. `SyncState` holds the orderer, the bitmap in memory, the
drive, the tasks in flight, and the content of each block when it was last queued.

`SyncInv` is kept by every step whose `mark_dirty_meta` reaches at most one following range
(`step_inv`): the ranges in flight are apart, which makes the look at the nearest neighbours in
`jarr_io_dev_guard_` enough, and for every block the tasks that cover it, in flight and then
queued, end with the newest content. `ordered_of_run` draws the two conclusions about the drive.
-/

namespace DssSdk.BlockAllocator

namespace IoTaskOrderer

variable {β : Type}

/-! ### Ranges in flight -/

/-- Two ranges with a block between them. -/
def RangesApart (r r' : ℕ × ℕ) : Prop := r.1 + r.2 < r'.1 ∨ r'.1 + r'.2 < r.1

theorem RangesApart.symm {r r' : ℕ × ℕ} (h : RangesApart r r') : RangesApart r' r := Or.symm h

/-- The ranges of a task are non-empty and apart. -/
structure RangesSep (ranges : List (ℕ × ℕ)) : Prop where
  pos : ∀ r ∈ ranges, 0 < r.2
  apart : ranges.Pairwise RangesApart

theorem Separated.rangesSep {m : JudyArray ℕ} (hm : Separated m) : RangesSep m.entries := by
  refine ⟨fun r hr => hm.pos r hr, ?_⟩
  refine m.sorted.imp_of_mem fun {a b} ha hb hlt => Or.inl ?_
  exact hm.apart a ha b hb hlt

theorem apart_of_not_overlap {guard : JudyArray ℕ} (hg : Separated guard) {r : ℕ × ℕ}
    (h : isIndividualRangeOverlap guard r.1 r.2 = false) :
    ∀ e ∈ guard, RangesApart e r := by
  unfold isIndividualRangeOverlap at h
  rw [Bool.or_eq_false_iff, Bool.or_eq_false_iff] at h
  obtain ⟨⟨hcur, hprev⟩, hnext⟩ := h
  intro e he
  rcases lt_trichotomy e.1 r.1 with hlt | heq | hgt
  · left
    unfold isPrevNeighborOverlap at hprev
    cases hp : guard.prev? r.1 with
    | none => exact absurd hlt (not_lt.2 (JudyArray.prev?_eq_none_iff.1 hp e he))
    | some f =>
      obtain ⟨hf, -, hmax⟩ := JudyArray.prev?_eq_some_iff.1 hp
      rw [hp] at hprev
      have hfr : f.1 + f.2 < r.1 := by simpa using hprev
      rcases (hmax e he hlt).eq_or_lt with heq | hlt'
      · rw [JudyArray.eq_of_fst_eq he hf heq]
        exact hfr
      · have := hg.apart e he f hf hlt'
        omega
  · unfold isCurrentOverlap at hcur
    rw [← heq, JudyArray.get?_eq_some_iff.2 (show (e.1, e.2) ∈ guard from he)] at hcur
    cases hcur
  · right
    unfold isNextNeighborOverlap at hnext
    cases hx : guard.next? r.1 with
    | none => exact absurd (JudyArray.next?_eq_none_iff.1 hx e he) (not_le.2 hgt)
    | some f =>
      have hmin := (JudyArray.next?_eq_some_iff.1 hx).2.2 e he hgt
      rw [hx] at hnext
      have hfr : r.1 + r.2 < f.1 := by simpa using hnext
      omega

/-- `mark_in_flight` adds ranges that are apart from each other and from the guard. -/
theorem markInFlight_spec {guard guard' : JudyArray ℕ} {ranges : List (ℕ × ℕ)}
    (hg : Separated guard) (hr : RangesSep ranges)
    (hout : ∀ r ∈ ranges, ∀ e ∈ guard, RangesApart e r)
    (h : markInFlight guard ranges = some guard') :
    Separated guard' ∧ ∀ e, e ∈ guard' ↔ e ∈ guard ∨ e ∈ ranges := by
  induction ranges generalizing guard with
  | nil =>
    cases h
    exact ⟨hg, fun e => by simp⟩
  | cons r ranges ih =>
    obtain ⟨lba, n⟩ := r
    obtain ⟨hapart, hrest⟩ := List.pairwise_cons.1 hr.apart
    have hn : 0 < n := hr.pos (lba, n) List.mem_cons_self
    have hfree : ∀ e ∈ guard, e.1 ≠ lba := by
      intro e he heq
      have := hout (lba, n) List.mem_cons_self e he
      unfold RangesApart at this
      omega
    unfold markInFlight at h
    split_ifs at h
    obtain ⟨hsep, hmem⟩ := ih
      (hg.insert hn fun e he => hout (lba, n) List.mem_cons_self e he)
      ⟨fun r hr' => hr.pos r (List.mem_cons_of_mem _ hr'), hrest⟩
      (fun r hr' e he => by
        rcases JudyArray.mem_insert.1 he with rfl | ⟨he, -⟩
        · exact hapart r hr'
        · exact hout r (List.mem_cons_of_mem _ hr') e he) h
    refine ⟨hsep, fun e => ?_⟩
    rw [hmem, JudyArray.mem_insert, List.mem_cons]
    constructor
    · rintro ((h | ⟨h, -⟩) | h)
      · exact Or.inr (Or.inl h)
      · exact Or.inl h
      · exact Or.inr (Or.inr h)
    · rintro (h | h | h)
      · exact Or.inl (Or.inr ⟨h, hfree e h⟩)
      · exact Or.inl (Or.inl h)
      · exact Or.inr h

/-- `mark_completed` removes the starts of the ranges. -/
theorem markCompleted_spec {guard guard' : JudyArray ℕ} {ranges : List (ℕ × ℕ)}
    (h : markCompleted guard ranges = some guard') (e : ℕ × ℕ) :
    e ∈ guard' ↔ e ∈ guard ∧ ∀ r ∈ ranges, e.1 ≠ r.1 := by
  induction ranges generalizing guard with
  | nil =>
    cases h
    simp
  | cons r ranges ih =>
    unfold markCompleted at h
    split_ifs at h
    rw [ih h, JudyArray.mem_erase]
    constructor
    · rintro ⟨⟨he, hne⟩, hrest⟩
      refine ⟨he, fun r' hr' => ?_⟩
      rcases List.mem_cons.1 hr' with rfl | hr'
      · exact hne
      · exact hrest r' hr'
    · rintro ⟨he, hall⟩
      exact ⟨⟨he, hall r List.mem_cons_self⟩, fun r' hr' => hall r' (List.mem_cons_of_mem _ hr')⟩

/-- The task writes the block. -/
def IoTask.covers (t : IoTask β) (d : ℕ) : Bool := t.ranges.any fun r => r.1 ≤ d ∧ d < r.1 + r.2

theorem IoTask.covers_iff {t : IoTask β} {d : ℕ} :
    t.covers d = true ↔ ∃ r ∈ t.ranges, r.1 ≤ d ∧ d < r.1 + r.2 := by
  unfold IoTask.covers
  simp

end IoTaskOrderer

open IoTaskOrderer

/-! ### The orderer and the device -/

/-- The hook `translate_meta_to_drive_addr` of the orderer: `none` is an assertion, and a range has
at least one block. -/
structure TranslateHook where
  translate : ℕ → ℕ → Option (ℕ × ℕ)
  pos : ∀ {lba n a k}, translate lba n = some (a, k) → 0 < k

/-- A submitted task with the blocks the device has written for it. -/
structure Flight (β : Type) where
  task : IoTask β
  written : List ℕ

/-- Every block of the task is written. -/
def Flight.allWritten {β : Type} (f : Flight β) : Bool :=
  f.task.ranges.all fun r => (List.range r.2).all fun k => (r.1 + k) ∈ f.written

/-- The orderer, the bitmap in memory and on the drive by drive block, the tasks in flight, and
what each block held in memory when a task that covers it was last queued. -/
structure SyncState (β : Type) where
  orderer : IoTaskOrderer β
  mem : ℕ → β
  disk : ℕ → β
  inFlight : List (Flight β)
  lastQueued : ℕ → Option β

/-- What may happen next. -/
inductive SyncAct (β : Type)
  | modify (d : ℕ) (v : β)
  | markDirtyMeta (lba numBlocks : ℕ)
  | queueSyncMetaIoTasks
  | getNextSubmitMetaIoTasks
  | deviceWrite (i d : ℕ)
  | completeMetaSync (i : ℕ)

namespace SyncState

variable {β : Type}

/-- An idle orderer with an empty queue. -/
def init (maxDirtySegments : ℕ) (mem disk : ℕ → β) : SyncState β :=
  ⟨IoTaskOrderer.init maxDirtySegments, mem, disk, [], fun _ => none⟩

/-- The task that a meta sync of the state queues. -/
def dirtyTask (s : SyncState β) : IoTask β := ⟨s.orderer.jarrDirtyMeta.entries, s.mem⟩

/-- One step; `none` when the orderer reaches an assertion or the step cannot happen: the device
writes blocks of tasks in flight, and reports a task when all its blocks are written. -/
def step (h : TranslateHook) (s : SyncState β) : SyncAct β → Option (SyncState β)
  | .modify d v => some { s with mem := Function.update s.mem d v }
  | .markDirtyMeta lba n => do
      let r ← h.translate lba n
      let o ← s.orderer.markDirtyMeta r.1 r.2
      some { s with orderer := o }
  | .queueSyncMetaIoTasks => do
      let o ← s.orderer.queueSyncMetaIoTasks s.mem
      some { s with
        orderer := o
        lastQueued := fun d =>
          if (dirtyTask s).covers d then some (s.mem d) else s.lastQueued d }
  | .getNextSubmitMetaIoTasks => do
      match ← s.orderer.getNextSubmitMetaIoTasks with
      | none => some s
      | some (task, o) => some { s with orderer := o, inFlight := s.inFlight ++ [⟨task, []⟩] }
  | .deviceWrite i d =>
      match s.inFlight[i]? with
      | none => none
      | some f =>
          if f.task.covers d then
            some { s with
              disk := Function.update s.disk d (f.task.data d)
              inFlight := s.inFlight.set i { f with written := d :: f.written } }
          else none
  | .completeMetaSync i =>
      match s.inFlight[i]? with
      | none => none
      | some f =>
          if f.allWritten then do
            let o ← s.orderer.completeMetaSync f.task
            some { s with orderer := o, inFlight := s.inFlight.eraseIdx i }
          else none

/-- A `mark_dirty_meta` reaches at most one of the dirty ranges that start after its own. -/
def MarksReachOne (h : TranslateHook) (s : SyncState β) : SyncAct β → Prop
  | .markDirtyMeta lba n => ∀ a k, h.translate lba n = some (a, k) →
      ReachesOneNext s.orderer.jarrDirtyMeta a k
  | _ => True

instance (h : TranslateHook) (s : SyncState β) :
    (act : SyncAct β) → Decidable (MarksReachOne h s act)
  | .markDirtyMeta lba n =>
      match hr : h.translate lba n with
      | none => isTrue fun a k hak => by rw [hr] at hak; cases hak
      | some (a, k) =>
          decidable_of_iff (ReachesOneNext s.orderer.jarrDirtyMeta a k)
            ⟨fun hone a' k' hak => by rw [hr] at hak; cases hak; exact hone,
              fun hone => hone a k hr⟩
  | .modify _ _ => isTrue trivial
  | .queueSyncMetaIoTasks => isTrue trivial
  | .getNextSubmitMetaIoTasks => isTrue trivial
  | .deviceWrite _ _ => isTrue trivial
  | .completeMetaSync _ => isTrue trivial

/-- What holds of the drive: tasks in flight write different blocks, and when nothing is queued
or in flight every block holds the content it had when it was last queued. -/
structure Ordered (s : SyncState β) : Prop where
  disjoint : ∀ (i j : ℕ) (f g : Flight β), i ≠ j → s.inFlight[i]? = some f → s.inFlight[j]? = some g →
    ∀ d, f.task.covers d = true → g.task.covers d = false
  settled : s.orderer.ioDevGuardQ = [] → s.inFlight = [] →
    ∀ d v, s.lastQueued d = some v → s.disk d = v

/-- The tasks that will still write the block, oldest first. -/
def writers (s : SyncState β) (d : ℕ) : List (IoTask β) :=
  (s.inFlight.map Flight.task ++ s.orderer.ioDevGuardQ).filter fun t => t.covers d

/-- Two tasks in flight have ranges that are apart. -/
def FlightsApart (f g : Flight β) : Prop :=
  ∀ r ∈ f.task.ranges, ∀ r' ∈ g.task.ranges, RangesApart r r'

/-- The invariant of the orderer and the device. -/
structure SyncInv (s : SyncState β) : Prop where
  dirty : Separated s.orderer.jarrDirtyMeta
  queued : ∀ t ∈ s.orderer.ioDevGuardQ, RangesSep t.ranges
  guard : Separated s.orderer.jarrIoDevGuard
  guarded : ∀ e, e ∈ s.orderer.jarrIoDevGuard ↔ ∃ f ∈ s.inFlight, e ∈ f.task.ranges
  flights : s.inFlight.Pairwise FlightsApart
  newest : ∀ d t, (s.writers d).getLast? = some t → s.lastQueued d = some (t.data d)
  settled : ∀ d v, s.writers d = [] → s.lastQueued d = some v → s.disk d = v
  written : ∀ f ∈ s.inFlight, ∀ d ∈ f.written, f.task.covers d = true → s.disk d = f.task.data d

variable {s s' : SyncState β} {h : TranslateHook}

theorem Flight.mem_written {f : Flight β} (hf : f.allWritten = true) {d : ℕ}
    (hd : f.task.covers d = true) : d ∈ f.written := by
  obtain ⟨r, hr, h1, h2⟩ := IoTask.covers_iff.1 hd
  unfold Flight.allWritten at hf
  have hall := List.all_eq_true.1 (List.all_eq_true.1 hf r hr) (d - r.1)
    (List.mem_range.2 (by omega))
  have hrd : r.1 + (d - r.1) = d := by omega
  rw [hrd] at hall
  simpa using hall

theorem FlightsApart.not_covers {f g : Flight β} (hfg : FlightsApart f g) {d : ℕ}
    (hf : f.task.covers d = true) : g.task.covers d = false := by
  by_contra hg
  obtain ⟨r, hr, h1, h2⟩ := IoTask.covers_iff.1 hf
  obtain ⟨r', hr', h1', h2'⟩ := IoTask.covers_iff.1 (by simpa using hg)
  have := hfg r hr r' hr'
  unfold RangesApart at this
  omega

theorem FlightsApart.symm {f g : Flight β} (hfg : FlightsApart f g) : FlightsApart g f :=
  fun r hr r' hr' => (hfg r' hr' r hr).symm

theorem split_inFlight {l : List (Flight β)} {i : ℕ} {f : Flight β} (hi : l[i]? = some f) :
    ∃ l₁ l₂, l = l₁ ++ f :: l₂ ∧ l₁.length = i ∧ l.eraseIdx i = l₁ ++ l₂ ∧
      ∀ g, l.set i g = l₁ ++ g :: l₂ := by
  obtain ⟨hlt, hget⟩ := List.getElem?_eq_some_iff.1 hi
  refine ⟨l.take i, l.drop (i + 1), ?_, ?_, ?_, fun g => ?_⟩
  · rw [← hget, List.cons_getElem_drop_succ, List.take_append_drop]
  · rw [List.length_take]
    omega
  · rw [List.eraseIdx_eq_take_drop_succ]
  · rw [List.set_eq_take_append_cons_drop, if_pos hlt]

theorem flights_split {l₁ l₂ : List (Flight β)} {f : Flight β}
    (hp : (l₁ ++ f :: l₂).Pairwise FlightsApart) :
    ∀ g ∈ l₁ ++ l₂, FlightsApart f g := by
  obtain ⟨-, h2, h12⟩ := List.pairwise_append.1 hp
  obtain ⟨h2f, -⟩ := List.pairwise_cons.1 h2
  intro g hg
  rcases List.mem_append.1 hg with hg | hg
  · exact (h12 g hg f List.mem_cons_self).symm
  · exact h2f g hg

theorem filter_flights_eq_nil {l : List (Flight β)} {f : Flight β}
    (hl : ∀ g ∈ l, FlightsApart f g) {d : ℕ} (hd : f.task.covers d = true) :
    (l.map Flight.task).filter (fun t => t.covers d) = [] := by
  rw [List.filter_eq_nil_iff]
  intro t ht
  obtain ⟨g, hg, rfl⟩ := List.mem_map.1 ht
  rw [(hl g hg).not_covers hd]
  simp

/-! ### The steps -/

theorem SyncInv.markDirty (hs : SyncInv s) {a k : ℕ} (hk : 0 < k)
    (hone : ReachesOneNext s.orderer.jarrDirtyMeta a k) {o : IoTaskOrderer β}
    (ho : s.orderer.markDirtyMeta a k = some o) : SyncInv { s with orderer := o } := by
  obtain ⟨m, hm, rfl⟩ := Option.map_eq_some_iff.1 ho
  exact ⟨mergeDirtyMeta_separated hs.dirty hk hone hm, hs.queued, hs.guard, hs.guarded, hs.flights,
    hs.newest, hs.settled, hs.written⟩

theorem SyncInv.queue (hs : SyncInv s) (hstep : step h s .queueSyncMetaIoTasks = some s') :
    SyncInv s' := by
  unfold step queueSyncMetaIoTasks at hstep
  split_ifs at hstep with hne
  · cases hstep
  cases hstep
  -- the new task is the last writer of the blocks it covers
  have hwriters : ∀ d, writers { s with
      orderer := { s.orderer with
        jarrDirtyMeta := JudyArray.empty
        ioDevGuardQ := s.orderer.ioDevGuardQ ++ [dirtyTask s] } } d =
      if (dirtyTask s).covers d then s.writers d ++ [dirtyTask s] else s.writers d := by
    intro d
    unfold writers
    dsimp only
    rw [← List.append_assoc, List.filter_append]
    split_ifs with hc
    · rw [List.filter_cons_of_pos (by exact hc), List.filter_nil]
    · rw [List.filter_cons_of_neg (by exact hc), List.filter_nil, List.append_nil]
  refine ⟨Separated.empty, fun t ht => ?_, hs.guard, hs.guarded, hs.flights, fun d t ht => ?_,
    fun d v hd hv => ?_, hs.written⟩
  · rcases List.mem_append.1 ht with ht | ht
    · exact hs.queued t ht
    · rw [List.mem_singleton.1 ht]
      exact hs.dirty.rangesSep
  · have ht : (if (dirtyTask s).covers d then s.writers d ++ [dirtyTask s]
        else s.writers d).getLast? = some t := by
      rw [← hwriters d]
      exact ht
    dsimp only
    by_cases hc : (dirtyTask s).covers d = true
    · rw [if_pos hc, List.getLast?_concat] at ht
      cases ht
      rw [if_pos hc]
      rfl
    · rw [if_neg hc] at ht ⊢
      exact hs.newest d t ht
  · have hd : (if (dirtyTask s).covers d then s.writers d ++ [dirtyTask s] else s.writers d) =
        [] := by
      rw [← hwriters d]
      exact hd
    dsimp only at hv
    by_cases hc : (dirtyTask s).covers d = true
    · rw [if_pos hc] at hd
      exact absurd hd (List.concat_ne_nil _ _)
    · rw [if_neg hc] at hd hv
      exact hs.settled d v hd hv

theorem SyncInv.submit (hs : SyncInv s) (hstep : step h s .getNextSubmitMetaIoTasks = some s') :
    SyncInv s' := by
  unfold step getNextSubmitMetaIoTasks at hstep
  cases hq : s.orderer.ioDevGuardQ with
  | nil =>
    rw [hq] at hstep
    cases hstep
    exact hs
  | cons task queue =>
    rw [hq] at hstep
    dsimp only at hstep
    split_ifs at hstep with hlen hover
    · cases hstep
    · cases hstep
      exact hs
    · cases hm : markInFlight s.orderer.jarrIoDevGuard task.ranges with
      | none =>
        rw [hm] at hstep
        cases hstep
      | some guard =>
        rw [hm] at hstep
        cases hstep
        have hsep : RangesSep task.ranges := hs.queued task (by rw [hq]; exact List.mem_cons_self)
        have hout : ∀ r ∈ task.ranges, ∀ e ∈ s.orderer.jarrIoDevGuard, RangesApart e r := by
          intro r hr
          refine apart_of_not_overlap hs.guard ?_
          by_contra hc
          exact hover (List.any_eq_true.2 ⟨r, hr, by simpa using hc⟩)
        obtain ⟨hg, hmem⟩ := markInFlight_spec hs.guard hsep hout hm
        -- the task moves from the front of the queue to the end of the flights
        have hwriters : ∀ d, writers { s with
            orderer := { s.orderer with jarrIoDevGuard := guard, ioDevGuardQ := queue }
            inFlight := s.inFlight ++ [⟨task, []⟩] } d = s.writers d := by
          intro d
          unfold writers
          dsimp only
          rw [hq, List.map_append, List.append_assoc]
          rfl
        refine ⟨hs.dirty, fun t ht => hs.queued t (by rw [hq]; exact List.mem_cons_of_mem _ ht), hg,
          fun e => ?_, ?_, fun d t ht => hs.newest d t (hwriters d ▸ ht),
          fun d v hd hv => hs.settled d v (hwriters d ▸ hd) hv, fun f hf d hd hc => ?_⟩
        · rw [hmem, hs.guarded]
          simp only [List.mem_append, List.mem_singleton]
          constructor
          · rintro (⟨f, hf, he⟩ | he)
            · exact ⟨f, Or.inl hf, he⟩
            · exact ⟨_, Or.inr rfl, he⟩
          · rintro ⟨f, hf | rfl, he⟩
            · exact Or.inl ⟨f, hf, he⟩
            · exact Or.inr he
        · refine List.pairwise_append.2 ⟨hs.flights, List.pairwise_singleton _ _, ?_⟩
          intro f hf g hg' r hr r' hr'
          rw [List.mem_singleton.1 hg'] at hr'
          exact hout r' hr' r ((hs.guarded r).2 ⟨f, hf, hr⟩)
        · rcases List.mem_append.1 hf with hf | hf
          · exact hs.written f hf d hd hc
          · rw [List.mem_singleton.1 hf] at hd
            cases hd

theorem SyncInv.write (hs : SyncInv s) {i d : ℕ}
    (hstep : step h s (.deviceWrite i d) = some s') : SyncInv s' := by
  unfold step at hstep
  dsimp only at hstep
  cases hi : s.inFlight[i]? with
  | none =>
    rw [hi] at hstep
    cases hstep
  | some f =>
    rw [hi] at hstep
    dsimp only at hstep
    split_ifs at hstep with hc
    cases hstep
    obtain ⟨l₁, l₂, hl, -, -, hset⟩ := split_inFlight hi
    have hflights := hs.flights
    rw [hl] at hflights
    have hapart := flights_split hflights
    have htasks : (l₁ ++ (⟨f.task, d :: f.written⟩ : Flight β) :: l₂).map Flight.task =
        s.inFlight.map Flight.task := by
      rw [hl]
      simp
    have hwriters : ∀ x, writers { s with
        disk := Function.update s.disk d (f.task.data d)
        inFlight := s.inFlight.set i { f with written := d :: f.written } } x = s.writers x := by
      intro x
      unfold writers
      dsimp only
      rw [hset, htasks]
    refine ⟨hs.dirty, hs.queued, hs.guard, fun e => ?_, ?_, fun x t ht => hs.newest x t (hwriters x ▸ ht),
      fun x v hx hv => ?_, fun g hg x hx hcov => ?_⟩
    · have hmap : ∀ l : List (Flight β), (∃ g ∈ l, e ∈ g.task.ranges) ↔
          ∃ t ∈ l.map Flight.task, e ∈ t.ranges := fun l => by simp
      dsimp only
      rw [hs.guarded, hset, hmap, hmap, htasks]
    · dsimp only
      rw [hset]
      rw [List.pairwise_append, List.pairwise_cons] at hflights ⊢
      obtain ⟨h1, ⟨hf, h2⟩, h12⟩ := hflights
      refine ⟨h1, ⟨hf, h2⟩, fun a ha b hb => ?_⟩
      rcases List.mem_cons.1 hb with rfl | hb
      · exact h12 a ha f List.mem_cons_self
      · exact h12 a ha b (List.mem_cons_of_mem _ hb)
    · rw [hwriters] at hx
      have hxd : x ≠ d := by
        rintro rfl
        have hmem : f.task ∈ s.writers x := by
          unfold writers
          refine List.mem_filter.2 ⟨List.mem_append_left _ (List.mem_map.2 ⟨f, ?_, rfl⟩), hc⟩
          rw [hl]
          simp
        rw [hx] at hmem
        cases hmem
      dsimp only
      rw [Function.update_of_ne hxd]
      exact hs.settled x v hx hv
    · dsimp only at hg ⊢
      rw [hset] at hg
      by_cases hxd : x = d
      · subst hxd
        rw [Function.update_self]
        rcases List.mem_append.1 hg with hg' | hg'
        · rw [(hapart g (List.mem_append_left _ hg')).not_covers hc] at hcov
          cases hcov
        · rcases List.mem_cons.1 hg' with rfl | hg'
          · rfl
          · rw [(hapart g (List.mem_append_right _ hg')).not_covers hc] at hcov
            cases hcov
      · rw [Function.update_of_ne hxd]
        rcases List.mem_append.1 hg with hg' | hg'
        · exact hs.written g (by rw [hl]; exact List.mem_append_left _ hg') x hx hcov
        · rcases List.mem_cons.1 hg' with rfl | hg'
          · exact hs.written f (by rw [hl]; simp) x (List.mem_of_ne_of_mem hxd hx) hcov
          · exact hs.written g (by rw [hl]; simp [hg']) x hx hcov

theorem SyncInv.complete (hs : SyncInv s) {i : ℕ}
    (hstep : step h s (.completeMetaSync i) = some s') : SyncInv s' := by
  unfold step at hstep
  dsimp only at hstep
  cases hi : s.inFlight[i]? with
  | none =>
    rw [hi] at hstep
    cases hstep
  | some f =>
    rw [hi] at hstep
    dsimp only at hstep
    split_ifs at hstep with hall
    unfold completeMetaSync at hstep
    cases hm : markCompleted s.orderer.jarrIoDevGuard f.task.ranges with
    | none =>
      rw [hm] at hstep
      cases hstep
    | some guard =>
      rw [hm] at hstep
      cases hstep
      obtain ⟨l₁, l₂, hl, -, herase, -⟩ := split_inFlight hi
      have hflights := hs.flights
      rw [hl] at hflights
      have hapart := flights_split hflights
      have hmem := markCompleted_spec hm
      -- a block of the task has no other writer in flight, any other block keeps its writers
      have hwriters : ∀ d, f.task.covers d = true →
          s.writers d = f.task :: s.orderer.ioDevGuardQ.filter (fun t => t.covers d) := by
        intro d hd
        unfold writers
        rw [hl, List.map_append, List.map_cons, List.append_assoc, List.cons_append,
          List.filter_append, List.filter_cons_of_pos (by exact hd), List.filter_append,
          filter_flights_eq_nil (fun g hg => hapart g (List.mem_append_left _ hg)) hd,
          filter_flights_eq_nil (fun g hg => hapart g (List.mem_append_right _ hg)) hd]
        rfl
      have hafter : ∀ d, writers { s with
          orderer := { s.orderer with jarrIoDevGuard := guard }
          inFlight := s.inFlight.eraseIdx i } d =
          if f.task.covers d then s.orderer.ioDevGuardQ.filter (fun t => t.covers d)
          else s.writers d := by
        intro d
        unfold writers
        dsimp only
        rw [herase]
        split_ifs with hd
        · rw [List.filter_append, filter_flights_eq_nil hapart hd, List.nil_append]
        · rw [hl]
          simp [hd]
      refine ⟨hs.dirty, hs.queued, ⟨fun e he => hs.guard.pos e ((hmem e).1 he).1,
          fun d hd e he => hs.guard.apart d ((hmem d).1 hd).1 e ((hmem e).1 he).1⟩,
        fun e => ?_, ?_, fun d t ht => ?_, fun d v hd hv => ?_, fun g hg => ?_⟩
      · dsimp only
        rw [hmem, hs.guarded, herase]
        constructor
        · rintro ⟨⟨g, hg, he⟩, hne⟩
          rw [hl] at hg
          rcases List.mem_append.1 hg with hg' | hg'
          · exact ⟨g, List.mem_append_left _ hg', he⟩
          · rcases List.mem_cons.1 hg' with rfl | hg'
            · exact absurd rfl (hne e he)
            · exact ⟨g, List.mem_append_right _ hg', he⟩
        · rintro ⟨g, hg, he⟩
          refine ⟨⟨g, ?_, he⟩, fun r hr heq => ?_⟩
          · rw [hl]
            rcases List.mem_append.1 hg with hg' | hg'
            · exact List.mem_append_left _ hg'
            · exact List.mem_append_right _ (List.mem_cons_of_mem _ hg')
          · have := hapart g hg r hr e he
            unfold RangesApart at this
            omega
      · dsimp only
        rw [herase]
        obtain ⟨h1, h2, h12⟩ := List.pairwise_append.1 hflights
        exact List.pairwise_append.2 ⟨h1, (List.pairwise_cons.1 h2).2,
          fun a ha b hb => h12 a ha b (List.mem_cons_of_mem _ hb)⟩
      · rw [hafter] at ht
        split_ifs at ht with hc
        · refine hs.newest d t ?_
          rw [hwriters d hc, List.getLast?_cons, ht]
          rfl
        · exact hs.newest d t ht
      · rw [hafter] at hd
        split_ifs at hd with hc
        · -- the task was the last writer, and has written the block
          have hlast := hs.newest d f.task (by rw [hwriters d hc, hd]; rfl)
          dsimp only at hv
          rw [hlast] at hv
          cases hv
          exact hs.written f (by rw [hl]; simp) d (Flight.mem_written hall hc) hc
        · exact hs.settled d v hd hv
      · refine hs.written g ?_
        dsimp only at hg
        rw [herase] at hg
        rw [hl]
        rcases List.mem_append.1 hg with hg' | hg'
        · exact List.mem_append_left _ hg'
        · exact List.mem_append_right _ (List.mem_cons_of_mem _ hg')

/-- One step keeps the invariant. -/
theorem step_inv (act : SyncAct β) (hs : SyncInv s) (hok : MarksReachOne h s act)
    (hstep : step h s act = some s') : SyncInv s' := by
  cases act with
  | modify d v =>
    cases hstep
    exact ⟨hs.dirty, hs.queued, hs.guard, hs.guarded, hs.flights, hs.newest, hs.settled, hs.written⟩
  | markDirtyMeta lba n =>
    unfold step at hstep
    obtain ⟨r, hr, hstep⟩ := Option.bind_eq_some_iff.1 hstep
    obtain ⟨o, ho, hstep⟩ := Option.bind_eq_some_iff.1 hstep
    cases hstep
    exact hs.markDirty (h.pos hr) (hok r.1 r.2 hr) ho
  | queueSyncMetaIoTasks => exact hs.queue hstep
  | getNextSubmitMetaIoTasks => exact hs.submit hstep
  | deviceWrite i d => exact hs.write hstep
  | completeMetaSync i => exact hs.complete hstep

theorem inv_init (maxDirtySegments : ℕ) (mem disk : ℕ → β) :
    SyncInv (init maxDirtySegments mem disk) := by
  refine ⟨Separated.empty, fun t ht => ?_, Separated.empty, fun e => ?_, List.Pairwise.nil,
    fun d t ht => ?_, fun d v _ hv => ?_, fun f hf => ?_⟩
  · cases ht
  · constructor
    · intro he
      exact absurd he (JudyArray.not_mem_empty e)
    · rintro ⟨f, hf, -⟩
      cases hf
  · cases ht
  · cases hv
  · cases hf

theorem SyncInv.ordered (hs : SyncInv s) : Ordered s := by
  refine ⟨fun i j f g hij hi hj d hd => ?_, fun hq hf d v hv => ?_⟩
  · obtain ⟨l₁, l₂, hl, hlen, -, -⟩ := split_inFlight hi
    have hflights := hs.flights
    rw [hl] at hflights hj
    refine (flights_split hflights g ?_).not_covers hd
    rcases Nat.lt_or_gt_of_ne hij with hlt | hgt
    · rw [List.getElem?_append_right (by omega), hlen, List.getElem?_cons,
        if_neg (by omega)] at hj
      exact List.mem_append_right _ (List.mem_of_getElem? hj)
    · rw [List.getElem?_append_left (by omega)] at hj
      exact List.mem_append_left _ (List.mem_of_getElem? hj)
  · refine hs.settled d v ?_ hv
    unfold writers
    rw [hf, hq]
    rfl

/-- Over every interleaving in which no `mark_dirty_meta` reaches more than one of the dirty ranges
that start after its own, the meta sync writes are ordered. -/
theorem ordered_of_run (h : TranslateHook) {maxDirtySegments : ℕ} {mem disk : ℕ → β}
    {acts : List (SyncAct β)} {s' : SyncState β}
    (hok : Run.Admissible (step h) (MarksReachOne h) (init maxDirtySegments mem disk) acts)
    (hrun : Run.run (step h) (init maxDirtySegments mem disk) acts = some s') : Ordered s' :=
  (Run.run_inv (fun _ act _ hs hact hstep => step_inv act hs hact hstep)
    (inv_init maxDirtySegments mem disk) hok hrun).ordered

/-- The hook of the bitmap allocator; the allocator marks ranges of at least one block. -/
def bitmapHook (q : QwordVector64Cell) : TranslateHook where
  translate lba n := if n = 0 then none else q.translateMetaToDriveAddr lba n blockSize blockSize
  pos := by
    intro lba n a k hk
    split_ifs at hk with hn
    exact QwordVector64Cell.translateMetaToDriveAddr_pos (Nat.pos_of_ne_zero hn) hk

/-- A bitmap of sixty three drive blocks, from block `1` on, in front of the blocks it describes
from block `64` on; a drive block holds `8192` cells. -/
def sixtyThreeDriveBlocks : QwordVector64Cell :=
  QwordVector64Cell.mk' (JudySeekOptimizer.init 516096 64) 516096 4 9 1 64

/-- Cells of the drive blocks `10` and `12` change, are queued and written; then a cell of block `12`
changes again. -/
def twoSyncs : List (SyncAct ℕ) :=
  [.modify 10 1, .markDirtyMeta (64 + 9 * 8192) 1, .modify 12 2, .markDirtyMeta (64 + 11 * 8192) 5,
    .queueSyncMetaIoTasks, .getNextSubmitMetaIoTasks, .modify 12 3,
    .markDirtyMeta (64 + 11 * 8192) 1, .queueSyncMetaIoTasks, .getNextSubmitMetaIoTasks,
    .deviceWrite 0 12, .deviceWrite 0 10, .completeMetaSync 0, .getNextSubmitMetaIoTasks,
    .deviceWrite 0 12, .completeMetaSync 0]

theorem ordered_of_twoSyncs :
    ∃ s', Run.run (step (bitmapHook sixtyThreeDriveBlocks))
      (init 4096 (fun _ => 0) (fun _ => 0)) twoSyncs = some s' ∧ Ordered s' := by
  obtain ⟨s', hrun⟩ : ∃ s', Run.run (step (bitmapHook sixtyThreeDriveBlocks))
      (init 4096 (fun _ => 0) (fun _ => 0)) twoSyncs = some s' := ⟨_, rfl⟩
  exact ⟨s', hrun, ordered_of_run (bitmapHook sixtyThreeDriveBlocks) (by decide +kernel) hrun⟩

/-- Cells of the drive blocks `10` and `12` change, then a range over the blocks `9` to `28`; the
sync of these is in flight when a cell of block `25` changes and is synced too. -/
def nestedRanges : List (SyncAct ℕ) :=
  [.markDirtyMeta (64 + 9 * 8192) 1, .markDirtyMeta (64 + 11 * 8192) 1,
    .markDirtyMeta (64 + 8 * 8192) (20 * 8192), .queueSyncMetaIoTasks, .getNextSubmitMetaIoTasks,
    .markDirtyMeta (64 + 24 * 8192) 1, .queueSyncMetaIoTasks, .getNextSubmitMetaIoTasks]

/-- Only one of the two ranges inside the large one is merged; the other one hides it from the
overlap check, and two tasks in flight write block `25`. -/
theorem not_ordered_nestedRanges :
    ¬ ∀ (h : TranslateHook) (maxDirtySegments : ℕ) (mem disk : ℕ → ℕ) (acts : List (SyncAct ℕ))
      (s' : SyncState ℕ), Run.run (step h) (init maxDirtySegments mem disk) acts = some s' →
      Ordered s' := by
  intro hall
  have hord := hall (bitmapHook sixtyThreeDriveBlocks) 4096 (fun _ => 0) (fun _ => 0) nestedRanges _
    rfl
  have hfalse := hord.disjoint 0 1 _ _ (by decide) rfl rfl 25 rfl
  cases hfalse

end SyncState

end DssSdk.BlockAllocator
