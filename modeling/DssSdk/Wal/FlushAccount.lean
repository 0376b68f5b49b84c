import DssSdk.Wal.BucketList
import DssSdk.Wal.Zone

/-!
# The accounts of the flusher

* `countItems`: the number of items of a buffer in some states;
* `Accounted`: `nr_objects_inserted` and `nr_pending_io` of both buffers are right, every flush I/O
  under way belongs to an item in state `FLUSHING`, and the done flag says whether the flush buffer
  has work left;
* `BufInv`: the invariant of a buffer in its role, with a lemma for each operation;
* `LastKept`: a request does not invalidate the last object the flush buffer has to write;
* `accounted_of_run`: with it the accounts are right in every state.

`nr_objects_inserted` of the flush buffer also falls when a request invalidates an item, but only
`wal_flush_complete` looks whether it has reached zero.
-/

namespace DssSdk.Wal

open CellMemory TailQueue

/-! ### Counting items -/

/-- `VALID` or `FLUSHING`. -/
def ItemStatus.busy : ItemStatus → Bool
  | .valid => true
  | .flushing => true
  | _ => false

/-- `FLUSHING`. -/
def ItemStatus.isFlushing : ItemStatus → Bool
  | .flushing => true
  | _ => false

/-- The number of items of a chain in some states. -/
def chainCount (p : ItemStatus → Bool) (b : Bucket) : ℤ :=
  (b.entry.countP fun it => p it.status : ℕ)

/-- The number of items of a buffer in some states. -/
def countItems (conf : Conf) (buf : Buffer) (p : ItemStatus → Bool) : ℤ :=
  ∑ i ∈ Finset.range conf.nrBuckets, chainCount p (buf.map.table i)

/-- One if the item is in one of the states. -/
def MapItem.counts (p : ItemStatus → Bool) (it : MapItem) : ℤ := if p it.status then 1 else 0

theorem chainCount_replace {p : ItemStatus → Bool} {b : Bucket} {j : ℕ} {it it' : MapItem} {v : ℤ}
    (hj : b.entry[j]? = some it) :
    chainCount p (b.replace j it' v) = chainCount p b - it.counts p + it'.counts p := by
  obtain ⟨hlt, rfl⟩ := List.getElem?_eq_some_iff.1 hj
  have hset := List.countP_set (p := fun it : MapItem => p it.status) (a := it') (l := b.entry) hlt
  have hle : (if p b.entry[j].status = true then 1 else 0) ≤
      b.entry.countP fun it => p it.status := by
    split_ifs with hp
    · exact List.countP_pos_iff.2 ⟨_, List.getElem_mem hlt, hp⟩
    · exact Nat.zero_le _
  simp only [chainCount, Bucket.replace, MapItem.counts]
  rw [hset, Nat.cast_add, Nat.cast_sub hle]
  push_cast
  rfl

theorem chainCount_append {p : ItemStatus → Bool} {b : Bucket} {it' : MapItem} {v t : ℤ} :
    chainCount p ⟨b.entry ++ [it'], v, t⟩ = chainCount p b + it'.counts p := by
  simp only [chainCount, MapItem.counts, List.countP_append, List.countP_singleton]
  push_cast
  rfl

theorem countItems_update {conf : Conf} {buf buf' : Buffer} {i : ℕ} {b : Bucket}
    {p : ItemStatus → Bool} (hi : i < conf.nrBuckets)
    (htable : buf'.map.table = Function.update buf.map.table i b) :
    countItems conf buf' p =
      countItems conf buf p - chainCount p (buf.map.table i) + chainCount p b := by
  have hmem : i ∈ Finset.range conf.nrBuckets := Finset.mem_range.2 hi
  have hrest : ∑ k ∈ (Finset.range conf.nrBuckets).erase i, chainCount p (buf'.map.table k) =
      ∑ k ∈ (Finset.range conf.nrBuckets).erase i, chainCount p (buf.map.table k) := by
    refine Finset.sum_congr rfl fun k hk => ?_
    rw [htable, Function.update_of_ne (Finset.ne_of_mem_erase hk)]
  have hself : chainCount p (buf'.map.table i) = chainCount p b := by
    rw [htable, Function.update_self]
  rw [countItems, countItems, ← Finset.add_sum_erase _ _ hmem, ← Finset.add_sum_erase _ _ hmem, hrest,
    hself]
  ring

/-- The number of items when one of them changes. -/
theorem Change.count {conf : Conf} {buf buf' : Buffer} {ref : ItemRef} {it' : MapItem}
    {old : Option MapItem} (h : Change buf buf' ref it' old) (hi : ref.bucket < conf.nrBuckets)
    (p : ItemStatus → Bool) :
    countItems conf buf' p =
      countItems conf buf p - old.elim 0 (MapItem.counts p) + it'.counts p := by
  cases h with
  | replace hit htable =>
    rw [countItems_update hi htable, chainCount_replace hit, Option.elim_some]
    ring
  | append href htable =>
    rw [countItems_update hi htable, chainCount_append, Option.elim_none]
    ring

theorem bucketIdx_lt (conf : Conf) (key : Bytes) : conf.bucketIdx key < conf.nrBuckets :=
  Nat.mod_lt _ conf.nrBuckets_pos

theorem MapOk.bucket_lt {conf : Conf} {buf : Buffer} (h : MapOk conf buf) {ref : ItemRef}
    {it : MapItem} (hit : buf.Holds ref it) : ref.bucket < conf.nrBuckets := by
  rw [← (h ref.bucket).home hit.1 hit.2]
  exact bucketIdx_lt conf it.key

theorem countItems_pos {conf : Conf} {buf : Buffer} {p : ItemStatus → Bool} {ref : ItemRef}
    {it : MapItem} (h : MapOk conf buf) (hit : buf.Holds ref it) (hp : p it.status = true) :
    0 < countItems conf buf p := by
  refine Finset.sum_pos' (fun _ _ => Int.natCast_nonneg _)
    ⟨ref.bucket, Finset.mem_range.2 (h.bucket_lt hit), ?_⟩
  rw [chainCount, Nat.cast_pos]
  exact List.countP_pos_iff.2 ⟨it, List.mem_of_getElem? hit.1, hp⟩

theorem status_of_countItems_zero {conf : Conf} {buf : Buffer} {p : ItemStatus → Bool}
    {ref : ItemRef} {it : MapItem} (h : MapOk conf buf) (hzero : countItems conf buf p = 0)
    (hit : buf.Holds ref it) : p it.status = false := by
  by_contra hp
  have hpos := countItems_pos h hit (Bool.eq_true_of_not_eq_false hp)
  omega

/-! ### The invariant of a buffer -/

/-- The invariant of a buffer. In the log role its items are valid or deleted; in the flush role the
place of the flusher is in the list. -/
structure BufInv (conf : Conf) (isLog : Bool) (buf : Buffer) : Prop where
  ok : MapOk conf buf
  inserted : buf.nrObjectsInserted = countItems conf buf ItemStatus.busy
  pending : buf.nrPendingIo = countItems conf buf ItemStatus.isFlushing
  noDeleted : conf.logEnabled = false → ∀ ref it, buf.Holds ref it → it.status ≠ .deleted
  logItems : isLog = true → ∀ ref it, buf.Holds ref it → it.status = .valid ∨ it.status = .deleted
  list : ∃ l, buf.map.queue.Lasso l ∧
    (∀ ref it, buf.Holds ref it → (it.status = .flushing ∨ it.status = .flushed) →
      ref.bucket ∈ l) ∧
    (isLog = false → ∀ i, buf.map.flushHead = some i → i ∈ l)

theorem BufInv.of_map {conf : Conf} {isLog : Bool} {buf buf' : Buffer} (h : BufInv conf isLog buf)
    (hmap : buf'.map = buf.map) (hins : buf'.nrObjectsInserted = buf.nrObjectsInserted)
    (hpend : buf'.nrPendingIo = buf.nrPendingIo) : BufInv conf isLog buf' := by
  have hholds : ∀ ref it, buf'.Holds ref it ↔ buf.Holds ref it := by
    intro ref it
    simp only [Buffer.Holds, Buffer.item?, hmap]
  have hcount : ∀ p, countItems conf buf' p = countItems conf buf p := by
    intro p
    simp only [countItems, hmap]
  refine ⟨?_, ?_, ?_, ?_, ?_, ?_⟩
  · intro i
    rw [hmap]
    exact h.ok i
  · rw [hins, hcount, h.inserted]
  · rw [hpend, hcount, h.pending]
  · exact fun h0 ref it hit => h.noDeleted h0 ref it ((hholds ref it).1 hit)
  · exact fun h0 ref it hit => h.logItems h0 ref it ((hholds ref it).1 hit)
  · obtain ⟨l, hl, hmem, hhead⟩ := h.list
    refine ⟨l, hmap ▸ hl, fun ref it hit => hmem ref it ((hholds ref it).1 hit), ?_⟩
    rw [hmap]
    exact hhead

/-- A change of one item. -/
theorem BufInv.change {conf : Conf} {isLog : Bool} {buf buf' : Buffer} {ref : ItemRef}
    {it' : MapItem} {old : Option MapItem} (h : BufInv conf isLog buf) (hok : MapOk conf buf')
    (hch : Change buf buf' ref it' old) (hi : ref.bucket < conf.nrBuckets)
    (hins : buf'.nrObjectsInserted = buf.nrObjectsInserted -
      old.elim 0 (MapItem.counts ItemStatus.busy) + it'.counts ItemStatus.busy)
    (hpend : buf'.nrPendingIo = buf.nrPendingIo -
      old.elim 0 (MapItem.counts ItemStatus.isFlushing) + it'.counts ItemStatus.isFlushing)
    (hdel : conf.logEnabled = false → it'.status ≠ .deleted)
    (hlog : isLog = true → it'.Live → it'.status = .valid ∨ it'.status = .deleted)
    (hlist : ∃ l, buf'.map.queue.Lasso l ∧
      (∀ ref it, buf.Holds ref it → (it.status = .flushing ∨ it.status = .flushed) →
        ref.bucket ∈ l) ∧
      (it'.status = .flushing ∨ it'.status = .flushed → ref.bucket ∈ l) ∧
      (isLog = false → ∀ i, buf'.map.flushHead = some i → i ∈ l)) :
    BufInv conf isLog buf' := by
  have hputs := hch.puts
  refine ⟨hok, ?_, ?_, ?_, ?_, ?_⟩
  · rw [hch.count hi, hins, h.inserted]
  · rw [hch.count hi, hpend, h.pending]
  · intro h0 r x hx
    have hx' := (hputs r x).1 hx
    split_ifs at hx' with hr
    · obtain ⟨rfl, -⟩ := hx'
      exact hdel h0
    · exact h.noDeleted h0 r x hx'
  · intro h0 r x hx
    have hx' := (hputs r x).1 hx
    split_ifs at hx' with hr
    · obtain ⟨rfl, hlive⟩ := hx'
      exact hlog h0 hlive
    · exact h.logItems h0 r x hx'
  · obtain ⟨l, hl, hmem, hnew, hhead⟩ := hlist
    refine ⟨l, hl, fun r x hx hs => ?_, hhead⟩
    have hx' := (hputs r x).1 hx
    split_ifs at hx' with hr
    · obtain ⟨rfl, -⟩ := hx'
      rw [hr]
      exact hnew hs
    · exact hmem r x hx' hs

/-! ### The operations of a buffer -/

theorem counts_of_status {it : MapItem} {s : ItemStatus} (p : ItemStatus → Bool)
    (h : it.status = s) : it.counts p = if p s then 1 else 0 := by
  rw [MapItem.counts, h]

theorem Change.holds_old {buf buf' : Buffer} {ref : ItemRef} {it' x : MapItem}
    (h : Change buf buf' ref it' (some x)) (hlive : x.Live) : buf.Holds ref x := by
  cases h with
  | replace hit htable => exact ⟨hit, hlive⟩

theorem lasso_linked {q : Queue ℕ} {l : List ℕ} (h : q.Lasso l) (i : ℕ) :
    ∃ l', (linked q i).Lasso l' ∧ ∀ c ∈ l, c ∈ l' := by
  rw [linked]
  split_ifs with hnext
  · obtain ⟨l', hl', hsub, -⟩ := h.insertTail hnext
    exact ⟨l', hl', hsub⟩
  · exact ⟨l, h, fun _ hc => hc⟩

/-- A write to the log buffer. -/
theorem BufInv.write {conf : Conf} {buf : Buffer} (h : BufInv conf true buf) (obj : Object) :
    ∃ buf' ref, lookup conf buf obj (if conf.logEnabled then .writeAppend else .writeInplace) =
      some (buf', some ref) ∧ BufInv conf true buf' := by
  set ty : LookupType := if conf.logEnabled then .writeAppend else .writeInplace with hty
  have hwrite : ty = .writeAppend ∨ ty = .writeInplace := by
    rw [hty]
    split_ifs
    · exact Or.inl rfl
    · exact Or.inr rfl
  obtain ⟨buf', ref, it', old, hlook, hw⟩ := lookup_write obj h.ok hwrite
  refine ⟨buf', ref, hlook, ?_⟩
  have hold : ∀ x, old = some x → x.Live → x.status = .valid ∨ x.status = .deleted := by
    rintro x rfl hlive
    exact h.logItems rfl ref x (hw.change.holds_old hlive)
  have hpend : old.elim 0 (MapItem.counts ItemStatus.isFlushing) = 0 := by
    cases old with
    | none => rfl
    | some x =>
      by_cases hlive : x.Live
      · rcases hold x rfl hlive with hs | hs <;> exact counts_of_status _ hs
      · exact counts_of_status _ (not_not.1 hlive)
  refine h.change hw.ok hw.change (hw.home ▸ bucketIdx_lt conf obj.key) ?_ ?_ ?_ ?_ ?_
  · rw [hw.inserted, counts_of_status _ hw.status]
    cases old with
    | none =>
      rw [if_neg (by rintro ⟨x, hx, -⟩; cases hx)]
      simp [ItemStatus.busy]
    | some x =>
      by_cases hlive : x.Live
      · rcases hold x rfl hlive with hs | hs
        · rw [if_pos ⟨x, rfl, hlive, fun h0 => absurd (hs.symm.trans h0.2) (by decide)⟩,
            Option.elim_some, counts_of_status _ hs]
          simp [ItemStatus.busy]
        · -- a deleted item: there is a log, so that the write is an append
          have hlog : conf.logEnabled = true := by
            by_contra h0
            exact h.noDeleted (Bool.eq_false_of_not_eq_true h0) ref x
              (hw.change.holds_old hlive) hs
          have happend : ty = .writeAppend := by
            rw [hty, if_pos hlog]
          rw [if_neg (by
            rintro ⟨y, hy, -, hno⟩
            cases hy
            exact hno ⟨happend, hs⟩), Option.elim_some, counts_of_status _ hs]
          simp [ItemStatus.busy]
      · rw [if_neg (by rintro ⟨y, hy, hyl, -⟩; cases hy; exact hlive hyl), Option.elim_some,
          counts_of_status _ (not_not.1 hlive)]
        simp [ItemStatus.busy]
  · rw [hw.pending, hpend, counts_of_status _ hw.status]
    simp [ItemStatus.isFlushing]
  · intro _ hd
    exact absurd (hw.status.symm.trans hd) (by decide)
  · exact fun _ _ => Or.inl hw.status
  · obtain ⟨l, hl, hmem, -⟩ := h.list
    have hnew : ∀ l' : List ℕ, (it'.status = .flushing ∨ it'.status = .flushed) →
        ref.bucket ∈ l' := by
      rintro l' (hs | hs)
      · exact absurd (hw.status.symm.trans hs) (by decide)
      · exact absurd (hw.status.symm.trans hs) (by decide)
    rcases hw.queue with ⟨hq, -⟩ | ⟨-, -, hq⟩
    · exact ⟨l, hq ▸ hl, hmem, hnew l, fun h0 => by cases h0⟩
    · obtain ⟨l', hl', hsub⟩ := lasso_linked hl ref.bucket
      exact ⟨l', hq ▸ hl', fun r x hx hs => hsub _ (hmem r x hx hs), hnew l', fun h0 => by cases h0⟩

theorem BufInv.change_same {conf : Conf} {isLog : Bool} {buf buf' : Buffer} {ref : ItemRef}
    {it it' : MapItem} (h : BufInv conf isLog buf) (hok : MapOk conf buf')
    (hch : Change buf buf' ref it' (some it)) (hlive : it.Live)
    (hins : buf'.nrObjectsInserted = buf.nrObjectsInserted -
      it.counts ItemStatus.busy + it'.counts ItemStatus.busy)
    (hpend : buf'.nrPendingIo = buf.nrPendingIo -
      it.counts ItemStatus.isFlushing + it'.counts ItemStatus.isFlushing)
    (hdel : conf.logEnabled = false → it'.status ≠ .deleted)
    (hlog : isLog = true → it'.Live → it'.status = .valid ∨ it'.status = .deleted)
    (hqueue : buf'.map.queue = buf.map.queue) (hhead : buf'.map.flushHead = buf.map.flushHead)
    (hnew : ∀ l, buf.map.queue.Lasso l →
      (∀ ref it, buf.Holds ref it → (it.status = .flushing ∨ it.status = .flushed) →
        ref.bucket ∈ l) →
      it'.status = .flushing ∨ it'.status = .flushed → ref.bucket ∈ l) :
    BufInv conf isLog buf' := by
  have hi := h.ok.bucket_lt (hch.holds_old hlive)
  obtain ⟨l, hl, hmem, hhl⟩ := h.list
  exact h.change hok hch hi hins hpend hdel hlog
    ⟨l, hqueue ▸ hl, hmem, hnew l hl hmem, hhead ▸ hhl⟩

theorem not_flushing_of {it : MapItem} {s : ItemStatus} (h : it.status = s) (h₁ : s ≠ .flushing)
    (h₂ : s ≠ .flushed) {P : Prop} : it.status = .flushing ∨ it.status = .flushed → P := by
  rintro (hs | hs)
  · exact absurd (h.symm.trans hs) h₁
  · exact absurd (h.symm.trans hs) h₂

/-- A deletion in the log buffer. -/
theorem BufInv.delete {conf : Conf} {buf : Buffer} (h : BufInv conf true buf) (obj : Object)
    (hlog : conf.logEnabled = true) :
    ∃ buf' r, lookup conf buf obj .delete = some (buf', r) ∧ BufInv conf true buf' := by
  rcases lookup_delete obj h.ok hlog with ⟨hlook, -⟩ | ⟨ref, it, hit, -, hne, hlook⟩
  · exact ⟨buf, none, hlook, h⟩
  · have hs : it.status = .valid := (h.logItems rfl ref it hit).resolve_right hne
    obtain ⟨hok, it', hch, -, hs'⟩ := deletedBuf_spec obj h.ok hit
    refine ⟨_, _, hlook, h.change_same hok hch hit.2 ?_ ?_ ?_ ?_ rfl rfl ?_⟩
    · have hbase : (deletedBuf conf buf obj ref it).nrObjectsInserted =
          buf.nrObjectsInserted - 1 := by
        have hfl : it.status ≠ .flushing := by rw [hs]; decide
        have hone : it.inserted = 1 := if_pos hs
        refine (cacheInsertObject_inserted conf (deleteBase conf buf it) obj (deletedFrom it)
          .overwriteDelete).trans ?_
        rw [if_neg (by simp), add_zero, deleteBase, if_neg hfl, hone]
      rw [hbase, counts_of_status _ hs, counts_of_status _ hs']
      simp [ItemStatus.busy]
    · have hbase : (deletedBuf conf buf obj ref it).nrPendingIo = buf.nrPendingIo := by
        show (deleteBase conf buf it).nrPendingIo = buf.nrPendingIo
        rw [deleteBase]
        split_ifs <;> rfl
      rw [hbase, counts_of_status _ hs, counts_of_status _ hs']
      simp [ItemStatus.isFlushing]
    · exact fun h0 => absurd (hlog.symm.trans h0) (by decide)
    · exact fun _ _ => Or.inr hs'
    · exact fun _ _ _ => not_flushing_of hs' (by decide) (by decide)

/-- There is a valid item of the key. -/
def ValidOf (buf : Buffer) (key : Bytes) : Prop :=
  ∃ ref it, buf.Holds ref it ∧ it.key = key ∧ it.status = .valid

/-- The only object the buffer has to write is not the valid one of this key. -/
def LastKept (buf : Buffer) (key : Bytes) : Prop := ValidOf buf key → buf.nrObjectsInserted ≠ 1

theorem BufInv.invalidate {conf : Conf} {isLog : Bool} {buf : Buffer} (h : BufInv conf isLog buf)
    (obj : Object) :
    ∃ buf' r, lookup conf buf obj .invalidate = some (buf', r) ∧ BufInv conf isLog buf' ∧
      (LastKept buf obj.key → (buf'.nrObjectsInserted = 0 ↔ buf.nrObjectsInserted = 0)) ∧
      ∀ ref it, buf.item? ref = some it → it.status = .flushing → buf'.item? ref = some it := by
  rcases lookup_invalidate obj h.ok with ⟨hlook, -⟩ | ⟨ref, it, hit, hkey, hlook⟩
  · exact ⟨buf, none, hlook, h, fun _ => Iff.rfl, fun _ _ hx _ => hx⟩
  · split_ifs at hlook with hfl
    · exact ⟨buf, some ref, hlook, h, fun _ => Iff.rfl, fun _ _ hx _ => hx⟩
    · obtain ⟨hok, hch⟩ := invalidated_spec h.ok hit
      have hbusy : it.counts ItemStatus.busy = it.inserted := by
        rw [MapItem.counts, MapItem.inserted]
        cases hs : it.status with
        | valid => rfl
        | invalid => rfl
        | flushing => exact absurd hs hfl
        | flushed => rfl
        | deleted => rfl
      have hflush : it.counts ItemStatus.isFlushing = 0 := by
        rw [MapItem.counts]
        cases hs : it.status with
        | flushing => exact absurd hs hfl
        | valid => rfl
        | invalid => rfl
        | flushed => rfl
        | deleted => rfl
      have hinv : BufInv conf isLog (invalidated conf buf ref it) := by
        refine h.change_same hok hch hit.2 ?_ ?_ ?_ ?_ rfl rfl ?_
        · rw [hbusy]
          exact (add_zero _).symm
        · rw [hflush]
          show buf.nrPendingIo = buf.nrPendingIo - 0 + 0
          ring
        · exact fun _ h0 => by cases h0
        · exact fun _ h0 => absurd rfl h0
        · exact fun _ _ _ h0 => h0.elim (fun h1 => by cases h1) (fun h1 => by cases h1)
      refine ⟨_, _, hlook, hinv, fun hkept => ?_, fun r x hx hs => ?_⟩
      · show buf.nrObjectsInserted - it.inserted = 0 ↔ buf.nrObjectsInserted = 0
        by_cases hs : it.status = .valid
        · have hone : it.inserted = 1 := if_pos hs
          have hne := hkept ⟨ref, it, hit, hkey, hs⟩
          have hpos := countItems_pos (p := ItemStatus.busy) h.ok hit (by rw [hs]; rfl)
          rw [← h.inserted] at hpos
          rw [hone]
          omega
        · have hzero : it.inserted = 0 := if_neg hs
          rw [hzero, sub_zero]
      · have hx' := (hch.puts r x).2 (by
          rw [if_neg]
          · exact ⟨hx, live_of_flushing hs⟩
          · rintro rfl
            obtain rfl : it = x := Option.some.inj (hit.1.symm.trans hx)
            exact hfl hs)
        exact hx'.1

/-! ### The invariant of a zone -/

/-- The invariant of a zone. -/
structure ZoneInv (conf : ZoneConf) (z : Zone) : Prop where
  log : BufInv conf.toConf true z.log
  flush : BufInv conf.toConf false z.flush
  inFlight : ∀ io ∈ z.inFlight, io.1 = !z.logId ∧ z.flush.statusOf io.2 = some .flushing
  nodup : z.inFlight.Nodup
  flags : z.flushDoing = !z.flushDone
  flag : z.flushDone = true ↔ z.flush.nrObjectsInserted = 0

@[simp] theorem set_log_log (z : Zone) (buf : Buffer) : (z.set z.logId buf).log = buf :=
  Function.update_self ..

@[simp] theorem set_log_flush (z : Zone) (buf : Buffer) : (z.set z.logId buf).flush = z.flush :=
  Function.update_of_ne (by simp [Zone.set]) ..

@[simp] theorem set_flush_flush (z : Zone) (buf : Buffer) : (z.set (!z.logId) buf).flush = buf :=
  Function.update_self ..

@[simp] theorem set_flush_log (z : Zone) (buf : Buffer) : (z.set (!z.logId) buf).log = z.log :=
  Function.update_of_ne (by simp [Zone.set]) ..

@[simp] theorem set_both_log (z : Zone) (log flush : Buffer) :
    ((z.set z.logId log).set (!z.logId) flush).log = log :=
  (set_flush_log (z.set z.logId log) flush).trans (set_log_log z log)

@[simp] theorem set_both_flush (z : Zone) (log flush : Buffer) :
    ((z.set z.logId log).set (!z.logId) flush).flush = flush :=
  set_flush_flush (z.set z.logId log) flush

/-- The buffers change, with as much to write or nothing as before. -/
theorem ZoneInv.update {conf : ZoneConf} {z z' : Zone} (h : ZoneInv conf z)
    (hid : z'.logId = z.logId) (hio : z'.inFlight = z.inFlight)
    (hdone : z'.flushDone = z.flushDone) (hdoing : z'.flushDoing = z.flushDoing)
    (hlog : BufInv conf.toConf true z'.log) (hflush : BufInv conf.toConf false z'.flush)
    (hflag : z'.flush.nrObjectsInserted = 0 ↔ z.flush.nrObjectsInserted = 0)
    (hkeep : ∀ ref it, z.flush.item? ref = some it → it.status = .flushing →
      z'.flush.item? ref = some it) : ZoneInv conf z' := by
  refine ⟨hlog, hflush, ?_, ?_, ?_, ?_⟩
  · intro io hmem
    rw [hio] at hmem
    obtain ⟨h1, h2⟩ := h.inFlight io hmem
    refine ⟨by rw [h1, hid], ?_⟩
    obtain ⟨it, hit, hs⟩ := Option.map_eq_some_iff.1 h2
    rw [Buffer.statusOf, hkeep io.2 it hit hs, Option.map_some, hs]
  · rw [hio]
    exact h.nodup
  · rw [hdone, hdoing]
    exact h.flags
  · rw [hdone, hflag]
    exact h.flag

theorem ZoneInv.update_log {conf : ZoneConf} {z : Zone} {log : Buffer} (h : ZoneInv conf z)
    (hlog : BufInv conf.toConf true log) (n : ℕ) :
    ZoneInv conf { z.set z.logId log with logBatchNrObj := n } := by
  refine h.update rfl rfl rfl rfl ?_ ?_ ?_ ?_
  · have : ({ z.set z.logId log with logBatchNrObj := n } : Zone).log = log := set_log_log z log
    rw [this]
    exact hlog
  · have : ({ z.set z.logId log with logBatchNrObj := n } : Zone).flush = z.flush :=
      set_log_flush z log
    rw [this]
    exact h.flush
  · have : ({ z.set z.logId log with logBatchNrObj := n } : Zone).flush = z.flush :=
      set_log_flush z log
    rw [this]
  · have : ({ z.set z.logId log with logBatchNrObj := n } : Zone).flush = z.flush :=
      set_log_flush z log
    rw [this]
    exact fun _ _ hx _ => hx

theorem BufInv.newGroup {conf : Conf} {isLog : Bool} {buf : Buffer} (h : BufInv conf isLog buf)
    (id : Bool) : BufInv conf isLog (buf.newGroup id) :=
  h.of_map rfl rfl rfl

theorem joinGroup_inv {conf : ZoneConf} {z z' : Zone} {obj : Object} {forDel : Bool}
    {old : Option DumpInfo} {ret dump : DumpInfo} (h : ZoneInv conf z)
    (hj : joinGroup conf z obj forDel old ret = some (z', dump)) : ZoneInv conf z' := by
  have hlog : ∀ (p : DumpInfo) (mem : Memory Cell),
      BufInv conf.toConf true { z.log with dumpInfo := p, mem := mem } :=
    fun p mem => h.log.of_map rfl rfl rfl
  simp only [joinGroup] at hj
  split at hj
  · split_ifs at hj
    · cases hj
      exact h.update_log (hlog _ _) _
    · cases hj
      exact h.update_log ((hlog _ _).newGroup _) _
    · cases hj
      exact h.update_log (hlog _ _) z.logBatchNrObj
  · cases hj

theorem insertReady_inv {conf : ZoneConf} {z : Zone} {obj : Object} {forDel : Bool}
    {old : Option DumpInfo} {ret : DumpInfo} {out : Inserted} (h : ZoneInv conf z)
    (hkept : forDel = true → LastKept z.flush obj.key)
    (hins : insertReady conf z obj forDel old ret = some out) : ZoneInv conf out.zone := by
  cases forDel with
  | true =>
    simp only [insertReady, insertDelete, if_true] at hins
    split_ifs at hins with hlogen
    obtain ⟨⟨log, cached⟩, hl, hins⟩ := Option.bind_eq_some_iff.1 hins
    obtain ⟨⟨flush, inFlush⟩, hf, hins⟩ := Option.bind_eq_some_iff.1 hins
    obtain ⟨log', r, hl', hloginv⟩ := h.log.delete obj hlogen
    obtain ⟨flush', r', hf', hflushinv, hzero, hkeep⟩ := h.flush.invalidate obj
    obtain ⟨rfl, rfl⟩ := Prod.mk.inj (Option.some.inj (hl.symm.trans hl'))
    obtain ⟨rfl, rfl⟩ := Prod.mk.inj (Option.some.inj (hf.symm.trans hf'))
    have hz : ZoneInv conf ((z.set z.logId log).set (!z.logId) flush) := by
      refine h.update rfl rfl rfl rfl ?_ ?_ ?_ ?_
      · rwa [set_both_log]
      · rwa [set_both_flush]
      · rw [set_both_flush]
        exact hzero (hkept rfl)
      · rw [set_both_flush]
        exact hkeep
    dsimp only at hins
    cases cached with
    | some ref =>
      obtain ⟨⟨z'', dump⟩, hj, rfl⟩ := Option.map_eq_some_iff.1 hins
      exact joinGroup_inv hz hj
    | none =>
      cases inFlush with
      | some ref =>
        cases hins
        exact hz
      | none =>
        cases hins
        exact hz
  | false =>
    simp only [insertReady, insertStore, Bool.false_eq_true, if_false] at hins
    obtain ⟨⟨log, cached⟩, hl, hins⟩ := Option.bind_eq_some_iff.1 hins
    obtain ⟨log', ref, hl', hloginv⟩ := h.log.write obj
    obtain ⟨rfl, rfl⟩ := Prod.mk.inj (Option.some.inj (hl.symm.trans hl'))
    have hz : ZoneInv conf (z.set z.logId log) := h.update_log hloginv z.logBatchNrObj
    rw [Option.bind_some] at hins
    split_ifs at hins
    · obtain ⟨⟨z'', dump⟩, hj, rfl⟩ := Option.map_eq_some_iff.1 hins
      exact joinGroup_inv hz hj
    · cases hins
      exact hz

theorem invalidate_both_inv {conf : ZoneConf} {z : Zone} {obj : Object} {log flush : Buffer}
    {inLog inFlush : Option ItemRef} (h : ZoneInv conf z) (hkept : LastKept z.flush obj.key)
    (hl : lookup conf.toConf z.log obj .invalidate = some (log, inLog))
    (hf : lookup conf.toConf z.flush obj .invalidate = some (flush, inFlush)) :
    ZoneInv conf ((z.set z.logId log).set (!z.logId) flush) := by
  obtain ⟨log', r, hl', hloginv, -⟩ := h.log.invalidate obj
  obtain ⟨flush', r', hf', hflushinv, hzero, hkeep⟩ := h.flush.invalidate obj
  obtain ⟨rfl, rfl⟩ := Prod.mk.inj (Option.some.inj (hl.symm.trans hl'))
  obtain ⟨rfl, rfl⟩ := Prod.mk.inj (Option.some.inj (hf.symm.trans hf'))
  refine h.update rfl rfl rfl rfl ?_ ?_ ?_ ?_
  · rwa [set_both_log]
  · rwa [set_both_flush]
  · rw [set_both_flush]
    exact hzero hkept
  · rw [set_both_flush]
    exact hkeep

theorem insertBusy_inv {conf : ZoneConf} {z : Zone} {obj : Object} {ret : DumpInfo}
    {out : Inserted} (h : ZoneInv conf z) (hkept : LastKept z.flush obj.key)
    (hins : insertBusy conf z obj ret = some out) : ZoneInv conf out.zone := by
  obtain ⟨⟨log, inLog⟩, hl, hins⟩ := Option.bind_eq_some_iff.1 hins
  obtain ⟨⟨flush, inFlush⟩, hf, rfl⟩ := Option.map_eq_some_iff.1 hins
  exact invalidate_both_inv h hkept hl hf

/-! ### The switch -/

theorem countItems_eq_zero {conf : Conf} {buf : Buffer} {p : ItemStatus → Bool}
    (hinvalid : p .invalid = false) (h : ∀ ref it, buf.Holds ref it → p it.status = false) :
    countItems conf buf p = 0 := by
  refine Finset.sum_eq_zero fun i _ => ?_
  rw [chainCount, Nat.cast_eq_zero, List.countP_eq_zero]
  intro it hit
  obtain ⟨j, hj⟩ := List.mem_iff_getElem?.1 hit
  by_cases hlive : it.Live
  · rw [h ⟨i, j⟩ it ⟨hj, hlive⟩]
    exact Bool.false_ne_true
  · rw [not_not.1 hlive, hinvalid]
    exact Bool.false_ne_true

theorem status_of_not_busy {it : MapItem} (h : it.status.busy = false) (hlive : it.Live) :
    it.status = .flushed ∨ it.status = .deleted := by
  cases hs : it.status with
  | valid => rw [hs] at h; cases h
  | flushing => rw [hs] at h; cases h
  | invalid => exact absurd hs hlive
  | flushed => exact Or.inl rfl
  | deleted => exact Or.inr rfl

theorem BufInv.to_flush {conf : Conf} {buf : Buffer} (h : BufInv conf true buf) :
    BufInv conf false { buf with map := { buf.map with flushHead := none } } := by
  obtain ⟨l, hl, hmem, -⟩ := h.list
  exact ⟨h.ok, h.inserted, h.pending, h.noDeleted, (fun h0 => by cases h0),
    l, hl, hmem, fun _ _ h0 => by cases h0⟩

theorem BufInv.to_log {conf : Conf} {isLog : Bool} {buf buf' : Buffer} {m : WalMap}
    (h : BufInv conf isLog buf) (hzero : buf.nrObjectsInserted = 0) (hm : reinit conf buf.map = some m)
    (hmap : buf'.map = m) (hins : buf'.nrObjectsInserted = 0) (hpend : buf'.nrPendingIo = 0) :
    BufInv conf true buf' := by
  obtain ⟨l, hl, hmem, -⟩ := h.list
  obtain ⟨hlasso, htable⟩ := reinit_lasso hl hm
  obtain ⟨hok, hsub⟩ := reinit_spec h.ok hm
  have hdeleted : ∀ ref it, buf'.Holds ref it → it.status = .deleted := by
    intro ref it hit
    have hit' : ({ buf with map := m } : Buffer).Holds ref it := by
      rw [← hmap]
      exact hit
    have hbusy := status_of_countItems_zero h.ok (h.inserted.symm.trans hzero) (hsub ref it hit')
    refine (status_of_not_busy hbusy hit.2).resolve_left fun hflushed => ?_
    -- a flushed item is in a bucket of the list, and those are reset
    have hbucket := hmem ref it (hsub ref it hit') (Or.inr hflushed)
    have hentry : (m.table ref.bucket).entry[ref.index]? = some it := hit'.1
    rw [htable, if_pos hbucket] at hentry
    exact Bucket.reset_not_live hentry hit.2
  refine ⟨fun i => ?_, ?_, ?_, ?_, ?_, [], ?_, ?_, ?_⟩
  · rw [hmap]
    exact hok i
  · rw [hins, countItems_eq_zero rfl]
    intro ref it hit
    rw [hdeleted ref it hit]
    rfl
  · rw [hpend, countItems_eq_zero rfl]
    intro ref it hit
    rw [hdeleted ref it hit]
    rfl
  · intro h0 ref it hit hd
    have hit' : ({ buf with map := m } : Buffer).Holds ref it := by
      rw [← hmap]
      exact hit
    exact h.noDeleted h0 ref it (hsub ref it hit') hd
  · exact fun _ ref it hit => Or.inr (hdeleted ref it hit)
  · rw [hmap]
    exact hlasso
  · intro ref it hit
    exact not_flushing_of (hdeleted ref it hit) (by decide) (by decide)
  · exact fun h0 => by cases h0

theorem ZoneInv.inFlight_nil {conf : ZoneConf} {z : Zone} (h : ZoneInv conf z)
    (hzero : z.flush.nrObjectsInserted = 0) : z.inFlight = [] := by
  rw [List.eq_nil_iff_forall_not_mem]
  intro io hio
  obtain ⟨it, hit, hs⟩ := Option.map_eq_some_iff.1 (h.inFlight io hio).2
  have hbusy := status_of_countItems_zero h.flush.ok (h.flush.inserted.symm.trans hzero)
    ⟨hit, live_of_flushing hs⟩
  rw [hs] at hbusy
  cases hbusy

/-- The flush buffer as it takes requests again. -/
def Zone.nextLog (conf : ZoneConf) (z : Zone) (m : WalMap) : Buffer :=
  { z.flush.rewind conf.toConf (!z.logId) with nrObjectsInserted := 0, nrPendingIo := 0, map := m }

/-- The log buffer as it is handed to the flusher. -/
def Zone.nextFlush (z : Zone) : Buffer :=
  { z.log with map := { z.log.map with flushHead := none } }

theorem startFlush_cases {conf : ZoneConf} {z z' : Zone} (h : startFlush conf z = some z') :
    ∃ m, reinit conf.toConf z.flush.map = some m ∧ z'.log = z.nextLog conf m ∧
      z'.flush = z.nextFlush ∧ z'.logId = !z.logId ∧ z'.inFlight = z.inFlight ∧
      z'.flushDone = false ∧ z'.flushDoing = true ∧ z'.pollFlushMaxCnt = z.pollFlushMaxCnt ∧
      z'.logBatchNrObj = z.logBatchNrObj := by
  obtain ⟨z₁, hs, rfl⟩ := Option.map_eq_some_iff.1 h
  obtain ⟨m, hm, rfl⟩ := Option.map_eq_some_iff.1 hs
  refine ⟨m, hm, ?_, ?_, rfl, rfl, rfl, rfl, rfl, rfl⟩
  · show Function.update (Function.update z.cache z.logId z.nextFlush) (!z.logId)
      (z.nextLog conf m) (!z.logId) = z.nextLog conf m
    rw [Function.update_self]
  · show Function.update (Function.update z.cache z.logId z.nextFlush) (!z.logId)
      (z.nextLog conf m) (!!z.logId) = z.nextFlush
    rw [Bool.not_not, Function.update_of_ne (by simp), Function.update_self]

theorem startFlush_inv {conf : ZoneConf} {z z' : Zone} (h : ZoneInv conf z)
    (hswitch : z.canSwitch = true) (hwork : z.log.nrObjectsInserted ≠ 0)
    (hstart : startFlush conf z = some z') : ZoneInv conf z' := by
  have hzero := h.flag.1 (Bool.and_eq_true_iff.1 hswitch).1
  obtain ⟨m, hm, hlog, hflush, hid, hio, hdone, hdoing, -, -⟩ := startFlush_cases hstart
  rw [h.inFlight_nil hzero] at hio
  refine ⟨?_, ?_, ?_, ?_, ?_, ?_⟩
  · rw [hlog]
    exact h.flush.to_log hzero hm rfl rfl rfl
  · rw [hflush]
    exact h.log.to_flush
  · rw [hio]
    exact fun io hmem => absurd hmem List.not_mem_nil
  · rw [hio]
    exact List.nodup_nil
  · rw [hdone, hdoing]
    rfl
  · rw [hdone, hflush]
    exact ⟨(fun h0 => by cases h0), fun h0 => absurd h0 hwork⟩

/-! ### The flusher -/

theorem Change.keeps_flushing {buf buf' : Buffer} {ref : ItemRef} {it it' : MapItem}
    (hch : Change buf buf' ref it' (some it)) (hit : buf.item? ref = some it) {r : ItemRef}
    {x : MapItem} (hx : buf.item? r = some x) (hs : x.status = .flushing)
    (hne : r ≠ ref ∨ it.status ≠ .flushing) : buf'.item? r = some x := by
  refine ((hch.puts r x).2 ?_).1
  rw [if_neg]
  · exact ⟨hx, live_of_flushing hs⟩
  · rintro rfl
    obtain rfl : it = x := Option.some.inj (hit.symm.trans hx)
    exact hne.elim (fun h0 => h0 rfl) (fun h0 => h0 hs)

theorem Change.item {buf buf' : Buffer} {ref : ItemRef} {it' : MapItem} {old : Option MapItem}
    (hch : Change buf buf' ref it' old) (hlive : it'.Live) : buf'.item? ref = some it' := by
  refine ((hch.puts ref it').2 ?_).1
  rw [if_pos rfl]
  exact ⟨rfl, hlive⟩

theorem MapOk.setStatus {conf : Conf} {buf buf' : Buffer} {ref : ItemRef} {it : MapItem}
    {s : ItemStatus} {v : ℤ} (h : MapOk conf buf) (hit : buf.item? ref = some it)
    (hlive : it.Live)
    (htable : buf'.map.table = Function.update buf.map.table ref.bucket
      ((buf.map.table ref.bucket).replace ref.index { it with status := s } v))
    (hv : v = (buf.map.table ref.bucket).validNrEntries - 1 +
      ({ it with status := s } : MapItem).weight) : MapOk conf buf' :=
  h.update htable ((h ref.bucket).replace_same hit hlive rfl hv)

theorem BufInv.flushEntry {conf : Conf} {buf buf' : Buffer} {ref : ItemRef} {it : MapItem}
    {keyBuff sub stop : Bool} {l : List ℕ} (h : BufInv conf false buf)
    (hl : buf.map.queue.Lasso l) (hmem : ref.bucket ∈ l) (hit : buf.item? ref = some it)
    (hf : flushEntry conf buf ref it keyBuff = some (buf', sub, stop)) :
    BufInv conf false buf' ∧ buf'.map.queue = buf.map.queue ∧
      (∀ r x, buf.item? r = some x → x.status = .flushing → buf'.item? r = some x) ∧
      buf'.nrObjectsInserted = buf.nrObjectsInserted ∧
      (sub = true → it.status = .valid ∧ buf'.statusOf ref = some .flushing) := by
  rcases flushEntry_cases hf with ⟨rfl, rfl⟩ | ⟨hs, rfl, rfl⟩ | ⟨hs, rfl, rfl⟩
  · exact ⟨h, rfl, fun _ _ hx _ => hx, rfl, fun h0 => by cases h0⟩
  · have hlive := live_of_deleted hs
    have hch : Change buf (buf.withBucket buf.map ref.bucket
        ((buf.map.table ref.bucket).replace ref.index { it with status := .invalid }
          ((buf.map.table ref.bucket).validNrEntries - 1))) ref { it with status := .invalid }
        (some it) := .replace hit rfl
    refine ⟨h.change_same (h.ok.setStatus hit hlive rfl ?_) hch hlive ?_ ?_ (fun _ h0 => by cases h0)
      (fun h0 => by cases h0) rfl rfl
      (fun _ _ _ => not_flushing_of (s := .invalid) rfl (by decide) (by decide)), rfl, ?_, rfl,
      fun h0 => by cases h0⟩
    · rw [MapItem.weight_invalid (fun hl => hl rfl), Nat.cast_zero, add_zero]
    · rw [counts_of_status _ hs, counts_of_status (s := .invalid) _ rfl]
      simp [ItemStatus.busy, Buffer.withBucket]
    · rw [counts_of_status _ hs, counts_of_status (s := .invalid) _ rfl]
      simp [ItemStatus.isFlushing, Buffer.withBucket]
    · intro r x hx hxs
      exact hch.keeps_flushing hit hx hxs (Or.inr (by rw [hs]; decide))
  · have hlive := live_of_valid hs
    have hch : Change buf { buf.withBucket buf.map ref.bucket
        ((buf.map.table ref.bucket).replace ref.index { it with status := .flushing }
          (buf.map.table ref.bucket).validNrEntries) with nrPendingIo := buf.nrPendingIo + 1 } ref
        { it with status := .flushing } (some it) := .replace hit rfl
    refine ⟨h.change_same (h.ok.setStatus hit hlive rfl ?_) hch hlive ?_ ?_ (fun _ h0 => by cases h0)
      (fun h0 => by cases h0) rfl rfl ?_, rfl, ?_, rfl, ?_⟩
    · rw [MapItem.weight_live (live_of_flushing rfl), Nat.cast_one, sub_add_cancel]
    · rw [counts_of_status _ hs, counts_of_status (s := .flushing) _ rfl]
      simp [ItemStatus.busy, Buffer.withBucket]
    · rw [counts_of_status _ hs, counts_of_status (s := .flushing) _ rfl]
      simp [ItemStatus.isFlushing]
    · intro l' hl' _ _
      rw [hl'.unique hl]
      exact hmem
    · intro r x hx hxs
      exact hch.keeps_flushing hit hx hxs (Or.inr (by rw [hs]; decide))
    · intro _
      refine ⟨hs, ?_⟩
      rw [Buffer.statusOf, hch.item (live_of_flushing rfl)]
      rfl

theorem BufInv.completeEntry {conf : Conf} {buf buf' : Buffer} {ref : ItemRef} {it : MapItem}
    (h : BufInv conf false buf) (hit : buf.item? ref = some it)
    (hc : completeEntry buf ref it = some buf') :
    BufInv conf false buf' ∧ 0 < buf.nrObjectsInserted ∧
      ∀ r x, r ≠ ref → buf.item? r = some x → x.status = .flushing → buf'.item? r = some x := by
  obtain ⟨hs, rfl⟩ := completeEntry_cases hc
  have hlive := live_of_flushing hs
  have hch : Change buf { buf.withBucket buf.map ref.bucket
      ((buf.map.table ref.bucket).replace ref.index { it with status := .flushed }
        (buf.map.table ref.bucket).validNrEntries) with
      nrPendingIo := buf.nrPendingIo - 1
      nrObjectsInserted := buf.nrObjectsInserted - 1 } ref { it with status := .flushed }
      (some it) := .replace hit rfl
  refine ⟨h.change_same (h.ok.setStatus hit hlive rfl ?_) hch hlive ?_ ?_ (fun _ h0 => by cases h0)
    (fun h0 => by cases h0) rfl rfl ?_, ?_, ?_⟩
  · rw [MapItem.weight_live (live_of_flushed rfl), Nat.cast_one, sub_add_cancel]
  · rw [counts_of_status _ hs, counts_of_status (s := .flushed) _ rfl]
    simp [ItemStatus.busy]
  · rw [counts_of_status _ hs, counts_of_status (s := .flushed) _ rfl]
    simp [ItemStatus.isFlushing]
  · exact fun l _ hmem _ => hmem ref it ⟨hit, hlive⟩ (Or.inl hs)
  · rw [h.inserted]
    exact countItems_pos h.ok ⟨hit, hlive⟩ (by rw [hs]; rfl)
  · exact fun r x hne hx hxs => hch.keeps_flushing hit hx hxs (Or.inl hne)

/-- The zone after the flusher has taken an item. -/
def Zone.submitted (z : Zone) (buf : Buffer) (sub : Bool) (ref : ItemRef) : Zone :=
  { z.set (!z.logId) buf with inFlight := z.inFlight ++ if sub then [(!z.logId, ref)] else [] }

theorem flushItems_succ (conf : ZoneConf) (keyBuff : ItemRef → Bool) (i cnt j : ℕ) (z : Zone) :
    flushItems conf keyBuff i (cnt + 1) j z =
      (z.flush.item? ⟨i, j⟩).bind fun it =>
        (flushEntry conf.toConf z.flush ⟨i, j⟩ it (keyBuff ⟨i, j⟩)).bind fun (buf, sub, stop) =>
          if stop then some (z.submitted buf sub ⟨i, j⟩, 0, true)
          else
            (flushItems conf keyBuff i cnt (j + 1) (z.submitted buf sub ⟨i, j⟩)).map
              fun (z', n, s) => (z', n + if sub then 1 else 0, s) := by
  have hz : ∀ buf, z.submitted buf false ⟨i, j⟩ = z.set (!z.logId) buf := by
    intro buf
    rw [Zone.submitted]
    simp only [Bool.false_eq_true, if_false, List.append_nil]
    rfl
  simp only [flushItems]
  congr 1
  funext it
  congr 1
  funext ⟨buf, sub, stop⟩
  cases sub with
  | true => rfl
  | false =>
    rw [hz]
    rfl

/-- One item for the flusher. -/
theorem ZoneInv.submit {conf : ZoneConf} {z : Zone} {buf : Buffer} {ref : ItemRef} {it : MapItem}
    {keyBuff sub stop : Bool} {l : List ℕ} (h : ZoneInv conf z) (hl : z.flush.map.queue.Lasso l)
    (hmem : ref.bucket ∈ l) (hit : z.flush.item? ref = some it)
    (hf : Wal.flushEntry conf.toConf z.flush ref it keyBuff = some (buf, sub, stop)) :
    ZoneInv conf (z.submitted buf sub ref) ∧
      (z.submitted buf sub ref).flush.map.queue = z.flush.map.queue := by
  obtain ⟨hbuf, hqueue, hkeep, hins, hsub⟩ := h.flush.flushEntry hl hmem hit hf
  set z' := z.submitted buf sub ref
  have hflush : z'.flush = buf := set_flush_flush z buf
  have hlog : z'.log = z.log := set_flush_log z buf
  have hid : z'.logId = z.logId := rfl
  have hio : z'.inFlight = z.inFlight ++ if sub then [(!z.logId, ref)] else [] := rfl
  have hstay : ∀ io ∈ z.inFlight, io.1 = !z'.logId ∧ z'.flush.statusOf io.2 = some .flushing := by
    intro io hmem'
    obtain ⟨h1, h2⟩ := h.inFlight io hmem'
    obtain ⟨x, hx, hs⟩ := Option.map_eq_some_iff.1 h2
    refine ⟨by rw [h1, hid], ?_⟩
    rw [hflush, Buffer.statusOf, hkeep io.2 x hx hs, Option.map_some, hs]
  refine ⟨⟨?_, ?_, ?_, ?_, ?_, ?_⟩, ?_⟩
  · rw [hlog]
    exact h.log
  · rw [hflush]
    exact hbuf
  · intro io hmem'
    rw [hio] at hmem'
    rcases List.mem_append.1 hmem' with hold | hnew
    · exact hstay io hold
    · split_ifs at hnew with hsub'
      · obtain rfl := List.mem_singleton.1 hnew
        refine ⟨by rw [hid], ?_⟩
        rw [hflush]
        exact (hsub hsub').2
      · exact absurd hnew List.not_mem_nil
  · rw [hio]
    split_ifs with hsub'
    · refine nodup_snoc h.nodup fun hin => ?_
      obtain ⟨x, hx, hs⟩ := Option.map_eq_some_iff.1 (h.inFlight _ hin).2
      obtain rfl : it = x := Option.some.inj (hit.symm.trans hx)
      exact absurd ((hsub hsub').1.symm.trans hs) (by decide)
    · rw [List.append_nil]
      exact h.nodup
  · exact h.flags
  · rw [hflush, hins]
    exact h.flag
  · rw [hflush, hqueue]

theorem flushItems_inv {conf : ZoneConf} {keyBuff : ItemRef → Bool} {i cnt j : ℕ} {z z' : Zone}
    {n : ℤ} {stop : Bool} {l : List ℕ} (h : ZoneInv conf z) (hl : z.flush.map.queue.Lasso l)
    (hi : i ∈ l) (hf : flushItems conf keyBuff i cnt j z = some (z', n, stop)) :
    ZoneInv conf z' ∧ z'.flush.map.queue = z.flush.map.queue ∧ z'.logId = z.logId := by
  induction cnt generalizing j z n stop with
  | zero =>
    cases hf
    exact ⟨h, rfl, rfl⟩
  | succ cnt ih =>
    rw [flushItems_succ] at hf
    obtain ⟨it, hit, hf⟩ := Option.bind_eq_some_iff.1 hf
    obtain ⟨⟨buf, sub, stop₁⟩, hentry, hf⟩ := Option.bind_eq_some_iff.1 hf
    obtain ⟨hinv, hqueue⟩ := h.submit hl hi hit hentry
    dsimp only at hf
    by_cases hstop : stop₁ = true
    · rw [if_pos hstop] at hf
      cases hf
      exact ⟨hinv, hqueue, rfl⟩
    · rw [if_neg hstop] at hf
      obtain ⟨⟨z₂, n₂, s₂⟩, hrest, hf⟩ := Option.map_eq_some_iff.1 hf
      cases hf
      obtain ⟨hinv', hqueue', hid⟩ := ih hinv (hqueue ▸ hl) hrest
      exact ⟨hinv', hqueue'.trans hqueue, hid⟩

/-- The place of the flusher moves in the list. -/
theorem ZoneInv.move {conf : ZoneConf} {z : Zone} {o : Option ℕ} {l : List ℕ} (h : ZoneInv conf z)
    (hl : z.flush.map.queue.Lasso l) (ho : ∀ i, o = some i → i ∈ l) :
    ZoneInv conf (z.set (!z.logId) { z.flush with map := { z.flush.map with flushHead := o } }) := by
  obtain ⟨l', hl', hmem, -⟩ := h.flush.list
  have hflush : BufInv conf.toConf false
      { z.flush with map := { z.flush.map with flushHead := o } } :=
    ⟨h.flush.ok, h.flush.inserted, h.flush.pending, h.flush.noDeleted, (fun h0 => by cases h0), l', hl',
      hmem, fun _ i hi => hl.unique hl' ▸ ho i hi⟩
  refine h.update rfl rfl rfl rfl ?_ ?_ ?_ ?_
  · rw [set_flush_log]
    exact h.log
  · rw [set_flush_flush]
    exact hflush
  · rw [set_flush_flush]
  · rw [set_flush_flush]
    exact fun _ _ hx _ => hx

theorem flushBuckets_inv {conf : ZoneConf} {keyBuff : ItemRef → Bool} {fuel : ℕ} {o : Option ℕ}
    {n : ℤ} {z z' : Zone} {l : List ℕ} (h : ZoneInv conf z) (hl : z.flush.map.queue.Lasso l)
    (ho : ∀ i, o = some i → i ∈ l) (hf : flushBuckets conf keyBuff fuel o n z = some z') :
    ZoneInv conf z' := by
  induction fuel generalizing o n z with
  | zero =>
    cases o with
    | none =>
      cases hf
      exact h
    | some i => cases hf
  | succ fuel ih =>
    cases o with
    | none =>
      cases hf
      exact h
    | some i =>
      simp only [flushBuckets] at hf
      split_ifs at hf
      · cases hf
        exact h
      · obtain ⟨⟨z₁, k, stop⟩, hitems, hf⟩ := Option.bind_eq_some_iff.1 hf
        obtain ⟨hinv, hqueue, hid⟩ := flushItems_inv h hl (ho i rfl) hitems
        have hl₁ : z₁.flush.map.queue.Lasso l := hqueue ▸ hl
        have hnext : ∀ c, z₁.flush.map.queue.next i = some c → c ∈ l :=
          fun c hc => hl₁.next_mem (ho i rfl) hc
        have hmove := hinv.move hl₁ hnext
        rw [← hid] at hf
        dsimp only at hf
        split_ifs at hf
        · cases hf
          exact hmove
        · refine ih hmove ?_ hnext hf
          rw [set_flush_flush]
          exact hl₁

theorem flushProc_inv {conf : ZoneConf} {keyBuff : ItemRef → Bool} {z z' : Zone}
    (h : ZoneInv conf z) (hf : flushProc conf keyBuff z = some z') : ZoneInv conf z' := by
  obtain ⟨l, hl, hmem, hhead⟩ := h.flush.list
  rw [flushProc] at hf
  split_ifs at hf
  · cases hf
    exact h
  · refine flushBuckets_inv h hl (fun i hi => ?_) hf
    cases hplace : z.flush.map.flushHead with
    | some k =>
      rw [hplace] at hi
      cases hi
      exact hhead rfl _ hplace
    | none =>
      rw [hplace] at hi
      exact hl.first_mem hi

theorem flushComplete_inv {conf : ZoneConf} {z z' : Zone} {n : ℕ} (h : ZoneInv conf z)
    (hf : flushComplete z n = some z') : ZoneInv conf z' := by
  rw [flushComplete] at hf
  split at hf
  · cases hf
    exact h
  · rename_i id ref hn
    have hmem := List.mem_of_getElem? hn
    obtain ⟨hid, -⟩ := h.inFlight _ hmem
    obtain rfl : id = !z.logId := hid
    obtain ⟨it, hit, hf⟩ := Option.bind_eq_some_iff.1 hf
    obtain ⟨buf, hc, rfl⟩ := Option.map_eq_some_iff.1 hf
    obtain ⟨hbuf, hpos, hkeep⟩ := h.flush.completeEntry hit hc
    have hdone : z.flushDone = false := by
      refine Bool.eq_false_of_not_eq_true fun h0 => ?_
      have := h.flag.1 h0
      omega
    have hrest : ∀ io ∈ z.inFlight.eraseIdx n,
        io.1 = !z.logId ∧ buf.statusOf io.2 = some .flushing := by
      intro io hio
      obtain ⟨h1, h2⟩ := h.inFlight io (List.mem_of_mem_eraseIdx hio)
      obtain ⟨x, hx, hs⟩ := Option.map_eq_some_iff.1 h2
      refine ⟨h1, ?_⟩
      have hne : io.2 ≠ ref := by
        intro h0
        obtain ⟨k, hk, hio'⟩ := List.mem_eraseIdx_iff_getElem?.1 hio
        obtain ⟨hlt, -⟩ := List.getElem?_eq_some_iff.1 hio'
        refine hk ((List.getElem?_inj hlt h.nodup).1 (hio'.trans ?_))
        rw [hn, ← h1, ← h0]
      rw [Buffer.statusOf, hkeep io.2 x hne hx hs, Option.map_some, hs]
    have hinv : ∀ done : Bool, (done = true ↔ buf.nrObjectsInserted = 0) →
        ZoneInv conf { z.set (!z.logId) buf with
          inFlight := z.inFlight.eraseIdx n, flushDone := done, flushDoing := !done } := by
      intro done hflag
      refine ⟨?_, ?_, ?_, h.nodup.eraseIdx n, rfl, ?_⟩
      · exact (set_flush_log z buf).symm ▸ h.log
      · exact (set_flush_flush z buf).symm ▸ hbuf
      · exact (set_flush_flush z buf).symm ▸ hrest
      · exact (set_flush_flush z buf).symm ▸ hflag
    split_ifs with hzero
    · exact hinv true ⟨fun _ => hzero, fun _ => rfl⟩
    · have hz := hinv z.flushDone ⟨fun h0 => absurd (hdone.symm.trans h0) (by decide),
        fun h0 => absurd h0 hzero⟩
      rw [← h.flags] at hz
      exact hz

/-! ### The calls -/

/-- What is asked of a call: it does not take the last object the flusher has to write away, and a
switch hands over at least one object. -/
def KeepsWork (conf : ZoneConf) (z : Zone) : ZoneEvent → Prop
  | .insert obj forDel _ =>
      if isFull conf z obj forDel = true ∧ z.canSwitch = true then
        z.log.nrObjectsInserted ≠ 0 ∧ (forDel = true → LastKept z.log obj.key)
      else isFull conf z obj forDel = true ∨ forDel = true → LastKept z.flush obj.key
  | .invalidate obj => LastKept z.flush obj.key
  | _ => True

theorem ZoneInv.batch {conf : ZoneConf} {z : Zone} (h : ZoneInv conf z) (n : ℕ) :
    ZoneInv conf { z with logBatchNrObj := n } :=
  ⟨h.log, h.flush, h.inFlight, h.nodup, h.flags, h.flag⟩

theorem ZoneInv.markBatch {conf : ZoneConf} {z : Zone} (h : ZoneInv conf z) :
    ZoneInv conf z.markBatch := by
  have hlog : BufInv conf.toConf true { z.log with dumpInfo := z.groupDump } :=
    h.log.of_map rfl rfl rfl
  exact h.update_log hlog z.logBatchNrObj

theorem insertObject_inv {conf : ZoneConf} {z : Zone} {obj : Object} {forDel : Bool}
    {ret : DumpInfo} {out : Inserted} (h : ZoneInv conf z)
    (hwork : KeepsWork conf z (.insert obj forDel ret))
    (hins : insertObject conf z obj forDel ret = some out) : ZoneInv conf out.zone := by
  simp only [KeepsWork] at hwork
  simp only [insertObject] at hins
  have hlog : z.markBatch.log.map = z.log.map ∧
      z.markBatch.log.nrObjectsInserted = z.log.nrObjectsInserted := by
    rw [Zone.markBatch, set_log_log]
    exact ⟨rfl, rfl⟩
  have hflush : z.markBatch.flush = z.flush := set_log_flush z _
  by_cases hfull : isFull conf z obj forDel = true
  · rw [if_pos hfull] at hins
    by_cases hswitch : z.canSwitch = true
    · rw [if_pos ⟨hfull, hswitch⟩] at hwork
      rw [if_pos (show z.markBatch.canSwitch = true from hswitch)] at hins
      obtain ⟨z₂, hstart, hins⟩ := Option.bind_eq_some_iff.1 hins
      have hinv := startFlush_inv h.markBatch hswitch (by rw [hlog.2]; exact hwork.1) hstart
      refine insertReady_inv hinv (fun hd => ?_) hins
      -- the flush buffer is the log buffer from before the switch
      obtain ⟨m, -, -, hflush₂, -⟩ := startFlush_cases hstart
      intro hvalid hone
      rw [hflush₂] at hvalid hone
      have hvalid' : ValidOf z.log obj.key := by
        obtain ⟨ref, it, hit, hrest⟩ := hvalid
        refine ⟨ref, it, ⟨?_, hit.2⟩, hrest⟩
        have hitem : (z.markBatch.log.map.table ref.bucket).entry[ref.index]? = some it := hit.1
        rw [hlog.1] at hitem
        exact hitem
      exact hwork.2 hd hvalid' (hlog.2.symm.trans hone)
    · rw [if_neg (fun h0 => hswitch h0.2)] at hwork
      rw [if_neg (show ¬ z.markBatch.canSwitch = true from hswitch)] at hins
      exact insertBusy_inv h.markBatch (hflush.symm ▸ hwork (Or.inl hfull)) hins
  · rw [if_neg (fun h0 => hfull h0.1)] at hwork
    rw [if_neg hfull] at hins
    exact insertReady_inv h (fun hd => hwork (Or.inr hd)) hins

theorem pollZone_inv {conf : ZoneConf} {z : Zone} {ans : PollAnswers} {out : Zone × List DumpInfo}
    (h : ZoneInv conf z) (hpoll : pollZone conf ans z = some out) : ZoneInv conf out.1 := by
  simp only [pollZone] at hpoll
  by_cases hperiod : (conf.periodicFlush && z.canSwitch && ans.flushPeriod &&
      decide (z.log.nrObjectsInserted ≠ 0)) = true
  · rw [if_pos hperiod] at hpoll
    simp only [Bool.and_eq_true, decide_eq_true_eq] at hperiod
    obtain ⟨z₁, hstart, hpoll⟩ := Option.bind_eq_some_iff.1 hpoll
    obtain ⟨z₂, hflush, rfl⟩ := Option.map_eq_some_iff.1 hpoll
    have hinv := flushProc_inv (startFlush_inv h hperiod.1.1.2 hperiod.2 hstart) hflush
    dsimp only
    split_ifs
    · exact hinv.batch _
    · exact hinv
  · rw [if_neg hperiod] at hpoll
    obtain ⟨z₁, hflush, hpoll⟩ := Option.bind_eq_some_iff.1 hpoll
    have hinv := flushProc_inv h hflush
    split_ifs at hpoll
    · cases hpoll
      exact hinv.update_log (hinv.log.newGroup z₁.logId) _
    · cases hpoll
      exact hinv.update_log (hinv.log.newGroup z₁.logId) _
    · cases hpoll
      exact hinv.batch _
    · cases hpoll
      exact hinv

theorem retrieve_same {conf : ZoneConf} {z z' : Zone} {obj : Object}
    {found : Option (Bool × ItemRef)} (hlog : MapOk conf.toConf z.log)
    (hflush : MapOk conf.toConf z.flush) (hr : retrieve conf z obj = some (z', found)) : z' = z := by
  have hself : ∀ id, z.set id (z.cache id) = z := by
    intro id
    rw [Zone.set, Function.update_eq_self]
  rw [retrieve] at hr
  obtain ⟨⟨log, inLog⟩, hl, hr⟩ := Option.bind_eq_some_iff.1 hr
  obtain rfl := lookup_read_same hlog hl
  have hz : z.set z.logId z.log = z := hself z.logId
  dsimp only at hr
  rw [hz] at hr
  cases inLog with
  | some ref =>
    cases hr
    rfl
  | none =>
    obtain ⟨⟨flush, inFlush⟩, hf, hr⟩ := Option.map_eq_some_iff.1 hr
    obtain rfl := lookup_read_same hflush hf
    cases hr
    exact hself (!z.logId)

theorem zoneStep_inv {conf : ZoneConf} {z z' : Zone} {ev : ZoneEvent} (h : ZoneInv conf z)
    (hwork : KeepsWork conf z ev) (hstep : zoneStep conf z ev = some z') : ZoneInv conf z' := by
  cases ev with
  | insert obj forDel ret =>
    obtain ⟨out, hins, rfl⟩ := Option.map_eq_some_iff.1 hstep
    exact insertObject_inv h hwork hins
  | invalidate obj =>
    obtain ⟨⟨z₁, rc⟩, hinv, rfl⟩ := Option.map_eq_some_iff.1 hstep
    obtain ⟨⟨log, inLog⟩, hl, hinv⟩ := Option.bind_eq_some_iff.1 hinv
    obtain ⟨⟨flush, inFlush⟩, hf, heq⟩ := Option.map_eq_some_iff.1 hinv
    have hz := invalidate_both_inv h hwork hl hf
    dsimp only at heq
    cases inFlush with
    | some ref =>
      cases heq
      exact hz
    | none =>
      cases heq
      exact hz
  | retrieve obj =>
    obtain ⟨⟨z₁, found⟩, hr, rfl⟩ := Option.map_eq_some_iff.1 hstep
    exact retrieve_same h.log.ok h.flush.ok hr ▸ h
  | poll ans =>
    obtain ⟨out, hpoll, rfl⟩ := Option.map_eq_some_iff.1 hstep
    exact pollZone_inv h hpoll
  | complete n => exact flushComplete_inv h hstep

theorem bufInv_create (conf : Conf) (isLog id : Bool) (startAddr endAddr : ℕ) :
    BufInv conf isLog (bufferCreate conf id startAddr endAddr) := by
  have hmap : (bufferCreate conf id startAddr endAddr).map = mapCreate := by
    rw [bufferCreate, Buffer.rewind]
    split_ifs <;> rfl
  have hcounters : (bufferCreate conf id startAddr endAddr).nrObjectsInserted = 0 ∧
      (bufferCreate conf id startAddr endAddr).nrPendingIo = 0 := by
    rw [bufferCreate, Buffer.rewind]
    split_ifs <;> exact ⟨rfl, rfl⟩
  have hnone : ∀ ref it, ¬ (bufferCreate conf id startAddr endAddr).Holds ref it := by
    intro ref it hit
    have hitem := hit.1
    rw [Buffer.item?, hmap] at hitem
    have hmem := List.mem_of_getElem? hitem
    simp only [mapCreate, List.mem_cons, List.not_mem_nil, or_false, or_self] at hmem
    exact hit.2 (by rw [hmem]; rfl)
  refine ⟨(mapInv_create hmap).ok, ?_, ?_, ?_, ?_, [], ?_, ?_, ?_⟩
  · rw [hcounters.1, countItems_eq_zero rfl fun ref it hit => absurd hit (hnone ref it)]
  · rw [hcounters.2, countItems_eq_zero rfl fun ref it hit => absurd hit (hnone ref it)]
  · exact fun _ ref it hit => absurd hit (hnone ref it)
  · exact fun _ ref it hit => absurd hit (hnone ref it)
  · rw [hmap]
    exact ⟨List.nodup_nil, Or.inl rfl, rfl, fun _ h => absurd h List.not_mem_nil, trivial⟩
  · exact fun ref it hit => absurd hit (hnone ref it)
  · intro _ i hi
    rw [hmap] at hi
    cases hi

theorem zoneInv_create (conf : ZoneConf) (logStart logEnd flushStart flushEnd : ℕ) (n : ℤ) :
    ZoneInv conf
      { zoneCreate conf logStart logEnd flushStart flushEnd with pollFlushMaxCnt := n } := by
  have hflush := bufInv_create conf.toConf false true flushStart flushEnd
  refine ⟨bufInv_create conf.toConf true false logStart logEnd, hflush, ?_, List.nodup_nil, rfl, ?_⟩
  · exact fun io hmem => absurd hmem List.not_mem_nil
  · refine ⟨fun _ => ?_, fun _ => rfl⟩
    show (bufferCreate conf.toConf true flushStart flushEnd).nrObjectsInserted = 0
    rw [bufferCreate, Buffer.rewind]
    split_ifs <;> rfl

/-- The accounts of a zone. -/
structure Accounted (conf : ZoneConf) (z : Zone) : Prop where
  inserted : ∀ id, (z.cache id).nrObjectsInserted = countItems conf.toConf (z.cache id) ItemStatus.busy
  pending : ∀ id, (z.cache id).nrPendingIo = countItems conf.toConf (z.cache id) ItemStatus.isFlushing
  completes : ∀ io ∈ z.inFlight, (z.cache io.1).statusOf io.2 = some .flushing
  done : z.flushDone = true ↔ countItems conf.toConf z.flush ItemStatus.busy = 0
  switches : z.canSwitch = true → countItems conf.toConf z.flush ItemStatus.busy = 0

theorem ZoneInv.accounted {conf : ZoneConf} {z : Zone} (h : ZoneInv conf z) : Accounted conf z := by
  have hdone : z.flushDone = true ↔ countItems conf.toConf z.flush ItemStatus.busy = 0 := by
    rw [← h.flush.inserted]
    exact h.flag
  have hboth : ∀ {P : Buffer → Prop}, P z.log → P z.flush → ∀ id, P (z.cache id) := by
    intro P hlog hflush id
    by_cases hid : id = z.logId
    · rw [hid]
      exact hlog
    · rw [Bool.eq_not_of_ne hid]
      exact hflush
  refine ⟨?_, ?_, ?_, hdone, ?_⟩
  · exact hboth (P := fun b => b.nrObjectsInserted = countItems conf.toConf b ItemStatus.busy)
      h.log.inserted h.flush.inserted
  · exact hboth (P := fun b => b.nrPendingIo = countItems conf.toConf b ItemStatus.isFlushing)
      h.log.pending h.flush.pending
  · intro io hmem
    obtain ⟨hid, hs⟩ := h.inFlight io hmem
    rw [hid]
    exact hs
  · exact fun hs => hdone.1 (Bool.and_eq_true_iff.1 hs).1

/-- **The accounts of the flusher are right** in every state of a run whose calls leave the flusher
an object to write or find none, whatever the limit of the flusher. -/
theorem accounted_of_run (conf : ZoneConf) (logStart logEnd flushStart flushEnd : ℕ) (n : ℤ)
    (evs : List ZoneEvent) (z : Zone)
    (hwork : Run.Admissible (zoneStep conf) (KeepsWork conf)
      { zoneCreate conf logStart logEnd flushStart flushEnd with pollFlushMaxCnt := n } evs)
    (hrun : Run.run (zoneStep conf)
      { zoneCreate conf logStart logEnd flushStart flushEnd with pollFlushMaxCnt := n } evs =
        some z) :
    Accounted conf z := by
  have hstep : ∀ s ev s', ZoneInv conf s → KeepsWork conf s ev → zoneStep conf s ev = some s' →
      ZoneInv conf s' := fun _ _ _ => zoneStep_inv
  have hinv : ZoneInv conf z := Run.run_inv hstep
    (zoneInv_create conf logStart logEnd flushStart flushEnd n) hwork hrun
  exact hinv.accounted

/-- The buffers have more than one object to write, or none. -/
def ManyLeft (conf : ZoneConf) (z : Zone) : ZoneEvent → Prop
  | .insert obj forDel _ =>
      if isFull conf z obj forDel = true ∧ z.canSwitch = true then
        z.log.nrObjectsInserted ≠ 0 ∧ (forDel = true → z.log.nrObjectsInserted ≠ 1)
      else isFull conf z obj forDel = true ∨ forDel = true → z.flush.nrObjectsInserted ≠ 1
  | .invalidate _ => z.flush.nrObjectsInserted ≠ 1
  | _ => True

instance (conf : ZoneConf) (z : Zone) (ev : ZoneEvent) : Decidable (ManyLeft conf z ev) :=
  match ev with
  | .insert obj forDel _ =>
      inferInstanceAs (Decidable (if isFull conf z obj forDel = true ∧ z.canSwitch = true then
        z.log.nrObjectsInserted ≠ 0 ∧ (forDel = true → z.log.nrObjectsInserted ≠ 1)
      else isFull conf z obj forDel = true ∨ forDel = true → z.flush.nrObjectsInserted ≠ 1))
  | .invalidate _ => inferInstanceAs (Decidable (z.flush.nrObjectsInserted ≠ 1))
  | .retrieve _ => isTrue trivial
  | .poll _ => isTrue trivial
  | .complete _ => isTrue trivial

theorem ManyLeft.keepsWork {conf : ZoneConf} {z : Zone} {ev : ZoneEvent} (h : ManyLeft conf z ev) :
    KeepsWork conf z ev := by
  cases ev with
  | insert obj forDel ret =>
    simp only [ManyLeft] at h
    simp only [KeepsWork]
    split_ifs at h ⊢
    · exact ⟨h.1, fun hd _ => h.2 hd⟩
    · exact fun h0 _ => h h0
  | invalidate obj => exact fun _ => h
  | retrieve obj => exact trivial
  | poll ans => exact trivial
  | complete n => exact trivial

/-- A zone with a log and a periodic flush. -/
def smallZoneConf : ZoneConf :=
  { smallConf with
    flushThreshold := 100
    objectSizeLimit := 2048
    batchNrObj := 8
    batchNrObjAdjust := 1
    periodicFlush := true }

/-- A poll when the flush period is over. -/
def periodPoll : PollAnswers := ⟨true, false, false, fun _ => true⟩

/-- Two objects are flushed while a third one is stored and deleted, and the buffers change their
roles twice. -/
def flushCalls : List ZoneEvent :=
  [.insert ⟨[1], [7], 0⟩ false ⟨false, 0, 0, dumpNotReady⟩,
    .insert ⟨[2], [8], 1⟩ false ⟨false, 0, 0, dumpNotReady⟩, .poll periodPoll,
    .insert ⟨[3], [9], 2⟩ false ⟨false, 0, 0, dumpNotReady⟩,
    .insert ⟨[3], [], 3⟩ true ⟨false, 0, 0, dumpNotReady⟩, .poll periodPoll, .complete 1,
    .complete 0, .insert ⟨[4], [5], 4⟩ false ⟨false, 0, 0, dumpNotReady⟩, .poll periodPoll,
    .retrieve ⟨[4], [0], 5⟩, .poll periodPoll]

theorem accounted_flushCalls :
    ∃ z, Run.run (zoneStep smallZoneConf)
        { zoneCreate smallZoneConf 1048576 2096128 2097152 3144704 with pollFlushMaxCnt := 0 }
        flushCalls = some z ∧
      z.inFlight ≠ [] ∧ Accounted smallZoneConf z := by
  have hadm : Run.Admissible (zoneStep smallZoneConf) (ManyLeft smallZoneConf)
      { zoneCreate smallZoneConf 1048576 2096128 2097152 3144704 with pollFlushMaxCnt := 0 }
      flushCalls := by decide +kernel
  have hsome : ((Run.run (zoneStep smallZoneConf)
      { zoneCreate smallZoneConf 1048576 2096128 2097152 3144704 with pollFlushMaxCnt := 0 }
      flushCalls).map fun z => decide (z.inFlight ≠ [])) = some true := by decide +kernel
  obtain ⟨z, hrun, hio⟩ := Option.map_eq_some_iff.1 hsome
  exact ⟨z, hrun, of_decide_eq_true hio,
    accounted_of_run smallZoneConf _ _ _ _ 0 flushCalls z (hadm.imp fun _ _ _ h => h.keepsWork)
      hrun⟩

/-- The only object of the flush buffer is deleted: nothing is left to write, but the flag still says
that the flush goes on. -/
theorem not_accounted_lastDeleted :
    ∃ z, Run.run (zoneStep smallZoneConf)
        (zoneCreate smallZoneConf 1048576 2096128 2097152 3144704)
        [.insert ⟨[1], [7], 0⟩ false ⟨false, 0, 0, dumpNotReady⟩, .poll periodPoll,
          .insert ⟨[1], [], 1⟩ true ⟨false, 0, 0, dumpNotReady⟩] = some z ∧
      ¬ Accounted smallZoneConf z := by
  have hsome : ((Run.run (zoneStep smallZoneConf)
      (zoneCreate smallZoneConf 1048576 2096128 2097152 3144704)
      [.insert ⟨[1], [7], 0⟩ false ⟨false, 0, 0, dumpNotReady⟩, .poll periodPoll,
        .insert ⟨[1], [], 1⟩ true ⟨false, 0, 0, dumpNotReady⟩]).map fun z =>
      decide (z.flushDone = false ∧ countItems smallConf z.flush ItemStatus.busy = 0)) =
        some true := by decide +kernel
  obtain ⟨z, hrun, hz⟩ := Option.map_eq_some_iff.1 hsome
  obtain ⟨hdone, hzero⟩ := of_decide_eq_true hz
  refine ⟨z, hrun, fun h => ?_⟩
  exact absurd (hdone.symm.trans (h.done.2 hzero)) (by decide)

end DssSdk.Wal
