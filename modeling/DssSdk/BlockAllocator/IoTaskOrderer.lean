import DssSdk.Lib.JudyArray

/-!
# The I/O task orderer of the block allocator

`jarr_dirty_meta_` collects the ranges of drive blocks of the bitmap that changed, merged with
their neighbours (`mergeDirtyMeta`). `queue_sync_meta_io_tasks` hands all of them to an I/O task,
with the serialised content, and appends the task to `io_dev_guard_q_`.
`get_next_submit_meta_io_tasks` submits the front task unless one of its ranges overlaps a range in
flight in `jarr_io_dev_guard_`.

The translation to drive blocks and the serialisation are hooks of the orderer: here the ranges are
ranges of drive blocks and `β` is the content of one.

* `mergeDirtyMeta_covered`: merging adds the new range to the blocks covered and loses none;
* `mergeDirtyMeta_separated`: the ranges stay apart when the new one reaches at most one of the
  ranges that start after it.
-/

namespace DssSdk.BlockAllocator

namespace IoTaskOrderer

/-! ### Merging dirty ranges -/

/-- `check_current_dirty_merge`: `none` when the range at the same start is at least as long. -/
def checkCurrentDirtyMerge (m : JudyArray ℕ) (lba numBlocks : ℕ) : Option (JudyArray ℕ) :=
  match m.get? lba with
  | none => some m
  | some currNumBlocks => if currNumBlocks ≥ numBlocks then none else some (m.erase lba)

/-- `check_prev_dirty_merge`: the array, the start and the length after it. -/
def checkPrevDirtyMerge (m : JudyArray ℕ) (lba numBlocks : ℕ) : JudyArray ℕ × ℕ × ℕ :=
  match m.prev? lba with
  | none => (m, lba, numBlocks)
  | some (prevLba, prevNumBlocks) =>
      if prevLba + prevNumBlocks < lba then (m, lba, numBlocks)
      else
        let r := if prevLba + prevNumBlocks = lba then (prevLba, prevNumBlocks + numBlocks)
          else (lba, numBlocks)
        let r := if prevLba + prevNumBlocks > r.1 then
            if prevLba + prevNumBlocks ≥ r.1 + r.2 then (prevLba, prevNumBlocks)
            else (prevLba, prevNumBlocks + ((r.1 + r.2) - (prevLba + prevNumBlocks)))
          else r
        (m.erase prevLba, r)

/-- `check_next_dirty_merge`: the array and the length after it. -/
def checkNextDirtyMerge (m : JudyArray ℕ) (lba numBlocks : ℕ) : JudyArray ℕ × ℕ :=
  match m.next? lba with
  | none => (m, numBlocks)
  | some (nextLba, nextNumBlocks) =>
      if lba + numBlocks < nextLba then (m, numBlocks)
      else
        let n := if lba + numBlocks = nextLba then numBlocks + nextNumBlocks else numBlocks
        let n := if lba + n > nextLba then
            if lba + n ≤ nextLba + nextNumBlocks then
              n + ((nextLba + nextNumBlocks) - (lba + n))
            else n
          else n
        (m.erase nextLba, n)

/-- `jarr_insert_dirty_meta`: `none` when the slot is in use. -/
def jarrInsertDirtyMeta (m : JudyArray ℕ) (lba numBlocks : ℕ) : Option (JudyArray ℕ) :=
  if (m.get? lba).getD 0 ≠ 0 then none else some (m.insert lba numBlocks)

/-- `merge_dirty_meta`. -/
def mergeDirtyMeta (m : JudyArray ℕ) (lba numBlocks : ℕ) : Option (JudyArray ℕ) :=
  match checkCurrentDirtyMerge m lba numBlocks with
  | none => some m
  | some m =>
      let (m, mergedLba, mergedNumBlocks) := checkPrevDirtyMerge m lba numBlocks
      let (m, mergedNumBlocks) := checkNextDirtyMerge m mergedLba mergedNumBlocks
      jarrInsertDirtyMeta m mergedLba mergedNumBlocks

/-! ### The device guard -/

/-- `is_current_overlap`. -/
def isCurrentOverlap (guard : JudyArray ℕ) (driveLba : ℕ) : Bool := (guard.get? driveLba).isSome

/-- `is_prev_neighbor_overlap`; a range that ends where the new one starts counts. -/
def isPrevNeighborOverlap (guard : JudyArray ℕ) (driveLba : ℕ) : Bool :=
  match guard.prev? driveLba with
  | none => false
  | some (prevDriveLba, prevDriveNumBlocks) => ¬ prevDriveLba + prevDriveNumBlocks < driveLba

/-- `is_next_neighbor_overlap`. -/
def isNextNeighborOverlap (guard : JudyArray ℕ) (driveLba driveNumBlocks : ℕ) : Bool :=
  match guard.next? driveLba with
  | none => false
  | some (nextDriveLba, _) => ¬ driveLba + driveNumBlocks < nextDriveLba

/-- `is_individual_range_overlap`. -/
def isIndividualRangeOverlap (guard : JudyArray ℕ) (driveLba driveNumBlocks : ℕ) : Bool :=
  isCurrentOverlap guard driveLba || isPrevNeighborOverlap guard driveLba ||
    isNextNeighborOverlap guard driveLba driveNumBlocks

/-- `mark_in_flight`: `none` when an entry is already there. -/
def markInFlight (guard : JudyArray ℕ) : List (ℕ × ℕ) → Option (JudyArray ℕ)
  | [] => some guard
  | (lba, numBlocks) :: ranges =>
      if (guard.get? lba).getD 0 ≠ 0 then none
      else markInFlight (guard.insert lba numBlocks) ranges

/-- `mark_completed`: `none` when an entry is missing. -/
def markCompleted (guard : JudyArray ℕ) : List (ℕ × ℕ) → Option (JudyArray ℕ)
  | [] => some guard
  | (lba, _) :: ranges =>
      if (guard.get? lba).isNone then none else markCompleted (guard.erase lba) ranges

/-- The block allocator part of an I/O task: the ranges of its writes, and the serialised content
of each of their blocks. -/
structure IoTask (β : Type) where
  ranges : List (ℕ × ℕ)
  data : ℕ → β

end IoTaskOrderer

/-- `IoTaskOrderer`. -/
structure IoTaskOrderer (β : Type) where
  maxDirtySegments : ℕ
  jarrDirtyMeta : JudyArray ℕ
  ioDevGuardQ : List (IoTaskOrderer.IoTask β)
  jarrIoDevGuard : JudyArray ℕ

namespace IoTaskOrderer

variable {β : Type}

/-- The constructor. -/
def init (maxDirtySegments : ℕ) : IoTaskOrderer β :=
  ⟨maxDirtySegments, JudyArray.empty, [], JudyArray.empty⟩

/-- `mark_dirty_meta` after the translation to drive blocks. -/
def markDirtyMeta (o : IoTaskOrderer β) (driveBlkAddr driveNumBlocks : ℕ) :
    Option (IoTaskOrderer β) :=
  (mergeDirtyMeta o.jarrDirtyMeta driveBlkAddr driveNumBlocks).map fun m =>
    { o with jarrDirtyMeta := m }

/-- `queue_sync_meta_io_tasks`: all dirty ranges with their content in memory become the writes of
a task. Freeing an empty array returns `0` bytes, which is asserted against. -/
def queueSyncMetaIoTasks (o : IoTaskOrderer β) (mem : ℕ → β) : Option (IoTaskOrderer β) :=
  if o.jarrDirtyMeta.entries = [] then none
  else some { o with
    jarrDirtyMeta := JudyArray.empty
    ioDevGuardQ := o.ioDevGuardQ ++ [⟨o.jarrDirtyMeta.entries, mem⟩] }

/-- `get_next_submit_meta_io_tasks`: the inner `none` is `BLK_ALLOCATOR_STATUS_ITERATION_END`. Only
the front of the queue is looked at; `populate_io_ranges` and `is_dev_guard_overlap` assert that it
has at least one range and at most `max_dirty_segments_`. -/
def getNextSubmitMetaIoTasks (o : IoTaskOrderer β) : Option (Option (IoTask β × IoTaskOrderer β)) :=
  match o.ioDevGuardQ with
  | [] => some none
  | task :: queue =>
      if task.ranges.length > o.maxDirtySegments ∨ task.ranges.length = 0 then none
      else if task.ranges.any fun r => isIndividualRangeOverlap o.jarrIoDevGuard r.1 r.2 then
        some none
      else (markInFlight o.jarrIoDevGuard task.ranges).map fun guard =>
        some (task, { o with jarrIoDevGuard := guard, ioDevGuardQ := queue })

/-- `complete_meta_sync`. -/
def completeMetaSync (o : IoTaskOrderer β) (task : IoTask β) : Option (IoTaskOrderer β) :=
  (markCompleted o.jarrIoDevGuard task.ranges).map fun guard => { o with jarrIoDevGuard := guard }

/-! ### Covered blocks and separated ranges -/

/-- The block lies in a range of the array. -/
def Covered (m : JudyArray ℕ) (d : ℕ) : Prop := ∃ e ∈ m, e.1 ≤ d ∧ d < e.1 + e.2

/-- The ranges are non-empty, and between two of them lies a block that is in neither. -/
structure Separated (m : JudyArray ℕ) : Prop where
  pos : ∀ e ∈ m, 0 < e.2
  apart : ∀ d ∈ m, ∀ e ∈ m, d.1 < e.1 → d.1 + d.2 < e.1

section

variable {m : JudyArray ℕ} {lba n : ℕ}

/-- Between two of the ranges lies a block that is in neither. -/
def Apart (m : JudyArray ℕ) : Prop := ∀ d ∈ m, ∀ e ∈ m, d.1 < e.1 → d.1 + d.2 < e.1

theorem Apart.erase (hm : Apart m) (k : ℕ) : Apart (m.erase k) :=
  fun d hd e he => hm d (JudyArray.mem_erase.1 hd).1 e (JudyArray.mem_erase.1 he).1

theorem Apart.insert (hm : Apart m) (hout : ∀ e ∈ m, e.1 + e.2 < lba ∨ lba + n < e.1) :
    Apart (m.insert lba n) := by
  intro d hd e he hlt
  rcases JudyArray.mem_insert.1 hd with rfl | ⟨hd, -⟩ <;>
    rcases JudyArray.mem_insert.1 he with rfl | ⟨he, -⟩
  · exact absurd hlt (lt_irrefl _)
  · have := hout e he
    dsimp only at hlt ⊢
    omega
  · have := hout d hd
    dsimp only at hlt ⊢
    omega
  · exact hm d hd e he hlt

theorem Separated.empty : Separated JudyArray.empty :=
  ⟨fun _ he => absurd he (JudyArray.not_mem_empty _),
    fun _ hd => absurd hd (JudyArray.not_mem_empty _)⟩

theorem Separated.insert (hm : Separated m) (hn : 0 < n)
    (hout : ∀ e ∈ m, e.1 + e.2 < lba ∨ lba + n < e.1) : Separated (m.insert lba n) := by
  refine ⟨fun e he => ?_, Apart.insert hm.apart hout⟩
  rcases JudyArray.mem_insert.1 he with rfl | ⟨he, -⟩
  · exact hn
  · exact hm.pos e he

theorem covered_insert (hnone : m.get? lba = none) (d : ℕ) :
    Covered (m.insert lba n) d ↔ Covered m d ∨ (lba ≤ d ∧ d < lba + n) := by
  constructor
  · rintro ⟨e, he, h⟩
    rcases JudyArray.mem_insert.1 he with rfl | ⟨he, -⟩
    · exact Or.inr h
    · exact Or.inl ⟨e, he, h⟩
  · rintro (⟨e, he, h⟩ | h)
    · refine ⟨e, JudyArray.mem_insert.2 (Or.inr ⟨he, fun hk => ?_⟩), h⟩
      exact JudyArray.get?_eq_none_iff.1 hnone e.2 (by rw [← hk]; exact he)
    · exact ⟨(lba, n), JudyArray.mem_insert.2 (Or.inl rfl), h⟩

theorem covered_erase {k len : ℕ} (hk : (k, len) ∈ m) (d : ℕ) :
    Covered m d ↔ Covered (m.erase k) d ∨ (k ≤ d ∧ d < k + len) := by
  constructor
  · rintro ⟨e, he, h⟩
    by_cases hek : e.1 = k
    · have : e = (k, len) := JudyArray.eq_of_fst_eq he hk hek
      subst this
      exact Or.inr h
    · exact Or.inl ⟨e, JudyArray.mem_erase.2 ⟨he, hek⟩, h⟩
  · rintro (⟨e, he, h⟩ | h)
    · exact ⟨e, (JudyArray.mem_erase.1 he).1, h⟩
    · exact ⟨(k, len), hk, h⟩

/-! ### What merging does -/

/-- Either the previous range ends before the new one, or it is removed and the merged range starts
with it and ends with the later of the two. -/
theorem checkPrevDirtyMerge_spec (m : JudyArray ℕ) (lba n : ℕ) :
    (checkPrevDirtyMerge m lba n = (m, lba, n) ∧
      ∀ e, m.prev? lba = some e → e.1 + e.2 < lba) ∨
    ∃ p pn n', m.prev? lba = some (p, pn) ∧ lba ≤ p + pn ∧
      checkPrevDirtyMerge m lba n = (m.erase p, p, n') ∧ p + n' = max (p + pn) (lba + n) := by
  unfold checkPrevDirtyMerge
  cases hp : m.prev? lba with
  | none => exact Or.inl ⟨rfl, fun e he => by cases he⟩
  | some e =>
    obtain ⟨p, pn⟩ := e
    obtain ⟨-, hlt, -⟩ := JudyArray.prev?_eq_some_iff.1 hp
    dsimp only at hlt ⊢
    by_cases hbefore : p + pn < lba
    · rw [if_pos hbefore]
      refine Or.inl ⟨rfl, fun e he => ?_⟩
      cases he
      exact hbefore
    · rw [if_neg hbefore]
      refine Or.inr ⟨p, pn, max (p + pn) (lba + n) - p, rfl, by omega, ?_, by omega⟩
      by_cases htouch : p + pn = lba
      · rw [if_pos htouch]
        dsimp only
        rw [if_pos (by omega)]
        split_ifs <;> (congr 2; omega)
      · rw [if_neg htouch]
        dsimp only
        rw [if_pos (by omega)]
        split_ifs <;> (congr 2; omega)

/-- Either the next range starts behind the new one, or it is removed and the merged range ends
with the later of the two. -/
theorem checkNextDirtyMerge_spec (m : JudyArray ℕ) (lba n : ℕ) :
    (checkNextDirtyMerge m lba n = (m, n) ∧ ∀ e, m.next? lba = some e → lba + n < e.1) ∨
    ∃ x xn n', m.next? lba = some (x, xn) ∧ x ≤ lba + n ∧
      checkNextDirtyMerge m lba n = (m.erase x, n') ∧ lba + n' = max (lba + n) (x + xn) := by
  unfold checkNextDirtyMerge
  cases hx : m.next? lba with
  | none => exact Or.inl ⟨rfl, fun e he => by cases he⟩
  | some e =>
    obtain ⟨x, xn⟩ := e
    obtain ⟨-, hlt, -⟩ := JudyArray.next?_eq_some_iff.1 hx
    dsimp only at hlt ⊢
    by_cases hbehind : lba + n < x
    · rw [if_pos hbehind]
      refine Or.inl ⟨rfl, fun e he => ?_⟩
      cases he
      exact hbehind
    · rw [if_neg hbehind]
      refine Or.inr ⟨x, xn, max (lba + n) (x + xn) - lba, rfl, by omega, ?_, by omega⟩
      congr 1
      split_ifs <;> omega

theorem checkCurrentDirtyMerge_spec (m : JudyArray ℕ) (lba n : ℕ) :
    (checkCurrentDirtyMerge m lba n = none ∧ ∃ len, (lba, len) ∈ m ∧ n ≤ len) ∨
    ∃ m', checkCurrentDirtyMerge m lba n = some m' ∧ m'.get? lba = none ∧
      (∀ e ∈ m', e ∈ m) ∧ (∀ e ∈ m, e.1 ≠ lba → e ∈ m') ∧
      ∀ d, Covered m d ∨ (lba ≤ d ∧ d < lba + n) ↔ Covered m' d ∨ (lba ≤ d ∧ d < lba + n) := by
  unfold checkCurrentDirtyMerge
  cases hg : m.get? lba with
  | none => exact Or.inr ⟨m, rfl, hg, fun e he => he, fun e he _ => he, fun d => Iff.rfl⟩
  | some len =>
    have hmem := JudyArray.get?_eq_some_iff.1 hg
    dsimp only
    by_cases hlen : len ≥ n
    · exact Or.inl ⟨if_pos hlen, len, hmem, hlen⟩
    · refine Or.inr ⟨_, if_neg hlen, by rw [JudyArray.get?_erase, if_pos rfl],
        fun e he => (JudyArray.mem_erase.1 he).1,
        fun e he hne => JudyArray.mem_erase.2 ⟨he, hne⟩, fun d => ?_⟩
      rw [covered_erase hmem]
      constructor
      · rintro ((h | h) | h)
        · exact Or.inl h
        · exact Or.inr (by omega)
        · exact Or.inr h
      · rintro (h | h)
        · exact Or.inl (Or.inl h)
        · exact Or.inr h

/-- What the three merges leave: an array and a range that together cover the old blocks and the
new ones, the start of the range not in use. -/
theorem mergeDirtyMeta_cases (m : JudyArray ℕ) (lba n : ℕ) :
    (mergeDirtyMeta m lba n = some m ∧ ∃ len, (lba, len) ∈ m ∧ n ≤ len) ∨
    ∃ m₁ m₂ m₃ l n₁ n₂, checkCurrentDirtyMerge m lba n = some m₁ ∧
      checkPrevDirtyMerge m₁ lba n = (m₂, l, n₁) ∧ checkNextDirtyMerge m₂ l n₁ = (m₃, n₂) ∧
      m₃.get? l = none ∧ mergeDirtyMeta m lba n = some (m₃.insert l n₂) := by
  rcases checkCurrentDirtyMerge_spec m lba n with ⟨hc, hlen⟩ | ⟨m₁, hc, hfree, -, -, -⟩
  · exact Or.inl ⟨by unfold mergeDirtyMeta; rw [hc], hlen⟩
  · have hprev : ∃ m₂ l n₁, checkPrevDirtyMerge m₁ lba n = (m₂, l, n₁) ∧ m₂.get? l = none := by
      rcases checkPrevDirtyMerge_spec m₁ lba n with ⟨h, -⟩ | ⟨p, pn, n', -, -, h, -⟩
      · exact ⟨m₁, lba, n, h, hfree⟩
      · exact ⟨_, p, n', h, by rw [JudyArray.get?_erase, if_pos rfl]⟩
    obtain ⟨m₂, l, n₁, hp, hfree₂⟩ := hprev
    have hnext : ∃ m₃ n₂, checkNextDirtyMerge m₂ l n₁ = (m₃, n₂) ∧ m₃.get? l = none := by
      rcases checkNextDirtyMerge_spec m₂ l n₁ with ⟨h, -⟩ | ⟨x, xn, n', -, -, h, -⟩
      · exact ⟨m₂, n₁, h, hfree₂⟩
      · refine ⟨_, n', h, ?_⟩
        rw [JudyArray.get?_erase]
        split_ifs
        exacts [rfl, hfree₂]
    obtain ⟨m₃, n₂, hx, hfree₃⟩ := hnext
    refine Or.inr ⟨m₁, m₂, m₃, l, n₁, n₂, hc, hp, hx, hfree₃, ?_⟩
    unfold mergeDirtyMeta
    rw [hc]
    dsimp only
    rw [hp]
    dsimp only
    rw [hx]
    dsimp only
    unfold jarrInsertDirtyMeta
    rw [hfree₃]
    rfl

/-- Merging never fails, and it covers exactly the old blocks and the new range. -/
theorem mergeDirtyMeta_covered (m : JudyArray ℕ) (lba n : ℕ) :
    ∃ m', mergeDirtyMeta m lba n = some m' ∧
      ∀ d, Covered m' d ↔ Covered m d ∨ (lba ≤ d ∧ d < lba + n) := by
  rcases mergeDirtyMeta_cases m lba n with ⟨h, len, hmem, hlen⟩ |
    ⟨m₁, m₂, m₃, l, n₁, n₂, hc, hp, hx, hfree, h⟩
  · refine ⟨m, h, fun d => ⟨Or.inl, ?_⟩⟩
    rintro (hd | hd)
    · exact hd
    · exact ⟨(lba, len), hmem, hd.1, by dsimp only; omega⟩
  · refine ⟨_, h, fun d => ?_⟩
    rw [covered_insert hfree]
    -- each merge keeps the blocks of the array and the range together
    have hcur : Covered m d ∨ (lba ≤ d ∧ d < lba + n) ↔
        Covered m₁ d ∨ (lba ≤ d ∧ d < lba + n) := by
      rcases checkCurrentDirtyMerge_spec m lba n with ⟨h0, -⟩ | ⟨m', h1, -, -, -, h2⟩
      · rw [h0] at hc
        cases hc
      · rw [h1] at hc
        cases hc
        exact h2 d
    have hprev : Covered m₁ d ∨ (lba ≤ d ∧ d < lba + n) ↔
        Covered m₂ d ∨ (l ≤ d ∧ d < l + n₁) := by
      rcases checkPrevDirtyMerge_spec m₁ lba n with ⟨h0, -⟩ | ⟨p, pn, n', hpv, hle, h1, hend⟩
      · rw [h0] at hp
        cases hp
        exact Iff.rfl
      · rw [h1] at hp
        cases hp
        obtain ⟨hmem, hlt, -⟩ := JudyArray.prev?_eq_some_iff.1 hpv
        dsimp only at hlt
        rw [covered_erase hmem]
        by_cases hd : Covered (m₁.erase l) d <;> simp only [hd, true_or, false_or]
        omega
    have hnext : Covered m₂ d ∨ (l ≤ d ∧ d < l + n₁) ↔
        Covered m₃ d ∨ (l ≤ d ∧ d < l + n₂) := by
      rcases checkNextDirtyMerge_spec m₂ l n₁ with ⟨h0, -⟩ | ⟨x, xn, n', hxv, hle, h1, hend⟩
      · rw [h0] at hx
        cases hx
        exact Iff.rfl
      · rw [h1] at hx
        cases hx
        obtain ⟨hmem, hlt, -⟩ := JudyArray.next?_eq_some_iff.1 hxv
        dsimp only at hlt
        rw [covered_erase hmem]
        by_cases hd : Covered (m₂.erase x) d <;> simp only [hd, true_or, false_or]
        omega
    rw [hcur, hprev, hnext]

/-- Of the ranges that start after `lba`, at most one starts by `lba + n`. -/
def ReachesOneNext (m : JudyArray ℕ) (lba n : ℕ) : Prop :=
  ∀ d ∈ m, ∀ e ∈ m, lba < d.1 → d.1 ≤ lba + n → lba < e.1 → e.1 ≤ lba + n → d = e

instance (m : JudyArray ℕ) (lba n : ℕ) : Decidable (ReachesOneNext m lba n) :=
  inferInstanceAs (Decidable (∀ d ∈ m.entries, ∀ e ∈ m.entries,
    lba < d.1 → d.1 ≤ lba + n → lba < e.1 → e.1 ≤ lba + n → d = e))

/-- The ranges stay apart when the new one reaches at most one of those that start after it: only
one is merged. -/
theorem mergeDirtyMeta_apart (hm : Apart m) (hone : ReachesOneNext m lba n) {m' : JudyArray ℕ}
    (h : mergeDirtyMeta m lba n = some m') : Apart m' := by
  rcases mergeDirtyMeta_cases m lba n with ⟨h', -⟩ |
    ⟨m₁, m₂, m₃, l, n₁, n₂, hc, hp, hx, -, h'⟩
  · rw [h'] at h
    cases h
    exact hm
  rw [h'] at h
  cases h
  -- after the first merge no range starts at `lba`
  have hcur : (∀ e ∈ m₁, e ∈ m) ∧ ∀ e ∈ m₁, e.1 ≠ lba := by
    rcases checkCurrentDirtyMerge_spec m lba n with ⟨h0, -⟩ | ⟨m', h1, hfree, hsub, -, -⟩
    · rw [h0] at hc
      cases hc
    · rw [h1] at hc
      cases hc
      exact ⟨hsub, fun e he hk =>
        JudyArray.get?_eq_none_iff.1 hfree e.2 (by rw [← hk]; exact he)⟩
  obtain ⟨hsub₁, hne₁⟩ := hcur
  have hm₁ : Apart m₁ := fun d hd e he => hm d (hsub₁ d hd) e (hsub₁ e he)
  -- after the second, every range ends before `l`, or starts after `lba`; and then it starts
  -- after the merged range or by `lba + n`
  have hprev : l ≤ lba ∧ lba + n ≤ l + n₁ ∧ Apart m₂ ∧ (∀ e ∈ m₂, e ∈ m₁) ∧
      ∀ e ∈ m₂, e.1 + e.2 < l ∨ lba < e.1 ∧ (e.1 ≤ lba + n ∨ l + n₁ < e.1) := by
    rcases checkPrevDirtyMerge_spec m₁ lba n with ⟨h0, hlast⟩ | ⟨p, pn, n', hpv, hle, h1, hend⟩
    · rw [h0] at hp
      cases hp
      refine ⟨le_rfl, le_rfl, hm₁, fun e he => he, fun e he => ?_⟩
      rcases Nat.lt_or_gt_of_ne (hne₁ e he) with hlt | hgt
      · left
        cases hpv : m₁.prev? lba with
        | none => exact absurd hlt (not_lt.2 (JudyArray.prev?_eq_none_iff.1 hpv e he))
        | some f =>
          obtain ⟨hf, hflt, hmax⟩ := JudyArray.prev?_eq_some_iff.1 hpv
          rcases (hmax e he hlt).eq_or_lt with heq | hlt'
          · rw [JudyArray.eq_of_fst_eq he hf heq]
            exact hlast f hpv
          · have := hm₁ e he f hf hlt'
            omega
      · exact Or.inr ⟨hgt, by omega⟩
    · rw [h1] at hp
      cases hp
      obtain ⟨hmem, hlt, hmax⟩ := JudyArray.prev?_eq_some_iff.1 hpv
      dsimp only at hlt hmax
      refine ⟨hlt.le, by omega, hm₁.erase _, fun e he => (JudyArray.mem_erase.1 he).1,
        fun e he => ?_⟩
      obtain ⟨he, hel⟩ := JudyArray.mem_erase.1 he
      rcases Nat.lt_or_gt_of_ne hel with hlt' | hgt
      · exact Or.inl (hm₁ e he _ hmem hlt')
      · have hapart := hm₁ _ hmem e he hgt
        dsimp only at hapart
        have hgt' : lba < e.1 := by
          by_contra hc
          have := hmax e he (by have := hne₁ e he; omega)
          omega
        exact Or.inr ⟨hgt', by omega⟩
  obtain ⟨hl, hln, hm₂, hsub₂, hpos₂⟩ := hprev
  rcases checkNextDirtyMerge_spec m₂ l n₁ with ⟨h0, hfirst⟩ | ⟨x, xn, n', hxv, hle, h1, hend⟩
  · rw [h0] at hx
    cases hx
    refine hm₂.insert fun e he => ?_
    rcases hpos₂ e he with hbefore | ⟨hafter, -⟩
    · exact Or.inl hbefore
    · right
      cases hxv : m₂.next? l with
      | none => exact absurd (JudyArray.next?_eq_none_iff.1 hxv e he) (by omega)
      | some f =>
        have := (JudyArray.next?_eq_some_iff.1 hxv).2.2 e he (by omega)
        have := hfirst f hxv
        omega
  · rw [h1] at hx
    cases hx
    obtain ⟨hmem, hlt, hmin⟩ := JudyArray.next?_eq_some_iff.1 hxv
    dsimp only at hlt hmin
    refine (hm₂.erase x).insert fun e he => ?_
    obtain ⟨he, hex⟩ := JudyArray.mem_erase.1 he
    rcases hpos₂ e he with hbefore | ⟨hafter, hcase⟩
    · exact Or.inl hbefore
    · -- `e` starts behind the range `x` that was merged
      right
      have hxe : x < e.1 := lt_of_le_of_ne (hmin e he (by omega)) (Ne.symm hex)
      have hapart := hm₂ _ hmem e he hxe
      dsimp only at hapart
      have hbehind : l + n₁ < e.1 := by
        rcases hcase with hreach | hbehind
        · have hxpos := hpos₂ _ hmem
          dsimp only at hxpos
          have := hone _ (hsub₁ _ (hsub₂ _ hmem)) e (hsub₁ _ (hsub₂ _ he))
            (by dsimp only; omega) (by dsimp only; omega) hafter hreach
          exact absurd (congrArg Prod.fst this).symm hex
        · exact hbehind
      omega

theorem mergeDirtyMeta_pos (hm : ∀ e ∈ m, 0 < e.2) (hn : 0 < n) {m' : JudyArray ℕ}
    (h : mergeDirtyMeta m lba n = some m') : ∀ e ∈ m', 0 < e.2 := by
  rcases mergeDirtyMeta_cases m lba n with ⟨h', -⟩ |
    ⟨m₁, m₂, m₃, l, n₁, n₂, hc, hp, hx, -, h'⟩
  · rw [h'] at h
    cases h
    exact hm
  rw [h'] at h
  cases h
  have hcur : ∀ e ∈ m₁, e ∈ m := by
    rcases checkCurrentDirtyMerge_spec m lba n with ⟨h0, -⟩ | ⟨m', h1, -, hsub, -, -⟩
    · rw [h0] at hc
      cases hc
    · rw [h1] at hc
      cases hc
      exact hsub
  have hprev : 0 < n₁ ∧ ∀ e ∈ m₂, e ∈ m₁ := by
    rcases checkPrevDirtyMerge_spec m₁ lba n with ⟨h0, -⟩ | ⟨p, pn, n', hpv, -, h1, hend⟩
    · rw [h0] at hp
      cases hp
      exact ⟨hn, fun e he => he⟩
    · rw [h1] at hp
      cases hp
      have hlt := (JudyArray.prev?_eq_some_iff.1 hpv).2.1
      dsimp only at hlt
      exact ⟨by omega, fun e he => (JudyArray.mem_erase.1 he).1⟩
  have hnext : 0 < n₂ ∧ ∀ e ∈ m₃, e ∈ m₂ := by
    rcases checkNextDirtyMerge_spec m₂ l n₁ with ⟨h0, -⟩ | ⟨x, xn, n', -, -, h1, hend⟩
    · rw [h0] at hx
      cases hx
      exact ⟨hprev.1, fun e he => he⟩
    · rw [h1] at hx
      cases hx
      have := hprev.1
      exact ⟨by omega, fun e he => (JudyArray.mem_erase.1 he).1⟩
  intro e he
  rcases JudyArray.mem_insert.1 he with rfl | ⟨he, -⟩
  · exact hnext.1
  · exact hm e (hcur e (hprev.2 e (hnext.2 e he)))

/-- The ranges stay non-empty and apart. -/
theorem mergeDirtyMeta_separated (hm : Separated m) (hn : 0 < n) (hone : ReachesOneNext m lba n)
    {m' : JudyArray ℕ} (h : mergeDirtyMeta m lba n = some m') : Separated m' :=
  ⟨mergeDirtyMeta_pos hm.pos hn h, mergeDirtyMeta_apart hm.apart hone h⟩

end

end IoTaskOrderer

end DssSdk.BlockAllocator
