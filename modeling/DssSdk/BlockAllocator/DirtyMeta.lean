import DssSdk.BlockAllocator.BitmapDisk
import DssSdk.BlockAllocator.IoTaskOrderer

/-!
# Every bitmap change reaches the meta sync

The allocator and the orderer together: a call that changes cells marks the drive blocks that
`translate_meta_to_drive_addr` computes for them, and a meta sync hands all dirty ranges to an I/O
task. `Fresh` is the invariant: a drive block outside the dirty ranges has the words it had when it
was last queued. It rests on two facts:

* `Touches`: an operation changes only words that hold a cell of the range it marks;
* `translate_covers`: the marked drive blocks contain every drive block whose serialised words hold
  one of the cells.
-/

namespace DssSdk.BlockAllocator

open PackedCells IoTaskOrderer

namespace QwordVector64Cell

/-- The word of `data_` that holds the cell of a block. -/
def wordOf (q : QwordVector64Cell) (b : ℕ) : ℕ :=
  (b - q.logicalStartBlockOffset) / cellsPerWord q.bitsPerCell

/-- The parameters are the same. -/
structure SameParams (q q' : QwordVector64Cell) : Prop where
  bits : q'.bitsPerCell = q.bitsPerCell
  metaStart : q'.blockAllocMetaStartOffset = q.blockAllocMetaStartOffset
  offset : q'.logicalStartBlockOffset = q.logicalStartBlockOffset

theorem SameParams.refl (q : QwordVector64Cell) : SameParams q q := ⟨rfl, rfl, rfl⟩

theorem SameParams.trans {q q' q'' : QwordVector64Cell} (h : SameParams q q')
    (h' : SameParams q' q'') : SameParams q q'' :=
  ⟨h'.bits.trans h.bits, h'.metaStart.trans h.metaStart, h'.offset.trans h.offset⟩

/-- `q'` differs from `q` only in words that hold a cell of the blocks `b, …, b + n - 1`. -/
structure Touches (q : QwordVector64Cell) (b n : ℕ) (q' : QwordVector64Cell) : Prop where
  params : SameParams q q'
  words : ∀ w, (∀ x, b ≤ x → x < b + n → q.wordOf x ≠ w) → q'.data[w]? = q.data[w]?

section

variable {q q' : QwordVector64Cell}

theorem setCell_touches {b v : ℕ} (h : q.setCell b v = some q') :
    q.logicalStartBlockOffset ≤ b ∧ Touches q b 1 q' := by
  unfold setCell at h
  dsimp only at h
  split_ifs at h with hb hi
  cases h
  refine ⟨by omega, ⟨rfl, rfl, rfl⟩, fun w hw => ?_⟩
  exact getElem?_setCellAt_of_ne _ _ (fun hc => hw b le_rfl (by omega) hc.symm)

theorem setCells_touches {b n v : ℕ} (h : q.setCells b n v = some q') :
    (0 < n → q.logicalStartBlockOffset ≤ b) ∧ Touches q b n q' := by
  induction n generalizing q b with
  | zero =>
    cases h
    exact ⟨fun h0 => absurd h0 (lt_irrefl 0), SameParams.refl _, fun w _ => rfl⟩
  | succ n ih =>
    unfold setCells at h
    obtain ⟨q₁, h₁, h⟩ := Option.bind_eq_some_iff.1 h
    obtain ⟨hb, ht₁⟩ := setCell_touches h₁
    obtain ⟨-, ht⟩ := ih h
    refine ⟨fun _ => hb, ht₁.params.trans ht.params, fun w hw => ?_⟩
    have hword : ∀ x, q₁.wordOf x = q.wordOf x := by
      intro x
      unfold wordOf
      rw [ht₁.params.bits, ht₁.params.offset]
    rw [ht.words w fun x h1 h2 => hword x ▸ hw x (by omega) (by omega),
      ht₁.words w fun x h1 h2 => hw x h1 (by omega)]

/-- An operation changes nothing, or only the words of the cells it marks. -/
def OutcomeTouches (q : QwordVector64Cell) (o : Outcome) : Prop :=
  match o.dirty with
  | none => SameParams q o.alloc ∧ o.alloc.data = q.data
  | some (b, n) => (0 < n → q.logicalStartBlockOffset ≤ b) ∧ Touches q b n o.alloc

theorem setBlocksState_touches {b n v : ℕ} {o : Outcome} (h : q.setBlocksState b n v = some o) :
    OutcomeTouches q o := by
  unfold setBlocksState at h
  dsimp only at h
  split_ifs at h
  obtain ⟨c, -, h⟩ := Option.bind_eq_some_iff.1 h
  split_ifs at h with hc
  · obtain ⟨q₁, h₁, h⟩ := Option.bind_eq_some_iff.1 h
    cases h
    obtain ⟨hb, ht⟩ := setCell_touches h₁
    exact ⟨fun _ => hb, ht⟩
  · obtain ⟨r, -, h⟩ := Option.bind_eq_some_iff.1 h
    cases r with
    | none =>
      cases h
      exact ⟨SameParams.refl q, rfl⟩
    | some r =>
      dsimp only at h
      split_ifs at h
      obtain ⟨q₁, h₁, h⟩ := Option.bind_eq_some_iff.1 h
      cases h
      obtain ⟨hb, ht⟩ := setCell_touches h₁
      exact ⟨fun _ => hb, ⟨ht.params.bits, ht.params.metaStart, ht.params.offset⟩, ht.words⟩

theorem clearBlocks_touches {b n : ℕ} {o : Outcome} (h : q.clearBlocks b n = some o) :
    OutcomeTouches q o := by
  unfold clearBlocks at h
  dsimp only at h
  by_cases hbad : b > q.bmapLastCellId ∨ b + n - 1 > q.bmapLastCellId
  · rw [if_pos hbad] at h
    cases h
    exact ⟨SameParams.refl q, rfl⟩
  · rw [if_neg hbad] at h
    obtain ⟨r, -, h⟩ := Option.bind_eq_some_iff.1 h
    cases r with
    | none =>
      dsimp only at h
      split_ifs at h
      cases h
      exact ⟨SameParams.refl q, rfl⟩
    | some jso =>
      obtain ⟨q₁, h₁, h⟩ := Option.bind_eq_some_iff.1 h
      cases h
      obtain ⟨hb, ht⟩ := setCells_touches h₁
      exact ⟨hb, ⟨ht.params.bits, ht.params.metaStart, ht.params.offset⟩, ht.words⟩

theorem allocBlocksContig_touches {v hint n : ℕ} {wantStart : Bool} {o : Outcome}
    (h : q.allocBlocksContig v hint n wantStart = some o) : OutcomeTouches q o := by
  unfold allocBlocksContig at h
  by_cases hbad : hint > q.bmapLastCellId ∨ n > q.cells
  · rw [if_pos hbad] at h
    cases h
    exact ⟨SameParams.refl q, rfl⟩
  · rw [if_neg hbad] at h
    obtain ⟨r, -, h⟩ := Option.bind_eq_some_iff.1 h
    cases r with
    | none =>
      cases h
      exact ⟨SameParams.refl q, rfl⟩
    | some r =>
      dsimp only at h
      by_cases hback : wantStart = false ∧ hint ≠ r.1
      · rw [if_pos hback] at h
        obtain ⟨r', -, h⟩ := Option.bind_eq_some_iff.1 h
        cases r' with
        | none => cases h
        | some jso =>
          cases h
          exact ⟨⟨rfl, rfl, rfl⟩, rfl⟩
      · rw [if_neg hback] at h
        obtain ⟨q₁, h₁, h⟩ := Option.bind_eq_some_iff.1 h
        cases h
        obtain ⟨hb, ht⟩ := setCells_touches h₁
        exact ⟨hb, ⟨ht.params.bits, ht.params.metaStart, ht.params.offset⟩, ht.words⟩

/-- The drive blocks computed for a range of cells contain every drive block whose serialised words
hold one of the cells. -/
theorem translate_covers (hbits : q.bitsPerCell = 4) {bs : ℕ} (hbs : 8 ∣ bs) {lbs b n a k : ℕ}
    (h : q.translateMetaToDriveAddr b n bs lbs = some (a, k)) {x : ℕ} (hx1 : b ≤ x)
    (hx2 : x < b + n) {d start num : ℕ} (hd : q.driveDataRange d 1 bs = some (start, num))
    (hw1 : start ≤ q.wordOf x) (hw2 : q.wordOf x < start + num) : a ≤ d ∧ d < a + k := by
  obtain ⟨m, rfl⟩ := hbs
  obtain ⟨-, ha, hk⟩ := translateMetaToDriveAddr_some h
  -- a drive block holds `m` words of sixteen cells
  have hlpb : 8 * m * bitsPerByte / q.bitsPerCell = 16 * m := by
    rw [hbits]
    unfold bitsPerByte
    omega
  rw [hlpb] at ha hk
  have hmeta : q.blockAllocMetaStartOffset ≤ d ∧ start = m * (d - q.blockAllocMetaStartOffset) ∧
      num = m := by
    unfold driveDataRange at hd
    dsimp only at hd
    split_ifs at hd with h1 h2 h3 h4
    cases hd
    refine ⟨by omega, ?_, ?_⟩
    · rw [show 8 * m * bitsPerByte * (d - q.blockAllocMetaStartOffset) =
        64 * (m * (d - q.blockAllocMetaStartOffset)) by unfold bitsPerByte; ring]
      exact Nat.mul_div_cancel_left _ (by norm_num)
    · rw [show 1 * (8 * m) * bitsPerByte = 64 * m by unfold bitsPerByte; ring]
      exact Nat.mul_div_cancel_left _ (by norm_num)
  obtain ⟨hge, rfl, rfl⟩ := hmeta
  have hword : q.wordOf x = (x - q.logicalStartBlockOffset) / 16 := by
    unfold wordOf
    rw [hbits]
    rfl
  rw [hword] at hw1 hw2
  have hm : 0 < num := by omega
  have hdx : d - q.blockAllocMetaStartOffset = (x - q.logicalStartBlockOffset) / (16 * num) := by
    rw [← Nat.div_div_eq_div_mul]
    symm
    rw [Nat.div_eq_iff hm]
    constructor
    · linarith [Nat.mul_comm num (d - q.blockAllocMetaStartOffset)]
    · have := Nat.mul_comm num (d - q.blockAllocMetaStartOffset)
      omega
  have hlo : (b - q.logicalStartBlockOffset) / (16 * num) ≤
      (x - q.logicalStartBlockOffset) / (16 * num) := Nat.div_le_div_right (by omega)
  have hhi : (x - q.logicalStartBlockOffset) / (16 * num) ≤
      (b + n - 1 - q.logicalStartBlockOffset) / (16 * num) := Nat.div_le_div_right (by omega)
  omega

end

/-- The words that `serialize_drive_data` reads for one drive block; behind the vector it reads what
the heap holds there. -/
def driveContent (heap : ℕ → BitVec 64) (q : QwordVector64Cell) (bs d : ℕ) : List (BitVec 64) :=
  match q.driveDataRange d 1 bs with
  | none => []
  | some (start, num) =>
      (List.range num).map fun i => q.data[start + i]?.getD (heap (start + i))

end QwordVector64Cell

namespace Context

open QwordVector64Cell

theorem call_touches {c : Context} {call : Call} {r : Reply} (h : c.call call = some r) :
    match r.dirty with
    | none => SameParams c.alloc r.ctx.alloc ∧ r.ctx.alloc.data = c.alloc.data
    | some (b, n) =>
        (0 < n → c.alloc.logicalStartBlockOffset ≤ b) ∧ Touches c.alloc b n r.ctx.alloc := by
  cases call with
  | allocBlocksContig v hint n wantStart =>
    change c.allocBlocksContig v hint n wantStart = some r at h
    unfold Context.allocBlocksContig at h
    split_ifs at h
    · cases h
      exact ⟨SameParams.refl _, rfl⟩
    · obtain ⟨o, ho, rfl⟩ := Option.map_eq_some_iff.1 h
      exact allocBlocksContig_touches ho
  | setBlocksState b n v =>
    change c.setBlocksState b n v = some r at h
    unfold Context.setBlocksState at h
    split_ifs at h
    · cases h
      exact ⟨SameParams.refl _, rfl⟩
    · cases h
      exact ⟨SameParams.refl _, rfl⟩
    · cases h
      exact ⟨SameParams.refl _, rfl⟩
    · obtain ⟨o, ho, rfl⟩ := Option.map_eq_some_iff.1 h
      exact setBlocksState_touches ho
  | clearBlocks b n =>
    change c.clearBlocks b n = some r at h
    unfold Context.clearBlocks at h
    split_ifs at h
    · cases h
      exact ⟨SameParams.refl _, rfl⟩
    · obtain ⟨o, ho, rfl⟩ := Option.map_eq_some_iff.1 h
      exact clearBlocks_touches ho

end Context

/-! ### The allocator with its orderer -/

/-- The allocator, its orderer with the two block sizes, and for each drive block the words of the
bitmap when it was last queued. -/
structure SyncedAllocator where
  ctx : Context
  driveSmallestBlockSize : ℕ
  logicalBlockSize : ℕ
  orderer : IoTaskOrderer (List (BitVec 64))
  queuedData : ℕ → List (BitVec 64)

/-- The calls of the allocator and of the meta sync. -/
inductive SyncedCall
  | call (call : Context.Call)
  | queueSyncMetaIoTasks
  | getNextSubmitMetaIoTasks
  | completeMetaSync (task : IoTask (List (BitVec 64)))

namespace SyncedAllocator

open QwordVector64Cell

/-- A fresh allocator with the meta sync enabled: nothing is dirty. -/
def init (c : Context) (allocatorBlockSize maxDirtySegments : ℕ) : SyncedAllocator where
  ctx := c
  driveSmallestBlockSize := allocatorBlockSize
  logicalBlockSize := allocatorBlockSize
  orderer := IoTaskOrderer.init maxDirtySegments
  queuedData := fun _ => c.alloc.data

/-- One call; `none` when it reaches an assertion. -/
def step (heap : ℕ → BitVec 64) (s : SyncedAllocator) : SyncedCall → Option SyncedAllocator
  | .call call => do
      let r ← s.ctx.call call
      match r.dirty with
      | none => some { s with ctx := r.ctx }
      | some (b, n) => do
          let a ← r.ctx.alloc.translateMetaToDriveAddr b n s.driveSmallestBlockSize
            s.logicalBlockSize
          let o ← s.orderer.markDirtyMeta a.1 a.2
          some { s with ctx := r.ctx, orderer := o }
  | .queueSyncMetaIoTasks =>
      if s.orderer.jarrDirtyMeta.entries.all fun r =>
          (s.ctx.alloc.driveDataRange r.1 r.2 s.driveSmallestBlockSize).isSome then do
        let o ← s.orderer.queueSyncMetaIoTasks
          (driveContent heap s.ctx.alloc s.driveSmallestBlockSize)
        some { s with
          -- the source sets this field here
          logicalBlockSize := 4096
          orderer := o
          queuedData := fun d =>
            if s.orderer.jarrDirtyMeta.entries.any fun r => r.1 ≤ d ∧ d < r.1 + r.2 then
              s.ctx.alloc.data
            else s.queuedData d }
      else none
  | .getNextSubmitMetaIoTasks => do
      match ← s.orderer.getNextSubmitMetaIoTasks with
      | none => some s
      | some (_, o) => some { s with orderer := o }
  | .completeMetaSync task => do
      let o ← s.orderer.completeMetaSync task
      some { s with orderer := o }

/-- A drive block outside the dirty ranges has the words it had when it was last queued. -/
structure Fresh (bs : ℕ) (s : SyncedAllocator) : Prop where
  bits : s.ctx.alloc.bitsPerCell = 4
  size : s.driveSmallestBlockSize = bs
  fresh : ∀ d start num, s.ctx.alloc.driveDataRange d 1 bs = some (start, num) →
    ¬ Covered s.orderer.jarrDirtyMeta d → ∀ w, start ≤ w → w < start + num →
      s.ctx.alloc.data[w]? = (s.queuedData d)[w]?

section

variable {heap : ℕ → BitVec 64} {bs : ℕ} {s s' : SyncedAllocator}

theorem driveDataRange_congr {q q' : QwordVector64Cell} (h : SameParams q q') (d n bs : ℕ) :
    q'.driveDataRange d n bs = q.driveDataRange d n bs := by
  unfold driveDataRange
  rw [h.metaStart, h.offset]

theorem any_entries_iff {m : JudyArray ℕ} {d : ℕ} :
    (m.entries.any fun r => r.1 ≤ d ∧ d < r.1 + r.2) = true ↔ Covered m d := by
  simp only [List.any_eq_true, decide_eq_true_eq]
  exact Iff.rfl

theorem Fresh.call (hs : Fresh bs s) (hbs : 8 ∣ bs) {call : Context.Call}
    (hstep : step heap s (.call call) = some s') : Fresh bs s' := by
  unfold step at hstep
  obtain ⟨r, hr, hstep⟩ := Option.bind_eq_some_iff.1 hstep
  have htouch := Context.call_touches hr
  cases hd : r.dirty with
  | none =>
    rw [hd] at hstep htouch
    obtain ⟨hparams, hdata⟩ := htouch
    cases hstep
    refine ⟨hparams.bits.trans hs.bits, hs.size, fun d start num hrange hcov w h1 h2 => ?_⟩
    dsimp only at hrange hcov ⊢
    rw [hdata]
    exact hs.fresh d start num (driveDataRange_congr hparams d 1 bs ▸ hrange) hcov w h1 h2
  | some p =>
    obtain ⟨b, n⟩ := p
    rw [hd] at hstep htouch
    obtain ⟨-, ht⟩ := htouch
    obtain ⟨⟨a, k⟩, ha, hstep⟩ := Option.bind_eq_some_iff.1 hstep
    obtain ⟨o, ho, hstep⟩ := Option.bind_eq_some_iff.1 hstep
    cases hstep
    obtain ⟨m, hm, rfl⟩ := Option.map_eq_some_iff.1 ho
    obtain ⟨m', hm', hcovered⟩ := mergeDirtyMeta_covered s.orderer.jarrDirtyMeta a k
    rw [hm'] at hm
    cases hm
    have hbits := ht.params.bits.trans hs.bits
    refine ⟨hbits, hs.size, fun d start num hrange hcov w h1 h2 => ?_⟩
    dsimp only at hrange hcov ⊢
    rw [hcovered] at hcov
    rw [hs.size] at ha
    -- the words of an unmarked drive block hold no cell of the operation
    rw [ht.words w fun x hx1 hx2 hxw => ?_]
    · exact hs.fresh d start num (driveDataRange_congr ht.params d 1 bs ▸ hrange)
        (fun hc => hcov (Or.inl hc)) w h1 h2
    · have hword : r.ctx.alloc.wordOf x = w := by
        rw [← hxw]
        unfold wordOf
        rw [ht.params.bits, ht.params.offset]
      exact hcov (Or.inr (translate_covers hbits hbs ha hx1 hx2 hrange (by omega) (by omega)))

theorem Fresh.queue (hs : Fresh bs s) (hstep : step heap s .queueSyncMetaIoTasks = some s') :
    Fresh bs s' := by
  unfold step queueSyncMetaIoTasks at hstep
  dsimp only at hstep
  by_cases hall : (s.orderer.jarrDirtyMeta.entries.all fun r =>
      (s.ctx.alloc.driveDataRange r.1 r.2 s.driveSmallestBlockSize).isSome) = true
  · rw [if_pos hall] at hstep
    by_cases hne : s.orderer.jarrDirtyMeta.entries = []
    · rw [if_pos hne] at hstep
      cases hstep
    · rw [if_neg hne] at hstep
      cases hstep
      refine ⟨hs.bits, hs.size, fun d start num hrange hcov w h1 h2 => ?_⟩
      dsimp only
      split_ifs with hany
      · rfl
      · exact hs.fresh d start num hrange (fun hc => hany (any_entries_iff.2 hc)) w h1 h2
  · rw [if_neg hall] at hstep
    cases hstep

theorem step_fresh (hbs : 8 ∣ bs) (act : SyncedCall) (hs : Fresh bs s)
    (hstep : step heap s act = some s') : Fresh bs s' := by
  cases act with
  | call call => exact hs.call hbs hstep
  | queueSyncMetaIoTasks => exact hs.queue hstep
  | getNextSubmitMetaIoTasks =>
    unfold step getNextSubmitMetaIoTasks at hstep
    obtain ⟨r, hr, hstep⟩ := Option.bind_eq_some_iff.1 hstep
    cases hq : s.orderer.ioDevGuardQ with
    | nil =>
      rw [hq] at hr
      cases hr
      cases hstep
      exact hs
    | cons task queue =>
      rw [hq] at hr
      dsimp only at hr
      split_ifs at hr
      · cases hr
        cases hstep
        exact hs
      · obtain ⟨g, -, rfl⟩ := Option.map_eq_some_iff.1 hr
        cases hstep
        exact ⟨hs.bits, hs.size, hs.fresh⟩
  | completeMetaSync task =>
    unfold step completeMetaSync at hstep
    obtain ⟨o, ho, hstep⟩ := Option.bind_eq_some_iff.1 hstep
    obtain ⟨g, -, rfl⟩ := Option.map_eq_some_iff.1 ho
    cases hstep
    exact ⟨hs.bits, hs.size, hs.fresh⟩

theorem init_fresh {config : Opts} {c : Context} (hc : dssBlkAllocatorInit config = some c)
    (bs maxDirtySegments : ℕ) : Fresh bs (init c bs maxDirtySegments) := by
  obtain ⟨q, hq, rfl⟩ := Option.map_eq_some_iff.1 hc
  refine ⟨?_, rfl, fun d start num _ _ w _ _ => rfl⟩
  unfold BlockAllocator.init at hq
  split_ifs at hq
  cases hq
  rfl

theorem run_fresh {config : Opts} {c : Context} (hc : dssBlkAllocatorInit config = some c)
    (hbs : 8 ∣ bs) {maxDirtySegments : ℕ} {acts : List SyncedCall}
    (hrun : Run.run (step heap) (init c bs maxDirtySegments) acts = some s) : Fresh bs s :=
  Run.run_inv (fun _ act _ hs _ hstep => step_fresh hbs act hs hstep)
    (init_fresh hc bs maxDirtySegments) (Run.admissible_true _ _) hrun

end

/-- The cell of block `b` lies in the words serialised for drive block `d`. -/
def HoldsCell (q : QwordVector64Cell) (bs d b : ℕ) : Prop :=
  ∃ start num, q.driveDataRange d 1 bs = some (start, num) ∧ start ≤ q.wordOf b ∧
    q.wordOf b < start + num

/-- The cell of block `b` is not what it was when drive block `d` was last queued. -/
def CellChanged (s : SyncedAllocator) (d b : ℕ) : Prop :=
  s.ctx.alloc.cellOf b ≠ (cellAt s.ctx.alloc.bitsPerCell (s.queuedData d)
    (b - s.ctx.alloc.logicalStartBlockOffset)).toNat

/-- After every run, a meta sync hands every drive block with a changed cell to the I/O task; and the
drive blocks computed for the range that a call marks contain every drive block whose serialised
words hold a cell of the range. -/
theorem changed_cells_queued (heap : ℕ → BitVec 64) {config : Opts} {c : Context} {bs : ℕ}
    {maxDirtySegments : ℕ} {acts : List SyncedCall} {s s' : SyncedAllocator}
    (hc : dssBlkAllocatorInit config = some c) (hbs : 8 ∣ bs)
    (hrun : Run.run (step heap) (init c bs maxDirtySegments) acts = some s)
    (hqueue : step heap s .queueSyncMetaIoTasks = some s') :
    (∃ task, s'.orderer.ioDevGuardQ = s.orderer.ioDevGuardQ ++ [task] ∧
      ∀ d b, HoldsCell s.ctx.alloc bs d b → CellChanged s d b →
        ∃ r ∈ task.ranges, r.1 ≤ d ∧ d < r.1 + r.2) ∧
    ∀ call reply b n a k, s.ctx.call call = some reply → reply.dirty = some (b, n) →
      reply.ctx.alloc.translateMetaToDriveAddr b n bs s.logicalBlockSize = some (a, k) →
      ∀ x d, b ≤ x → x < b + n → HoldsCell reply.ctx.alloc bs d x → a ≤ d ∧ d < a + k := by
  have hs := run_fresh hc hbs hrun
  constructor
  · unfold step queueSyncMetaIoTasks at hqueue
    dsimp only at hqueue
    split_ifs at hqueue
    · cases hqueue
    cases hqueue
    refine ⟨_, rfl, fun d b hholds hchanged => ?_⟩
    by_contra hnot
    obtain ⟨start, num, hrange, h1, h2⟩ := hholds
    -- outside the dirty ranges the word of the cell is the queued one
    have hword := hs.fresh d start num hrange (fun hcov => hnot hcov) _ h1 h2
    refine hchanged ?_
    unfold cellOf cellAt
    unfold wordOf at hword
    rw [hword]
  · intro call reply b n a k hreply hdirty ha x d hx1 hx2 hholds
    obtain ⟨start, num, hrange, h1, h2⟩ := hholds
    have ht := Context.call_touches hreply
    rw [hdirty] at ht
    exact translate_covers (ht.2.params.bits.trans hs.bits) hbs ha hx1 hx2 hrange h1 h2

/-- Sixteen blocks behind a bitmap of one drive block. -/
def oneDriveBlock : Opts := ⟨16, 8, 3, 2⟩

/-- The two blocks allocated on a fresh device are handed to the task. -/
theorem changed_cells_queued_oneDriveBlock :
    ∃ c s s', dssBlkAllocatorInit oneDriveBlock = some c ∧
      Run.run (step fun _ => 0) (init c 4096 4096) [.call (.allocBlocksContig 3 5 2 true)] =
        some s ∧ step (fun _ => 0) s .queueSyncMetaIoTasks = some s' ∧
      ∃ task, s'.orderer.ioDevGuardQ = [task] ∧
        ∀ d b, HoldsCell s.ctx.alloc 4096 d b → CellChanged s d b →
          ∃ r ∈ task.ranges, r.1 ≤ d ∧ d < r.1 + r.2 := by
  obtain ⟨c, hc⟩ : ∃ c, dssBlkAllocatorInit oneDriveBlock = some c := ⟨_, rfl⟩
  obtain ⟨s, s', hrun, hq, hempty⟩ : ∃ s s', Run.run (step fun _ => 0) (init c 4096 4096)
      [.call (.allocBlocksContig 3 5 2 true)] = some s ∧
      step (fun _ => 0) s .queueSyncMetaIoTasks = some s' ∧ s.orderer.ioDevGuardQ = [] := by
    cases hc
    exact ⟨_, _, rfl, rfl, rfl⟩
  obtain ⟨⟨task, htask, hcov⟩, -⟩ := changed_cells_queued (fun _ => 0) hc (by norm_num) hrun hq
  rw [hempty] at htask
  exact ⟨c, s, s', hc, hrun, hq, task, htask, hcov⟩

end SyncedAllocator

end DssSdk.BlockAllocator
