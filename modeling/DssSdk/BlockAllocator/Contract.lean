import DssSdk.BlockAllocator.Impresario
import DssSdk.BlockAllocator.SeekComplete

/-!
# The contracts of allocation and release

What `alloc_blocks_contig` and `clear_blocks` promise in a state that satisfies the representation
invariant, and exactly when they keep it.

* `wellFormed_of_run`: the invariant holds in every state of a run of documented calls;
* `AllocatesExactly`, `allocatesExactly_iff`: an allocation succeeds exactly when there is room, takes
  free blocks, and respects the hint. It sets the requested state if that fits in a cell;
* `ClearsExactly`, `FreesExactly`, `clearsExactly_iff`: a release frees allocated blocks and refuses
  any other range. It does so unless a block of a range on the device is free already.

The checks of `is_mergable` look at the first block of the range only, and leave the last block of
the chunk before it out.
-/

namespace DssSdk.BlockAllocator

open JudySeekOptimizer

namespace Context

open QwordVector64Cell

variable {c : Context}

/-- The representation invariant, the second level of the map by length included. -/
structure WellFormed (c : Context) : Prop where
  managed : Managed c
  dense : c.alloc.jso.jarrFreeContigLen.Dense

/-! ### Runs of calls -/

theorem setCells_jso {q q' : QwordVector64Cell} {b n v : ℕ} (h : q.setCells b n v = some q') :
    q'.jso = q.jso := by
  induction n generalizing q b with
  | zero =>
    cases h
    rfl
  | succ n ih =>
    obtain ⟨q₁, h₁, h⟩ := Option.bind_eq_some_iff.1 h
    rw [ih h]
    unfold setCell at h₁
    dsimp only at h₁
    split_ifs at h₁
    cases h₁
    rfl

theorem setCell_jso {q q' : QwordVector64Cell} {b v : ℕ} (h : q.setCell b v = some q') :
    q'.jso = q.jso :=
  setCells_jso (n := 1) (v := v) (b := b) (by simp [setCells, h])

theorem allocBlocksContig_edits {q : QwordVector64Cell} {v hint n : ℕ} {wantStart : Bool}
    {o : Outcome} (h : q.allocBlocksContig v hint n wantStart = some o)
    (hd : q.jso.jarrFreeContigLen.Dense) : o.alloc.jso.jarrFreeContigLen.Dense := by
  unfold QwordVector64Cell.allocBlocksContig at h
  by_cases hbad : hint > q.bmapLastCellId ∨ n > q.cells
  · rw [if_pos hbad] at h
    cases h
    exact hd
  rw [if_neg hbad] at h
  obtain ⟨found, hfound, h⟩ := Option.bind_eq_some_iff.1 h
  rcases found with _ | ⟨lb, jso⟩
  · cases h
    exact hd
  have hjso := (allocateLb_edits hfound).dense hd
  dsimp only at h
  split_ifs at h
  · obtain ⟨freed, hfreed, h⟩ := Option.bind_eq_some_iff.1 h
    rcases freed with _ | jso'
    · cases h
    · cases h
      exact (freeLb_edits hfreed).dense hjso
  all_goals
    obtain ⟨q', hq', h⟩ := Option.bind_eq_some_iff.1 h
    cases h
    rw [setCells_jso hq']
    exact hjso

theorem setBlocksState_edits {q : QwordVector64Cell} {b n v : ℕ} {o : Outcome}
    (h : q.setBlocksState b n v = some o) (hd : q.jso.jarrFreeContigLen.Dense) :
    o.alloc.jso.jarrFreeContigLen.Dense := by
  unfold QwordVector64Cell.setBlocksState at h
  dsimp only at h
  split_ifs at h
  obtain ⟨value, -, h⟩ := Option.bind_eq_some_iff.1 h
  split_ifs at h
  · obtain ⟨q', hq', h⟩ := Option.bind_eq_some_iff.1 h
    cases h
    rw [setCell_jso hq']
    exact hd
  · obtain ⟨found, hfound, h⟩ := Option.bind_eq_some_iff.1 h
    rcases found with _ | ⟨lb, jso⟩
    · cases h
      exact hd
    dsimp only at h
    split_ifs at h
    obtain ⟨q', hq', h⟩ := Option.bind_eq_some_iff.1 h
    cases h
    rw [setCell_jso hq']
    exact (allocateLb_edits hfound).dense hd

theorem clearBlocks_edits {q : QwordVector64Cell} {b n : ℕ} {o : Outcome}
    (h : q.clearBlocks b n = some o) (hd : q.jso.jarrFreeContigLen.Dense) :
    o.alloc.jso.jarrFreeContigLen.Dense := by
  unfold QwordVector64Cell.clearBlocks at h
  dsimp only at h
  by_cases hbad : b > q.bmapLastCellId ∨ b + n - 1 > q.bmapLastCellId
  · rw [if_pos hbad] at h
    cases h
    exact hd
  rw [if_neg hbad] at h
  obtain ⟨freed, hfreed, h⟩ := Option.bind_eq_some_iff.1 h
  rcases freed with _ | jso
  · dsimp only at h
    split_ifs at h
    cases h
    exact hd
  · obtain ⟨q', hq', h⟩ := Option.bind_eq_some_iff.1 h
    cases h
    rw [setCells_jso hq']
    exact (freeLb_edits hfreed).dense hd

theorem step_dense {c' : Context} {call : Call} (h : step c call = some c')
    (hd : c.alloc.jso.jarrFreeContigLen.Dense) : c'.alloc.jso.jarrFreeContigLen.Dense := by
  obtain ⟨r, hr, rfl⟩ := Option.map_eq_some_iff.1 h
  cases call with
  | allocBlocksContig v hint n wantStart =>
    change c.allocBlocksContig v hint n wantStart = some r at hr
    unfold allocBlocksContig at hr
    split_ifs at hr
    · cases hr
      exact hd
    · obtain ⟨o, ho, rfl⟩ := Option.map_eq_some_iff.1 hr
      exact allocBlocksContig_edits ho hd
  | setBlocksState b n v =>
    change c.setBlocksState b n v = some r at hr
    unfold setBlocksState at hr
    split_ifs at hr
    · cases hr
      exact hd
    · cases hr
      exact hd
    · cases hr
      exact hd
    · obtain ⟨o, ho, rfl⟩ := Option.map_eq_some_iff.1 hr
      exact setBlocksState_edits ho hd
  | clearBlocks b n =>
    change c.clearBlocks b n = some r at hr
    unfold clearBlocks at hr
    split_ifs at hr
    · cases hr
      exact hd
    · obtain ⟨o, ho, rfl⟩ := Option.map_eq_some_iff.1 hr
      exact clearBlocks_edits ho hd

theorem dense_of_init {config : Opts} (hc : dssBlkAllocatorInit config = some c) :
    c.alloc.jso.jarrFreeContigLen.Dense := by
  unfold dssBlkAllocatorInit init at hc
  split_ifs at hc
  all_goals
    cases hc
    try exact dense_init _ _

/-- The invariant that the contracts ask for holds in every state of a run of documented calls. -/
theorem wellFormed_of_run {config : Opts} (calls : List Call)
    (hc : dssBlkAllocatorInit config = some c) (hv : ValidOpts config)
    (hok : Run.Admissible step SingleBlockSet c calls) :
    ∃ c', Run.run step c calls = some c' ∧ WellFormed c' := by
  have hstep : ∀ s call, Inv s ∧ s.alloc.jso.jarrFreeContigLen.Dense → SingleBlockSet s call →
      ∃ s', step s call = some s' ∧ Inv s' ∧ s'.alloc.jso.jarrFreeContigLen.Dense := by
    intro s call hs h
    obtain ⟨s', hs', hinv⟩ := step_spec call hs.1 h
    exact ⟨s', hs', hinv, step_dense hs' hs.2⟩
  obtain ⟨c', hrun, hinv, hd⟩ :=
    Run.run_total hstep ⟨(inv_of_init hc hv).1, dense_of_init hc⟩ hok
  exact ⟨c', hrun, hinv.managed, hd⟩

theorem wellFormed_of_init {config : Opts} (hc : dssBlkAllocatorInit config = some c)
    (hblocks : 0 < config.numTotalBlocks)
    (haddr : config.numTotalBlocks + config.logicalStartBlockOffset < 2 ^ 64) : WellFormed c :=
  ⟨(managed_of_init hc hblocks haddr).1, dense_of_init hc⟩

/-! ### Allocation -/

/-- The blocks `b, …, b + n - 1` are on the device and free. -/
def FreeRun (c : Context) (b n : ℕ) : Prop :=
  c.alloc.OnDevice b n ∧ ∀ x, b ≤ x → x < b + n → c.alloc.cellOf x = blockStateFree

/-- Bitmap, free maps and counters have the same content. -/
def Unchanged (c c' : Context) : Prop :=
  ∃ jso, SameSeek c.alloc.jso jso ∧ c' = { c with alloc := { c.alloc with jso := jso } }

/-- `c'` is `c` with the free blocks `lb, …, lb + n - 1` allocated in the state `v`. -/
structure Sets (c : Context) (v n lb : ℕ) (c' : Context) : Prop where
  free : FreeRun c lb n
  opts : c'.opts = c.opts
  cell : ∀ x, c.alloc.logicalStartBlockOffset ≤ x →
    c'.alloc.cellOf x = if lb ≤ x ∧ x < lb + n then v else c.alloc.cellOf x

/-- The contract of `alloc_blocks_contig`, with and without `allocated_start_block`. -/
structure AllocatesExactly (c : Context) (v hint n : ℕ) : Prop where
  anywhere : ∃ r, c.allocBlocksContig v hint n true = some r ∧
    (r.status = .success ↔ ∃ b, FreeRun c b n) ∧
    (r.status = .success → ∃ lb, r.allocatedStartBlock = some lb ∧ Sets c v n lb r.ctx ∧
      (FreeRun c hint n → lb = hint)) ∧
    (r.status ≠ .success → Unchanged c r.ctx)
  atHint : ∃ r, c.allocBlocksContig v hint n false = some r ∧
    (r.status = .success ↔ FreeRun c hint n) ∧
    (r.status = .success → Sets c v n hint r.ctx) ∧
    (r.status ≠ .success → Unchanged c r.ctx)

theorem FreeRun.freeAt (hc : Managed c) {b n : ℕ} (h : FreeRun c b n) :
    ∀ x, b ≤ x → x < b + n → FreeAt c.alloc.jso x := by
  obtain ⟨⟨h1, h2⟩, hfree⟩ := h
  intro x hx1 hx2
  exact (hc.rep.free x ⟨by omega, by omega⟩).2 (hfree x hx1 hx2)

theorem FreeRun.allocateLb_ne (hc : WellFormed c) {b hint n : ℕ} (hn : 0 < n)
    (hhint : c.alloc.OnDevice hint 1) (h : FreeRun c b n) :
    c.alloc.jso.allocateLb hint n ≠ some none := by
  obtain ⟨lb, len, hm, h1, h2⟩ :=
    hc.managed.rep.seek.chunks.chunk_of_run hn (h.freeAt hc.managed)
  have e1 := hc.managed.agrees.jsoOffset
  have e2 := hc.managed.agrees.offset
  have e3 := hc.managed.agrees.jsoBlocks
  have e4 := hc.managed.agrees.cells
  have e5 := hhint.2
  exact allocateLb_complete hc.managed.rep.seek hc.dense hn (by omega) hm (by omega)

theorem FreeRun.allocateLb_eq (hc : Managed c) {hint n lb : ℕ} {j : JudySeekOptimizer}
    (hn : 0 < n) (h : FreeRun c hint n)
    (hfound : c.alloc.jso.allocateLb hint n = some (some (lb, j))) : lb = hint := by
  obtain ⟨j', h', -⟩ := allocateLb_hint hc.rep.seek hn (h.freeAt hc)
  rw [hfound] at h'
  exact (Prod.mk.inj (Option.some.inj (Option.some.inj h'))).1

/-- A free run at the hint is what an allocation takes. -/
theorem FreeRun.granted (hc : Managed c) (v : ℕ) {hint n : ℕ} (hn : 0 < n) (h : FreeRun c hint n) :
    ∃ r, c.allocBlocksContig v hint n true = some r ∧ Grants c v hint n true hint r := by
  obtain ⟨j, hj, -⟩ := allocateLb_hint hc.rep.seek hn (h.freeAt hc)
  have hend := h.1.2
  have hidx : c.isBlockIndexValid hint = true :=
    (isBlockIndexValid_iff hc.agrees).2 ⟨h.1.1, by omega⟩
  obtain ⟨r, hr, ⟨-, hwhy⟩ | ⟨lb, j', hfound, hg⟩⟩ := allocBlocksContig_cases hc v hint true hn
  · rcases hwhy hidx (by have := h.1.1; omega) with h0 | ⟨h0, -⟩
    · rw [hj] at h0
      cases h0
    · cases h0
  · obtain rfl := h.allocateLb_eq hc hn hfound
    exact ⟨r, hr, hg⟩

theorem Grants.freeRun {v hint n lb : ℕ} {wantStart : Bool} {r : Reply}
    (h : Grants c v hint n wantStart lb r) : FreeRun c lb n :=
  ⟨h.onDevice, h.wasFree⟩

/-- The blocks get the lowest four bits of the requested state. -/
theorem Grants.cell {v hint n lb : ℕ} {wantStart : Bool} {r : Reply}
    (h : Grants c v hint n wantStart lb r) {x : ℕ} (hx : c.alloc.logicalStartBlockOffset ≤ x) :
    r.ctx.alloc.cellOf x = if lb ≤ x ∧ x < lb + n then v % 16 else c.alloc.cellOf x := by
  obtain ⟨jso, q, hset, hctx⟩ := h.cells
  rw [hctx]
  exact hset.cell x hx

theorem Grants.sets {v hint n lb : ℕ} {wantStart : Bool} {r : Reply}
    (h : Grants c v hint n wantStart lb r) (hv : v ≤ 15) : Sets c v n lb r.ctx := by
  refine ⟨h.freeRun, ?_, fun x hx => ?_⟩
  · obtain ⟨jso, q, -, hctx⟩ := h.cells
    rw [hctx]
  · rw [h.cell hx, Nat.mod_eq_of_lt (by omega)]

/-- The calls keep the contract exactly when the requested state fits in a cell, or there is no room
for the request. -/
theorem allocatesExactly_iff (hc : WellFormed c) {v hint n : ℕ} (hn : 0 < n)
    (hhint : c.alloc.OnDevice hint 1) :
    AllocatesExactly c v hint n ↔ v ≤ 15 ∨ ¬ ∃ b, FreeRun c b n := by
  have hidx : c.isBlockIndexValid hint = true :=
    (isBlockIndexValid_iff hc.managed.agrees).2 hhint
  have hcells : ∀ {b}, FreeRun c b n → n ≤ c.alloc.cells := by
    rintro b ⟨⟨h1, h2⟩, -⟩
    omega
  constructor
  · intro h
    by_contra hno
    push Not at hno
    obtain ⟨hv, hrun⟩ := hno
    obtain ⟨r, hr, hiff, hsets, -⟩ := h.anywhere
    obtain ⟨lb, -, hset, -⟩ := hsets (hiff.2 hrun)
    obtain ⟨r', hr', ⟨href, -⟩ | ⟨lb', j, -, hg⟩⟩ :=
      allocBlocksContig_cases hc.managed v hint true hn
    · obtain rfl := Option.some.inj (hr.symm.trans hr')
      exact href.status (hiff.2 hrun)
    · obtain rfl := Option.some.inj (hr.symm.trans hr')
      have hx := hset.free.1.1
      have h1 := hset.cell lb hx
      have h2 := hg.cell hx
      have h3 := hset.free.2 lb le_rfl (by omega)
      rw [if_pos ⟨le_rfl, by omega⟩] at h1
      rw [h1, h3] at h2
      unfold blockStateFree at h2
      split_ifs at h2 <;> omega
  · intro hor
    have hv : ∀ {b}, FreeRun c b n → v ≤ 15 := fun hb => hor.resolve_right fun h0 => h0 ⟨_, hb⟩
    constructor
    · obtain ⟨r, hr, ⟨href, hwhy⟩ | ⟨lb, j, hfound, hg⟩⟩ :=
        allocBlocksContig_cases hc.managed v hint true hn
      · refine ⟨r, hr, ⟨fun h0 => absurd h0 href.status, ?_⟩, fun h0 => absurd h0 href.status,
          fun _ => href.alloc⟩
        rintro ⟨b, hb⟩
        rcases hwhy hidx (hcells hb) with h0 | ⟨h0, -⟩
        · exact absurd h0 (hb.allocateLb_ne hc hn hhint)
        · cases h0
      · exact ⟨r, hr, ⟨fun _ => ⟨lb, hg.freeRun⟩, fun _ => hg.status⟩,
          fun _ => ⟨lb, hg.start, hg.sets (hv hg.freeRun), fun hb => hb.allocateLb_eq hc.managed hn hfound⟩,
          fun h0 => absurd hg.status h0⟩
    · obtain ⟨r, hr, ⟨href, hwhy⟩ | ⟨lb, j, hfound, hg⟩⟩ :=
        allocBlocksContig_cases hc.managed v hint false hn
      · refine ⟨r, hr, ⟨fun h0 => absurd h0 href.status, fun hb => ?_⟩,
          fun h0 => absurd h0 href.status, fun _ => href.alloc⟩
        rcases hwhy hidx (hcells hb) with h0 | ⟨-, lb, j, hne, hfound⟩
        · exact absurd h0 (hb.allocateLb_ne hc hn hhint)
        · exact absurd (hb.allocateLb_eq hc.managed hn hfound) hne
      · obtain rfl := hg.hinted rfl
        exact ⟨r, hr, ⟨fun _ => hg.freeRun, fun _ => hg.status⟩, fun _ => hg.sets (hv hg.freeRun),
          fun h0 => absurd hg.status h0⟩

/-- The small device with a block in use: two more blocks fit at the hint. -/
theorem allocatesExactly_small :
    ∃ c c', dssBlkAllocatorInit smallOpts = some c ∧
      Run.run step c [.allocBlocksContig 3 8 1 true] = some c' ∧ AllocatesExactly c' 2 9 2 := by
  obtain ⟨c', hrun, hc'⟩ := wellFormed_of_run [.allocBlocksContig 3 8 1 true]
    (show dssBlkAllocatorInit smallOpts = some _ from rfl) ⟨by decide, by decide, by decide⟩
    (by decide +kernel)
  refine ⟨_, c', rfl, hrun, (allocatesExactly_iff hc' (by decide) ?_).2 (Or.inl (by decide))⟩
  cases hrun
  decide

/-- With sixteen states the last of them is not stored. -/
theorem not_allocatesExactly_sixteen :
    ¬ ∀ (c : Context) (v hint n : ℕ), WellFormed c → 1 ≤ v → v ≤ c.opts.numBlockStates →
      0 < n → c.alloc.OnDevice hint 1 → AllocatesExactly c v hint n := by
  intro h
  have hc : WellFormed _ := wellFormed_of_init
    (show dssBlkAllocatorInit ⟨1, 16, 0, 0⟩ = some _ from rfl) (by decide) (by decide)
  obtain ⟨⟨r, hr, hiff, hsets, -⟩, -⟩ :=
    h _ 16 0 1 hc (by decide) (by decide) (by decide) (by decide)
  cases hr
  obtain ⟨lb, hlb, hset, -⟩ := hsets (by decide)
  cases hlb
  exact absurd (hset.cell 0 (by decide)) (by decide)

/-! ### Release -/

/-- A range of allocated blocks on the device. -/
def Clearable (c : Context) (b n : ℕ) : Prop :=
  0 < n ∧ c.alloc.OnDevice b n ∧ ∀ x, b ≤ x → x < b + n → c.alloc.cellOf x ≠ blockStateFree

/-- The contract of `clear_blocks`. -/
def ClearsExactly (c : Context) (b n : ℕ) : Prop :=
  ∃ r, c.clearBlocks b n = some r ∧
    (Clearable c b n → r.status = .success ∧ Cleared c b n r.ctx) ∧
    (¬ Clearable c b n → r.status ≠ .success ∧ r.ctx = c)

/-- The contract of `free_lb`. -/
def FreesExactly (j : JudySeekOptimizer) (lb n : ℕ) : Prop :=
  ∃ o, j.freeLb lb n = some o ∧ (Releasable j lb n → ∃ j', o = some j' ∧ Released j n lb j') ∧
    (¬ Releasable j lb n → o = none)

/-- `free_lb` refuses a range that starts below the device or with a chunk. -/
theorem freeLb_eq_none_iff {j : JudySeekOptimizer} {lb n : ℕ} :
    j.freeLb lb n = some none ↔
      lb < j.logicalStartBlockOffset ∨ (j.jarrFreeLb.get? lb).isSome = true := by
  unfold freeLb
  constructor
  · intro h
    by_contra hno
    push Not at hno
    rw [if_neg (not_lt.2 hno.1), if_neg hno.2] at h
    obtain ⟨nb, -, h⟩ := Option.bind_eq_some_iff.1 h
    dsimp only at h
    split_ifs at h
    · obtain ⟨j₁, -, h⟩ := Option.bind_eq_some_iff.1 h
      obtain ⟨j₂, -, h⟩ := Option.bind_eq_some_iff.1 h
      cases h
    · obtain ⟨j₁, -, h⟩ := Option.bind_eq_some_iff.1 h
      obtain ⟨j₂, -, h⟩ := Option.bind_eq_some_iff.1 h
      cases h
  · rintro (h | h)
    · rw [if_pos h]
    · split_ifs
      · rfl
      · rfl

/-- A range on the device is never refused by `clear_blocks`: it succeeds or stops. -/
theorem clearBlocks_status (hc : Managed c) {b n : ℕ} {r : Reply} (hn : 0 < n)
    (hn64 : n < 2 ^ 64) (hon : c.alloc.OnDevice b n) (h : c.clearBlocks b n = some r) :
    r.status = .success := by
  have hrange : c.isBlockRangeValid b n = true := (isBlockRangeValid_iff hc hn64).2 ⟨hn, hon⟩
  unfold clearBlocks at h
  rw [if_neg (by rw [hrange]; decide)] at h
  obtain ⟨o, ho, rfl⟩ := Option.map_eq_some_iff.1 h
  unfold QwordVector64Cell.clearBlocks bmapLastCellId at ho
  obtain ⟨h1, h2⟩ := hon
  rw [if_neg (by omega)] at ho
  obtain ⟨freed, -, ho⟩ := Option.bind_eq_some_iff.1 ho
  cases freed with
  | none =>
    dsimp only at ho
    split_ifs at ho
    cases ho
    rfl
  | some jso =>
    obtain ⟨q, -, ho⟩ := Option.bind_eq_some_iff.1 ho
    cases ho
    rfl

/-- `clear_blocks` keeps its contract exactly when no block of a range on the device is free, and
`free_lb` when the range can be released or starts below the device or with a chunk. -/
theorem clearsExactly_iff (hc : Managed c) {b n : ℕ} (hn64 : n < 2 ^ 64) :
    (ClearsExactly c b n ↔ (0 < n → c.alloc.OnDevice b n →
      ∀ x, b ≤ x → x < b + n → c.alloc.cellOf x ≠ blockStateFree)) ∧
    (FreesExactly c.alloc.jso b n ↔ Releasable c.alloc.jso b n ∨
      b < c.alloc.jso.logicalStartBlockOffset ∨ (c.alloc.jso.jarrFreeLb.get? b).isSome = true) := by
  constructor
  · constructor
    · rintro ⟨r, hr, -, hbad⟩ hn hon
      by_contra hfree
      refine (hbad fun h0 => hfree h0.2.2).1 (clearBlocks_status hc hn hn64 hon hr)
    · intro hused
      by_cases hrange : 0 < n ∧ c.alloc.OnDevice b n
      · obtain ⟨hn, hon⟩ := hrange
        have hclear : Clearable c b n := ⟨hn, hon, hused hn hon⟩
        obtain ⟨r, hr, hst, -, hcl⟩ := clearBlocks_managed hc hn hon (hused hn hon)
        exact ⟨r, hr, fun _ => ⟨hst, hcl⟩, fun h0 => absurd hclear h0⟩
      · have hbad : c.isBlockRangeValid b n = false :=
          Bool.eq_false_of_not_eq_true fun h0 => hrange ((isBlockRangeValid_iff hc hn64).1 h0)
        refine ⟨c.reject .invalidBlockRange, ?_, fun h0 => absurd ⟨h0.1, h0.2.1⟩ hrange,
          fun _ => ⟨by simp [reject], rfl⟩⟩
        unfold clearBlocks
        rw [if_pos hbad]
  · constructor
    · rintro ⟨o, ho, -, hbad⟩
      by_cases hrel : Releasable c.alloc.jso b n
      · exact Or.inl hrel
      · rw [hbad hrel] at ho
        exact Or.inr (freeLb_eq_none_iff.1 ho)
    · intro hor
      by_cases hrel : Releasable c.alloc.jso b n
      · obtain ⟨j', hj', hfreed⟩ := freeLb_spec hc.rep.seek hrel
        exact ⟨some j', hj', fun _ => ⟨j', rfl, hfreed⟩, fun h0 => absurd hrel h0⟩
      · exact ⟨none, freeLb_eq_none_iff.2 (hor.resolve_left hrel), fun h0 => absurd h0 hrel,
          fun _ => rfl⟩

/-- The small device with two blocks in use: they are released. -/
theorem clearsExactly_small :
    ∃ c c', dssBlkAllocatorInit smallOpts = some c ∧
      Run.run step c [.allocBlocksContig 3 8 2 true] = some c' ∧ ClearsExactly c' 8 2 := by
  obtain ⟨c', hrun, hc'⟩ := wellFormed_of_run [.allocBlocksContig 3 8 2 true]
    (show dssBlkAllocatorInit smallOpts = some _ from rfl) ⟨by decide, by decide, by decide⟩
    (by decide +kernel)
  refine ⟨_, c', rfl, hrun, (clearsExactly_iff hc'.managed (by decide)).1.2 ?_⟩
  cases hrun
  intro _ _ x hx1 hx2
  obtain rfl | rfl : x = 8 ∨ x = 9 := by omega
  · decide
  · decide

/-- A range that ends in a free chunk is released once more: the blocks `8` and `9` are in use, and
clearing `9` and `10` succeeds. -/
theorem not_clearsExactly_overlap :
    ¬ ∀ (c : Context) (b n : ℕ), WellFormed c → n < 2 ^ 64 →
      ClearsExactly c b n ∧ FreesExactly c.alloc.jso b n := by
  intro h
  obtain ⟨c', hrun, hc'⟩ := wellFormed_of_run [.allocBlocksContig 3 8 2 true]
    (show dssBlkAllocatorInit smallOpts = some _ from rfl) ⟨by decide, by decide, by decide⟩
    (by decide +kernel)
  obtain ⟨⟨r, hr, -, hbad⟩, -⟩ := h c' 9 2 hc' (by decide)
  have hst : r.status = .success := by
    refine clearBlocks_status hc'.managed (by decide) (by decide) ?_ hr
    cases hrun
    decide
  refine (hbad fun hclear => hclear.2.2 10 (by decide) (by decide) ?_).1 hst
  cases hrun
  decide

end Context

end DssSdk.BlockAllocator
