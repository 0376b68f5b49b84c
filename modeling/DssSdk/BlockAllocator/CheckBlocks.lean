import DssSdk.BlockAllocator.Impresario
import DssSdk.Lib.Scan

/-!
# Checks of a range of blocks

`check_blocks_state` of the bitmap and the loop of `dss_blk_allocator_check_blocks_state` for a module
that leaves it out.

* `QwordVector64Cell.checkBlocksState`, `genericLoop`: the two implementations;
* `Context.checkBlocksState`: the interface, with the implementation of the module if it has one;
* `ChecksExactly`: what the documentation of `check_blocks_state` says;
* `bitmapCheck_eq`, `genericCheck_eq`: what each implementation answers on ranges of the device;
* `checkContract_iff`: both do it, with the same result, for ranges that leave the device only.

The loop of the bitmap compares the block number with the number of blocks, and it never fails.
-/

namespace DssSdk.BlockAllocator

open Scan

/-- What a check returns: its status and `scanned_index`, if it is written. -/
structure Check where
  status : Status
  scannedIndex : Option ℕ
deriving DecidableEq

namespace QwordVector64Cell

/-- `get_block_state`. -/
def getBlockState (q : QwordVector64Cell) (blockIndex : ℕ) : Option (Status × ℕ) :=
  if blockIndex > q.bmapLastCellId then some (.error, 0)
  else (q.getCellValue blockIndex).map fun v => (.success, v)

/-- The loop of `check_blocks_state` over the block numbers from `i` on. -/
def checkLoop (q : QwordVector64Cell) (blockState : ℕ) : ℕ → ℕ → ℕ → Option ℕ
  | 0, _, scannedIndex => some scannedIndex
  | steps + 1, i, scannedIndex => do
    let v ← q.getCellValue i
    if v = blockState then q.checkLoop blockState steps (i + 1) ((scannedIndex + 1) % 2 ^ 64)
    else some scannedIndex

/-- `check_blocks_state`. -/
def checkBlocksState (q : QwordVector64Cell) (blockIndex numBlocks blockState : ℕ) : Option Check :=
  let reqLastBlockLb := (blockIndex + numBlocks + (2 ^ 64 - 1)) % 2 ^ 64
  if blockIndex > q.bmapLastCellId ∨ reqLastBlockLb > q.bmapLastCellId then some ⟨.error, none⟩
  else
    -- `for (i = block_index; i < num_blocks; i++)`
    (q.checkLoop blockState (numBlocks - blockIndex) blockIndex
      (if blockIndex = 0 then 0 else blockIndex - 1)).map fun s => ⟨.success, some s⟩

end QwordVector64Cell

namespace Context

open QwordVector64Cell

/-- The loop over `get_block_state`. Its counter is an `int`, whose overflow is undefined. -/
def genericLoop (getBlockState : ℕ → Option (Status × ℕ)) (blockIndex blockState : ℕ) :
    ℕ → ℕ → ℕ → Option Check
  | 0, _, scannedIndex => some ⟨.success, some scannedIndex⟩
  | steps + 1, i, scannedIndex => do
    let (rc, v) ← getBlockState (blockIndex + i)
    if rc = .success ∧ v = blockState then
      if i + 1 < 2 ^ 31 then
        genericLoop getBlockState blockIndex blockState steps (i + 1) ((scannedIndex + 1) % 2 ^ 64)
      else none
    else some ⟨.error, some scannedIndex⟩

/-- `dss_blk_allocator_check_blocks_state`, with `core.check_blocks_state` of the module. -/
def checkBlocksState (c : Context) (core : Option (ℕ → ℕ → ℕ → Option Check))
    (blockIndex numBlocks blockState : ℕ) : Option Check :=
  if c.isBlockRangeValid blockIndex numBlocks = false then
    some ⟨.invalidBlockRange, some ((blockIndex + (2 ^ 64 - 1)) % 2 ^ 64)⟩
  else if c.isBlockStateValid blockState = false then some ⟨.invalidBlockState, none⟩
  else
    match core with
    | some check => check blockIndex numBlocks blockState
    | none =>
      genericLoop c.alloc.getBlockState blockIndex blockState numBlocks 0
        ((blockIndex + (2 ^ 64 - 1)) % 2 ^ 64)

/-- The check of the bitmap. -/
def bitmapCheck (c : Context) : ℕ → ℕ → ℕ → Option Check :=
  c.checkBlocksState (some c.alloc.checkBlocksState)

/-- The check for a module without `check_blocks_state`. -/
def genericCheck (c : Context) : ℕ → ℕ → ℕ → Option Check := c.checkBlocksState none

/-- The block `x` is in the state `v`: it is a block of the device, and its cell says so. -/
def HasState (c : Context) (v x : ℕ) : Prop := c.alloc.OnDevice x 1 ∧ c.alloc.cellOf x = v

/-- The blocks `b, …, b + n - 1` are in the state `v`. -/
def InState (c : Context) (b n v : ℕ) : Prop := ∀ x, b ≤ x → x < b + n → c.HasState v x

/-- `s` is the last block of the maximal prefix of the range that is in the state, and the block
before the range when the prefix is empty. -/
def ScannedTo (c : Context) (b n v s : ℕ) : Prop :=
  ∃ m < n, (s + 1) % 2 ^ 64 = b + m ∧ InState c b m v ∧ ¬ c.HasState v (b + m)

/-- A check succeeds exactly when all blocks are in the state, and else it reports the prefix. -/
def ChecksExactly (c : Context) (b n v : ℕ) (check : Option Check) : Prop :=
  ∃ r, check = some r ∧ (r.status = .success ↔ InState c b n v) ∧
    (r.status ≠ .success → ∃ s, r.scannedIndex = some s ∧ ScannedTo c b n v s)

/-- Both implementations check exactly, and return the same. -/
def CheckContract (c : Context) (b n v : ℕ) : Prop :=
  ChecksExactly c b n v (c.bitmapCheck b n v) ∧ ChecksExactly c b n v (c.genericCheck b n v) ∧
    c.bitmapCheck b n v = c.genericCheck b n v

variable {c : Context} {q : QwordVector64Cell} {b n v : ℕ}

theorem InState.onDevice (h : InState c b n v) (hb : c.alloc.OnDevice b 1) : c.alloc.OnDevice b n := by
  refine ⟨hb.1, ?_⟩
  by_contra hend
  -- the block behind the device is in the range
  have hlast := (h (c.alloc.logicalStartBlockOffset + c.alloc.cells) (by have := hb.2; omega)
    (by omega)).1.2
  omega

/-! ### Refused ranges and states -/

theorem checkBlocksState_range (hc : Managed c) (hn : n < 2 ^ 64) (hoff : ¬ c.alloc.OnDevice b n)
    (core : Option (ℕ → ℕ → ℕ → Option Check)) :
    c.checkBlocksState core b n v =
      some ⟨.invalidBlockRange, some ((b + (2 ^ 64 - 1)) % 2 ^ 64)⟩ := by
  refine if_pos (Bool.eq_false_of_not_eq_true fun h => hoff ?_)
  exact ((isBlockRangeValid_iff hc hn).1 h).2

theorem checkBlocksState_state (hc : Managed c) (hpos : 0 < n) (hn : n < 2 ^ 64)
    (hon : c.alloc.OnDevice b n) (hv : c.opts.numBlockStates < v)
    (core : Option (ℕ → ℕ → ℕ → Option Check)) :
    c.checkBlocksState core b n v = some ⟨.invalidBlockState, none⟩ := by
  have hrange := (isBlockRangeValid_iff hc hn).2 ⟨hpos, hon⟩
  have hstate : c.isBlockStateValid v = false := decide_eq_false (Nat.not_le.2 hv)
  unfold checkBlocksState
  rw [if_neg (by rw [hrange]; decide), if_pos hstate]

theorem checksExactly_range_iff (hc : Managed c) (hpos : 0 < n) (hb : c.alloc.OnDevice b 1)
    (hoff : ¬ c.alloc.OnDevice b n) :
    ChecksExactly c b n v (some ⟨.invalidBlockRange, some ((b + (2 ^ 64 - 1)) % 2 ^ 64)⟩) ↔
      c.alloc.cellOf b ≠ v := by
  have haddr := hc.addressable
  have hcells := hc.agrees.cells
  have hoffset := hc.agrees.offset
  have hend := hb.2
  have hlast : ((b + (2 ^ 64 - 1)) % 2 ^ 64 + 1) % 2 ^ 64 = b := by omega
  have hhas : c.HasState v b ↔ c.alloc.cellOf b = v := and_iff_right hb
  have herr : Status.invalidBlockRange ≠ Status.success := by decide
  constructor
  · rintro ⟨r, hr, -, hscan⟩
    cases hr
    obtain ⟨s, hs, m, -, hm, -, hnot⟩ := hscan herr
    obtain rfl := Option.some.inj hs
    obtain rfl : m = 0 := by omega
    exact fun heq => hnot (hhas.2 heq)
  · intro hne
    refine ⟨_, rfl, ⟨fun h => absurd h herr, fun h => absurd (h.onDevice hb) hoff⟩, fun _ => ?_⟩
    refine ⟨_, rfl, 0, hpos, hlast, fun x hx hlt => absurd hlt (by omega), fun h => hne (hhas.1 h)⟩

/-- A refused state is reported without `scanned_index`. -/
theorem not_checksExactly_state :
    ¬ ChecksExactly c b n v (some ⟨.invalidBlockState, none⟩) := by
  rintro ⟨r, hr, -, hscan⟩
  cases hr
  obtain ⟨s, hs, -⟩ := hscan (by decide)
  cases hs

/-! ### The bitmap -/

theorem checkLoop_spec (hq : Shape q) {steps i s : ℕ} (hi : q.OnDevice i steps)
    (hs : s + steps < 2 ^ 64) :
    q.checkLoop v steps i s = some (s + runLen (fun x => q.cellOf x = v) i steps) := by
  induction steps generalizing i s with
  | zero => rfl
  | succ steps ih =>
    obtain ⟨h1, h2⟩ := hi
    unfold checkLoop
    rw [getCellValue_spec hq ⟨h1, by omega⟩]
    show (if q.cellOf i = v then _ else _) = _
    by_cases hv : q.cellOf i = v
    · rw [if_pos hv, runLen_succ_of_pos (p := fun x => q.cellOf x = v) hv,
        Nat.mod_eq_of_lt (by omega), ih ⟨by omega, by omega⟩ (by omega)]
      congr 1
      omega
    · rw [if_neg hv, runLen_succ_of_neg (p := fun x => q.cellOf x = v) hv]
      rfl

/-- The check of the bitmap succeeds, whatever the states of the blocks. -/
theorem bitmapCheck_eq (hc : Managed c) (hn : 0 < n) (hon : c.alloc.OnDevice b n)
    (hv : v ≤ c.opts.numBlockStates) :
    c.bitmapCheck b n v = some ⟨.success, some ((if b = 0 then 0 else b - 1) +
      runLen (fun x => c.alloc.cellOf x = v) b (n - b))⟩ := by
  have haddr := hc.addressable
  have hcells := hc.agrees.cells
  have hoff := hc.agrees.offset
  obtain ⟨h1, h2⟩ := hon
  have hrange : c.isBlockRangeValid b n = true := (isBlockRangeValid_iff hc (by omega)).2 ⟨hn, h1, h2⟩
  have hstate : c.isBlockStateValid v = true := decide_eq_true hv
  have hsum : (b + n + (2 ^ 64 - 1)) % 2 ^ 64 = b + n - 1 := by omega
  unfold bitmapCheck checkBlocksState
  rw [if_neg (by rw [hrange]; decide), if_neg (by rw [hstate]; decide)]
  show c.alloc.checkBlocksState b n v = _
  unfold QwordVector64Cell.checkBlocksState
  dsimp only
  rw [hsum, if_neg (by unfold bmapLastCellId; omega),
    checkLoop_spec hc.agrees.shape ⟨h1, by omega⟩ (by split <;> omega)]
  rfl

/-! ### The loop for other modules -/

theorem getBlockState_spec (hq : Shape q) (hb : q.OnDevice b 1) :
    q.getBlockState b = some (.success, q.cellOf b) := by
  have h := hb.2
  unfold QwordVector64Cell.getBlockState
  rw [if_neg (by unfold bmapLastCellId; omega), getCellValue_spec hq hb]
  rfl

theorem genericLoop_spec (hq : Shape q) {steps i s : ℕ} (hon : q.OnDevice (b + i) steps)
    (hi : i < 2 ^ 31) (hs : s < 2 ^ 64) :
    genericLoop q.getBlockState b v steps i s =
      if i + runLen (fun x => q.cellOf x = v) (b + i) steps < 2 ^ 31 then
        some ⟨if runLen (fun x => q.cellOf x = v) (b + i) steps = steps then .success else .error,
          some ((s + runLen (fun x => q.cellOf x = v) (b + i) steps) % 2 ^ 64)⟩
      else none := by
  induction steps generalizing i s with
  | zero =>
    rw [runLen_zero, Nat.add_zero, Nat.add_zero, if_pos hi, if_pos rfl, Nat.mod_eq_of_lt hs]
    rfl
  | succ steps ih =>
    obtain ⟨h1, h2⟩ := hon
    unfold genericLoop
    rw [getBlockState_spec hq ⟨h1, by omega⟩]
    show (if Status.success = Status.success ∧ q.cellOf (b + i) = v then _ else _) = _
    by_cases hv : q.cellOf (b + i) = v
    · rw [if_pos ⟨rfl, hv⟩, runLen_succ_of_pos (p := fun x => q.cellOf x = v) hv]
      by_cases hlt : i + 1 < 2 ^ 31
      · have hnext := ih (i := i + 1) (s := (s + 1) % 2 ^ 64) ⟨by omega, by omega⟩ hlt (by omega)
        rw [if_pos hlt, hnext, ← Nat.add_assoc b i 1]
        generalize runLen (fun x => q.cellOf x = v) (b + i + 1) steps = k
        have hmod : ((s + 1) % 2 ^ 64 + k) % 2 ^ 64 = (s + (k + 1)) % 2 ^ 64 := by omega
        have hcomm : i + (k + 1) = i + 1 + k := by omega
        simp only [hmod, hcomm, Nat.add_right_cancel_iff]
      · rw [if_neg hlt, if_neg (by omega)]
    · rw [if_neg (fun h => hv h.2), runLen_succ_of_neg (p := fun x => q.cellOf x = v) hv]
      simp only [Nat.add_zero]
      rw [if_pos hi, if_neg (by omega), Nat.mod_eq_of_lt hs]

/-- The check of a module without its own. -/
theorem genericCheck_eq (hc : Managed c) (hn : 0 < n) (hon : c.alloc.OnDevice b n)
    (hv : v ≤ c.opts.numBlockStates) :
    c.genericCheck b n v =
      if runLen (fun x => c.alloc.cellOf x = v) b n < 2 ^ 31 then
        some ⟨if runLen (fun x => c.alloc.cellOf x = v) b n = n then .success else .error,
          some ((b + (2 ^ 64 - 1) + runLen (fun x => c.alloc.cellOf x = v) b n) % 2 ^ 64)⟩
      else none := by
  have haddr := hc.addressable
  have hcells := hc.agrees.cells
  have hoff := hc.agrees.offset
  obtain ⟨h1, h2⟩ := hon
  have hrange : c.isBlockRangeValid b n = true := (isBlockRangeValid_iff hc (by omega)).2 ⟨hn, h1, h2⟩
  have hstate : c.isBlockStateValid v = true := decide_eq_true hv
  have hloop := genericLoop_spec (v := v) (b := b) (i := 0) (s := (b + (2 ^ 64 - 1)) % 2 ^ 64)
    hc.agrees.shape ⟨h1, h2⟩ (by omega) (by omega)
  unfold genericCheck checkBlocksState
  rw [if_neg (by rw [hrange]; decide), if_neg (by rw [hstate]; decide)]
  show genericLoop c.alloc.getBlockState b v n 0 _ = _
  rw [hloop]
  simp only [Nat.add_zero, Nat.zero_add, Nat.mod_add_mod]

/-! ### The contract -/

theorem bitmapCheck_ne_genericCheck (hc : Managed c) (hn : 0 < n) (hon : c.alloc.OnDevice b n)
    (hv : v ≤ c.opts.numBlockStates) : c.bitmapCheck b n v ≠ c.genericCheck b n v := by
  have haddr := hc.addressable
  have hcells := hc.agrees.cells
  have hoff := hc.agrees.offset
  have hend := hon.2
  have hshort := runLen_le (p := fun x => c.alloc.cellOf x = v) b (n - b)
  rw [bitmapCheck_eq hc hn hon hv, genericCheck_eq hc hn hon hv]
  intro heq
  by_cases hlt : runLen (fun x => c.alloc.cellOf x = v) b n < 2 ^ 31
  · rw [if_pos hlt] at heq
    have hcheck := Option.some.inj heq
    have hstatus := congrArg Check.status hcheck
    have hscan := Option.some.inj (congrArg Check.scannedIndex hcheck)
    by_cases hall : runLen (fun x => c.alloc.cellOf x = v) b n = n
    · -- a check of all blocks counts them twice, or leaves the last ones out
      rw [hall] at hscan
      rcases Nat.eq_zero_or_pos b with rfl | hb
      · rw [if_pos rfl, Nat.sub_zero, hall] at hscan
        omega
      · rw [if_neg hb.ne'] at hscan
        omega
    · rw [if_neg hall] at hstatus
      cases hstatus
  · rw [if_neg hlt] at heq
    cases heq

/-- The contract of the two implementations holds just for a range that leaves the device and does not
begin with a block in the expected state. -/
theorem checkContract_iff (hc : Managed c) (hpos : 0 < n) (hn : n < 2 ^ 64)
    (hb : c.alloc.OnDevice b 1) :
    CheckContract c b n v ↔ ¬ c.alloc.OnDevice b n ∧ c.alloc.cellOf b ≠ v := by
  unfold CheckContract
  by_cases hon : c.alloc.OnDevice b n
  · refine iff_of_false (fun h => ?_) fun h => h.1 hon
    by_cases hv : v ≤ c.opts.numBlockStates
    · exact bitmapCheck_ne_genericCheck hc hpos hon hv h.2.2
    · have hstate := checkBlocksState_state hc hpos hn hon (Nat.not_le.1 hv)
        (some c.alloc.checkBlocksState)
      refine not_checksExactly_state (c := c) (b := b) (n := n) (v := v) ?_
      rw [← hstate]
      exact h.1
  · have hbitmap : c.bitmapCheck b n v = _ := checkBlocksState_range hc hn hon _
    have hgeneric : c.genericCheck b n v = _ := checkBlocksState_range hc hn hon none
    have hexact := checksExactly_range_iff (v := v) hc hpos hb hon
    rw [hbitmap, hgeneric, hexact]
    exact ⟨fun h => ⟨hon, h.1⟩, fun h => ⟨h.2, h.2, rfl⟩⟩

/-- The small device with all blocks free: its first two blocks, and a range that leaves it. -/
theorem checkContract_small :
    ∃ c, dssBlkAllocatorInit smallOpts = some c ∧ ¬ CheckContract c 8 2 0 ∧ CheckContract c 11 2 1 ∧
      c.bitmapCheck 11 2 1 = some ⟨.invalidBlockRange, some 10⟩ := by
  have hinit : dssBlkAllocatorInit smallOpts = some _ := rfl
  have hc := (managed_of_init hinit (by decide) (by decide)).1
  refine ⟨_, rfl, fun h => ?_, ?_, by decide⟩
  · exact ((checkContract_iff hc (by decide) (by decide) (by decide)).1 h).1 (by decide)
  · exact (checkContract_iff hc (by decide) (by decide) (by decide)).2 ⟨by decide, by decide⟩

/-- The first two blocks are free, and the check for the state one succeeds. -/
theorem not_checkContract_otherState :
    ∃ c, dssBlkAllocatorInit smallOpts = some c ∧
      c.bitmapCheck 8 2 1 = some ⟨.success, some 7⟩ ∧
      c.genericCheck 8 2 1 = some ⟨.error, some 7⟩ ∧ ¬ CheckContract c 8 2 1 := by
  refine ⟨_, rfl, by decide, by decide, fun h => ?_⟩
  obtain ⟨-, -, heq⟩ := h
  revert heq
  decide

end Context

end DssSdk.BlockAllocator
