import DssSdk.Kvtrans.Statistics

/-!
# The data-collision table of a boot

The state `DSS_KVT_LOADING_DC_HT` of `dss_kvtrans_process_internal_io`: after the bitmap is loaded, the
data-collision table is built again from the meta blocks whose state is `META_DATA_COLLISION_ENTRY`.
They are read in batches, and a batch is entered in the table when all of its reads are done.

* `getNextDmcBlk`, `bootDcInsertElm`, `loadingDcHt`: the source, `none` when an assertion fails;
* `boot`: the passes of the state machine, each one after the reads of the one before;
* `Batch`: what a pass keeps, with the blocks that are in the table and those that are being read;
* `boot_rebuilds`: the table of a boot, block by block;
* `boot_restores_iff`: a boot gives back a table that the blocks record, except for what the last
  block of the device records.

The last block is never read: the search stops there whether or not it is an entry.
-/

namespace DssSdk.Kvtrans.BootTable

open BlockAllocator (Context)

/-- `DEFAULT_MDC_IO_DEPTH`. -/
def defaultMdcIoDepth : ℕ := 128

/-- The last two states of `dss_kvt_state_t`. -/
inductive DssKvtState
  | loadingDcHt
  | initialized
  deriving DecidableEq, Repr

/-- `dss_kvt_init_ctx_t`: the fields that build the table. The buffers of a batch and its items are
indexed by the position of the read. -/
structure KvtInitCtx where
  state : DssKvtState
  dssMdcLba : ℕ
  mdcIoDepth : ℕ
  lastBatch : Bool
  mdcIoCount : ℕ
  data : ℕ → OndiskMeta
  dcEntries : ℕ → DcItem

/-- The translator, the request that sets it up, and its I/O task: the blocks to read, each with its
buffer, and whether the task is submitted. -/
structure BootSys where
  ctx : Ctx
  init : KvtInitCtx
  reads : List (ℕ × ℕ)
  submitted : Bool

/-- The meta block that a read gets from the device. -/
def stored (c : Ctx) (lba : ℕ) : OndiskMeta := (c.metas lba).getD OndiskMeta.zero

section

variable (P : Params)

/-- The last block of the translator. -/
def lastBlk : ℕ := P.blkOffset + P.blkNum - 1

/-- A call of `boot_dc_get_next_dmc_blk`. -/
def getNextDmcBlk (s : BootSys) : Option BootSys :=
  (bootDcGetNextDmcBlk s.ctx.alloc (lastBlk P - s.init.dssMdcLba) s.init.dssMdcLba s.ctx.stat).map
    fun r =>
      { s with
        ctx := { s.ctx with stat := r.2 }
        init := { s.init with dssMdcLba := r.1 } }

/-- The state that the item of a block keeps, from the state of the block. -/
def oriStateOf : BlkState → Option BlkState
  | .dataCollision => some .data
  | .dataCollisionEmpty => some .empty
  | .dataCollisionCe => some .collisionExtension
  | _ => none

/-- `boot_dc_insert_elm` of the buffer and the item at position `i`. -/
def bootDcInsertElm (s : BootSys) (i : ℕ) : Option BootSys :=
  let dcIdx := (s.init.data i).dataCollisionIndex
  match s.ctx.alloc.getBlockState dcIdx with
  | some (.success, v) =>
      ((BlkState.ofCell v).bind oriStateOf).map fun oriState =>
        let it := { s.init.dcEntries i with oriState := oriState }
        { s with
          ctx := { s.ctx with dcTbl := Function.update s.ctx.dcTbl dcIdx (some it) }
          init := { s.init with dcEntries := Function.update s.init.dcEntries i it } }
  | _ => none

/-- The first pass sets the variables up; the buffers and the items are fresh memory. -/
def startTable (s : BootSys) : BootSys :=
  { s with
    init := { s.init with
      mdcIoDepth := defaultMdcIoDepth
      lastBatch := false
      mdcIoCount := 0
      data := fun _ => OndiskMeta.zero
      dcEntries := fun _ => ⟨0, .empty⟩
      dssMdcLba := P.blkOffset - 1 }
    reads := [] }

/-- A later pass enters the batch that was read, and clears the buffers and the items. -/
def insertBatch (s : BootSys) : Option BootSys :=
  ((List.range s.init.mdcIoCount).foldlM bootDcInsertElm s).map fun s =>
    { s with
      init := { s.init with
        data := fun _ => OndiskMeta.zero
        dcEntries := fun _ => ⟨0, .empty⟩ }
      reads := [] }

/-- The loop that adds the reads of a batch, with `n` buffers left and `idx` in use. It returns
`mdc_io_idx` at its end. -/
def addReads : ℕ → ℕ → BootSys → Option (BootSys × ℕ)
  | 0, idx, s => some (s, idx)
  | n + 1, idx, s =>
      match getNextDmcBlk P s with
      | none => none
      | some s =>
          if s.init.dssMdcLba = lastBlk P then
            some ({ s with init := { s.init with lastBatch := true, mdcIoCount := idx } }, idx)
          else
            addReads n (idx + 1)
              { s with
                init := { s.init with
                  dcEntries := Function.update s.init.dcEntries idx
                    { s.init.dcEntries idx with mdcIndex := s.init.dssMdcLba } }
                reads := s.reads ++ [(s.init.dssMdcLba, idx)] }

/-- The end of a pass: the task is submitted if it has reads, and the table is complete if the last
block was reached with none. -/
def endPass (s : BootSys) (mdcIoIdx : ℕ) : BootSys :=
  let s :=
    if mdcIoIdx > 0 then
      { s with init := { s.init with mdcIoCount := mdcIoIdx }, submitted := true }
    else s
  if mdcIoIdx < s.init.lastBatch.toNat ∧ s.init.mdcIoCount = 0 then
    { s with init := { s.init with state := .initialized } }
  else s

/-- `DSS_KVT_LOADING_DC_HT`. -/
def loadingDcHt (s : BootSys) : Option BootSys :=
  match (if s.init.dssMdcLba = 0 then some (startTable P s) else insertBatch s) with
  | none => none
  | some s => (addReads P s.init.mdcIoDepth 0 s).map fun r => endPass r.1 r.2

/-- The reads of the task are done. -/
def ioDone (s : BootSys) : BootSys :=
  { s with
    init := { s.init with
      data := s.reads.foldl (fun d r => Function.update d r.2 (stored s.ctx r.1)) s.init.data }
    submitted := false }

/-- The request when the bitmap is loaded, with `dss_mdc_lba` still zero. -/
def afterBitmap (c : Ctx) : BootSys where
  ctx := { c with dcTbl := fun _ => none }
  init := ⟨.loadingDcHt, 0, 0, false, 0, fun _ => OndiskMeta.zero, fun _ => ⟨0, .empty⟩⟩
  reads := []
  submitted := false

/-- The passes from a state with a submitted task on, at most `n` of them. -/
def passes : ℕ → BootSys → Option BootSys
  | 0, s => some s
  | n + 1, s => if s.submitted = true then (loadingDcHt P (ioDone s)).bind (passes n) else some s

/-- The first pass and at most `n` more. -/
def boot (n : ℕ) (c : Ctx) : Option BootSys := (loadingDcHt P (afterBitmap c)).bind (passes P n)

end

/-! ### What the blocks record -/

section

variable (P : Params) (c : Ctx)

/-- The state of a block in the allocator. -/
def blkStateAt (x : ℕ) : Option BlkState :=
  match c.alloc.getBlockState x with
  | some (.success, v) => BlkState.ofCell v
  | _ => none

/-- The data collision that a meta block records. -/
def dcIndexOf (b : ℕ) : ℕ := (stored c b).dataCollisionIndex

/-- The blocks from `a` up to `b` that record a data collision, in ascending order. -/
def mdcBlks (a b : ℕ) : List ℕ :=
  (List.range' a (b - a)).filter fun x => blkStateAt c x = some .metaDataCollisionEntry

/-- The block is a data collision, as far as a boot can tell. -/
def IsDc (k : ℕ) : Prop := ((blkStateAt c k).bind oriStateOf).isSome

/-- The table that a list of blocks records. The last one that records a data collision counts. -/
def tblOf (bs : List ℕ) (k : ℕ) : Option DcItem :=
  (bs.reverse.find? fun b => dcIndexOf c b = k).bind fun b =>
    ((blkStateAt c k).bind oriStateOf).map fun oriState => ⟨b, oriState⟩

/-- The counters when the blocks of the translator up to `lba` were looked at. -/
def statUpTo (lba : ℕ) : Dstat :=
  (List.range' P.blkOffset (lba + 1 - P.blkOffset)).foldl
    (fun st x => bootCount st (c.alloc.alloc.cellOf x)) c.stat

end

/-! ### The search for the next block -/

section

variable {P : Params} {c : Ctx} {r : Kreq} {s : BootSys}

theorem mdcBlks_append {a b d : ℕ} (hab : a ≤ b) (hbd : b ≤ d) :
    mdcBlks c a b ++ mdcBlks c b d = mdcBlks c a d := by
  unfold mdcBlks
  have hmid : a + (b - a) = b := by omega
  have hlen : b - a + (d - b) = d - a := by omega
  rw [← List.filter_append]
  congr 1
  have happend := @List.range'_append a (b - a) (d - b) 1
  rw [one_mul, hmid, hlen] at happend
  exact happend

theorem mem_mdcBlks {a b x : ℕ} :
    x ∈ mdcBlks c a b ↔ (a ≤ x ∧ x < b) ∧ blkStateAt c x = some .metaDataCollisionEntry := by
  unfold mdcBlks
  rw [List.mem_filter, List.mem_range'_1, decide_eq_true_iff]
  have hrange : a ≤ x ∧ x < a + (b - a) ↔ a ≤ x ∧ x < b := by omega
  rw [hrange]

theorem mdcBlks_succ {a b : ℕ} (h : a ≤ b)
    (hb : blkStateAt c b = some .metaDataCollisionEntry) :
    mdcBlks c a (b + 1) = mdcBlks c a b ++ [b] := by
  rw [← mdcBlks_append h (show b ≤ b + 1 by omega)]
  unfold mdcBlks
  rw [Nat.add_sub_cancel_left, List.range'_one, List.filter_singleton, decide_eq_true hb]
  rfl

theorem ofCell_eq_entry {v : ℕ} :
    BlkState.ofCell v = some .metaDataCollisionEntry ↔ v = BlkState.metaDataCollisionEntry.toCell := by
  constructor
  · intro h
    unfold BlkState.ofCell at h
    split at h <;> first | rfl | cases h
  · rintro rfl
    rfl

theorem Serves.blkStateAt (hs : Serves P ⟨c, r⟩) {x : ℕ} (hx : P.InRange x 1) :
    blkStateAt c x = BlkState.ofCell (Sys.cell ⟨c, r⟩ x) := by
  unfold BootTable.blkStateAt
  rw [hs.getBlockState hx]

theorem bootDcGetNextDmcBlk_stops (hs : Serves P ⟨c, r⟩) {n lba lba' : ℕ} {st st' : Dstat}
    (hin : P.InRange (lba + 1) n) (h : bootDcGetNextDmcBlk c.alloc n lba st = some (lba', st')) :
    (∀ x, lba < x → x < lba' → blkStateAt c x ≠ some .metaDataCollisionEntry) ∧
      (lba' ≠ lba + n → blkStateAt c lba' = some .metaDataCollisionEntry) := by
  induction n generalizing lba st with
  | zero =>
    cases h
    exact ⟨fun x h1 h2 => by omega, fun hne => absurd rfl hne⟩
  | succ n ih =>
    have hone : P.InRange (lba + 1) 1 := ⟨hin.1, by have := hin.2; omega⟩
    have hrest : P.InRange (lba + 1 + 1) n := ⟨by have := hin.1; omega, by have := hin.2; omega⟩
    have hstate := Serves.blkStateAt hs hone
    unfold bootDcGetNextDmcBlk at h
    rw [hs.getBlockState hone] at h
    dsimp only at h
    split_ifs at h with hstop
    · cases h
      exact ⟨fun x h1 h2 => by omega, fun _ => hstate.trans (ofCell_eq_entry.2 hstop)⟩
    · obtain ⟨hpass, hat⟩ := ih hrest h
      refine ⟨fun x h1 h2 => ?_, fun hne => hat (by omega)⟩
      rcases eq_or_ne x (lba + 1) with rfl | hx
      · rw [hstate]
        exact fun heq => hstop (ofCell_eq_entry.1 heq)
      · exact hpass x (by omega) h2

/-- The search stops at the next block that records a data collision, or at the last block. It counts
the blocks that it looks at. -/
theorem getNextDmcBlk_spec (hs : Serves P ⟨c, r⟩) (halloc : s.ctx.alloc = c.alloc)
    (hlow : P.blkOffset ≤ s.init.dssMdcLba + 1) (hmore : s.init.dssMdcLba < lastBlk P)
    (hstat : s.ctx.stat = statUpTo P c s.init.dssMdcLba) :
    ∃ lba, getNextDmcBlk P s = some
        { s with
          ctx := { s.ctx with stat := statUpTo P c lba }
          init := { s.init with dssMdcLba := lba } } ∧
      s.init.dssMdcLba < lba ∧ lba ≤ lastBlk P ∧
      mdcBlks c (s.init.dssMdcLba + 1) lba = [] ∧
      (lba ≠ lastBlk P → blkStateAt c lba = some .metaDataCollisionEntry) := by
  have hin : P.InRange (s.init.dssMdcLba + 1) (lastBlk P - s.init.dssMdcLba) := by
    unfold Params.InRange
    unfold lastBlk at hmore ⊢
    omega
  obtain ⟨m, hm, hzero, heq⟩ := bootDcGetNextDmcBlk_spec hs (statUpTo P c s.init.dssMdcLba) hin
  obtain ⟨hpass, hat⟩ := bootDcGetNextDmcBlk_stops hs hin heq
  have hpos : m ≠ 0 := fun h => absurd (hzero h) (by omega)
  refine ⟨s.init.dssMdcLba + m, ?_, by omega, by omega, ?_, fun hne => hat (by omega)⟩
  · have hcount : tally c.alloc s.init.dssMdcLba m (statUpTo P c s.init.dssMdcLba) =
        statUpTo P c (s.init.dssMdcLba + m) := by
      have happend := @List.range'_append P.blkOffset (s.init.dssMdcLba + 1 - P.blkOffset) m 1
      have hend : P.blkOffset + 1 * (s.init.dssMdcLba + 1 - P.blkOffset) = s.init.dssMdcLba + 1 := by
        omega
      have hlen : s.init.dssMdcLba + 1 - P.blkOffset + m = s.init.dssMdcLba + m + 1 - P.blkOffset := by
        omega
      rw [hend, hlen] at happend
      unfold tally statUpTo
      rw [← List.foldl_append, happend]
    unfold getNextDmcBlk
    rw [halloc, hstat, heq]
    dsimp only
    rw [hcount]
    rfl
  · refine List.eq_nil_iff_forall_not_mem.2 fun x hx => ?_
    obtain ⟨⟨hlo, hhi⟩, hx⟩ := mem_mdcBlks.1 hx
    exact hpass x (by omega) hhi hx

/-! ### A batch of reads -/

/-- In the middle of a pass: the table holds the blocks of `bs`, and the task reads those of `ps`,
which are the next ones. -/
structure Batch (P : Params) (c : Ctx) (bs ps : List ℕ) (s : BootSys) : Prop where
  loading : s.init.state = .loadingDcHt
  depth : s.init.mdcIoDepth = defaultMdcIoDepth
  ctx : s.ctx = { c with dcTbl := tblOf c bs, stat := statUpTo P c s.init.dssMdcLba }
  reads : s.reads = ps.zipIdx
  index : ∀ i b, ps[i]? = some b → (s.init.dcEntries i).mdcIndex = b
  low : P.blkOffset ≤ s.init.dssMdcLba + 1
  high : s.init.dssMdcLba ≤ lastBlk P
  blks : bs ++ ps = mdcBlks c P.blkOffset (min (s.init.dssMdcLba + 1) (lastBlk P))

/-- The search adds no block to those that are read or in the table. -/
theorem Batch.search {bs ps : List ℕ} (h : Batch P c bs ps s) (hs : Serves P ⟨c, r⟩)
    (hmore : s.init.dssMdcLba < lastBlk P) :
    ∃ lba, getNextDmcBlk P s = some
        { s with
          ctx := { s.ctx with stat := statUpTo P c lba }
          init := { s.init with dssMdcLba := lba } } ∧
      s.init.dssMdcLba < lba ∧ lba ≤ lastBlk P ∧
      bs ++ ps = mdcBlks c P.blkOffset lba ∧
      (lba ≠ lastBlk P → blkStateAt c lba = some .metaDataCollisionEntry) := by
  obtain ⟨lba, heq, hlt, hlast, hnone, hat⟩ := getNextDmcBlk_spec hs (by rw [h.ctx]) h.low hmore
    (by rw [h.ctx])
  have hlow := h.low
  refine ⟨lba, heq, hlt, hlast, ?_, hat⟩
  rw [h.blks, Nat.min_eq_left (by omega), ← mdcBlks_append hlow hlt, hnone, List.append_nil]

theorem Batch.addReads {bs ps : List ℕ} (h : Batch P c bs ps s) (hs : Serves P ⟨c, r⟩) (n : ℕ) :
    ∃ s' ps', addReads P n ps.length s = some (s', ps'.length) ∧ Batch P c bs ps' s' ∧
      s'.submitted = s.submitted ∧ s.init.dssMdcLba ≤ s'.init.dssMdcLba ∧
      ((s'.init.dssMdcLba = lastBlk P ∧ s'.init.lastBatch = true ∧
        s'.init.mdcIoCount = ps'.length) ∨ ps'.length = ps.length + n) := by
  induction n generalizing s ps with
  | zero =>
    exact ⟨s, ps, rfl, h, rfl, le_rfl, Or.inr rfl⟩
  | succ n ih =>
    rcases Nat.lt_or_ge s.init.dssMdcLba (lastBlk P) with hmore | hend
    · obtain ⟨lba, heq, hlt, hle, hblks, hat⟩ := h.search hs hmore
      unfold BootTable.addReads
      rw [heq]
      dsimp only
      have hlow := h.low
      by_cases hlast : lba = lastBlk P
      · rw [if_pos hlast]
        refine ⟨_, ps, rfl, ⟨h.loading, h.depth, ?_, h.reads, h.index, ?_, ?_, ?_⟩, rfl, ?_,
          Or.inl ⟨hlast, rfl, rfl⟩⟩
        · dsimp only
          rw [h.ctx]
        · dsimp only
          omega
        · exact hle
        · dsimp only
          rw [Nat.min_eq_right (by omega), hblks, hlast]
        · exact hlt.le
      · rw [if_neg hlast]
        have hnext : Batch P c bs (ps ++ [lba]) { s with
            ctx := { s.ctx with stat := statUpTo P c lba }
            init := { s.init with
              dssMdcLba := lba
              dcEntries := Function.update s.init.dcEntries ps.length
                { s.init.dcEntries ps.length with mdcIndex := lba } }
            reads := s.reads ++ [(lba, ps.length)] } := by
          refine ⟨h.loading, h.depth, ?_, ?_, fun i b hb => ?_, ?_, hle, ?_⟩
          · dsimp only
            rw [h.ctx]
          · dsimp only
            rw [h.reads, List.zipIdx_append]
            simp
          · rcases Nat.lt_trichotomy i ps.length with hi | rfl | hi
            · rw [List.getElem?_append_left hi] at hb
              dsimp only
              rw [Function.update_of_ne hi.ne]
              exact h.index i b hb
            · rw [List.getElem?_concat_length] at hb
              cases hb
              dsimp only
              rw [Function.update_self]
            · rw [List.getElem?_eq_none (by simp; omega)] at hb
              cases hb
          · dsimp only
            omega
          · dsimp only
            rw [Nat.min_eq_left (by omega), mdcBlks_succ (by omega) (hat hlast), ← hblks,
              List.append_assoc]
        obtain ⟨s', ps', heq', hbatch, hsub, hmono, hcase⟩ := ih hnext
        rw [List.length_append, List.length_singleton] at heq' hcase
        dsimp only at hmono
        refine ⟨s', ps', heq', hbatch, hsub, by omega, ?_⟩
        rcases hcase with hcase | hcase
        · exact Or.inl hcase
        · exact Or.inr (by omega)
    · have hlast : s.init.dssMdcLba = lastBlk P := le_antisymm h.high hend
      have hzero : lastBlk P - s.init.dssMdcLba = 0 := by omega
      have hstay : getNextDmcBlk P s = some s := by
        unfold getNextDmcBlk
        rw [hzero]
        rfl
      unfold BootTable.addReads
      rw [hstay]
      dsimp only
      rw [if_pos hlast]
      exact ⟨_, ps, rfl, ⟨h.loading, h.depth, h.ctx, h.reads, h.index, h.low, h.high, h.blks⟩, rfl,
        le_rfl, Or.inl ⟨hlast, rfl, rfl⟩⟩

/-! ### The batch is entered in the table -/

theorem foldl_reads (f : ℕ → OndiskMeta) (ps : List ℕ) (k : ℕ) (d : ℕ → OndiskMeta) :
    (∀ i < k, (ps.zipIdx k).foldl (fun d r => Function.update d r.2 (f r.1)) d i = d i) ∧
      ∀ i b, ps[i]? = some b →
        (ps.zipIdx k).foldl (fun d r => Function.update d r.2 (f r.1)) d (k + i) = f b := by
  induction ps generalizing k d with
  | nil => exact ⟨fun _ _ => rfl, fun i b hb => by cases hb⟩
  | cons p ps ih =>
    obtain ⟨hbelow, hread⟩ := ih (k + 1) (Function.update d k (f p))
    rw [List.zipIdx_cons, List.foldl_cons]
    dsimp only
    refine ⟨fun i hi => ?_, fun i b hb => ?_⟩
    · rw [hbelow i (by omega), Function.update_of_ne hi.ne]
    · cases i with
      | zero =>
        cases hb
        have hk := hbelow k (Nat.lt_succ_self k)
        rw [Function.update_self] at hk
        exact hk
      | succ i =>
        rw [List.getElem?_cons_succ] at hb
        have hi : k + (i + 1) = k + 1 + i := by omega
        rw [hi]
        exact hread i b hb

theorem tblOf_concat {bs : List ℕ} {b : ℕ} {o : BlkState}
    (ho : (blkStateAt c (dcIndexOf c b)).bind oriStateOf = some o) :
    tblOf c (bs ++ [b]) = Function.update (tblOf c bs) (dcIndexOf c b) (some ⟨b, o⟩) := by
  funext k
  unfold tblOf
  rw [List.reverse_append, List.reverse_singleton, List.singleton_append]
  by_cases hk : dcIndexOf c b = k
  · subst hk
    rw [List.find?_cons_of_pos (by simp), Function.update_self, Option.bind_some, ho]
    rfl
  · rw [List.find?_cons_of_neg (by simpa using hk), Function.update_of_ne (Ne.symm hk)]

theorem bootDcInsertElm_spec {i b : ℕ} (halloc : s.ctx.alloc = c.alloc)
    (hdata : s.init.data i = stored c b) (hindex : (s.init.dcEntries i).mdcIndex = b) :
    bootDcInsertElm s i = ((blkStateAt c (dcIndexOf c b)).bind oriStateOf).map fun o =>
      { s with
        ctx := { s.ctx with
          dcTbl := Function.update s.ctx.dcTbl (dcIndexOf c b) (some ⟨b, o⟩) }
        init := { s.init with dcEntries := Function.update s.init.dcEntries i ⟨b, o⟩ } } := by
  unfold bootDcInsertElm blkStateAt dcIndexOf
  rw [hdata, halloc]
  dsimp only
  split
  · rw [hindex]
  · rfl

theorem insertLoop_spec {bs ps : List ℕ} (halloc : s.ctx.alloc = c.alloc)
    (htbl : s.ctx.dcTbl = tblOf c bs)
    (hdata : ∀ i b, ps[i]? = some b → s.init.data i = stored c b)
    (hindex : ∀ i b, ps[i]? = some b → (s.init.dcEntries i).mdcIndex = b) {m : ℕ}
    (hm : m ≤ ps.length) :
    ((∀ b ∈ ps.take m, IsDc c (dcIndexOf c b)) → ∃ items : ℕ → DcItem,
      (∀ i, (items i).mdcIndex = (s.init.dcEntries i).mdcIndex) ∧
      (List.range m).foldlM bootDcInsertElm s = some
        { s with
          ctx := { s.ctx with dcTbl := tblOf c (bs ++ ps.take m) }
          init := { s.init with dcEntries := items } }) ∧
      ((¬ ∀ b ∈ ps.take m, IsDc c (dcIndexOf c b)) →
        (List.range m).foldlM bootDcInsertElm s = none) := by
  induction m with
  | zero =>
    refine ⟨fun _ => ⟨s.init.dcEntries, fun _ => rfl, ?_⟩, fun h => ?_⟩
    · rw [List.take_zero, List.append_nil, ← htbl]
      rfl
    · exact absurd (fun b hb => by cases hb) h
  | succ m ih =>
    obtain ⟨hall, hsome⟩ := ih (by omega)
    have hlt : m < ps.length := hm
    have hget : ps[m]? = some ps[m] := List.getElem?_eq_getElem hlt
    have htake : ps.take (m + 1) = ps.take m ++ [ps[m]] := by
      rw [List.take_add_one, hget]
      rfl
    have hmem : ∀ {q : ℕ → Prop}, (∀ b ∈ ps.take (m + 1), q b) ↔
        (∀ b ∈ ps.take m, q b) ∧ q ps[m] := by
      intro q
      rw [htake, List.forall_mem_append, List.forall_mem_singleton]
    have hfold : (List.range (m + 1)).foldlM bootDcInsertElm s =
        ((List.range m).foldlM bootDcInsertElm s).bind fun s => bootDcInsertElm s m := by
      rw [List.range_succ, List.foldlM_append]
      congr 1
      funext s'
      rw [List.foldlM_cons]
      exact Option.bind_fun_some _
    rw [hmem, hfold]
    by_cases hbefore : ∀ b ∈ ps.take m, IsDc c (dcIndexOf c b)
    · obtain ⟨items, hitems, heq⟩ := hall hbefore
      have hone := bootDcInsertElm_spec (c := c) (b := ps[m]) (i := m)
        (s := { s with
          ctx := { s.ctx with dcTbl := tblOf c (bs ++ ps.take m) }
          init := { s.init with dcEntries := items } })
        halloc (hdata m _ hget) ((hitems m).trans (hindex m _ hget))
      rw [heq, Option.bind_some, hone]
      refine ⟨fun h => ?_, fun h => ?_⟩
      · obtain ⟨o, ho⟩ := Option.isSome_iff_exists.1 h.2
        rw [ho]
        refine ⟨Function.update items m ⟨ps[m], o⟩, fun i => ?_, ?_⟩
        · rcases eq_or_ne i m with rfl | hne
          · rw [Function.update_self, hindex i _ hget]
          · rw [Function.update_of_ne hne, hitems]
        · rw [htake, ← List.append_assoc, tblOf_concat ho]
          rfl
      · have hno : ¬ IsDc c (dcIndexOf c ps[m]) := fun hdc => h ⟨hbefore, hdc⟩
        rw [Option.not_isSome_iff_eq_none.1 hno]
        rfl
    · rw [hsome hbefore]
      exact ⟨fun h => absurd h.1 hbefore, fun _ => rfl⟩

theorem Batch.insertBatch {bs ps : List ℕ} (h : Batch P c bs ps s)
    (hcount : s.init.mdcIoCount = ps.length) :
    ((∀ b ∈ ps, IsDc c (dcIndexOf c b)) → ∃ s', insertBatch (ioDone s) = some s' ∧
      Batch P c (bs ++ ps) [] s' ∧ s'.submitted = false ∧
      s'.init.dssMdcLba = s.init.dssMdcLba) ∧
    ((¬ ∀ b ∈ ps, IsDc c (dcIndexOf c b)) → insertBatch (ioDone s) = none) := by
  have hdata : ∀ i b, ps[i]? = some b → (ioDone s).init.data i = stored c b := by
    intro i b hb
    have hread := (foldl_reads (stored s.ctx) ps 0 s.init.data).2 i b hb
    rw [Nat.zero_add] at hread
    unfold ioDone
    dsimp only
    rw [h.reads, hread, h.ctx]
    rfl
  have hctx : (ioDone s).ctx = s.ctx := rfl
  have hn : (ioDone s).init.mdcIoCount = ps.length := hcount
  obtain ⟨hall, hnone⟩ := insertLoop_spec (c := c) (s := ioDone s)
    (by rw [hctx, h.ctx]) (show (ioDone s).ctx.dcTbl = tblOf c bs by rw [hctx, h.ctx]) hdata h.index le_rfl
  rw [List.take_length] at hall hnone
  unfold BootTable.insertBatch
  rw [hn]
  refine ⟨fun hps => ?_, fun hps => ?_⟩
  · obtain ⟨items, -, heq⟩ := hall hps
    rw [heq]
    refine ⟨_, rfl, ⟨h.loading, h.depth, ?_, rfl, fun i b hb => ?_, h.low, h.high, ?_⟩, rfl, rfl⟩
    · dsimp only
      rw [hctx, h.ctx]
      rfl
    · cases hb
    · rw [List.append_nil]
      exact h.blks
  · rw [hnone hps]
    rfl

/-! ### A pass -/

/-- Between two passes: the task that reads the blocks of `ps` is submitted. -/
structure Waiting (P : Params) (c : Ctx) (bs ps : List ℕ) (s : BootSys) : Prop where
  batch : Batch P c bs ps s
  submitted : s.submitted = true
  count : s.init.mdcIoCount = ps.length
  nonempty : ps ≠ []

/-- The table is complete. -/
structure Complete (P : Params) (c : Ctx) (s : BootSys) : Prop where
  initialized : s.init.state = .initialized
  submitted : s.submitted = false
  ctx : s.ctx = { c with
    dcTbl := tblOf c (mdcBlks c P.blkOffset (lastBlk P))
    stat := statUpTo P c (lastBlk P) }

theorem Batch.endPass {bs : List ℕ} (h : Batch P c bs [] s) (hs : Serves P ⟨c, r⟩)
    (hsub : s.submitted = false) :
    ∃ s', (BootTable.addReads P s.init.mdcIoDepth 0 s).map (fun r => endPass r.1 r.2) = some s' ∧
      ((Complete P c s' ∧ bs = mdcBlks c P.blkOffset (lastBlk P)) ∨
        ∃ ps, Waiting P c bs ps s' ∧ s.init.dssMdcLba < s'.init.dssMdcLba) := by
  obtain ⟨s', ps, heq, hbatch, hsub', hmono, hcase⟩ := h.addReads hs s.init.mdcIoDepth
  have hdepth : 0 < s.init.mdcIoDepth := by
    rw [h.depth]
    decide
  rw [List.length_nil] at heq hcase
  rw [heq]
  refine ⟨BootTable.endPass s' ps.length, rfl, ?_⟩
  rcases eq_or_ne ps [] with rfl | hne
  · rcases hcase with ⟨hlast, hflag, hzero⟩ | hfull
    · left
      have hnot : ¬ List.length ([] : List ℕ) > 0 := by decide
      unfold BootTable.endPass
      dsimp only
      rw [if_neg hnot, hflag, hzero, if_pos (by decide)]
      have hblks := hbatch.blks
      rw [hlast, List.append_nil, Nat.min_eq_right (by omega)] at hblks
      refine ⟨⟨rfl, hsub'.trans hsub, ?_⟩, hblks⟩
      dsimp only
      rw [hbatch.ctx, hblks, hlast]
    · rw [List.length_nil] at hfull
      omega
  · right
    have hpos : ps.length > 0 := List.length_pos_iff.2 hne
    have hflag : ¬ (ps.length < s'.init.lastBatch.toNat ∧ ps.length = 0) := by omega
    unfold BootTable.endPass
    dsimp only
    rw [if_pos hpos]
    dsimp only
    rw [if_neg hflag]
    refine ⟨ps, ⟨⟨hbatch.loading, hbatch.depth, hbatch.ctx, hbatch.reads, hbatch.index,
      hbatch.low, hbatch.high, hbatch.blks⟩, rfl, rfl, hne⟩, lt_of_le_of_ne hmono fun heq => hne ?_⟩
    -- a search that does not move finds no block
    have hblks := hbatch.blks
    rw [← heq, ← h.blks] at hblks
    exact List.append_cancel_left hblks

/-- A pass that finds the reads of the one before done. -/
theorem Waiting.pass {bs ps : List ℕ} (h : Waiting P c bs ps s) (hs : Serves P ⟨c, r⟩)
    (hoff : 0 < P.blkOffset) :
    ((∀ b ∈ ps, IsDc c (dcIndexOf c b)) → ∃ s', loadingDcHt P (ioDone s) = some s' ∧
      ((Complete P c s' ∧ bs ++ ps = mdcBlks c P.blkOffset (lastBlk P)) ∨
        ∃ ps', Waiting P c (bs ++ ps) ps' s' ∧ s.init.dssMdcLba < s'.init.dssMdcLba)) ∧
    ((¬ ∀ b ∈ ps, IsDc c (dcIndexOf c b)) → loadingDcHt P (ioDone s) = none) := by
  have hlba : (ioDone s).init.dssMdcLba ≠ 0 := by
    obtain ⟨b, hb⟩ := List.exists_mem_of_ne_nil ps h.nonempty
    have hmem : b ∈ mdcBlks c P.blkOffset (min (s.init.dssMdcLba + 1) (lastBlk P)) :=
      h.batch.blks ▸ List.mem_append_right bs hb
    obtain ⟨⟨hlo, hhi⟩, -⟩ := mem_mdcBlks.1 hmem
    change s.init.dssMdcLba ≠ 0
    omega
  obtain ⟨hall, hnone⟩ := h.batch.insertBatch h.count
  unfold loadingDcHt
  rw [if_neg hlba]
  refine ⟨fun hps => ?_, fun hps => ?_⟩
  · obtain ⟨s₁, heq₁, hbatch, hsub, hlba₁⟩ := hall hps
    rw [heq₁]
    dsimp only
    rw [← hlba₁]
    exact hbatch.endPass hs hsub
  · rw [hnone hps]

/-- The passes that are left. -/
theorem Waiting.passes {bs ps : List ℕ} (h : Waiting P c bs ps s) (hs : Serves P ⟨c, r⟩)
    (hoff : 0 < P.blkOffset) (hbs : ∀ b ∈ bs, IsDc c (dcIndexOf c b)) :
    ((∀ b ∈ mdcBlks c P.blkOffset (lastBlk P), IsDc c (dcIndexOf c b)) →
      ∃ n s', passes P n s = some s' ∧ Complete P c s') ∧
    ((¬ ∀ b ∈ mdcBlks c P.blkOffset (lastBlk P), IsDc c (dcIndexOf c b)) →
      ∃ n, passes P n s = none) := by
  induction hn : lastBlk P - s.init.dssMdcLba using Nat.strong_induction_on generalizing bs ps s with
  | _ n ih =>
    obtain ⟨hall, hnone⟩ := h.pass hs hoff
    have hstep : ∀ n, passes P (n + 1) s = (loadingDcHt P (ioDone s)).bind (passes P n) :=
      fun n => if_pos h.submitted
    have hsub : ∀ b ∈ ps, b ∈ mdcBlks c P.blkOffset (lastBlk P) := by
      intro b hb
      have hmem : b ∈ mdcBlks c P.blkOffset (min (s.init.dssMdcLba + 1) (lastBlk P)) :=
        h.batch.blks ▸ List.mem_append_right bs hb
      obtain ⟨⟨hlo, hhi⟩, hat⟩ := mem_mdcBlks.1 hmem
      exact mem_mdcBlks.2 ⟨⟨hlo, by omega⟩, hat⟩
    by_cases hps : ∀ b ∈ ps, IsDc c (dcIndexOf c b)
    · obtain ⟨s', heq, ⟨hdone, hblks⟩ | ⟨ps', hwait, hlt⟩⟩ := hall hps
      · refine ⟨fun _ => ⟨1, s', ?_, hdone⟩, fun hno => ?_⟩
        · rw [hstep, heq]
          rfl
        · rw [← hblks] at hno
          exact absurd (List.forall_mem_append.2 ⟨hbs, hps⟩) hno
      · have hhigh := hwait.batch.high
        obtain ⟨hgood, hbad⟩ := ih _ (by omega) hwait (List.forall_mem_append.2 ⟨hbs, hps⟩) rfl
        refine ⟨fun hyes => ?_, fun hno => ?_⟩
        · obtain ⟨n', s'', hrun, hdone⟩ := hgood hyes
          refine ⟨n' + 1, s'', ?_, hdone⟩
          rw [hstep, heq, Option.bind_some, hrun]
        · obtain ⟨n', hrun⟩ := hbad hno
          refine ⟨n' + 1, ?_⟩
          rw [hstep, heq, Option.bind_some, hrun]
    · refine ⟨fun hyes => absurd (fun b hb => hyes b (hsub b hb)) hps, fun _ => ⟨1, ?_⟩⟩
      rw [hstep, hnone hps]
      rfl

theorem batch_start (hoff : 0 < P.blkOffset) :
    Batch P c [] [] (startTable P (afterBitmap c)) where
  loading := rfl
  depth := rfl
  ctx := by
    have hstat : statUpTo P c (P.blkOffset - 1) = c.stat := by
      unfold statUpTo
      rw [Nat.sub_add_cancel hoff, Nat.sub_self]
      rfl
    change _ = { c with dcTbl := tblOf c [], stat := statUpTo P c (P.blkOffset - 1) }
    rw [hstat]
    rfl
  reads := rfl
  index := fun i b hb => by cases hb
  low := by
    change P.blkOffset ≤ P.blkOffset - 1 + 1
    omega
  high := by
    change P.blkOffset - 1 ≤ lastBlk P
    unfold lastBlk
    omega
  blks := by
    change [] = mdcBlks c P.blkOffset (min (P.blkOffset - 1 + 1) (lastBlk P))
    unfold mdcBlks
    rw [Nat.sub_eq_zero_of_le (by omega)]
    rfl

/-- **The table of a boot.** If every block before the last one that records a data collision names a
block that is one, the boot completes, and the table has exactly what these blocks record; otherwise
it stops. -/
theorem boot_rebuilds (hs : Serves P ⟨c, r⟩) (hoff : 0 < P.blkOffset) :
    ((∀ b ∈ mdcBlks c P.blkOffset (lastBlk P), IsDc c (dcIndexOf c b)) →
      ∃ n s', boot P n c = some s' ∧ Complete P c s') ∧
    ((¬ ∀ b ∈ mdcBlks c P.blkOffset (lastBlk P), IsDc c (dcIndexOf c b)) →
      ∃ n, boot P n c = none) := by
  obtain ⟨s₁, heq, hcase⟩ := (batch_start (c := c) hoff).endPass hs rfl
  have hboot : ∀ n, boot P n c = passes P n s₁ := by
    intro n
    have hzero : (afterBitmap c).init.dssMdcLba = 0 := rfl
    unfold boot loadingDcHt
    rw [if_pos hzero]
    dsimp only
    rw [heq, Option.bind_some]
  rcases hcase with ⟨hdone, hblks⟩ | ⟨ps, hwait, -⟩
  · refine ⟨fun _ => ⟨0, s₁, hboot 0, hdone⟩, fun hno => ?_⟩
    rw [← hblks] at hno
    exact absurd (fun b hb => by cases hb) hno
  · obtain ⟨hgood, hbad⟩ := hwait.passes hs hoff fun b hb => by cases hb
    refine ⟨fun hyes => ?_, fun hno => ?_⟩
    · obtain ⟨n, s', hrun, hdone⟩ := hgood hyes
      exact ⟨n, s', (hboot n).trans hrun, hdone⟩
    · obtain ⟨n, hrun⟩ := hbad hno
      exact ⟨n, (hboot n).trans hrun⟩

/-! ### A table that the blocks record -/

/-- Every item of the table stands in a meta block that records it, and every such block has its item.
The state of a data collision says which state it had before. -/
structure Recorded (P : Params) (c : Ctx) : Prop where
  item : ∀ k it, c.dcTbl k = some it → P.InRange it.mdcIndex 1 ∧
    blkStateAt c it.mdcIndex = some .metaDataCollisionEntry ∧ dcIndexOf c it.mdcIndex = k ∧
    (blkStateAt c k).bind oriStateOf = some it.oriState
  entry : ∀ b, P.InRange b 1 → blkStateAt c b = some .metaDataCollisionEntry →
    ∃ it, c.dcTbl (dcIndexOf c b) = some it ∧ it.mdcIndex = b

theorem mem_blks_iff {b : ℕ} :
    b ∈ mdcBlks c P.blkOffset (lastBlk P) ↔
      (P.InRange b 1 ∧ b ≠ lastBlk P) ∧ blkStateAt c b = some .metaDataCollisionEntry := by
  have hrange : P.blkOffset ≤ b ∧ b < lastBlk P ↔ P.InRange b 1 ∧ b ≠ lastBlk P := by
    unfold Params.InRange lastBlk
    omega
  rw [mem_mdcBlks, hrange]

theorem Recorded.isDc (h : Recorded P c) :
    ∀ b ∈ mdcBlks c P.blkOffset (lastBlk P), IsDc c (dcIndexOf c b) := by
  intro b hb
  obtain ⟨⟨hin, -⟩, hat⟩ := mem_blks_iff.1 hb
  obtain ⟨it, hit, -⟩ := h.entry b hin hat
  exact Option.isSome_iff_exists.2 ⟨_, (h.item _ it hit).2.2.2⟩

theorem Recorded.tblOf (h : Recorded P c) :
    tblOf c (mdcBlks c P.blkOffset (lastBlk P)) =
      fun k => (c.dcTbl k).filter fun it => it.mdcIndex ≠ lastBlk P := by
  funext k
  -- a block of the list that records `k` is the one of the item of `k`
  have honly : ∀ b ∈ (mdcBlks c P.blkOffset (lastBlk P)).reverse, dcIndexOf c b = k →
      ∃ it, c.dcTbl k = some it ∧ it.mdcIndex = b ∧ b ≠ lastBlk P := by
    intro b hb hk
    obtain ⟨⟨hin, hne⟩, hat⟩ := mem_blks_iff.1 (List.mem_reverse.1 hb)
    obtain ⟨it, hit, heq⟩ := h.entry b hin hat
    exact ⟨it, hk ▸ hit, heq, hne⟩
  unfold BootTable.tblOf
  cases hfind : (mdcBlks c P.blkOffset (lastBlk P)).reverse.find? fun b => dcIndexOf c b = k with
  | some b =>
    obtain ⟨it, hit, rfl, hne⟩ := honly b (List.mem_of_find?_eq_some hfind)
      (by simpa using List.find?_some hfind)
    obtain ⟨-, -, -, hori⟩ := h.item k it hit
    rw [Option.bind_some, hori, hit, Option.filter_some, if_pos (by simpa using hne)]
    rfl
  | none =>
    rw [Option.bind_none]
    cases hit : c.dcTbl k with
    | none => rfl
    | some it =>
      obtain ⟨hin, hat, hk, -⟩ := h.item k it hit
      by_cases hlast : it.mdcIndex = lastBlk P
      · rw [Option.filter_some, if_neg (by simpa using hlast)]
      · have hmem := List.mem_reverse.2 (mem_blks_iff.2 ⟨⟨hin, hlast⟩, hat⟩)
        exact absurd hk (by simpa using List.find?_eq_none.1 hfind _ hmem)

theorem inRange_of_blkStateAt (hs : Serves P ⟨c, r⟩) {x : ℕ} {st : BlkState}
    (h : blkStateAt c x = some st) : P.InRange x 1 := by
  by_contra hno
  have hinvalid : c.alloc.isBlockIndexValid x = false := by
    rw [← Bool.not_eq_true, Context.isBlockIndexValid_iff hs.inv.agrees]
    exact fun hon => hno (hs.onDevice_iff.1 hon)
  unfold blkStateAt Context.getBlockState at h
  rw [if_pos hinvalid] at h
  cases h

/-- **A boot gives a recorded table back.** A boot with a table that the blocks record completes; it
gives the table back except for the item that stands in the last block, so it gives back all of it if
and only if the last block records no data collision. -/
theorem boot_restores_iff (hs : Serves P ⟨c, r⟩) (hoff : 0 < P.blkOffset)
    (hrec : Recorded P c) :
    ∃ n s', boot P n c = some s' ∧ s'.init.state = .initialized ∧
      (s'.ctx.dcTbl = fun k => (c.dcTbl k).filter fun it => it.mdcIndex ≠ lastBlk P) ∧
      (s'.ctx.dcTbl = c.dcTbl ↔ blkStateAt c (lastBlk P) ≠ some .metaDataCollisionEntry) := by
  obtain ⟨n, s', hrun, hdone⟩ := (boot_rebuilds hs hoff).1 hrec.isDc
  have htbl : s'.ctx.dcTbl = fun k => (c.dcTbl k).filter fun it => it.mdcIndex ≠ lastBlk P := by
    rw [hdone.ctx]
    exact hrec.tblOf
  refine ⟨n, s', hrun, hdone.initialized, htbl, ?_⟩
  rw [htbl]
  constructor
  · intro heq hlast
    obtain ⟨it, hit, hidx⟩ := hrec.entry _ (inRange_of_blkStateAt hs hlast) hlast
    have hk := congrFun heq (dcIndexOf c (lastBlk P))
    rw [hit, Option.filter_some, if_neg (by simpa using hidx)] at hk
    cases hk
  · intro hlast
    funext k
    cases hit : c.dcTbl k with
    | none => rfl
    | some it =>
      have hne : it.mdcIndex ≠ lastBlk P := by
        intro heq
        obtain ⟨-, hat, -, -⟩ := hrec.item k it hit
        exact hlast (heq ▸ hat)
      rw [Option.filter_some, if_pos (by simpa using hne)]

end

/-! ### A device of three blocks -/

/-- A translator whose block 1 is a data collision, recorded in block `m`. -/
theorem exists_recorded {m : ℕ} (hm : m = 2 ∨ m = 3) :
    ∃ c, Serves (lineParams 3) ⟨c, initKvtransReq 0 ⟨.exist, [], 0, []⟩⟩ ∧ Recorded (lineParams 3) c ∧
      c.dcTbl 1 = some ⟨m, .data⟩ := by
  obtain ⟨alloc, halloc⟩ : ∃ alloc,
    BlockAllocator.dssBlkAllocatorInit (allocOpts (lineParams 3) 1) = some alloc := ⟨_, rfl⟩
  obtain ⟨hs, hfree⟩ := serves_empty halloc (by decide) (by decide)
    (initKvtransReq 0 ⟨.exist, [], 0, []⟩)
  obtain ⟨-, s₁, -, -, hset₁⟩ := Program.wp_false_iff.1
    (setOneState_spec hs false (b := 1) ⟨by decide, by decide⟩
      (show 0 < BlkState.dataCollision.toCell by decide) (by decide))
  have hin : (lineParams 3).InRange m 1 := by
    rcases hm with rfl | rfl <;> exact ⟨by decide, by decide⟩
  obtain ⟨-, s₂, -, -, hset₂⟩ := Program.wp_false_iff.1
    (setOneState_spec hset₁.serves false hin
      (show 0 < BlkState.metaDataCollisionEntry.toCell by decide) (by decide))
  let c : Ctx := { s₂.ctx with
    dcTbl := fun k => if k = 1 then some ⟨m, .data⟩ else none
    metas := fun x => if x = m then some { OndiskMeta.zero with dataCollisionIndex := 1 } else none }
  have hserves : Serves (lineParams 3) ⟨c, initKvtransReq 0 ⟨.exist, [], 0, []⟩⟩ :=
    ⟨hset₂.serves.inv, hset₂.serves.offset, hset₂.serves.blocks, hset₂.serves.states⟩
  have hcell : ∀ x, 1 ≤ x → s₂.cell x = if x = m then 6 else if x = 1 then 4 else 0 := by
    intro x hx
    rw [hset₂.cell x hx, hset₁.cell x hx]
    have hzero : Sys.cell ⟨initKvtransCtx alloc, initKvtransReq 0 ⟨.exist, [], 0, []⟩⟩ x = 0 := hfree x
    rw [hzero]
    split_ifs <;> first | rfl | omega
  have hstate : ∀ x, (lineParams 3).InRange x 1 → blkStateAt c x =
      BlkState.ofCell (if x = m then 6 else if x = 1 then 4 else 0) := by
    intro x hx
    rw [Serves.blkStateAt hserves hx, ← hcell x hx.1]
    rfl
  have hone : (1 : ℕ) ≠ m := by omega
  have hdc : dcIndexOf c m = 1 := by
    change (((if m = m then some { OndiskMeta.zero with dataCollisionIndex := 1 } else none) :
      Option OndiskMeta).getD OndiskMeta.zero).dataCollisionIndex = 1
    rw [if_pos rfl]
    rfl
  have hat : blkStateAt c m = some .metaDataCollisionEntry := by
    rw [hstate m hin, if_pos rfl]
    rfl
  refine ⟨c, hserves, ⟨fun k it hit => ?_, fun b hb hb' => ?_⟩, rfl⟩
  · change (if k = 1 then some ⟨m, .data⟩ else none) = some it at hit
    split_ifs at hit with hk
    cases hit
    subst hk
    refine ⟨hin, hat, hdc, ?_⟩
    rw [hstate 1 ⟨by decide, by decide⟩, if_neg hone, if_pos rfl]
    rfl
  · rw [hstate b hb] at hb'
    split_ifs at hb' with hbm hb1
    · exact ⟨⟨m, .data⟩, by rw [hbm, hdc]; rfl, hbm.symm⟩
    · cases hb'
    · cases hb'

/-- An item that stands before the last block comes back, and one in the last block is lost. -/
theorem boot_restores_first :
    (∃ c n s', c.dcTbl 1 = some ⟨2, .data⟩ ∧ boot (lineParams 3) n c = some s' ∧
      s'.ctx.dcTbl 1 = some ⟨2, .data⟩) ∧
    ∃ c n s', c.dcTbl 1 = some ⟨3, .data⟩ ∧ boot (lineParams 3) n c = some s' ∧
      s'.ctx.dcTbl 1 = none := by
  constructor
  · obtain ⟨c, hs, hrec, hitem⟩ := exists_recorded (Or.inl rfl)
    obtain ⟨n, s', hrun, -, htbl, -⟩ := boot_restores_iff hs (by decide) hrec
    refine ⟨c, n, s', hitem, hrun, ?_⟩
    rw [htbl]
    dsimp only
    rw [hitem]
    rfl
  · obtain ⟨c, hs, hrec, hitem⟩ := exists_recorded (Or.inr rfl)
    obtain ⟨n, s', hrun, -, htbl, -⟩ := boot_restores_iff hs (by decide) hrec
    refine ⟨c, n, s', hitem, hrun, ?_⟩
    rw [htbl]
    dsimp only
    rw [hitem]
    rfl

end DssSdk.Kvtrans.BootTable
