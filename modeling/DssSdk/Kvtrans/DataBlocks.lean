import DssSdk.Lib.Extents
import DssSdk.Kvtrans.BlockStates
import DssSdk.Kvtrans.Frames

/-!
# The data blocks of a value

`find_data_blocks` asks for one run of blocks and, when there is none, for two halves.

* `Takes`: what a search took so far, as extents with their lengths;
* `findDataBlocks_takes`: every search ends, and what it took;
* `findDataBlocks_scatters`: the extents that it records, and the roll back of a search that failed;
* `Room`, `findDataBlocks_success`: when it finds them.

A search that fails leaves the blocks that it took, in the extents that it recorded; the label
`roll_back` of `init_meta_blk` clears these extents.
-/

namespace DssSdk.Kvtrans

open BlockAllocator Program Extents

/-- The extents of the value of a block context. -/
def Sys.placeValue (s : Sys) (p : ℕ) : List ValueLoc := (s.req.chain.getD p BlkCtx.zero).blk.placeValue

/-- The number of blocks of extents. -/
def total (ps : List (ℕ × ℕ)) : ℕ := (ps.map Prod.snd).sum

@[simp] theorem total_nil : total [] = 0 := rfl

@[simp] theorem total_append (ps qs : List (ℕ × ℕ)) : total (ps ++ qs) = total ps + total qs := by
  unfold total
  rw [List.map_append, List.sum_append]

/-- The extent that is recorded: its length is a `uint16_t`. -/
def recorded (e : ℕ × ℕ) : ValueLoc := ⟨e.1, e.2 % 2 ^ 16⟩

/-- From `s` to `s'` the free blocks of the extents `ps` became `DATA`, and the extents were recorded. -/
structure Takes (P : Params) (p : ℕ) (s s' : Sys) (ps : List (ℕ × ℕ)) : Prop where
  place : s'.placeValue p = s.placeValue p ++ ps.map recorded
  length : s'.req.chain.length = s.req.chain.length
  few : (s'.placeValue p).length ≤ maxValueScatter
  apart : ps.Pairwise Apart
  free : ∀ e ∈ ps, 0 < e.2 ∧ P.InRange e.1 e.2 ∧ ∀ x, Holds e x → s.cell x = blockStateFree
  serves : Serves P s'
  cell : ∀ x, P.blkOffset ≤ x → s'.cell x = if Covers ps x then BlkState.data.toCell else s.cell x

section

variable {P : Params} {p n : ℕ} {s s₁ s₂ : Sys} {ps qs : List (ℕ × ℕ)}

theorem SetsState.takes_nil (h : SetsState P s 0 0 0 s₁) (hfew : (s.placeValue p).length ≤ maxValueScatter) :
    Takes P p s s₁ [] := by
  have hplace : s₁.placeValue p = s.placeValue p := by
    unfold Sys.placeValue
    rw [h.frame.chain]
  refine ⟨by rw [hplace]; simp, by rw [h.frame.chain], by rwa [hplace], List.Pairwise.nil,
    fun e he => (List.not_mem_nil he).elim, h.serves, fun x hx => ?_⟩
  rw [h.cell x hx, if_neg (by omega), if_neg not_covers_nil]

theorem Takes.append (h : Takes P p s s₁ ps) (h' : Takes P p s₁ s₂ qs) :
    Takes P p s s₂ (ps ++ qs) := by
  -- a block that the first search took is not free for the second
  have hfresh : ∀ f ∈ qs, ∀ x, Holds f x → ¬ Covers ps x ∧ s.cell x = blockStateFree := by
    intro f hf x hx
    obtain ⟨-, hin, hfree⟩ := h'.free f hf
    have hcell := h.cell x (hin.1.trans hx.1)
    rw [hfree x hx] at hcell
    by_cases hc : Covers ps x
    · rw [if_pos hc] at hcell
      exact absurd hcell (by decide)
    · rw [if_neg hc] at hcell
      exact ⟨hc, hcell.symm⟩
  refine ⟨?_, h'.length.trans h.length, h'.few, ?_, ?_, h'.serves, fun x hx => ?_⟩
  · rw [h'.place, h.place, List.map_append, List.append_assoc]
  · rw [List.pairwise_append]
    refine ⟨h.apart, h'.apart, fun e he f hf => ?_⟩
    refine apart_of_disjoint (h.free e he).1 (h'.free f hf).1 fun x hxe hxf => ?_
    exact (hfresh f hf x hxf).1 ⟨e, he, hxe⟩
  · intro e he
    rw [List.mem_append] at he
    rcases he with he | he
    · exact h.free e he
    · exact ⟨(h'.free e he).1, (h'.free e he).2.1, fun x hx => (hfresh e he x hx).2⟩
  · rw [h'.cell x hx, h.cell x hx]
    simp only [covers_append]
    split_ifs <;> tauto

theorem SetsState.takes_run {b : ℕ} (h : SetsState P s b n BlkState.data.toCell s₁) (hn : 0 < n)
    (hin : P.InRange b n) (hfree : ∀ x, b ≤ x → x < b + n → s.cell x = blockStateFree)
    (hp : p < s.req.chain.length) (hfew : (s.placeValue p).length < maxValueScatter) {f : BlkCtx → BlkCtx}
    (hf : ∀ c, (f c).blk.placeValue = c.blk.placeValue ++ [recorded (b, n)]) :
    Takes P p s { s₁ with req := { s₁.req with chain := s₁.req.chain.modify p f } } [(b, n)] := by
  have hplace : Sys.placeValue { s₁ with req := { s₁.req with chain := s₁.req.chain.modify p f } } p =
      s.placeValue p ++ [recorded (b, n)] := by
    unfold Sys.placeValue
    rw [getD_modify (by rwa [h.frame.chain]), hf, h.frame.chain]
  refine ⟨hplace, ?_, ?_, List.pairwise_singleton _ _, ?_, ⟨h.serves.inv, h.serves.offset,
    h.serves.blocks, h.serves.states⟩, fun x hx => ?_⟩
  · show (s₁.req.chain.modify p f).length = _
    rw [List.length_modify, h.frame.chain]
  · rw [hplace, List.length_append]
    show _ + 1 ≤ _
    omega
  · intro e he
    obtain rfl := List.mem_singleton.1 he
    exact ⟨hn, hin, fun x hx => hfree x hx.1 hx.2⟩
  · show s₁.cell x = _
    rw [h.cell x hx]
    simp only [covers_cons, not_covers_nil, or_false]
    rfl

/-- Every search ends. It took all blocks that were asked for, or it failed and this is recorded. -/
theorem findDataBlocks_takes (hs : Serves P s) (hp : p < s.req.chain.length)
    (hfew : (s.placeValue p).length ≤ maxValueScatter) {fuel : ℕ} (hfuel : n < fuel) :
    wp (fun _ => False) (findDataBlocks P p fuel n) (fun rc s' => ∃ ps, Takes P p s s' ps ∧
      (∀ e ∈ ps, e.2 ≤ n) ∧
      (rc = .success ∧ total ps = n ∨ rc = .error ∧ s'.req.allocFailed = true)) s := by
  have hnone : ∀ s, Serves P s → (s.placeValue p).length ≤ maxValueScatter → Takes P p s s [] := by
    intro s hs hfew
    refine ⟨by simp, rfl, hfew, List.Pairwise.nil, fun e he => (List.not_mem_nil he).elim, hs,
      fun x _ => ?_⟩
    rw [if_neg not_covers_nil]
  induction fuel generalizing n s with
  | zero => omega
  | succ fuel ih =>
    unfold findDataBlocks
    by_cases hzero : n = 0
    · rw [if_pos hzero]
      exact ⟨[], hnone s hs hfew, fun e he => (List.not_mem_nil he).elim, .inl ⟨rfl, hzero.symm⟩⟩
    rw [if_neg hzero, wp_bind, wp_blkAt]
    by_cases hfull : (s.req.chain.getD p BlkCtx.zero).blk.placeValue.length = maxValueScatter
    · rw [if_pos hfull]
      unfold recordAllocFailed modifyReq
      rw [wp_bind, wp_modify]
      refine ⟨[], ?_, fun e he => (List.not_mem_nil he).elim, .inr ⟨rfl, rfl⟩⟩
      have h := hnone s hs hfew
      exact ⟨h.place, h.length, h.few, h.apart, h.free, ⟨hs.inv, hs.offset, hs.blocks, hs.states⟩,
        h.cell⟩
    rw [if_neg hfull, wp_bind]
    refine wp_mono (allocContig_spec hs _ (by decide) (by decide) (by omega)) ?_
    rintro r s₁ (⟨rfl, hsame, hfailed⟩ | ⟨b, rfl, hin, hfree, hset⟩)
    · -- no run: two halves, unless one block was asked for
      have htakes := hsame.takes_nil hfew
      by_cases hone : n = 1
      · dsimp only
        rw [if_pos hone]
        exact ⟨[], htakes, fun e he => (List.not_mem_nil he).elim, .inr ⟨rfl, hfailed hone⟩⟩
      dsimp only
      rw [if_neg hone, wp_bind]
      refine wp_mono (ih (n := n / 2) htakes.serves (by rwa [htakes.length]) htakes.few (by omega)) ?_
      rintro rc s₂ ⟨ps, hps, hle, hrc⟩
      have hps' := htakes.append hps
      rw [wp_ite]
      refine ⟨fun herr => ⟨ps, hps', fun e he => (hle e he).trans (by omega),
        .inr ⟨rfl, (hrc.resolve_left fun hok => herr hok.1).2⟩⟩, fun hok => ?_⟩
      obtain ⟨rfl, hsum⟩ := hrc.resolve_right fun herr => hok (by rw [herr.1]; decide)
      rw [wp_bind]
      refine wp_mono (ih (n := n - n / 2) hps'.serves (by rwa [hps'.length]) hps'.few (by omega)) ?_
      rintro rc s₃ ⟨qs, hqs, hle', hrc⟩
      have hall := hps'.append hqs
      have hbound : ∀ e ∈ [] ++ ps ++ qs, e.2 ≤ n := by
        intro e he
        rcases List.mem_append.1 he with he | he
        · exact (hle e he).trans (by omega)
        · exact (hle' e he).trans (by omega)
      rw [wp_ite]
      refine ⟨fun herr => ⟨_, hall, hbound, .inr ⟨rfl, (hrc.resolve_left fun hok => herr hok.1).2⟩⟩,
        fun hok' => ⟨_, hall, hbound, .inl ⟨rfl, ?_⟩⟩⟩
      obtain ⟨-, hsum'⟩ := hrc.resolve_right fun herr => hok' (by rw [herr.1]; decide)
      rw [List.nil_append, total_append, hsum, hsum']
      omega
    · dsimp only
      unfold dssAssert modifyBlk
      have hrange : P.blkOffset ≤ b ∧ b < P.blkOffset + P.blkNum := by
        obtain ⟨h1, h2⟩ := hin
        exact ⟨h1, by omega⟩
      rw [if_pos hrange, wp_bind, wp_pure, wp_bind, wp_modify]
      refine ⟨[(b, n)], hset.takes_run (by omega) hin hfree hp (lt_of_le_of_ne hfew hfull)
        (fun _ => rfl), fun e he => ?_, .inl ⟨rfl, Nat.add_zero n⟩⟩
      obtain rfl := List.mem_singleton.1 he
      exact le_rfl

/-! ### The extents that are recorded -/

/-- The extents `locs` that a search recorded: disjoint, of lengths that fit, of blocks that were `EMPTY`
and are `DATA`, and no other block changed. -/
structure Scatters (P : Params) (p : ℕ) (s s' : Sys) (locs : List ValueLoc) : Prop where
  place : s'.placeValue p = s.placeValue p ++ locs
  few : (s'.placeValue p).length ≤ maxValueScatter
  apart : (locs.map extentOf).Pairwise Apart
  fits : ∀ loc ∈ locs, 0 < loc.numChunks ∧ loc.numChunks < 2 ^ 16
  wasEmpty : ∀ x, Covers (locs.map extentOf) x → s.cell x = BlkState.empty.toCell
  cell : ∀ x, P.blkOffset ≤ x →
    s'.cell x = if Covers (locs.map extentOf) x then BlkState.data.toCell else s.cell x

theorem sum_numChunks (locs : List ValueLoc) :
    (locs.map ValueLoc.numChunks).sum = total (locs.map extentOf) := by
  unfold total
  rw [List.map_map]
  rfl

theorem map_extentOf_recorded (h : ∀ e ∈ ps, e.2 < 2 ^ 16) : (ps.map recorded).map extentOf = ps := by
  rw [List.map_map]
  conv_rhs => rw [← List.map_id ps]
  apply List.map_congr_left
  intro e he
  exact Prod.ext rfl (Nat.mod_eq_of_lt (h e he))

theorem Takes.scatters (h : Takes P p s s₁ ps) (hfit : ∀ e ∈ ps, e.2 < 2 ^ 16) :
    Scatters P p s s₁ (ps.map recorded) := by
  have hmap := map_extentOf_recorded hfit
  refine ⟨h.place, h.few, by rw [hmap]; exact h.apart, fun loc hloc => ?_, fun x hx => ?_, fun x hx => ?_⟩
  · obtain ⟨e, he, rfl⟩ := List.mem_map.1 hloc
    refine ⟨?_, Nat.mod_lt _ (by norm_num)⟩
    show 0 < e.2 % 2 ^ 16
    rw [Nat.mod_eq_of_lt (hfit e he)]
    exact (h.free e he).1
  · rw [hmap] at hx
    obtain ⟨e, he, hx⟩ := hx
    exact (h.free e he).2.2 x hx
  · rw [h.cell x hx, hmap]

/-- The loop of `roll_back` over extents in use. -/
theorem rollBackExtents_spec (hs : Serves P s) {locs : List ValueLoc}
    (hapart : (locs.map extentOf).Pairwise Apart)
    (huse : ∀ loc ∈ locs, 0 < loc.numChunks ∧ P.InRange loc.valueIndex loc.numChunks ∧
      ∀ x, Holds (extentOf loc) x → s.cell x ≠ blockStateFree) :
    wp (fun _ => False) (rollBackExtents locs) (fun ok s' => ok = true ∧ ∀ x, P.blkOffset ≤ x →
      s'.cell x = if Covers (locs.map extentOf) x then blockStateFree else s.cell x) s := by
  induction locs generalizing s with
  | nil =>
    refine ⟨rfl, fun x _ => ?_⟩
    rw [if_neg (by simp)]
  | cons loc locs ih =>
    rw [List.map_cons, List.pairwise_cons] at hapart
    obtain ⟨hpos, hin, hused⟩ := huse loc (List.mem_cons_self ..)
    unfold rollBackExtents
    rw [wp_bind]
    refine wp_mono (clearBlkState_spec hs false hpos hin fun x h1 h2 => hused x ⟨h1, h2⟩) ?_
    rintro rc s₁ ⟨rfl, hset⟩
    rw [if_neg (by decide)]
    have hout : ∀ x, P.blkOffset ≤ x → ¬ Holds (extentOf loc) x → s₁.cell x = s.cell x := by
      intro x hx hno
      rw [hset.cell x hx]
      exact if_neg hno
    refine wp_mono (ih hset.serves hapart.2 fun l hl => ?_) ?_
    · obtain ⟨hpos', hin', hused'⟩ := huse l (List.mem_cons_of_mem _ hl)
      refine ⟨hpos', hin', fun x hx => ?_⟩
      have hno := (hapart.1 (extentOf l) (List.mem_map_of_mem hl)).symm.not_holds hx
      rw [hout x (hin'.1.trans hx.1) hno]
      exact hused' x hx
    · rintro ok s₂ ⟨rfl, hcell⟩
      refine ⟨rfl, fun x hx => ?_⟩
      rw [hcell x hx, hset.cell x hx, List.map_cons]
      simp only [covers_cons]
      show (if _ then _ else if Holds (extentOf loc) x then _ else _) = _
      split_ifs <;> tauto

theorem Scatters.rollBack {locs : List ValueLoc} (h : Scatters P p s s₁ locs) (hs₁ : Serves P s₁)
    (hin : ∀ loc ∈ locs, P.InRange loc.valueIndex loc.numChunks) :
    wp (fun _ => False) (rollBackExtents locs)
      (fun ok s' => ok = true ∧ ∀ x, P.blkOffset ≤ x → s'.cell x = s.cell x) s₁ := by
  refine wp_mono (rollBackExtents_spec hs₁ h.apart fun loc hloc => ⟨(h.fits loc hloc).1, hin loc hloc,
    fun x hx => ?_⟩) ?_
  · rw [h.cell x ((hin loc hloc).1.trans hx.1), if_pos ⟨_, List.mem_map_of_mem hloc, hx⟩]
    decide
  · rintro ok s' ⟨rfl, hcell⟩
    refine ⟨rfl, fun x hx => ?_⟩
    rw [hcell x hx, h.cell x hx]
    by_cases hc : Covers (locs.map extentOf) x
    · rw [if_pos hc, h.wasEmpty x hc]
      rfl
    · rw [if_neg hc, if_neg hc]

/-- Every search ends. When the lengths of its extents fit, because the request does or because there is
no longer run, it recorded exactly what it took; on success that is what was asked for, and after a
failure clearing the recorded extents brings every block back to its state. -/
theorem findDataBlocks_scatters (hs : Serves P s) (hp : p < s.req.chain.length)
    (hfew : (s.placeValue p).length ≤ maxValueScatter) :
    wp (fun _ => False) (findDataBlocks P p (n + 1) n) (fun rc s' =>
      (n < 2 ^ 16 ∨ ∀ b, ¬ s.ctx.alloc.FreeRun b (2 ^ 16)) → ∃ locs, Scatters P p s s' locs ∧
        (rc = .success → (locs.map ValueLoc.numChunks).sum = n) ∧
        (rc ≠ .success → wp (fun _ => False) (rollBackExtents locs)
          (fun ok s'' => ok = true ∧ ∀ x, P.blkOffset ≤ x → s''.cell x = s.cell x) s')) s := by
  refine wp_mono (findDataBlocks_takes hs hp hfew (Nat.lt_succ_self n)) ?_
  rintro rc s' ⟨ps, htakes, hle, hrc⟩ hshort
  have hfit : ∀ e ∈ ps, e.2 < 2 ^ 16 := by
    intro e he
    rcases hshort with hn | hno
    · exact (hle e he).trans_lt hn
    · by_contra hlong
      obtain ⟨-, hin, hfree⟩ := htakes.free e he
      refine hno e.1 ⟨hs.onDevice_iff.2 ⟨hin.1, by have := hin.2; omega⟩, fun x h1 h2 => ?_⟩
      exact hfree x ⟨h1, by omega⟩
  have hscatters := htakes.scatters hfit
  refine ⟨_, hscatters, fun hok => ?_, fun _ => hscatters.rollBack htakes.serves fun loc hloc => ?_⟩
  · obtain ⟨-, hsum⟩ := hrc.resolve_right fun herr => by rw [hok] at herr; cases herr.1
    rw [sum_numChunks, map_extentOf_recorded hfit, hsum]
  · obtain ⟨e, he, rfl⟩ := List.mem_map.1 hloc
    have hin := (htakes.free e he).2.1
    show P.InRange e.1 (e.2 % 2 ^ 16)
    rwa [Nat.mod_eq_of_lt (hfit e he)]

end

/-! ### Room for a value -/

/-- There is a run of as many free blocks, and a block follows the one behind which the search starts. -/
structure Room (P : Params) (cell : ℕ → ℕ) (h n : ℕ) : Prop where
  hint : P.InRange (h + 1) 1
  run : ∃ i, P.InRange i n ∧ ∀ x, Holds (i, n) x → cell x = blockStateFree

section

variable {P : Params} {p n : ℕ} {s : Sys}

theorem Room.congr {cell cell' : ℕ → ℕ} {h n : ℕ} (hroom : Room P cell h n)
    (hcell : ∀ x, P.blkOffset ≤ x → cell' x = cell x) : Room P cell' h n := by
  obtain ⟨hhint, i, hin, hfree⟩ := hroom
  exact ⟨hhint, i, hin, fun x hx => (hcell x (hin.1.trans hx.1)).trans (hfree x hx)⟩

theorem allocContig_isSome (hw : Context.WellFormed s.ctx.alloc) {hint i : ℕ} (hn : 0 < n)
    (hhint : s.ctx.alloc.alloc.OnDevice hint 1) (hrun : s.ctx.alloc.FreeRun i n) :
    wp (fun _ => True) (allocContig .data hint n) (fun r _ => r.isSome = true) s := by
  have hidx : s.ctx.alloc.isBlockIndexValid hint = true :=
    (Context.isBlockIndexValid_iff hw.managed.agrees).2 hhint
  have hcells : n ≤ s.ctx.alloc.alloc.cells := by
    obtain ⟨⟨h1, h2⟩, -⟩ := hrun
    omega
  unfold allocContig
  rw [wp_bind, wp_get]
  obtain ⟨r, hr, ⟨-, hwhy⟩ | ⟨lb, j, -, hg⟩⟩ :=
    Context.allocBlocksContig_cases hw.managed BlkState.data.toCell hint true hn
  · rcases hwhy hidx hcells with h0 | ⟨h0, -⟩
    · exact absurd h0 (hrun.allocateLb_ne hw hn hhint)
    · cases h0
  · rw [hr]
    dsimp only
    unfold modifyCtx setBaMetaUpdated modifyReq
    rw [wp_bind, wp_modify, if_pos hg.status, wp_bind, wp_modify, wp_pure, hg.start]
    rfl

/-- A search with room for the blocks succeeds. -/
theorem findDataBlocks_success (hs : Serves P s) (hdense : s.ctx.alloc.alloc.jso.jarrFreeContigLen.Dense)
    (hfew : (s.placeValue p).length ≠ maxValueScatter) (fuel : ℕ)
    (hroom : Room P s.cell (s.req.chain.getD p BlkCtx.zero).index n) :
    wp (fun _ => True) (findDataBlocks P p (fuel + 1) n) (fun rc _ => rc = .success) s := by
  unfold findDataBlocks
  rw [wp_ite]
  refine ⟨fun _ => rfl, fun hn => ?_⟩
  obtain ⟨i, hin, hfree⟩ := hroom.run
  unfold Sys.placeValue at hfew
  rw [wp_bind, wp_blkAt, if_neg hfew, wp_bind]
  refine wp_mono (allocContig_isSome ⟨hs.inv.managed, hdense⟩ (Nat.pos_of_ne_zero hn)
    (hs.onDevice_iff.2 hroom.hint) ⟨hs.onDevice_iff.2 hin, fun x h1 h2 => hfree x ⟨h1, h2⟩⟩) ?_
  rintro (- | start) s₁ hsome
  · cases hsome
  · dsimp only
    rw [wp_bind, wp_dssAssert]
    exact ⟨fun _ => rfl, fun _ => trivial⟩

end

/-! ### A device of three blocks -/

/-- A translator with the blocks `1, …, n`. -/
def lineParams (n : ℕ) : Params := ⟨.memory, 1, n, 4096, false, fun _ => 1⟩

/-- The allocator of the translator, as `init_kvtrans_ctx` asks for it. -/
def lineOpts (n : ℕ) : Opts := ⟨n, 8, 1, 1⟩

theorem init_lineOpts (n : ℕ) : ∃ c, dssBlkAllocatorInit (lineOpts n) = some c := ⟨_, rfl⟩

/-- A request on an empty device. -/
def freshSys (c : Context) : Sys := ⟨initKvtransCtx c, initKvtransReq 0 ⟨.store, [], 0, []⟩⟩

theorem serves_fresh {n : ℕ} {c : Context} (hc : dssBlkAllocatorInit (lineOpts n) = some c) (hn : 0 < n)
    (hlt : n < 2 ^ 63) : Serves (lineParams n) (freshSys c) := by
  obtain ⟨hinv, hopts, -⟩ := Context.inv_of_init hc
    ⟨hn, by show n + 1 < 2 ^ 64; omega, by show 8 ≤ 15; omega⟩
  exact ⟨hinv, by show c.opts.logicalStartBlockOffset = 1; rw [hopts]; rfl,
    by show c.opts.numTotalBlocks = n; rw [hopts]; rfl, by show c.opts.numBlockStates = 8; rw [hopts]; rfl⟩

/-- Two of the three blocks are asked for. -/
theorem findDataBlocks_scatters_two : ∃ c, dssBlkAllocatorInit (lineOpts 3) = some c ∧
    wp (fun _ => False) (findDataBlocks (lineParams 3) 0 3 2) (fun rc s' =>
      (2 < 2 ^ 16 ∨ ∀ b, ¬ (freshSys c).ctx.alloc.FreeRun b (2 ^ 16)) →
        ∃ locs, Scatters (lineParams 3) 0 (freshSys c) s' locs ∧
          (rc = .success → (locs.map ValueLoc.numChunks).sum = 2) ∧
          (rc ≠ .success → wp (fun _ => False) (rollBackExtents locs)
            (fun ok s'' => ok = true ∧ ∀ x, 1 ≤ x → s''.cell x = (freshSys c).cell x) s'))
      (freshSys c) :=
  ⟨_, rfl, findDataBlocks_scatters (serves_fresh rfl (by decide) (by decide)) (by decide) (by decide)⟩

/-- The status of a search and the states of the first blocks after it. -/
def searchResult (n blocks request : ℕ) : Option (Status × List ℕ) := do
  let c ← dssBlkAllocatorInit (lineOpts n)
  match findDataBlocks (lineParams n) 0 (request + 1) request (freshSys c) with
  | .ok (rc, s') => some (rc, (List.range' 1 blocks).map s'.cell)
  | .error _ => none

theorem allocContig_of_freeRun {s : Sys} {hint n : ℕ} (hw : Context.WellFormed s.ctx.alloc) (hn : 0 < n)
    (hrun : s.ctx.alloc.FreeRun hint n) :
    wp (fun _ => False) (allocContig .data hint n)
      (fun r s' => r = some hint ∧ s'.req.chain = s.req.chain) s := by
  obtain ⟨r, hr, hg⟩ := hrun.granted hw.managed BlkState.data.toCell hn
  unfold allocContig
  rw [wp_bind, wp_get, hr]
  dsimp only
  unfold modifyCtx setBaMetaUpdated modifyReq
  rw [wp_bind, wp_modify, if_pos hg.status, wp_bind, wp_modify, wp_pure, hg.start]
  exact ⟨rfl, rfl⟩

theorem findDataBlocks_of_freeRun {P : Params} {p n fuel : ℕ} {s : Sys}
    (hw : Context.WellFormed s.ctx.alloc) (hn : 0 < n) (hp : p < s.req.chain.length)
    (hfew : (s.req.chain.getD p BlkCtx.zero).blk.placeValue.length ≠ maxValueScatter)
    (hrun : s.ctx.alloc.FreeRun ((s.req.chain.getD p BlkCtx.zero).index + 1) n)
    (hin : P.InRange ((s.req.chain.getD p BlkCtx.zero).index + 1) n) :
    wp (fun _ => False) (findDataBlocks P p (fuel + 1) n) (fun rc s' => rc = .success ∧
      s'.placeValue p =
        s.placeValue p ++ [recorded ((s.req.chain.getD p BlkCtx.zero).index + 1, n)]) s := by
  unfold findDataBlocks
  rw [if_neg (by omega), wp_bind, wp_blkAt, if_neg hfew, wp_bind]
  refine wp_mono (allocContig_of_freeRun hw hn hrun) ?_
  rintro r s' ⟨rfl, hchain⟩
  have hrange := hin.2
  dsimp only
  unfold dssAssert modifyBlk
  rw [if_pos ⟨hin.1, by omega⟩, wp_bind, wp_pure, wp_bind, wp_modify]
  refine ⟨rfl, ?_⟩
  unfold Sys.placeValue
  rw [getD_modify (by rwa [hchain]), hchain]
  rfl

theorem findDataBlocks_all {n : ℕ} {c : Context} (hc : dssBlkAllocatorInit (lineOpts n) = some c)
    (hn : 0 < n) (hlt : n < 2 ^ 63) :
    wp (fun _ => False) (findDataBlocks (lineParams n) 0 (n + 1) n)
      (fun rc s' => rc = .success ∧ s'.placeValue 0 = [recorded (1, n)]) (freshSys c) := by
  have haddr : (lineOpts n).numTotalBlocks + (lineOpts n).logicalStartBlockOffset < 2 ^ 64 := by
    show n + 1 < 2 ^ 64
    omega
  have hw := Context.wellFormed_of_init hc hn haddr
  obtain ⟨-, -, hcell⟩ := Context.managed_of_init hc hn haddr
  have hin : (lineParams n).InRange 1 n := ⟨le_rfl, le_rfl⟩
  exact findDataBlocks_of_freeRun hw hn (show 0 < 1 from one_pos)
    (show ([] : List ValueLoc).length ≠ maxValueScatter by decide)
    ⟨(serves_fresh hc hn hlt).onDevice_iff.2 hin, fun x _ _ => hcell x⟩ hin

/-- The search for four blocks on an empty device of three fails, and all three are `DATA`; the search for
`2 ^ 16` blocks on an empty device of as many succeeds, and the length that it records is zero. -/
theorem findDataBlocks_keeps_taken : searchResult 3 3 4 = some (.error, [2, 2, 2]) ∧
    ∃ c, dssBlkAllocatorInit (lineOpts (2 ^ 16)) = some c ∧
      wp (fun _ => False) (findDataBlocks (lineParams (2 ^ 16)) 0 (2 ^ 16 + 1) (2 ^ 16))
        (fun rc s' => rc = .success ∧ s'.placeValue 0 = [⟨1, 0⟩]) (freshSys c) := by
  obtain ⟨c, hc⟩ := init_lineOpts (2 ^ 16)
  refine ⟨by decide +kernel, c, hc, wp_mono (findDataBlocks_all hc (by norm_num) (by norm_num)) ?_⟩
  rintro rc s' ⟨rfl, hplace⟩
  exact ⟨rfl, hplace⟩

end DssSdk.Kvtrans
