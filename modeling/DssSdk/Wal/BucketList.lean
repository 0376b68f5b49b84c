import DssSdk.Wal.MapInvariant

/-!
# The flusher's list of buckets

A write that uses an item of a chain again links the bucket into `map->head` if the bucket has no
next one. The test also holds for the last bucket of the list, and a removal leaves the pointers of
the removed bucket as they are.

* `ListOk`: the list is finite and without repetition, and holds every bucket with a live item;
* `LinkOk`: the test agrees with the list;
* `reinit_forms`: a reset of a well-formed list ends and leaves no live item;
* `listOk_of_run`: with `LinkOk` at every call the list stays well formed.
-/

namespace DssSdk.Wal

open CellMemory TailQueue

/-- The list of the flusher is finite, has no bucket twice and holds every bucket with a live
item. -/
def ListOk (buf : Buffer) : Prop :=
  ∃ l, buf.map.queue.Lists l ∧ ∀ i j it, buf.Holds ⟨i, j⟩ it → i ∈ l

/-- The bucket is in the list. -/
def Listed (q : Queue ℕ) (i : ℕ) : Prop := ∃ l, q.Lists l ∧ i ∈ l

/-- When a write uses an invalid item again, the next pointer of its bucket is null exactly if the
bucket is not in the list. -/
def LinkOk (conf : Conf) (buf : Buffer) : MapEvent → Prop
  | .lookup obj ty =>
      (ty = .delete → conf.logEnabled = true) ∧
        ((ty = .writeAppend ∨ ty = .writeInplace) →
          (∀ ref it, buf.Holds ref it → it.key ≠ obj.key) →
          (buf.map.table (conf.bucketIdx obj.key)).validNrEntries ≠
            (buf.map.table (conf.bucketIdx obj.key)).totalNrEntries →
          (buf.map.queue.next (conf.bucketIdx obj.key) = none ↔
            ¬ Listed buf.map.queue (conf.bucketIdx obj.key)))
  | _ => True

/-- The invariant: the map is in order and all pointers of the list agree. -/
structure ListInv (conf : Conf) (buf : Buffer) : Prop where
  ok : MapOk conf buf
  list : ∃ l, buf.map.queue.Forms l ∧ ∀ i j it, buf.Holds ⟨i, j⟩ it → i ∈ l

theorem ListInv.listOk {conf : Conf} {buf : Buffer} (h : ListInv conf buf) : ListOk buf := by
  obtain ⟨l, hforms, hl⟩ := h.list
  exact ⟨l, hforms.lists, hl⟩

/-! ### The reset -/

theorem reinitLoop_walk {l : List ℕ} {m : WalMap} {e o : Option ℕ} (hnd : l.Nodup)
    (hch : ChainTo m.queue.next e o l) (hback : Back m.queue.prev l) :
    ∃ m', (∀ fuel, reinitLoop (fuel + l.length) m o = reinitLoop fuel m' e) ∧
      ∀ i, m'.table i = if i ∈ l then (m.table i).reset else m.table i := by
  induction l generalizing m o with
  | nil =>
    obtain rfl : o = e := hch
    exact ⟨m, fun _ => rfl, fun i => (if_neg List.not_mem_nil).symm⟩
  | cons b l ih =>
    obtain rfl : o = some b := hch.1
    have hnd' := List.nodup_cons.1 hnd
    obtain ⟨hch', hback'⟩ := remove_first hnd hch hback
    obtain ⟨m', hloop, htable⟩ := ih (m := { m with
        table := Function.update m.table b (m.table b).reset, queue := m.queue.remove b })
      hnd'.2 hch' hback'
    refine ⟨m', fun fuel => ?_, fun i => ?_⟩
    · rw [← hloop fuel]
      rfl
    · rw [htable i]
      dsimp only
      by_cases hi : i = b
      · subst hi
        rw [if_neg hnd'.1, if_pos List.mem_cons_self, Function.update_self]
      · rw [Function.update_of_ne hi]
        simp only [List.mem_cons, hi, false_or]

theorem reinitLoop_cycle {fuel : ℕ} {l : List ℕ} {m : WalMap} {e : ℕ} {o : Option ℕ}
    {p : Link ℕ} (hnd : l.Nodup) (hne : l ≠ []) (he : endLink p l = .next e)
    (hch : ChainTo m.queue.next (some e) o l) (hback : Back m.queue.prev l) :
    reinitLoop fuel m o = none := by
  induction fuel generalizing l m o p with
  | zero =>
    cases l with
    | nil => exact absurd rfl hne
    | cons b l =>
      obtain rfl : o = some b := hch.1
      rfl
  | succ fuel ih =>
    cases l with
    | nil => exact absurd rfl hne
    | cons b l =>
      obtain rfl : o = some b := hch.1
      cases l with
      | nil =>
        -- the bucket is its own next one, and stays so
        obtain rfl : b = e := Link.next.inj he
        have hnext : m.queue.next b = some b := hch.2
        exact ih (l := [b]) (p := p) (List.nodup_singleton b) (List.cons_ne_nil b []) rfl
          ⟨hnext, (remove_next_self m.queue b).trans hnext⟩
          ⟨fun _ _ => List.not_mem_nil, trivial⟩
      | cons c l =>
        obtain ⟨hch', hback'⟩ := remove_first hnd hch hback
        exact ih (p := .next b) (List.nodup_cons.1 hnd).2 (List.cons_ne_nil c l) he hch' hback'

theorem reinitLoop_mono {fuel k : ℕ} {m m' : WalMap} {o : Option ℕ}
    (h : reinitLoop fuel m o = some m') : reinitLoop (fuel + k) m o = some m' := by
  induction fuel generalizing m o with
  | zero =>
    cases o with
    | none =>
      cases h
      cases k <;> rfl
    | some b => cases h
  | succ fuel ih =>
    cases o with
    | none =>
      cases h
      cases k <;> rfl
    | some b =>
      rw [Nat.add_right_comm]
      have hstep := ih h
      show reinitLoop (fuel + k + 1) m (some b) = some m'
      exact hstep

theorem reinit_lasso {conf : Conf} {m m' : WalMap} {l : List ℕ} (h : m.queue.Lasso l)
    (hm : reinit conf m = some m') :
    m'.queue.Lasso [] ∧
      ∀ i, m'.table i = if i ∈ l then (m.table i).reset else m.table i := by
  obtain ⟨m₁, hloop, rfl⟩ := Option.map_eq_some_iff.1 hm
  refine ⟨lasso_init m₁.queue, ?_⟩
  rcases h.chain with hch | ⟨e, he, hch⟩
  · obtain ⟨m₂, hwalk, htable⟩ := reinitLoop_walk h.nodup hch h.back
    have hend : reinitLoop (conf.fuel + l.length) m m.queue.first = some m₂ := by
      rw [hwalk]
      cases conf.fuel <;> rfl
    obtain rfl : m₁ = m₂ := Option.some.inj ((reinitLoop_mono hloop).symm.trans hend)
    exact htable
  · have hne : l ≠ [] := by
      rintro rfl
      cases he
    rw [reinitLoop_cycle h.nodup hne he hch h.back] at hloop
    cases hloop

theorem reinit_isSome (conf : Conf) {m : WalMap} {l : List ℕ} (hnd : l.Nodup)
    (hch : ChainTo m.queue.next none m.queue.first l) (hback : Back m.queue.prev l)
    (hfuel : l.length ≤ conf.fuel) : ∃ m', reinit conf m = some m' := by
  obtain ⟨m₂, hwalk, -⟩ := reinitLoop_walk hnd hch hback
  obtain ⟨k, hk⟩ := Nat.exists_eq_add_of_le' hfuel
  refine ⟨{ m₂ with queue := m₂.queue.init }, ?_⟩
  rw [reinit, hk, hwalk]
  cases k <;> rfl

/-- After the reset of a list that holds every bucket with a live item there is none. -/
theorem reinit_forms {conf : Conf} {buf : Buffer} {m : WalMap} {l : List ℕ}
    (h : buf.map.queue.Forms l) (hl : ∀ i j it, buf.Holds ⟨i, j⟩ it → i ∈ l)
    (hm : reinit conf buf.map = some m) :
    m.queue.Forms [] ∧ ∀ ref it, ¬ ({ buf with map := m } : Buffer).Holds ref it := by
  obtain ⟨-, htable⟩ := reinit_lasso h.lasso hm
  refine ⟨?_, ?_⟩
  · obtain ⟨m₁, -, rfl⟩ := Option.map_eq_some_iff.1 hm
    exact forms_init m₁.queue
  · rintro ⟨i, j⟩ it ⟨hit, hlive⟩
    have hit' : (m.table i).entry[j]? = some it := hit
    rw [htable i] at hit'
    split_ifs at hit' with hi
    · exact Bucket.reset_not_live hit' hlive
    · exact hi (hl i j it ⟨hit', hlive⟩)

/-! ### Runs -/

/-- A change that makes no bucket live. -/
theorem ListInv.puts {conf : Conf} {buf buf' : Buffer} {ref : ItemRef} {it' : MapItem}
    (h : ListInv conf buf) (hok : MapOk conf buf') (hputs : Puts buf buf' ref it')
    (hqueue : buf'.map.queue = buf.map.queue) (hold : ∃ j x, buf.Holds ⟨ref.bucket, j⟩ x) :
    ListInv conf buf' := by
  obtain ⟨l, hforms, hl⟩ := h.list
  refine ⟨hok, l, hqueue ▸ hforms, fun i j it hit => ?_⟩
  have hit' := (hputs ⟨i, j⟩ it).1 hit
  split_ifs at hit' with hr
  · obtain ⟨j', x, hx⟩ := hold
    have hi : i = ref.bucket := congrArg ItemRef.bucket hr
    rw [hi]
    exact hl _ _ _ hx
  · exact hl i j it hit'

theorem ListInv.reuse {conf : Conf} {buf buf' : Buffer} {ref : ItemRef} {it' : MapItem}
    (h : ListInv conf buf) (hok : MapOk conf buf') (hputs : Puts buf buf' ref it')
    (hqueue : buf'.map.queue = linked buf.map.queue ref.bucket)
    (htest : buf.map.queue.next ref.bucket = none ↔ ¬ Listed buf.map.queue ref.bucket) :
    ListInv conf buf' := by
  obtain ⟨l, hforms, hl⟩ := h.list
  have hcover : ∀ l' : List ℕ, (∀ i ∈ l, i ∈ l') → ref.bucket ∈ l' →
      ∀ i j it, buf'.Holds ⟨i, j⟩ it → i ∈ l' := by
    intro l' hsub href i j it hit
    have hit' := (hputs ⟨i, j⟩ it).1 hit
    split_ifs at hit' with hr
    · have hi : i = ref.bucket := congrArg ItemRef.bucket hr
      rw [hi]
      exact href
    · exact hsub i (hl i j it hit')
  by_cases hin : ref.bucket ∈ l
  · have hnext : buf.map.queue.next ref.bucket ≠ none := fun h0 =>
      htest.1 h0 ⟨l, hforms.lists, hin⟩
    rw [linked, if_neg hnext] at hqueue
    exact ⟨hok, l, hqueue ▸ hforms, hcover l (fun _ hi => hi) hin⟩
  · have hnext : buf.map.queue.next ref.bucket = none := by
      refine htest.2 ?_
      rintro ⟨l', hl', hmem⟩
      rw [chainTo_unique hl'.2 hforms.lists.2] at hmem
      exact hin hmem
    rw [linked, if_pos hnext] at hqueue
    refine ⟨hok, l ++ [ref.bucket], hqueue ▸ hforms.insertTail hin, hcover _ ?_ ?_⟩
    · exact fun i hi => List.mem_append_left _ hi
    · exact List.mem_append_right _ List.mem_cons_self

theorem lookup_read_same {conf : Conf} {buf buf' : Buffer} {obj : Object} {r : Option ItemRef}
    (h : MapOk conf buf) (hlook : lookup conf buf obj .read = some (buf', r)) : buf' = buf := by
  by_cases hmiss : ∀ ref it, buf.Holds ref it → it.key ≠ obj.key
  · rw [lookup_miss h hmiss (Or.inl rfl)] at hlook
    cases hlook
    rfl
  · push Not at hmiss
    obtain ⟨ref, it, hit, hkey⟩ := hmiss
    rw [lookup_hit h hit hkey] at hlook
    simp only [lookupHit] at hlook
    split_ifs at hlook
    all_goals
      cases hlook
      rfl

theorem mapStep_listInv {conf : Conf} {buf buf' : Buffer} {ev : MapEvent} (h : ListInv conf buf)
    (hlink : LinkOk conf buf ev) (hstep : mapStep conf buf ev = some buf') :
    ListInv conf buf' := by
  cases ev with
  | lookup obj ty =>
    obtain ⟨hdel, htest⟩ := hlink
    simp only [mapStep] at hstep
    obtain ⟨⟨buf₁, r⟩, hlook, rfl⟩ := Option.map_eq_some_iff.1 hstep
    have hwrite : (ty = .writeAppend ∨ ty = .writeInplace) → ListInv conf buf₁ := by
      intro hty
      obtain ⟨buf₂, ref, it', old, hlook', hw⟩ := lookup_write obj h.ok hty
      obtain ⟨rfl, rfl⟩ := Prod.mk.inj (Option.some.inj (hlook.symm.trans hlook'))
      rcases hw.queue with ⟨hqueue, hold⟩ | ⟨hmiss, hne, hqueue⟩
      · exact h.puts hw.ok hw.change.puts hqueue hold
      · refine h.reuse hw.ok hw.change.puts hqueue ?_
        rw [hw.home] at hne ⊢
        exact htest hty hmiss hne
    cases ty with
    | writeAppend => exact hwrite (Or.inl rfl)
    | writeInplace => exact hwrite (Or.inr rfl)
    | read => exact lookup_read_same h.ok hlook ▸ h
    | delete =>
      rcases lookup_delete obj h.ok (hdel rfl) with ⟨hlook', -⟩ | ⟨ref, it, hit, -, -, hlook'⟩
      · obtain ⟨rfl, rfl⟩ := Prod.mk.inj (Option.some.inj (hlook.symm.trans hlook'))
        exact h
      · obtain ⟨rfl, rfl⟩ := Prod.mk.inj (Option.some.inj (hlook.symm.trans hlook'))
        obtain ⟨hok, it', hchange, -⟩ := deletedBuf_spec obj h.ok hit
        exact h.puts hok hchange.puts rfl ⟨ref.index, it, hit⟩
    | invalidate =>
      rcases lookup_invalidate obj h.ok with ⟨hlook', -⟩ | ⟨ref, it, hit, -, hlook'⟩
      · obtain ⟨rfl, rfl⟩ := Prod.mk.inj (Option.some.inj (hlook.symm.trans hlook'))
        exact h
      · obtain ⟨rfl, rfl⟩ := Prod.mk.inj (Option.some.inj (hlook.symm.trans hlook'))
        split_ifs
        · exact h
        · obtain ⟨hok, hchange⟩ := invalidated_spec h.ok hit
          exact h.puts hok hchange.puts rfl ⟨ref.index, it, hit⟩
  | flush ref keyBuff =>
    simp only [mapStep] at hstep
    obtain ⟨it, hit, hstep⟩ := Option.bind_eq_some_iff.1 hstep
    obtain ⟨⟨buf₁, sub, stop⟩, hflush, rfl⟩ := Option.map_eq_some_iff.1 hstep
    rcases flushEntry_cases hflush with ⟨rfl, -⟩ | ⟨hs, -, rfl⟩ | ⟨hs, -, rfl⟩
    · exact h
    · refine h.puts (h.ok.update rfl ((h.ok ref.bucket).replace_same hit (live_of_deleted hs) rfl ?_))
        (puts_replace hit rfl) rfl ⟨ref.index, it, hit, live_of_deleted hs⟩
      rw [MapItem.weight_invalid (fun hl => hl rfl), Nat.cast_zero, add_zero]
    · refine h.puts (h.ok.update rfl ((h.ok ref.bucket).replace_same hit (live_of_valid hs) rfl ?_))
        (puts_replace hit rfl) rfl ⟨ref.index, it, hit, live_of_valid hs⟩
      rw [MapItem.weight_live (live_of_flushing rfl), Nat.cast_one, sub_add_cancel]
  | complete ref =>
    simp only [mapStep] at hstep
    obtain ⟨it, hit, hstep⟩ := Option.bind_eq_some_iff.1 hstep
    obtain ⟨hs, rfl⟩ := completeEntry_cases hstep
    refine h.puts (h.ok.update rfl ((h.ok ref.bucket).replace_same hit (live_of_flushing hs) rfl ?_))
      (puts_replace hit rfl) rfl ⟨ref.index, it, hit, live_of_flushing hs⟩
    rw [MapItem.weight_live (live_of_flushed rfl), Nat.cast_one, sub_add_cancel]
  | reinit =>
    simp only [mapStep] at hstep
    obtain ⟨m, hm, rfl⟩ := Option.map_eq_some_iff.1 hstep
    obtain ⟨l, hforms, hl⟩ := h.list
    obtain ⟨hnil, hnone⟩ := reinit_forms hforms hl hm
    exact ⟨(reinit_spec h.ok hm).1, [], hnil, fun i j it hit => absurd hit (hnone ⟨i, j⟩ it)⟩

theorem listInv_create {conf : Conf} {buf : Buffer} (h : buf.map = mapCreate) :
    ListInv conf buf := by
  refine ⟨(mapInv_create h).ok, [], ?_, ?_⟩
  · rw [h]
    exact ⟨⟨List.nodup_nil, rfl⟩, rfl, trivial⟩
  · rintro i j it ⟨hit, hlive⟩
    simp only [Buffer.item?, h, mapCreate] at hit
    have hmem := List.mem_of_getElem? hit
    simp only [List.mem_cons, List.not_mem_nil, or_false, or_self] at hmem
    exact absurd (by rw [hmem]; rfl) hlive

/-- **The list of the flusher stays well formed** in every run whose insertions find the test right.
A reset with enough rounds then ends and leaves no live item. -/
theorem listOk_of_run (conf : Conf) (buf₀ buf : Buffer) (evs : List MapEvent)
    (hcreate : buf₀.map = mapCreate) (hlink : Run.Admissible (mapStep conf) (LinkOk conf) buf₀ evs)
    (hrun : Run.run (mapStep conf) buf₀ evs = some buf) :
    ListOk buf ∧
      ∃ n, ∀ fuel, n ≤ fuel → ∃ m, reinit { conf with fuel := fuel } buf.map = some m ∧
        ∀ ref it, ¬ ({ buf with map := m } : Buffer).Holds ref it := by
  have hstep : ∀ s ev s', ListInv conf s → LinkOk conf s ev → mapStep conf s ev = some s' →
      ListInv conf s' := fun _ _ _ => mapStep_listInv
  have hinv : ListInv conf buf := Run.run_inv hstep (listInv_create hcreate) hlink hrun
  refine ⟨hinv.listOk, ?_⟩
  obtain ⟨l, hforms, hl⟩ := hinv.list
  refine ⟨l.length, fun fuel hfuel => ?_⟩
  obtain ⟨m, hm⟩ := reinit_isSome { conf with fuel := fuel } hforms.lists.1 hforms.lists.2
    hforms.lasso.back hfuel
  exact ⟨m, hm, (reinit_forms hforms hl hm).2⟩

theorem linkOk_of_lists {conf : Conf} {buf : Buffer} {obj : Object} {ty : LookupType}
    {l : List ℕ} (hty : ty ≠ .delete) (hl : buf.map.queue.Lists l)
    (h : buf.map.queue.next (conf.bucketIdx obj.key) = none ↔ conf.bucketIdx obj.key ∉ l) :
    LinkOk conf buf (.lookup obj ty) := by
  refine ⟨fun h0 => absurd h0 hty, fun _ _ _ => h.trans (not_congr ⟨?_, ?_⟩)⟩
  · exact fun hmem => ⟨l, hl, hmem⟩
  · rintro ⟨l', hl', hmem⟩
    rwa [chainTo_unique hl.2 hl'.2]

/-- Keys of two buckets, a reset, and the key of the bucket that was the last one again. -/
def linkCalls : List MapEvent :=
  [.lookup ⟨[1], [7], 0⟩ .writeAppend, .lookup ⟨[2], [5], 1⟩ .writeAppend, .reinit,
    .lookup ⟨[2], [6], 3⟩ .writeAppend]

theorem admissible_linkCalls :
    Run.Admissible (mapStep smallConf) (LinkOk smallConf) smallBuffer linkCalls := by
  refine ⟨linkOk_of_lists (l := []) (by decide) ⟨List.nodup_nil, rfl⟩ (by decide), fun s hs => ?_⟩
  obtain rfl := Option.some.inj hs
  refine ⟨linkOk_of_lists (l := [1]) (by decide) ⟨by decide, rfl, rfl⟩ (by decide), fun s hs => ?_⟩
  obtain rfl := Option.some.inj hs
  refine ⟨trivial, fun s hs => ?_⟩
  obtain rfl := Option.some.inj hs
  refine ⟨linkOk_of_lists (l := []) (by decide) ⟨List.nodup_nil, rfl⟩ (by decide), fun s hs => ?_⟩
  exact trivial

theorem listOk_linkCalls :
    ∃ buf, Run.run (mapStep smallConf) smallBuffer linkCalls = some buf ∧ ListOk buf := by
  have hsome : (Run.run (mapStep smallConf) smallBuffer linkCalls).isSome = true := by decide +kernel
  obtain ⟨buf, hrun⟩ := Option.isSome_iff_exists.1 hsome
  exact ⟨buf, hrun,
    (listOk_of_run smallConf smallBuffer buf linkCalls rfl admissible_linkCalls hrun).1⟩

/-- Two keys of one bucket: the second write finds the bucket at the end of the list and makes it
its own next one. -/
theorem not_listOk_oneBucket :
    ∃ buf, Run.run (mapStep smallConf) smallBuffer
        [.lookup ⟨[1], [7], 0⟩ .writeAppend, .lookup ⟨[3], [5], 1⟩ .writeAppend] = some buf ∧
      ¬ ListOk buf := by
  refine ⟨_, rfl, ?_⟩
  rintro ⟨l, ⟨hnd, hch⟩, hl⟩
  have hmem : 1 ∈ l := hl 1 0 ⟨[1], 1, 4096, .valid⟩ ⟨rfl, by decide⟩
  cases l with
  | nil => exact absurd hmem List.not_mem_nil
  | cons a l =>
    obtain ⟨ha, hch⟩ := hch
    obtain rfl : 1 = a := Option.some.inj ha
    cases l with
    | nil => exact absurd (show some 1 = none from hch) (by decide)
    | cons c l =>
      obtain rfl : 1 = c := Option.some.inj hch.1
      exact (List.nodup_cons.1 hnd).1 List.mem_cons_self

end DssSdk.Wal
