import DssSdk.Wal.Quiet

/-!
# What a read finds

* `BufView`: the keys of a buffer with their values, and the records that hold them;
* `ZoneView`, `visible`: both buffers, and what a read sees of them;
* `lastOp`: the last accepted request of a key;
* `retrieve_of_run`: after every run a read returns the value of the last accepted store, or misses if
  the last request was a deletion or a store that goes through to the device.

A store goes through when the object is too large for the cache or the log buffer is full while the
flusher is busy. The cached item is dropped at once; with a log the request is forwarded when its
record has been written.
-/

namespace DssSdk.Wal

open CellMemory TailQueue

/-! ### The contents of a buffer -/

/-- The cell holds a value. -/
def Cell.Carries (v : Bytes) : Cell → Prop
  | .record r => r.val = v
  | .value w => w = v
  | .dumpHdr _ => False

theorem Cell.carries_setState {v : Bytes} {c : Cell} (s : ItemStatus) (h : c.Carries v) :
    (c.setState s).Carries v := by
  cases c with
  | record r => exact h
  | value w => exact h
  | dumpHdr reqs => exact h

/-- The item has the value: a cell that is behind all writes to come. -/
structure Content (conf : Conf) (buf : Buffer) (it : MapItem) (v : Bytes) : Prop where
  size : it.valSize = v.length
  cell : ∃ n c, buf.mem it.addr = some (n, c) ∧ c.Carries v ∧ 0 < n ∧ it.addr + n ≤ buf.currPos ∧
    (conf.logEnabled = false → n = v.length)

/-- The places of a buffer without a log: no two items share a byte, used or not. -/
structure Regions (buf : Buffer) : Prop where
  disjoint : ∀ r r' it it', buf.item? r = some it → buf.item? r' = some it' → r ≠ r' →
    Disjoint it.addr it.valSize it'.addr it'.valSize
  below : ∀ r it, buf.item? r = some it → it.addr + it.valSize ≤ buf.currPos

/-- What a buffer says of a key: nothing, that it is deleted, or its value. -/
abbrev View := Bytes → Option (Option Bytes)

/-- The view of a buffer. -/
structure BufView (conf : Conf) (buf : Buffer) (f : View) : Prop where
  items : ∀ ref it, buf.Holds ref it →
    it.status = .deleted ∧ f it.key = some none ∨
      it.status = .valid ∧ ∃ v, f it.key = some (some v) ∧ v ≠ [] ∧ Content conf buf it v
  covers : ∀ k x, f k = some x → ∃ ref it, buf.Holds ref it ∧ it.key = k
  regions : conf.logEnabled = false → Regions buf

theorem BufView.of_map {conf : Conf} {buf buf' : Buffer} {f : View} (h : BufView conf buf f)
    (htable : buf'.map.table = buf.map.table) (hpos : buf.currPos ≤ buf'.currPos)
    (hmem : ∀ a n c v, buf.mem a = some (n, c) → c.Carries v → 0 < n → a + n ≤ buf.currPos →
      ∃ c', buf'.mem a = some (n, c') ∧ c'.Carries v) : BufView conf buf' f := by
  have hitem : ∀ ref, buf'.item? ref = buf.item? ref := by
    intro ref
    rw [Buffer.item?, htable]
    rfl
  have hholds : ∀ ref it, buf'.Holds ref it ↔ buf.Holds ref it := by
    intro ref it
    rw [Buffer.Holds, hitem]
    rfl
  refine ⟨fun ref it hit => ?_, fun k x hk => ?_, fun hlog => ?_⟩
  · rcases h.items ref it ((hholds ref it).1 hit) with hd | ⟨hs, v, hv, hne, hc⟩
    · exact Or.inl hd
    · obtain ⟨n, c, hcell, hcv, hn, hbelow, hlen⟩ := hc.cell
      obtain ⟨c', hcell', hcv'⟩ := hmem it.addr n c v hcell hcv hn hbelow
      exact Or.inr ⟨hs, v, hv, hne, hc.size, n, c', hcell', hcv', hn, hbelow.trans hpos, hlen⟩
  · obtain ⟨ref, it, hit, hkey⟩ := h.covers k x hk
    exact ⟨ref, it, (hholds ref it).2 hit, hkey⟩
  · have hr := h.regions hlog
    refine ⟨fun r r' it it' hr1 hr2 => ?_, fun r it hr1 => ?_⟩
    · rw [hitem] at hr1 hr2
      exact hr.disjoint r r' it it' hr1 hr2
    · rw [hitem] at hr1
      exact (hr.below r it hr1).trans hpos

theorem BufView.unused {conf : Conf} {buf : Buffer} (h : buf.map.table = mapCreate.table) :
    BufView conf buf fun _ => none := by
  have hitem : ∀ ref it, buf.item? ref = some it → it = allocateItem := by
    intro ref it hit
    rw [Buffer.item?, h] at hit
    have hmem := List.mem_of_getElem? hit
    simpa only [mapCreate, List.mem_cons, List.not_mem_nil, or_false, or_self] using hmem
  refine ⟨fun ref it hit => absurd hit (not_holds_of_fresh h ref it), fun k x hk => (by cases hk),
    fun _ => ⟨fun r r' it it' h1 h2 _ => ?_, fun r it h1 => ?_⟩⟩
  · rw [hitem r it h1, hitem r' it' h2]
    exact Or.inl le_rfl
  · rw [hitem r it h1]
    exact Nat.zero_le _

theorem BufView.append {conf : Conf} {buf buf' : Buffer} {f : View} (h : BufView conf buf f)
    {n : ℕ} {x : Cell} (htable : buf'.map.table = buf.map.table)
    (hpos : buf.currPos ≤ buf'.currPos) (hmem : buf'.mem = write buf.mem buf.currPos n x) :
    BufView conf buf' f := by
  refine h.of_map htable hpos fun a k c v hcell hcv hk hbelow => ⟨c, ?_, hcv⟩
  rw [hmem]
  exact write_of_disjoint hcell (Or.inl hbelow) (by omega)

theorem BufView.setHdr {conf : Conf} {buf buf' : Buffer} {f : View} (h : BufView conf buf f)
    {addr : ℕ} {m : ℕ} {reqs reqs' : List ℕ} (htable : buf'.map.table = buf.map.table)
    (hpos : buf'.currPos = buf.currPos) (haddr : buf.mem addr = some (m, .dumpHdr reqs))
    (hmem : buf'.mem = modify buf.mem addr fun _ => .dumpHdr reqs') : BufView conf buf' f := by
  refine h.of_map htable hpos.ge fun a k c v hcell hcv _ _ => ⟨c, ?_, hcv⟩
  have hne : a ≠ addr := by
    rintro rfl
    obtain ⟨-, rfl⟩ := Prod.mk.inj (Option.some.inj (hcell.symm.trans haddr))
    exact hcv
  rw [hmem, modify_of_ne hne, hcell]

/-! ### The lookups on a view -/

theorem Change.item_of_ne {buf buf' : Buffer} {ref r : ItemRef} {it' : MapItem}
    {old : Option MapItem} (h : Change buf buf' ref it' old) (hne : r ≠ ref) :
    buf'.item? r = buf.item? r := by
  obtain ⟨i, j⟩ := r
  obtain ⟨i', j'⟩ := ref
  have hsplit : i ≠ i' ∨ i = i' ∧ j ≠ j' := by
    by_cases hi : i = i'
    · exact Or.inr ⟨hi, fun hj => hne (by rw [hi, hj])⟩
    · exact Or.inl hi
  cases h with
  | replace hit htable =>
    rw [Buffer.item?, htable, Buffer.item?]
    rcases hsplit with hi | ⟨rfl, hj⟩
    · rw [Function.update_of_ne hi]
    · rw [Function.update_self]
      exact List.getElem?_set_ne (Ne.symm hj)
  | append href htable =>
    rw [Buffer.item?, htable, Buffer.item?]
    rcases hsplit with hi | ⟨rfl, hj⟩
    · rw [Function.update_of_ne hi]
    · rw [Function.update_self]
      show ((buf.map.table i).entry ++ [it'])[j]? = (buf.map.table i).entry[j]?
      have hlen : j ≠ (buf.map.table i).entry.length := fun h0 => hj (h0.trans href.symm)
      by_cases hlt : j < (buf.map.table i).entry.length
      · exact List.getElem?_append_left hlt
      · rw [List.getElem?_eq_none (by rw [List.length_append, List.length_singleton]; omega),
          List.getElem?_eq_none (by omega)]

/-- The item of a key changes. -/
theorem BufView.put {conf : Conf} {buf buf' : Buffer} {f : View} {ref : ItemRef} {it' : MapItem}
    {old : Option MapItem} {y : Option (Option Bytes)} (h : BufView conf buf f)
    (hch : Change buf buf' ref it' old) (hold : ∀ x, buf.Holds ref x → x.key = it'.key)
    (honly : ∀ r x, buf.Holds r x → x.key = it'.key → r = ref)
    (hmem : ∀ r x v, r ≠ ref → buf.Holds r x → Content conf buf x v → Content conf buf' x v)
    (hnew : it'.Live → it'.status = .deleted ∧ y = some none ∨
      it'.status = .valid ∧ ∃ v, y = some (some v) ∧ v ≠ [] ∧ Content conf buf' it' v)
    (hdead : ¬ it'.Live → y = none) (hregions : conf.logEnabled = false → Regions buf') :
    BufView conf buf' (Function.update f it'.key y) := by
  have hputs := hch.puts
  refine ⟨fun r x hx => ?_, fun k z hk => ?_, hregions⟩
  · have hx' := (hputs r x).1 hx
    split_ifs at hx' with hr
    · obtain ⟨rfl, hlive⟩ := hx'
      rw [Function.update_self]
      exact hnew hlive
    · have hkey : x.key ≠ it'.key := fun h0 => hr (honly r x hx' h0)
      rw [Function.update_of_ne hkey]
      rcases h.items r x hx' with hd | ⟨hs, v, hv, hne, hc⟩
      · exact Or.inl hd
      · exact Or.inr ⟨hs, v, hv, hne, hmem r x v hr hx' hc⟩
  · by_cases hkey : k = it'.key
    · subst hkey
      rw [Function.update_self] at hk
      have hlive : it'.Live := by
        by_contra h0
        rw [hdead h0] at hk
        cases hk
      exact ⟨ref, it', (hputs ref it').2 (by rw [if_pos rfl]; exact ⟨rfl, hlive⟩), rfl⟩
    · rw [Function.update_of_ne hkey] at hk
      obtain ⟨r, x, hx, rfl⟩ := h.covers k z hk
      have hr : r ≠ ref := by
        rintro rfl
        exact hkey (hold x hx)
      exact ⟨r, x, (hputs r x).2 (by rw [if_neg hr]; exact hx), rfl⟩

theorem le_blocks (n : ℕ) : n ≤ blocks n * walAlign := by
  rw [blocks, walAlign]
  omega

theorem blocks_pos {n : ℕ} (h : 0 < n) : 0 < blocks n := by
  rw [blocks, walAlign]
  omega

theorem cacheInsertObject_place (conf : Conf) (buf : Buffer) (obj : Object) (it : MapItem)
    {t : InsertType} (ht : t ≠ .overwriteDelete) (hval : obj.val ≠ []) :
    ∃ n c, c.Carries obj.val ∧ 0 < n ∧ (conf.logEnabled = false → n = obj.val.length) ∧
      ((cacheInsertObject conf buf obj it t).1.mem = write buf.mem buf.currPos n c ∧
          (cacheInsertObject conf buf obj it t).2.addr = buf.currPos ∧
          buf.currPos + n ≤ (cacheInsertObject conf buf obj it t).1.currPos ∨
        conf.logEnabled = false ∧ obj.val.length < it.valSize ∧
          (cacheInsertObject conf buf obj it t).1.mem = write buf.mem it.addr n c ∧
          (cacheInsertObject conf buf obj it t).2.addr = it.addr ∧
          (cacheInsertObject conf buf obj it t).1.currPos = buf.currPos) := by
  have hdel : (t == InsertType.overwriteDelete) = false := by simpa using ht
  have hlen : 0 < obj.val.length := List.length_pos_of_ne_nil hval
  cases hlog : conf.logEnabled with
  | true =>
    refine ⟨(prepareObjectRecord obj false).szBlk * walAlign, .record (prepareObjectRecord obj false),
      ?_, ?_, (fun h0 => by cases h0), Or.inl ?_⟩
    · rfl
    · have hblk : 0 < (prepareObjectRecord obj false).szBlk :=
        blocks_pos (by simp only [objHdrSz]; omega)
      exact Nat.mul_pos hblk (by decide)
    · simp only [cacheInsertObject, hlog, hdel, Bool.not_true, Bool.false_and, Bool.false_eq_true,
        if_false, if_true]
      exact ⟨trivial, trivial, le_rfl⟩
  | false =>
    refine ⟨obj.val.length, .value obj.val, rfl, hlen, fun _ => rfl, ?_⟩
    by_cases hin : obj.val.length < it.valSize
    · refine Or.inr ⟨rfl, hin, ?_⟩
      simp only [cacheInsertObject, hlog, Bool.not_false, Bool.true_and, decide_eq_true hin, if_true,
        Bool.false_eq_true, if_false]
      exact ⟨trivial, trivial, trivial⟩
    · refine Or.inl ?_
      simp only [cacheInsertObject, hlog, Bool.not_false, Bool.true_and, decide_eq_false hin,
        Bool.false_eq_true, if_false]
      exact ⟨trivial, trivial, Nat.add_le_add_left (le_blocks _) _⟩

theorem Content.append {conf : Conf} {buf buf' : Buffer} {it : MapItem} {v : Bytes} {n : ℕ}
    {c : Cell} (h : Content conf buf it v) (hmem : buf'.mem = write buf.mem buf.currPos n c)
    (hpos : buf.currPos ≤ buf'.currPos) : Content conf buf' it v := by
  obtain ⟨k, d, hcell, hcv, hk, hbelow, hlen⟩ := h.cell
  refine ⟨h.size, k, d, ?_, hcv, hk, hbelow.trans hpos, hlen⟩
  rw [hmem]
  exact write_of_disjoint hcell (Or.inl hbelow) (by omega)

theorem Content.inPlace {conf : Conf} {buf buf' : Buffer} {it old : MapItem} {v : Bytes} {n : ℕ}
    {c : Cell} (h : Content conf buf it v) (hlog : conf.logEnabled = false)
    (hdisj : Disjoint it.addr it.valSize old.addr old.valSize) (hn : n < old.valSize)
    (hmem : buf'.mem = write buf.mem old.addr n c) (hpos : buf'.currPos = buf.currPos) :
    Content conf buf' it v := by
  obtain ⟨k, d, hcell, hcv, hk, hbelow, hlen⟩ := h.cell
  have hsize : it.valSize = k := h.size.trans (hlen hlog).symm
  have hdisj' : it.addr + k ≤ old.addr ∨ old.addr + old.valSize ≤ it.addr := hsize ▸ hdisj
  refine ⟨h.size, k, d, ?_, hcv, hk, by rw [hpos]; exact hbelow, hlen⟩
  rw [hmem]
  refine write_of_disjoint hcell ?_ ?_
  · rcases hdisj' with h0 | h0
    · exact Or.inl h0
    · exact Or.inr (by omega)
  · rcases hdisj' with h0 | h0
    · omega
    · omega

/-- The places after a change of one item. -/
theorem Regions.put {buf buf' : Buffer} {ref : ItemRef} {it' : MapItem} {old : Option MapItem}
    (h : Regions buf) (hch : Change buf buf' ref it' old) (hitem : buf'.item? ref = some it')
    (hpos : buf.currPos ≤ buf'.currPos) (hbelow : it'.addr + it'.valSize ≤ buf'.currPos)
    (hdisj : ∀ r x, r ≠ ref → buf.item? r = some x →
      Disjoint x.addr x.valSize it'.addr it'.valSize) : Regions buf' := by
  refine ⟨fun r r' x x' hx hx' hne => ?_, fun r x hx => ?_⟩
  · by_cases hr : r = ref
    · subst hr
      obtain rfl : it' = x := Option.some.inj (hitem.symm.trans hx)
      rw [hch.item_of_ne (Ne.symm hne)] at hx'
      exact (hdisj r' x' (Ne.symm hne) hx').symm
    · rw [hch.item_of_ne hr] at hx
      by_cases hr' : r' = ref
      · subst hr'
        obtain rfl : it' = x' := Option.some.inj (hitem.symm.trans hx')
        exact hdisj r x hr hx
      · rw [hch.item_of_ne hr'] at hx'
        exact h.disjoint r r' x x' hx hx' hne
  · by_cases hr : r = ref
    · subst hr
      obtain rfl : it' = x := Option.some.inj (hitem.symm.trans hx)
      exact hbelow
    · rw [hch.item_of_ne hr] at hx
      exact (h.below r x hx).trans hpos

/-- A store. -/
theorem BufView.write {conf : Conf} {buf buf' : Buffer} {f : View} {obj : Object}
    {r : Option ItemRef} (h : BufView conf buf f) (hok : MapOk conf buf) (hval : obj.val ≠ [])
    (hl : lookup conf buf obj (if conf.logEnabled then .writeAppend else .writeInplace) =
      some (buf', r)) :
    BufView conf buf' (Function.update f obj.key (some (some obj.val))) := by
  have hty : (if conf.logEnabled then LookupType.writeAppend else .writeInplace) = .writeAppend ∨
      (if conf.logEnabled then LookupType.writeAppend else .writeInplace) = .writeInplace := by
    split_ifs
    · exact Or.inl rfl
    · exact Or.inr rfl
  obtain ⟨buf₁, ref, it', old, hl', hw⟩ := lookup_write obj hok hty
  obtain ⟨rfl, rfl⟩ := Prod.mk.inj (Option.some.inj (hl.symm.trans hl'))
  have hlive : it'.Live := live_of_valid hw.status
  have hkey := hw.key
  have hputs := hw.change.puts
  have honly : ∀ r x, buf.Holds r x → x.key = it'.key → r = ref := by
    intro r x hx hxk
    by_contra hr
    have hx' := (hputs r x).2 (by rw [if_neg hr]; exact hx)
    exact hr (hputs.only hw.ok hlive hx' hxk).1
  have hold : ∀ x, buf.Holds ref x → x.key = it'.key := fun x hx =>
    (hw.old_key x (hw.change.old hx) hx.2).trans hkey.symm
  have hitem := hw.change.item hlive
  obtain ⟨start, t, ht, hmem, hpos, haddr, hsaddr, hssize⟩ := hw.content
  obtain ⟨n, c, hcv, hn, hlen, hplace⟩ := cacheInsertObject_place conf buf obj start ht hval
  rw [← hkey]
  rcases hplace with ⟨hmem', haddr', hpos'⟩ | ⟨hlog, hsmall, hmem', haddr', hpos'⟩
  · rw [← hmem] at hmem'
    rw [← haddr] at haddr'
    rw [← hpos] at hpos'
    have hle : buf.currPos ≤ buf'.currPos := by omega
    refine h.put hw.change hold honly (fun r x v _ _ hc => hc.append hmem' hle) (fun _ => ?_)
      (fun h0 => absurd hlive h0) (fun hlog => ?_)
    · refine Or.inr ⟨hw.status, obj.val, rfl, hval, hw.size, n, c, ?_, hcv, hn, ?_, hlen⟩
      · rw [haddr', hmem', write_self]
      · rw [haddr']
        exact hpos'
    · have hn' := hlen hlog
      refine (h.regions hlog).put hw.change hitem hle ?_ fun r x _ hx => Or.inl ?_
      · rw [haddr', hw.size]
        omega
      · rw [haddr']
        exact (h.regions hlog).below r x hx
  · rw [← hmem] at hmem'
    rw [← haddr] at haddr'
    rw [← hpos] at hpos'
    have hreg := h.regions hlog
    have hn' := hlen hlog
    -- there is an old item, for its value is larger
    obtain ⟨o, rfl⟩ : ∃ o, old = some o := by
      cases old with
      | none =>
        rw [hssize] at hsmall
        exact absurd hsmall (Nat.not_lt_zero _)
      | some o => exact ⟨o, rfl⟩
    have ho : buf.item? ref = some o := by
      have hchange := hw.change
      cases hchange with
      | replace hit htable => exact hit
    rw [hsaddr] at hmem' haddr'
    rw [hssize] at hsmall
    dsimp only [Option.elim_some] at hmem' haddr' hsmall
    have hdisj : ∀ r x, r ≠ ref → buf.item? r = some x →
        Disjoint x.addr x.valSize o.addr o.valSize := fun r x hr hx =>
      hreg.disjoint r ref x o hx ho hr
    have hbelow := hreg.below ref o ho
    refine h.put hw.change hold honly (fun r x v hr hx hc => ?_) (fun _ => ?_)
      (fun h0 => absurd hlive h0) (fun _ => ?_)
    · exact hc.inPlace hlog (hdisj r x hr hx.1) (by omega) hmem' hpos'
    · refine Or.inr ⟨hw.status, obj.val, rfl, hval, hw.size, n, c, ?_, hcv, hn, ?_, hlen⟩
      · rw [haddr', hmem', write_self]
      · rw [haddr', hpos']
        omega
    · refine hreg.put hw.change hitem hpos'.ge ?_ fun r x hr hx => ?_
      · rw [haddr', hw.size, hpos']
        omega
      · rw [haddr', hw.size]
        rcases hdisj r x hr hx with h0 | h0
        · exact Or.inl h0
        · exact Or.inr (by omega)

theorem Content.setState {conf : Conf} {buf buf' : Buffer} {it : MapItem} {v : Bytes} {addr : ℕ}
    {s : ItemStatus} (h : Content conf buf it v)
    (hmem : buf'.mem = modify buf.mem addr (Cell.setState s))
    (hpos : buf.currPos ≤ buf'.currPos) : Content conf buf' it v := by
  obtain ⟨k, d, hcell, hcv, hk, hbelow, hlen⟩ := h.cell
  by_cases haddr : it.addr = addr
  · refine ⟨h.size, k, d.setState s, ?_, Cell.carries_setState s hcv, hk, hbelow.trans hpos, hlen⟩
    rw [hmem, ← haddr, modify_self, hcell]
    rfl
  · refine ⟨h.size, k, d, ?_, hcv, hk, hbelow.trans hpos, hlen⟩
    rw [hmem, modify_of_ne haddr, hcell]

theorem Content.invalidMem {conf : Conf} {buf buf' : Buffer} {it x : MapItem} {v : Bytes}
    (h : Content conf buf x v) (hmem : buf'.mem = invalidMem conf buf it)
    (hpos : buf'.currPos = buf.currPos) : Content conf buf' x v := by
  rw [Wal.invalidMem] at hmem
  split_ifs at hmem with hlog
  · exact h.setState hmem hpos.ge
  · obtain ⟨k, d, hcell, hcv, hk, hbelow, hlen⟩ := h.cell
    exact ⟨h.size, k, d, by rw [hmem]; exact hcell, hcv, hk, by rw [hpos]; exact hbelow, hlen⟩

theorem BufView.invalidate {conf : Conf} {buf buf' : Buffer} {f : View} {obj : Object}
    {r : Option ItemRef} (h : BufView conf buf f) (hb : BufInv conf true buf)
    (hl : lookup conf buf obj .invalidate = some (buf', r)) :
    BufView conf buf' (Function.update f obj.key none) := by
  rcases hb.invalidate_cases hl with ⟨-, rfl, hmiss⟩ | ⟨ref, it, -, hit, hkey, rfl⟩
  · have hnone : f obj.key = none := by
      cases hf : f obj.key with
      | none => rfl
      | some x =>
        obtain ⟨ref, it, hit, hk⟩ := h.covers obj.key x hf
        exact absurd hk (hmiss ref it hit)
    rw [← hnone, Function.update_eq_self]
    exact h
  · obtain ⟨hok, hch⟩ := invalidated_spec hb.ok hit
    have hitem : (invalidated conf buf ref it).item? ref = some { it with status := .invalid } :=
      item_replace hit.1 rfl
    rw [← hkey]
    show BufView conf (invalidated conf buf ref it)
      (Function.update f ({ it with status := .invalid } : MapItem).key none)
    refine h.put hch (fun x hx => ?_) (fun r x hx hxk => ?_) (fun r x v _ _ hc => ?_)
      (fun hl => absurd rfl hl) (fun _ => rfl) (fun hlog => ?_)
    · obtain rfl : it = x := Option.some.inj (hit.1.symm.trans hx.1)
      rfl
    · exact (hb.ok.unique hx hit hxk).1
    · exact hc.invalidMem rfl rfl
    · refine (h.regions hlog).put hch hitem le_rfl ((h.regions hlog).below ref it hit.1)
        fun r x hr hx => (h.regions hlog).disjoint r ref x it hx hit.1 hr

/-- A deletion. -/
theorem BufView.delete {conf : Conf} {buf buf' : Buffer} {f : View} {obj : Object}
    {r : Option ItemRef} (h : BufView conf buf f) (hb : BufInv conf true buf)
    (hlog : conf.logEnabled = true) (hl : lookup conf buf obj .delete = some (buf', r)) :
    ∃ f', BufView conf buf' f' ∧ (∀ k, k ≠ obj.key → f' k = f k) ∧
      ∀ v, f' obj.key ≠ some (some v) := by
  rcases hb.delete_cases hlog hl with ⟨-, rfl, hall⟩ | ⟨ref, it, -, hit, hkey, hs, rfl⟩
  · refine ⟨f, h, fun _ _ => rfl, fun v hv => ?_⟩
    obtain ⟨ref, it, hit, hk⟩ := h.covers _ _ hv
    have hd := hall ref it hit hk
    rcases h.items ref it hit with ⟨-, hf⟩ | ⟨hs, -⟩
    · rw [hk, hv] at hf
      cases hf
    · exact absurd (hs.symm.trans hd) (by decide)
  · obtain ⟨hok, it', hch, hkey', hs'⟩ := deletedBuf_spec obj hb.ok hit
    refine ⟨Function.update f it'.key (some none), ?_, fun k hk => ?_, fun v hv => ?_⟩
    · refine h.put hch (fun x hx => ?_) (fun r x hx hxk => ?_) (fun r x v _ _ hc => ?_)
        (fun _ => Or.inl ⟨hs', rfl⟩) (fun hl => absurd (live_of_deleted hs') hl)
        (fun h0 => absurd (hlog.symm.trans h0) (by decide))
      · rw [hkey', Option.some.inj (hit.1.symm.trans hx.1)]
      · exact (hb.ok.unique hx hit (hxk.trans hkey')).1
      · -- the record is marked, and the deletion is written behind it
        have hbase : Content conf (deleteBase conf buf it) x v := by
          rw [deleteBase, if_neg (by rw [hs]; decide)]
          exact hc.invalidMem rfl rfl
        refine hbase.append (n := (prepareObjectRecord obj true).szBlk * walAlign)
          (c := .record (prepareObjectRecord obj true)) ?_ ?_
        · simp only [deletedBuf, cacheInsertObject, hlog, Buffer.withBucket, Bool.not_true,
            Bool.false_and, Bool.false_eq_true, if_false, if_true]
          rfl
        · simp only [deletedBuf, cacheInsertObject, hlog, Buffer.withBucket, Bool.not_true,
            Bool.false_and, Bool.false_eq_true, if_false, if_true]
          exact Nat.le_add_right _ _
    · rw [hkey', hkey]
      exact Function.update_of_ne hk _ _
    · rw [hkey', hkey, Function.update_self] at hv
      cases hv

/-- A read with a buffer that is not empty. -/
theorem BufView.read {conf : Conf} {buf : Buffer} {f : View} {obj : Object}
    (h : BufView conf buf f) (hok : MapOk conf buf) (hval : obj.val ≠ []) :
    ∃ r, lookup conf buf obj .read = some (buf, r) ∧
      (∀ v, f obj.key = some (some v) → ∃ ref it, r = some ref ∧ buf.item? ref = some it ∧
        it.valSize = v.length ∧ (mapRead buf it obj.val.length).1 = v.take obj.val.length) ∧
      ((∀ v, f obj.key ≠ some (some v)) → r = none) := by
  have hsized : Sized buf := by
    intro ref it hit hd
    rcases h.items ref it hit with ⟨hs, -⟩ | ⟨-, v, -, hne, hc⟩
    · exact absurd hs hd
    · rw [hc.size]
      exact fun h0 => hne (List.length_eq_zero_iff.1 h0)
  obtain ⟨r, hl, hr⟩ := lookup_read hok hsized hval
  refine ⟨r, hl, fun v hv => ?_, fun hno => ?_⟩
  · obtain ⟨ref, it, hit, hk⟩ := h.covers _ _ hv
    rcases h.items ref it hit with ⟨-, hf⟩ | ⟨hs, w, hw, -, hc⟩
    · rw [hk, hv] at hf
      cases hf
    · rw [hk, hv] at hw
      obtain rfl : v = w := Option.some.inj (Option.some.inj hw)
      refine ⟨ref, it, (hr ref).2 ⟨it, hit, hk, by rw [hs]; decide⟩, hit.1, hc.size, ?_⟩
      obtain ⟨n, c, hcell, hcv, -⟩ := hc.cell
      have htake : v.take (min v.length obj.val.length) = v.take obj.val.length := by
        rw [Nat.min_comm]
        exact List.take_eq_take_min.symm
      cases c with
      | record rec =>
        have hrec : rec.val = v := hcv
        simp only [mapRead, hcell, hrec, hc.size, htake]
      | value w =>
        have hw' : w = v := hcv
        simp only [mapRead, hcell, hw', hc.size, htake]
      | dumpHdr reqs => exact absurd hcv id
  · cases hres : r with
    | none => rfl
    | some ref =>
      obtain ⟨it, hit, hk, hd⟩ := (hr ref).1 hres
      rcases h.items ref it hit with ⟨hs, -⟩ | ⟨-, v, hv, -⟩
      · exact absurd hs hd
      · exact absurd (hk ▸ hv) (hno v)

/-! ### Both buffers -/

/-- What a read sees of the log buffer and the flush buffer. -/
def visible (f g : View) (k : Bytes) : Option Bytes :=
  match f k with
  | some x => x
  | none => (g k).join

/-- The views of a zone. A deletion in the log buffer has no value behind it. -/
structure ZoneView (conf : ZoneConf) (z : Zone) (f g : View) : Prop where
  log : BufView conf.toConf z.log f
  flush : BufView conf.toConf z.flush g
  hides : ∀ k v, f k = some none → g k ≠ some (some v)

/-- A read of the zone. -/
theorem ZoneView.retrieve {conf : ZoneConf} {z : Zone} {f g : View} {obj : Object}
    (h : ZoneView conf z f g) (hq : Quiet conf z) (hval : obj.val ≠ []) :
    handleRetrieve conf z obj =
      some ((visible f g obj.key).map fun v => (v.take obj.val.length, v.length)) := by
  have hself : ∀ id, z.set id (z.cache id) = z := by
    intro id
    rw [Zone.set, Function.update_eq_self]
  have hlogSelf : z.set z.logId z.log = z := hself z.logId
  have hflushSelf : z.set (!z.logId) z.flush = z := hself (!z.logId)
  obtain ⟨r, hl, hfound, hmiss⟩ := h.log.read hq.log.ok hval
  obtain ⟨r', hl', hfound', hmiss'⟩ := h.flush.read hq.flush.ok hval
  by_cases hv : ∃ v, f obj.key = some (some v)
  · obtain ⟨v, hv⟩ := hv
    obtain ⟨ref, it, rfl, hit, hsize, hread⟩ := hfound v hv
    have hret : Wal.retrieve conf z obj = some (z, some (z.logId, ref)) := by
      simp only [Wal.retrieve, hl, Option.bind_some, hlogSelf]
    have hit' : (z.cache z.logId).item? ref = some it := hit
    have hread' : (mapRead (z.cache z.logId) it obj.val.length).1 = v.take obj.val.length := hread
    simp only [handleRetrieve, hret, Option.bind_some, hit', Option.map_some, hread', hsize, visible,
      hv]
  · push Not at hv
    obtain rfl := hmiss hv
    by_cases hw : ∃ v, g obj.key = some (some v)
    · obtain ⟨v, hw⟩ := hw
      have hf : f obj.key = none := by
        cases hf : f obj.key with
        | none => rfl
        | some x =>
          cases x with
          | none => exact absurd hw (h.hides obj.key v hf)
          | some w => exact absurd hf (hv w)
      obtain ⟨ref, it, rfl, hit, hsize, hread⟩ := hfound' v hw
      have hret : Wal.retrieve conf z obj = some (z, some (!z.logId, ref)) := by
        simp only [Wal.retrieve, hl, Option.bind_some, hlogSelf, hl', Option.map_some, hflushSelf]
      have hit' : (z.cache !z.logId).item? ref = some it := hit
      have hread' : (mapRead (z.cache !z.logId) it obj.val.length).1 = v.take obj.val.length := hread
      simp only [handleRetrieve, hret, Option.bind_some, hit', Option.map_some, hread', hsize,
        visible, hf, hw, Option.join_some]
    · push Not at hw
      obtain rfl := hmiss' hw
      have hret : Wal.retrieve conf z obj = some (z, none) := by
        simp only [Wal.retrieve, hl, Option.bind_some, hlogSelf, hl', Option.map_some, hflushSelf,
          Option.map_none]
      have hnone : visible f g obj.key = none := by
        rw [visible]
        cases hf : f obj.key with
        | some x =>
          cases x with
          | none => rfl
          | some w => exact absurd hf (hv w)
        | none =>
          cases hg : g obj.key with
          | none => rfl
          | some x =>
            cases x with
            | none => rfl
            | some w => exact absurd hg (hw w)
      simp only [handleRetrieve, hret, Option.bind_some, hnone, Option.map_none]

theorem headerReqs_eq {z : Zone} {id : Bool} {addr : ℕ} {reqs : List ℕ}
    (h : headerReqs z id addr = some reqs) : ∃ n, (z.cache id).mem addr = some (n, .dumpHdr reqs) := by
  rw [headerReqs] at h
  split at h
  · rename_i n reqs' hmem
    obtain rfl := Option.some.inj h
    exact ⟨n, hmem⟩
  · cases h

theorem ZoneView.clearHdr {conf : ZoneConf} {z : Zone} {f g : View} {id : Bool} {addr : ℕ}
    {reqs : List ℕ} (h : ZoneView conf z f g) (hreqs : headerReqs z id addr = some reqs) :
    ZoneView conf (z.set id
      { z.cache id with mem := modify (z.cache id).mem addr fun _ => .dumpHdr [] }) f g := by
  obtain ⟨n, hmem⟩ := headerReqs_eq hreqs
  by_cases hid : id = z.logId
  · subst hid
    refine ⟨?_, ?_, h.hides⟩
    · rw [set_log_log]
      exact h.log.setHdr rfl rfl hmem rfl
    · rw [set_log_flush]
      exact h.flush
  · obtain rfl := Bool.eq_not_of_ne hid
    refine ⟨?_, ?_, h.hides⟩
    · rw [set_flush_log]
      exact h.log
    · rw [set_flush_flush]
      exact h.flush.setHdr rfl rfl hmem rfl

theorem ZoneView.set_log {conf : ZoneConf} {z : Zone} {f g : View} {buf : Buffer}
    (h : ZoneView conf z f g) (hbuf : BufView conf.toConf buf f) :
    ZoneView conf (z.set z.logId buf) f g := by
  refine ⟨?_, ?_, h.hides⟩
  · rw [set_log_log]
    exact hbuf
  · rw [set_log_flush]
    exact h.flush

theorem ZoneView.batch {conf : ZoneConf} {z : Zone} {f g : View} (h : ZoneView conf z f g) (n : ℕ) :
    ZoneView conf { z with logBatchNrObj := n } f g :=
  ⟨h.log, h.flush, h.hides⟩

theorem BufView.newGroup {conf : Conf} {buf : Buffer} {f : View} (h : BufView conf buf f)
    (id : Bool) : BufView conf (buf.newGroup id) f :=
  h.append rfl (Nat.le_add_right _ _) rfl

theorem BufView.joined {conf : Conf} {buf : Buffer} {f : View} {n : ℕ} {reqs : List ℕ}
    (h : BufView conf buf f) (obj : Object) (forDel : Bool)
    (hmem : buf.mem buf.dumpInfo.dumpAddr = some (n, .dumpHdr reqs)) :
    BufView conf (buf.joined obj forDel reqs) f :=
  h.setHdr rfl rfl hmem rfl

theorem BufView.marked {conf : Conf} {buf : Buffer} {f : View} (h : BufView conf buf f) :
    BufView conf buf.marked f :=
  h.of_map rfl le_rfl fun _ _ c _ hcell hcv _ _ => ⟨c, hcell, hcv⟩

theorem ZoneView.joinGroup {conf : ZoneConf} {z z' : Zone} {obj : Object} {forDel : Bool}
    {old : Option DumpInfo} {ret dump : DumpInfo} {f g : View} (h : ZoneView conf z f g)
    (hj : joinGroup conf z obj forDel old ret = some (z', dump)) : ZoneView conf z' f g := by
  obtain ⟨n, reqs, hmem, ⟨-, rfl, -⟩ | ⟨-, rfl, -⟩⟩ := joinGroup_cases hj
  · have hlog := (h.log.joined obj forDel hmem).marked
    refine (h.set_log ?_).batch _
    split_ifs
    · exact hlog
    · exact hlog.newGroup z.logId
  · exact h.set_log (h.log.joined obj forDel hmem)

theorem reinit_fresh {conf : Conf} {m m' : WalMap} (h : m.table = mapCreate.table)
    (hm : reinit conf m = some m') : m'.table = mapCreate.table := by
  obtain ⟨m₁, hloop, rfl⟩ := Option.map_eq_some_iff.1 hm
  funext i
  show m₁.table i = mapCreate.table i
  rcases reinitLoop_table hloop i with hi | hi
  · rw [hi, h]
  · rw [hi, h]
    rfl

theorem ZoneView.markBatch {conf : ZoneConf} {z : Zone} {f g : View} (h : ZoneView conf z f g) :
    ZoneView conf z.markBatch f g :=
  h.set_log h.log.marked

theorem ZoneView.startFlush {conf : ZoneConf} {z z' : Zone} {f g : View} (h : ZoneView conf z f g)
    (hq : Quiet conf z) (hswitch : z.canSwitch = true) (hstart : startFlush conf z = some z') :
    ZoneView conf z' (fun _ => none) f ∧ visible (fun _ => none) f = visible f g := by
  have hfresh := hq.fresh (Bool.and_eq_true_iff.1 hswitch).1
  obtain ⟨m, hm, hlog, hflush, -⟩ := startFlush_cases hstart
  refine ⟨⟨?_, ?_, fun k v h0 => (by cases h0)⟩, ?_⟩
  · rw [hlog]
    exact BufView.unused (reinit_fresh hfresh hm)
  · rw [hflush]
    exact h.log.of_map rfl le_rfl fun _ _ c _ hcell hcv _ _ => ⟨c, hcell, hcv⟩
  · funext k
    have hg : g k = none := by
      cases hg : g k with
      | none => rfl
      | some x =>
        obtain ⟨ref, it, hit, -⟩ := h.flush.covers k x hg
        exact absurd hit (not_holds_of_fresh hfresh ref it)
    simp only [visible, hg]
    cases f k with
    | none => rfl
    | some x => rfl

/-- Views in which one key has changed. -/
def Shows (f g f' g' : View) (key : Bytes) (val : Option Bytes) : Prop :=
  visible f' g' key = val ∧ ∀ k, k ≠ key → visible f' g' k = visible f g k

theorem Ready.view {conf : ZoneConf} {z z' : Zone} {obj : Object} {forDel : Bool}
    {old : Option DumpInfo} {ret : DumpInfo} {f g : View} (h : Ready conf z obj forDel z' old ret)
    (hq : Quiet conf z) (hv : ZoneView conf z f g) :
    ∃ f' g', ZoneView conf z' f' g' ∧ visible f' g' = visible f g := by
  cases h with
  | room hroom => exact ⟨f, g, hv, rfl⟩
  | switched hfull hswitch hstart =>
    exact ⟨_, f, hv.markBatch.startFlush hq.markBatch hswitch hstart⟩

/-- Both buffers lose the value of the key. -/
theorem ZoneView.looked {conf : ZoneConf} {z : Zone} {obj : Object} {ty : LookupType}
    {log flush : Buffer} {inLog inFlush : Option ItemRef} {f g : View} (h : ZoneView conf z f g)
    (hq : Quiet conf z) (hl : Looked conf z obj ty log flush inLog inFlush)
    (hty : ty = .invalidate ∨ ty = .delete ∧ conf.logEnabled = true) :
    ∃ f' g', ZoneView conf ((z.set z.logId log).set (!z.logId) flush) f' g' ∧
      Shows f g f' g' obj.key none := by
  have hflush := h.flush.invalidate hq.flush hl.flush
  obtain ⟨f', hlog, hother, hnone⟩ : ∃ f', BufView conf.toConf log f' ∧
      (∀ k, k ≠ obj.key → f' k = f k) ∧ ∀ v, f' obj.key ≠ some (some v) := by
    rcases hty with rfl | ⟨rfl, hlogen⟩
    · refine ⟨_, h.log.invalidate hq.log hl.log, fun k hk => Function.update_of_ne hk _ _, ?_⟩
      rw [Function.update_self]
      exact fun v hv => by cases hv
    · exact h.log.delete hq.log hlogen hl.log
  refine ⟨f', Function.update g obj.key none, ⟨?_, ?_, fun k v hf => ?_⟩, ?_, fun k hk => ?_⟩
  · rw [set_both_log]
    exact hlog
  · rw [set_both_flush]
    exact hflush
  · by_cases hk : k = obj.key
    · rw [hk, Function.update_self]
      exact fun h0 => by cases h0
    · rw [Function.update_of_ne hk]
      rw [hother k hk] at hf
      exact h.hides k v hf
  · rw [visible, Function.update_self]
    cases hf : f' obj.key with
    | none => rfl
    | some x =>
      cases x with
      | none => rfl
      | some v => exact absurd hf (hnone v)
  · rw [visible, visible, hother k hk, Function.update_of_ne hk]

/-- A store in the log buffer. -/
theorem ZoneView.stored {conf : ZoneConf} {z : Zone} {obj : Object} {log : Buffer}
    {r : Option ItemRef} {f g : View} (h : ZoneView conf z f g) (hq : Quiet conf z)
    (hval : obj.val ≠ []) (hl : lookup conf.toConf z.log obj conf.writeType = some (log, r)) :
    ∃ f' g', ZoneView conf (z.set z.logId log) f' g' ∧ Shows f g f' g' obj.key (some obj.val) := by
  have hlog := h.log.write hq.log.ok hval hl
  refine ⟨Function.update f obj.key (some (some obj.val)), g, ⟨?_, ?_, fun k v hf => ?_⟩, ?_,
    fun k hk => ?_⟩
  · rw [set_log_log]
    exact hlog
  · rw [set_log_flush]
    exact h.flush
  · by_cases hk : k = obj.key
    · rw [hk, Function.update_self] at hf
      cases hf
    · rw [Function.update_of_ne hk] at hf
      exact h.hides k v hf
  · rw [visible, Function.update_self]
  · rw [visible, visible, Function.update_of_ne hk]

/-- What `wal_zone_insert_object` does to the values: a deletion and a write miss drop the value, a
store that succeeds has it. -/
theorem insertObject_view {conf : ZoneConf} {z : Zone} {obj : Object} {forDel : Bool}
    {out : Inserted} {f g : View} (hq : Quiet conf z) (hv : ZoneView conf z f g)
    (hval : forDel = false → obj.val ≠ [])
    (h : insertObject conf z obj forDel noDump = some out) :
    ∃ f' g', ZoneView conf out.zone f' g' ∧
      ((forDel = true ∨ out.rc = .writeMiss) ∧ Shows f g f' g' obj.key none ∨
        forDel = false ∧ out.rc = .success ∧ Shows f g f' g' obj.key (some obj.val)) := by
  rcases insertObject_cases h with ⟨z₁, old, ret, hready, hins⟩ | ⟨-, -, hbusy⟩
  · have hq₁ := hready.quiet hq
    obtain ⟨f₁, g₁, hv₁, hsame⟩ := hready.view hq hv
    cases forDel with
    | false =>
      obtain ⟨log, ref, hl, hrc, -, hrest⟩ := insertStore_cases hins
      obtain ⟨f', g', hv₂, hshows⟩ := hv₁.stored hq₁ (hval rfl) hl
      rw [Shows, hsame] at hshows
      refine ⟨f', g', ?_, Or.inr ⟨rfl, hrc, hshows⟩⟩
      rcases hrest with ⟨-, hj⟩ | ⟨-, hz, -⟩
      · exact hv₂.joinGroup hj
      · rw [hz]
        exact hv₂
    | true =>
      obtain ⟨hlog, log, flush, inLog, inFlush, hlooked, hrest⟩ := insertDelete_cases hq₁ hins
      obtain ⟨f', g', hv₂, hshows⟩ := hv₁.looked hq₁ hlooked (Or.inr ⟨rfl, hlog⟩)
      rw [Shows, hsame] at hshows
      refine ⟨f', g', ?_, Or.inl ⟨Or.inl rfl, hshows⟩⟩
      rcases hrest with ⟨ref, -, -, -, hj⟩ | ⟨-, hz, -⟩
      · exact hv₂.joinGroup hj
      · rw [hz]
        exact hv₂
  · obtain ⟨log, flush, inLog, inFlush, hlooked, hz, hrc, -⟩ := insertBusy_cases hq.markBatch hbusy
    obtain ⟨f', g', hv₂, hshows⟩ := hv.markBatch.looked hq.markBatch hlooked (Or.inl rfl)
    refine ⟨f', g', ?_, Or.inl ⟨Or.inr hrc, hshows⟩⟩
    rw [hz]
    exact hv₂

/-! ### The handlers -/

/-- The value the cache keeps of a request. -/
def Accepted.cached (conf : ZoneConf) (a : Accepted) : Option Bytes :=
  match a.req.op with
  | .delete => none
  | .store =>
      if conf.objectSizeLimit ≤ a.req.obj.val.length then none
      else if a.rc = .success ∨ a.rc = .logPending ∧ a.writeMiss = false then some a.req.obj.val
      else none

/-- The request is forwarded to the device, at once or when its log record is written. -/
def Accepted.Forwards (conf : ZoneConf) (a : Accepted) : Prop :=
  processAction a.rc = .forwardToIoThread ∨
    a.rc.isPending = true ∧ completeAction conf a = .forwardToIoThread

theorem handleDelete_view {conf : ZoneConf} {s : Service} {obj : Object} {hd : Handled} {f g : View}
    (hq : Quiet conf s.zone) (hv : ZoneView conf s.zone f g)
    (h : handleDelete conf s obj = some hd) :
    (∃ f' g', ZoneView conf hd.service.zone f' g' ∧ Shows f g f' g' obj.key none) ∧
      (processAction hd.rc = .forwardToIoThread ∨ hd.rc = .deletePending) := by
  rcases handleDelete_cases hq h with ⟨-, out, hins, hrest⟩ | ⟨-, hinv, -⟩
  · have hdel : true = false → obj.val ≠ [] := fun h0 => by cases h0
    obtain ⟨f', g', hv', hcase⟩ := insertObject_view hq hv hdel hins
    have hshows : Shows f g f' g' obj.key none := by
      rcases hcase with ⟨-, hshows⟩ | ⟨h0, -⟩
      · exact hshows
      · cases h0
    have hout := (insertObject_quiet hq hins).2
    rcases hrest with ⟨-, hlogged, hrc⟩ | ⟨-, -, hs, hrc⟩
    · rw [(logInsertObject_same hlogged).1]
      refine ⟨⟨f', g', hv', hshows⟩, ?_⟩
      rw [hrc]
      split_ifs
      · exact Or.inl rfl
      · exact Or.inr rfl
    · rw [hs]
      refine ⟨⟨f', g', hv', hshows⟩, Or.inl ?_⟩
      rw [hrc]
      rcases hout with h0 | ⟨-, h0 | h0⟩ | ⟨h0, -⟩
      · rw [h0]
        rfl
      · rw [h0]
        rfl
      · rw [h0]
        rfl
      · cases h0
  · obtain ⟨hrc, log, flush, inLog, inFlush, hlooked, hz⟩ := invalidateBoth_cases hq hinv
    obtain ⟨f', g', hv', hshows⟩ := hv.looked hq hlooked (Or.inl rfl)
    refine ⟨⟨f', g', hz ▸ hv', hshows⟩, Or.inl ?_⟩
    rw [hrc]
    rfl

theorem handle_view {conf : ZoneConf} {s : Service} {req : Request} {hd : Handled} {f g : View}
    (hq : Quiet conf s.zone) (hv : ZoneView conf s.zone f g)
    (hval : req.op = .store → req.obj.val ≠ []) (h : handle conf s req = some hd) :
    (∃ f' g', ZoneView conf hd.service.zone f' g' ∧
        Shows f g f' g' req.obj.key (Accepted.cached conf ⟨req, hd.rc, hd.writeMiss⟩)) ∧
      (Accepted.cached conf ⟨req, hd.rc, hd.writeMiss⟩ = none →
        req.op = .delete ∨ Accepted.Forwards conf ⟨req, hd.rc, hd.writeMiss⟩) := by
  rw [handle] at h
  cases hop : req.op with
  | delete =>
    rw [hop] at h
    have hcached : Accepted.cached conf ⟨req, hd.rc, hd.writeMiss⟩ = none := by
      simp only [Accepted.cached, hop]
    rw [hcached]
    exact ⟨(handleDelete_view hq hv h).1, fun _ => Or.inl rfl⟩
  | store =>
    rw [hop] at h
    by_cases hlarge : conf.objectSizeLimit ≤ req.obj.val.length
    · rw [handleStore, if_pos hlarge] at h
      have hcached : Accepted.cached conf ⟨req, hd.rc, hd.writeMiss⟩ = none := by
        simp only [Accepted.cached, hop, if_pos hlarge]
      rw [hcached]
      obtain ⟨hview, hrc⟩ := handleDelete_view hq hv h
      refine ⟨hview, fun _ => Or.inr ?_⟩
      rcases hrc with hrc | hrc
      · exact Or.inl hrc
      · refine Or.inr ⟨by rw [hrc]; rfl, ?_⟩
        simp only [completeAction, hop, if_pos hlarge, ite_self]
    · obtain ⟨out, hins, hrest⟩ := handleStore_cases hq (not_le.1 hlarge) h
      obtain ⟨f', g', hv', hcase⟩ := insertObject_view hq hv (fun _ => hval hop) hins
      have hzone : hd.service.zone = out.zone := by
        rcases hrest with ⟨-, hs, -⟩ | ⟨-, -, -, hs, -⟩ | ⟨-, -, hlogged, -⟩
        · rw [hs]
        · rw [hs]
        · exact (logInsertObject_same hlogged).1
      rw [hzone]
      rcases hcase with ⟨hmiss, hshows⟩ | ⟨-, hsuccess, hshows⟩
      · -- the store goes through
        have hrc : out.rc = .writeMiss := hmiss.resolve_left fun h0 => by cases h0
        have hthrough : hd.rc = .writeMiss ∨ hd.rc = .logPending ∧ hd.writeMiss = true := by
          rcases hrest with ⟨-, -, hrc', -⟩ | ⟨-, h0, -⟩ | ⟨-, -, -, hrc', hwm⟩
          · exact Or.inl (hrc'.trans hrc)
          · exact absurd (hrc.symm.trans h0) (by decide)
          · refine Or.inr ⟨?_, ?_⟩
            · rw [hrc', if_pos (Or.inr hrc)]
            · rw [hwm, hrc]
              rfl
        have hcached : Accepted.cached conf ⟨req, hd.rc, hd.writeMiss⟩ = none := by
          simp only [Accepted.cached, hop, if_neg hlarge]
          rcases hthrough with h0 | ⟨h0, h1⟩
          · rw [h0, if_neg (by simp)]
          · rw [h0, h1, if_neg (by decide)]
        rw [hcached]
        refine ⟨⟨f', g', hv', hshows⟩, fun _ => Or.inr ?_⟩
        rcases hthrough with h0 | ⟨h0, h1⟩
        · exact Or.inl (by rw [h0]; rfl)
        · exact Or.inr ⟨by rw [h0]; rfl, by simp only [completeAction, h1, if_true]⟩
      · have hkept : hd.rc = .success ∨ hd.rc = .logPending ∧ hd.writeMiss = false := by
          rcases hrest with ⟨-, -, hrc', -⟩ | ⟨-, -, -, -, hrc', hwm⟩ | ⟨-, -, -, hrc', hwm⟩
          · exact Or.inl (hrc'.trans hsuccess)
          · exact Or.inr ⟨hrc', hwm⟩
          · refine Or.inr ⟨?_, ?_⟩
            · rw [hrc', if_pos (Or.inl hsuccess)]
            · rw [hwm, hsuccess]
              rfl
        have hcached : Accepted.cached conf ⟨req, hd.rc, hd.writeMiss⟩ = some req.obj.val := by
          simp only [Accepted.cached, hop, if_neg hlarge]
          rw [if_pos hkept]
        rw [hcached]
        exact ⟨⟨f', g', hv', hshows⟩, fun h0 => by cases h0⟩

/-! ### Runs -/

/-- The last accepted request of a key. -/
def lastOp (accepted : List Accepted) (key : Bytes) : Option Accepted :=
  accepted.find? fun a => a.req.obj.key = key

/-- The invariant: a read sees what the cache keeps of the last accepted request, and what it does
not keep goes to the device. -/
structure ReadInv (conf : ZoneConf) (s : Service) : Prop where
  quiet : QuietService conf s
  view : ∃ f g, ZoneView conf s.zone f g ∧
    ∀ k, visible f g k = (lastOp s.accepted k).bind (Accepted.cached conf)
  forwards : ∀ a ∈ s.accepted, a.cached conf = none → a.req.op = .delete ∨ a.Forwards conf

/-- The stores have a value. -/
def StoresValue : ServiceEvent → Prop
  | .request req => req.op = .store → req.obj.val ≠ []
  | _ => True

theorem serviceStep_read {conf : ZoneConf} {s s' : Service} {ev : ServiceEvent}
    (h : ReadInv conf s) (hval : StoresValue ev) (hstep : serviceStep conf s ev = some s') :
    ReadInv conf s' := by
  have hquiet := serviceStep_quiet h.quiet hstep
  obtain ⟨f, g, hv, hvis⟩ := h.view
  cases ev with
  | request req =>
    obtain ⟨hd, hh, rfl⟩ := serve_cases h.quiet.zone hstep
    obtain ⟨⟨f', g', hv', hshows⟩, hfwd⟩ := handle_view h.quiet.zone hv hval hh
    refine ⟨hquiet, ⟨f', g', hv', fun k => ?_⟩, fun a ha hc => ?_⟩
    · by_cases hk : req.obj.key = k
      · subst hk
        rw [hshows.1, lastOp, List.find?_cons_of_pos (by simp)]
        rfl
      · rw [hshows.2 k (Ne.symm hk), hvis k, lastOp, lastOp, List.find?_cons_of_neg (by simpa using hk)]
    · rcases List.mem_cons.1 ha with rfl | ha
      · exact hfwd hc
      · exact h.forwards a ha hc
  | retrieve obj =>
    obtain ⟨⟨z, found⟩, hr, rfl⟩ := Option.map_eq_some_iff.1 hstep
    obtain rfl := retrieve_same h.quiet.zone.log.ok h.quiet.zone.flush.ok hr
    exact h
  | poll ans =>
    obtain ⟨z, dumps, hp, hd⟩ := pollService_cases h.quiet hstep
    obtain ⟨hzone, -, hacc, -⟩ := dumpObjs_same hd
    have hview : ∃ f' g', ZoneView conf z f' g' ∧ visible f' g' = visible f g := by
      rcases pollZone_cases h.quiet.zone hp with ⟨-, -, hswitch, -, z₁, hstart, rfl | ⟨-, rfl⟩, -⟩ |
        ⟨-, -, -, -, n, -, -, rfl⟩ | ⟨-, rfl | ⟨-, rfl⟩⟩
      · exact ⟨_, f, hv.startFlush h.quiet.zone hswitch hstart⟩
      · obtain ⟨hv', hsame⟩ := hv.startFlush h.quiet.zone hswitch hstart
        exact ⟨_, f, hv'.batch _, hsame⟩
      · exact ⟨f, g, (hv.set_log (hv.log.newGroup _)).batch n, rfl⟩
      · exact ⟨f, g, hv, rfl⟩
      · exact ⟨f, g, hv.batch _, rfl⟩
    obtain ⟨f', g', hv', hsame⟩ := hview
    refine ⟨hquiet, ⟨f', g', ?_, fun k => ?_⟩, ?_⟩
    · rw [hzone]
      exact hv'
    · rw [hsame, hvis k, hacc]
    · rw [hacc]
      exact h.forwards
  | flushComplete n =>
    obtain ⟨z, hf, rfl⟩ := Option.map_eq_some_iff.1 hstep
    rw [flushComplete, h.quiet.zone.inFlight] at hf
    cases hf
    exact h
  | logComplete n =>
    have hlog : Wal.logComplete s n = some s' := hstep
    rw [Wal.logComplete] at hlog
    split at hlog
    · cases hlog
      exact h
    · rename_i id addr hn
      obtain ⟨reqs, hreqs, rfl⟩ := Option.map_eq_some_iff.1 hlog
      exact ⟨hquiet, ⟨f, g, hv.clearHdr hreqs, hvis⟩, h.forwards⟩
    · cases hlog
      exact ⟨hquiet, ⟨f, g, hv, hvis⟩, h.forwards⟩

theorem readInv_create (conf : ZoneConf) (cache log : Layout) :
    ReadInv conf (serviceCreate conf cache log) := by
  have hfresh : ∀ id start stop, (bufferCreate conf.toConf id start stop).map.table =
      mapCreate.table := by
    intro id start stop
    rw [bufferCreate, Buffer.rewind]
    split_ifs <;> rfl
  refine ⟨quietService_create conf cache log, ⟨fun _ => none, fun _ => none, ⟨?_, ?_, ?_⟩, ?_⟩, ?_⟩
  · exact BufView.unused (hfresh false cache.logStart cache.logEnd)
  · exact BufView.unused (hfresh true cache.flushStart cache.flushEnd)
  · exact fun _ _ h0 => by cases h0
  · exact fun _ => rfl
  · exact fun a ha => absurd ha List.not_mem_nil

/-- **Reads see the writes.** After every run of stores of values, deletions, reads, polls, flush
completions and log completions a read with a buffer returns the value of the last accepted request of
its key, if it was a store, or finds nothing; it finds nothing only if there was no request, or the
last one was a deletion or a store that is forwarded to the device, at once or when its log record is
written. -/
theorem retrieve_of_run (conf : ZoneConf) (cache log : Layout) (evs : List ServiceEvent)
    (s : Service) (hvals : ∀ ev ∈ evs, StoresValue ev)
    (hrun : Run.run (serviceStep conf) (serviceCreate conf cache log) evs = some s) (obj : Object)
    (hbuf : obj.val ≠ []) :
    ∃ res, handleRetrieve conf s.zone obj = some res ∧
      match lastOp s.accepted obj.key with
      | none => res = none
      | some a =>
          a.req.op = .store ∧
              res = some (a.req.obj.val.take obj.val.length, a.req.obj.val.length) ∨
            res = none ∧ (a.req.op = .delete ∨ a.Forwards conf) := by
  have hadm : Run.Admissible (serviceStep conf) (fun _ ev => StoresValue ev)
      (serviceCreate conf cache log) evs :=
    (Run.admissible_true _ evs).imp fun _ ev hev _ => hvals ev hev
  have hstep : ∀ s ev s', ReadInv conf s → StoresValue ev → serviceStep conf s ev = some s' →
      ReadInv conf s' := fun _ _ _ => serviceStep_read
  have hinv : ReadInv conf s := Run.run_inv hstep (readInv_create conf cache log) hadm hrun
  obtain ⟨f, g, hv, hvis⟩ := hinv.view
  refine ⟨_, hv.retrieve hinv.quiet.zone hbuf, ?_⟩
  rw [hvis]
  cases hlast : lastOp s.accepted obj.key with
  | none => rfl
  | some a =>
    have hmem : a ∈ s.accepted := List.mem_of_find?_eq_some hlast
    dsimp only
    rw [Option.bind_some]
    cases hc : a.cached conf with
    | none => exact Or.inr ⟨rfl, hinv.forwards a hmem hc⟩
    | some v =>
      refine Or.inl ?_
      rw [Accepted.cached] at hc
      split at hc
      · cases hc
      · rename_i hop
        split_ifs at hc
        cases hc
        exact ⟨hop, rfl⟩

/-- A megabyte for each buffer. -/
def smallLayout : Layout := ⟨1048576, 2096128, 2097152, 3144704⟩

instance (ev : ServiceEvent) : Decidable (StoresValue ev) :=
  match ev with
  | .request req => inferInstanceAs (Decidable (req.op = .store → req.obj.val ≠ []))
  | .retrieve _ => isTrue trivial
  | .poll _ => isTrue trivial
  | .flushComplete _ => isTrue trivial
  | .logComplete _ => isTrue trivial

/-- Two keys are stored, the buffers switch, one key is deleted and the other one stored again. -/
def readCalls : List ServiceEvent :=
  [.request ⟨.store, ⟨[1], [7, 8], 0⟩⟩, .request ⟨.store, ⟨[2], [9], 1⟩⟩, .poll periodPoll,
    .request ⟨.delete, ⟨[1], [], 2⟩⟩, .logComplete 0, .request ⟨.store, ⟨[2], [5, 6, 7], 3⟩⟩,
    .retrieve ⟨[2], [0], 4⟩]

theorem retrieve_readCalls :
    ∃ s, Run.run (serviceStep smallZoneConf) (serviceCreate smallZoneConf smallLayout smallLayout)
        readCalls = some s ∧
      ∃ res, handleRetrieve smallZoneConf s.zone ⟨[2], [0, 0], 5⟩ = some res ∧
        match lastOp s.accepted [2] with
        | none => res = none
        | some a =>
            a.req.op = .store ∧ res = some (a.req.obj.val.take 2, a.req.obj.val.length) ∨
              res = none ∧ (a.req.op = .delete ∨ a.Forwards smallZoneConf) := by
  have hsome : (Run.run (serviceStep smallZoneConf)
      (serviceCreate smallZoneConf smallLayout smallLayout) readCalls).isSome = true := by
    decide +kernel
  obtain ⟨s, hrun⟩ := Option.isSome_iff_exists.1 hsome
  exact ⟨s, hrun, retrieve_of_run smallZoneConf smallLayout smallLayout readCalls s (by decide) hrun
    ⟨[2], [0, 0], 5⟩ (by decide)⟩

/-- What the request changed is on its way to the device, or was flushed. -/
def Accepted.Sent (conf : ZoneConf) (s : Service) (a : Accepted) : Prop :=
  processAction a.rc = .forwardToIoThread ∨
    a.req.obj.req ∈ s.completed ∧ completeAction conf a = .forwardToIoThread ∨
    ∃ id ref it, (s.zone.cache id).Holds ref it ∧ it.key = a.req.obj.key ∧ it.status = .flushed

/-- A read returns the value of the last accepted store, or finds nothing only if the last accepted
request was a deletion or has been sent. -/
def ReadYourWrites (conf : ZoneConf) (s : Service) (obj : Object) : Prop :=
  ∃ res, handleRetrieve conf s.zone obj = some res ∧
    match lastOp s.accepted obj.key with
    | none => res = none
    | some a =>
        a.req.op = .store ∧
            res = some (a.req.obj.val.take obj.val.length, a.req.obj.val.length) ∨
          res = none ∧ (a.req.op = .delete ∨ a.Sent conf s)

/-- A value is replaced by one that is too large for the cache: the old value is gone at once, and the
new one waits for its log record. -/
theorem not_readYourWrites_large :
    ∃ s, Run.run (serviceStep smallZoneConf) (serviceCreate smallZoneConf smallLayout smallLayout)
        [.request ⟨.store, ⟨[1], [7], 0⟩⟩,
          .request ⟨.store, ⟨[1], List.replicate 2048 0, 1⟩⟩] = some s ∧
      ¬ ReadYourWrites smallZoneConf s ⟨[1], [0], 2⟩ := by
  have hsome : ((Run.run (serviceStep smallZoneConf)
      (serviceCreate smallZoneConf smallLayout smallLayout)
      [.request ⟨.store, ⟨[1], [7], 0⟩⟩,
        .request ⟨.store, ⟨[1], List.replicate 2048 0, 1⟩⟩]).map fun s =>
      decide (handleRetrieve smallZoneConf s.zone ⟨[1], [0], 2⟩ = some none ∧
        ((lastOp s.accepted [1]).map fun a => (a.req.op, a.rc)) = some (.store, .deletePending) ∧
        s.completed = [])) = some true := by decide +kernel
  obtain ⟨s, hrun, hs⟩ := Option.map_eq_some_iff.1 hsome
  obtain ⟨hmiss, hlast, hcompleted⟩ := of_decide_eq_true hs
  have hstep : ∀ s ev s', QuietService smallZoneConf s → True →
      serviceStep smallZoneConf s ev = some s' → QuietService smallZoneConf s' :=
    fun _ _ _ h _ hstep => serviceStep_quiet h hstep
  have hquiet : QuietService smallZoneConf s := Run.run_inv hstep
    (quietService_create smallZoneConf smallLayout smallLayout) (Run.admissible_true _ _) hrun
  obtain ⟨a, ha, hop⟩ := Option.map_eq_some_iff.1 hlast
  obtain ⟨hop, hrc⟩ := Prod.mk.inj hop
  refine ⟨s, hrun, ?_⟩
  rintro ⟨res, hres, hcase⟩
  obtain rfl : none = res := Option.some.inj (hmiss.symm.trans hres)
  rw [show lastOp s.accepted (⟨[1], [0], 2⟩ : Object).key = some a from ha] at hcase
  rcases hcase with ⟨-, h0⟩ | ⟨-, h0 | h0⟩
  · cases h0
  · exact absurd (hop.symm.trans h0) (by decide)
  · rcases h0 with h0 | ⟨h0, -⟩ | ⟨id, ref, it, hit, -, hflushed⟩
    · rw [hrc] at h0
      cases h0
    · rw [hcompleted] at h0
      exact absurd h0 List.not_mem_nil
    · rcases (hquiet.zone.buf id).logItems rfl ref it hit with h1 | h1
      · exact absurd (h1.symm.trans hflushed) (by decide)
      · exact absurd (h1.symm.trans hflushed) (by decide)

end DssSdk.Wal
