import DssSdk.Kvtrans.OneBlock

/-!
# Entry blocks

While every key has an entry block of its own the device holds a finite map from keys to values. What a
request does on its entry block is the same in both builds, up to the I/O of the disk build.

* `Represents`: the device holds the map, except for the reserved blocks;
* `Represents.reserve`, `Represents.release`, `Represents.free`, `Represents.put`: the changes of a
  request, block by block;
* `allocEntryBlock_on`: the entry block is found, and loaded when it is the meta block of a key;
* `entryLoadingDone_delete`, `entryLoadingDone_store`, `valOpsIter_entry`: the request on it.
-/

namespace DssSdk.Kvtrans.KeyMap

open BlockAllocator Program Extents Device

/-- The keys with their values. -/
abbrev Map := List UInt8 → Option (List UInt8)

/-- The key of a request. -/
def keyOf (q : Req) : List UInt8 := bytes q.key q.length

/-! ### The map on the device -/

/-- The entry block of a key, with its value. -/
structure StoredAt (P : Params) (D : Device) (k v : List UInt8) (blk : OndiskMeta) : Prop where
  metaBlk : D.metas (P.hash k) = some blk
  entry : IsEntry k blk
  fits : Fits P v blk
  value : storedValue D.datas blk = v
  data : ∀ x, Covers (valueExtents blk) x → D.cell x = BlkState.data.toCell

/-- The device holds the map, in the blocks that are not reserved. -/
structure Represents (P : Params) (X : Set ℕ) (m : Map) (D : Device) : Prop where
  plain : ∀ x, P.InRange x 1 → D.cell x = BlkState.empty.toCell ∨ D.cell x = BlkState.data.toCell ∨
    D.cell x = BlkState.metaBlk.toCell
  entry : ∀ h, P.InRange h 1 → D.cell h = BlkState.metaBlk.toCell → h ∉ X →
    ∃ k, P.hash k = h ∧ (m k).isSome = true
  block : ∀ k, (m k).isSome = true → P.InRange (P.hash k) 1 ∧ P.hash k ∉ X ∧
    D.cell (P.hash k) = BlkState.metaBlk.toCell
  stored : ∀ k v, m k = some v → ∃ blk, StoredAt P D k v blk
  apart : ∀ k k' blk blk', (m k).isSome = true → (m k').isSome = true → k ≠ k' →
    D.metas (P.hash k) = some blk → D.metas (P.hash k') = some blk' →
    ∀ x, Covers (valueExtents blk) x → ¬ Covers (valueExtents blk') x

section

variable {P : Params} {X : Set ℕ} {m : Map} {D D' : Device} {k v : List UInt8} {blk blk' : OndiskMeta}

theorem StoredAt.eq (h : StoredAt P D k v blk) {k' v' : List UInt8} (h' : StoredAt P D k' v' blk')
    (hhash : P.hash k = P.hash k') : k = k' ∧ blk = blk' := by
  have hblk := h.metaBlk
  rw [hhash, h'.metaBlk] at hblk
  cases hblk
  exact ⟨h.entry.key.symm.trans h'.entry.key, rfl⟩

theorem Represents.hash_inj (h : Represents P X m D) {k k' : List UInt8} (hk : (m k).isSome = true)
    (hk' : (m k').isSome = true) (hhash : P.hash k = P.hash k') : k = k' := by
  obtain ⟨v, hv⟩ := Option.isSome_iff_exists.1 hk
  obtain ⟨v', hv'⟩ := Option.isSome_iff_exists.1 hk'
  obtain ⟨blk, hblk⟩ := h.stored k v hv
  obtain ⟨blk', hblk'⟩ := h.stored k' v' hv'
  exact (hblk.eq hblk' hhash).1

theorem StoredAt.inUse (h : StoredAt P D k v blk) : InUse P D (valueExtents blk) := by
  refine ⟨h.fits.apart, fun e he => ⟨(h.fits.inRange e he).1, (h.fits.inRange e he).2, fun x hx => ?_⟩⟩
  rw [h.data x ⟨e, he, hx⟩]
  decide

/-- An entry block holds no value. -/
theorem StoredAt.out (h : StoredAt P D k v blk) {x : ℕ} (hx : D.cell x ≠ BlkState.data.toCell) :
    ¬ Covers (valueExtents blk) x := fun hc => hx (h.data x hc)

theorem StoredAt.congr (h : StoredAt P D k v blk) (hmeta : D'.metas (P.hash k) = D.metas (P.hash k))
    (hcell : ∀ x, Covers (valueExtents blk) x → D'.cell x = D.cell x)
    (hdatas : ∀ x, Covers (valueExtents blk) x → D'.datas x = D.datas x) : StoredAt P D' k v blk := by
  refine ⟨hmeta.trans h.metaBlk, h.entry, h.fits, ?_, fun x hx => (hcell x hx).trans (h.data x hx)⟩
  rw [storedValue_congr hdatas]
  exact h.value

theorem represents_empty (hfree : ∀ x, P.blkOffset ≤ x → D.cell x = BlkState.empty.toCell) :
    Represents P X (fun _ => none) D := by
  refine ⟨fun x hx => .inl (hfree x hx.1), fun h hin hcell => ?_, ?_, ?_, ?_⟩
  · rw [hfree h hin.1] at hcell
    cases hcell
  · rintro k ⟨⟩
  · rintro k v ⟨⟩
  · rintro k k' blk blk' ⟨⟩

/-- A free block becomes an entry block that is reserved. -/
theorem Represents.reserve {h : ℕ} (hrep : Represents P ∅ m D) (hfree : D.cell h = BlkState.empty.toCell) :
    Represents P {h} m (D.fill [(h, 1)] BlkState.metaBlk.toCell) := by
  have hother : ∀ x, x ≠ h → (D.fill [(h, 1)] BlkState.metaBlk.toCell).cell x = D.cell x :=
    fun x hx => D.fill_of_not_covers (fun hc => hx (covers_one.1 hc)) _
  have hne : ∀ {x v}, D.cell x = v → v ≠ BlkState.empty.toCell → x ≠ h := by
    rintro x v hx hv rfl
    exact hv (hx.symm.trans hfree)
  refine ⟨fun x hx => ?_, fun x hin hcell hx => ?_, fun k hk => ?_, fun k v hk => ?_, hrep.apart⟩
  · by_cases hxh : x = h
    · exact .inr (.inr (D.fill_of_covers (covers_one.2 hxh) _))
    · rw [hother x hxh]
      exact hrep.plain x hx
  · rw [hother x hx] at hcell
    exact hrep.entry x hin hcell (Set.notMem_empty x)
  · obtain ⟨hin, -, hcell⟩ := hrep.block k hk
    have hkh := hne hcell (by decide)
    exact ⟨hin, hkh, (hother _ hkh).trans hcell⟩
  · obtain ⟨blk, hblk⟩ := hrep.stored k v hk
    exact ⟨blk, hblk.congr rfl (fun x hx => hother x (hne (hblk.data x hx) (by decide))) fun _ _ => rfl⟩

/-- The value of a key is freed, and its entry block is reserved. -/
theorem Represents.release (hrep : Represents P ∅ m D) (hk : m k = some v) (hblk : StoredAt P D k v blk) :
    Represents P {P.hash k} (Function.update m k none) (D.fill (valueExtents blk) blockStateFree) := by
  have hsome : (m k).isSome = true := by rw [hk]; rfl
  have hother : ∀ k', (Function.update m k none k').isSome = true → k' ≠ k ∧ (m k').isSome = true := by
    intro k' hk'
    have hne : k' ≠ k := by
      rintro rfl
      rw [Function.update_self] at hk'
      cases hk'
    rw [Function.update_of_ne hne] at hk'
    exact ⟨hne, hk'⟩
  have hkeep : ∀ {x v}, D.cell x = v → v ≠ BlkState.data.toCell →
      (D.fill (valueExtents blk) blockStateFree).cell x = v := by
    intro x v hx hv
    rw [D.fill_of_not_covers (hblk.out (by rwa [hx]))]
    exact hx
  refine ⟨fun x hx => ?_, fun x hin hcell hx => ?_, fun k' hk' => ?_, fun k' v' hk' => ?_,
    fun k₁ k₂ blk₁ blk₂ h₁ h₂ => hrep.apart k₁ k₂ blk₁ blk₂ (hother k₁ h₁).2 (hother k₂ h₂).2⟩
  · by_cases hc : Covers (valueExtents blk) x
    · exact .inl (D.fill_of_covers hc _)
    · rw [D.fill_of_not_covers hc]
      exact hrep.plain x hx
  · have hc : ¬ Covers (valueExtents blk) x := by
      intro hc
      rw [D.fill_of_covers hc] at hcell
      cases hcell
    rw [D.fill_of_not_covers hc] at hcell
    obtain ⟨k', rfl, hk'⟩ := hrep.entry x hin hcell (Set.notMem_empty x)
    have hne : k' ≠ k := by
      rintro rfl
      exact hx rfl
    exact ⟨k', rfl, by rwa [Function.update_of_ne hne]⟩
  · obtain ⟨hne, hsome'⟩ := hother k' hk'
    obtain ⟨hin, -, hcell⟩ := hrep.block k' hsome'
    exact ⟨hin, fun hhash => hne (hrep.hash_inj hsome' hsome hhash), hkeep hcell (by decide)⟩
  · obtain ⟨hne, hsome'⟩ := hother k' (by rw [hk']; rfl)
    rw [Function.update_of_ne hne] at hk'
    obtain ⟨blk', hblk'⟩ := hrep.stored k' v' hk'
    refine ⟨blk', hblk'.congr rfl (fun x hx => ?_) fun _ _ => rfl⟩
    rw [D.fill_of_not_covers]
    exact hrep.apart k' k blk' blk hsome' hsome hne hblk'.metaBlk hblk.metaBlk x hx

/-- The reserved block is freed; what becomes of its meta block does not matter. -/
theorem Represents.free {h : ℕ} (hrep : Represents P {h} m D) (hcell : D.cell h = BlkState.metaBlk.toCell) :
    Represents P ∅ m ((D.fill [(h, 1)] blockStateFree).forget P h) := by
  have hcells : ((D.fill [(h, 1)] blockStateFree).forget P h).cell =
      (D.fill [(h, 1)] blockStateFree).cell := by
    unfold Device.forget
    split <;> rfl
  have hdatas : ((D.fill [(h, 1)] blockStateFree).forget P h).datas = D.datas := by
    unfold Device.forget
    split <;> rfl
  have hother : ∀ x, x ≠ h → ((D.fill [(h, 1)] blockStateFree).forget P h).cell x = D.cell x := by
    intro x hx
    rw [hcells]
    exact D.fill_of_not_covers (fun hc => hx (covers_one.1 hc)) _
  have hself : ((D.fill [(h, 1)] blockStateFree).forget P h).cell h = blockStateFree := by
    rw [hcells]
    exact D.fill_of_covers (covers_one.2 rfl) _
  have hmetas : ∀ k, (m k).isSome = true →
      ((D.fill [(h, 1)] blockStateFree).forget P h).metas (P.hash k) = D.metas (P.hash k) := by
    intro k hk
    unfold Device.forget
    split
    · exact Function.update_of_ne (hrep.block k hk).2.1 _ _
    · rfl
  refine ⟨fun x hx => ?_, fun x hin hx _ => ?_, fun k hk => ?_, fun k v hk => ?_,
    fun k₁ k₂ blk₁ blk₂ h₁ h₂ hne hb₁ hb₂ => ?_⟩
  · by_cases hxh : x = h
    · exact .inl (hxh ▸ hself)
    · rw [hother x hxh]
      exact hrep.plain x hx
  · have hxh : x ≠ h := by
      rintro rfl
      rw [hself] at hx
      cases hx
    rw [hother x hxh] at hx
    exact hrep.entry x hin hx hxh
  · obtain ⟨hin, hne, hk'⟩ := hrep.block k hk
    exact ⟨hin, Set.notMem_empty _, (hother _ hne).trans hk'⟩
  · obtain ⟨blk, hblk⟩ := hrep.stored k v hk
    refine ⟨blk, hblk.congr (hmetas k (by rw [hk]; rfl)) (fun x hx => hother x ?_)
      fun _ _ => by rw [hdatas]⟩
    rintro rfl
    have := hblk.data x hx
    rw [hcell] at this
    cases this
  · rw [hmetas k₁ h₁] at hb₁
    rw [hmetas k₂ h₂] at hb₂
    exact hrep.apart k₁ k₂ blk₁ blk₂ h₁ h₂ hne hb₁ hb₂

theorem put_datas_of_not_covers {h x : ℕ} (hx : ¬ Covers (valueExtents blk) x) :
    (D.put P h blk v).datas x = D.datas x := by
  unfold Device.put
  dsimp only
  split_ifs with hloc
  · rfl
  · rw [valueExtents_of_ne hloc] at hx
    exact insertAll_of_not_covers hx

theorem storedValue_put {h : ℕ} (hfits : Fits P v blk) : storedValue (D.put P h blk v).datas blk = v := by
  unfold Device.put
  dsimp only
  split_ifs with hloc
  · exact hfits.storedValue_inline hloc
  · exact hfits.storedValue_insertAll hloc

/-- A key and its value come to the reserved block. -/
theorem Represents.put (hrep : Represents P {P.hash k} m D) (hin : P.InRange (P.hash k) 1)
    (hcell : D.cell (P.hash k) = BlkState.metaBlk.toCell) (hold : Holding P D k v (P.hash k) D') :
    Represents P ∅ (Function.update m k (some v)) D' := by
  obtain ⟨blk, hentry, hfits, hfree, rfl⟩ := hold
  -- the blocks of the value were free
  have hkeep : ∀ {x w}, D.cell x = w → w ≠ BlkState.empty.toCell →
      ((D.fill (valueExtents blk) BlkState.data.toCell).put P (P.hash k) blk v).cell x = w := by
    intro x w hx hw
    have hno : ¬ Covers (valueExtents blk) x := fun hc => hw (hx.symm.trans (hfree x hc))
    exact (D.fill_of_not_covers hno _).trans hx
  have hhash : ∀ {k'}, (m k').isSome = true → P.hash k' ≠ P.hash k := fun hk' => (hrep.block _ hk').2.1
  have hmetas : ∀ {k'}, (m k').isSome = true →
      ((D.fill (valueExtents blk) BlkState.data.toCell).put P (P.hash k) blk v).metas (P.hash k') =
        D.metas (P.hash k') := fun hk' => Function.update_of_ne (hhash hk') _ _
  have hself : ((D.fill (valueExtents blk) BlkState.data.toCell).put P (P.hash k) blk v).metas
      (P.hash k) = some blk := Function.update_self ..
  have hcases : ∀ {k'}, (Function.update m k (some v) k').isSome = true →
      k' = k ∨ (m k').isSome = true := by
    intro k' hk'
    by_cases hne : k' = k
    · exact .inl hne
    · exact .inr (by rwa [Function.update_of_ne hne] at hk')
  -- no key shares a block with the new value
  have hdisj : ∀ {k' blk'}, (m k').isSome = true → D.metas (P.hash k') = some blk' →
      ∀ x, Covers (valueExtents blk') x → ¬ Covers (valueExtents blk) x := by
    intro k' blk' hk' hblk' x hx hc
    obtain ⟨v', hv'⟩ := Option.isSome_iff_exists.1 hk'
    obtain ⟨blk'', hst⟩ := hrep.stored k' v' hv'
    obtain rfl := Option.some.inj (hblk'.symm.trans hst.metaBlk)
    have := hst.data x hx
    rw [hfree x hc] at this
    cases this
  refine ⟨fun x hx => ?_, fun x hin' hx _ => ?_, fun k' hk' => ?_, fun k' v' hk' => ?_,
    fun k₁ k₂ blk₁ blk₂ h₁ h₂ hne hb₁ hb₂ => ?_⟩
  · by_cases hc : Covers (valueExtents blk) x
    · exact .inr (.inl (D.fill_of_covers hc _))
    · rw [show (Device.put P (D.fill (valueExtents blk) BlkState.data.toCell) (P.hash k) blk v).cell x =
        D.cell x from D.fill_of_not_covers hc _]
      exact hrep.plain x hx
  · have hc : ¬ Covers (valueExtents blk) x := by
      intro hc
      have := hx.symm.trans (D.fill_of_covers hc _)
      cases this
    have hx' : D.cell x = BlkState.metaBlk.toCell := (D.fill_of_not_covers hc _).symm.trans hx
    by_cases hxk : x = P.hash k
    · exact ⟨k, hxk.symm, by rw [Function.update_self]; rfl⟩
    · obtain ⟨k', rfl, hk'⟩ := hrep.entry x hin' hx' hxk
      have hne : k' ≠ k := by
        rintro rfl
        exact hxk rfl
      exact ⟨k', rfl, by rwa [Function.update_of_ne hne]⟩
  · rcases hcases hk' with rfl | hk'
    · exact ⟨hin, Set.notMem_empty _, hkeep hcell (by decide)⟩
    · obtain ⟨hin', -, hcell'⟩ := hrep.block k' hk'
      exact ⟨hin', Set.notMem_empty _, hkeep hcell' (by decide)⟩
  · by_cases hne : k' = k
    · subst hne
      rw [Function.update_self] at hk'
      cases hk'
      exact ⟨blk, hself, hentry, hfits, storedValue_put hfits, fun x hx => D.fill_of_covers hx _⟩
    · rw [Function.update_of_ne hne] at hk'
      have hsome : (m k').isSome = true := by rw [hk']; rfl
      obtain ⟨blk', hblk'⟩ := hrep.stored k' v' hk'
      refine ⟨blk', hblk'.congr (hmetas hsome) (fun x hx => ?_) fun x hx => ?_⟩
      · exact (hkeep (hblk'.data x hx) (by decide)).trans (hblk'.data x hx).symm
      · exact put_datas_of_not_covers (hdisj hsome hblk'.metaBlk x hx)
  · rcases hcases h₁ with rfl | h₁'
    · rcases hcases h₂ with rfl | h₂'
      · exact absurd rfl hne
      · rw [hself] at hb₁
        cases hb₁
        rw [hmetas h₂'] at hb₂
        exact fun x hx hc => hdisj h₂' hb₂ x hc hx
    · rw [hmetas h₁'] at hb₁
      rcases hcases h₂ with rfl | h₂'
      · rw [hself] at hb₂
        cases hb₂
        exact hdisj h₁' hb₁
      · rw [hmetas h₂'] at hb₂
        exact hrep.apart k₁ k₂ blk₁ blk₂ h₁' h₂' hne hb₁ hb₂

/-- A key is removed. -/
theorem Represents.without (hrep : Represents P ∅ m D) (hk : m k = some v) (hblk : StoredAt P D k v blk) :
    Represents P ∅ (Function.update m k none) (D.without P (P.hash k) blk) := by
  have hcell := (hrep.block k (by rw [hk]; rfl)).2.2
  refine (hrep.release hk hblk).free ?_
  rw [D.fill_of_not_covers (hblk.out (by rw [hcell]; decide))]
  exact hcell

theorem Represents.replace (hrep : Represents P ∅ m D) {w : List UInt8} (hk : m k = some v)
    (hblk : StoredAt P D k v blk)
    (hold : Holding P (D.fill (valueExtents blk) blockStateFree) k w (P.hash k) D') :
    Represents P ∅ (Function.update m k (some w)) D' := by
  obtain ⟨hin, -, hcell⟩ := hrep.block k (by rw [hk]; rfl)
  have hput := (hrep.release hk hblk).put hin ?_ hold
  · rwa [Function.update_idem] at hput
  · rw [D.fill_of_not_covers (hblk.out (by rw [hcell]; decide))]
    exact hcell

end

/-! ### The entry block -/

section

variable {P : Params} {D : Device} {q : Req} {st : ReqState} {b : BlkCtx} {s s' : Sys}

/-- `dss_kvtrans_get_blk_state`. -/
theorem getBlkState_on (h : On P D q st b s) (hin : P.InRange b.index 1) {v : BlkState}
    (hv : D.cell b.index = v.toCell) :
    wp (fun _ => False) (getBlkState 0) (fun rc s' => rc = .success ∧
      On P D q st { b with state := v } s') s := by
  unfold getBlkState readBlkState
  rw [wp_bind, h.wp_blkAt, wp_bind, wp_bind, wp_get, h.serves.getBlockState hin, h.cell hin.1, hv]
  dsimp only
  rw [if_neg (by decide), BlkState.ofCell_toCell]
  dsimp only
  rw [wp_pure]
  dsimp only
  rw [wp_bind]
  exact h.wp_modifyBlk fun s₁ h₁ => ⟨rfl, h₁⟩

/-- A request whose I/O task loads its entry block. -/
structure Loads (P : Params) (D : Device) (q : Req) (st : ReqState) (b : BlkCtx) (s : Sys) : Prop where
  ctx : Shows P D s.ctx
  chain : s.req.chain = [b]
  req : s.req.req = q
  state : s.req.state = st
  io : s.req.io = [.readMeta 0]
  ioToQueue : s.req.ioToQueue = false
  queue : s.ctx.kvReqQueue = []
  clean : ∀ x, s.ctx.dirtyMetaLba x = true → x = P.hash (keyOf q) ∧ modifyMeta q.opc = true

theorem recordLoad_on (h : On P D q st b s) (hin : P.InRange b.index 1) :
    wp (fun _ => False) (recordLoad b.index) (fun _ s' => On P D q st b s') s := by
  unfold recordLoad modifyCtx
  rw [wp_bind, wp_get, h.serves.getBlockState hin]
  dsimp only
  rw [wp_ite]
  exact ⟨fun _ => ⟨h.ctx.congr rfl rfl rfl rfl, h.chain, h.req, h.state, h.calm⟩, fun _ => h⟩

theorem loadOndiskBlk_on (h : On P D q .reqInitialized b s) (hindex : b.index = P.hash (keyOf q))
    (hin : P.InRange b.index 1) (hpos : 0 < P.blkOffset) {blk : OndiskMeta}
    (hblk : D.metas b.index = some blk) :
    wp (fun _ => False) (loadOndiskBlk P 0) (fun rc s' =>
      rc = .success ∧ On P D q .reqInitialized { b with blk := blk } s' ∨
      P.build = .disk ∧ rc = .ioSubmitted ∧ Loads P D q .reqInitialized b s') s := by
  have hne : b.index ≠ 0 := by
    have := hin.1
    omega
  unfold loadOndiskBlk
  rw [wp_bind, h.wp_blkAt, wp_bind, wp_dssAssert]
  refine ⟨fun _ => ?_, fun h0 => h0 hne⟩
  rw [wp_bind]
  refine wp_mono (recordLoad_on h hin) fun _ s₁ h₁ => ?_
  cases hP : P.build with
  | memory =>
    dsimp only
    rw [wp_bind, wp_get, h₁.ctx.metas, hblk]
    dsimp only
    rw [wp_bind]
    exact h₁.wp_modifyBlk fun s₂ h₂ => .inl ⟨rfl, h₂⟩
  | disk =>
    obtain ⟨hio, hto, hqueue, hclean⟩ := h₁.calm hP
    have hfree : s₁.ctx.dirtyMetaLba b.index = false := by
      rw [Bool.eq_false_iff]
      exact fun hdirty => (hclean _ hdirty).2.2 h₁.state
    unfold modifyReq syncMetaBlkToQueue setLbaDirty modifyCtx
    dsimp only
    rw [wp_bind, wp_modify, wp_bind, wp_bind, wp_get, wp_bind, wp_blkAt]
    dsimp only
    rw [h₁.getD_chain, hfree, if_neg (by decide), wp_ite]
    refine ⟨fun hmodify => ?_, fun _ => ?_⟩
    · rw [h₁.req] at hmodify
      refine .inr ⟨rfl, rfl, h₁.ctx.congr rfl rfl rfl rfl, h₁.chain, h₁.req, h₁.state, ?_, rfl, hqueue,
        fun x hx => ?_⟩
      · dsimp only
        rw [hio]
        rfl
      · by_cases hxb : x = b.index
        · exact ⟨hxb.trans hindex, hmodify⟩
        · dsimp only at hx
          rw [Function.update_of_ne hxb] at hx
          exact ⟨(hclean x hx).1, hmodify⟩
    · refine .inr ⟨rfl, rfl, h₁.ctx, h₁.chain, h₁.req, h₁.state, ?_, rfl, hqueue,
        fun x hx => ⟨(hclean x hx).1, (hclean x hx).2.1⟩⟩
      dsimp only
      rw [hio]
      rfl

/-- The block context when the entry block of a request is known. -/
structure Entered (P : Params) (D : Device) (q : Req) (b b' : BlkCtx) : Prop where
  index : b'.index = P.hash (keyOf q)
  flag : b'.flag = b.flag
  iscontig : b'.iscontig = b.iscontig
  cell : D.cell b'.index = b'.state.toCell
  empty : b'.state = .empty → b'.dcIndex = 0 ∧ b'.nothash = false
  metaBlk : b'.state = .metaBlk → D.metas b'.index = some b'.blk
  plain : b'.state = .empty ∨ b'.state = .data ∨ b'.state = .metaBlk

/-- The entry block of a request is known, or will be when its I/O task is performed. -/
def Arrives (P : Params) (D : Device) (q : Req) (b : BlkCtx) (s : Sys) : Prop :=
  (∃ b', Entered P D q b b' ∧ On P D q .entryLoadingDone b' s) ∨
    P.build = .disk ∧ ∃ b' blk, D.metas b'.index = some blk ∧ Entered P D q b { b' with blk := blk } ∧
      Loads P D q .queueToLoadEntry b' s

/-- `_alloc_entry_block`. -/
theorem allocEntryBlock_on (h : On P D q .reqInitialized b s) (hpos : 0 < P.blkOffset)
    (hkey : iskeynull q.key = false) (hin : P.InRange (P.hash (keyOf q)) 1) {m : Map}
    (hrep : Represents P ∅ m D) :
    wp (fun _ => False) (allocEntryBlock P 0) (fun rc s' => rc = .success ∧ Arrives P D q b s') s := by
  unfold allocEntryBlock
  rw [wp_bind, wp_get, wp_bind, wp_dssAssert, h.req]
  refine ⟨fun _ => ?_, fun h0 => h0 hkey⟩
  rw [wp_bind]
  refine h.wp_modifyBlk fun s₁ h₁ => ?_
  rw [wp_bind, wp_dssAssert]
  refine ⟨fun _ => ?_, fun h0 => h0 ⟨hin.1, Nat.lt_of_succ_le hin.2⟩⟩
  rcases hrep.plain _ hin with hcell | hcell | hcell
  · rw [wp_bind]
    refine wp_mono (getBlkState_on h₁ hin hcell) ?_
    rintro rc s₂ ⟨rfl, h₂⟩
    rw [wp_bind, h₂.wp_blkAt]
    dsimp only
    rw [wp_bind]
    refine h₂.wp_modifyBlk fun s₃ h₃ => ?_
    rw [wp_bind]
    refine h₃.wp_setState (by decide) fun s₄ h₄ _ => ⟨rfl, .inl ⟨_, ?_, h₄⟩⟩
    exact ⟨rfl, rfl, rfl, hcell, fun _ => ⟨rfl, rfl⟩, by rintro ⟨⟩, .inl rfl⟩
  · rw [wp_bind]
    refine wp_mono (getBlkState_on h₁ hin hcell) ?_
    rintro rc s₂ ⟨rfl, h₂⟩
    rw [wp_bind, h₂.wp_blkAt]
    dsimp only
    rw [wp_bind]
    refine h₂.wp_modifyBlk fun s₃ h₃ => ?_
    rw [wp_bind]
    refine h₃.wp_setState (by decide) fun s₄ h₄ _ => ⟨rfl, .inl ⟨_, ?_, h₄⟩⟩
    exact ⟨rfl, rfl, rfl, hcell, by rintro ⟨⟩, by rintro ⟨⟩, .inr (.inl rfl)⟩
  · rw [wp_bind]
    refine wp_mono (getBlkState_on h₁ hin hcell) ?_
    rintro rc s₂ ⟨rfl, h₂⟩
    rw [wp_bind, h₂.wp_blkAt]
    dsimp only
    obtain ⟨k, hk, hsome⟩ := hrep.entry _ hin hcell (Set.notMem_empty _)
    obtain ⟨v, hv⟩ := Option.isSome_iff_exists.1 hsome
    obtain ⟨blk, hblk⟩ := hrep.stored k v hv
    have hmeta := hblk.metaBlk
    rw [hk] at hmeta
    rw [wp_bind]
    refine wp_mono (loadOndiskBlk_on h₂ rfl hin hpos hmeta) ?_
    rintro rc s₃ (⟨rfl, h₃⟩ | ⟨hP, rfl, h₃⟩)
    · unfold updateKreqStatAfterIo
      dsimp only
      rw [wp_bind]
      refine h₃.wp_setState (by decide) fun s₄ h₄ _ => ⟨rfl, .inl ⟨_, ?_, h₄⟩⟩
      exact ⟨rfl, rfl, rfl, hcell, by rintro ⟨⟩, fun _ => hmeta, .inr (.inr rfl)⟩
    · unfold updateKreqStatAfterIo modifyReq
      dsimp only
      rw [wp_bind, wp_modify]
      refine ⟨rfl, .inr ⟨hP, _, blk, ?_, ?_, ⟨h₃.ctx, h₃.chain, h₃.req, rfl, h₃.io, h₃.ioToQueue, h₃.queue,
        h₃.clean⟩⟩⟩
      · exact hmeta
      · exact ⟨rfl, rfl, rfl, hcell, by rintro ⟨⟩, fun _ => hmeta, .inr (.inr rfl)⟩

/-! ### STORE and DELETE -/

/-- What a STORE needs of the device: its value takes less than `2 ^ 16` blocks and in memory is not in the
meta block, and the entry block of its key is free, or the key is there and the new value has room among
the blocks that are free or hold the old value. -/
structure Storable (P : Params) (m : Map) (D : Device) (q : Req) : Prop where
  fits : getNumBlocksRequiredForValue q P.blkSize < 2 ^ 16
  large : P.build = .memory → maxInlineValue ≤ q.value.length
  entry : D.cell (P.hash (keyOf q)) = BlkState.empty.toCell ∨
    (m (keyOf q)).isSome = true ∧ ∀ blk, D.metas (P.hash (keyOf q)) = some blk →
      Accommodates P (D.fill (valueExtents blk) blockStateFree) q (P.hash (keyOf q))

/-- What a STORE or a DELETE makes of the device, with the map before it. -/
def KeyOpsPost (P : Params) (m : Map) (q : Req) (D : Device) (rc : Status) (D' : Device) (failed : Bool) :
    Prop :=
  match q.opc with
  | .store =>
      (rc = .success ∧ Represents P ∅ (Function.update m (keyOf q) (some q.value)) D') ∨
      (rc ≠ .success ∧ failed = true ∧ m (keyOf q) = none ∧ D' = D)
  | _ =>
      rc = (if (m (keyOf q)).isSome then .success else .notFound) ∧
        Represents P ∅ (Function.update m (keyOf q) none) D'

/-- What a handler of the entry block leaves: its status, the device that follows, in place or on its way,
and the record of its allocations. -/
def Handled (P : Params) (q : Req) (R : Status → Device → Bool → Prop) (rc : Status) (s : Sys) : Prop :=
  ∃ D b, b.index = P.hash (keyOf q) ∧ R rc D s.req.allocFailed ∧
    (On P D q .entryLoadingDone b s ∨ rc = .success ∧ Lands P D q .entryLoadingDone b s)

/-- What the loop goes on with after a handler of the entry block: every end `G` of the iteration that is
right for all handlers. -/
def GoesOn (P : Params) (q : Req) (R : Status → Device → Bool → Prop)
    (G : Option Status → Sys → Prop) : Prop :=
  ∀ (handler : M Status) (s : Sys), wp (fun _ => False) handler (Handled P q R) s →
    wp (fun _ => False) (handler >>= fun rc => orTerminate P rc (startIoFrom .entryLoadingDone)) G s

/-- The jump to `req_terminate` without a handler. -/
theorem GoesOn.terminate {R : Status → Device → Bool → Prop} {G : Option Status → Sys → Prop}
    (hgo : GoesOn P q R G) {rc : Status} (hrc : rc ≠ .success) (hs : Handled P q R rc s) :
    wp (fun _ => False) (some <$> reqTerminate P rc) G s := by
  have h := hgo (pure rc) s hs
  rw [pure_bind] at h
  unfold orTerminate at h
  rwa [if_pos hrc] at h

variable {m : Map}

/-- What a STORE or a DELETE that succeeds makes of the device says nothing of its allocations. -/
theorem KeyOpsPost.success {D' : Device} {failed failed' : Bool}
    (h : KeyOpsPost P m q D .success D' failed) : KeyOpsPost P m q D .success D' failed' := by
  unfold KeyOpsPost at *
  split at h
  · rcases h with h | ⟨hne, -⟩
    · exact .inl h
    · exact absurd rfl hne
  · exact h

theorem assignOps_on (h : On P D q st b s) (hlt : b.state.toCell < defaultBlockStateNum) :
    wp (fun _ => False) (assignOps 0) (fun _ s' => On P D q st { b with ops := some b.state } s') s := by
  unfold assignOps
  rw [wp_bind, h.wp_blkAt, if_pos hlt]
  exact h.wp_modifyBlk fun s₁ h₁ => h₁

theorem Entered.atEntry {b' : BlkCtx} (hent : Entered P D q b b') (hrep : Represents P ∅ m D)
    (hin : P.InRange (P.hash (keyOf q)) 1) (hmeta : b'.state = .metaBlk) :
    ∃ k v, m k = some v ∧ P.hash k = b'.index ∧ StoredAt P D k v b'.blk ∧
      AtEntry P D k { b' with ops := some b'.state } := by
  have hcell := hent.cell
  rw [hmeta] at hcell
  have hin' : P.InRange b'.index 1 := by rwa [hent.index]
  obtain ⟨k, hk, hsome⟩ := hrep.entry _ hin' hcell (Set.notMem_empty _)
  obtain ⟨v, hv⟩ := Option.isSome_iff_exists.1 hsome
  obtain ⟨blk, hblk⟩ := hrep.stored k v hv
  have hb := hblk.metaBlk
  rw [hk, hent.metaBlk hmeta] at hb
  cases hb
  exact ⟨k, v, hv, hk, hblk, hblk.entry, hmeta, hin', by rw [hcell]; decide, hblk.inUse,
    hblk.out (by rw [hcell]; decide)⟩

theorem Entered.none_of_ne {b' : BlkCtx} (hent : Entered P D q b b') (hrep : Represents P ∅ m D)
    (hmeta : b'.state ≠ .metaBlk) : m (keyOf q) = none := by
  rw [← Option.not_isSome_iff_eq_none]
  intro hsome
  have hcell := (hrep.block _ hsome).2.2
  rw [← hent.index, hent.cell] at hcell
  exact hmeta (BlkState.toCell_injective hcell)

theorem update_none {k : List UInt8} (hk : m k = none) : Function.update m k none = m := by
  rw [← hk]
  exact Function.update_eq_self k m

/-- A DELETE on its entry block. -/
theorem entryLoadingDone_delete {G : Option Status → Sys → Prop}
    (hgo : GoesOn P q (KeyOpsPost P m q D) G) {b' : BlkCtx} (h : On P D q .entryLoadingDone b' s)
    (hent : Entered P D q b b') (hrep : Represents P ∅ m D)
    (hin : P.InRange (P.hash (keyOf q)) 1) (hflag : b'.flag = .toDelete) (hopc : q.opc = .delete) :
    wp (fun _ => False) (entryLoadingDone P) G s := by
  have hpost : ∀ rc D' failed, KeyOpsPost P m q D rc D' failed ↔
      rc = (if (m (keyOf q)).isSome then .success else .notFound) ∧
        Represents P ∅ (Function.update m (keyOf q) none) D' := by
    intro rc D' failed
    unfold KeyOpsPost
    rw [hopc]
  have hlt : b'.state.toCell < defaultBlockStateNum := by
    rcases hent.plain with h | h | h <;> rw [h] <;> decide
  unfold entryLoadingDone
  rw [wp_bind]
  refine wp_mono (assignOps_on h hlt) ?_
  rintro - s₁ h₁
  rw [wp_bind, h₁.wp_blkAt]
  by_cases hmeta : b'.state = .metaBlk
  · obtain ⟨k, v, hk, hhash, hblk, hat⟩ := hent.atEntry hrep hin hmeta
    rw [if_neg (by rw [hmeta]; decide)]
    refine hgo _ _ ?_
    dsimp only
    rw [hmeta]
    refine wp_mono (updateMetaBlk_delete h₁ hat (congrArg some hmeta) hflag) ?_
    rintro rc s₂ ⟨b₂, hindex, h₂⟩
    change (if k = keyOf q then _ else _) at h₂
    split_ifs at h₂ with hkey
    · obtain ⟨rfl, h₂⟩ := h₂
      subst hkey
      refine ⟨_, b₂, hindex.trans hent.index, (hpost _ _ _).2 ⟨by rw [hk]; rfl, ?_⟩, .inl h₂⟩
      dsimp only
      rw [← hhash]
      exact hrep.without hk hblk
    · obtain ⟨rfl, h₂⟩ := h₂
      have hnone : m (keyOf q) = none := by
        rw [← Option.not_isSome_iff_eq_none]
        intro hsome
        exact hkey (hrep.hash_inj (by rw [hk]; rfl) hsome (hhash.trans hent.index))
      refine ⟨_, b₂, hindex.trans hent.index, (hpost _ _ _).2 ⟨by rw [hnone]; rfl, ?_⟩, .inl h₂⟩
      rwa [update_none hnone]
  · have hnone := hent.none_of_ne hrep hmeta
    have hinit : b'.state = .empty ∨ b'.state = .data ∨ b'.state = .collisionExtension := by
      rcases hent.plain with h | h | h
      · exact .inl h
      · exact .inr (.inl h)
      · exact absurd h hmeta
    rw [if_pos hinit, if_pos hflag]
    refine hgo.terminate (by decide) ⟨D, { b' with ops := some b'.state }, hent.index,
      (hpost _ _ _).2 ⟨by rw [hnone]; rfl, ?_⟩, .inl h₁⟩
    rwa [update_none hnone]

/-- A STORE on its entry block. -/
theorem entryLoadingDone_store {G : Option Status → Sys → Prop}
    (hgo : GoesOn P q (KeyOpsPost P m q D) G) (hsize : 0 < P.blkSize) {b' : BlkCtx}
    (h : On P D q .entryLoadingDone b' s) (hent : Entered P D q b b') (hrep : Represents P ∅ m D)
    (hin : P.InRange (P.hash (keyOf q)) 1) (hflag : b'.flag = .newWrite) (hcontig : b'.iscontig = false)
    (hopc : q.opc = .store) (hstore : Storable P m D q) :
    wp (fun _ => False) (entryLoadingDone P) G s := by
  have hpost : ∀ rc D' failed, KeyOpsPost P m q D rc D' failed ↔
      (rc = .success ∧ Represents P ∅ (Function.update m (keyOf q) (some q.value)) D') ∨
      (rc ≠ .success ∧ failed = true ∧ m (keyOf q) = none ∧ D' = D) := by
    intro rc D' failed
    unfold KeyOpsPost
    rw [hopc]
  have hlt : b'.state.toCell < defaultBlockStateNum := by
    rcases hent.plain with h | h | h <;> rw [h] <;> decide
  unfold entryLoadingDone
  rw [wp_bind]
  refine wp_mono (assignOps_on h hlt) ?_
  rintro - s₁ h₁
  rw [wp_bind, h₁.wp_blkAt]
  by_cases hmeta : b'.state = .metaBlk
  · obtain ⟨k, v, hk, hhash, hblk, hat⟩ := hent.atEntry hrep hin hmeta
    obtain ⟨hsome, hroom⟩ := hstore.entry.resolve_left fun h0 => by
      rw [← hent.index, hent.cell, hmeta] at h0
      cases h0
    have hkey : k = keyOf q := hrep.hash_inj (by rw [hk]; rfl) hsome (hhash.trans hent.index)
    rw [if_neg (by rw [hmeta]; decide)]
    refine hgo _ _ ?_
    dsimp only
    rw [hmeta]
    refine wp_mono (updateMetaBlk_store h₁ hat hkey hsize hstore.fits hflag hstore.large) ?_
    rintro rc s₂ ⟨D', b₂, hindex, ⟨rfl, h₂, hold⟩ | ⟨-, hfull, -, -⟩⟩
    · refine ⟨D', b₂, hindex.trans hent.index, (hpost _ _ _).2 (.inl ⟨rfl, ?_⟩), .inr ⟨rfl, h₂⟩⟩
      subst hkey
      rw [← hhash] at hold
      exact hrep.replace hk hblk hold
    · refine absurd ?_ hfull
      have hold := hroom b'.blk (by rw [← hent.index]; exact hent.metaBlk hmeta)
      rwa [← hent.index] at hold
  · have hnone := hent.none_of_ne hrep hmeta
    have hempty : b'.state = .empty := by
      rcases hstore.entry with h0 | ⟨hsome, -⟩
      · rw [← hent.index, hent.cell] at h0
        exact BlkState.toCell_injective h0
      · rw [hnone] at hsome
        cases hsome
    have hcell : D.cell b'.index = blockStateFree := by
      rw [hent.cell, hempty]
      rfl
    rw [if_pos (.inl hempty), if_neg (by dsimp only; rw [hflag]; decide)]
    refine hgo _ _ ?_
    dsimp only
    rw [hempty]
    refine wp_mono (initMetaBlk_on h₁ hsize hstore.fits (by rw [hent.index]; exact hin) hcell
      (hent.empty hempty).1 (hent.empty hempty).2 hcontig hstore.large) ?_
    rintro rc s₂ ⟨D', b₂, hindex, ⟨rfl, h₂, hold⟩ | ⟨hne, h₂, hfailed, rfl⟩⟩
    · refine ⟨D', b₂, hindex.trans hent.index, (hpost _ _ _).2 (.inl ⟨rfl, ?_⟩), .inr ⟨rfl, h₂⟩⟩
      have hres := hrep.reserve hcell
      dsimp only at hold
      rw [hent.index] at hold hres
      exact hres.put hin (D.fill_of_covers (covers_one.2 rfl) _) hold
    · exact ⟨D', b₂, hindex.trans hent.index, (hpost _ _ _).2 (.inr ⟨hne, hfailed, hnone, rfl⟩), .inl h₂⟩

/-! ### RETRIEVE and EXIST -/

/-- What a RETRIEVE or an EXIST answers, and the device stays as it is. `Reads` says how the buffer of the
request holds the value. -/
def ValOpsPost (P : Params) (Reads : List UInt8 → List UInt8 → Prop) (m : Map) (q : Req) (D : Device)
    (cb : Bool) (r : Status × Bool) (s : Sys) : Prop :=
  r.2 = true ∧ (∃ b, On P D q .reqCmpl b s) ∧
    r.1 = (if (m (keyOf q)).isSome then .success else .notFound) ∧
    (cb = true → ∀ v, m (keyOf q) = some v → Reads s.req.value v)

/-- The iteration of the loop of `_kvtrans_val_ops` on the entry block: it ends the request, or the value
is loaded. -/
theorem valOpsIter_entry {G : Option Status × Status → Sys → Prop}
    {Reads : List UInt8 → List UInt8 → Prop} {cb : Bool} {rc : Status} {b' : BlkCtx}
    (h : On P D q .entryLoadingDone b' s) (hent : Entered P D q b b') (hrep : Represents P ∅ m D)
    (hin : P.InRange (P.hash (keyOf q)) 1)
    (hdone : ∀ rc s', ValOpsPost P Reads m q D cb (rc, true) s' → G (none, rc) s')
    (hload : cb = true → ∀ v, m (keyOf q) = some v → StoredAt P D (keyOf q) v b'.blk →
      wp (fun _ => False) (blkLoadValue P 0) (fun rc s' => G (none, rc) s') s) :
    wp (fun _ => False) (valOpsIter P cb rc) G s := by
  have hnotFound : m (keyOf q) = none → wp (fun _ => False)
      (do modifyReq fun r => { r with state := .reqCmpl }
          return ((none : Option Status), Status.notFound)) G s := by
    intro hnone
    rw [wp_bind]
    refine h.wp_setState (by decide) fun s₁ h₁ _ => hdone _ _ ⟨rfl, ⟨_, h₁⟩, ?_, ?_⟩
    · rw [hnone]
      rfl
    · intro _ v hv
      rw [hnone] at hv
      cases hv
  unfold valOpsIter
  rw [wp_bind, wp_get, h.state]
  dsimp only
  rw [wp_bind, h.wp_blkAt, h.req]
  rcases hent.plain with hstate | hstate | hstate
  · rw [hstate]
    exact hnotFound (hent.none_of_ne hrep (by rw [hstate]; decide))
  · rw [hstate]
    exact hnotFound (hent.none_of_ne hrep (by rw [hstate]; decide))
  · obtain ⟨k, v, hk, hhash, hblk, -⟩ := hent.atEntry hrep hin hstate
    rw [hstate]
    dsimp only
    rw [iskeysame_entry hblk.entry]
    by_cases hkey : k = keyOf q
    · subst hkey
      rw [if_pos ⟨hblk.entry.isvalid, decide_eq_true rfl⟩]
      unfold valFound
      rw [wp_ite]
      refine ⟨fun hcb => ?_, fun hcb => ?_⟩
      · rw [wp_bind]
        exact hload hcb v hk hblk
      · rw [wp_bind]
        refine h.wp_setState (by decide) fun s₁ h₁ _ =>
          hdone _ _ ⟨rfl, ⟨_, h₁⟩, ?_, fun h0 => absurd h0 hcb⟩
        rw [hk]
        rfl
    · rw [if_neg fun h0 => hkey (of_decide_eq_true h0.2)]
      refine hnotFound ?_
      rw [← Option.not_isSome_iff_eq_none]
      intro hsome
      exact hkey (hrep.hash_inj (by rw [hk]; rfl) hsome (hhash.trans hent.index))

end

end DssSdk.Kvtrans.KeyMap
