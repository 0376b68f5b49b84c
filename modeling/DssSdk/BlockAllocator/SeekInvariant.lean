import DssSdk.BlockAllocator.SeekOptimizer

/-!
# The free chunks of the seek optimizer

`ChunkInv` says that the chunks of `jarr_free_lb_` are non-empty, lie on the device, and are
separated by at least one allocated block, and that `jarr_free_contig_len_` holds exactly the same
chunks. `removeElement_spec` and `addElement_spec` are the two updates; every split and every
merge is a sequence of them, and is described by what it does to the set `FreeAt` of free blocks:

* `allocateLb_spec`: an allocation takes `numBlocks` free blocks and nothing else;
* `freeLb_spec`: a release of allocated blocks adds them and nothing else.
-/

namespace DssSdk.BlockAllocator

namespace JudyHashMap

theorem vertical_insert (m : JudyHashMap) (h h' : ℕ) (jarr : JudyArray ℕ) :
    (JudyHashMap.mk (m.jarrL0.insert h jarr)).vertical h' =
      if h' = h then jarr else m.vertical h' := by
  unfold vertical
  simp only [JudyArray.get?_insert]
  split_ifs <;> rfl

theorem vertical_erase (m : JudyHashMap) (h h' : ℕ) :
    (JudyHashMap.mk (m.jarrL0.erase h)).vertical h' =
      if h' = h then JudyArray.empty else m.vertical h' := by
  unfold vertical
  simp only [JudyArray.get?_erase]
  split_ifs <;> rfl

theorem insertElement_spec {m : JudyHashMap} {h v : ℕ} (hfree : m.get? h v = none) (value : ℕ) :
    ∃ m', m.insertElement h v value = some m' ∧
      ∀ h' v', m'.get? h' v' = if h' = h ∧ v' = v then some value else m.get? h' v' := by
  have hz : ((m.vertical h).get? v).getD 0 = 0 := by
    change (m.get? h v).getD 0 = 0
    rw [hfree]; rfl
  refine ⟨_, by unfold insertElement; rw [if_neg (by rw [hz]; simp)], fun h' v' => ?_⟩
  unfold get?
  rw [vertical_insert]
  by_cases hh : h' = h
  · subst hh
    rw [if_pos rfl, JudyArray.get?_insert]
    by_cases hv : v' = v <;> simp [hv]
  · rw [if_neg hh, if_neg (fun hc => hh hc.1)]

theorem deleteElement_spec {m : JudyHashMap} {h v x : ℕ} (hx : m.get? h v = some x) :
    ∃ m', m.deleteElement h v = some m' ∧
      ∀ h' v', m'.get? h' v' = if h' = h ∧ v' = v then none else m.get? h' v' := by
  have hne : m.jarrL0.get? h = some (m.vertical h) := by
    cases hj : m.jarrL0.get? h with
    | none =>
      have hv : m.vertical h = JudyArray.empty := by unfold vertical; rw [hj]; rfl
      unfold get? at hx
      rw [hv] at hx
      cases hx
    | some jarr => unfold vertical; rw [hj]; rfl
  have hx' : (m.vertical h).get? v = some x := hx
  have key : ∀ m' : JudyHashMap,
      (∀ h', m'.vertical h' = if h' = h then (m.vertical h).erase v else m.vertical h') →
      ∀ h' v', m'.get? h' v' = if h' = h ∧ v' = v then none else m.get? h' v' := by
    intro m' hm' h' v'
    unfold get?
    rw [hm']
    by_cases hh : h' = h
    · subst hh
      rw [if_pos rfl, JudyArray.get?_erase]
      by_cases hv : v' = v <;> simp [hv]
    · rw [if_neg hh, if_neg (fun hc => hh hc.1)]
  unfold deleteElement
  rw [hne]
  simp only [hx']
  by_cases he : ((m.vertical h).erase v).entries = []
  · rw [if_pos he]
    refine ⟨_, rfl, key _ fun h' => ?_⟩
    rw [vertical_erase]
    split_ifs with hh
    · exact (JudyArray.ext' he).symm
    · rfl
  · rw [if_neg he]
    exact ⟨_, rfl, key _ fun h' => vertical_insert m h h' _⟩

theorem getClosestOnVjarr_mem {v : ℕ} {jarr : JudyArray ℕ} {e : ℕ × ℕ}
    (h : getClosestOnVjarr v jarr = some e) : e ∈ jarr := by
  unfold getClosestOnVjarr at h
  split at h
  · rename_i p n hp hn
    split_ifs at h
    · exact Option.some.inj h ▸ (JudyArray.prev?_eq_some_iff.1 hp).1
    · exact Option.some.inj h ▸ (JudyArray.next?_eq_some_iff.1 hn).1
  · rename_i p hp hn
    exact Option.some.inj h ▸ (JudyArray.prev?_eq_some_iff.1 hp).1
  · rename_i n hp hn
    exact Option.some.inj h ▸ (JudyArray.next?_eq_some_iff.1 hn).1
  · cases h

theorem getClosestL1Element_get? {m : JudyHashMap} {h v x : ℕ}
    (hx : m.getClosestL1Element h v = some x) : ∃ v', m.get? h v' = some x := by
  unfold getClosestL1Element at hx
  cases hj : m.jarrL0.get? h with
  | none => rw [hj] at hx; cases hx
  | some jarr =>
    rw [hj] at hx
    obtain ⟨e, he, rfl⟩ := Option.map_eq_some_iff.1 hx
    have hv : m.vertical h = jarr := by unfold vertical; rw [hj]; rfl
    exact ⟨e.1, by unfold get?; rw [hv]; exact JudyArray.get?_eq_some_iff.2 (getClosestOnVjarr_mem he)⟩

theorem getClosestL0Element_get? {m : JudyHashMap} {h v h' v' : ℕ}
    (hx : m.getClosestL0Element h v = some (h', v')) :
    h < h' ∧ ∃ x, m.get? h' v' = some x := by
  unfold getClosestL0Element at hx
  cases hj : m.jarrL0.next? h with
  | none => rw [hj] at hx; cases hx
  | some p =>
    obtain ⟨k, jarr⟩ := p
    rw [hj] at hx
    obtain ⟨e, he, heq⟩ := Option.map_eq_some_iff.1 hx
    obtain ⟨hmem, hlt, -⟩ := JudyArray.next?_eq_some_iff.1 hj
    obtain ⟨rfl, rfl⟩ := Prod.mk.inj heq
    have hv : m.vertical k = jarr := by
      unfold vertical; rw [JudyArray.get?_eq_some_iff.2 hmem]; rfl
    exact ⟨hlt, e.2, by
      unfold get?; rw [hv]; exact JudyArray.get?_eq_some_iff.2 (getClosestOnVjarr_mem he)⟩

end JudyHashMap

namespace JudySeekOptimizer

/-- The block lies in a free chunk. -/
def FreeAt (j : JudySeekOptimizer) (b : ℕ) : Prop :=
  ∃ lb len, (lb, len) ∈ j.jarrFreeLb ∧ lb ≤ b ∧ b < lb + len

/-- The two maps of free chunks agree, and the chunks are non-empty, on the device and apart. -/
structure ChunkInv (j : JudySeekOptimizer) : Prop where
  pos : ∀ {lb len}, (lb, len) ∈ j.jarrFreeLb → 0 < len
  lower : ∀ {lb len}, (lb, len) ∈ j.jarrFreeLb → j.logicalStartBlockOffset ≤ lb
  upper : ∀ {lb len}, (lb, len) ∈ j.jarrFreeLb →
    lb + len ≤ j.logicalStartBlockOffset + j.totalBlocks
  apart : ∀ {lb len lb' len'}, (lb, len) ∈ j.jarrFreeLb → (lb', len') ∈ j.jarrFreeLb →
    lb < lb' → lb + len < lb'
  contig : ∀ len lb v, j.jarrFreeContigLen.get? len lb = some v ↔
    (lb, len) ∈ j.jarrFreeLb ∧ v = lb

/-- The parameters and the counters are the same. -/
structure Frame (j j' : JudySeekOptimizer) : Prop where
  totalBlocks : j'.totalBlocks = j.totalBlocks
  offset : j'.logicalStartBlockOffset = j.logicalStartBlockOffset
  allocated : j'.totalAllocatedBlocks = j.totalAllocatedBlocks
  free : j'.totalFreeBlocks = j.totalFreeBlocks

theorem Frame.refl (j : JudySeekOptimizer) : Frame j j := ⟨rfl, rfl, rfl, rfl⟩

theorem Frame.trans {j j' j'' : JudySeekOptimizer} (h : Frame j j') (h' : Frame j' j'') :
    Frame j j'' :=
  ⟨h'.1.trans h.1, h'.2.trans h.2, h'.3.trans h.3, h'.4.trans h.4⟩

section Chunks

variable {j : JudySeekOptimizer}

theorem freeAt_of_mem {lb len b : ℕ} (hm : (lb, len) ∈ j.jarrFreeLb) (h1 : lb ≤ b)
    (h2 : b < lb + len) : FreeAt j b := ⟨lb, len, hm, h1, h2⟩

theorem ChunkInv.unique (hj : ChunkInv j) {lb len lb' len' b : ℕ} (hm : (lb, len) ∈ j.jarrFreeLb)
    (hm' : (lb', len') ∈ j.jarrFreeLb) (h : lb ≤ b ∧ b < lb + len) (h' : lb' ≤ b ∧ b < lb' + len') :
    lb = lb' ∧ len = len' := by
  rcases lt_trichotomy lb lb' with hlt | heq | hlt
  · have := hj.apart hm hm' hlt; omega
  · subst heq; exact ⟨rfl, JudyArray.eq_of_mem hm hm'⟩
  · have := hj.apart hm' hm hlt; omega

theorem ChunkInv.not_freeAt_end (hj : ChunkInv j) {lb len : ℕ} (hm : (lb, len) ∈ j.jarrFreeLb) :
    ¬ FreeAt j (lb + len) := by
  rintro ⟨lb', len', hm', h1, h2⟩
  have hpos := hj.pos hm
  rcases lt_trichotomy lb lb' with hlt | heq | hlt
  · have := hj.apart hm hm' hlt; omega
  · subst heq; have := JudyArray.eq_of_mem hm hm'; omega
  · have := hj.apart hm' hm hlt; omega

theorem ChunkInv.not_freeAt_before (hj : ChunkInv j) {lb len b : ℕ}
    (hm : (lb, len) ∈ j.jarrFreeLb) (hb : b + 1 = lb) : ¬ FreeAt j b := by
  rintro ⟨lb', len', hm', h1, h2⟩
  have := hj.apart hm' hm (by omega)
  omega

theorem ChunkInv.mem_of_freeAt {j' : JudySeekOptimizer} (hj : ChunkInv j) (hj' : ChunkInv j')
    (hfree : ∀ x, FreeAt j' x ↔ FreeAt j x) {e : ℕ × ℕ} (he : e ∈ j.jarrFreeLb) :
    e ∈ j'.jarrFreeLb := by
  obtain ⟨lb, len⟩ := e
  have hpos := hj.pos he
  obtain ⟨l, m, hm, h1, h2⟩ := (hfree lb).2 (freeAt_of_mem he le_rfl (by omega))
  have hstart : l = lb := by
    by_contra hne
    have hbefore : FreeAt j (lb - 1) :=
      (hfree _).1 (freeAt_of_mem hm (by omega) (by omega))
    exact hj.not_freeAt_before he (by omega) hbefore
  subst hstart
  rcases lt_trichotomy len m with hlt | rfl | hgt
  · exact absurd ((hfree _).1 (freeAt_of_mem hm (by omega) (by omega))) (hj.not_freeAt_end he)
  · exact hm
  · exact absurd ((hfree _).2 (freeAt_of_mem he (by omega) (by omega))) (hj'.not_freeAt_end hm)

theorem removeElement_mem {j' : JudySeekOptimizer} {lb len : ℕ}
    (h : j.removeElement lb len = some j') {e : ℕ × ℕ} :
    e ∈ j'.jarrFreeLb ↔ e ∈ j.jarrFreeLb ∧ e.1 ≠ lb := by
  unfold removeElement at h
  split_ifs at h
  obtain ⟨c, -, rfl⟩ := Option.map_eq_some_iff.1 h
  exact JudyArray.mem_erase

/-- `remove_element` on a chunk. -/
theorem removeElement_spec (hj : ChunkInv j) {lb len : ℕ} (hm : (lb, len) ∈ j.jarrFreeLb) :
    ∃ j', j.removeElement lb len = some j' ∧ ChunkInv j' ∧ Frame j j' ∧
      j'.jarrFreeLb.total + len = j.jarrFreeLb.total ∧
      ∀ b, FreeAt j' b ↔ FreeAt j b ∧ ¬ (lb ≤ b ∧ b < lb + len) := by
  obtain ⟨c, hc, hcget⟩ :=
    JudyHashMap.deleteElement_spec ((hj.contig len lb lb).2 ⟨hm, rfl⟩)
  have hget := JudyArray.get?_eq_some_iff.2 hm
  refine ⟨{ j with jarrFreeLb := j.jarrFreeLb.erase lb, jarrFreeContigLen := c }, ?_, ?_,
    ⟨rfl, rfl, rfl, rfl⟩, JudyArray.total_erase hm, fun b => ?_⟩
  · unfold removeElement
    rw [hget, hc]; rfl
  · have hsub : ∀ {l n}, (l, n) ∈ j.jarrFreeLb.erase lb → (l, n) ∈ j.jarrFreeLb :=
      fun h => (JudyArray.mem_erase.1 h).1
    refine ⟨fun h => hj.pos (hsub h), fun h => hj.lower (hsub h), fun h => hj.upper (hsub h),
      fun h h' => hj.apart (hsub h) (hsub h'), fun len' lb' v => ?_⟩
    simp only [hcget, JudyArray.mem_erase]
    split_ifs with heq
    · simp [heq.2]
    · rw [hj.contig]
      constructor
      · rintro ⟨h, rfl⟩
        refine ⟨⟨h, fun hl => heq ⟨?_, hl⟩⟩, rfl⟩
        subst hl
        exact JudyArray.eq_of_mem h hm
      · rintro ⟨⟨h, -⟩, rfl⟩
        exact ⟨h, rfl⟩
  · constructor
    · rintro ⟨l, n, h, h1, h2⟩
      obtain ⟨h, hne⟩ := JudyArray.mem_erase.1 h
      exact ⟨⟨l, n, h, h1, h2⟩, fun hb => hne (hj.unique h hm ⟨h1, h2⟩ hb).1⟩
    · rintro ⟨⟨l, n, h, h1, h2⟩, hb⟩
      refine ⟨l, n, JudyArray.mem_erase.2 ⟨h, fun hl => hb ?_⟩, h1, h2⟩
      simp only at hl
      subst hl
      rw [← JudyArray.eq_of_mem h hm]
      exact ⟨h1, h2⟩

/-- `add_element` on a range that neither meets nor touches a free block. -/
theorem addElement_spec (hj : ChunkInv j) {lb len : ℕ} (hlen : 0 < len)
    (hlo : j.logicalStartBlockOffset ≤ lb)
    (hhi : lb + len ≤ j.logicalStartBlockOffset + j.totalBlocks)
    (hapart : ∀ b, lb ≤ b + 1 → b ≤ lb + len → ¬ FreeAt j b) :
    ∃ j', j.addElement lb len = some j' ∧ ChunkInv j' ∧ Frame j j' ∧
      j'.jarrFreeLb.total = j.jarrFreeLb.total + len ∧
      ∀ b, FreeAt j' b ↔ FreeAt j b ∨ (lb ≤ b ∧ b < lb + len) := by
  have hsep : ∀ {l n}, (l, n) ∈ j.jarrFreeLb → l + n < lb ∨ lb + len < l := by
    intro l n h
    by_contra hc
    have hn := hj.pos h
    exact hapart (max l (lb - 1)) (by omega) (by omega) ⟨l, n, h, by omega, by omega⟩
  have hnone : j.jarrFreeLb.get? lb = none :=
    JudyArray.get?_eq_none_iff.2 fun n h => by have := hsep h; omega
  have hcnone : j.jarrFreeContigLen.get? len lb = none := by
    cases hg : j.jarrFreeContigLen.get? len lb with
    | none => rfl
    | some v => exact absurd ((hj.contig len lb v).1 hg).1 (JudyArray.get?_eq_none_iff.1 hnone len)
  obtain ⟨c, hc, hcget⟩ := JudyHashMap.insertElement_spec hcnone lb
  refine ⟨{ j with jarrFreeLb := j.jarrFreeLb.insert lb len, jarrFreeContigLen := c }, ?_, ?_,
    ⟨rfl, rfl, rfl, rfl⟩, JudyArray.total_insert hnone, fun b => ?_⟩
  · unfold addElement
    rw [hnone, hc]; rfl
  · have hcases : ∀ {l n}, (l, n) ∈ j.jarrFreeLb.insert lb len →
        (l = lb ∧ n = len) ∨ (l, n) ∈ j.jarrFreeLb := by
      intro l n h
      rcases JudyArray.mem_insert.1 h with h | ⟨h, -⟩
      · exact Or.inl (Prod.mk.inj h)
      · exact Or.inr h
    refine ⟨fun h => ?_, fun h => ?_, fun h => ?_, fun h h' hlt => ?_, fun len' lb' v => ?_⟩
    · rcases hcases h with ⟨rfl, rfl⟩ | h
      exacts [hlen, hj.pos h]
    · rcases hcases h with ⟨rfl, rfl⟩ | h
      exacts [hlo, hj.lower h]
    · rcases hcases h with ⟨rfl, rfl⟩ | h
      exacts [hhi, hj.upper h]
    · rcases hcases h with ⟨rfl, rfl⟩ | hd <;> rcases hcases h' with ⟨rfl, rfl⟩ | hd'
      · omega
      · have := hsep hd'; omega
      · have := hsep hd; omega
      · exact hj.apart hd hd' hlt
    · simp only [hcget, JudyArray.mem_insert, Prod.mk.injEq]
      split_ifs with heq
      · obtain ⟨rfl, rfl⟩ := heq
        simp [eq_comm]
      · rw [hj.contig]
        constructor
        · rintro ⟨h, rfl⟩
          refine ⟨Or.inr ⟨h, fun hl => ?_⟩, rfl⟩
          subst hl
          exact absurd h (JudyArray.get?_eq_none_iff.1 hnone len')
        · rintro ⟨⟨rfl, rfl⟩ | ⟨h, -⟩, rfl⟩
          · exact absurd ⟨rfl, rfl⟩ heq
          · exact ⟨h, rfl⟩
  · constructor
    · rintro ⟨l, n, h, h1, h2⟩
      rcases JudyArray.mem_insert.1 h with h | ⟨h, -⟩
      · cases h; exact Or.inr ⟨h1, h2⟩
      · exact Or.inl ⟨l, n, h, h1, h2⟩
    · rintro (⟨l, n, h, h1, h2⟩ | h)
      · refine ⟨l, n, JudyArray.mem_insert.2 (Or.inr ⟨h, fun hl => ?_⟩), h1, h2⟩
        have := hsep h
        simp only at hl
        omega
      · exact ⟨lb, len, JudyArray.mem_insert.2 (Or.inl rfl), h.1, h.2⟩

/-- `j'` is `j` with the free blocks `lb, …, lb + n - 1` taken away. -/
structure Taken (j : JudySeekOptimizer) (n lb : ℕ) (j' : JudySeekOptimizer) : Prop where
  inv : ChunkInv j'
  frame : Frame j j'
  total : j'.jarrFreeLb.total + n = j.jarrFreeLb.total
  wasFree : ∀ b, lb ≤ b → b < lb + n → FreeAt j b
  freeAt : ∀ b, FreeAt j' b ↔ FreeAt j b ∧ ¬ (lb ≤ b ∧ b < lb + n)

/-! ### Cutting a chunk -/

theorem cut_all (hj : ChunkInv j) {lb len : ℕ} (hm : (lb, len) ∈ j.jarrFreeLb) :
    ∃ j', j.removeElement lb len = some j' ∧ Taken j len lb j' := by
  obtain ⟨j', h', hinv, hfr, htot, hfree⟩ := removeElement_spec hj hm
  exact ⟨j', h', hinv, hfr, htot, fun b h1 h2 => freeAt_of_mem hm h1 h2, hfree⟩

/-- The right end of the chunk is taken: its first `n` blocks stay. -/
theorem cut_right (hj : ChunkInv j) {lb len n : ℕ} (hm : (lb, len) ∈ j.jarrFreeLb) (hn : 0 < n)
    (hlen : n < len) :
    ∃ j' j'', j.removeElement lb len = some j' ∧ j'.addElement lb n = some j'' ∧
      Taken j (len - n) (lb + n) j'' := by
  obtain ⟨j', h', hinv', hfr', htot', hfree'⟩ := removeElement_spec hj hm
  have hlo := hj.lower hm
  have hhi := hj.upper hm
  have hapart : ∀ b, lb ≤ b + 1 → b ≤ lb + n → ¬ FreeAt j' b := by
    intro b h1 h2 hb
    obtain ⟨hb, hout⟩ := (hfree' b).1 hb
    exact hj.not_freeAt_before hm (by omega) hb
  obtain ⟨j'', h'', hinv, hfr, htot, hfree⟩ := addElement_spec hinv' hn
    (hfr'.offset ▸ hlo) (by rw [hfr'.offset, hfr'.totalBlocks]; omega) hapart
  refine ⟨j', j'', h', h'', hinv, hfr'.trans hfr, by omega,
    fun b h1 h2 => freeAt_of_mem hm (by omega) (by omega), fun b => ?_⟩
  rw [hfree, hfree']
  constructor
  · rintro (⟨hb, hout⟩ | hin)
    · exact ⟨hb, by omega⟩
    · exact ⟨freeAt_of_mem hm (by omega) (by omega), by omega⟩
  · rintro ⟨hb, hout⟩
    by_cases hin : lb ≤ b ∧ b < lb + n
    · exact Or.inr hin
    · exact Or.inl ⟨hb, by omega⟩

/-- The end of the chunk was taken, and its blocks behind the first `n` of them stay. -/
theorem keep_end (hj : ChunkInv j) {lb len r m n : ℕ} (hm : (lb, len) ∈ j.jarrFreeLb)
    (h : Taken j m r j') (hr : lb ≤ r) (hend : r + m = lb + len) (hn : 0 < n) (hlen : n < m) :
    ∃ j'', j'.addElement (r + n) (m - n) = some j'' ∧ Taken j n r j'' := by
  obtain ⟨hinv', hfr', htot', hwas, hfree'⟩ := h
  have hlo := hj.lower hm
  have hhi := hj.upper hm
  have hapart : ∀ b, r + n ≤ b + 1 → b ≤ r + n + (m - n) → ¬ FreeAt j' b := by
    intro b h1 h2 hb
    obtain ⟨hb, hout⟩ := (hfree' b).1 hb
    have hlast : b = lb + len := by omega
    exact hj.not_freeAt_end hm (hlast ▸ hb)
  obtain ⟨j'', h'', hinv, hfr, htot, hfree⟩ := addElement_spec hinv' (by omega : 0 < m - n)
    (by rw [hfr'.offset]; omega) (by rw [hfr'.offset, hfr'.totalBlocks]; omega) hapart
  refine ⟨j'', h'', hinv, hfr'.trans hfr, by omega, fun b h1 h2 => hwas b h1 (by omega), fun b => ?_⟩
  rw [hfree, hfree']
  constructor
  · rintro (⟨hb, hout⟩ | hin)
    · exact ⟨hb, by omega⟩
    · exact ⟨hwas b (by omega) (by omega), by omega⟩
  · rintro ⟨hb, hout⟩
    by_cases hin : r + n ≤ b ∧ b < r + n + (m - n)
    · exact Or.inr hin
    · exact Or.inl ⟨hb, by omega⟩

/-- The left end of the chunk is taken: its blocks from the `n`-th on stay. -/
theorem cut_left (hj : ChunkInv j) {lb len n : ℕ} (hm : (lb, len) ∈ j.jarrFreeLb) (hn : 0 < n)
    (hlen : n < len) :
    ∃ j' j'', j.removeElement lb len = some j' ∧
      j'.addElement (lb + n) (len - n) = some j'' ∧ Taken j n lb j'' := by
  obtain ⟨j', h', htaken⟩ := cut_all hj hm
  obtain ⟨j'', h'', htaken'⟩ := keep_end hj hm htaken le_rfl rfl hn hlen
  exact ⟨j', j'', h', h'', htaken'⟩

/-- `n` blocks inside the chunk are taken: `a` blocks stay on their left. -/
theorem cut_middle (hj : ChunkInv j) {lb len a n : ℕ} (hm : (lb, len) ∈ j.jarrFreeLb)
    (ha : 0 < a) (hn : 0 < n) (hlen : a + n < len) :
    ∃ j' j'' j₃, j.removeElement lb len = some j' ∧ j'.addElement lb a = some j'' ∧
      j''.addElement (lb + a + n) (len - (a + n)) = some j₃ ∧ Taken j n (lb + a) j₃ := by
  obtain ⟨j', j'', h', h'', htaken⟩ := cut_right hj hm ha (by omega : a < len)
  obtain ⟨j₃, h₃, htaken'⟩ := keep_end hj hm htaken (by omega) (by omega) hn (by omega)
  rw [Nat.sub_sub] at h₃
  exact ⟨j', j'', j₃, h', h'', h₃, htaken'⟩

/-! ### The splits -/

/-- `split_curr_chunk` on a chunk that contains the request. -/
theorem splitCurrChunk_spec (hj : ChunkInv j) {lb len r n : ℕ} (hm : (lb, len) ∈ j.jarrFreeLb)
    (hn : 0 < n) (h1 : lb ≤ r) (h2 : r + n ≤ lb + len) :
    ∃ j', j.splitCurrChunk lb len r n = some (r, j') ∧ Taken j n r j' := by
  unfold splitCurrChunk
  rw [if_neg (by omega), if_neg (by omega)]
  dsimp only
  split_ifs with hall hright hleft hmid
  · obtain ⟨rfl, rfl⟩ := hall
    obtain ⟨j', h', ht⟩ := cut_all hj hm
    exact ⟨j', by simp [h'], ht⟩
  · obtain ⟨j', j'', h', h'', ht⟩ := cut_right hj hm (n := r - lb) (by omega) (by omega)
    have hlen : len - (r - lb) = n := by omega
    have hr : lb + (r - lb) = r := by omega
    rw [hlen, hr] at ht
    exact ⟨j'', by simp [h', h''], ht⟩
  · subst hleft
    obtain ⟨j', j'', h', h'', ht⟩ := cut_left hj hm hn (by omega)
    exact ⟨j'', by simp [h', h''], ht⟩
  · obtain ⟨j', j'', j₃, h', h'', h₃, ht⟩ :=
      cut_middle hj hm (a := r - lb) (n := n) (by omega) hn (by omega)
    have hr : lb + (r - lb) = r := by omega
    rw [hr] at h₃ ht
    exact ⟨j₃, by simp [h', h'', h₃], ht⟩
  · omega

/-- `split_prev_chunk` on a chunk that is long enough. -/
theorem splitPrevChunk_spec (hj : ChunkInv j) {lb len n : ℕ} (hm : (lb, len) ∈ j.jarrFreeLb)
    (hn : 0 < n) (h : n ≤ len) :
    ∃ j', j.splitPrevChunk lb len n = some (some (lb + (len - n), j')) ∧
      Taken j n (lb + (len - n)) j' := by
  unfold splitPrevChunk
  rw [if_neg (by omega)]
  split_ifs with hall
  · subst hall
    obtain ⟨j', h', ht⟩ := cut_all hj hm
    exact ⟨j', by simp [h'], by simpa using ht⟩
  · obtain ⟨j', j'', h', h'', ht⟩ := cut_right hj hm (n := len - n) (by omega) (by omega)
    have hlen : len - (len - n) = n := by omega
    rw [hlen] at ht
    exact ⟨j'', by simp [h', h''], ht⟩

/-- `split_next_chunk` on a chunk that is long enough. -/
theorem splitNextChunk_spec (hj : ChunkInv j) {lb len n : ℕ} (hm : (lb, len) ∈ j.jarrFreeLb)
    (hn : 0 < n) (h : n ≤ len) :
    ∃ j', j.splitNextChunk lb len n = some (some (lb, j')) ∧ Taken j n lb j' := by
  unfold splitNextChunk
  rw [if_neg (by omega)]
  split_ifs with hall
  · subst hall
    obtain ⟨j', h', ht⟩ := cut_all hj hm
    exact ⟨j', by simp [h'], ht⟩
  · obtain ⟨j', j'', h', h'', ht⟩ := cut_left hj hm hn (by omega)
    exact ⟨j'', by simp [h', h''], ht⟩

/-! ### `allocate_lb` -/

/-- The two ways in which a part of `allocate_lb` may end: nothing found, or `n` blocks taken. -/
def TakesOrNone (j : JudySeekOptimizer) (n : ℕ) (r : Option (Option (ℕ × JudySeekOptimizer))) :
    Prop :=
  r = some none ∨ ∃ lb j', r = some (some (lb, j')) ∧ Taken j n lb j'

theorem splitPrevChunk_takesOrNone (hj : ChunkInv j) {lb len n : ℕ}
    (hm : (lb, len) ∈ j.jarrFreeLb) (hn : 0 < n) : TakesOrNone j n (j.splitPrevChunk lb len n) := by
  by_cases h : n ≤ len
  · obtain ⟨j', h', ht⟩ := splitPrevChunk_spec hj hm hn h
    exact Or.inr ⟨_, j', h', ht⟩
  · exact Or.inl (by unfold splitPrevChunk; rw [if_pos (by omega)])

theorem splitNextChunk_takesOrNone (hj : ChunkInv j) {lb len n : ℕ}
    (hm : (lb, len) ∈ j.jarrFreeLb) (hn : 0 < n) : TakesOrNone j n (j.splitNextChunk lb len n) := by
  by_cases h : n ≤ len
  · obtain ⟨j', h', ht⟩ := splitNextChunk_spec hj hm hn h
    exact Or.inr ⟨_, j', h', ht⟩
  · exact Or.inl (by unfold splitNextChunk; rw [if_pos (by omega)])

/-- What `is_prev_neighbor_allocable` finds is a chunk below the request; when the request starts
inside it, it ends inside it. -/
theorem isPrevNeighborAllocable_some {r n lb len : ℕ}
    (h : j.isPrevNeighborAllocable r n = some (lb, len)) :
    (lb, len) ∈ j.jarrFreeLb ∧ lb < r ∧
      (lb + len - 1 > r → r + n - 1 ≤ lb + len - 1) ∧ (¬ lb + len - 1 > r → n ≤ len) := by
  unfold isPrevNeighborAllocable at h
  cases hp : j.jarrFreeLb.prev? r with
  | none => rw [hp] at h; cases h
  | some e =>
    obtain ⟨l, m⟩ := e
    rw [hp] at h
    obtain ⟨hmem, hlt, -⟩ := JudyArray.prev?_eq_some_iff.1 hp
    dsimp only at h
    split_ifs at h with h1 h2 h3 <;> cases h
    · exact ⟨hmem, hlt, fun _ => h2, fun hc => absurd h1 hc⟩
    · exact ⟨hmem, hlt, fun hc => absurd hc h1, fun _ => h3⟩

theorem isNextNeighborAllocable_some {r n lb len : ℕ}
    (h : j.isNextNeighborAllocable r n = some (lb, len)) : (lb, len) ∈ j.jarrFreeLb := by
  unfold isNextNeighborAllocable at h
  cases hp : j.jarrFreeLb.next? r with
  | none => rw [hp] at h; cases h
  | some e =>
    obtain ⟨l, m⟩ := e
    rw [hp] at h
    dsimp only at h
    split_ifs at h
    cases h
    exact (JudyArray.next?_eq_some_iff.1 hp).1

theorem allocateNear_spec (hj : ChunkInv j) (hint : ℕ) {n : ℕ} (hn : 0 < n) :
    TakesOrNone j n (j.allocateNear hint n) := by
  unfold allocateNear
  cases hg : j.jarrFreeLb.get? hint with
  | some len =>
    have hm := JudyArray.get?_eq_some_iff.1 hg
    dsimp only
    split_ifs with hle
    · obtain ⟨j', h', ht⟩ := splitCurrChunk_spec hj hm hn le_rfl (by omega)
      exact Or.inr ⟨hint, j', by rw [h']; rfl, ht⟩
    · exact Or.inl rfl
  | none =>
    dsimp only
    cases hp : j.isPrevNeighborAllocable hint n with
    | none =>
      cases hx : j.isNextNeighborAllocable hint 0 with
      | none => exact Or.inl rfl
      | some e => exact splitNextChunk_takesOrNone hj (isNextNeighborAllocable_some hx) hn
    | some e =>
      obtain ⟨lb, len⟩ := e
      obtain ⟨hm, hlt, hin, hout⟩ := isPrevNeighborAllocable_some hp
      dsimp only
      split_ifs with hgt
      · have := hin hgt
        obtain ⟨j', h', ht⟩ := splitCurrChunk_spec hj hm hn hlt.le (by omega)
        exact Or.inr ⟨hint, j', by simp [h'], ht⟩
      · obtain ⟨j', h', ht⟩ := splitPrevChunk_spec hj hm hn (hout hgt)
        exact Or.inr ⟨_, j', by simp [h'], ht⟩

theorem allocateExact_spec (hj : ChunkInv j) (hint : ℕ) {n : ℕ} (hn : 0 < n) :
    TakesOrNone j n (j.allocateExact hint n) := by
  unfold allocateExact
  cases hx : j.jarrFreeContigLen.getClosestL1Element n hint with
  | none => exact Or.inl rfl
  | some x =>
    obtain ⟨lb, hlb⟩ := JudyHashMap.getClosestL1Element_get? hx
    obtain ⟨hm, rfl⟩ := (hj.contig n lb x).1 hlb
    dsimp only
    split_ifs
    · exact splitNextChunk_takesOrNone hj hm hn
    · exact splitPrevChunk_takesOrNone hj hm hn

theorem allocateLarger_spec (hj : ChunkInv j) (hint : ℕ) {n : ℕ} (hn : 0 < n) :
    TakesOrNone j n (j.allocateLarger hint n) := by
  unfold allocateLarger
  cases hx : j.jarrFreeContigLen.getClosestL0Element n hint with
  | none => exact Or.inl rfl
  | some e =>
    obtain ⟨len, lb⟩ := e
    obtain ⟨-, x, hlb⟩ := JudyHashMap.getClosestL0Element_get? hx
    obtain ⟨hm, -⟩ := (hj.contig len lb x).1 hlb
    dsimp only
    split_ifs
    · exact splitNextChunk_takesOrNone hj hm hn
    · exact splitPrevChunk_takesOrNone hj hm hn

end Chunks

/-! ### The counters -/

/-- The invariant of the optimizer: the chunks are well formed and the counters count them. -/
structure SeekInv (j : JudySeekOptimizer) : Prop where
  chunks : ChunkInv j
  free : j.totalFreeBlocks = j.jarrFreeLb.total
  allocated : j.totalFreeBlocks + j.totalAllocatedBlocks = j.totalBlocks

section Ops

variable {j : JudySeekOptimizer}

/-- `j'` is `j` after the allocation of the free blocks `lb, …, lb + n - 1`. -/
structure Allocated (j : JudySeekOptimizer) (n lb : ℕ) (j' : JudySeekOptimizer) : Prop where
  inv : SeekInv j'
  totalBlocks : j'.totalBlocks = j.totalBlocks
  offset : j'.logicalStartBlockOffset = j.logicalStartBlockOffset
  wasFree : ∀ b, lb ≤ b → b < lb + n → FreeAt j b
  freeAt : ∀ b, FreeAt j' b ↔ FreeAt j b ∧ ¬ (lb ≤ b ∧ b < lb + n)

theorem recordAllocatedBlocks_spec (hj : SeekInv j) {j' : JudySeekOptimizer} {n lb : ℕ}
    (ht : Taken j n lb j') :
    ∃ j'', j'.recordAllocatedBlocks n = some j'' ∧ Allocated j n lb j'' := by
  have hfree := hj.free
  have hall := hj.allocated
  have htot := ht.total
  have h1 := ht.frame.totalBlocks
  have h2 := ht.frame.allocated
  have h3 := ht.frame.free
  unfold recordAllocatedBlocks
  rw [if_neg (by omega)]
  refine ⟨_, rfl, ⟨⟨ht.inv.pos, ht.inv.lower, ht.inv.upper, ht.inv.apart, ht.inv.contig⟩,
    ?_, ?_⟩, h1, ht.frame.offset, ht.wasFree, ht.freeAt⟩
  · change j'.totalFreeBlocks - n = j'.jarrFreeLb.total
    omega
  · change j'.totalFreeBlocks - n + (j'.totalAllocatedBlocks + n) = j'.totalBlocks
    omega

/-- `allocate_lb` never reaches an assertion: it takes `n` free blocks or changes nothing. -/
theorem allocateLb_spec (hj : SeekInv j) (hint : ℕ) {n : ℕ} (hn : 0 < n) :
    j.allocateLb hint n = some none ∨
      ∃ lb j', j.allocateLb hint n = some (some (lb, j')) ∧ Allocated j n lb j' := by
  have hdone : ∀ {lb j'}, Taken j n lb j' →
      ∃ j'', j'.recordAllocatedBlocks n = some j'' ∧ Allocated j n lb j'' :=
    fun ht => recordAllocatedBlocks_spec hj ht
  unfold allocateLb
  split_ifs with hbad
  · exact Or.inl rfl
  · rcases allocateNear_spec hj.chunks hint hn with h1 | ⟨lb, j', h1, ht⟩
    · rcases allocateExact_spec hj.chunks hint hn with h2 | ⟨lb, j', h2, ht⟩
      · rcases allocateLarger_spec hj.chunks hint hn with h3 | ⟨lb, j', h3, ht⟩
        · exact Or.inl (by simp [h1, h2, h3])
        · obtain ⟨j'', hr, ha⟩ := hdone ht
          exact Or.inr ⟨lb, j'', by simp [h1, h2, h3, hr], ha⟩
      · obtain ⟨j'', hr, ha⟩ := hdone ht
        exact Or.inr ⟨lb, j'', by simp [h1, h2, hr], ha⟩
    · obtain ⟨j'', hr, ha⟩ := hdone ht
      exact Or.inr ⟨lb, j'', by simp [h1, hr], ha⟩

theorem ChunkInv.chunk_of_run (hj : ChunkInv j) {b n : ℕ} (hn : 0 < n)
    (hb : ∀ x, b ≤ x → x < b + n → FreeAt j x) :
    ∃ lb len, (lb, len) ∈ j.jarrFreeLb ∧ lb ≤ b ∧ b + n ≤ lb + len := by
  obtain ⟨lb, len, hm, h1, h2⟩ := hb b le_rfl (by omega)
  refine ⟨lb, len, hm, h1, ?_⟩
  by_contra hc
  exact hj.not_freeAt_end hm (hb (lb + len) (by omega) (by omega))

theorem allocateLb_hint (hj : SeekInv j) {b n : ℕ} (hn : 0 < n)
    (hb : ∀ x, b ≤ x → x < b + n → FreeAt j x) :
    ∃ j', j.allocateLb b n = some (some (b, j')) ∧ Allocated j n b j' := by
  obtain ⟨lb, len, hm, h1, h2⟩ := hj.chunks.chunk_of_run hn hb
  have hhi := hj.chunks.upper hm
  have hnear : ∃ j', j.allocateNear b n = some (some (b, j')) ∧ Taken j n b j' := by
    unfold allocateNear
    rcases h1.eq_or_lt with rfl | hlt
    · rw [JudyArray.get?_eq_some_iff.2 hm]
      obtain ⟨j', h', ht⟩ := splitCurrChunk_spec hj.chunks hm hn le_rfl (by omega)
      exact ⟨j', by dsimp only; rw [if_pos (by omega), h']; rfl, ht⟩
    · have hnone : j.jarrFreeLb.get? b = none := JudyArray.get?_eq_none_iff.2 fun m hm' => by
        have := hj.chunks.apart hm hm' hlt
        omega
      have hprev : j.jarrFreeLb.prev? b = some (lb, len) := by
        refine JudyArray.prev?_eq_some_iff.2 ⟨hm, hlt, fun d hd hdb => ?_⟩
        by_contra hc
        have := hj.chunks.apart hm (show (d.1, d.2) ∈ j.jarrFreeLb from hd) (by omega)
        omega
      rw [hnone]
      unfold isPrevNeighborAllocable
      rw [hprev]
      dsimp only
      by_cases hgt : lb + len - 1 > b
      · obtain ⟨j', h', ht⟩ := splitCurrChunk_spec hj.chunks hm hn h1 (by omega)
        refine ⟨j', ?_, ht⟩
        rw [if_pos hgt, if_pos (by omega)]
        simp [hgt, h']
      · -- the hint is the last block of the chunk, which `split_prev_chunk` gives back
        obtain ⟨j', h', ht⟩ := splitPrevChunk_spec hj.chunks hm hn (by omega)
        have hlast : lb + (len - n) = b := by omega
        rw [hlast] at h' ht
        refine ⟨j', ?_, ht⟩
        rw [if_neg hgt, if_pos (by omega)]
        simp [hgt, h']
  obtain ⟨j', h', ht⟩ := hnear
  obtain ⟨j'', hr, ha⟩ := recordAllocatedBlocks_spec hj ht
  refine ⟨j'', ?_, ha⟩
  have hroom : n ≤ j.totalFreeBlocks := by
    have := ht.total
    have := hj.free
    omega
  unfold allocateLb
  rw [if_neg (by omega)]
  simp [h', hr]

/-! ### `free_lb` -/

/-- `j'` is `j` with the blocks `lb, …, lb + n - 1` given back. -/
structure Given (j : JudySeekOptimizer) (n lb : ℕ) (j' : JudySeekOptimizer) : Prop where
  inv : ChunkInv j'
  frame : Frame j j'
  total : j'.jarrFreeLb.total = j.jarrFreeLb.total + n
  freeAt : ∀ b, FreeAt j' b ↔ FreeAt j b ∨ (lb ≤ b ∧ b < lb + n)

/-- The blocks `lb, …, lb + n - 1` are on the device and none of them is free. -/
structure Releasable (j : JudySeekOptimizer) (lb n : ℕ) : Prop where
  pos : 0 < n
  lower : j.logicalStartBlockOffset ≤ lb
  upper : lb + n ≤ j.logicalStartBlockOffset + j.totalBlocks
  used : ∀ b, lb ≤ b → b < lb + n → ¬ FreeAt j b

/-- The next neighbour is the chunk that starts at the end of the range, if there is one. -/
def IsNext (j : JudySeekOptimizer) (e : ℕ) : Option (ℕ × ℕ) → Prop
  | some (lb, len) => (lb, len) ∈ j.jarrFreeLb ∧ lb = e
  | none => ¬ FreeAt j e

/-- The previous neighbour is the chunk that ends at the start of the range, if there is one. -/
def IsPrev (j : JudySeekOptimizer) (s : ℕ) : Option (ℕ × ℕ) → Prop
  | some (lb, len) => (lb, len) ∈ j.jarrFreeLb ∧ lb + len = s
  | none => ∀ b, b + 1 = s → ¬ FreeAt j b

theorem mergableNext_spec (hj : ChunkInv j) {lb n : ℕ} (hr : Releasable j lb n) :
    ∃ o, j.mergableNext lb n = some o ∧ IsNext j (lb + n) o := by
  have hlb : ¬ FreeAt j lb := hr.used lb le_rfl (by have := hr.pos; omega)
  unfold mergableNext
  cases hx : j.jarrFreeLb.next? lb with
  | none =>
    refine ⟨none, rfl, ?_⟩
    rintro ⟨l, m, hm, h1, h2⟩
    have := JudyArray.next?_eq_none_iff.1 hx _ hm
    exact hlb (freeAt_of_mem hm this (by omega))
  | some e =>
    obtain ⟨l, m⟩ := e
    obtain ⟨hm, hlt, hmin⟩ := JudyArray.next?_eq_some_iff.1 hx
    have hpos := hj.pos hm
    dsimp only at hlt hmin ⊢
    rw [if_neg (by unfold neighborOverlaps; simp; omega)]
    split_ifs with heq
    · exact ⟨_, rfl, hm, heq.symm⟩
    · refine ⟨none, rfl, ?_⟩
      rintro ⟨l', m', hm', h1, h2⟩
      by_cases hl : l' ≤ lb
      · exact hlb (freeAt_of_mem hm' hl (by omega))
      · have := hmin _ hm' (by omega)
        exact hr.used l hlt.le (by omega) (freeAt_of_mem hm le_rfl (by omega))

theorem mergablePrev_spec (hj : ChunkInv j) {lb n : ℕ} (hr : Releasable j lb n) :
    ∃ o, j.mergablePrev lb = some o ∧ IsPrev j lb o := by
  have hlb : ¬ FreeAt j lb := hr.used lb le_rfl (by have := hr.pos; omega)
  unfold mergablePrev
  cases hx : j.jarrFreeLb.prev? lb with
  | none =>
    refine ⟨none, rfl, fun b hb => ?_⟩
    rintro ⟨l, m, hm, h1, h2⟩
    have := JudyArray.prev?_eq_none_iff.1 hx _ hm
    dsimp only at this
    omega
  | some e =>
    obtain ⟨l, m⟩ := e
    obtain ⟨hm, hlt, hmax⟩ := JudyArray.prev?_eq_some_iff.1 hx
    dsimp only at hlt hmax ⊢
    have hout : l + m ≤ lb := by
      by_contra hc
      exact hlb (freeAt_of_mem hm hlt.le (by omega))
    rw [if_neg (by unfold neighborOverlaps; simp; omega)]
    split_ifs with heq
    · exact ⟨_, rfl, hm, heq⟩
    · refine ⟨none, rfl, fun b hb => ?_⟩
      rintro ⟨l', m', hm', h1, h2⟩
      have hle := hmax _ hm' (by dsimp only; omega)
      dsimp only at hle
      rcases hle.eq_or_lt with hll | hll
      · subst hll
        have := JudyArray.eq_of_mem hm hm'
        omega
      · have := hj.apart hm' hm hll
        omega

/-- `is_mergable` passes its sanity checks and finds the two neighbours. -/
theorem isMergable_spec (hj : ChunkInv j) {lb n : ℕ} (hr : Releasable j lb n) :
    ∃ nb, j.isMergable lb n = some nb ∧ IsNext j (lb + n) nb.next ∧ IsPrev j lb nb.prev := by
  obtain ⟨o, ho, hn⟩ := mergableNext_spec hj hr
  obtain ⟨p, hp, hq⟩ := mergablePrev_spec hj hr
  exact ⟨⟨o, p⟩, by simp [isMergable, ho, hp], hn, hq⟩

theorem give_alone (hj : ChunkInv j) {lb n : ℕ} (hr : Releasable j lb n)
    (hnext : IsNext j (lb + n) none) (hprev : IsPrev j lb none) :
    ∃ j', j.addElement lb n = some j' ∧ Given j n lb j' := by
  obtain ⟨j', h', hinv, hfr, htot, hfree⟩ := addElement_spec hj hr.pos hr.lower hr.upper
    (fun b h1 h2 => by
      rcases Nat.lt_or_ge b lb with hb | hb
      · exact hprev b (by omega)
      · rcases h2.eq_or_lt with rfl | hlt
        · exact hnext
        · exact hr.used b hb hlt)
  exact ⟨j', h', hinv, hfr, htot, hfree⟩

theorem give_prev (hj : ChunkInv j) {lb n l m : ℕ} (hr : Releasable j lb n)
    (hnext : IsNext j (lb + n) none) (hm : (l, m) ∈ j.jarrFreeLb) (hlm : l + m = lb) :
    ∃ j' j'', j.removeElement l m = some j' ∧ j'.addElement l (m + n) = some j'' ∧
      Given j n lb j'' := by
  obtain ⟨j', h', hinv', hfr', htot', hfree'⟩ := removeElement_spec hj hm
  have hlo := hj.lower hm
  have hpos := hr.pos
  have hhi := hr.upper
  have hapart : ∀ b, l ≤ b + 1 → b ≤ l + (m + n) → ¬ FreeAt j' b := by
    intro b h1 h2 hb
    obtain ⟨hb, hout⟩ := (hfree' b).1 hb
    by_cases hbef : b + 1 = l
    · exact hj.not_freeAt_before hm hbef hb
    · by_cases hend : b = lb + n
      · exact hnext (hend ▸ hb)
      · exact hr.used b (by omega) (by omega) hb
  obtain ⟨j'', h'', hinv, hfr, htot, hfree⟩ := addElement_spec hinv' (by omega : 0 < m + n)
    (by rw [hfr'.offset]; omega) (by rw [hfr'.offset, hfr'.totalBlocks]; omega) hapart
  refine ⟨j', j'', h', h'', hinv, hfr'.trans hfr, by omega, fun b => ?_⟩
  rw [hfree, hfree']
  constructor
  · rintro (⟨hb, -⟩ | hin)
    · exact Or.inl hb
    · by_cases hb : lb ≤ b
      · exact Or.inr (by omega)
      · exact Or.inl (freeAt_of_mem hm (by omega) (by omega))
  · rintro (hb | hin)
    · by_cases hin : l ≤ b ∧ b < l + m
      · exact Or.inr (by omega)
      · exact Or.inl ⟨hb, hin⟩
    · exact Or.inr (by omega)

theorem give_next (hj : ChunkInv j) {lb n m : ℕ} (hr : Releasable j lb n)
    (hprev : IsPrev j lb none) (hm : (lb + n, m) ∈ j.jarrFreeLb) :
    ∃ j' j'', j.removeElement (lb + n) m = some j' ∧ j'.addElement lb (n + m) = some j'' ∧
      Given j n lb j'' := by
  obtain ⟨j', h', hinv', hfr', htot', hfree'⟩ := removeElement_spec hj hm
  have hlo := hr.lower
  have hpos := hr.pos
  have hhi := hj.upper hm
  have hapart : ∀ b, lb ≤ b + 1 → b ≤ lb + (n + m) → ¬ FreeAt j' b := by
    intro b h1 h2 hb
    obtain ⟨hb, hout⟩ := (hfree' b).1 hb
    by_cases hbef : b + 1 = lb
    · exact hprev b hbef hb
    · by_cases hend : b = lb + n + m
      · exact hj.not_freeAt_end hm (hend ▸ hb)
      · exact hr.used b (by omega) (by omega) hb
  obtain ⟨j'', h'', hinv, hfr, htot, hfree⟩ := addElement_spec hinv' (by omega : 0 < n + m)
    (by rw [hfr'.offset]; omega) (by rw [hfr'.offset, hfr'.totalBlocks]; omega) hapart
  refine ⟨j', j'', h', h'', hinv, hfr'.trans hfr, by omega, fun b => ?_⟩
  rw [hfree, hfree']
  constructor
  · rintro (⟨hb, -⟩ | hin)
    · exact Or.inl hb
    · by_cases hb : b < lb + n
      · exact Or.inr (by omega)
      · exact Or.inl (freeAt_of_mem hm (by omega) (by omega))
  · rintro (hb | hin)
    · by_cases hin : lb + n ≤ b ∧ b < lb + n + m
      · exact Or.inr (by omega)
      · exact Or.inl ⟨hb, hin⟩
    · exact Or.inr (by omega)

theorem give_both (hj : ChunkInv j) {lb n l m m' : ℕ} (hr : Releasable j lb n)
    (hm : (l, m) ∈ j.jarrFreeLb) (hlm : l + m = lb) (hm' : (lb + n, m') ∈ j.jarrFreeLb) :
    ∃ j' j'' j₃, j.removeElement (lb + n) m' = some j' ∧ j'.removeElement l m = some j'' ∧
      j''.addElement l (m + n + m') = some j₃ ∧ Given j n lb j₃ := by
  obtain ⟨j', h', hinv', hfr', htot', hfree'⟩ := removeElement_spec hj hm'
  have hlo := hj.lower hm
  have hpos := hr.pos
  have hposm := hj.pos hm
  have hhi := hj.upper hm'
  -- the previous chunk survives the removal of the next one
  have hmj' : (l, m) ∈ j'.jarrFreeLb :=
    (removeElement_mem h').2 ⟨hm, by dsimp only; omega⟩
  obtain ⟨j'', h'', hinv'', hfr'', htot'', hfree''⟩ := removeElement_spec hinv' hmj'
  have hapart : ∀ b, l ≤ b + 1 → b ≤ l + (m + n + m') → ¬ FreeAt j'' b := by
    intro b h1 h2 hb
    obtain ⟨hb, hout⟩ := (hfree'' b).1 hb
    obtain ⟨hb, hout'⟩ := (hfree' b).1 hb
    by_cases hbef : b + 1 = l
    · exact hj.not_freeAt_before hm hbef hb
    · by_cases hend : b = lb + n + m'
      · exact hj.not_freeAt_end hm' (hend ▸ hb)
      · exact hr.used b (by omega) (by omega) hb
  obtain ⟨j₃, h₃, hinv, hfr, htot, hfree⟩ := addElement_spec hinv'' (by omega : 0 < m + n + m')
    (by rw [hfr''.offset, hfr'.offset]; omega)
    (by rw [hfr''.offset, hfr''.totalBlocks, hfr'.offset, hfr'.totalBlocks]; omega) hapart
  refine ⟨j', j'', j₃, h', h'', h₃, hinv, (hfr'.trans hfr'').trans hfr, by omega, fun b => ?_⟩
  rw [hfree, hfree'', hfree']
  constructor
  · rintro (⟨⟨hb, -⟩, -⟩ | hin)
    · exact Or.inl hb
    · by_cases hl : b < lb
      · exact Or.inl (freeAt_of_mem hm (by omega) (by omega))
      · by_cases hb : b < lb + n
        · exact Or.inr (by omega)
        · exact Or.inl (freeAt_of_mem hm' (by omega) (by omega))
  · rintro (hb | hin)
    · by_cases hin : l ≤ b ∧ b < l + (m + n + m')
      · exact Or.inr hin
      · exact Or.inl ⟨⟨hb, by omega⟩, by omega⟩
    · exact Or.inr (by omega)

/-- `j'` is `j` after the release of the blocks `lb, …, lb + n - 1`. -/
structure Released (j : JudySeekOptimizer) (n lb : ℕ) (j' : JudySeekOptimizer) : Prop where
  inv : SeekInv j'
  totalBlocks : j'.totalBlocks = j.totalBlocks
  offset : j'.logicalStartBlockOffset = j.logicalStartBlockOffset
  freeAt : ∀ b, FreeAt j' b ↔ FreeAt j b ∨ (lb ≤ b ∧ b < lb + n)

theorem ChunkInv.total_le (hj : ChunkInv j) : j.jarrFreeLb.total ≤ j.totalBlocks := by
  have h := JudyArray.total_le_of_disjoint (m := j.jarrFreeLb)
    (Nat.le_add_right j.logicalStartBlockOffset j.totalBlocks) (fun e he => ⟨hj.lower he, hj.upper he⟩)
    (fun d hd e he hlt => (hj.apart hd he hlt).le)
  omega

theorem recordFreedBlocks_spec (hj : SeekInv j) {j' : JudySeekOptimizer} {n lb : ℕ}
    (hg : Given j n lb j') :
    ∃ j'', j'.recordFreedBlocks n = some j'' ∧ Released j n lb j'' := by
  have hfree := hj.free
  have hall := hj.allocated
  have htot := hg.total
  have h1 := hg.frame.totalBlocks
  have h2 := hg.frame.allocated
  have h3 := hg.frame.free
  have hle := hg.inv.total_le
  unfold recordFreedBlocks
  rw [if_neg (by omega)]
  refine ⟨_, rfl, ⟨⟨hg.inv.pos, hg.inv.lower, hg.inv.upper, hg.inv.apart, hg.inv.contig⟩,
    ?_, ?_⟩, h1, hg.frame.offset, hg.freeAt⟩
  · change j'.totalFreeBlocks + n = j'.jarrFreeLb.total
    omega
  · change j'.totalFreeBlocks + n + (j'.totalAllocatedBlocks - n) = j'.totalBlocks
    omega

/-- `free_lb` on a range of used blocks never reaches an assertion and adds exactly the range. -/
theorem freeLb_spec (hj : SeekInv j) {lb n : ℕ} (hr : Releasable j lb n) :
    ∃ j', j.freeLb lb n = some (some j') ∧ Released j n lb j' := by
  have hlb : ¬ FreeAt j lb := hr.used lb le_rfl (by have := hr.pos; omega)
  have hnone : j.jarrFreeLb.get? lb = none := JudyArray.get?_eq_none_iff.2 fun m hm =>
    hlb (freeAt_of_mem hm le_rfl (by have := hj.chunks.pos hm; omega))
  obtain ⟨⟨next, prev⟩, hnb, hnext, hprev⟩ := isMergable_spec hj.chunks hr
  have hadd : ∃ j', (if next.isSome ∨ prev.isSome then j.merge lb n ⟨next, prev⟩
      else j.addElement lb n) = some j' ∧ Given j n lb j' := by
    rcases next with _ | ⟨nl, nm⟩ <;> rcases prev with _ | ⟨pl, pm⟩
    · rw [if_neg (by simp)]
      exact give_alone hj.chunks hr hnext hprev
    · rw [if_pos (by simp)]
      obtain ⟨j', j'', h', h'', hg⟩ := give_prev hj.chunks hr hnext hprev.1 hprev.2
      exact ⟨j'', by simp [merge, h', h''], hg⟩
    · rw [if_pos (by simp)]
      obtain ⟨hm, rfl⟩ := hnext
      obtain ⟨j', j'', h', h'', hg⟩ := give_next hj.chunks hr hprev hm
      exact ⟨j'', by simp [merge, h', h''], hg⟩
    · rw [if_pos (by simp)]
      obtain ⟨hm, rfl⟩ := hnext
      obtain ⟨j', j'', j₃, h', h'', h₃, hg⟩ := give_both hj.chunks hr hprev.1 hprev.2 hm
      exact ⟨j₃, by simp [merge, h', h'', h₃], hg⟩
  obtain ⟨j', h', hg⟩ := hadd
  obtain ⟨j'', h'', hrel⟩ := recordFreedBlocks_spec hj hg
  refine ⟨j'', ?_, hrel⟩
  unfold freeLb
  rw [if_neg (by have := hr.lower; omega), hnone, hnb]
  split_ifs at h' with hmerge <;> simp [hmerge, h', h'']

theorem init_spec {total : ℕ} (offset : ℕ) (ht : 0 < total) :
    SeekInv (init total offset) ∧
      ∀ b, FreeAt (init total offset) b ↔ offset ≤ b ∧ b < offset + total := by
  have hmem : ∀ lb len, (lb, len) ∈ (init total offset).jarrFreeLb ↔ lb = offset ∧ len = total := by
    intro lb len
    change (lb, len) ∈ JudyArray.empty.insert offset total ↔ _
    simp [JudyArray.mem_insert]
  refine ⟨⟨⟨fun h => ?_, fun h => ?_, fun h => ?_, fun h h' hlt => ?_, fun len lb v => ?_⟩,
    ?_, rfl⟩, fun b => ?_⟩
  · obtain ⟨rfl, rfl⟩ := (hmem _ _).1 h
    exact ht
  · obtain ⟨rfl, rfl⟩ := (hmem _ _).1 h
    exact le_rfl
  · obtain ⟨rfl, rfl⟩ := (hmem _ _).1 h
    exact le_rfl
  · obtain ⟨rfl, rfl⟩ := (hmem _ _).1 h
    obtain ⟨rfl, rfl⟩ := (hmem _ _).1 h'
    omega
  · change ((JudyHashMap.mk (JudyArray.empty.insert total
        (JudyArray.empty.insert offset offset))).vertical len).get? lb = some v ↔ _
    rw [hmem, JudyHashMap.vertical_insert ⟨JudyArray.empty⟩]
    by_cases hlen : len = total
    · rw [if_pos hlen, JudyArray.get?_insert]
      by_cases hlb : lb = offset <;> simp [hlen, hlb, eq_comm]
    · rw [if_neg hlen]
      simp [JudyHashMap.vertical, hlen]
  · change total = (JudyArray.empty.insert offset total).total
    rw [JudyArray.total_insert (JudyArray.get?_empty _)]
    simp [JudyArray.total]
  · constructor
    · rintro ⟨lb, len, hm, h1, h2⟩
      obtain ⟨rfl, rfl⟩ := (hmem _ _).1 hm
      exact ⟨h1, h2⟩
    · intro h
      exact ⟨offset, total, (hmem _ _).2 ⟨rfl, rfl⟩, h.1, h.2⟩

end Ops

end JudySeekOptimizer

end DssSdk.BlockAllocator
