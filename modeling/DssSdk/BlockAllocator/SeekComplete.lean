import DssSdk.BlockAllocator.SeekInvariant

/-!
# The search of the seek optimizer is complete

`allocate_lb` fails only if no free chunk is long enough.

* `Dense`: no vertical array of the two level map is empty. `delete_element` removes an array with
  its last entry, so that the closest entry of a length that is there is always found;
* `allocateLb_complete`: a chunk that is long enough is found;
* `Edits`: a sequence of removals and additions of chunks, which is all that `allocate_lb` and
  `free_lb` do to the maps, and which keeps them dense.
-/

namespace DssSdk.BlockAllocator

namespace JudyHashMap

/-- No vertical array is empty. -/
def Dense (m : JudyHashMap) : Prop := ∀ e ∈ m.jarrL0, e.2.entries ≠ []

theorem vertical_of_mem {m : JudyHashMap} {h : ℕ} {jarr : JudyArray ℕ}
    (hmem : (h, jarr) ∈ m.jarrL0) : m.vertical h = jarr := by
  unfold vertical
  rw [JudyArray.get?_eq_some_iff.2 hmem]
  rfl

/-- An entry beside `v` is found if there is one. -/
theorem getClosestOnVjarr_isSome {v : ℕ} {jarr : JudyArray ℕ} {e : ℕ × ℕ} (he : e ∈ jarr)
    (hv : e.1 ≠ v) : ∃ d, getClosestOnVjarr v jarr = some d := by
  have hside : jarr.prev? v ≠ none ∨ jarr.next? v ≠ none := by
    rcases Nat.lt_or_gt_of_ne hv with hlt | hgt
    · exact Or.inl fun h0 => absurd (JudyArray.prev?_eq_none_iff.1 h0 e he) (not_le.2 hlt)
    · exact Or.inr fun h0 => absurd (JudyArray.next?_eq_none_iff.1 h0 e he) (not_le.2 hgt)
  unfold getClosestOnVjarr
  cases hp : jarr.prev? v with
  | some p =>
    cases hn : jarr.next? v with
    | some n =>
      dsimp only
      split_ifs
      · exact ⟨p, rfl⟩
      · exact ⟨n, rfl⟩
    | none => exact ⟨p, rfl⟩
  | none =>
    cases hn : jarr.next? v with
    | some n => exact ⟨n, rfl⟩
    | none => exact absurd hside (by rw [hp, hn]; simp)

/-- A value at a length is found if there is one beside `v`. -/
theorem getClosestL1Element_isSome {m : JudyHashMap} {h v v' x : ℕ} (hx : m.get? h v' = some x)
    (hv : v' ≠ v) : ∃ y, m.getClosestL1Element h v = some y := by
  unfold get? vertical at hx
  unfold getClosestL1Element
  cases hj : m.jarrL0.get? h with
  | none =>
    rw [hj] at hx
    cases hx
  | some jarr =>
    rw [hj, Option.getD_some] at hx
    obtain ⟨d, hd⟩ := getClosestOnVjarr_isSome (JudyArray.get?_eq_some_iff.1 hx) hv
    exact ⟨d.2, by dsimp only; rw [hd]; rfl⟩

/-- An entry above a length is found if there is one, and none of them is at `v`. -/
theorem getClosestL0Element_isSome {m : JudyHashMap} (hm : m.Dense) {h v h' v' x : ℕ}
    (hx : m.get? h' v' = some x) (hh : h < h') (hv : ∀ h'', h < h'' → m.get? h'' v = none) :
    ∃ e, m.getClosestL0Element h v = some e := by
  unfold getClosestL0Element
  cases hj : m.jarrL0.next? h with
  | none =>
    have hnone : m.jarrL0.get? h' = none := by
      refine JudyArray.get?_eq_none_iff.2 fun jarr hmem => ?_
      exact absurd (JudyArray.next?_eq_none_iff.1 hj _ hmem) (not_le.2 hh)
    unfold get? vertical at hx
    rw [hnone] at hx
    cases hx
  | some p =>
    obtain ⟨k, jarr⟩ := p
    obtain ⟨hmem, hlt, -⟩ := JudyArray.next?_eq_some_iff.1 hj
    obtain ⟨e, l, hl⟩ := List.exists_cons_of_ne_nil (hm _ hmem)
    have he : e ∈ jarr := by
      show e ∈ jarr.entries
      exact hl ▸ List.mem_cons_self
    have hne : e.1 ≠ v := by
      intro h0
      have hnone := hv k hlt
      unfold get? at hnone
      rw [vertical_of_mem hmem] at hnone
      exact JudyArray.get?_eq_none_iff.1 hnone e.2 (h0 ▸ he)
    obtain ⟨d, hd⟩ := getClosestOnVjarr_isSome he hne
    exact ⟨(k, d.1), by dsimp only; rw [hd]; rfl⟩

/-! ### The updates keep the map dense -/

theorem insertEntries_ne_nil {α : Type} (k : ℕ) (v : α) (l : List (ℕ × α)) :
    JudyArray.insertEntries k v l ≠ [] := by
  cases l with
  | nil => exact List.cons_ne_nil _ _
  | cons e l =>
    unfold JudyArray.insertEntries
    split_ifs <;> exact List.cons_ne_nil _ _

theorem Dense.insertElement {m m' : JudyHashMap} (hm : m.Dense) {h v x : ℕ}
    (hins : m.insertElement h v x = some m') : m'.Dense := by
  unfold JudyHashMap.insertElement at hins
  split_ifs at hins
  cases hins
  intro e he
  rcases JudyArray.mem_insert.1 he with rfl | ⟨he, -⟩
  · exact insertEntries_ne_nil v x _
  · exact hm e he

theorem Dense.deleteElement {m m' : JudyHashMap} (hm : m.Dense) {h v : ℕ}
    (hdel : m.deleteElement h v = some m') : m'.Dense := by
  unfold JudyHashMap.deleteElement at hdel
  split at hdel
  · cases hdel
  · split at hdel
    · cases hdel
    · split_ifs at hdel with hempty
      · cases hdel
        exact fun e he => hm e (JudyArray.mem_erase.1 he).1
      · cases hdel
        intro e he
        rcases JudyArray.mem_insert.1 he with rfl | ⟨he, -⟩
        · exact hempty
        · exact hm e he

end JudyHashMap

namespace JudySeekOptimizer

variable {j : JudySeekOptimizer}

/-! ### Completeness -/

theorem allocateNear_ne_none (hj : ChunkInv j) {hint len n : ℕ} (hn : 0 < n)
    (hm : (hint, len) ∈ j.jarrFreeLb) (hle : n ≤ len) : j.allocateNear hint n ≠ some none := by
  unfold allocateNear
  rw [JudyArray.get?_eq_some_iff.2 hm]
  dsimp only
  obtain ⟨j', h', -⟩ := splitCurrChunk_spec hj hm hn le_rfl (by omega)
  rw [if_pos hle, h']
  simp

theorem splitPrevChunk_ne_none (hj : ChunkInv j) {lb len n : ℕ} (hn : 0 < n)
    (hm : (lb, len) ∈ j.jarrFreeLb) (hle : n ≤ len) : j.splitPrevChunk lb len n ≠ some none := by
  obtain ⟨j', h', -⟩ := splitPrevChunk_spec hj hm hn hle
  rw [h']
  simp

theorem splitNextChunk_ne_none (hj : ChunkInv j) {lb len n : ℕ} (hn : 0 < n)
    (hm : (lb, len) ∈ j.jarrFreeLb) (hle : n ≤ len) : j.splitNextChunk lb len n ≠ some none := by
  obtain ⟨j', h', -⟩ := splitNextChunk_spec hj hm hn hle
  rw [h']
  simp

theorem allocateExact_ne_none (hj : ChunkInv j) {hint lb n : ℕ} (hn : 0 < n)
    (hm : (lb, n) ∈ j.jarrFreeLb) (hne : lb ≠ hint) : j.allocateExact hint n ≠ some none := by
  unfold allocateExact
  obtain ⟨x, hx⟩ := JudyHashMap.getClosestL1Element_isSome ((hj.contig n lb lb).2 ⟨hm, rfl⟩) hne
  obtain ⟨l, hl⟩ := JudyHashMap.getClosestL1Element_get? hx
  obtain ⟨hml, rfl⟩ := (hj.contig n l x).1 hl
  rw [hx]
  dsimp only
  split_ifs
  · exact splitNextChunk_ne_none hj hn hml le_rfl
  · exact splitPrevChunk_ne_none hj hn hml le_rfl

theorem allocateLarger_ne_none (hj : ChunkInv j) (hd : j.jarrFreeContigLen.Dense)
    {hint lb len n : ℕ} (hn : 0 < n) (hm : (lb, len) ∈ j.jarrFreeLb) (hlt : n < len)
    (hnear : ∀ m, (hint, m) ∈ j.jarrFreeLb → ¬ n ≤ m) : j.allocateLarger hint n ≠ some none := by
  unfold allocateLarger
  have hnone : ∀ h, n < h → j.jarrFreeContigLen.get? h hint = none := by
    intro h hh
    cases hx : j.jarrFreeContigLen.get? h hint with
    | none => rfl
    | some x => exact absurd hh.le (hnear h ((hj.contig h hint x).1 hx).1)
  obtain ⟨⟨k, l⟩, hx⟩ := JudyHashMap.getClosestL0Element_isSome hd
    ((hj.contig len lb lb).2 ⟨hm, rfl⟩) hlt hnone
  obtain ⟨hk, x, hl⟩ := JudyHashMap.getClosestL0Element_get? hx
  have hml := ((hj.contig k l x).1 hl).1
  rw [hx]
  dsimp only
  split_ifs
  · exact splitNextChunk_ne_none hj hn hml hk.le
  · exact splitPrevChunk_ne_none hj hn hml hk.le

/-- A chunk that is long enough is found. -/
theorem allocateLb_complete (hj : SeekInv j) (hd : j.jarrFreeContigLen.Dense) {hint lb len n : ℕ}
    (hn : 0 < n) (hhint : hint < j.logicalStartBlockOffset + j.totalBlocks)
    (hm : (lb, len) ∈ j.jarrFreeLb) (hle : n ≤ len) : j.allocateLb hint n ≠ some none := by
  have htotal : n ≤ j.totalFreeBlocks := by
    have := JudyArray.total_erase hm
    have := hj.free
    omega
  have hfound : ∀ {l j'}, Taken j n l j' → ∃ j'', j'.recordAllocatedBlocks n = some j'' :=
    fun ht => (recordAllocatedBlocks_spec hj ht).imp fun _ h => h.1
  unfold allocateLb
  rw [if_neg (by omega)]
  rcases allocateNear_spec hj.chunks hint hn with h1 | ⟨l, j', h1, ht⟩
  · have hnear : ∀ m, (hint, m) ∈ j.jarrFreeLb → ¬ n ≤ m :=
      fun m hm' hle' => allocateNear_ne_none hj.chunks hn hm' hle' h1
    have hne : lb ≠ hint := by
      rintro rfl
      exact hnear len hm hle
    rcases allocateExact_spec hj.chunks hint hn with h2 | ⟨l, j', h2, ht⟩
    · have hlt : n < len := by
        refine lt_of_le_of_ne hle ?_
        rintro rfl
        exact allocateExact_ne_none hj.chunks hn hm hne h2
      rcases allocateLarger_spec hj.chunks hint hn with h3 | ⟨l, j', h3, ht⟩
      · exact absurd h3 (allocateLarger_ne_none hj.chunks hd hn hm hlt hnear)
      · obtain ⟨j'', hr⟩ := hfound ht
        simp [h1, h2, h3, hr]
    · obtain ⟨j'', hr⟩ := hfound ht
      simp [h1, h2, hr]
  · obtain ⟨j'', hr⟩ := hfound ht
    simp [h1, hr]

/-! ### The maps stay dense -/

/-- `j'` comes from `j` by removals and additions of chunks, up to the counters. -/
inductive Edits (j : JudySeekOptimizer) : JudySeekOptimizer → Prop
  | refl : Edits j j
  | remove {j' j'' : JudySeekOptimizer} {lb len : ℕ} (h : Edits j j')
      (hr : j'.removeElement lb len = some j'') : Edits j j''
  | add {j' j'' : JudySeekOptimizer} {lb len : ℕ} (h : Edits j j')
      (ha : j'.addElement lb len = some j'') : Edits j j''
  | count {j' : JudySeekOptimizer} (h : Edits j j') (allocated free : ℕ) :
      Edits j { j' with totalAllocatedBlocks := allocated, totalFreeBlocks := free }

theorem Edits.dense {j' : JudySeekOptimizer} (h : Edits j j') (hd : j.jarrFreeContigLen.Dense) :
    j'.jarrFreeContigLen.Dense := by
  induction h with
  | refl => exact hd
  | remove h hr ih =>
    unfold removeElement at hr
    split_ifs at hr
    obtain ⟨m, hm, rfl⟩ := Option.map_eq_some_iff.1 hr
    exact ih.deleteElement hm
  | add h ha ih =>
    unfold addElement at ha
    split_ifs at ha
    obtain ⟨m, hm, rfl⟩ := Option.map_eq_some_iff.1 ha
    exact ih.insertElement hm
  | count h _ _ ih => exact ih

theorem splitCurrChunk_edits {a m r n lb : ℕ} {j' : JudySeekOptimizer}
    (h : j.splitCurrChunk a m r n = some (lb, j')) : Edits j j' := by
  unfold splitCurrChunk at h
  simp only [Option.bind_eq_bind] at h
  split_ifs at h
  · obtain ⟨j₁, h₁, h⟩ := Option.bind_eq_some_iff.1 h
    cases h
    exact Edits.refl.remove h₁
  · obtain ⟨j₁, h₁, h⟩ := Option.bind_eq_some_iff.1 h
    obtain ⟨j₂, h₂, h⟩ := Option.bind_eq_some_iff.1 h
    cases h
    exact (Edits.refl.remove h₁).add h₂
  · obtain ⟨j₁, h₁, h⟩ := Option.bind_eq_some_iff.1 h
    obtain ⟨j₂, h₂, h⟩ := Option.bind_eq_some_iff.1 h
    cases h
    exact (Edits.refl.remove h₁).add h₂
  · obtain ⟨j₁, h₁, h⟩ := Option.bind_eq_some_iff.1 h
    obtain ⟨j₂, h₂, h⟩ := Option.bind_eq_some_iff.1 h
    obtain ⟨j₃, h₃, h⟩ := Option.bind_eq_some_iff.1 h
    cases h
    exact ((Edits.refl.remove h₁).add h₂).add h₃

theorem splitPrevChunk_edits {a m n lb : ℕ} {j' : JudySeekOptimizer}
    (h : j.splitPrevChunk a m n = some (some (lb, j'))) : Edits j j' := by
  unfold splitPrevChunk at h
  simp only [Option.bind_eq_bind] at h
  split_ifs at h
  · cases h
  · obtain ⟨j₁, h₁, h⟩ := Option.bind_eq_some_iff.1 h
    cases h
    exact Edits.refl.remove h₁
  · obtain ⟨j₁, h₁, h⟩ := Option.bind_eq_some_iff.1 h
    obtain ⟨j₂, h₂, h⟩ := Option.bind_eq_some_iff.1 h
    cases h
    exact (Edits.refl.remove h₁).add h₂

theorem splitNextChunk_edits {a m n lb : ℕ} {j' : JudySeekOptimizer}
    (h : j.splitNextChunk a m n = some (some (lb, j'))) : Edits j j' := by
  unfold splitNextChunk at h
  simp only [Option.bind_eq_bind] at h
  split_ifs at h
  · cases h
  · obtain ⟨j₁, h₁, h⟩ := Option.bind_eq_some_iff.1 h
    cases h
    exact Edits.refl.remove h₁
  · obtain ⟨j₁, h₁, h⟩ := Option.bind_eq_some_iff.1 h
    obtain ⟨j₂, h₂, h⟩ := Option.bind_eq_some_iff.1 h
    cases h
    exact (Edits.refl.remove h₁).add h₂

theorem nextTry_edits {hint n lb : ℕ} {j' : JudySeekOptimizer}
    {prev : Option (ℕ × JudySeekOptimizer)} (hprev : ∀ e ∈ prev, Edits j e.2)
    (h : (if prev.isSome = true then some prev
      else
        match j.isNextNeighborAllocable hint 0 with
        | some (neighborLb, neighborLen) => j.splitNextChunk neighborLb neighborLen n
        | none => some none) = some (some (lb, j'))) : Edits j j' := by
  split_ifs at h
  · cases h
    exact hprev _ rfl
  · split at h
    · exact splitNextChunk_edits h
    · cases h

theorem allocateNear_edits {hint n lb : ℕ} {j' : JudySeekOptimizer}
    (h : j.allocateNear hint n = some (some (lb, j'))) : Edits j j' := by
  unfold allocateNear at h
  split at h
  · split_ifs at h
    · obtain ⟨⟨l, j₁⟩, hs, heq⟩ := Option.map_eq_some_iff.1 h
      cases heq
      exact splitCurrChunk_edits hs
    · cases h
  · cases hp : j.isPrevNeighborAllocable hint n with
    | none =>
      rw [hp] at h
      exact @nextTry_edits j hint n lb j' none (fun _ he => by cases he) h
    | some e =>
      rw [hp] at h
      dsimp only at h
      split_ifs at h
      · obtain ⟨prev, hp, h⟩ := Option.bind_eq_some_iff.1 h
        obtain ⟨⟨l, j₁⟩, hs, rfl⟩ := Option.map_eq_some_iff.1 hp
        refine nextTry_edits (fun e he => ?_) h
        cases he
        exact splitCurrChunk_edits hs
      · obtain ⟨prev, hp, h⟩ := Option.bind_eq_some_iff.1 h
        refine nextTry_edits (fun e he => ?_) h
        cases he
        exact splitPrevChunk_edits hp

theorem allocateExact_edits {hint n lb : ℕ} {j' : JudySeekOptimizer}
    (h : j.allocateExact hint n = some (some (lb, j'))) : Edits j j' := by
  unfold allocateExact at h
  split at h
  · split_ifs at h
    · exact splitNextChunk_edits h
    · exact splitPrevChunk_edits h
  · cases h

theorem allocateLarger_edits {hint n lb : ℕ} {j' : JudySeekOptimizer}
    (h : j.allocateLarger hint n = some (some (lb, j'))) : Edits j j' := by
  unfold allocateLarger at h
  split at h
  · split_ifs at h
    · exact splitNextChunk_edits h
    · exact splitPrevChunk_edits h
  · cases h

/-- The last step of `allocate_lb`. -/
theorem record_edits {n lb : ℕ} {found : Option (ℕ × JudySeekOptimizer)} {j' : JudySeekOptimizer}
    (h : (match found with
      | some (lb, j') => (j'.recordAllocatedBlocks n).bind fun j' => some (some (lb, j'))
      | none => some none) = some (some (lb, j')))
    (hfound : ∀ e, found = some e → Edits j e.2) : Edits j j' := by
  cases found with
  | none => cases h
  | some e =>
    obtain ⟨j₂, hr, h⟩ := Option.bind_eq_some_iff.1 h
    cases h
    unfold recordAllocatedBlocks at hr
    split_ifs at hr
    cases hr
    exact (hfound e rfl).count _ _

theorem allocateLb_edits {hint n lb : ℕ} {j' : JudySeekOptimizer}
    (h : j.allocateLb hint n = some (some (lb, j'))) : Edits j j' := by
  unfold allocateLb at h
  by_cases hbad : hint > j.totalBlocks + j.logicalStartBlockOffset - 1 ∨ n > j.totalFreeBlocks
  · rw [if_pos hbad] at h
    cases h
  rw [if_neg hbad] at h
  obtain ⟨near, hnear, h⟩ := Option.bind_eq_some_iff.1 h
  cases near with
  | some e =>
    refine @record_edits j n lb (some e) j' h fun e' he => ?_
    exact allocateNear_edits (hnear.trans (congrArg some he))
  | none =>
    change (j.allocateExact hint n).bind _ = _ at h
    obtain ⟨fit, hfit, h⟩ := Option.bind_eq_some_iff.1 h
    cases fit with
    | some e =>
      refine @record_edits j n lb (some e) j' h fun e' he => ?_
      exact allocateExact_edits (hfit.trans (congrArg some he))
    | none =>
      change (j.allocateLarger hint n).bind _ = _ at h
      obtain ⟨found, hfound, h⟩ := Option.bind_eq_some_iff.1 h
      refine record_edits h fun e' he => ?_
      exact allocateLarger_edits (hfound.trans (congrArg some he))

theorem merge_edits {lb n : ℕ} {nb : Neighbors} {j' : JudySeekOptimizer}
    (h : j.merge lb n nb = some j') : Edits j j' := by
  unfold merge at h
  simp only [Option.bind_eq_bind] at h
  split at h
  · obtain ⟨j₁, h₁, h⟩ := Option.bind_eq_some_iff.1 h
    obtain ⟨j₂, h₂, h⟩ := Option.bind_eq_some_iff.1 h
    exact ((Edits.refl.remove h₁).remove h₂).add h
  · obtain ⟨j₁, h₁, h⟩ := Option.bind_eq_some_iff.1 h
    exact (Edits.refl.remove h₁).add h
  · obtain ⟨j₁, h₁, h⟩ := Option.bind_eq_some_iff.1 h
    exact (Edits.refl.remove h₁).add h
  · cases h

theorem freeLb_edits {lb n : ℕ} {j' : JudySeekOptimizer} (h : j.freeLb lb n = some (some j')) :
    Edits j j' := by
  unfold freeLb at h
  by_cases hlow : lb < j.logicalStartBlockOffset
  · rw [if_pos hlow] at h
    cases h
  rw [if_neg hlow] at h
  by_cases hstart : (j.jarrFreeLb.get? lb).isSome = true
  · rw [if_pos hstart] at h
    cases h
  rw [if_neg hstart] at h
  obtain ⟨nb, -, h⟩ := Option.bind_eq_some_iff.1 h
  have hrecord : ∀ {j₁ : JudySeekOptimizer}, Edits j j₁ →
      ((j₁.recordFreedBlocks n).bind fun j' => some (some j')) = some (some j') → Edits j j' := by
    intro j₁ hedits h
    obtain ⟨j₂, hr, h⟩ := Option.bind_eq_some_iff.1 h
    cases h
    unfold recordFreedBlocks at hr
    split_ifs at hr
    cases hr
    exact hedits.count _ _
  dsimp only at h
  split_ifs at h
  · obtain ⟨j₁, h₁, h⟩ := Option.bind_eq_some_iff.1 h
    exact hrecord (merge_edits h₁) h
  · obtain ⟨j₁, h₁, h⟩ := Option.bind_eq_some_iff.1 h
    exact hrecord (Edits.refl.add h₁) h

theorem dense_init (total offset : ℕ) : (init total offset).jarrFreeContigLen.Dense := by
  intro e he
  rcases JudyArray.mem_insert.1 he with rfl | ⟨he, -⟩
  · exact JudyHashMap.insertEntries_ne_nil offset offset []
  · exact absurd he (JudyArray.not_mem_empty e)

end JudySeekOptimizer

end DssSdk.BlockAllocator
