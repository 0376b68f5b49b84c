import DssSdk.Lib.JudyArray
import DssSdk.Lib.Run

/-!
# The cache table

`kvtrans_utils.c` keeps elements in a pool of memory that doubles when it is full and is halved when
enough of it is free. A Judy array maps the index of a caller to the slot of its element, and a set
has the free slots.

* `CacheTbl`, `extendCacheTbl`, `shrinkCacheTbl`, `popFreeIndex`, `putFreeIndex`, `storeElm`,
  `getElm`, `findElm`, `deleteElm`: the source, `none` when the program ends in an assertion or in
  `exit`;
* `Op`, `step`: one call, with the map that the table stands for;
* `Inv`: what the slots, the map and the free set have to do with each other;
* `Dynamic`: a dynamic table with room for all of its indices, which serves every store and deletion.

Memory does not run out.
-/

namespace DssSdk.Kvtrans.CacheTable

/-- `MAX_CACHE_TBL_SIZE`. -/
abbrev maxCacheTblSize : ℕ := 107374182400

/-- `MIN_ELM_NUM`. -/
abbrev minElmNum : ℕ := 1024

/-- `SCALE_CONST`. -/
abbrev scaleConst : ℕ := 2

/-- `SCALE_DOWN`. -/
abbrev scaleDown (num : ℕ) : ℕ := 2 * num / 3

/-- `cache_tbl_t`. A cell of the pool that was never written is `none`. -/
structure CacheTbl (α : Type) where
  elmSize : ℕ
  initElmNum : ℕ
  elmNum : ℕ
  freeNum : ℕ
  dynamic : Bool
  freeArray : Finset ℕ
  memArray : JudyArray ℕ
  cells : List (Option α)

/-- An `int` that is compared with a word. -/
def intAsWord (n : ℕ) : ℕ := ((Int32.ofNat n).toInt % 2 ^ 64).toNat

section

variable {α : Type}

/-- `init_cache_tbl`. -/
def CacheTbl.init (initElmNum elmSize : ℕ) (dynamic : Bool) : CacheTbl α :=
  let n := if initElmNum < minElmNum then minElmNum else initElmNum
  { elmSize := elmSize
    initElmNum := n
    elmNum := n
    freeNum := n
    dynamic := dynamic
    freeArray := Finset.range n
    memArray := .empty
    cells := List.replicate n none }

/-- `_extend_cache_tbl`. -/
def extendCacheTbl (t : CacheTbl α) : Option (CacheTbl α) :=
  let newTotal := t.elmNum * scaleConst
  if newTotal * t.elmSize > maxCacheTblSize then none
  else if t.freeArray ∩ Finset.Ico t.elmNum newTotal ≠ ∅ then none
  else
    let freeArray := t.freeArray ∪ Finset.Ico t.elmNum newTotal
    let freeNum := t.freeNum + (newTotal - t.elmNum)
    if (freeArray.filter fun i => i ≤ newTotal).card = freeNum then
      some
        { t with
          freeArray := freeArray
          freeNum := freeNum
          elmNum := newTotal
          cells := t.cells ++ List.replicate (newTotal - t.elmNum) none }
    else none

/-- `_pop_free_index`: the smallest free slot, or no slot when it returns one. -/
def popFreeIndex (t : CacheTbl α) : Option (CacheTbl α × Option ℕ) :=
  let pop (t : CacheTbl α) : Option (CacheTbl α × Option ℕ) :=
    match t.freeArray.min with
    | ⊤ => some (t, none)
    | (i : ℕ) => some ({ t with freeArray := t.freeArray.erase i, freeNum := t.freeNum - 1 }, some i)
  if t.freeNum = 0 then
    if t.dynamic = true then (extendCacheTbl t).bind pop else some (t, none)
  else pop t

/-- `get_elm_addr`, which asserts that the slot is one of the pool. -/
def CacheTbl.elm (t : CacheTbl α) (index : ℕ) : Option (Option α) :=
  if index < t.elmNum then t.cells[index]? else none

/-- A write to a slot, with the same assertion. -/
def CacheTbl.setElm (t : CacheTbl α) (index : ℕ) (elm : Option α) : Option (CacheTbl α) :=
  if index < t.elmNum ∧ index < t.cells.length then some { t with cells := t.cells.set index elm }
  else none

/-- The loop of `_shrink_cache_tbl` over the elements: those behind the new end are moved to free
slots. -/
def relocate (newTotal : ℕ) : List (ℕ × ℕ) → CacheTbl α → Option (CacheTbl α)
  | [], t => some t
  | (kidx, slot) :: es, t =>
      if slot ≥ newTotal then
        match popFreeIndex t with
        | some (t, some newIndex) =>
            if newIndex < newTotal then
              match t.elm slot with
              | none => none
              | some elm =>
                  match t.setElm newIndex elm with
                  | none => none
                  | some t => relocate newTotal es { t with memArray := t.memArray.insert kidx newIndex }
            else none
        | _ => none
      else relocate newTotal es t

/-- `_shrink_cache_tbl`: whether it returns zero. Its last loop takes the free slots behind the new
end out of the set and counts them. -/
def shrinkCacheTbl (t : CacheTbl α) : Option (CacheTbl α × Bool) :=
  let newTotal := t.elmNum / scaleConst
  if newTotal < t.elmNum - t.freeNum then some (t, false)
  else if intAsWord t.memArray.entries.length < newTotal then
    match relocate newTotal t.memArray.entries t with
    | none => none
    | some t =>
        let freeArray := t.freeArray.filter fun i => i < newTotal
        let freeNum := t.freeNum - (t.freeArray.filter fun i => newTotal ≤ i).card
        if (freeArray.filter fun i => i ≤ t.elmNum).card = freeNum then
          some
            ({ t with
                freeArray := freeArray
                freeNum := freeNum
                elmNum := newTotal
                cells := t.cells.take newTotal },
              true)
        else none
  else none

/-- The pool is halved when so much of it is free. -/
abbrev Shrinks (freeNum elmNum initElmNum : ℕ) : Prop :=
  freeNum > scaleDown elmNum ∧ elmNum / scaleConst ≥ initElmNum

/-- `_put_free_index`: whether it returns zero. -/
def putFreeIndex (t : CacheTbl α) (index : ℕ) : Option (CacheTbl α × Bool) :=
  if index ≥ t.elmNum then some (t, false)
  else if index ∈ t.freeArray then some (t, false)
  else
    let t := { t with freeArray := insert index t.freeArray, freeNum := t.freeNum + 1 }
    if Shrinks t.freeNum t.elmNum t.initElmNum then shrinkCacheTbl t else some (t, true)

/-- `store_elm`: whether it returns zero. A new index is entered with slot zero, and the element is
written whatever became of the search for a slot. -/
def storeElm (t : CacheTbl α) (kidx : ℕ) (data : α) : Option (CacheTbl α × Bool) :=
  match t.memArray.get? kidx with
  | some slot => (t.setElm slot (some data)).map fun t => (t, true)
  | none =>
      let t := { t with memArray := t.memArray.insert kidx 0 }
      match popFreeIndex t with
      | none => none
      | some (t, none) => (t.setElm 0 (some data)).map fun t => (t, false)
      | some (t, some slot) =>
          ({ t with memArray := t.memArray.insert kidx slot }.setElm slot (some data)).map fun t =>
            (t, true)

/-- `get_elm`, which asserts that the index is there. -/
def getElm (t : CacheTbl α) (kidx : ℕ) : Option (Option α) :=
  match t.memArray.get? kidx with
  | none => none
  | some slot => t.elm slot

/-- `find_elm`. -/
def findElm (t : CacheTbl α) (kidx : ℕ) : Bool := (t.memArray.get? kidx).isSome

/-- `delete_elm`: whether it returns zero. -/
def deleteElm (t : CacheTbl α) (kidx : ℕ) : Option (CacheTbl α × Bool) :=
  match t.memArray.get? kidx with
  | none => some (t, false)
  | some slot => putFreeIndex { t with memArray := t.memArray.erase kidx } slot

/-- A call. -/
inductive Op (α : Type)
  | store (kidx : ℕ) (data : α)
  | get (kidx : ℕ)
  | find (kidx : ℕ)
  | delete (kidx : ℕ)

/-- The table, and what callers stored and did not delete. -/
structure State (α : Type) where
  tbl : CacheTbl α
  map : ℕ → Option α

/-- A new table. -/
def State.init (initElmNum elmSize : ℕ) (dynamic : Bool) : State α :=
  ⟨.init initElmNum elmSize dynamic, fun _ => none⟩

/-- One call. A call that fails does not change what was stored. -/
def step (s : State α) : Op α → Option (State α)
  | .store kidx data =>
      (storeElm s.tbl kidx data).map fun r =>
        ⟨r.1, if r.2 = true then Function.update s.map kidx (some data) else s.map⟩
  | .get kidx => (getElm s.tbl kidx).map fun _ => s
  | .find _ => some s
  | .delete kidx =>
      (deleteElm s.tbl kidx).map fun r =>
        ⟨r.1, if r.2 = true then Function.update s.map kidx none else s.map⟩

/-- The table is the map, and its slots are in order. -/
structure Good (s : State α) : Prop where
  find : ∀ k, findElm s.tbl k = (s.map k).isSome
  get : ∀ k v, s.map k = some v → getElm s.tbl k = some (some v)
  distinct : ∀ k k' slot, (k, slot) ∈ s.tbl.memArray → (k', slot) ∈ s.tbl.memArray → k = k'
  below : ∀ k slot, (k, slot) ∈ s.tbl.memArray → slot < s.tbl.elmNum
  free : ∀ i, i ∈ s.tbl.freeArray ↔ i < s.tbl.elmNum ∧ ∀ k, (k, i) ∉ s.tbl.memArray
  freeNum : s.tbl.freeNum = s.tbl.freeArray.card

end

section

variable {α : Type} {t t' : CacheTbl α} {map : ℕ → Option α} {n i k slot : ℕ} {v : α}

/-- The table holds the map, with the slots below `n` either in use or free. While the pool is
halved, slots behind its new end are neither. -/
structure Core (t : CacheTbl α) (map : ℕ → Option α) (n : ℕ) : Prop where
  data : ∀ k slot, (k, slot) ∈ t.memArray →
    slot < t.elmNum ∧ ∃ v, map k = some v ∧ t.cells[slot]? = some (some v)
  mapped : ∀ k v, map k = some v → ∃ slot, (k, slot) ∈ t.memArray
  distinct : ∀ k k' slot, (k, slot) ∈ t.memArray → (k', slot) ∈ t.memArray → k = k'
  free : ∀ i ∈ t.freeArray, i < t.elmNum ∧ ∀ k, (k, i) ∉ t.memArray
  complete : ∀ i < n, (∀ k, (k, i) ∉ t.memArray) → i ∈ t.freeArray
  freeNum : t.freeNum = t.freeArray.card
  cells : t.cells.length = t.elmNum

theorem slot_unique {slot' : ℕ} (h : (k, slot) ∈ t.memArray) (h' : (k, slot') ∈ t.memArray) :
    slot = slot' := JudyArray.eq_of_mem h h'

theorem Core.good (h : Core t map t.elmNum) : Good ⟨t, map⟩ where
  find := by
    intro k
    rw [findElm, Bool.eq_iff_iff, Option.isSome_iff_exists, Option.isSome_iff_exists]
    constructor
    · rintro ⟨slot, hs⟩
      obtain ⟨-, v, hv, -⟩ := h.data k slot (JudyArray.get?_eq_some_iff.1 hs)
      exact ⟨v, hv⟩
    · rintro ⟨v, hv⟩
      obtain ⟨slot, hs⟩ := h.mapped k v hv
      exact ⟨slot, JudyArray.get?_eq_some_iff.2 hs⟩
  get := by
    intro k v hv
    obtain ⟨slot, hs⟩ := h.mapped k v hv
    obtain ⟨hlt, v', hv', hcell⟩ := h.data k slot hs
    have hv'' : some v' = some v := hv'.symm.trans hv
    rw [getElm, JudyArray.get?_eq_some_iff.2 hs]
    change t.elm slot = _
    rw [CacheTbl.elm, if_pos hlt, hcell, hv'']
  distinct := h.distinct
  below := fun k slot hs => (h.data k slot hs).1
  free := fun i => ⟨h.free i, fun hi => h.complete i hi.1 hi.2⟩
  freeNum := h.freeNum

theorem popFreeIndex_eq (hn : t.freeNum ≠ 0) (hi : i ∈ t.freeArray) :
    ∃ j ∈ t.freeArray, j ≤ i ∧ popFreeIndex t =
      some ({ t with freeArray := t.freeArray.erase j, freeNum := t.freeNum - 1 }, some j) := by
  obtain ⟨j, hj⟩ := Finset.min_of_mem hi
  refine ⟨j, Finset.mem_of_min hj, Finset.min_le_of_eq hi hj, ?_⟩
  rw [popFreeIndex, if_neg hn]
  simp only [hj]

/-- A free slot is given to an index, which may have had a slot from `n` on before. -/
theorem Core.assign (h : Core t map n) (hi : i ∈ t.freeArray)
    (hk : ∀ slot, (k, slot) ∈ t.memArray → n ≤ slot) (v : α) :
    Core { t with
        freeArray := t.freeArray.erase i
        freeNum := t.freeNum - 1
        memArray := t.memArray.insert k i
        cells := t.cells.set i (some v) } (Function.update map k (some v)) n := by
  obtain ⟨hlt, hunused⟩ := h.free i hi
  refine ⟨fun k' slot hs => ?_, fun k' v' hv' => ?_, fun k₁ k₂ slot h₁ h₂ => ?_, fun j hj => ?_,
    fun j hj hnew => ?_, ?_, ?_⟩
  · rcases JudyArray.mem_insert.1 hs with heq | ⟨hs, hne⟩
    · cases heq
      exact ⟨hlt, v, Function.update_self _ _ _, by simp [h.cells, hlt]⟩
    · obtain ⟨hlt', v', hv', hcell⟩ := h.data k' slot hs
      refine ⟨hlt', v', ?_, ?_⟩
      · rw [Function.update_of_ne hne]
        exact hv'
      · rw [List.getElem?_set_ne fun he : i = slot => hunused k' (he ▸ hs)]
        exact hcell
  · rcases eq_or_ne k' k with rfl | hne
    · exact ⟨i, JudyArray.mem_insert.2 (Or.inl rfl)⟩
    · rw [Function.update_of_ne hne] at hv'
      obtain ⟨slot, hs⟩ := h.mapped k' v' hv'
      exact ⟨slot, JudyArray.mem_insert.2 (Or.inr ⟨hs, hne⟩)⟩
  · rcases JudyArray.mem_insert.1 h₁ with heq | ⟨h₁, -⟩ <;>
      rcases JudyArray.mem_insert.1 h₂ with heq' | ⟨h₂, -⟩
    · cases heq
      cases heq'
      rfl
    · cases heq
      exact absurd h₂ (hunused k₂)
    · cases heq'
      exact absurd h₁ (hunused k₁)
    · exact h.distinct k₁ k₂ slot h₁ h₂
  · obtain ⟨hne, hj⟩ := Finset.mem_erase.1 hj
    refine ⟨(h.free j hj).1, fun k' hs => ?_⟩
    rcases JudyArray.mem_insert.1 hs with heq | ⟨hs, -⟩
    · cases heq
      exact hne rfl
    · exact (h.free j hj).2 k' hs
  · refine Finset.mem_erase.2 ⟨?_, h.complete j hj fun k' hs => ?_⟩
    · rintro rfl
      exact hnew k (JudyArray.mem_insert.2 (Or.inl rfl))
    · rcases eq_or_ne k' k with rfl | hne
      · exact absurd (hk j hs) (by omega)
      · exact hnew k' (JudyArray.mem_insert.2 (Or.inr ⟨hs, hne⟩))
  · rw [Finset.card_erase_of_mem hi, h.freeNum]
  · rw [List.length_set]
    exact h.cells

theorem Core.overwrite (h : Core t map n) (hs : (k, slot) ∈ t.memArray) (v : α) :
    Core { t with cells := t.cells.set slot (some v) } (Function.update map k (some v)) n := by
  have hlt := (h.data k slot hs).1
  refine ⟨fun k' slot' hs' => ?_, fun k' v' hv' => ?_, h.distinct, h.free, h.complete, h.freeNum, ?_⟩
  · rcases eq_or_ne k' k with rfl | hne
    · rw [slot_unique hs' hs]
      exact ⟨hlt, v, Function.update_self _ _ _, by simp [h.cells, hlt]⟩
    · obtain ⟨hlt', v', hv', hcell⟩ := h.data k' slot' hs'
      refine ⟨hlt', v', ?_, ?_⟩
      · rw [Function.update_of_ne hne]
        exact hv'
      · rw [List.getElem?_set_ne fun he : slot = slot' => hne (h.distinct k' k slot' hs' (he ▸ hs))]
        exact hcell
  · rcases eq_or_ne k' k with rfl | hne
    · exact ⟨slot, hs⟩
    · rw [Function.update_of_ne hne] at hv'
      exact h.mapped k' v' hv'
  · rw [List.length_set]
    exact h.cells

/-- The slot of a deleted index is free. -/
theorem Core.release (h : Core t map n) (hs : (k, slot) ∈ t.memArray) :
    Core { t with
        memArray := t.memArray.erase k
        freeArray := insert slot t.freeArray
        freeNum := t.freeNum + 1 } (Function.update map k none) n := by
  have hlt := (h.data k slot hs).1
  have hnot : slot ∉ t.freeArray := fun hf => (h.free slot hf).2 k hs
  refine ⟨fun k' slot' hs' => ?_, fun k' v' hv' => ?_, fun k₁ k₂ slot' h₁ h₂ => ?_, fun j hj => ?_,
    fun j hj hnew => ?_, ?_, h.cells⟩
  · obtain ⟨hs', hne⟩ := JudyArray.mem_erase.1 hs'
    rw [Function.update_of_ne hne]
    exact h.data k' slot' hs'
  · rcases eq_or_ne k' k with rfl | hne
    · rw [Function.update_self] at hv'
      cases hv'
    · rw [Function.update_of_ne hne] at hv'
      obtain ⟨slot', hs'⟩ := h.mapped k' v' hv'
      exact ⟨slot', JudyArray.mem_erase.2 ⟨hs', hne⟩⟩
  · exact h.distinct k₁ k₂ slot' (JudyArray.mem_erase.1 h₁).1 (JudyArray.mem_erase.1 h₂).1
  · rcases Finset.mem_insert.1 hj with rfl | hj
    · refine ⟨hlt, fun k' hs' => ?_⟩
      obtain ⟨hs', hne⟩ := JudyArray.mem_erase.1 hs'
      exact hne (h.distinct k' k j hs' hs)
    · exact ⟨(h.free j hj).1, fun k' hs' => (h.free j hj).2 k' (JudyArray.mem_erase.1 hs').1⟩
  · rw [Finset.mem_insert]
    by_cases hj' : j = slot
    · exact Or.inl hj'
    · refine Or.inr (h.complete j hj fun k' hs' => ?_)
      refine hnew k' (JudyArray.mem_erase.2 ⟨hs', ?_⟩)
      rintro rfl
      exact hj' (slot_unique hs' hs)
  · rw [Finset.card_insert_of_notMem hnot, h.freeNum]

/-! ### Growing and shrinking -/

/-- With fewer indices than slots below `n` one of these is free. -/
theorem Core.exists_free (h : Core t map n) {ks : List ℕ} (hks : ∀ k slot, (k, slot) ∈ t.memArray → k ∈ ks)
    (hlen : ks.length < n) : ∃ i < n, i ∈ t.freeArray := by
  by_contra hno
  have hused : ∀ i ∈ Finset.range n, ∃ k, (k, i) ∈ t.memArray := by
    intro i hi
    by_contra hunused
    exact hno ⟨i, Finset.mem_range.1 hi,
      h.complete i (Finset.mem_range.1 hi) fun k hk => hunused ⟨k, hk⟩⟩
  choose! key hkey using hused
  have hcard : (Finset.range n).card ≤ ks.toFinset.card := by
    refine Finset.card_le_card_of_injOn key (fun i hi => ?_) fun i hi j hj hij => ?_
    · exact List.mem_toFinset.2 (hks _ _ (hkey i hi))
    · exact slot_unique (hkey i hi) (hij ▸ hkey j hj)
  rw [Finset.card_range] at hcard
  have := ks.toFinset_card_le
  omega

/-- Every slot is free or in use. -/
theorem Core.count (h : Core t map t.elmNum) :
    t.freeNum + t.memArray.entries.length = t.elmNum := by
  have hnodup : (t.memArray.entries.map Prod.snd).Nodup := by
    rw [List.nodup_iff_pairwise_ne, List.pairwise_map]
    refine t.memArray.sorted.imp_of_mem fun {d e} hd he hlt hsame => hlt.ne ?_
    exact h.distinct d.1 e.1 d.2 hd (hsame ▸ he)
  have hunion : t.freeArray ∪ (t.memArray.entries.map Prod.snd).toFinset = Finset.range t.elmNum := by
    ext i
    rw [Finset.mem_union, List.mem_toFinset, List.mem_map, Finset.mem_range]
    constructor
    · rintro (hi | ⟨e, he, rfl⟩)
      · exact (h.free i hi).1
      · exact (h.data e.1 e.2 he).1
    · intro hi
      by_cases hunused : ∀ k, (k, i) ∉ t.memArray
      · exact Or.inl (h.complete i hi hunused)
      · obtain ⟨k, hk⟩ := not_forall_not.1 hunused
        exact Or.inr ⟨(k, i), hk, rfl⟩
  have hdisj : Disjoint t.freeArray (t.memArray.entries.map Prod.snd).toFinset := by
    rw [Finset.disjoint_left]
    intro i hi hmem
    obtain ⟨e, he, rfl⟩ := List.mem_map.1 (List.mem_toFinset.1 hmem)
    exact (h.free e.2 hi).2 e.1 he
  have hcard := congrArg Finset.card hunion
  rwa [Finset.card_union_of_disjoint hdisj, List.toFinset_card_of_nodup hnodup, List.length_map,
    Finset.card_range, ← h.freeNum] at hcard

theorem Core.extend (h : Core t map t.elmNum) (hpos : 0 < t.elmNum)
    (hfit : t.elmNum * scaleConst * t.elmSize ≤ maxCacheTblSize) :
    ∃ t', extendCacheTbl t = some t' ∧ Core t' map t'.elmNum ∧ t'.memArray = t.memArray ∧
      t'.freeNum ≠ 0 ∧ t'.initElmNum = t.initElmNum ∧ t.elmNum ≤ t'.elmNum := by
  have hempty : t.freeArray ∩ Finset.Ico t.elmNum (t.elmNum * scaleConst) = ∅ := by
    ext i
    simp only [Finset.mem_inter, Finset.mem_Ico, Finset.notMem_empty, iff_false, not_and, not_lt]
    intro hi hle
    have := (h.free i hi).1
    omega
  have hdisj : Disjoint t.freeArray (Finset.Ico t.elmNum (t.elmNum * scaleConst)) :=
    Finset.disjoint_iff_inter_eq_empty.2 hempty
  have hcard : (t.freeArray ∪ Finset.Ico t.elmNum (t.elmNum * scaleConst)).card =
      t.freeNum + (t.elmNum * scaleConst - t.elmNum) := by
    rw [Finset.card_union_of_disjoint hdisj, Nat.card_Ico, h.freeNum]
  have hall : (t.freeArray ∪ Finset.Ico t.elmNum (t.elmNum * scaleConst)).filter
      (fun i => i ≤ t.elmNum * scaleConst) =
        t.freeArray ∪ Finset.Ico t.elmNum (t.elmNum * scaleConst) := by
    rw [Finset.filter_eq_self]
    intro i hi
    rcases Finset.mem_union.1 hi with hi | hi
    · have := (h.free i hi).1
      change i ≤ t.elmNum * 2
      omega
    · exact (Finset.mem_Ico.1 hi).2.le
  rw [extendCacheTbl]
  simp only
  rw [if_neg (not_lt.2 hfit), if_neg (not_not.2 hempty), hall, if_pos hcard]
  refine ⟨_, rfl, ⟨fun k slot hs => ?_, h.mapped, h.distinct, fun i hi => ?_, fun i hi hunused => ?_,
    hcard.symm, ?_⟩, rfl, ?_, rfl, ?_⟩
  · obtain ⟨hlt, v, hv, hcell⟩ := h.data k slot hs
    refine ⟨?_, v, hv, ?_⟩
    · change slot < t.elmNum * 2
      omega
    · rw [List.getElem?_append_left (by rw [h.cells]; exact hlt)]
      exact hcell
  · rcases Finset.mem_union.1 hi with hi | hi
    · obtain ⟨hlt, hnot⟩ := h.free i hi
      refine ⟨?_, hnot⟩
      change i < t.elmNum * 2
      omega
    · obtain ⟨hle, hlt⟩ := Finset.mem_Ico.1 hi
      exact ⟨hlt, fun k hk => absurd (h.data k i hk).1 (not_lt.2 hle)⟩
  · rw [Finset.mem_union, Finset.mem_Ico]
    rcases Nat.lt_or_ge i t.elmNum with hlt | hle
    · exact Or.inl (h.complete i hlt hunused)
    · exact Or.inr ⟨hle, hi⟩
  · rw [List.length_append, List.length_replicate, h.cells]
    change t.elmNum + (t.elmNum * 2 - t.elmNum) = t.elmNum * 2
    omega
  · change t.freeNum + (t.elmNum * 2 - t.elmNum) ≠ 0
    omega
  · change t.elmNum ≤ t.elmNum * 2
    omega

theorem Core.relocate {es : List (ℕ × ℕ)} {ks : List ℕ} (h : Core t map n) (hn : n ≤ t.elmNum)
    (hks : ∀ k slot, (k, slot) ∈ t.memArray → k ∈ ks) (hlen : ks.length < n)
    (hsorted : es.Pairwise fun d e => d.1 < e.1) (hes : ∀ e ∈ es, e ∈ t.memArray)
    (hrest : ∀ k slot, (k, slot) ∈ t.memArray → n ≤ slot → (k, slot) ∈ es) :
    ∃ t', relocate n es t = some t' ∧ Core t' map n ∧ t'.elmNum = t.elmNum ∧
      t'.initElmNum = t.initElmNum ∧ ∀ k slot, (k, slot) ∈ t'.memArray → slot < n := by
  induction es generalizing t with
  | nil =>
    refine ⟨t, rfl, h, rfl, rfl, fun k slot hs => ?_⟩
    by_contra hge
    exact absurd (hrest k slot hs (by omega)) List.not_mem_nil
  | cons e es ih =>
    obtain ⟨k, slot⟩ := e
    obtain ⟨hfirst, hsorted⟩ := List.pairwise_cons.1 hsorted
    have hs : (k, slot) ∈ t.memArray := hes _ List.mem_cons_self
    rw [CacheTable.relocate]
    by_cases hge : slot ≥ n
    · obtain ⟨i, hi, hfree⟩ := h.exists_free hks hlen
      have hnum : t.freeNum ≠ 0 := by
        rw [h.freeNum]
        exact Finset.card_ne_zero_of_mem hfree
      obtain ⟨j, hj, hji, hpop⟩ := popFreeIndex_eq hnum hfree
      obtain ⟨hlt, v, hv, hcell⟩ := h.data k slot hs
      obtain ⟨hjlt, -⟩ := h.free j hj
      have hcore := h.assign (k := k) hj (fun slot' hs' => slot_unique hs hs' ▸ hge) v
      have hmap : Function.update map k (some v) = map := by
        rw [← hv]
        exact Function.update_eq_self k map
      rw [hmap] at hcore
      rw [if_pos hge, hpop]
      have hjn : j < n := by omega
      simp only [if_pos hjn, CacheTbl.elm, if_pos hlt, hcell, CacheTbl.setElm, h.cells, hjlt, and_self,
        if_true]
      refine ih hcore hn (fun k' slot' hs' => ?_) hsorted (fun e he => ?_) fun k' slot' hs' hge' => ?_
      · rcases JudyArray.mem_insert.1 hs' with heq | ⟨hs', -⟩
        · cases heq
          exact hks k slot hs
        · exact hks k' slot' hs'
      · exact JudyArray.mem_insert.2
          (Or.inr ⟨hes e (List.mem_cons_of_mem _ he), (hfirst e he).ne'⟩)
      · rcases JudyArray.mem_insert.1 hs' with heq | ⟨hs', hne⟩
        · cases heq
          omega
        · rcases List.mem_cons.1 (hrest k' slot' hs' hge') with heq | hmem
          · cases heq
            exact absurd rfl hne
          · exact hmem
    · rw [if_neg hge]
      refine ih h hn hks hsorted (fun e he => hes e (List.mem_cons_of_mem _ he)) fun k' slot' hs' hge' => ?_
      rcases List.mem_cons.1 (hrest k' slot' hs' hge') with heq | hmem
      · cases heq
        exact absurd hge' hge
      · exact hmem

theorem Core.shrink (h : Core t map t.elmNum)
    (hused : t.memArray.entries.length < t.elmNum / scaleConst)
    (hint : intAsWord t.memArray.entries.length < t.elmNum / scaleConst) :
    ∃ t', shrinkCacheTbl t = some (t', true) ∧ Core t' map t'.elmNum ∧
      t'.initElmNum = t.initElmNum ∧ t'.elmNum = t.elmNum / scaleConst := by
  have hcount := h.count
  have hle : t.elmNum / scaleConst ≤ t.elmNum := Nat.div_le_self _ _
  have hhalf : Core t map (t.elmNum / scaleConst) :=
    { h with complete := fun i hi => h.complete i (hi.trans_le hle) }
  have hks : ∀ k slot, (k, slot) ∈ t.memArray → k ∈ t.memArray.entries.map Prod.fst :=
    fun k slot hs => List.mem_map.2 ⟨(k, slot), hs, rfl⟩
  obtain ⟨t', hrel, hcore, helm, hinit, hbelow⟩ := hhalf.relocate hle hks
    (by rwa [List.length_map]) t.memArray.sorted (fun _ he => he) fun k slot hs _ => hs
  have hsplit : (t'.freeArray.filter fun i => i < t.elmNum / scaleConst).card =
      t'.freeNum - (t'.freeArray.filter fun i => t.elmNum / scaleConst ≤ i).card := by
    have hsum := @Finset.card_filter_add_card_filter_not _ t'.freeArray
      (fun i => i < t.elmNum / scaleConst) _ _
    simp only [not_lt] at hsum
    rw [hcore.freeNum]
    omega
  have hassert : ((t'.freeArray.filter fun i => i < t.elmNum / scaleConst).filter
      fun i => i ≤ t'.elmNum).card =
        t'.freeNum - (t'.freeArray.filter fun i => t.elmNum / scaleConst ≤ i).card := by
    rw [← hsplit]
    congr 1
    rw [Finset.filter_eq_self]
    intro i hi
    have := (Finset.mem_filter.1 hi).2
    omega
  rw [shrinkCacheTbl]
  simp only
  rw [if_neg (by omega), if_pos hint, hrel]
  simp only [if_pos hassert]
  refine ⟨_, rfl, ⟨fun k slot hs => ?_, hcore.mapped, hcore.distinct, fun i hi => ?_,
    fun i hi hunused => ?_, hsplit.symm, ?_⟩, hinit, rfl⟩
  · obtain ⟨-, v, hv, hcell⟩ := hcore.data k slot hs
    have hlt := hbelow k slot hs
    refine ⟨hlt, v, hv, ?_⟩
    rw [List.getElem?_take_of_lt hlt]
    exact hcell
  · obtain ⟨hi, hlt⟩ := Finset.mem_filter.1 hi
    exact ⟨hlt, (hcore.free i hi).2⟩
  · exact Finset.mem_filter.2 ⟨hcore.complete i hi hunused, hi⟩
  · rw [List.length_take, hcore.cells, helm]
    exact Nat.min_eq_left hle

/-! ### Calls -/

variable {s s' : State α}

/-- The table of a state is in order and not smaller than at the start. -/
structure Inv (s : State α) : Prop where
  core : Core s.tbl s.map s.tbl.elmNum
  min_le : minElmNum ≤ s.tbl.initElmNum
  init_le : s.tbl.initElmNum ≤ s.tbl.elmNum

theorem inv_init (initElmNum elmSize : ℕ) (dynamic : Bool) :
    Inv (State.init initElmNum elmSize dynamic : State α) where
  core :=
    { data := fun k slot hs => absurd hs (JudyArray.not_mem_empty _)
      mapped := fun k v hv => by cases hv
      distinct := fun k k' slot hs => absurd hs (JudyArray.not_mem_empty _)
      free := fun i hi => ⟨Finset.mem_range.1 hi, fun k => JudyArray.not_mem_empty _⟩
      complete := fun i hi _ => Finset.mem_range.2 hi
      freeNum := (Finset.card_range _).symm
      cells := List.length_replicate }
  min_le := by
    change minElmNum ≤ if initElmNum < minElmNum then minElmNum else initElmNum
    split <;> omega
  init_le := le_rfl

theorem Core.setElm (h : Core t map n) (hlt : slot < t.elmNum) (elm : Option α) :
    t.setElm slot elm = some { t with cells := t.cells.set slot elm } :=
  if_pos ⟨hlt, by rw [h.cells]; exact hlt⟩

theorem Inv.store_again (h : Inv s) (hs : (k, slot) ∈ s.tbl.memArray) (v : α) :
    ∃ s', step s (.store k v) = some s' ∧ Inv s' := by
  have hget := JudyArray.get?_eq_some_iff.2 hs
  have hset := h.core.setElm (h.core.data k slot hs).1 (some v)
  refine ⟨⟨{ s.tbl with cells := s.tbl.cells.set slot (some v) },
    Function.update s.map k (some v)⟩, ?_, h.core.overwrite hs v, h.min_le, h.init_le⟩
  simp only [step, storeElm, hget, hset, Option.map_some, if_true]

theorem popFreeIndex_memArray (t : CacheTbl α) (m : JudyArray ℕ) :
    popFreeIndex { t with memArray := m } =
      (popFreeIndex t).map fun r => ({ r.1 with memArray := m }, r.2) := by
  have hextend : extendCacheTbl { t with memArray := m } =
      (extendCacheTbl t).map fun t => { t with memArray := m } := by
    unfold extendCacheTbl
    simp only
    split_ifs <;> rfl
  have hpop : ∀ t : CacheTbl α, (match t.freeArray.min with
      | ⊤ => some ({ t with memArray := m }, none)
      | (i : ℕ) => some ({ t with
          freeArray := t.freeArray.erase i, freeNum := t.freeNum - 1, memArray := m }, some i)) =
      (match t.freeArray.min with
      | ⊤ => some (t, none)
      | (i : ℕ) => some ({ t with freeArray := t.freeArray.erase i, freeNum := t.freeNum - 1 },
          some i) : Option (CacheTbl α × Option ℕ)).map
        fun r => ({ r.1 with memArray := m }, r.2) := by
    intro t
    split <;> rfl
  unfold popFreeIndex
  rw [hextend]
  simp only
  split_ifs
  · cases extendCacheTbl t with
    | none => rfl
    | some t₁ => exact hpop t₁
  · rfl
  · exact hpop t

/-- A slot is found if there is one or the pool can grow. -/
theorem Core.pop (h : Core t map t.elmNum) (hpos : 0 < t.elmNum)
    (hroom : t.freeNum = 0 →
      t.dynamic = true ∧ t.elmNum * scaleConst * t.elmSize ≤ maxCacheTblSize) :
    ∃ t' i, popFreeIndex t =
        some ({ t' with freeArray := t'.freeArray.erase i, freeNum := t'.freeNum - 1 }, some i) ∧
      i ∈ t'.freeArray ∧ Core t' map t'.elmNum ∧ t'.memArray = t.memArray ∧
      t'.initElmNum = t.initElmNum ∧ t.elmNum ≤ t'.elmNum ∧ (t.freeNum ≠ 0 → t' = t) := by
  have hfree : ∀ {t : CacheTbl α}, Core t map t.elmNum → t.freeNum ≠ 0 → ∃ i ∈ t.freeArray,
      popFreeIndex t =
        some ({ t with freeArray := t.freeArray.erase i, freeNum := t.freeNum - 1 }, some i) := by
    intro t h hn
    rw [h.freeNum] at hn
    obtain ⟨i, hi⟩ := Finset.card_ne_zero.1 hn
    obtain ⟨j, hj, -, hpop⟩ := popFreeIndex_eq (h.freeNum ▸ hn) hi
    exact ⟨j, hj, hpop⟩
  by_cases hn : t.freeNum = 0
  · obtain ⟨hdyn, hfit⟩ := hroom hn
    obtain ⟨t', hext, hcore, hmem, hn', hinit, hle⟩ := h.extend hpos hfit
    obtain ⟨i, hi, hpop⟩ := hfree hcore hn'
    refine ⟨t', i, ?_, hi, hcore, hmem, hinit, hle, fun hno => absurd hn hno⟩
    rw [← hpop, popFreeIndex, if_pos hn, if_pos hdyn, hext, popFreeIndex, if_neg hn']
    rfl
  · obtain ⟨i, hi, hpop⟩ := hfree h hn
    exact ⟨t, i, hpop, hi, h, rfl, rfl, le_rfl, fun _ => rfl⟩

theorem insert_insert (m : JudyArray ℕ) (k a b : ℕ) : (m.insert k a).insert k b = m.insert k b := by
  apply JudyArray.ext_mem
  intro e
  rw [JudyArray.mem_insert, JudyArray.mem_insert, JudyArray.mem_insert]
  constructor
  · rintro (h | ⟨rfl | h, hne⟩)
    · exact Or.inl h
    · exact absurd rfl hne
    · exact Or.inr h
  · rintro (h | h)
    · exact Or.inl h
    · exact Or.inr ⟨Or.inr h, h.2⟩

theorem Inv.store_new (h : Inv s) (hget : s.tbl.memArray.get? k = none)
    (hroom : s.tbl.freeNum = 0 → s.tbl.dynamic = true ∧
      s.tbl.elmNum * scaleConst * s.tbl.elmSize ≤ maxCacheTblSize) (v : α) :
    ∃ s', step s (.store k v) = some s' ∧ Inv s' ∧
      (∀ j ≠ k, s'.tbl.memArray.get? j = s.tbl.memArray.get? j) ∧
      (s.tbl.freeNum ≠ 0 →
        s'.tbl.freeNum = s.tbl.freeNum - 1 ∧ s'.tbl.dynamic = s.tbl.dynamic) := by
  have hmin := h.min_le
  have hle := h.init_le
  have hpos : 0 < s.tbl.elmNum := (show 0 < minElmNum by decide).trans_le (hmin.trans hle)
  obtain ⟨t', i, hpop, hi, hcore, hmem, hinit, helm, hsame⟩ := h.core.pop hpos hroom
  have hnew : ∀ slot, (k, slot) ∈ t'.memArray → t'.elmNum ≤ slot := fun slot hs => by
    rw [hmem] at hs
    exact absurd hs (JudyArray.get?_eq_none_iff.1 hget slot)
  have hassign := hcore.assign hi hnew v
  have hlt := (hcore.free i hi).1
  refine ⟨⟨{ t' with
      freeArray := t'.freeArray.erase i
      freeNum := t'.freeNum - 1
      memArray := t'.memArray.insert k i
      cells := t'.cells.set i (some v) }, Function.update s.map k (some v)⟩, ?_,
    ⟨hassign, hmin.trans hinit.ge, hinit.le.trans (hle.trans helm)⟩, fun j hj => ?_, fun hn => ?_⟩
  · simp only [step, storeElm, hget, popFreeIndex_memArray, hpop, Option.map_some, insert_insert,
      CacheTbl.setElm, hlt, hcore.cells, and_self, if_true, hmem]
  · simp only [JudyArray.get?_insert, hmem, if_neg hj]
  · rw [hsame hn]
    exact ⟨rfl, rfl⟩

theorem Inv.map_none (h : Inv s) (hget : s.tbl.memArray.get? k = none) : s.map k = none := by
  have hfind := h.core.good.find k
  rw [findElm] at hfind
  simp only [hget, Option.isSome_none] at hfind
  exact Option.not_isSome_iff_eq_none.1 (by simp [← hfind])

/-- A new element in a full table that cannot grow: the call fails, but leaves the index behind with
the slot of another one. -/
theorem Inv.store_full (h : Inv s) (hget : s.tbl.memArray.get? k = none) (hn : s.tbl.freeNum = 0)
    (hdyn : s.tbl.dynamic ≠ true) (v : α) :
    ∀ s', step s (.store k v) = some s' → ¬ Good s' := by
  intro s' hs hgood
  have hpop : popFreeIndex s.tbl = some (s.tbl, none) := by
    rw [popFreeIndex, if_pos hn, if_neg hdyn]
  simp only [step, storeElm, hget, popFreeIndex_memArray, hpop, Option.map_some] at hs
  obtain ⟨r, hr, rfl⟩ := Option.map_eq_some_iff.1 hs
  obtain ⟨t', hset, rfl⟩ := Option.map_eq_some_iff.1 hr
  rw [CacheTbl.setElm] at hset
  split at hset
  · cases hset
    have hfind := hgood.find k
    have hnone := h.map_none hget
    simp only [findElm, JudyArray.get?_insert, if_true, Option.isSome_some, Bool.false_eq_true,
      if_false, hnone, Option.isSome_none, reduceCtorEq] at hfind
  · cases hset

/-- The table without an index, and with its slot free. -/
def CacheTbl.released (t : CacheTbl α) (k slot : ℕ) : CacheTbl α :=
  { t with
    memArray := t.memArray.erase k
    freeArray := insert slot t.freeArray
    freeNum := t.freeNum + 1 }

theorem Inv.step_delete (h : Inv s) (hs : (k, slot) ∈ s.tbl.memArray) :
    step s (.delete k) =
      (if Shrinks (s.tbl.freeNum + 1) s.tbl.elmNum s.tbl.initElmNum then
        shrinkCacheTbl (s.tbl.released k slot) else some (s.tbl.released k slot, true)).map
          fun r => ⟨r.1, if r.2 = true then Function.update s.map k none else s.map⟩ := by
  have hget := JudyArray.get?_eq_some_iff.2 hs
  have hlt := (h.core.data k slot hs).1
  have hnot : slot ∉ s.tbl.freeArray := fun hf => (h.core.free slot hf).2 k hs
  simp only [step, deleteElm, hget, putFreeIndex, ge_iff_le, not_le.2 hlt, hnot, if_false]
  rfl

theorem Inv.released (h : Inv s) (hs : (k, slot) ∈ s.tbl.memArray) :
    Core (s.tbl.released k slot) (Function.update s.map k none) s.tbl.elmNum ∧
      s.tbl.freeNum + 1 + (s.tbl.released k slot).memArray.entries.length = s.tbl.elmNum ∧
      (s.tbl.released k slot).memArray.entries.length = s.tbl.memArray.entries.length - 1 := by
  have hcore := h.core.release hs
  have hcount := h.core.count
  have hcount' : s.tbl.freeNum + 1 + (s.tbl.released k slot).memArray.entries.length =
    s.tbl.elmNum := hcore.count
  exact ⟨hcore, hcount', by omega⟩

/-- A deleted element, while the number of elements fits in an `int`. -/
theorem Inv.delete (h : Inv s) (hs : (k, slot) ∈ s.tbl.memArray)
    (hint : Shrinks (s.tbl.freeNum + 1) s.tbl.elmNum s.tbl.initElmNum →
      intAsWord (s.tbl.memArray.entries.length - 1) < s.tbl.elmNum / scaleConst) :
    ∃ s', step s (.delete k) = some s' ∧ Inv s' := by
  obtain ⟨hcore, hcount, hlen⟩ := h.released hs
  rw [h.step_delete hs]
  by_cases hshrinks : Shrinks (s.tbl.freeNum + 1) s.tbl.elmNum s.tbl.initElmNum
  · have hused : (s.tbl.released k slot).memArray.entries.length < s.tbl.elmNum / scaleConst := by
      have hmin := h.min_le
      simp only [Shrinks, scaleDown, scaleConst, minElmNum] at hshrinks hmin ⊢
      omega
    obtain ⟨t', hshrink, hcore', hinit, helm⟩ :=
      Core.shrink hcore hused (by rw [hlen]; exact hint hshrinks)
    rw [if_pos hshrinks, hshrink]
    refine ⟨⟨t', Function.update s.map k none⟩, rfl, hcore', h.min_le.trans hinit.ge, ?_⟩
    rw [hinit, helm]
    exact hshrinks.2
  · rw [if_neg hshrinks]
    exact ⟨_, rfl, hcore, h.min_le, h.init_le⟩

theorem Inv.delete_large (h : Inv s) (hs : (k, slot) ∈ s.tbl.memArray)
    (hshrinks : Shrinks (s.tbl.freeNum + 1) s.tbl.elmNum s.tbl.initElmNum)
    (hint : ¬ intAsWord (s.tbl.memArray.entries.length - 1) < s.tbl.elmNum / scaleConst) :
    step s (.delete k) = none := by
  obtain ⟨-, hcount, hlen⟩ := h.released hs
  have hfit : ¬ s.tbl.elmNum / scaleConst < s.tbl.elmNum - (s.tbl.freeNum + 1) := by
    have hmin := h.min_le
    simp only [Shrinks, scaleDown, scaleConst, minElmNum] at hshrinks hmin ⊢
    omega
  rw [h.step_delete hs, if_pos hshrinks, shrinkCacheTbl]
  rw [← hlen] at hint
  change Option.map _ (if s.tbl.elmNum / scaleConst < s.tbl.elmNum - (s.tbl.freeNum + 1) then _
    else _) = none
  rw [if_neg hfit]
  change Option.map _ (if intAsWord (s.tbl.released k slot).memArray.entries.length <
    s.tbl.elmNum / scaleConst then _ else _) = none
  rw [if_neg hint]
  rfl

end

section

variable {α : Type} {s : State α}

/-- The calls that the program does not end at: an element is there when it is asked for, and a
dynamic pool stays below its limit. -/
def Legal (s : State α) : Op α → Prop
  | .store k _ => s.tbl.memArray.get? k = none → s.tbl.freeNum = 0 → s.tbl.dynamic = true →
      s.tbl.elmNum * scaleConst * s.tbl.elmSize ≤ maxCacheTblSize
  | .get k => findElm s.tbl k = true
  | .find _ => True
  | .delete _ => True

/-- The calls that the table is made for: a new element finds a free slot or a dynamic pool, and the
number of elements fits in an `int` when the pool is halved. -/
def Kept (s : State α) : Op α → Prop
  | .store k _ => s.tbl.memArray.get? k = none → s.tbl.freeNum = 0 → s.tbl.dynamic = true
  | .get _ => True
  | .find _ => True
  | .delete k => findElm s.tbl k = true →
      Shrinks (s.tbl.freeNum + 1) s.tbl.elmNum s.tbl.initElmNum →
        intAsWord (s.tbl.memArray.entries.length - 1) < s.tbl.elmNum / scaleConst

/-- A call returns, and the table is as it should be. -/
def Served (s : State α) (op : Op α) : Prop := ∃ s', step s op = some s' ∧ Good s'

theorem Inv.served_step (h : Inv s) {op : Op α} (hlegal : Legal s op) :
    (Served s op ↔ Kept s op) ∧ (Served s op → ∀ s', step s op = some s' → Inv s') := by
  have hserved : ∀ {op : Op α}, (∃ s', step s op = some s' ∧ Inv s') →
      Served s op ∧ ∀ s', step s op = some s' → Inv s' := by
    rintro op ⟨s', hs, hinv⟩
    refine ⟨⟨s', hs, hinv.core.good⟩, fun s'' hs' => ?_⟩
    rw [hs, Option.some.injEq] at hs'
    exact hs' ▸ hinv
  cases op with
  | store k v =>
    cases hget : s.tbl.memArray.get? k with
    | some slot =>
      obtain ⟨hs, hinv⟩ := hserved (h.store_again (JudyArray.get?_eq_some_iff.1 hget) v)
      refine ⟨iff_of_true hs fun hno => ?_, fun _ => hinv⟩
      rw [hget] at hno
      cases hno
    | none =>
      by_cases hkept : s.tbl.freeNum = 0 → s.tbl.dynamic = true
      · obtain ⟨s', hstep, hinv', -⟩ :=
          h.store_new hget (fun hn => ⟨hkept hn, hlegal hget hn (hkept hn)⟩) v
        obtain ⟨hs, hinv⟩ := hserved ⟨s', hstep, hinv'⟩
        exact ⟨iff_of_true hs fun _ => hkept, fun _ => hinv⟩
      · obtain ⟨hn, hdyn⟩ := Classical.not_imp.1 hkept
        have hbad : ¬ Served s (.store k v) := by
          rintro ⟨s', hs, hgood⟩
          exact h.store_full hget hn hdyn v s' hs hgood
        exact ⟨iff_of_false hbad fun hno => hdyn (hno hget hn), fun hs => absurd hs hbad⟩
  | get k =>
    have hstep : step s (.get k) = some s := by
      obtain ⟨v, hv⟩ := Option.isSome_iff_exists.1 ((h.core.good.find k).symm.trans hlegal)
      rw [step, h.core.good.get k v hv]
      rfl
    obtain ⟨hs, hinv⟩ := hserved ⟨s, hstep, h⟩
    exact ⟨iff_of_true hs trivial, fun _ => hinv⟩
  | find k =>
    obtain ⟨hs, hinv⟩ := @hserved (.find k) ⟨s, rfl, h⟩
    exact ⟨iff_of_true hs trivial, fun _ => hinv⟩
  | delete k =>
    cases hget : s.tbl.memArray.get? k with
    | none =>
      have hstep : step s (.delete k) = some s := by
        rw [step, deleteElm, hget]
        rfl
      obtain ⟨hs, hinv⟩ := hserved ⟨s, hstep, h⟩
      refine ⟨iff_of_true hs fun hno => ?_, fun _ => hinv⟩
      rw [findElm, hget] at hno
      cases hno
    | some slot =>
      have hs := JudyArray.get?_eq_some_iff.1 hget
      have hfound : findElm s.tbl k = true := by rw [findElm, hget]; rfl
      by_cases hkept : Shrinks (s.tbl.freeNum + 1) s.tbl.elmNum s.tbl.initElmNum →
          intAsWord (s.tbl.memArray.entries.length - 1) < s.tbl.elmNum / scaleConst
      · obtain ⟨hs, hinv⟩ := hserved (h.delete hs hkept)
        exact ⟨iff_of_true hs fun _ => hkept, fun _ => hinv⟩
      · obtain ⟨hshrinks, hint⟩ := Classical.not_imp.1 hkept
        have hnone := h.delete_large hs hshrinks hint
        have hbad : ¬ Served s (.delete k) := by
          rintro ⟨s', hs', -⟩
          rw [hnone] at hs'
          cases hs'
        exact ⟨iff_of_false hbad fun hno => hint (hno hfound hshrinks), fun hs => absurd hs hbad⟩

/-- **When the cache table is a finite map.** In a run of legal calls every call leaves the table as
it should be if and only if each call is one that the table is made for. -/
theorem served_run_iff {initElmNum elmSize : ℕ} {dynamic : Bool} {ops : List (Op α)}
    (hlegal : Run.Admissible step Legal (.init initElmNum elmSize dynamic) ops) :
    Run.Admissible step Served (.init initElmNum elmSize dynamic) ops ↔
      Run.Admissible step Kept (.init initElmNum elmSize dynamic) ops :=
  Run.admissible_iff (fun _ _ hs hl => hs.served_step hl) (inv_init _ _ _) hlegal

end

/-! ### Dynamic tables -/

section

variable {α : Type} {t t' : CacheTbl α} {s s' : State α} {n N : ℕ}

/-- What no call changes. -/
def SameKind (t t' : CacheTbl α) : Prop := t'.dynamic = t.dynamic ∧ t'.elmSize = t.elmSize

theorem SameKind.trans {t'' : CacheTbl α} (h : SameKind t t') (h' : SameKind t' t'') :
    SameKind t t'' := ⟨h'.1.trans h.1, h'.2.trans h.2⟩

theorem sameKind_extendCacheTbl (h : extendCacheTbl t = some t') : SameKind t t' := by
  unfold extendCacheTbl at h
  simp only at h
  split_ifs at h
  cases h
  exact ⟨rfl, rfl⟩

theorem sameKind_popFreeIndex {r : Option ℕ} (h : popFreeIndex t = some (t', r)) : SameKind t t' := by
  have hpop : ∀ {t₁ : CacheTbl α}, (match t₁.freeArray.min with
      | ⊤ => some (t₁, none)
      | (i : ℕ) => some ({ t₁ with freeArray := t₁.freeArray.erase i, freeNum := t₁.freeNum - 1 },
          some i)) = some (t', r) → SameKind t₁ t' := by
    intro t₁ h₁
    split at h₁
    · cases h₁
      exact ⟨rfl, rfl⟩
    · cases h₁
      exact ⟨rfl, rfl⟩
  unfold popFreeIndex at h
  simp only at h
  split_ifs at h
  · obtain ⟨t₁, h₁, ht'⟩ := Option.bind_eq_some_iff.1 h
    exact (sameKind_extendCacheTbl h₁).trans (hpop ht')
  · cases h
    exact ⟨rfl, rfl⟩
  · exact hpop h

theorem sameKind_setElm {slot : ℕ} {elm : Option α} (h : t.setElm slot elm = some t') :
    SameKind t t' := by
  unfold CacheTbl.setElm at h
  split_ifs at h
  cases h
  exact ⟨rfl, rfl⟩

theorem sameKind_relocate {es : List (ℕ × ℕ)} (h : relocate n es t = some t') : SameKind t t' := by
  induction es generalizing t with
  | nil =>
    cases h
    exact ⟨rfl, rfl⟩
  | cons e es ih =>
    obtain ⟨kidx, slot⟩ := e
    unfold relocate at h
    split_ifs at h
    · split at h
      · next t₁ newIndex hpop =>
        split_ifs at h
        split at h
        · cases h
        · split at h
          · cases h
          · next t₂ hset =>
            have hmoved : SameKind t t₂ := (sameKind_popFreeIndex hpop).trans (sameKind_setElm hset)
            have hrest : SameKind { t₂ with memArray := t₂.memArray.insert kidx newIndex } t' := ih h
            exact hmoved.trans hrest
      · cases h
    · exact ih h

theorem sameKind_shrinkCacheTbl {b : Bool} (h : shrinkCacheTbl t = some (t', b)) : SameKind t t' := by
  unfold shrinkCacheTbl at h
  simp only at h
  split_ifs at h
  · cases h
    exact ⟨rfl, rfl⟩
  · split at h
    · cases h
    · next t₁ hrel =>
      split_ifs at h
      cases h
      have hmoved : SameKind t t₁ := sameKind_relocate hrel
      exact hmoved

theorem sameKind_step {op : Op α} (h : step s op = some s') : SameKind s.tbl s'.tbl := by
  cases op with
  | store k v =>
    obtain ⟨⟨t', b⟩, ht, rfl⟩ := Option.map_eq_some_iff.1 h
    unfold storeElm at ht
    split at ht
    · obtain ⟨t₁, hset, heq⟩ := Option.map_eq_some_iff.1 ht
      cases heq
      exact sameKind_setElm hset
    · simp only at ht
      split at ht
      · cases ht
      · next t₁ hpop =>
        obtain ⟨t₂, hset, heq⟩ := Option.map_eq_some_iff.1 ht
        cases heq
        exact (sameKind_popFreeIndex hpop).trans (sameKind_setElm hset)
      · next t₁ slot hpop =>
        obtain ⟨t₂, hset, heq⟩ := Option.map_eq_some_iff.1 ht
        cases heq
        have hfound : SameKind { s.tbl with memArray := s.tbl.memArray.insert k 0 } t₁ :=
          sameKind_popFreeIndex hpop
        have hset' : SameKind { t₁ with memArray := t₁.memArray.insert k slot } t' :=
          sameKind_setElm hset
        exact hfound.trans hset'
  | get k =>
    obtain ⟨_, -, rfl⟩ := Option.map_eq_some_iff.1 h
    exact ⟨rfl, rfl⟩
  | find k =>
    cases h
    exact ⟨rfl, rfl⟩
  | delete k =>
    obtain ⟨⟨t', b⟩, ht, rfl⟩ := Option.map_eq_some_iff.1 h
    unfold deleteElm at ht
    split at ht
    · cases ht
      exact ⟨rfl, rfl⟩
    · unfold putFreeIndex at ht
      simp only at ht
      split_ifs at ht
      · cases ht
        exact ⟨rfl, rfl⟩
      · cases ht
        exact ⟨rfl, rfl⟩
      · exact sameKind_shrinkCacheTbl (t := { s.tbl with
          memArray := s.tbl.memArray.erase k, freeArray := _, freeNum := _ }) ht
      · cases ht
        exact ⟨rfl, rfl⟩

/-- A dynamic table with the indices below `N`, which has room for them. -/
structure Dynamic (N : ℕ) (s : State α) : Prop where
  inv : Inv s
  dynamic : s.tbl.dynamic = true
  fits : N * scaleConst * s.tbl.elmSize ≤ maxCacheTblSize
  below : ∀ k v, s.map k = some v → k < N

theorem Dynamic.entries_le (h : Dynamic N s) : s.tbl.memArray.entries.length ≤ N := by
  have hnodup : (s.tbl.memArray.entries.map Prod.fst).Nodup := by
    rw [List.nodup_iff_pairwise_ne, List.pairwise_map]
    exact s.tbl.memArray.sorted.imp fun hlt => hlt.ne
  have hsub : (s.tbl.memArray.entries.map Prod.fst).toFinset ⊆ Finset.range N := by
    intro k hk
    obtain ⟨e, he, rfl⟩ := List.mem_map.1 (List.mem_toFinset.1 hk)
    obtain ⟨-, v, hv, -⟩ := h.inv.core.data e.1 e.2 he
    exact Finset.mem_range.2 (h.below e.1 v hv)
  have hcard := Finset.card_le_card hsub
  rwa [List.toFinset_card_of_nodup hnodup, List.length_map, Finset.card_range] at hcard

/-- The index that a call stores or deletes is below `N`. -/
def Op.Below (N : ℕ) : Op α → Prop
  | .store k _ => k < N
  | .get _ => False
  | .find _ => True
  | .delete _ => True

theorem Dynamic.legal (h : Dynamic N s) {op : Op α} (hop : op.Below N) : Legal s op := by
  cases op with
  | store k v =>
    intro _ hn _
    have hcount := h.inv.core.count
    have hlen := h.entries_le
    calc s.tbl.elmNum * scaleConst * s.tbl.elmSize
        ≤ N * scaleConst * s.tbl.elmSize := by gcongr; omega
      _ ≤ maxCacheTblSize := h.fits
  | get k => cases hop
  | find k => trivial
  | delete k => trivial

theorem intAsWord_of_lt (hn : n < 2 ^ 31) : intAsWord n = n := by
  unfold intAsWord
  rw [Int32.toInt_ofNat_of_lt hn]
  omega

theorem Dynamic.kept (h : Dynamic N s) (hN : N < 2 ^ 31) (op : Op α) : Kept s op := by
  cases op with
  | store k v => exact fun _ _ => h.dynamic
  | get k => trivial
  | find k => trivial
  | delete k =>
    intro _ hshrinks
    have hcount := h.inv.core.count
    have hlen := h.entries_le
    have hmin := h.inv.min_le
    rw [intAsWord_of_lt (by omega)]
    simp only [Shrinks, scaleDown, scaleConst, minElmNum] at hshrinks hmin ⊢
    omega

theorem Dynamic.step (h : Dynamic N s) (hN : N < 2 ^ 31) {op : Op α} (hop : op.Below N)
    (hs : CacheTable.step s op = some s') : Dynamic N s' := by
  obtain ⟨hiff, hinv⟩ := h.inv.served_step (h.legal hop)
  obtain ⟨hdynamic, hsize⟩ := sameKind_step hs
  refine ⟨hinv (hiff.2 (h.kept hN op)) s' hs, hdynamic.trans h.dynamic, ?_, fun k v hv => ?_⟩
  · rw [hsize]
    exact h.fits
  · cases op with
    | store k' v' =>
      obtain ⟨r, -, rfl⟩ := Option.map_eq_some_iff.1 hs
      dsimp only at hv
      split_ifs at hv
      · rcases eq_or_ne k k' with rfl | hne
        · exact hop
        · rw [Function.update_of_ne hne] at hv
          exact h.below k v hv
      · exact h.below k v hv
    | get k' => cases hop
    | find k' =>
      cases hs
      exact h.below k v hv
    | delete k' =>
      obtain ⟨r, -, rfl⟩ := Option.map_eq_some_iff.1 hs
      dsimp only at hv
      split_ifs at hv
      · rcases eq_or_ne k k' with rfl | hne
        · rw [Function.update_self] at hv
          cases hv
        · rw [Function.update_of_ne hne] at hv
          exact h.below k v hv
      · exact h.below k v hv

theorem Dynamic.admissible (h : Dynamic N s) (hN : N < 2 ^ 31) {ops : List (Op α)}
    (hops : ∀ op ∈ ops, op.Below N) :
    Run.Admissible CacheTable.step Legal s ops ∧ Run.Admissible CacheTable.step Kept s ops := by
  induction ops generalizing s with
  | nil => exact ⟨trivial, trivial⟩
  | cons op ops ih =>
    have hop := hops op List.mem_cons_self
    have hrest : ∀ s', CacheTable.step s op = some s' →
        Run.Admissible CacheTable.step Legal s' ops ∧ Run.Admissible CacheTable.step Kept s' ops :=
      fun s' hs => ih (h.step hN hop hs) fun op' hop' => hops op' (List.mem_cons_of_mem _ hop')
    exact ⟨⟨h.legal hop, fun s' hs => (hrest s' hs).1⟩,
      ⟨h.kept hN op, fun s' hs => (hrest s' hs).2⟩⟩

/-- `n` elements are stored, and then `m` of them are deleted. -/
def storesAndDeletes (n m : ℕ) : List (Op Bool) :=
  ((List.range n).map fun k => .store k false) ++ (List.range m).map fun k => .delete k

theorem below_storesAndDeletes {m : ℕ} : ∀ op ∈ storesAndDeletes N m, op.Below N := by
  intro op hop
  rcases List.mem_append.1 hop with hop | hop
  · obtain ⟨k, hk, rfl⟩ := List.mem_map.1 hop
    exact List.mem_range.1 hk
  · obtain ⟨k, hk, rfl⟩ := List.mem_map.1 hop
    trivial

end

/-- An element is stored and read, then the table grows to 2048 slots and is halved again. -/
theorem served_growsAndShrinks : Run.Admissible step Served (.init 0 8 true)
    (.store 0 true :: .get 0 :: storesAndDeletes 1500 1400) := by
  have hinit : Dynamic 1500 (State.init 0 8 true : State Bool) :=
    ⟨inv_init 0 8 true, rfl, by decide, fun k v hv => by cases hv⟩
  have hN : 1500 < 2 ^ 31 := by decide
  have hzero : Op.Below 1500 (.store 0 true) := show 0 < 1500 by decide
  have hget : ∀ s, step (State.init 0 8 true) (.store 0 true) = some s → Legal s (.get 0) := by
    have hfound : (step (State.init 0 8 true : State Bool) (.store 0 true)).all
        (fun s => findElm s.tbl 0) = true := by
      decide +kernel
    generalize step (State.init 0 8 true : State Bool) (.store 0 true) = r at hfound
    rintro s rfl
    exact hfound
  generalize hops : storesAndDeletes 1500 1400 = ops
  have hrest : ∀ s s', step (State.init 0 8 true) (.store 0 true) = some s →
      step s (.get 0) = some s' →
        Run.Admissible step Legal s' ops ∧ Run.Admissible step Kept s' ops := by
    intro s s' hs hs'
    obtain ⟨_, -, rfl⟩ := Option.map_eq_some_iff.1 hs'
    subst hops
    exact (hinit.step hN hzero hs).admissible hN below_storesAndDeletes
  have hlegal : Run.Admissible step Legal (.init 0 8 true) (.store 0 true :: .get 0 :: ops) :=
    ⟨hinit.legal hzero, fun s hs => ⟨hget s hs, fun s' hs' => (hrest s s' hs hs').1⟩⟩
  exact (served_run_iff hlegal).2
    ⟨hinit.kept hN _, fun s hs => ⟨trivial, fun s' hs' => (hrest s s' hs hs').2⟩⟩

section

variable {α : Type} {s : State α}

theorem Inv.fill (h : Inv s) (hdyn : s.tbl.dynamic = false) (v : α) {ks : List ℕ} (hks : ks.Nodup)
    (hnew : ∀ k ∈ ks, s.tbl.memArray.get? k = none) (hlen : ks.length ≤ s.tbl.freeNum) :
    Run.Admissible step Legal s (ks.map fun k => .store k v) ∧
      ∃ s', Run.run step s (ks.map fun k => .store k v) = some s' ∧ Inv s' ∧
        s'.tbl.dynamic = false ∧ s'.tbl.freeNum = s.tbl.freeNum - ks.length ∧
        ∀ j ∉ ks, s'.tbl.memArray.get? j = s.tbl.memArray.get? j := by
  induction ks generalizing s with
  | nil => exact ⟨trivial, s, rfl, h, hdyn, rfl, fun _ _ => rfl⟩
  | cons k ks ih =>
    obtain ⟨hk, hks⟩ := List.nodup_cons.1 hks
    rw [List.length_cons] at hlen
    have hn : s.tbl.freeNum ≠ 0 := by omega
    obtain ⟨s₁, hstep, hinv, hsame, hcount⟩ :=
      h.store_new (hnew k List.mem_cons_self) (fun hno => absurd hno hn) v
    obtain ⟨hfree, hdyn₁⟩ := hcount hn
    have hnew₁ : ∀ j ∈ ks, s₁.tbl.memArray.get? j = none := fun j hj => by
      rw [hsame j fun he => hk (he ▸ hj)]
      exact hnew j (List.mem_cons_of_mem _ hj)
    obtain ⟨hlegal, s', hrun, hinv', hdyn', hfree', hsame'⟩ :=
      ih hinv (hdyn₁.trans hdyn) hks hnew₁ (by omega)
    refine ⟨⟨fun _ hno => absurd hno hn, fun s₂ hs₂ => ?_⟩, s', ?_, hinv', hdyn', ?_, fun j hj => ?_⟩
    · rw [hstep, Option.some.injEq] at hs₂
      exact hs₂ ▸ hlegal
    · rw [List.map_cons, Run.run_cons, hstep, Option.bind_some, hrun]
    · rw [hfree', hfree, List.length_cons]
      omega
    · rw [hsame' j fun hj' => hj (List.mem_cons_of_mem _ hj'),
        hsame j fun he => hj (he ▸ List.mem_cons_self)]

theorem Inv.overfill (h : Inv s) (hdyn : s.tbl.dynamic = false) (v : α) {ks : List ℕ} {k : ℕ}
    (hks : (ks ++ [k]).Nodup) (hnew : ∀ j ∈ ks ++ [k], s.tbl.memArray.get? j = none)
    (hlen : ks.length = s.tbl.freeNum) :
    Run.Admissible step Legal s ((ks.map fun j => .store j v) ++ [.store k v]) ∧
      ¬ Run.Admissible step Served s ((ks.map fun j => .store j v) ++ [.store k v]) := by
  rw [List.nodup_append] at hks
  obtain ⟨hks, -, hk⟩ := hks
  obtain ⟨hlegal, s', hrun, hinv, hdyn', hfree, hsame⟩ :=
    h.fill hdyn v hks (fun j hj => hnew j (List.mem_append_left _ hj)) hlen.le
  have hnot : k ∉ ks := fun hmem => hk k hmem k (List.mem_singleton_self k) rfl
  have hget : s'.tbl.memArray.get? k = none :=
    (hsame k hnot).trans (hnew k (List.mem_append_right _ (List.mem_singleton_self k)))
  have hzero : s'.tbl.freeNum = 0 := by omega
  have hdyn'' : s'.tbl.dynamic ≠ true := by rw [hdyn']; exact Bool.false_ne_true
  refine ⟨hlegal.snoc fun s₁ hs₁ => ?_, fun hserved => ?_⟩
  · rw [hrun, Option.some.injEq] at hs₁
    exact fun _ _ hno => absurd (hs₁ ▸ hno) hdyn''
  · obtain ⟨⟨s₁, hstep, hgood⟩, -⟩ := hserved.append.2 s' hrun
    exact hinv.store_full hget hzero hdyn'' v s₁ hstep hgood

end

/-- 1025 elements do not go into a table of 1024 slots that cannot grow. -/
theorem not_served_full : ∃ ops : List (Op Bool),
    Run.Admissible step Legal (.init 0 8 false) ops ∧
      ¬ Run.Admissible step Served (.init 0 8 false) ops := by
  have hinit : Inv (State.init 0 8 false : State Bool) := inv_init 0 8 false
  have hnodup : (List.range 1024 ++ [1024]).Nodup := by
    rw [← List.range_succ]
    exact List.nodup_range
  exact ⟨_, hinit.overfill rfl true hnodup (fun _ _ => rfl) List.length_range⟩

end DssSdk.Kvtrans.CacheTable
