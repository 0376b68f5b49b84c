import DssSdk.Lib.Extents
import DssSdk.Kvtrans.BlockStates

/-!
# Stored values

What `insert_data` wrote to the extents of a value is what `retrieve_data` reads from them.

* `insertAll`: the loop of `dss_kvtrans_write_ondisk_data` over the extents;
* `retrieveData_insertData`, `retrieve_insertAll`: the bytes of an extent, and of a value;
* `valueExtents`, `storedValue`: the extents of the value of a meta block and its bytes;
* `Fits`: a meta block has room for a value, inline or in disjoint extents of the device;
* `Fits.storedValue_insertAll`, `storedValue_congr`: the value is there after the write, and stays there
  as long as its blocks are not written.
-/

namespace DssSdk.Kvtrans

open Extents

section

variable (P : Params)

/-- The blocks after a value is written to its extents, from an offset on. -/
def insertAll (datas : ℕ → List UInt8) (value : List UInt8) (offset : ℕ) (locs : List ValueLoc) :
    ℕ → List UInt8 :=
  (extentOffsets P offset locs).foldl (fun d e => insertData P d e.1 value e.2) datas

/-- The extents of the value of a meta block; a value inline has none. -/
def valueExtents (blk : OndiskMeta) : List (ℕ × ℕ) :=
  if blk.valueLocation = .inline then [] else blk.placeValue.map extentOf

/-- The value of a meta block, as `_blk_load_value` reads it in memory. -/
def storedValue (datas : ℕ → List UInt8) (blk : OndiskMeta) : List UInt8 :=
  if blk.valueLocation = .inline then blk.valueBuffer.take blk.valueSize
  else (blk.placeValue.flatMap (retrieveData datas)).take blk.valueSize

/-- The meta block has room for the value. -/
structure Fits (value : List UInt8) (blk : OndiskMeta) : Prop where
  size : blk.valueSize = value.length
  inline : blk.valueLocation = .inline → blk.valueBuffer = value
  apart : (valueExtents blk).Pairwise Apart
  inRange : ∀ e ∈ valueExtents blk, 0 < e.2 ∧ P.InRange e.1 e.2
  room : blk.valueLocation ≠ .inline → value.length ≤ ((valueExtents blk).map Prod.snd).sum * P.blkSize

end

section

variable {P : Params} {datas datas' : ℕ → List UInt8} {value : List UInt8} {loc : ValueLoc}
  {locs : List ValueLoc} {offset x : ℕ} {blk : OndiskMeta}

theorem insertData_of_not_holds (hx : ¬ Holds (extentOf loc) x) :
    insertData P datas loc value offset x = datas x := by
  unfold insertData
  exact if_neg hx

/-- The first `n` blocks of an extent after a write to it. -/
theorem flatMap_insertData {n : ℕ} (hn : n ≤ loc.numChunks) :
    (List.range n).flatMap (fun j => insertData P datas loc value offset (loc.valueIndex + j)) =
      (value.drop offset).take (n * P.blkSize) := by
  induction n with
  | zero => simp
  | succ n ih =>
    have hblk : insertData P datas loc value offset (loc.valueIndex + n) =
        (value.drop (offset + n * P.blkSize)).take P.blkSize := by
      unfold insertData
      rw [if_pos ⟨by omega, by omega⟩, Nat.add_sub_cancel_left]
    rw [List.range_succ, List.flatMap_append, ih (by omega), List.flatMap_singleton, hblk,
      Nat.succ_mul, List.take_add, List.drop_drop]

/-- An extent gives back what was written to it. -/
theorem retrieveData_insertData : retrieveData (insertData P datas loc value offset) loc =
    (value.drop offset).take (loc.numChunks * P.blkSize) := by
  unfold retrieveData
  exact flatMap_insertData le_rfl

theorem retrieveData_congr (h : ∀ x, Holds (extentOf loc) x → datas x = datas' x) :
    retrieveData datas loc = retrieveData datas' loc := by
  unfold retrieveData
  rw [List.flatMap_def, List.flatMap_def]
  congr 1
  apply List.map_congr_left
  intro j hj
  have hlt := List.mem_range.1 hj
  exact h _ ⟨Nat.le_add_right _ _, Nat.add_lt_add_left hlt _⟩

@[simp] theorem insertAll_nil : insertAll P datas value offset [] = datas := rfl

theorem insertAll_cons : insertAll P datas value offset (loc :: locs) =
    insertAll P (insertData P datas loc value offset) value (offset + loc.numChunks * P.blkSize)
      locs := rfl

theorem insertAll_of_not_covers (hx : ¬ Covers (locs.map extentOf) x) :
    insertAll P datas value offset locs x = datas x := by
  induction locs generalizing datas offset with
  | nil => rfl
  | cons loc locs ih =>
    rw [List.map_cons, covers_cons, not_or] at hx
    rw [insertAll_cons, ih hx.2, insertData_of_not_holds hx.1]

/-- Disjoint extents give back the bytes that were written to them. -/
theorem retrieve_insertAll (hapart : (locs.map extentOf).Pairwise Apart) :
    locs.flatMap (retrieveData (insertAll P datas value offset locs)) =
      (value.drop offset).take (((locs.map extentOf).map Prod.snd).sum * P.blkSize) := by
  induction locs generalizing datas offset with
  | nil => simp
  | cons loc locs ih =>
    rw [List.map_cons, List.pairwise_cons] at hapart
    -- the extents behind this one do not touch it
    have hfirst : retrieveData (insertAll P datas value offset (loc :: locs)) loc =
        (value.drop offset).take (loc.numChunks * P.blkSize) := by
      rw [insertAll_cons, ← @retrieveData_insertData P datas value loc offset]
      exact retrieveData_congr fun x hx => insertAll_of_not_covers (not_covers_of_apart hapart.1 hx)
    rw [List.flatMap_cons, hfirst, insertAll_cons, ih hapart.2, List.map_cons, List.map_cons,
      List.sum_cons, Nat.add_mul, List.take_add, List.drop_drop]
    rfl

theorem valueExtents_of_ne (hloc : blk.valueLocation ≠ .inline) :
    valueExtents blk = blk.placeValue.map extentOf := if_neg hloc

/-- A value stays as long as its blocks do. -/
theorem storedValue_congr (h : ∀ x, Covers (valueExtents blk) x → datas x = datas' x) :
    storedValue datas blk = storedValue datas' blk := by
  unfold storedValue valueExtents at *
  split_ifs at h ⊢
  · rfl
  · congr 1
    rw [List.flatMap_def, List.flatMap_def]
    congr 1
    apply List.map_congr_left
    intro loc hloc
    exact retrieveData_congr fun x hx => h x ⟨_, List.mem_map_of_mem hloc, hx⟩

/-- The value is what was written. -/
theorem Fits.storedValue_insertAll (h : Fits P value blk) (hloc : blk.valueLocation ≠ .inline) :
    storedValue (insertAll P datas value 0 blk.placeValue) blk = value := by
  have hext := valueExtents_of_ne hloc
  have hroom := h.room hloc
  have hapart := h.apart
  rw [hext] at hroom hapart
  unfold storedValue
  rw [if_neg hloc, retrieve_insertAll hapart, List.drop_zero, h.size, List.take_take,
    Nat.min_eq_left hroom, List.take_length]

theorem Fits.storedValue_inline (h : Fits P value blk) (hloc : blk.valueLocation = .inline) :
    storedValue datas blk = value := by
  unfold storedValue
  rw [if_pos hloc, h.inline hloc, h.size, List.take_length]

end

end DssSdk.Kvtrans
