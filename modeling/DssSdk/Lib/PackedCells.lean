import Mathlib.Tactic

/-!
# Cells packed in 64-bit words

A vector of 64-bit words read as a vector of cells of `bits` bits, `64 / bits` to a word, the
first cell in the low bits.

* `readCell`, `writeCell` act on one word, with the shifts and masks a packed vector uses;
* `cellAt`, `setCellAt` act on the vector;
* `cellAt_setCellAt` is the read-after-write law.

A cell has at most eight bits: the mask is cut out of one byte.
-/

namespace PackedCells

/-- The mask of the lowest cell: `0xff >> (8 - bits)`. -/
def flag (bits : ℕ) : BitVec 64 := BitVec.ofNat 64 (0xff >>> (8 - bits))

/-- The `k`-th cell of a word. -/
def readCell (bits : ℕ) (w : BitVec 64) (k : ℕ) : BitVec 64 := (w >>> (k * bits)) &&& flag bits

/-- The word with its `k`-th cell cleared and then set. -/
def writeCell (bits : ℕ) (w : BitVec 64) (k : ℕ) (v : BitVec 64) : BitVec 64 :=
  (w &&& ~~~(flag bits <<< (k * bits))) ||| ((v &&& flag bits) <<< (k * bits))

/-- The number of cells of a word. -/
def cellsPerWord (bits : ℕ) : ℕ := 64 / bits

/-- The `i`-th cell of a vector; a missing word reads as zero. -/
def cellAt (bits : ℕ) (data : List (BitVec 64)) (i : ℕ) : BitVec 64 :=
  readCell bits (data[i / cellsPerWord bits]?.getD 0) (i % cellsPerWord bits)

/-- The vector with its `i`-th cell set. -/
def setCellAt (bits : ℕ) (data : List (BitVec 64)) (i : ℕ) (v : BitVec 64) : List (BitVec 64) :=
  data.set (i / cellsPerWord bits)
    (writeCell bits (data[i / cellsPerWord bits]?.getD 0) (i % cellsPerWord bits) v)

section

variable {bits : ℕ}

theorem getLsbD_flag (hb : bits ≤ 8) (i : ℕ) : (flag bits).getLsbD i = decide (i < bits) := by
  have h255 : (0xff : ℕ) = 2 ^ 8 - 1 := by norm_num
  unfold flag
  rw [BitVec.getLsbD_ofNat, Nat.testBit_shiftRight, h255, Nat.testBit_two_pow_sub_one]
  by_cases hi : i < bits
  · have h1 : i < 64 := by omega
    have h2 : 8 - bits + i < 8 := by omega
    simp [h1, h2, hi]
  · have h2 : ¬ 8 - bits + i < 8 := by omega
    simp [h2, hi]

theorem getLsbD_readCell (hb : bits ≤ 8) (w : BitVec 64) (k i : ℕ) :
    (readCell bits w k).getLsbD i = (w.getLsbD (k * bits + i) && decide (i < bits)) := by
  unfold readCell
  rw [BitVec.getLsbD_and, BitVec.getLsbD_ushiftRight, getLsbD_flag hb]

theorem getLsbD_writeCell (hb : bits ≤ 8) (w : BitVec 64) (k : ℕ) (v : BitVec 64) (i : ℕ)
    (hi : i < 64) :
    (writeCell bits w k v).getLsbD i =
      if k * bits ≤ i ∧ i < k * bits + bits then v.getLsbD (i - k * bits) else w.getLsbD i := by
  unfold writeCell
  simp only [BitVec.getLsbD_or, BitVec.getLsbD_and, BitVec.getLsbD_not, BitVec.getLsbD_shiftLeft,
    getLsbD_flag hb, hi, decide_true, Bool.true_and]
  by_cases h1 : i < k * bits
  · have h2 : ¬ (k * bits ≤ i ∧ i < k * bits + bits) := by omega
    simp [h1, h2]
  · by_cases h2 : i - k * bits < bits
    · have h3 : k * bits ≤ i ∧ i < k * bits + bits := by omega
      simp [h1, h2, h3]
    · have h3 : ¬ (k * bits ≤ i ∧ i < k * bits + bits) := by omega
      simp [h1, h2, h3]

theorem readCell_writeCell (hb : bits ≤ 8) (w v : BitVec 64) {k l : ℕ}
    (hl : l < cellsPerWord bits) :
    readCell bits (writeCell bits w k v) l =
      if l = k then v &&& flag bits else readCell bits w l := by
  have hlb : l * bits + bits ≤ 64 := by
    have h1 : (l + 1) * bits ≤ cellsPerWord bits * bits := Nat.mul_le_mul_right bits hl
    have h2 : 64 / bits * bits ≤ 64 := Nat.div_mul_le_self 64 bits
    unfold cellsPerWord at h1
    linarith
  apply BitVec.eq_of_getLsbD_eq
  intro i _
  by_cases hi : i < bits
  · rw [getLsbD_readCell hb, getLsbD_writeCell hb _ _ _ _ (by omega)]
    by_cases hlk : l = k
    · subst hlk
      have hin : l * bits ≤ l * bits + i ∧ l * bits + i < l * bits + bits := by omega
      rw [if_pos hin, if_pos rfl, BitVec.getLsbD_and, getLsbD_flag hb, Nat.add_sub_cancel_left]
    · have hout : ¬ (k * bits ≤ l * bits + i ∧ l * bits + i < k * bits + bits) := by
        rintro ⟨h1, h2⟩
        rcases Nat.lt_or_gt_of_ne hlk with h | h
        · have := Nat.mul_le_mul_right bits (show l + 1 ≤ k from h)
          rw [Nat.add_mul] at this
          omega
        · have := Nat.mul_le_mul_right bits (show k + 1 ≤ l from h)
          rw [Nat.add_mul] at this
          omega
      rw [if_neg hout, if_neg hlk, getLsbD_readCell hb]
  · rw [getLsbD_readCell hb]
    by_cases hlk : l = k
    · rw [if_pos hlk, BitVec.getLsbD_and, getLsbD_flag hb]
      simp [hi]
    · rw [if_neg hlk, getLsbD_readCell hb]
      simp [hi]

@[simp] theorem length_setCellAt (data : List (BitVec 64)) (i : ℕ) (v : BitVec 64) :
    (setCellAt bits data i v).length = data.length := by
  unfold setCellAt
  rw [List.length_set]

theorem getElem?_setCellAt_of_ne (data : List (BitVec 64)) {i w : ℕ} (v : BitVec 64)
    (h : w ≠ i / cellsPerWord bits) : (setCellAt bits data i v)[w]? = data[w]? := by
  unfold setCellAt
  rw [List.getElem?_set_ne (Ne.symm h)]

/-- Reading after a write. -/
theorem cellAt_setCellAt (h0 : 0 < bits) (hb : bits ≤ 8) {data : List (BitVec 64)} {i : ℕ}
    (hi : i / cellsPerWord bits < data.length) (v : BitVec 64) (l : ℕ) :
    cellAt bits (setCellAt bits data i v) l =
      if l = i then v &&& flag bits else cellAt bits data l := by
  have hpos : 0 < cellsPerWord bits := Nat.div_pos (by omega) h0
  unfold cellAt
  by_cases hw : l / cellsPerWord bits = i / cellsPerWord bits
  · rw [hw]
    unfold setCellAt
    rw [List.getElem?_set_self hi, Option.getD_some, readCell_writeCell hb _ _ (Nat.mod_lt l hpos)]
    have hiff : l % cellsPerWord bits = i % cellsPerWord bits ↔ l = i := by
      constructor
      · intro h
        rw [← Nat.div_add_mod l (cellsPerWord bits), hw, h, Nat.div_add_mod]
      · intro h
        rw [h]
    by_cases hli : l = i
    · rw [if_pos (hiff.2 hli), if_pos hli]
    · rw [if_neg (fun h => hli (hiff.1 h)), if_neg hli]
  · rw [getElem?_setCellAt_of_ne data v hw, if_neg (fun h : l = i => hw (by rw [h]))]

theorem toNat_and_flag (hb : bits ≤ 8) (v : BitVec 64) :
    (v &&& flag bits).toNat = v.toNat % 2 ^ bits := by
  have hflag : (flag bits).toNat = 2 ^ bits - 1 := by
    interval_cases bits <;> rfl
  rw [BitVec.toNat_and, hflag, Nat.and_two_pow_sub_one_eq_mod]

theorem getLsbD_zeroWord (i : ℕ) : (0 : BitVec 64).getLsbD i = false := BitVec.getLsbD_zero

theorem readCell_eq_zero_iff (hb : bits ≤ 8) (w : BitVec 64) (k : ℕ) :
    readCell bits w k = 0 ↔ w &&& (flag bits <<< (k * bits)) = 0 := by
  constructor
  · intro h
    apply BitVec.eq_of_getLsbD_eq
    intro i hi
    have hread := congrArg (fun v => v.getLsbD (i - k * bits)) h
    simp only [getLsbD_readCell hb, getLsbD_zeroWord] at hread
    rw [BitVec.getLsbD_and, BitVec.getLsbD_shiftLeft, getLsbD_flag hb, getLsbD_zeroWord]
    by_cases hk : i < k * bits
    · simp [hk]
    · rw [show k * bits + (i - k * bits) = i by omega] at hread
      rw [decide_eq_true hi, decide_eq_false hk, Bool.not_false, Bool.true_and, Bool.true_and]
      exact hread
  · intro h
    apply BitVec.eq_of_getLsbD_eq
    intro i _
    have hmask := congrArg (fun v => v.getLsbD (k * bits + i)) h
    simp only [BitVec.getLsbD_and, BitVec.getLsbD_shiftLeft, getLsbD_flag hb, getLsbD_zeroWord,
      Nat.add_sub_cancel_left] at hmask
    rw [getLsbD_readCell hb, getLsbD_zeroWord]
    by_cases hi : k * bits + i < 64
    · simpa [hi] using hmask
    · rw [BitVec.getLsbD_of_ge _ _ (by omega), Bool.false_and]

theorem getLsbD_writeCell_one (hb : bits ≤ 8) {k i : ℕ}
    (h : (writeCell bits 0 k 1).getLsbD i = true) : i = k * bits := by
  have hi : i < 64 := BitVec.lt_of_getLsbD h
  rw [getLsbD_writeCell hb _ _ _ _ hi] at h
  split_ifs at h with hin
  · have hone : (1 : BitVec 64).getLsbD (i - k * bits) = decide (i - k * bits = 0) := by
      rw [show (1 : BitVec 64) = 1#64 from rfl, BitVec.getLsbD_one]
      simp
    rw [hone, decide_eq_true_iff] at h
    omega
  · rw [getLsbD_zeroWord] at h
    cases h

theorem cellAt_replicate_zero (n i : ℕ) : cellAt bits (List.replicate n 0) i = 0 := by
  have hz : ((List.replicate n (0 : BitVec 64))[i / cellsPerWord bits]?).getD 0 = 0 := by
    rw [List.getElem?_replicate]
    split_ifs <;> rfl
  unfold cellAt readCell
  rw [hz]
  simp

end

end PackedCells
