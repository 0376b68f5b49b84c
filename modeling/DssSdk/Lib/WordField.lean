import Mathlib.Tactic

/-!
# Fields of a 64-bit word

A field of `bits` bits at a position of a word, read and written under a mask.

* `fieldMask`, `readField`, `writeField`: the mask and the two accesses;
* `readField_writeField_self`, `readField_writeField_of_disjoint`: what is read after a write.
-/

namespace WordField

/-- The mask of the `bits` bits from `shift` on: `(~(UINT64_MAX << bits)) << shift`. -/
def fieldMask (bits shift : ℕ) : BitVec 64 := (~~~(BitVec.allOnes 64 <<< bits)) <<< shift

def readField (bits shift : ℕ) (w : BitVec 64) : BitVec 64 := (w &&& fieldMask bits shift) >>> shift

def writeField (bits shift : ℕ) (w v : BitVec 64) : BitVec 64 :=
  (w &&& ~~~fieldMask bits shift) ||| (fieldMask bits shift &&& (v <<< shift))

variable {bits shift i : ℕ} {w v : BitVec 64}

theorem getLsbD_fieldMask (hi : i < 64) :
    (fieldMask bits shift).getLsbD i = decide (shift ≤ i ∧ i < shift + bits) := by
  unfold fieldMask
  rw [BitVec.getLsbD_shiftLeft, BitVec.getLsbD_not, BitVec.getLsbD_shiftLeft, BitVec.getLsbD_allOnes]
  by_cases h1 : i < shift
  · have h2 : ¬ (shift ≤ i ∧ i < shift + bits) := by omega
    simp [h1, h2]
  · have h2 : i - shift < 64 := by omega
    have h3 : i - shift - bits < 64 := by omega
    by_cases h4 : i - shift < bits
    · have h5 : shift ≤ i ∧ i < shift + bits := by omega
      simp [h1, h2, h4, h5, hi]
    · have h5 : ¬ (shift ≤ i ∧ i < shift + bits) := by omega
      simp [h1, h2, h3, h4, h5, hi]

theorem getLsbD_readField :
    (readField bits shift w).getLsbD i = (w.getLsbD (shift + i) && decide (i < bits)) := by
  unfold readField
  rw [BitVec.getLsbD_ushiftRight, BitVec.getLsbD_and]
  by_cases hi : shift + i < 64
  · rw [getLsbD_fieldMask hi]
    congr 1
    rw [decide_eq_decide]
    omega
  · rw [BitVec.getLsbD_of_ge _ _ (by omega), Bool.false_and, Bool.false_and]

theorem getLsbD_writeField (hi : i < 64) :
    (writeField bits shift w v).getLsbD i =
      if shift ≤ i ∧ i < shift + bits then v.getLsbD (i - shift) else w.getLsbD i := by
  unfold writeField
  rw [BitVec.getLsbD_or, BitVec.getLsbD_and, BitVec.getLsbD_and, BitVec.getLsbD_not,
    BitVec.getLsbD_shiftLeft, getLsbD_fieldMask hi]
  by_cases h : shift ≤ i ∧ i < shift + bits
  · have h1 : ¬ i < shift := by omega
    simp [h, h1, hi]
  · simp [h, hi]

/-- A value that fits is read back. -/
theorem readField_writeField_self (h : shift + bits ≤ 64) (hv : v.toNat < 2 ^ bits) :
    readField bits shift (writeField bits shift w v) = v := by
  apply BitVec.eq_of_getLsbD_eq
  intro i _
  rw [getLsbD_readField]
  by_cases hi : i < bits
  · rw [getLsbD_writeField (by omega), if_pos (by omega), Nat.add_sub_cancel_left, decide_eq_true hi,
      Bool.and_true]
  · have hzero : v.getLsbD i = false := by
      rw [BitVec.getLsbD]
      exact Nat.testBit_lt_two_pow (hv.trans_le (Nat.pow_le_pow_right (by omega) (by omega)))
    rw [decide_eq_false hi, Bool.and_false, hzero]

/-- Fields that do not overlap keep their values. -/
theorem readField_writeField_of_disjoint {shift' : ℕ} (h : shift' + bits ≤ 64)
    (hdis : shift' + bits ≤ shift ∨ shift + bits ≤ shift') :
    readField bits shift' (writeField bits shift w v) = readField bits shift' w := by
  apply BitVec.eq_of_getLsbD_eq
  intro i _
  rw [getLsbD_readField, getLsbD_readField]
  by_cases hi : i < bits
  · rw [getLsbD_writeField (by omega), if_neg (by omega)]
  · rw [decide_eq_false hi, Bool.and_false, Bool.and_false]

end WordField
