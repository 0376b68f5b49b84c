import Mathlib.Tactic

/-!
# Shift registers with feedback

A register of `w` bits goes one place down in each step, and the bit that falls out selects whether a
polynomial is added. Sums are exclusive or.

* `shift`, `shifts`: one step, and `n` steps;
* `shifts_xor`: the steps are linear;
* `shifts_split`: the low bits go through the feedback, the others only move down;
* `shifts_injective`: no step loses anything, if the polynomial has its highest bit;
* `eq_zero_of_shifts_two_pow`: no register but zero comes back after `2 ^ k` steps, if none stays as it
  is in one step.
-/

namespace ShiftRegister

variable {w : ℕ} (poly : BitVec w)

/-- One step of the register. -/
def shift (x : BitVec w) : BitVec w := (x >>> 1) ^^^ if x.getLsbD 0 then poly else 0#w

/-- Some steps of the register. -/
def shifts (n : ℕ) (x : BitVec w) : BitVec w := (shift poly)^[n] x

/-- The low bits of a register. -/
def low (n : ℕ) (x : BitVec w) : BitVec w := x &&& BitVec.ofNat w (2 ^ n - 1)

variable {poly} {x y : BitVec w} {n k : ℕ}

@[simp] theorem shifts_zero : shifts poly 0 x = x := rfl

theorem shifts_succ : shifts poly (n + 1) x = shifts poly n (shift poly x) := rfl

theorem shifts_add : shifts poly (n + k) x = shifts poly n (shifts poly k x) :=
  Function.iterate_add_apply _ _ _ _

theorem shift_xor : shift poly (x ^^^ y) = shift poly x ^^^ shift poly y := by
  unfold shift
  rw [BitVec.getLsbD_xor, BitVec.ushiftRight_xor_distrib]
  cases x.getLsbD 0 <;> cases y.getLsbD 0
  · simp
  · simp [BitVec.xor_assoc]
  · simp only [Bool.xor_false, if_true, Bool.false_eq_true, if_false, BitVec.xor_zero]
    rw [BitVec.xor_assoc, BitVec.xor_comm (y >>> 1) poly, ← BitVec.xor_assoc]
  · simp only [Bool.xor_self, if_true, Bool.false_eq_true, if_false, BitVec.xor_zero]
    rw [BitVec.xor_assoc (x >>> 1), ← BitVec.xor_assoc poly, BitVec.xor_comm poly (y >>> 1),
      BitVec.xor_assoc (y >>> 1), BitVec.xor_self, BitVec.xor_zero]

/-- The steps are linear. -/
theorem shifts_xor : shifts poly n (x ^^^ y) = shifts poly n x ^^^ shifts poly n y := by
  induction n generalizing x y with
  | zero => rfl
  | succ n ih => rw [shifts_succ, shift_xor, ih, ← shifts_succ, ← shifts_succ]

@[simp] theorem shifts_zero_right : shifts poly n 0#w = 0#w := by
  have h : shifts poly n (0#w ^^^ 0#w) = shifts poly n 0#w ^^^ shifts poly n 0#w := shifts_xor
  rwa [BitVec.xor_self, BitVec.xor_self] at h

theorem shifts_of_low (h : ∀ i < n, x.getLsbD i = false) : shifts poly n x = x >>> n := by
  induction n generalizing x with
  | zero => simp
  | succ n ih =>
    have hstep : shift poly x = x >>> 1 := by
      unfold shift
      rw [h 0 n.succ_pos]
      simp
    rw [shifts_succ, hstep, ih, ← BitVec.shiftRight_add, Nat.add_comm]
    intro i hi
    rw [BitVec.getLsbD_ushiftRight]
    exact h (1 + i) (by omega)

theorem getLsbD_low {i : ℕ} : (low n x).getLsbD i = (x.getLsbD i && decide (i < n)) := by
  unfold low
  rw [BitVec.getLsbD_and, BitVec.getLsbD_ofNat, Nat.testBit_two_pow_sub_one]
  by_cases hi : i < w
  · simp [hi]
  · rw [BitVec.getLsbD_of_ge x i (by omega)]
    simp

/-- The low bits go through the feedback, the others only move down. -/
theorem shifts_split : shifts poly n x = (x >>> n) ^^^ shifts poly n (low n x) := by
  have hhigh : ∀ i < n, (x ^^^ low n x).getLsbD i = false := by
    intro i hi
    rw [BitVec.getLsbD_xor, getLsbD_low]
    simp [hi]
  have hmoved : (x ^^^ low n x) >>> n = x >>> n := by
    apply BitVec.eq_of_getLsbD_eq
    intro i _
    rw [BitVec.getLsbD_ushiftRight, BitVec.getLsbD_ushiftRight, BitVec.getLsbD_xor, getLsbD_low]
    simp
  calc shifts poly n x = shifts poly n ((x ^^^ low n x) ^^^ low n x) := by
        rw [BitVec.xor_assoc, BitVec.xor_self, BitVec.xor_zero]
    _ = shifts poly n (x ^^^ low n x) ^^^ shifts poly n (low n x) := shifts_xor
    _ = (x >>> n) ^^^ shifts poly n (low n x) := by rw [shifts_of_low hhigh, hmoved]

theorem low_xor : low n (x ^^^ y) = low n x ^^^ low n y := by
  apply BitVec.eq_of_getLsbD_eq
  intro i _
  rw [BitVec.getLsbD_xor, getLsbD_low, getLsbD_low, getLsbD_low, BitVec.getLsbD_xor]
  exact Bool.and_xor_distrib_right _ _ _

theorem shifts_add_split :
    shifts poly (n + k) x = shifts poly k (x >>> n) ^^^ shifts poly (n + k) (low n x) := by
  rw [Nat.add_comm, shifts_add, shifts_split (x := x), shifts_xor, ← shifts_add]

theorem shifts_shiftLeft (h : (x <<< n) >>> n = x) : shifts poly n (x <<< n) = x := by
  rw [shifts_of_low, h]
  intro i hi
  rw [BitVec.getLsbD_shiftLeft]
  simp [hi]

theorem shifts_xor_shiftLeft (h : (y <<< n) >>> n = y) :
    shifts poly n x ^^^ y = shifts poly n (x ^^^ y <<< n) := by
  rw [shifts_xor, shifts_shiftLeft h]

/-! ### Nothing is lost -/

theorem eq_zero_of_shift (hpoly : poly.getLsbD (w - 1) = true) (h : shift poly x = 0#w) : x = 0#w := by
  have hw : 0 < w := by
    by_contra hw
    rw [BitVec.getLsbD_of_ge poly (w - 1) (by omega)] at hpoly
    cases hpoly
  have hbit : x.getLsbD 0 = false := by
    have htop := congrArg (fun y => y.getLsbD (w - 1)) h
    unfold shift at htop
    rw [BitVec.getLsbD_xor, BitVec.getLsbD_ushiftRight,
      BitVec.getLsbD_of_ge x (1 + (w - 1)) (by omega)] at htop
    cases hx : x.getLsbD 0 with
    | false => rfl
    | true =>
      rw [hx, if_pos rfl, hpoly] at htop
      simp at htop
  have hshift : x >>> 1 = 0#w := by
    unfold shift at h
    rw [hbit] at h
    simpa using h
  apply BitVec.eq_of_getLsbD_eq
  intro i _
  cases i with
  | zero =>
    rw [hbit]
    simp
  | succ i =>
    have hi := congrArg (fun y => y.getLsbD i) hshift
    rw [BitVec.getLsbD_ushiftRight, Nat.add_comm] at hi
    rw [hi]
    simp

/-- No step loses anything, if the polynomial has its highest bit. -/
theorem shifts_injective (hpoly : poly.getLsbD (w - 1) = true) :
    Function.Injective (shifts poly n) := by
  have hone : Function.Injective (shift poly) := by
    intro x y hxy
    have hzero : shift poly (x ^^^ y) = 0#w := by rw [shift_xor, hxy, BitVec.xor_self]
    exact BitVec.xor_eq_zero_iff.1 (eq_zero_of_shift hpoly hzero)
  exact hone.iterate n

/-- A register that stays as it is in one step is zero. The polynomial is `root ^^^ (root >>> 1)` for an
even `root`, which says that it has an even number of bits. -/
theorem eq_zero_of_shift_self {root : BitVec w} (hroot : root ^^^ (root >>> 1) = poly)
    (heven : root.getLsbD 0 = false) (h : shift poly x = x) : x = 0#w := by
  have hself : ∀ y : BitVec w, y >>> 1 = y → y = 0#w := by
    intro y hy
    have hnat := congrArg BitVec.toNat hy
    rw [BitVec.toNat_ushiftRight, Nat.shiftRight_eq_div_pow] at hnat
    apply BitVec.eq_of_toNat_eq
    rw [BitVec.toNat_zero]
    omega
  unfold shift at h
  cases hbit : x.getLsbD 0 with
  | false =>
    rw [hbit] at h
    exact hself x (by simpa using h)
  | true =>
    rw [hbit, if_pos rfl, ← hroot] at h
    -- the register would be the root, which is even
    have hdiff : (x ^^^ root) >>> 1 = x ^^^ root := by
      rw [BitVec.ushiftRight_xor_distrib]
      calc x >>> 1 ^^^ root >>> 1
          = (x >>> 1 ^^^ (root ^^^ root >>> 1)) ^^^ root := by
            rw [BitVec.xor_comm root, ← BitVec.xor_assoc, BitVec.xor_assoc _ root root,
              BitVec.xor_self, BitVec.xor_zero]
        _ = x ^^^ root := by rw [h]
    have hx := BitVec.xor_eq_zero_iff.1 (hself _ hdiff)
    rw [hx, heven] at hbit
    cases hbit

/-- No register but zero comes back after `2 ^ k` steps, if none stays as it is in one step: the map
`shifts (2 ^ k) x ^^^ x` is `2 ^ k` times the map `shift x ^^^ x`. -/
theorem eq_zero_of_shifts_two_pow (hfix : ∀ x, shift poly x = x → x = 0#w)
    (h : shifts poly (2 ^ k) x = x) : x = 0#w := by
  induction k generalizing x with
  | zero => exact hfix x h
  | succ k ih =>
    have hxor : shifts poly (2 ^ k) (shifts poly (2 ^ k) x ^^^ x) = shifts poly (2 ^ k) x ^^^ x := by
      rw [shifts_xor, ← shifts_add, ← Nat.two_mul, ← pow_succ', h, BitVec.xor_comm]
    exact ih (BitVec.xor_eq_zero_iff.1 (ih hxor))

end ShiftRegister
