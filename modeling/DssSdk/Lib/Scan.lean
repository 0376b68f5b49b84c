import Mathlib.Tactic

/-!
# Scans of consecutive indices

A loop over consecutive indices that stops at the first one without a property.

* `runLen p b n`: how many of the indices `b, …, b + n - 1` have the property before the first that
  has not;
* `runLen_spec`, `runLen_lt`, `runLen_eq_iff`: the maximal prefix, and a scan that does not stop;
* `runLen_eq`: a prefix that ends at an index without the property is the maximal one.
-/

namespace Scan

variable {p : ℕ → Prop} [DecidablePred p]

/-- The length of the maximal prefix of `b, …, b + n - 1` with the property. -/
def runLen (p : ℕ → Prop) [DecidablePred p] : ℕ → ℕ → ℕ
  | _, 0 => 0
  | b, n + 1 => if p b then runLen p (b + 1) n + 1 else 0

@[simp] theorem runLen_zero (b : ℕ) : runLen p b 0 = 0 := rfl

theorem runLen_succ_of_pos {b : ℕ} (h : p b) (n : ℕ) :
    runLen p b (n + 1) = runLen p (b + 1) n + 1 := if_pos h

theorem runLen_succ_of_neg {b : ℕ} (h : ¬ p b) (n : ℕ) : runLen p b (n + 1) = 0 := if_neg h

theorem runLen_le (b n : ℕ) : runLen p b n ≤ n := by
  induction n generalizing b with
  | zero => exact le_rfl
  | succ n ih =>
    by_cases h : p b
    · rw [runLen_succ_of_pos h]
      exact Nat.succ_le_succ (ih (b + 1))
    · rw [runLen_succ_of_neg h]
      exact Nat.zero_le _

/-- The indices of the prefix have the property. -/
theorem runLen_spec {b n x : ℕ} (hb : b ≤ x) (hx : x < b + runLen p b n) : p x := by
  induction n generalizing b with
  | zero =>
    rw [runLen_zero] at hx
    omega
  | succ n ih =>
    by_cases h : p b
    · rw [runLen_succ_of_pos h] at hx
      rcases Nat.eq_or_lt_of_le hb with rfl | hlt
      · exact h
      · exact ih (b := b + 1) hlt (by omega)
    · rw [runLen_succ_of_neg h] at hx
      omega

/-- The scan stops at an index without the property. -/
theorem runLen_lt {b n : ℕ} (h : runLen p b n < n) : ¬ p (b + runLen p b n) := by
  induction n generalizing b with
  | zero => omega
  | succ n ih =>
    by_cases hb : p b
    · rw [runLen_succ_of_pos hb] at h ⊢
      have hnext := ih (b := b + 1) (by omega)
      rwa [show b + (runLen p (b + 1) n + 1) = b + 1 + runLen p (b + 1) n by omega]
    · rw [runLen_succ_of_neg hb]
      exact hb

theorem runLen_eq_iff {b n : ℕ} : runLen p b n = n ↔ ∀ x, b ≤ x → x < b + n → p x := by
  constructor
  · intro h x hb hx
    exact runLen_spec hb (by rwa [h])
  · intro h
    by_contra hne
    have hlt := lt_of_le_of_ne (runLen_le (p := p) b n) hne
    exact runLen_lt hlt (h _ (Nat.le_add_right _ _) (by omega))

end Scan
