import Mathlib.Tactic

/-!
# Extents

An extent `(b, n)` is the run of the `n` indices from `b` on.

* `Covers es x`: an extent of the list holds the index `x`;
* `Apart e f`: two extents have no index in common;
* `apart_of_disjoint`: extents of which one lies where the other does not are apart;
* `not_covers_of_apart`: a list of extents apart from one holds none of its indices.
-/

namespace Extents

/-- The index is in the extent. -/
def Holds (e : ℕ × ℕ) (x : ℕ) : Prop := e.1 ≤ x ∧ x < e.1 + e.2

instance (e : ℕ × ℕ) (x : ℕ) : Decidable (Holds e x) := inferInstanceAs (Decidable (_ ∧ _))

/-- The index is in one of the extents. -/
def Covers (es : List (ℕ × ℕ)) (x : ℕ) : Prop := ∃ e ∈ es, Holds e x

instance (es : List (ℕ × ℕ)) (x : ℕ) : Decidable (Covers es x) :=
  inferInstanceAs (Decidable (∃ e ∈ es, Holds e x))

/-- The extents have no index in common. -/
def Apart (e f : ℕ × ℕ) : Prop := e.1 + e.2 ≤ f.1 ∨ f.1 + f.2 ≤ e.1

variable {e f : ℕ × ℕ} {es fs : List (ℕ × ℕ)} {x : ℕ}

@[simp] theorem not_covers_nil : ¬ Covers [] x := by
  rintro ⟨e, he, -⟩
  cases he

@[simp] theorem covers_cons : Covers (e :: es) x ↔ Holds e x ∨ Covers es x := by
  unfold Covers
  simp

@[simp] theorem covers_append : Covers (es ++ fs) x ↔ Covers es x ∨ Covers fs x := by
  unfold Covers
  simp only [List.mem_append, or_and_right, exists_or]

theorem Apart.symm (h : Apart e f) : Apart f e := Or.symm h

theorem Apart.not_holds (h : Apart e f) (hx : Holds e x) : ¬ Holds f x := by
  unfold Apart at h
  unfold Holds at *
  omega

/-- Extents without a common index are apart, unless one is empty. -/
theorem apart_of_disjoint (he : 0 < e.2) (hf : 0 < f.2) (h : ∀ x, Holds e x → ¬ Holds f x) :
    Apart e f := by
  by_contra hno
  unfold Apart at hno
  refine h (max e.1 f.1) ?_ ?_ <;> unfold Holds <;> omega

/-- An extent apart from all others of a list covers none of their indices. -/
theorem not_covers_of_apart (h : ∀ f ∈ es, Apart e f) (hx : Holds e x) : ¬ Covers es x := by
  rintro ⟨f, hf, hfx⟩
  exact (h f hf).not_holds hx hfx

end Extents
