import Mathlib.Tactic

/-!
# Preconditions of programs with state and errors

A program over the state `σ` that may stop with an error `ε` is a `StateT σ (Except ε) α`.
`wp E m Q s` says that `m` started in `s` returns a result and a state with `Q`, or stops with an
error that `E` allows: `E` false is total correctness, `E` true is partial correctness.

* `wp_mono`: the rule of consequence;
* the `wp` of each way to build a program, as `simp` rules;
* `Keeps R m`: every run of `m` that returns relates the states before and after by `R`, with a
  rule for each way to build a program when `R` is a preorder;
* `Returns R m`: every run of `m` that returns has a result with `R`.
-/

namespace Program

variable {σ ε α β : Type}

/-- `m` started in `s` returns with `Q`, or stops with an error in `E`. -/
def wp (E : ε → Prop) (m : StateT σ (Except ε) α) (Q : α → σ → Prop) (s : σ) : Prop :=
  match m s with
  | .ok (a, s') => Q a s'
  | .error e => E e

variable {E : ε → Prop} {m : StateT σ (Except ε) α} {Q Q' : α → σ → Prop} {s : σ}

/-- The rule of consequence. -/
theorem wp_mono (h : wp E m Q s) (hQ : ∀ a s', Q a s' → Q' a s') : wp E m Q' s := by
  unfold wp at *
  split at h
  · exact hQ _ _ h
  · exact h

/-- Two postconditions at once; the second one may be shown for a weaker error condition. -/
theorem wp_and {E' : ε → Prop} (h : wp E m Q s) (h' : wp E' m Q' s) :
    wp E m (fun a s' => Q a s' ∧ Q' a s') s := by
  unfold wp at *
  split
  · rename_i a s' hm
    rw [hm] at h h'
    exact ⟨h, h'⟩
  · rename_i e hm
    rw [hm] at h
    exact h

theorem wp_ok {a : α} {s' : σ} (h : wp E m Q s) (hm : m s = .ok (a, s')) : Q a s' := by
  unfold wp at h
  rw [hm] at h
  exact h

theorem wp_true_iff :
    wp (fun _ : ε => True) m Q s ↔ ∀ a s', m s = .ok (a, s') → Q a s' := by
  unfold wp
  constructor
  · intro h a s' hm
    rw [hm] at h
    exact h
  · intro h
    split
    · rename_i a s' hm
      exact h a s' hm
    · trivial

theorem wp_false_iff :
    wp (fun _ : ε => False) m Q s ↔ ∃ a s', m s = .ok (a, s') ∧ Q a s' := by
  unfold wp
  constructor
  · intro h
    split at h
    · rename_i a s' hm
      exact ⟨a, s', hm, h⟩
    · exact h.elim
  · rintro ⟨a, s', hm, h⟩
    rw [hm]
    exact h

@[simp] theorem wp_pure (a : α) : wp E (pure a : StateT σ (Except ε) α) Q s ↔ Q a s := Iff.rfl

@[simp] theorem wp_bind {m : StateT σ (Except ε) β} {f : β → StateT σ (Except ε) α} :
    wp E (m >>= f) Q s ↔ wp E m (fun b s' => wp E (f b) Q s') s := by
  change (match (m s).bind fun p => f p.1 p.2 with
      | .ok (a, s') => Q a s'
      | .error e => E e) ↔ _
  unfold wp
  cases m s with
  | ok p => rfl
  | error e => rfl

theorem wp_bind_ok {m : StateT σ (Except ε) β} {f : β → StateT σ (Except ε) α} {b : β} {s₁ : σ}
    (h : m s = .ok (b, s₁)) : wp E (m >>= f) Q s ↔ wp E (f b) Q s₁ := by
  rw [wp_bind]
  unfold wp
  rw [h]

theorem wp_ite_bind_ok {c : Prop} [Decidable c] {m m' : StateT σ (Except ε) β}
    {f : β → StateT σ (Except ε) α} {b : β} {s₁ : σ} (h : (if c then m else m') s = .ok (b, s₁)) :
    wp E (if c then m >>= f else m' >>= f) Q s ↔ wp E (f b) Q s₁ := by
  split_ifs at h ⊢
  · exact wp_bind_ok h
  · exact wp_bind_ok h

@[simp] theorem wp_map {m : StateT σ (Except ε) β} {f : β → α} :
    wp E (f <$> m) Q s ↔ wp E m (fun b s' => Q (f b) s') s := by
  change (match (m s).bind fun p => .ok (f p.1, p.2) with
      | .ok (a, s') => Q a s'
      | .error e => E e) ↔ _
  unfold wp
  cases m s with
  | ok p => rfl
  | error e => rfl

@[simp] theorem wp_get {Q : σ → σ → Prop} :
    wp E (get : StateT σ (Except ε) σ) Q s ↔ Q s s := Iff.rfl

@[simp] theorem wp_modify {f : σ → σ} {Q : PUnit → σ → Prop} :
    wp E (modify f : StateT σ (Except ε) PUnit) Q s ↔ Q ⟨⟩ (f s) := Iff.rfl

@[simp] theorem wp_throw (e : ε) :
    wp E (throw e : StateT σ (Except ε) α) Q s ↔ E e := Iff.rfl

theorem wp_ite {c : Prop} [Decidable c] {m' : StateT σ (Except ε) α} :
    wp E (if c then m else m') Q s ↔ (c → wp E m Q s) ∧ (¬ c → wp E m' Q s) := by
  by_cases hc : c
  · simp [hc]
  · simp [hc]

/-! ### Programs that keep a relation -/

/-- Every run that returns relates the states before and after. -/
def Keeps (R : σ → σ → Prop) (m : StateT σ (Except ε) α) : Prop :=
  ∀ s, wp (fun _ => True) m (fun _ s' => R s s') s

namespace Keeps

variable {R R' : σ → σ → Prop}

theorem mono (h : Keeps R m) (hR : ∀ s s', R s s' → R' s s') : Keeps R' m :=
  fun s => wp_mono (h s) fun _ s' => hR s s'

theorem ok {a : α} {s' : σ} (h : Keeps R m) (hm : m s = .ok (a, s')) : R s s' :=
  wp_ok (Q := fun _ s' => R s s') (h s) hm

/-- Two relations at once. -/
theorem and (h : Keeps R m) (h' : Keeps R' m) : Keeps (fun s s' => R s s' ∧ R' s s') m :=
  fun s => wp_and (h s) (h' s)

/-- A program that keeps `R`, before the rest. -/
theorem wp_then {m : StateT σ (Except ε) β} {f : β → StateT σ (Except ε) α} (h : Keeps R m)
    (hf : ∀ b s', R s s' → wp (fun _ => True) (f b) Q s') :
    wp (fun _ => True) (m >>= f) Q s := by
  rw [Program.wp_bind]
  exact wp_mono (h s) hf

theorem pure [Std.Refl R] (a : α) : Keeps R (pure a : StateT σ (Except ε) α) := fun s => refl_of R s

theorem get [Std.Refl R] : Keeps R (get : StateT σ (Except ε) σ) := fun s => refl_of R s

theorem throw (e : ε) : Keeps R (throw e : StateT σ (Except ε) α) := fun _ => trivial

theorem modify {f : σ → σ} (h : ∀ s, R s (f s)) :
    Keeps R (modify f : StateT σ (Except ε) PUnit) := fun s => h s

theorem bind [IsTrans σ R] {m : StateT σ (Except ε) β} {f : β → StateT σ (Except ε) α}
    (hm : Keeps R m) (hf : ∀ b, Keeps R (f b)) : Keeps R (m >>= f) := by
  intro s
  rw [wp_bind]
  refine wp_mono (hm s) fun b s₁ h₁ => ?_
  exact wp_mono (hf b s₁) fun _ s₂ h₂ => trans_of R h₁ h₂

theorem ite {c : Prop} [Decidable c] {m' : StateT σ (Except ε) α} (h : c → Keeps R m)
    (h' : ¬ c → Keeps R m') : Keeps R (if c then m else m') := by
  by_cases hc : c
  · rw [if_pos hc]
    exact h hc
  · rw [if_neg hc]
    exact h' hc

end Keeps

/-! ### Results of programs -/

/-- Every run that returns has a result with `R`. -/
def Returns (R : α → Prop) (m : StateT σ (Except ε) α) : Prop :=
  ∀ s, wp (fun _ => True) m (fun a _ => R a) s

namespace Returns

variable {R : α → Prop}

theorem pure {a : α} (h : R a) : Returns R (pure a : StateT σ (Except ε) α) := fun _ => h

theorem throw (e : ε) : Returns R (throw e : StateT σ (Except ε) α) := fun _ => trivial

theorem bind {m : StateT σ (Except ε) β} {f : β → StateT σ (Except ε) α}
    (hf : ∀ b, Returns R (f b)) : Returns R (m >>= f) := by
  intro s
  rw [wp_bind]
  exact wp_true_iff.2 fun b s' _ => hf b s'

theorem bind_of {S : β → Prop} {m : StateT σ (Except ε) β} {f : β → StateT σ (Except ε) α}
    (hm : Returns S m) (hf : ∀ b, S b → Returns R (f b)) : Returns R (m >>= f) := by
  intro s
  rw [wp_bind]
  exact wp_mono (hm s) fun b s' hb => hf b hb s'

theorem ite {c : Prop} [Decidable c] {m' : StateT σ (Except ε) α} (h : c → Returns R m)
    (h' : ¬ c → Returns R m') : Returns R (if c then m else m') := by
  by_cases hc : c
  · rw [if_pos hc]
    exact h hc
  · rw [if_neg hc]
    exact h' hc

end Returns

end Program
