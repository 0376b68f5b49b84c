import Mathlib.Tactic

/-!
# Runs of a partial step function

A system is a function `step : σ → α → Option σ`: the state after an action, or `none` when the
system stops in the middle of it (a failed assertion, an access out of bounds).

* `run step s acts`: the state after a list of actions;
* `Admissible step ok s acts`: every action of the run meets a condition on the state before it;
* `run_total`, `run_meets`, `run_inv`: the invariant rules, for steps that cannot stop and for steps
  that may;
* `admissible_iff`: two conditions on a run that agree at each step;
* `Always R l`: every entry of a history meets a condition on what came before it.
-/

namespace Run

variable {σ α : Type}

/-- The state after the actions, if the system does not stop. -/
def run (step : σ → α → Option σ) (s : σ) : List α → Option σ
  | [] => some s
  | a :: acts => (step s a).bind fun s' => run step s' acts

/-- Every action of the run meets the condition `ok` in the state it finds. -/
def Admissible (step : σ → α → Option σ) (ok : σ → α → Prop) : σ → List α → Prop
  | _, [] => True
  | s, a :: acts => ok s a ∧ ∀ s', step s a = some s' → Admissible step ok s' acts

variable {step : σ → α → Option σ} {ok : σ → α → Prop} {inv : σ → Prop}

@[simp] theorem run_nil (s : σ) : run step s [] = some s := rfl

theorem run_cons (s : σ) (a : α) (acts : List α) :
    run step s (a :: acts) = (step s a).bind fun s' => run step s' acts := rfl

theorem run_append (s : σ) (l l' : List α) :
    run step s (l ++ l') = (run step s l).bind fun s' => run step s' l' := by
  induction l generalizing s with
  | nil => rfl
  | cons a l ih =>
    rw [List.cons_append, run_cons, run_cons, Option.bind_assoc]
    congr 1
    funext s'
    exact ih s'

theorem Admissible.append {s : σ} {l l' : List α} (h : Admissible step ok s (l ++ l')) :
    Admissible step ok s l ∧ ∀ s', run step s l = some s' → Admissible step ok s' l' := by
  induction l generalizing s with
  | nil =>
    refine ⟨trivial, fun s' hs => ?_⟩
    cases hs
    exact h
  | cons a l ih =>
    obtain ⟨hok, hrest⟩ := h
    refine ⟨⟨hok, fun s₁ h₁ => (ih (hrest s₁ h₁)).1⟩, fun s' hs => ?_⟩
    rw [run_cons] at hs
    obtain ⟨s₁, h₁, hs'⟩ := Option.bind_eq_some_iff.1 hs
    exact (ih (hrest s₁ h₁)).2 s' hs'

theorem Admissible.snoc {s : σ} {l : List α} {a : α} (h : Admissible step ok s l)
    (ha : ∀ s', run step s l = some s' → ok s' a) : Admissible step ok s (l ++ [a]) := by
  induction l generalizing s with
  | nil => exact ⟨ha s rfl, fun _ _ => trivial⟩
  | cons b l ih =>
    obtain ⟨hok, hrest⟩ := h
    refine ⟨hok, fun s₁ h₁ => ih (hrest s₁ h₁) fun s' hs => ha s' ?_⟩
    rw [run_cons, h₁, Option.bind_some, hs]

theorem Admissible.imp {ok' : σ → α → Prop} {s : σ} {acts : List α}
    (h : Admissible step ok s acts) (himp : ∀ s, ∀ a ∈ acts, ok s a → ok' s a) :
    Admissible step ok' s acts := by
  induction acts generalizing s with
  | nil => exact trivial
  | cons a acts ih =>
    obtain ⟨hok, hrest⟩ := h
    refine ⟨himp s a List.mem_cons_self hok, fun s' hs => ih (hrest s' hs) fun s b hb => ?_⟩
    exact himp s b (List.mem_cons_of_mem _ hb)

theorem admissible_true (s : σ) (acts : List α) : Admissible step (fun _ _ => True) s acts := by
  induction acts generalizing s with
  | nil => exact trivial
  | cons a acts ih => exact ⟨trivial, fun s' _ => ih s'⟩

instance decidableAdmissible [∀ s a, Decidable (ok s a)] :
    ∀ (s : σ) (acts : List α), Decidable (Admissible step ok s acts)
  | _, [] => isTrue trivial
  | s, a :: acts =>
      match h : step s a with
      | none =>
          decidable_of_iff (ok s a)
            ⟨fun hok => ⟨hok, fun _ hs => by rw [h] at hs; cases hs⟩, fun hok => hok.1⟩
      | some s₁ =>
          have : Decidable (Admissible step ok s₁ acts) := decidableAdmissible s₁ acts
          decidable_of_iff (ok s a ∧ Admissible step ok s₁ acts)
            ⟨fun hok => ⟨hok.1, fun _ hs => by rw [h] at hs; cases hs; exact hok.2⟩,
              fun hok => ⟨hok.1, hok.2 s₁ h⟩⟩

/-- Steps that cannot stop and keep an invariant. -/
theorem run_total (hstep : ∀ s a, inv s → ok s a → ∃ s', step s a = some s' ∧ inv s')
    {s : σ} {acts : List α} (hs : inv s) (hok : Admissible step ok s acts) :
    ∃ s', run step s acts = some s' ∧ inv s' := by
  induction acts generalizing s with
  | nil => exact ⟨s, rfl, hs⟩
  | cons a acts ih =>
    obtain ⟨hoka, hrest⟩ := hok
    obtain ⟨s₁, h₁, hs₁⟩ := hstep s a hs hoka
    obtain ⟨s', h', hs'⟩ := ih hs₁ (hrest s₁ h₁)
    refine ⟨s', ?_, hs'⟩
    rw [run_cons, h₁, Option.bind_some, h']

/-- Steps that cannot stop, keep an invariant and meet a condition. -/
theorem run_meets {good : σ → α → Prop}
    (hstep : ∀ s a, inv s → ok s a → good s a ∧ ∃ s', step s a = some s' ∧ inv s')
    {s : σ} {acts : List α} (hs : inv s) (hok : Admissible step ok s acts) :
    (∃ s', run step s acts = some s' ∧ inv s') ∧ Admissible step good s acts := by
  refine ⟨run_total (fun s a hs ha => (hstep s a hs ha).2) hs hok, ?_⟩
  induction acts generalizing s with
  | nil => exact trivial
  | cons a acts ih =>
    obtain ⟨hgood, s₁, h₁, hs₁⟩ := hstep s a hs hok.1
    refine ⟨hgood, fun s' hs' => ?_⟩
    rw [h₁] at hs'
    cases hs'
    exact ih hs₁ (hok.2 s₁ h₁)

/-- Steps that keep an invariant when they do not stop. -/
theorem run_inv (hstep : ∀ s a s', inv s → ok s a → step s a = some s' → inv s')
    {s s' : σ} {acts : List α} (hs : inv s) (hok : Admissible step ok s acts)
    (hrun : run step s acts = some s') : inv s' := by
  induction acts generalizing s with
  | nil =>
    cases hrun
    exact hs
  | cons a acts ih =>
    rw [run_cons] at hrun
    cases h₁ : step s a with
    | none => rw [h₁] at hrun; cases hrun
    | some s₁ =>
      rw [h₁] at hrun
      exact ih (hstep s a s₁ hs hok.1 h₁) (hok.2 s₁ h₁) hrun

theorem admissible_of_run (hok : ∀ s a s', step s a = some s' → ok s a) {s s' : σ} {acts : List α}
    (hrun : run step s acts = some s') : Admissible step ok s acts := by
  induction acts generalizing s with
  | nil => exact trivial
  | cons a acts ih =>
    rw [run_cons] at hrun
    obtain ⟨s₁, h₁, hrest⟩ := Option.bind_eq_some_iff.1 hrun
    refine ⟨hok s a s₁ h₁, fun s₂ h₂ => ?_⟩
    rw [h₁] at h₂
    cases h₂
    exact ih hrest

/-- Two conditions on a run that agree for every step from a state with the invariant, when the first
one keeps it. -/
theorem admissible_iff {legal P Q : σ → α → Prop}
    (hstep : ∀ s a, inv s → legal s a →
      (P s a ↔ Q s a) ∧ (P s a → ∀ s', step s a = some s' → inv s'))
    {s : σ} {acts : List α} (hs : inv s) (hlegal : Admissible step legal s acts) :
    Admissible step P s acts ↔ Admissible step Q s acts := by
  induction acts generalizing s with
  | nil => exact Iff.rfl
  | cons a acts ih =>
    obtain ⟨hiff, hinv⟩ := hstep s a hs hlegal.1
    constructor
    · rintro ⟨hP, hrest⟩
      exact ⟨hiff.1 hP, fun s' hs' => (ih (hinv hP s' hs') (hlegal.2 s' hs')).1 (hrest s' hs')⟩
    · rintro ⟨hQ, hrest⟩
      have hP := hiff.2 hQ
      exact ⟨hP, fun s' hs' => (ih (hinv hP s' hs') (hlegal.2 s' hs')).2 (hrest s' hs')⟩

/-! ### Histories -/

/-- Every entry of the history meets the condition on the entries before it. -/
def Always (R : List α → α → Prop) (l : List α) : Prop :=
  ∀ l₁ a l₂, l = l₁ ++ a :: l₂ → R l₁ a

theorem always_nil (R : List α → α → Prop) : Always R [] := by
  intro l₁ a l₂ h
  simp at h

theorem always_snoc {R : List α → α → Prop} {l : List α} {a : α} :
    Always R (l ++ [a]) ↔ Always R l ∧ R l a := by
  constructor
  · intro h
    refine ⟨fun l₁ b l₂ hl => h l₁ b (l₂ ++ [a]) ?_, h l a [] rfl⟩
    rw [hl, List.append_assoc, List.cons_append]
  · rintro ⟨h, ha⟩ l₁ b l₂ hl
    rcases List.eq_nil_or_concat l₂ with rfl | ⟨l₃, c, rfl⟩
    · obtain ⟨rfl, hb⟩ := List.append_inj' hl rfl
      cases hb
      exact ha
    · have hl' : l ++ [a] = (l₁ ++ b :: l₃) ++ [c] := by
        rw [hl, List.append_assoc, List.cons_append, List.concat_eq_append]
      obtain ⟨rfl, -⟩ := List.append_inj' hl' rfl
      exact h l₁ b l₃ rfl

end Run
