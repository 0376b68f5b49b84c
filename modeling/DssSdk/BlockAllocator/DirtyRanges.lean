import DssSdk.BlockAllocator.IoTaskOrderer
import DssSdk.Lib.Run

/-!
# The dirty ranges over a run

Calls of `mark_dirty_meta` one after the other, from the empty array on.

* `TracksDirty`: the stored ranges cover what was marked, and they are apart;
* `mergeDirtyMeta_apart_iff`: one call keeps them apart exactly when it reaches at most one of the
  ranges that start after it;
* `tracksDirty_iff`: over a run, the same of every call.

`check_next_dirty_merge` merges one range. The ranges behind it that the new one covers or touches
stay in the array.
-/

namespace DssSdk.BlockAllocator

namespace IoTaskOrderer

variable {β : Type} {m : JudyArray ℕ} {lba n : ℕ}

/-- What a merge stores reaches from `lba` or before it to `lba + n` or behind it, and of the ranges
that start after `lba` it removes one. -/
theorem mergeDirtyMeta_stored (m : JudyArray ℕ) (lba n : ℕ) :
    (mergeDirtyMeta m lba n = some m ∧ ∃ len, (lba, len) ∈ m ∧ n ≤ len) ∨
    ∃ m' l k x, mergeDirtyMeta m lba n = some m' ∧ (l, k) ∈ m' ∧ l ≤ lba ∧ lba + n ≤ l + k ∧
      ∀ e ∈ m, lba < e.1 → e.1 ≠ x → e ∈ m' := by
  rcases mergeDirtyMeta_cases m lba n with h | ⟨m₁, m₂, m₃, l, n₁, n₂, hc, hp, hx, -, h⟩
  · exact Or.inl h
  have hcur : ∀ e ∈ m, e.1 ≠ lba → e ∈ m₁ := by
    rcases checkCurrentDirtyMerge_spec m lba n with ⟨h0, -⟩ | ⟨m', h1, -, -, hkeep, -⟩
    · rw [h0] at hc
      cases hc
    · rw [h1] at hc
      cases hc
      exact hkeep
  have hprev : l ≤ lba ∧ lba + n ≤ l + n₁ ∧ ∀ e ∈ m₁, lba < e.1 → e ∈ m₂ := by
    rcases checkPrevDirtyMerge_spec m₁ lba n with ⟨h0, -⟩ | ⟨p, pn, n', hpv, -, h1, hend⟩
    · rw [h0] at hp
      cases hp
      exact ⟨le_rfl, le_rfl, fun e he _ => he⟩
    · rw [h1] at hp
      cases hp
      have hlt := (JudyArray.prev?_eq_some_iff.1 hpv).2.1
      dsimp only at hlt
      refine ⟨hlt.le, by omega, fun e he hgt => JudyArray.mem_erase.2 ⟨he, ?_⟩⟩
      omega
  have hnext : n₁ ≤ n₂ ∧ ∃ x, ∀ e ∈ m₂, e.1 ≠ x → e ∈ m₃ := by
    rcases checkNextDirtyMerge_spec m₂ l n₁ with ⟨h0, -⟩ | ⟨x, xn, n', -, -, h1, hend⟩
    · rw [h0] at hx
      cases hx
      exact ⟨le_rfl, lba, fun e he _ => he⟩
    · rw [h1] at hx
      cases hx
      exact ⟨by omega, x, fun e he hne => JudyArray.mem_erase.2 ⟨he, hne⟩⟩
  obtain ⟨hl, hln, hkeep₂⟩ := hprev
  obtain ⟨hle, x, hkeep₃⟩ := hnext
  refine Or.inr ⟨_, l, n₂, x, h, JudyArray.mem_insert.2 (Or.inl rfl), hl, by omega,
    fun e he hgt hne => JudyArray.mem_insert.2 (Or.inr ⟨?_, ?_⟩)⟩
  · exact hkeep₃ e (hkeep₂ e (hcur e he (by omega)) hgt) hne
  · show e.1 ≠ l
    omega

/-- A call keeps the ranges apart exactly when it reaches at most one of those that start after
it. -/
theorem mergeDirtyMeta_apart_iff (hm : Apart m) {m' : JudyArray ℕ}
    (h : mergeDirtyMeta m lba n = some m') : Apart m' ↔ ReachesOneNext m lba n := by
  refine ⟨fun hm' d hd e he hd₁ hd₂ he₁ he₂ => ?_, fun hone => mergeDirtyMeta_apart hm hone h⟩
  rcases mergeDirtyMeta_stored m lba n with ⟨-, len, hmem, hlen⟩ |
    ⟨m₁, l, k, x, h₁, hmem, hl, hk, hkeep⟩
  · have := hm _ hmem d hd hd₁
    dsimp only at this
    omega
  · obtain rfl := Option.some.inj (h.symm.trans h₁)
    -- a range that stays is not apart from the merged one
    have hgone : ∀ f ∈ m, lba < f.1 → f.1 ≤ lba + n → f.1 = x := by
      intro f hf hf₁ hf₂
      by_contra hne
      have := hm' _ hmem f (hkeep f hf hf₁ hne) (by dsimp only; omega)
      dsimp only at this
      omega
    exact JudyArray.eq_of_fst_eq hd he ((hgone d hd hd₁ hd₂).trans (hgone e he he₁ he₂).symm)

/-! ### Runs -/

/-- One call of `mark_dirty_meta`. -/
def markStep (o : IoTaskOrderer β) (r : ℕ × ℕ) : Option (IoTaskOrderer β) :=
  o.markDirtyMeta r.1 r.2

/-- The stored ranges cover exactly the blocks that were marked, and two of them neither overlap nor
touch. -/
structure TracksDirty (marks : List (ℕ × ℕ)) (o : IoTaskOrderer β) : Prop where
  union : ∀ d, Covered o.jarrDirtyMeta d ↔ ∃ r ∈ marks, r.1 ≤ d ∧ d < r.1 + r.2
  apart : Apart o.jarrDirtyMeta

/-- The call reaches at most one of the ranges that start after it. -/
def MarksOneNext (o : IoTaskOrderer β) (r : ℕ × ℕ) : Prop :=
  ReachesOneNext o.jarrDirtyMeta r.1 r.2

instance (o : IoTaskOrderer β) (r : ℕ × ℕ) : Decidable (MarksOneNext o r) :=
  inferInstanceAs (Decidable (ReachesOneNext o.jarrDirtyMeta r.1 r.2))

theorem tracksDirty_init (k : ℕ) : TracksDirty [] (init k : IoTaskOrderer β) := by
  refine ⟨fun d => ⟨?_, ?_⟩, fun d hd => absurd hd (JudyArray.not_mem_empty d)⟩
  · rintro ⟨e, he, -⟩
    exact absurd he (JudyArray.not_mem_empty e)
  · rintro ⟨r, hr, -⟩
    exact absurd hr List.not_mem_nil

/-- One call. -/
theorem TracksDirty.mark {marks : List (ℕ × ℕ)} {o : IoTaskOrderer β} (h : TracksDirty marks o)
    (r : ℕ × ℕ) :
    ∃ o', markStep o r = some o' ∧ (TracksDirty (marks ++ [r]) o' ↔ MarksOneNext o r) := by
  obtain ⟨m', hm', hcov⟩ := mergeDirtyMeta_covered o.jarrDirtyMeta r.1 r.2
  refine ⟨{ o with jarrDirtyMeta := m' }, by rw [markStep, markDirtyMeta, hm']; rfl, ?_⟩
  have hunion : ∀ d, Covered m' d ↔ ∃ r' ∈ marks ++ [r], r'.1 ≤ d ∧ d < r'.1 + r'.2 := by
    intro d
    rw [hcov d, h.union d]
    simp only [List.mem_append, List.mem_singleton, or_and_right, exists_or, exists_eq_left]
  constructor
  · intro h'
    exact (mergeDirtyMeta_apart_iff h.apart hm').1 h'.apart
  · intro hone
    exact ⟨hunion, (mergeDirtyMeta_apart_iff h.apart hm').2 hone⟩

/-- The ranges are tracked all along a sequence of calls exactly when every call reaches at most one
of the ranges that start after it. -/
theorem tracksDirty_iff (k : ℕ) (marks : List (ℕ × ℕ)) :
    (∀ pre, pre <+: marks →
      ∃ o, Run.run markStep (init k : IoTaskOrderer β) pre = some o ∧ TracksDirty pre o) ↔
    Run.Admissible markStep MarksOneNext (init k : IoTaskOrderer β) marks := by
  induction marks using List.reverseRecOn with
  | nil =>
    refine ⟨fun _ => trivial, fun _ pre hpre => ?_⟩
    obtain rfl := List.prefix_nil.1 hpre
    exact ⟨_, rfl, tracksDirty_init k⟩
  | append_singleton marks r ih =>
    constructor
    · intro h
      have hmarks := ih.1 fun pre hpre => h pre (hpre.trans (List.prefix_append _ _))
      obtain ⟨o, ho, ht⟩ := h marks (List.prefix_append _ _)
      obtain ⟨o', ho', hiff⟩ := ht.mark r
      refine hmarks.snoc fun s' hs => ?_
      obtain rfl := Option.some.inj (ho.symm.trans hs)
      obtain ⟨o'', hrun, ht'⟩ := h (marks ++ [r]) (List.prefix_refl _)
      rw [Run.run_append, ho, Option.bind_some, Run.run_cons, ho'] at hrun
      cases hrun
      exact hiff.1 ht'
    · intro hok pre hpre
      obtain ⟨hmarks, hlast⟩ := hok.append
      rcases List.prefix_concat_iff.1 hpre with rfl | hpre
      · obtain ⟨o, ho, ht⟩ := ih.2 hmarks marks (List.prefix_refl _)
        obtain ⟨o', ho', hiff⟩ := ht.mark r
        refine ⟨o', ?_, hiff.2 (hlast o ho).1⟩
        rw [Run.run_append, ho, Option.bind_some, Run.run_cons, ho']
        rfl
      · exact ih.2 hmarks pre hpre

/-- Three marks, one of which covers two of the ranges stored before it. -/
def nestedMarks : List (ℕ × ℕ) := [(10, 1), (12, 1), (9, 20)]

theorem not_tracksDirty_nestedMarks :
    ¬ ∃ o, Run.run markStep (init 16 : IoTaskOrderer ℕ) nestedMarks = some o ∧
      TracksDirty nestedMarks o := by
  rintro ⟨o, ho, ht⟩
  have hrun : Run.run markStep (init 16 : IoTaskOrderer ℕ) nestedMarks =
      some { (init 16 : IoTaskOrderer ℕ) with
        jarrDirtyMeta := ⟨[(9, 20), (12, 1)], by decide⟩ } := rfl
  obtain rfl := Option.some.inj (hrun.symm.trans ho)
  have := ht.apart (9, 20) List.mem_cons_self (12, 1) (List.mem_cons_of_mem _ List.mem_cons_self)
    (by decide)
  exact absurd this (by decide)

end IoTaskOrderer

end DssSdk.BlockAllocator
