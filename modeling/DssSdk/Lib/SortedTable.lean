import Mathlib.Order.Basic
import Mathlib.Tactic

/-!
# Sorted tables

A table is a list of entries with ascending keys. Nothing is bundled, so that a table may stand
under the constructor of a recursive type.

* `get`, `put`, `del`: look up, set and remove the entry of a key;
* `Sorted`: the keys are ascending;
* `get_put`, `get_del`, `mem_iff_get`: a sorted table is the map that `get` reads.
-/

namespace SortedTable

variable {κ α : Type} [LinearOrder κ]

/-- The keys are ascending. -/
def Sorted (l : List (κ × α)) : Prop := l.Pairwise fun d e => d.1 < e.1

/-- The value of a key. -/
def get (k : κ) : List (κ × α) → Option α
  | [] => none
  | (j, a) :: l => if j = k then some a else get k l

/-- Set the value of a key, at its place in the order. -/
def put (k : κ) (v : α) : List (κ × α) → List (κ × α)
  | [] => [(k, v)]
  | (j, a) :: l =>
      if k < j then (k, v) :: (j, a) :: l
      else if j = k then (k, v) :: l
      else (j, a) :: put k v l

/-- Remove the entry of a key. -/
def del (k : κ) : List (κ × α) → List (κ × α)
  | [] => []
  | (j, a) :: l => if j = k then l else (j, a) :: del k l

variable {k j : κ} {v : α} {l : List (κ × α)}

@[simp] theorem get_nil (k : κ) : get k ([] : List (κ × α)) = none := rfl

theorem put_ne_nil (k : κ) (v : α) (l : List (κ × α)) : put k v l ≠ [] := by
  cases l with
  | nil => exact List.cons_ne_nil _ _
  | cons e l =>
    unfold put
    split_ifs <;> exact List.cons_ne_nil _ _

theorem get_put (k j : κ) (v : α) (l : List (κ × α)) :
    get j (put k v l) = if j = k then some v else get j l := by
  induction l with
  | nil => simp [put, get, eq_comm]
  | cons e l ih =>
    obtain ⟨i, a⟩ := e
    unfold put
    by_cases hlt : k < i
    · rw [if_pos hlt]
      simp only [get, eq_comm]
    · rw [if_neg hlt]
      by_cases heq : i = k
      · subst heq
        rw [if_pos rfl]
        unfold get
        split_ifs with h₁ h₂ h₂
        · rfl
        · exact absurd h₁.symm h₂
        · exact absurd h₂.symm h₁
        · rfl
      · rw [if_neg heq]
        unfold get
        rw [ih]
        split_ifs with h₁ h₂ h₂
        · exact absurd (h₁.trans h₂) heq
        · rfl
        · rfl
        · rfl

theorem mem_put {e : κ × α} (h : e ∈ put k v l) : e = (k, v) ∨ e ∈ l := by
  induction l with
  | nil => exact Or.inl (List.mem_singleton.1 h)
  | cons d l ih =>
    unfold put at h
    split_ifs at h with hlt heq
    · exact List.mem_cons.1 h
    · exact (List.mem_cons.1 h).imp_right (List.mem_cons_of_mem _)
    · rcases List.mem_cons.1 h with rfl | h
      · exact Or.inr List.mem_cons_self
      · exact (ih h).imp_right (List.mem_cons_of_mem _)

theorem mem_of_mem_del {e : κ × α} (h : e ∈ del k l) : e ∈ l := by
  induction l with
  | nil => exact h
  | cons d l ih =>
    unfold del at h
    split_ifs at h with heq
    · exact List.mem_cons_of_mem _ h
    · rcases List.mem_cons.1 h with rfl | h
      · exact List.mem_cons_self
      · exact List.mem_cons_of_mem _ (ih h)

theorem mem_of_get (h : get k l = some v) : (k, v) ∈ l := by
  induction l with
  | nil => cases h
  | cons d l ih =>
    unfold get at h
    split_ifs at h with heq
    · cases h
      rw [← heq]
      exact List.mem_cons_self
    · exact List.mem_cons_of_mem _ (ih h)

theorem Sorted.put (h : Sorted l) (k : κ) (v : α) : Sorted (put k v l) := by
  induction l with
  | nil => exact List.pairwise_singleton _ _
  | cons d l ih =>
    obtain ⟨i, a⟩ := d
    obtain ⟨hhead, htail⟩ := List.pairwise_cons.1 h
    unfold SortedTable.put
    split_ifs with hlt heq
    · refine List.pairwise_cons.2 ⟨fun e he => ?_, h⟩
      rcases List.mem_cons.1 he with rfl | he
      · exact hlt
      · exact hlt.trans (hhead e he)
    · subst heq
      exact List.pairwise_cons.2 ⟨hhead, htail⟩
    · refine List.pairwise_cons.2 ⟨fun e he => ?_, ih htail⟩
      rcases mem_put he with rfl | he
      · exact lt_of_le_of_ne (not_lt.1 hlt) heq
      · exact hhead e he

theorem put_of_forall_lt (h : ∀ e ∈ l, e.1 < k) : put k v l = l ++ [(k, v)] := by
  induction l with
  | nil => rfl
  | cons e l ih =>
    obtain ⟨j, a⟩ := e
    have hj : j < k := h _ List.mem_cons_self
    rw [put, if_neg hj.le.not_gt, if_neg hj.ne, ih fun e he => h e (List.mem_cons_of_mem _ he)]
    rfl

theorem foldl_put_of_sorted {m : List (κ × α)} (h : Sorted l) (hlt : ∀ d ∈ m, ∀ e ∈ l, d.1 < e.1) :
    l.foldl (fun t e => put e.1 e.2 t) m = m ++ l := by
  induction l generalizing m with
  | nil => rw [List.foldl_nil, List.append_nil]
  | cons e l ih =>
    obtain ⟨he, hl⟩ := List.pairwise_cons.1 h
    rw [List.foldl_cons, put_of_forall_lt fun d hd => hlt d hd e List.mem_cons_self, ih hl ?_,
      List.append_assoc]
    · rfl
    · intro d hd f hf
      rcases List.mem_append.1 hd with hd | hd
      · exact hlt d hd f (List.mem_cons_of_mem _ hf)
      · rw [List.mem_singleton.1 hd]
        exact he f hf

theorem mem_foldl_put {m : List (κ × α)} {e : κ × α}
    (h : e ∈ l.foldl (fun t e => put e.1 e.2 t) m) : e ∈ l ∨ e ∈ m := by
  induction l generalizing m with
  | nil => exact Or.inr h
  | cons d l ih =>
    rcases ih h with h | h
    · exact Or.inl (List.mem_cons_of_mem _ h)
    · rcases mem_put h with rfl | h
      · exact Or.inl List.mem_cons_self
      · exact Or.inr h

theorem Sorted.nodup (h : Sorted l) : l.Nodup :=
  h.imp fun hlt heq => hlt.ne (congrArg Prod.fst heq)

theorem Sorted.del (h : Sorted l) (k : κ) : Sorted (del k l) := by
  induction l with
  | nil => exact h
  | cons d l ih =>
    obtain ⟨hhead, htail⟩ := List.pairwise_cons.1 h
    unfold SortedTable.del
    split_ifs with heq
    · exact htail
    · exact List.pairwise_cons.2 ⟨fun e he => hhead e (mem_of_mem_del he), ih htail⟩

/-- A key occurs once. -/
theorem Sorted.mem_iff_get (h : Sorted l) : (k, v) ∈ l ↔ get k l = some v := by
  refine ⟨fun hm => ?_, mem_of_get⟩
  induction l with
  | nil => cases hm
  | cons d l ih =>
    obtain ⟨i, a⟩ := d
    obtain ⟨hhead, htail⟩ := List.pairwise_cons.1 h
    unfold get
    rcases List.mem_cons.1 hm with heq | hm
    · cases heq
      exact if_pos rfl
    · rw [if_neg (hhead (k, v) hm).ne]
      exact ih htail hm

theorem Sorted.get_del (h : Sorted l) (k j : κ) :
    get j (SortedTable.del k l) = if j = k then none else get j l := by
  induction l with
  | nil => simp [SortedTable.del]
  | cons d l ih =>
    obtain ⟨i, a⟩ := d
    obtain ⟨hhead, htail⟩ := List.pairwise_cons.1 h
    unfold SortedTable.del
    by_cases heq : i = k
    · subst heq
      rw [if_pos rfl]
      split_ifs with hj
      · subst hj
        rw [Option.eq_none_iff_forall_ne_some]
        intro w hw
        exact (hhead _ (mem_of_get hw)).ne rfl
      · simp only [get, if_neg (Ne.symm hj)]
    · rw [if_neg heq]
      unfold get
      rw [ih htail]
      by_cases hi : i = j
      · rw [if_pos hi, if_pos hi, if_neg (hi ▸ heq)]
      · rw [if_neg hi, if_neg hi]

theorem exists_get_of_ne_nil (h : l ≠ []) : ∃ k v, get k l = some v := by
  cases l with
  | nil => exact absurd rfl h
  | cons d l =>
    obtain ⟨i, a⟩ := d
    exact ⟨i, a, if_pos rfl⟩

theorem ne_nil_of_get (h : get k l = some v) : l ≠ [] := by
  rintro rfl
  cases h

end SortedTable
