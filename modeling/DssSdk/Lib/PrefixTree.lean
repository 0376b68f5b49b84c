import Mathlib.Data.Finset.Basic
import Mathlib.Data.Set.Basic
import Mathlib.Tactic

/-!
# Directory listings of a tree of keys

The nodes of a tree are given by `up`: `up x` lists the steps from the node `x` to the root, each
as the parent node and the label of the edge, the deepest step first. A listing keeps, for a node,
the finite set of labels below it.

* `store`, `remove`: the listing updates that walk up and stop at the first ancestor which already
  has entries, or which still has some;
* `Lists up K L`: the listing `L` is the one of the key set `K`, with no empty set in it;
* `Lists.store`, `Lists.remove`: the two updates follow the key set. A removal needs that a key
  which is itself a node above the removed one has another key below it.
-/

namespace PrefixTree

variable {ν ε : Type}

/-- What the steps of a tree satisfy: a step determines the steps above it, and the steps of a
node determine the node. -/
structure Tree (up : ν → List (ν × ε)) : Prop where
  above : ∀ x p e c, up x = (p, e) :: c → c = up p
  inj : ∀ x y, up x = up y → x = y

/-- The entries listed under a node. -/
def entries (L : ν → Option (Finset ε)) (p : ν) : Finset ε := (L p).getD ∅

section Updates

variable [DecidableEq ν] [DecidableEq ε]

/-- A listing with one more entry. -/
def put (L : ν → Option (Finset ε)) (p : ν) (e : ε) : ν → Option (Finset ε) :=
  Function.update L p (some (insert e (entries L p)))

/-- Insert the entries of a path, up to the first node that is already listed. -/
def store (L : ν → Option (Finset ε)) : List (ν × ε) → ν → Option (Finset ε)
  | [] => L
  | (p, e) :: c => if (L p).isSome then put L p e else store (put L p e) c

/-- Erase the entries of a path, up to the first node that keeps some. -/
def remove (L : ν → Option (Finset ε)) : List (ν × ε) → ν → Option (Finset ε)
  | [] => L
  | (p, e) :: c =>
    match L p with
    | none => remove L c
    | some s =>
      if s.erase e = ∅ then remove (Function.update L p none) c
      else Function.update L p (some (s.erase e))

end Updates

/-- The listing of a set of keys: an entry for every step of every key, and no empty set. -/
structure Lists (up : ν → List (ν × ε)) (K : Set ν) (L : ν → Option (Finset ε)) : Prop where
  ne_empty : ∀ p, L p ≠ some ∅
  mem_iff : ∀ p e, e ∈ entries L p ↔ ∃ k ∈ K, (p, e) ∈ up k

section Entries

variable {L : ν → Option (Finset ε)}

theorem entries_none {p : ν} (h : L p = none) : entries L p = ∅ := by
  rw [entries, h]
  rfl

theorem entries_some {p : ν} {s : Finset ε} (h : L p = some s) : entries L p = s := by
  rw [entries, h]
  rfl

theorem entries_update [DecidableEq ν] (p q : ν) (o : Option (Finset ε)) :
    entries (Function.update L p o) q = if q = p then o.getD ∅ else entries L q := by
  unfold entries
  by_cases h : q = p
  · subst h
    simp
  · simp [h]

theorem mem_entries_put [DecidableEq ν] [DecidableEq ε] (p q : ν) (e e' : ε) :
    e' ∈ entries (put L p e) q ↔ e' ∈ entries L q ∨ q = p ∧ e' = e := by
  rw [put, entries_update]
  by_cases h : q = p
  · subst h
    simp [or_comm]
  · simp [h]

theorem put_of_ne [DecidableEq ν] [DecidableEq ε] {p q : ν} (e : ε) (h : q ≠ p) : put L p e q = L q :=
  Function.update_of_ne h _ _

theorem put_ne_empty [DecidableEq ν] [DecidableEq ε] (h : ∀ p, L p ≠ some ∅) (p : ν) (e : ε)
    (q : ν) : put L p e q ≠ some ∅ := by
  by_cases hq : q = p
  · subst hq
    simp [put]
  · rw [put_of_ne e hq]
    exact h q

theorem exists_mem_entries (h : ∀ p, L p ≠ some ∅) {p : ν} (hp : (L p).isSome) :
    ∃ e, e ∈ entries L p := by
  obtain ⟨s, hs⟩ := Option.isSome_iff_exists.1 hp
  have hne : s.Nonempty := by
    rw [Finset.nonempty_iff_ne_empty]
    intro he
    exact h p (by rw [hs, he])
  obtain ⟨e, he⟩ := hne
  exact ⟨e, by rwa [entries_some hs]⟩

end Entries

section Tree

variable {up : ν → List (ν × ε)}

theorem Tree.above_of_suffix (hT : Tree up) {x p : ν} {e : ε} {c : List (ν × ε)}
    (h : (p, e) :: c <:+ up x) : c = up p := by
  generalize hx : up x = l at h
  induction l generalizing x with
  | nil => simp at h
  | cons y l ih =>
    obtain ⟨q, e'⟩ := y
    rcases List.suffix_cons_iff.1 h with heq | hsuf
    · cases heq
      exact hT.above x p e c hx
    · exact ih (hT.above x q e' l hx).symm hsuf

theorem Tree.suffix_of_mem (hT : Tree up) {x p : ν} {e : ε} (h : (p, e) ∈ up x) :
    (p, e) :: up p <:+ up x := by
  obtain ⟨l, c, hl⟩ := List.append_of_mem h
  have hsuf : (p, e) :: c <:+ up x := ⟨l, hl.symm⟩
  rwa [← hT.above_of_suffix hsuf]

theorem Tree.mem_of_mem (hT : Tree up) {x p : ν} {e : ε} (h : (p, e) ∈ up x) :
    ∀ y ∈ up p, y ∈ up x := by
  intro y hy
  exact (hT.suffix_of_mem h).subset (List.mem_cons_of_mem _ hy)

theorem Tree.not_mem_self (hT : Tree up) (p : ν) (e : ε) : (p, e) ∉ up p := by
  intro h
  have hlen := (hT.suffix_of_mem h).length_le
  rw [List.length_cons] at hlen
  omega

/-- The nodes above `k` are `k` and those of its steps. -/
theorem Tree.suffix_iff (hT : Tree up) (p k : ν) :
    up p <:+ up k ↔ k = p ∨ ∃ e, (p, e) ∈ up k := by
  constructor
  · intro ⟨l, hl⟩
    rcases List.eq_nil_or_concat l with hnil | ⟨l', ⟨q, e⟩, hcons⟩
    · rw [hnil, List.nil_append] at hl
      exact Or.inl (hT.inj k p hl.symm)
    · -- the step just below `up p` has `p` as its node
      rw [hcons] at hl
      have hsuf : (q, e) :: up p <:+ up k := ⟨l', by simpa using hl⟩
      have hq : p = q := hT.inj p q (hT.above_of_suffix hsuf)
      rw [hq] at hsuf ⊢
      exact Or.inr ⟨e, hsuf.subset List.mem_cons_self⟩
  · intro h
    rcases h with rfl | ⟨e, he⟩
    · exact List.suffix_rfl
    · exact (List.suffix_cons _ _).trans (hT.suffix_of_mem he)

theorem Lists.closed (hT : Tree up) {K : Set ν}
    {L : ν → Option (Finset ε)} (h : Lists up K L) {p : ν} (hp : (L p).isSome) :
    ∃ k ∈ K, (∃ e, (p, e) ∈ up k) ∧ ∀ y ∈ up p, y ∈ up k := by
  obtain ⟨e, he⟩ := exists_mem_entries h.ne_empty hp
  obtain ⟨k, hk, hmem⟩ := (h.mem_iff p e).1 he
  exact ⟨k, hk, ⟨e, hmem⟩, hT.mem_of_mem hmem⟩

theorem Lists.insert_node (hT : Tree up) {K : Set ν}
    {L : ν → Option (Finset ε)} (h : Lists up K L) {k : ν} (hk : (L k).isSome) :
    Lists up (insert k K) L where
  ne_empty := h.ne_empty
  mem_iff p e := by
    rw [h.mem_iff]
    constructor
    · intro ⟨k', hk', hmem⟩
      exact ⟨k', Set.mem_insert_of_mem _ hk', hmem⟩
    · intro ⟨k', hk', hmem⟩
      rcases Set.mem_insert_iff.1 hk' with rfl | hk'
      · obtain ⟨k₂, hk₂, -, hsub⟩ := h.closed hT hk
        exact ⟨k₂, hk₂, hsub _ hmem⟩
      · exact ⟨k', hk', hmem⟩

theorem Lists.erase_node (hT : Tree up) {K : Set ν}
    {L : ν → Option (Finset ε)} (h : Lists up K L) {k : ν} (hk : (L k).isSome) :
    Lists up (K \ {k}) L where
  ne_empty := h.ne_empty
  mem_iff p e := by
    rw [h.mem_iff]
    constructor
    · intro ⟨k', hk', hmem⟩
      by_cases heq : k' = k
      · -- another key is below `k`, and has the steps of `k`
        subst heq
        obtain ⟨k₂, hk₂, ⟨e₂, he₂⟩, hsub⟩ := h.closed hT hk
        refine ⟨k₂, ⟨hk₂, ?_⟩, hsub _ hmem⟩
        intro heq
        rw [Set.mem_singleton_iff] at heq
        rw [heq] at he₂
        exact hT.not_mem_self k' e₂ he₂
      · exact ⟨k', ⟨hk', heq⟩, hmem⟩
    · intro ⟨k', hk', hmem⟩
      exact ⟨k', hk'.1, hmem⟩

end Tree

section Store

variable [DecidableEq ν] [DecidableEq ε]
variable {up : ν → List (ν × ε)} {L : ν → Option (Finset ε)} {K : Set ν}

theorem store_ne_empty (c : List (ν × ε)) (h : ∀ p, L p ≠ some ∅) (q : ν) :
    store L c q ≠ some ∅ := by
  induction c generalizing L with
  | nil => exact h q
  | cons y c ih =>
    obtain ⟨p, e⟩ := y
    rw [store]
    split
    · exact put_ne_empty h p e q
    · exact ih (put_ne_empty h p e)

/-- A store adds the steps of the path, when a listed node of the path has its own steps listed:
the walk may stop there. -/
theorem mem_entries_store (hT : Tree up) (x : ν)
    (hcl : ∀ y ∈ up x, (L y.1).isSome → ∀ z ∈ up y.1, z.2 ∈ entries L z.1) (p : ν) (e : ε) :
    e ∈ entries (store L (up x)) p ↔ e ∈ entries L p ∨ (p, e) ∈ up x := by
  generalize hx : up x = c at hcl
  induction c generalizing x L with
  | nil => simp [store]
  | cons y c ih =>
    obtain ⟨q, e'⟩ := y
    have hc : c = up q := hT.above x q e' c hx
    rw [store]
    by_cases hq : (L q).isSome
    · rw [if_pos hq, mem_entries_put, List.mem_cons, Prod.mk.injEq]
      have habove := hcl (q, e') List.mem_cons_self hq
      constructor
      · intro h
        rcases h with h | h
        · exact Or.inl h
        · exact Or.inr (Or.inl h)
      · intro h
        rcases h with h | h | h
        · exact Or.inl h
        · exact Or.inr h
        · exact Or.inl (habove (p, e) (hc ▸ h))
    · rw [if_neg hq]
      have hstep := ih q hc.symm (L := put L q e') ?_
      · rw [hstep, mem_entries_put, List.mem_cons, Prod.mk.injEq, or_assoc]
      · intro y hy hy' z hz
        have hne : y.1 ≠ q := by
          intro heq
          apply hT.not_mem_self q y.2
          rw [← hc, ← heq]
          exact hy
        rw [put_of_ne e' hne] at hy'
        have hmem := hcl y (List.mem_cons_of_mem _ hy) hy' z hz
        exact (mem_entries_put q z.1 e' z.2).2 (Or.inl hmem)

theorem Lists.store (hT : Tree up) (h : Lists up K L) (k : ν) :
    Lists up (insert k K) (store L (up k)) where
  ne_empty := store_ne_empty (up k) h.ne_empty
  mem_iff p e := by
    rw [mem_entries_store hT k ?_, h.mem_iff]
    · constructor
      · intro hor
        rcases hor with ⟨k', hk', hmem⟩ | hmem
        · exact ⟨k', Set.mem_insert_of_mem _ hk', hmem⟩
        · exact ⟨k, Set.mem_insert _ _, hmem⟩
      · intro ⟨k', hk', hmem⟩
        rcases Set.mem_insert_iff.1 hk' with rfl | hk'
        · exact Or.inr hmem
        · exact Or.inl ⟨k', hk', hmem⟩
    · intro y _ hsome z hz
      obtain ⟨k', hk', -, hsub⟩ := h.closed hT hsome
      exact (h.mem_iff z.1 z.2).2 ⟨k', hk', hsub z hz⟩

end Store

section Remove

variable {up : ν → List (ν × ε)} {L : ν → Option (Finset ε)} {K : Set ν}

/-- A listing of the keys `K` in which some steps of `x` may be left over: the state of a removal
that has reached `x`. -/
structure Removing (up : ν → List (ν × ε)) (K : Set ν) (x : ν) (L : ν → Option (Finset ε)) :
    Prop where
  ne_empty : ∀ p, L p ≠ some ∅
  listed : ∀ k ∈ K, ∀ y ∈ up k, y.2 ∈ entries L y.1
  only : ∀ p e, e ∈ entries L p → (∃ k ∈ K, (p, e) ∈ up k) ∨ (p, e) ∈ up x
  gone : ∀ k ∈ K, ¬ up x <:+ up k
  marked : ∀ m ∈ K, (∃ e, (m, e) ∈ up x) → ∃ k ∈ K, ∃ e, (m, e) ∈ up k

variable {x p : ν} {e : ε} {c : List (ν × ε)}

/-- What is listed besides the keys is the first step of `x` or a step above. -/
theorem Removing.only_cons (h : Removing up K x L) (hx : up x = (p, e) :: c) {q : ν} {e' : ε}
    (he : e' ∈ entries L q) (hne : ¬ (q = p ∧ e' = e)) :
    (∃ k ∈ K, (q, e') ∈ up k) ∨ (q, e') ∈ c := by
  rcases h.only q e' he with hex | hmem
  · exact Or.inl hex
  · rw [hx, List.mem_cons, Prod.mk.injEq] at hmem
    rcases hmem with heq | hmem
    · exact absurd heq hne
    · exact Or.inr hmem

theorem Removing.marked_up (hT : Tree up) (h : Removing up K x L) (hx : up x = (p, e) :: c) :
    ∀ m ∈ K, (∃ e, (m, e) ∈ up p) → ∃ k ∈ K, ∃ e, (m, e) ∈ up k := by
  intro m hm ⟨e', he'⟩
  rw [← hT.above x p e c hx] at he'
  exact h.marked m hm ⟨e', by rw [hx]; exact List.mem_cons_of_mem _ he'⟩

variable [DecidableEq ε]

theorem Removing.gone_node (hT : Tree up) (h : Removing up K x L) (hx : up x = (p, e) :: c)
    (hlast : (entries L p).erase e = ∅) : ∀ k ∈ K, ¬ up p <:+ up k := by
  have hc : c = up p := hT.above x p e c hx
  -- an entry below `p` would have been the step of `x`
  have hnone : ∀ k ∈ K, ∀ e', (p, e') ∉ up k := by
    intro k hk e' hmem
    have hin : e' ∈ entries L p := h.listed k hk (p, e') hmem
    have he : e' = e := by
      by_contra hne
      have : e' ∈ (entries L p).erase e := Finset.mem_erase.2 ⟨hne, hin⟩
      rw [hlast] at this
      cases this
    apply h.gone k hk
    rw [hx, hc, ← he]
    exact hT.suffix_of_mem hmem
  intro k hk hsuf
  rcases (hT.suffix_iff p k).1 hsuf with heq | ⟨e', hmem⟩
  · rw [heq] at hk
    obtain ⟨k', hk', e', hmem⟩ := h.marked p hk ⟨e, by rw [hx]; exact List.mem_cons_self⟩
    exact hnone k' hk' e' hmem
  · exact hnone k hk e' hmem

/-- The walk passes a node that is not listed. -/
theorem Removing.pass (hT : Tree up) (h : Removing up K x L) (hx : up x = (p, e) :: c)
    (hp : L p = none) : Removing up K p L := by
  have hent : entries L p = ∅ := entries_none hp
  have hlast : (entries L p).erase e = ∅ := by
    rw [hent]
    rfl
  refine ⟨h.ne_empty, h.listed, ?_, h.gone_node hT hx hlast, h.marked_up hT hx⟩
  intro q e' he'
  rw [← hT.above x p e c hx]
  apply h.only_cons hx he'
  intro ⟨hq, _⟩
  rw [hq, hent] at he'
  cases he'

variable [DecidableEq ν]

theorem Removing.unlist (hT : Tree up) (h : Removing up K x L) (hx : up x = (p, e) :: c)
    (hlast : (entries L p).erase e = ∅) : Removing up K p (Function.update L p none) := by
  have hgone := h.gone_node hT hx hlast
  refine ⟨?_, ?_, ?_, hgone, h.marked_up hT hx⟩
  · intro q
    by_cases hq : q = p
    · rw [hq, Function.update_self]
      intro heq
      cases heq
    · rw [Function.update_of_ne hq]
      exact h.ne_empty q
  · intro k hk y hy
    have hne : y.1 ≠ p := by
      intro heq
      apply hgone k hk
      rw [← heq]
      exact (List.suffix_cons _ _).trans (hT.suffix_of_mem (e := y.2) hy)
    rw [entries_update, if_neg hne]
    exact h.listed k hk y hy
  · intro q e' he'
    rw [entries_update] at he'
    split at he'
    · cases he'
    · next hq =>
      rw [← hT.above x p e c hx]
      exact h.only_cons hx he' fun hqe => hq hqe.1

/-- The walk stops at a node that keeps an entry. -/
theorem Removing.stop (hT : Tree up) (h : Removing up K x L) (hx : up x = (p, e) :: c)
    (hkeep : (entries L p).erase e ≠ ∅) :
    Lists up K (Function.update L p (some ((entries L p).erase e))) := by
  have hc : c = up p := hT.above x p e c hx
  -- the key of another entry of `p` has every step above `p`
  obtain ⟨e₁, he₁⟩ := Finset.nonempty_iff_ne_empty.2 hkeep
  obtain ⟨hne₁, hs₁⟩ := Finset.mem_erase.1 he₁
  obtain ⟨k₁, hk₁, hmem₁⟩ : ∃ k ∈ K, (p, e₁) ∈ up k := by
    rcases h.only_cons hx hs₁ fun hpe => hne₁ hpe.2 with hex | hmem
    · exact hex
    · exact absurd (hc ▸ hmem) (hT.not_mem_self p e₁)
  refine ⟨fun q => ?_, fun q e' => ?_⟩
  · by_cases hq : q = p
    · rw [hq, Function.update_self]
      intro heq
      exact hkeep (Option.some.inj heq)
    · rw [Function.update_of_ne hq]
      exact h.ne_empty q
  · have hmem_iff : e' ∈ entries (Function.update L p (some ((entries L p).erase e))) q ↔
        e' ∈ entries L q ∧ ¬ (q = p ∧ e' = e) := by
      rw [entries_update]
      by_cases hq : q = p
      · subst hq
        simp [and_comm]
      · simp [hq]
    rw [hmem_iff]
    constructor
    · intro ⟨hold, hne⟩
      rcases h.only_cons hx hold hne with hex | hmem
      · exact hex
      · exact ⟨k₁, hk₁, hT.mem_of_mem hmem₁ _ (hc ▸ hmem)⟩
    · intro ⟨k, hk, hmem⟩
      refine ⟨h.listed k hk (q, e') hmem, ?_⟩
      intro ⟨hq, he⟩
      apply h.gone k hk
      rw [hx, hc, ← hq, ← he]
      exact hT.suffix_of_mem hmem

theorem Removing.lists (hT : Tree up) (h : Removing up K x L) :
    Lists up K (remove L (up x)) := by
  generalize hx : up x = c
  induction c generalizing x L with
  | nil =>
    refine ⟨h.ne_empty, fun p e => ⟨fun he => ?_, fun ⟨k, hk, hmem⟩ => h.listed k hk (p, e) hmem⟩⟩
    rcases h.only p e he with hex | hmem
    · exact hex
    · rw [hx] at hmem
      cases hmem
  | cons y c ih =>
    obtain ⟨p, e⟩ := y
    have hc : up p = c := (hT.above x p e c hx).symm
    rw [remove]
    cases hp : L p with
    | none => exact ih (h.pass hT hx hp) hc
    | some s =>
      have hent : entries L p = s := entries_some hp
      by_cases hs : s.erase e = ∅
      · simp only [hs, if_true]
        exact ih (h.unlist hT hx (by rw [hent]; exact hs)) hc
      · simp only [hs, if_false]
        rw [← hent] at hs ⊢
        exact h.stop hT hx hs

/-- A removal of a key with nothing listed below it follows the key set, when the keys above the
removed one have another key below them. -/
theorem Lists.remove (hT : Tree up) (h : Lists up K L) {k : ν} (hk : L k = none)
    (hm : ∀ m ∈ K \ {k}, (∃ e, (m, e) ∈ up k) → ∃ k' ∈ K \ {k}, ∃ e, (m, e) ∈ up k') :
    Lists up (K \ {k}) (remove L (up k)) := by
  apply Removing.lists hT
  refine ⟨h.ne_empty, ?_, ?_, ?_, hm⟩
  · intro k' hk' y hy
    exact (h.mem_iff y.1 y.2).2 ⟨k', hk'.1, hy⟩
  · intro p e he
    obtain ⟨k', hk', hmem⟩ := (h.mem_iff p e).1 he
    by_cases heq : k' = k
    · exact Or.inr (heq ▸ hmem)
    · exact Or.inl ⟨k', ⟨hk', heq⟩, hmem⟩
  · intro k' hk' hsuf
    rcases (hT.suffix_iff k k').1 hsuf with heq | ⟨e, hmem⟩
    · exact hk'.2 heq
    · have he := (h.mem_iff k e).2 ⟨k', hk'.1, hmem⟩
      rw [entries_none hk] at he
      cases he

end Remove

end PrefixTree
