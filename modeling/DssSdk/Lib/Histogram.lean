import DssSdk.Lib.JudyArray

/-!
# Counting with a Judy array

An array of counters holds how often each word was seen.

* `add`: the counter of a word grows;
* `Counts m l`: the counters of `m` are those of the list `l`;
* `Counts.add`, `Counts.merge`: more words, one by one or from another array;
* `Counts.mem_iff`, `Counts.sum_filter`: what the counters are, and sums over some of them.
-/

namespace JudyArray

variable {m m' : JudyArray ℕ} {l l' : List ℕ} {k c : ℕ}

/-- The counter of `k`, made if it is not there, grows by `c`. -/
def add (m : JudyArray ℕ) (k c : ℕ) : JudyArray ℕ := m.insert k ((m.get? k).getD 0 + c)

/-- The sum over the counted words. -/
def sumOver (m : JudyArray ℕ) (w : ℕ → ℕ) : ℕ := (m.entries.map fun e => e.2 * w e.1).sum

theorem sumOver_add (m : JudyArray ℕ) (k c : ℕ) (w : ℕ → ℕ) :
    (m.add k c).sumOver w = m.sumOver w + c * w k := by
  obtain ⟨l, hl⟩ := m
  unfold add sumOver get? insert
  induction l with
  | nil => simp [insertEntries]
  | cons a l ih =>
    obtain ⟨ha, hl'⟩ := List.pairwise_cons.1 hl
    have hrest := ih hl'
    simp only at hrest ⊢
    unfold insertEntries
    split_ifs with h1 h2
    · have hnone : (a :: l).find? (fun e => e.1 = k) = none := by
        rw [List.find?_eq_none]
        intro e he
        rcases List.mem_cons.1 he with rfl | he
        · simpa using h1.ne'
        · simpa using (h1.trans (ha e he)).ne'
      rw [hnone]
      simp only [Option.map_none, Option.getD_none, List.map_cons, List.sum_cons, Nat.zero_add]
      omega
    · rw [List.find?_cons_of_pos (by simp [h2])]
      simp only [Option.map_some, Option.getD_some, List.map_cons, List.sum_cons, h2, Nat.add_mul]
      omega
    · rw [List.find?_cons_of_neg (by simpa using Ne.symm h2)]
      simp only [List.map_cons, List.sum_cons, hrest]
      omega

/-- The counters of an array are those of a list. -/
structure Counts (m : JudyArray ℕ) (l : List ℕ) : Prop where
  pos : ∀ e ∈ m, 0 < e.2
  sum : ∀ w : ℕ → ℕ, m.sumOver w = (l.map w).sum

theorem counts_empty : Counts empty [] where
  pos := fun e he => absurd he (not_mem_empty e)
  sum := fun _ => rfl

theorem pos_add (h : ∀ e ∈ m, 0 < e.2) (hc : 0 < c) : ∀ e ∈ m.add k c, 0 < e.2 := by
  intro e he
  rcases mem_insert.1 he with rfl | ⟨he, -⟩
  · exact Nat.add_pos_right _ hc
  · exact h e he

/-- One more word. -/
theorem Counts.add (h : Counts m l) (k : ℕ) : Counts (m.add k 1) (l ++ [k]) where
  pos := pos_add h.pos Nat.one_pos
  sum := by
    intro w
    rw [sumOver_add, h.sum]
    simp

/-- The counters of one array are added to those of another one. -/
theorem Counts.merge (h : Counts m l) (h' : Counts m' l') :
    Counts (m'.entries.foldl (fun acc e => acc.add e.1 e.2) m) (l ++ l') := by
  have hfold : ∀ (es : List (ℕ × ℕ)) (acc : JudyArray ℕ), (∀ e ∈ es, 0 < e.2) →
      (∀ e ∈ acc, 0 < e.2) →
        (∀ e ∈ es.foldl (fun acc e => acc.add e.1 e.2) acc, 0 < e.2) ∧
        ∀ w, (es.foldl (fun acc e => acc.add e.1 e.2) acc).sumOver w =
          acc.sumOver w + (es.map fun e => e.2 * w e.1).sum := by
    intro es
    induction es with
    | nil => exact fun acc _ hacc => ⟨hacc, fun _ => rfl⟩
    | cons e es ih =>
      intro acc hes hacc
      obtain ⟨hpos, hsum⟩ := ih (acc.add e.1 e.2) (fun d hd => hes d (List.mem_cons_of_mem _ hd))
        (pos_add hacc (hes e List.mem_cons_self))
      refine ⟨hpos, fun w => ?_⟩
      rw [List.foldl_cons, hsum, sumOver_add, List.map_cons, List.sum_cons, Nat.add_assoc]
  obtain ⟨hpos, hsum⟩ := hfold m'.entries m h'.pos h.pos
  refine ⟨hpos, fun w => ?_⟩
  have hl' : (m'.entries.map fun e => e.2 * w e.1).sum = (l'.map w).sum := h'.sum w
  rw [hsum, h.sum, hl', List.map_append, List.sum_append]

theorem sumOver_single (h : (k, c) ∈ m) : m.sumOver (fun x => if x = k then 1 else 0) = c := by
  obtain ⟨l, hl⟩ := m
  change (k, c) ∈ l at h
  change (l.map fun e => e.2 * if e.1 = k then 1 else 0).sum = c
  induction l with
  | nil => cases h
  | cons a l ih =>
    obtain ⟨ha, hl'⟩ := List.pairwise_cons.1 hl
    rw [List.map_cons, List.sum_cons]
    rcases List.mem_cons.1 h with rfl | h
    · have hzero : (l.map fun e => e.2 * if e.1 = k then 1 else 0).sum = 0 := by
        rw [List.sum_eq_zero]
        intro x hx
        obtain ⟨e, he, rfl⟩ := List.mem_map.1 hx
        rw [if_neg (ha e he).ne', Nat.mul_zero]
      rw [hzero]
      simp
    · rw [if_neg (ha _ h).ne, ih hl' h]
      simp

theorem sum_map_single (l : List ℕ) (k : ℕ) :
    (l.map fun x => if x = k then 1 else 0).sum = l.count k := by
  induction l with
  | nil => rfl
  | cons a l ih =>
    rw [List.map_cons, List.sum_cons, ih, List.count_cons]
    simp [Nat.add_comm]

/-- The array has exactly the words of the list, with the number of times that they are there. -/
theorem Counts.mem_iff (h : Counts m l) : (k, c) ∈ m ↔ k ∈ l ∧ c = l.count k := by
  have hcount : ∀ {d}, (k, d) ∈ m → d = l.count k := fun {d} hd => by
    rw [← sumOver_single hd, h.sum, sum_map_single]
  constructor
  · intro hm
    have hpos := h.pos _ hm
    rw [hcount hm] at hpos
    exact ⟨List.count_pos_iff.1 hpos, hcount hm⟩
  · rintro ⟨hk, rfl⟩
    have hex : ∃ d, (k, d) ∈ m := by
      by_contra hno
      have hzero : m.sumOver (fun x => if x = k then 1 else 0) = 0 := by
        rw [sumOver, List.sum_eq_zero]
        intro x hx
        obtain ⟨e, he, rfl⟩ := List.mem_map.1 hx
        have hne : e.1 ≠ k := by
          rintro rfl
          exact hno ⟨e.2, he⟩
        rw [if_neg hne, Nat.mul_zero]
      rw [h.sum, sum_map_single] at hzero
      have := List.count_pos_iff.2 hk
      omega
    obtain ⟨d, hd⟩ := hex
    rwa [← hcount hd]

theorem Counts.unique (h : Counts m l) (h' : Counts m' l') (hl : l.Perm l') : m = m' := by
  apply ext_mem
  rintro ⟨k, c⟩
  rw [h.mem_iff, h'.mem_iff, hl.mem_iff, hl.count_eq]

/-- A sum over some of the words. -/
theorem Counts.sum_filter (h : Counts m l) (p : ℕ → Bool) (w : ℕ → ℕ) :
    ((m.entries.filter fun e => p e.1).map fun e => e.2 * w e.1).sum =
      ((l.filter p).map w).sum := by
  have hside : ∀ (es : List (ℕ × ℕ)), ((es.filter fun e => p e.1).map fun e => e.2 * w e.1).sum =
      (es.map fun e => e.2 * if p e.1 = true then w e.1 else 0).sum := by
    intro es
    induction es with
    | nil => rfl
    | cons e es ih => by_cases hp : p e.1 = true <;> simp [hp, ih]
  have hlist : ∀ l : List ℕ, ((l.filter p).map w).sum =
      (l.map fun x => if p x = true then w x else 0).sum := by
    intro l
    induction l with
    | nil => rfl
    | cons a l ih => by_cases hp : p a = true <;> simp [hp, ih]
  rw [hside, hlist]
  exact h.sum fun x => if p x = true then w x else 0

end JudyArray
