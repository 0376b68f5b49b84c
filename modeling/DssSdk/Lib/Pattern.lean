import Mathlib.Tactic

/-!
# Patterns for lines

The part of regular expressions that cuts a line into pieces: fixed texts, and one or more characters
of a class, as many as possible (`p+`) or as few as possible (`p+?`). A pattern is anchored at both
ends; the end is that of the text or the place before a line feed that ends the text.

* `cuts`: all ways to cut a text, in the order in which a backtracking matcher tries them;
* `firstMatch`: the match that it finds;
* `mem_cuts`: what a match is, whatever the order;
* `firstMatch_plus`, `firstMatch_plusLazy`: which one is found.
-/

namespace Pattern

/-- A part of a pattern. -/
inductive Item
  | lit (w : List Char)
  | plus (p : Char → Bool)
  | plusLazy (p : Char → Bool)

/-- A piece of the text for a part of the pattern. -/
def Fits (piece : List Char) : Item → Prop
  | .lit w => piece = w
  | .plus p => piece ≠ [] ∧ ∀ c ∈ piece, p c = true
  | .plusLazy p => piece ≠ [] ∧ ∀ c ∈ piece, p c = true

/-- The lengths `1, …, k` of a run of characters of a class. -/
def lengths (p : Char → Bool) (s : List Char) : List ℕ :=
  (List.range (s.takeWhile p).length).map (· + 1)

/-- The ways to cut a text into pieces, in the order of preference. -/
def cuts : List Item → List Char → List (List (List Char))
  | [], s => if s = [] ∨ s = ['\n'] then [[]] else []
  | .lit w :: items, s =>
      if w.isPrefixOf s = true then (cuts items (s.drop w.length)).map (w :: ·) else []
  | .plus p :: items, s =>
      (lengths p s).reverse.flatMap fun n => (cuts items (s.drop n)).map (s.take n :: ·)
  | .plusLazy p :: items, s =>
      (lengths p s).flatMap fun n => (cuts items (s.drop n)).map (s.take n :: ·)

/-- The match that a backtracking matcher finds. -/
def firstMatch (items : List Item) (s : List Char) : Option (List (List Char)) := (cuts items s).head?

variable {items : List Item} {s : List Char} {ps : List (List Char)}

theorem mem_lengths {p : Char → Bool} {n : ℕ} :
    n ∈ lengths p s ↔ 0 < n ∧ n ≤ (s.takeWhile p).length := by
  simp only [lengths, List.mem_map, List.mem_range]
  constructor
  · rintro ⟨m, hm, rfl⟩
    omega
  · rintro ⟨hpos, hle⟩
    exact ⟨n - 1, by omega, by omega⟩

theorem run_iff {p : Char → Bool} {n : ℕ} :
    n ≤ (s.takeWhile p).length ↔ n ≤ s.length ∧ ∀ c ∈ s.take n, p c = true := by
  induction s generalizing n with
  | nil => simp
  | cons a s ih =>
    cases n with
    | zero => simp
    | succ n =>
      rw [List.take_succ_cons, List.takeWhile_cons]
      by_cases ha : p a = true
      · rw [if_pos ha, List.length_cons, List.length_cons, Nat.add_le_add_iff_right,
          Nat.add_le_add_iff_right, ih]
        simp [ha]
      · rw [if_neg ha]
        simp [ha]

theorem mem_flatMap_run {p : Char → Bool} {f : List Char → List (List (List Char))} {ls : List ℕ}
    (hls : ∀ n, n ∈ ls ↔ 0 < n ∧ n ≤ (s.takeWhile p).length) :
    ps ∈ ls.flatMap (fun n => (f (s.drop n)).map (s.take n :: ·)) ↔
      ∃ piece qs rest, ps = piece :: qs ∧ s = piece ++ rest ∧ piece ≠ [] ∧
        (∀ c ∈ piece, p c = true) ∧ qs ∈ f rest := by
  simp only [List.mem_flatMap, hls, List.mem_map, run_iff]
  constructor
  · rintro ⟨n, ⟨hpos, hlen, hall⟩, qs, hqs, rfl⟩
    refine ⟨s.take n, qs, s.drop n, rfl, (List.take_append_drop n s).symm, ?_, hall, hqs⟩
    rw [ne_eq, ← List.length_eq_zero_iff, List.length_take]
    omega
  · rintro ⟨piece, qs, rest, rfl, rfl, hne, hall, hqs⟩
    refine ⟨piece.length, ⟨List.length_pos_iff.2 hne, by simp, ?_⟩, qs, ?_, ?_⟩
    · rw [List.take_left]
      exact hall
    · rw [List.drop_left]
      exact hqs
    · rw [List.take_left]

/-- A match cuts the text, up to a line feed at the end, into pieces that fit. -/
theorem mem_cuts : ps ∈ cuts items s ↔
    List.Forall₂ Fits ps items ∧ (s = ps.flatten ∨ s = ps.flatten ++ ['\n']) := by
  induction items generalizing s ps with
  | nil =>
    rw [cuts, List.forall₂_nil_right_iff]
    constructor
    · intro h
      split at h
      · rename_i hs
        rw [List.mem_singleton.1 h]
        exact ⟨rfl, hs⟩
      · cases h
    · rintro ⟨rfl, hs⟩
      rw [if_pos (by simpa using hs)]
      exact List.mem_singleton_self _
  | cons item items ih =>
    have hrun : ∀ p : Char → Bool,
        (∃ piece qs rest, ps = piece :: qs ∧ s = piece ++ rest ∧ piece ≠ [] ∧
          (∀ c ∈ piece, p c = true) ∧ qs ∈ cuts items rest) ↔
        ∃ piece qs, (piece ≠ [] ∧ ∀ c ∈ piece, p c = true) ∧ List.Forall₂ Fits qs items ∧
          ps = piece :: qs ∧ (s = ps.flatten ∨ s = ps.flatten ++ ['\n']) := by
      intro p
      constructor
      · rintro ⟨piece, qs, rest, rfl, rfl, hne, hall, hqs⟩
        obtain ⟨hfits, hrest⟩ := ih.1 hqs
        refine ⟨piece, qs, ⟨hne, hall⟩, hfits, rfl, ?_⟩
        rw [List.flatten_cons, List.append_assoc]
        exact hrest.imp (congrArg (piece ++ ·)) (congrArg (piece ++ ·))
      · rintro ⟨piece, qs, ⟨hne, hall⟩, hfits, rfl, hs | hs⟩
        · exact ⟨piece, qs, qs.flatten, rfl, hs, hne, hall, ih.2 ⟨hfits, Or.inl rfl⟩⟩
        · rw [List.flatten_cons, List.append_assoc] at hs
          exact ⟨piece, qs, qs.flatten ++ ['\n'], rfl, hs, hne, hall, ih.2 ⟨hfits, Or.inr rfl⟩⟩
    have hforall : ∀ {Q : List Char → Prop}, (∀ piece, Fits piece item ↔ Q piece) →
        ((∃ piece qs, Q piece ∧ List.Forall₂ Fits qs items ∧ ps = piece :: qs ∧
          (s = ps.flatten ∨ s = ps.flatten ++ ['\n'])) ↔
        List.Forall₂ Fits ps (item :: items) ∧ (s = ps.flatten ∨ s = ps.flatten ++ ['\n'])) := by
      intro Q hQ
      constructor
      · rintro ⟨piece, qs, hpiece, hqs, rfl, hs⟩
        exact ⟨.cons ((hQ piece).2 hpiece) hqs, hs⟩
      · rintro ⟨hps, hs⟩
        obtain ⟨piece, qs, hpiece, hqs, rfl⟩ := List.forall₂_cons_right_iff.1 hps
        exact ⟨piece, qs, (hQ piece).1 hpiece, hqs, rfl, hs⟩
    cases item with
    | lit w =>
      rw [cuts, ← hforall (Q := (· = w)) fun _ => Iff.rfl]
      constructor
      · intro h
        split at h
        · rename_i hw
          obtain ⟨rest, rfl⟩ : w <+: s := by simpa using hw
          rw [List.drop_left] at h
          obtain ⟨qs, hqs, rfl⟩ := List.mem_map.1 h
          obtain ⟨hfits, hrest⟩ := ih.1 hqs
          refine ⟨w, qs, rfl, hfits, rfl, ?_⟩
          rw [List.flatten_cons, List.append_assoc]
          exact hrest.imp (congrArg (w ++ ·)) (congrArg (w ++ ·))
        · cases h
      · rintro ⟨piece, qs, rfl, hfits, rfl, hs⟩
        obtain ⟨rest, rfl, hrest⟩ : ∃ rest, s = piece ++ rest ∧ qs ∈ cuts items rest := by
          rcases hs with rfl | rfl
          · exact ⟨qs.flatten, rfl, ih.2 ⟨hfits, Or.inl rfl⟩⟩
          · refine ⟨qs.flatten ++ ['\n'], ?_, ih.2 ⟨hfits, Or.inr rfl⟩⟩
            rw [List.flatten_cons, List.append_assoc]
        rw [if_pos (by simp), List.drop_left]
        exact List.mem_map_of_mem hrest
    | plus p =>
      rw [cuts, mem_flatMap_run (p := p) fun n => by rw [List.mem_reverse, mem_lengths], hrun p]
      exact hforall fun _ => Iff.rfl
    | plusLazy p =>
      rw [cuts, mem_flatMap_run (p := p) fun n => mem_lengths, hrun p]
      exact hforall fun _ => Iff.rfl

theorem fits_nil : List.Forall₂ Fits ps [] ↔ ps = [] := List.forall₂_nil_right_iff

theorem fits_lit {w : List Char} : List.Forall₂ Fits ps (.lit w :: items) ↔
    ∃ qs, ps = w :: qs ∧ List.Forall₂ Fits qs items := by
  rw [List.forall₂_cons_right_iff]
  constructor
  · rintro ⟨piece, qs, rfl, hqs, rfl⟩
    exact ⟨qs, rfl, hqs⟩
  · rintro ⟨qs, rfl, hqs⟩
    exact ⟨w, qs, rfl, hqs, rfl⟩

theorem fits_plus {p : Char → Bool} : List.Forall₂ Fits ps (.plus p :: items) ↔
    ∃ piece qs, ps = piece :: qs ∧ piece ≠ [] ∧ (∀ c ∈ piece, p c = true) ∧
      List.Forall₂ Fits qs items := by
  rw [List.forall₂_cons_right_iff]
  constructor
  · rintro ⟨piece, qs, ⟨hne, hall⟩, hqs, rfl⟩
    exact ⟨piece, qs, rfl, hne, hall, hqs⟩
  · rintro ⟨piece, qs, rfl, hne, hall, hqs⟩
    exact ⟨piece, qs, ⟨hne, hall⟩, hqs, rfl⟩

theorem fits_plusLazy {p : Char → Bool} : List.Forall₂ Fits ps (.plusLazy p :: items) ↔
    ∃ piece qs, ps = piece :: qs ∧ piece ≠ [] ∧ (∀ c ∈ piece, p c = true) ∧
      List.Forall₂ Fits qs items := by
  rw [List.forall₂_cons_right_iff]
  constructor
  · rintro ⟨piece, qs, ⟨hne, hall⟩, hqs, rfl⟩
    exact ⟨piece, qs, rfl, hne, hall, hqs⟩
  · rintro ⟨piece, qs, rfl, hne, hall, hqs⟩
    exact ⟨piece, qs, ⟨hne, hall⟩, hqs, rfl⟩

/-! ### The match that is found -/

theorem pairwise_lengths (p : Char → Bool) (s : List Char) : (lengths p s).Pairwise (· < ·) := by
  rw [lengths, List.pairwise_map]
  exact List.pairwise_lt_range.imp fun h => Nat.succ_lt_succ h

theorem head_flatMap_run {p : Char → Bool} {f : List Char → List (List (List Char))} {ls : List ℕ}
    {r : ℕ → ℕ → Prop} (hasymm : ∀ m n, r m n → ¬ r n m) (hsorted : ls.Pairwise r)
    (hls : ∀ n, n ∈ ls ↔ 0 < n ∧ n ≤ (s.takeWhile p).length)
    (h : (ls.flatMap fun n => (f (s.drop n)).map (s.take n :: ·)).head? = some ps) :
    ∃ piece qs rest, ps = piece :: qs ∧ s = piece ++ rest ∧ piece ≠ [] ∧
      (∀ c ∈ piece, p c = true) ∧ (f rest).head? = some qs ∧
      ∀ piece' rest', s = piece' ++ rest' → piece' ≠ [] → (∀ c ∈ piece', p c = true) →
        r piece'.length piece.length → f rest' = [] := by
  rw [List.head?_flatMap, List.findSome?_eq_some_iff] at h
  obtain ⟨l₁, n, l₂, hcut, hn, hnone⟩ := h
  rw [List.head?_map, Option.map_eq_some_iff] at hn
  obtain ⟨qs, hqs, rfl⟩ := hn
  obtain ⟨hpos, hlen⟩ := (hls n).1 (by rw [hcut]; simp)
  obtain ⟨hle, hall⟩ := run_iff.1 hlen
  refine ⟨s.take n, qs, s.drop n, rfl, (List.take_append_drop n s).symm, ?_, hall, hqs, ?_⟩
  · rw [ne_eq, ← List.length_eq_zero_iff, List.length_take]
    omega
  · rintro piece' rest' rfl hne hall' hr
    rw [List.length_take, min_eq_left hle] at hr
    -- a preferred length stands before `n`
    have hmem : piece'.length ∈ ls := by
      rw [hls, run_iff, List.take_left]
      exact ⟨List.length_pos_iff.2 hne, by simp, hall'⟩
    rw [hcut] at hmem hsorted
    rcases List.mem_append.1 hmem with hmem | hmem
    · have := hnone _ hmem
      rw [List.drop_left, List.head?_map, Option.map_eq_none_iff] at this
      exact List.head?_eq_none_iff.1 this
    · have hafter := (List.pairwise_cons.1 (List.pairwise_append.1 hsorted).2.1).1
      rcases List.mem_cons.1 hmem with heq | hmem
      · exact absurd (heq ▸ hr) (hasymm _ _ (heq ▸ hr))
      · exact absurd hr (hasymm _ _ (hafter _ hmem))

theorem firstMatch_lit {w : List Char} (h : firstMatch (.lit w :: items) s = some ps) :
    ∃ qs rest, ps = w :: qs ∧ s = w ++ rest ∧ firstMatch items rest = some qs := by
  rw [firstMatch, cuts] at h
  split at h
  · rename_i hw
    obtain ⟨rest, rfl⟩ : w <+: s := by simpa using hw
    rw [List.drop_left, List.head?_map, Option.map_eq_some_iff] at h
    obtain ⟨qs, hqs, rfl⟩ := h
    exact ⟨qs, rest, rfl, rfl, hqs⟩
  · cases h

theorem firstMatch_plus {p : Char → Bool} (h : firstMatch (.plus p :: items) s = some ps) :
    ∃ piece qs rest, ps = piece :: qs ∧ s = piece ++ rest ∧ piece ≠ [] ∧
      (∀ c ∈ piece, p c = true) ∧ firstMatch items rest = some qs ∧
      ∀ piece' rest', s = piece' ++ rest' → piece' ≠ [] → (∀ c ∈ piece', p c = true) →
        piece.length < piece'.length → cuts items rest' = [] := by
  rw [firstMatch, cuts] at h
  exact head_flatMap_run (r := fun m n => n < m) (fun _ _ => Nat.lt_asymm)
    (List.pairwise_reverse.2 (pairwise_lengths p s)) (fun n => by rw [List.mem_reverse, mem_lengths]) h

theorem firstMatch_plusLazy {p : Char → Bool} (h : firstMatch (.plusLazy p :: items) s = some ps) :
    ∃ piece qs rest, ps = piece :: qs ∧ s = piece ++ rest ∧ piece ≠ [] ∧
      (∀ c ∈ piece, p c = true) ∧ firstMatch items rest = some qs ∧
      ∀ piece' rest', s = piece' ++ rest' → piece' ≠ [] → (∀ c ∈ piece', p c = true) →
        piece'.length < piece.length → cuts items rest' = [] := by
  rw [firstMatch, cuts] at h
  exact head_flatMap_run (r := fun m n => m < n) (fun _ _ => Nat.lt_asymm) (pairwise_lengths p s)
    (fun n => mem_lengths) h

theorem mem_of_firstMatch (h : firstMatch items s = some ps) : ps ∈ cuts items s :=
  List.mem_of_mem_head? h

theorem exists_firstMatch (h : ps ∈ cuts items s) : ∃ qs, firstMatch items s = some qs := by
  cases hcuts : cuts items s with
  | nil => rw [hcuts] at h; cases h
  | cons qs l => exact ⟨qs, by rw [firstMatch, hcuts]; rfl⟩

end Pattern
