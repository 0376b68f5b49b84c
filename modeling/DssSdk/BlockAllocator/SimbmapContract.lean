import DssSdk.BlockAllocator.Simbmap

/-!
# What the simple bitmap allocator does for every device

* `Simbmap.checkRangeFree_cases`, `searchForward_spec`, `searchWrapped_spec`: what the searches find;
* `allocExact_iff`: when an allocation is exact;
* `bitmapFits_iff`: when the bitmap holds the field of every block;
* `simbmapExact_iff`: the contract of the allocator.

The size of the bitmap is rounded down before it is rounded up, so that the last blocks may have no field.
The search to the end of the device stops before a range that ends at the last block.
-/

namespace DssSdk.BlockAllocator

open Scan

namespace Simbmap

/-- The blocks `b, …, b + n - 1` are blocks of the device and free. -/
def FreeRun (c : Simbmap) (b n : ℕ) : Prop :=
  b + n ≤ c.numTotalBlocks ∧ ∀ x, b ≤ x → x < b + n → c.stateOf x = blockStateFree

/-- The search with this hint comes to a range of `n` blocks at `b`: it starts below the hint, or it ends
before the last block of the device. The sums are those of the loop. -/
def Scanned (c : Simbmap) (hint n b : ℕ) : Prop :=
  b < hint ∨ (hint + n) % 2 ^ 64 < c.numTotalBlocks ∧ (b + n) % 2 ^ 64 < c.numTotalBlocks

variable {c : Simbmap} {b n i s hint v fuel : ℕ}

/-! ### The check of a range -/

theorem checkRangeFree_free (h : Fields c) (hN : c.numTotalBlocks < 2 ^ 64) {steps : ℕ}
    (hi : i + steps < 2 ^ 31) (hrun : FreeRun c (b + i) steps) :
    c.checkRangeFree b steps i = some (true, none) := by
  induction steps generalizing i with
  | zero => rfl
  | succ steps ih =>
    obtain ⟨hle, hfree⟩ := hrun
    unfold checkRangeFree
    rw [Nat.mod_eq_of_lt (show b + i < 2 ^ 64 by omega), if_neg (by omega), h.getBlock_eq (by omega)]
    show (if c.stateOf (b + i) = blockStateFree then _ else _) = _
    rw [if_pos (hfree _ le_rfl (by omega)), if_pos (by omega)]
    exact ih (by omega) ⟨by omega, fun x hx hlt => hfree x (by omega) (by omega)⟩

/-- The counter overflows on a free range of `2 ^ 31` blocks. -/
theorem checkRangeFree_overflow (h : Fields c) (hN : c.numTotalBlocks < 2 ^ 64) {steps : ℕ}
    (hi : i < 2 ^ 31) (hover : 2 ^ 31 ≤ i + steps) (hrun : FreeRun c (b + i) (2 ^ 31 - i)) :
    c.checkRangeFree b steps i = none := by
  induction steps generalizing i with
  | zero => omega
  | succ steps ih =>
    obtain ⟨hle, hfree⟩ := hrun
    unfold checkRangeFree
    rw [Nat.mod_eq_of_lt (show b + i < 2 ^ 64 by omega), if_neg (by omega), h.getBlock_eq (by omega)]
    show (if c.stateOf (b + i) = blockStateFree then _ else _) = _
    rw [if_pos (hfree _ le_rfl (by omega))]
    by_cases hlast : i + 1 < 2 ^ 31
    · rw [if_pos hlast]
      exact ih hlast (by omega) ⟨by omega, fun x hx hlt => hfree x (by omega) (by omega)⟩
    · rw [if_neg hlast]

/-- The check stops behind `k` free blocks, at the end of the device or at a block in use. -/
theorem checkRangeFree_stop (h : Fields c) (hN : c.numTotalBlocks < 2 ^ 64) {steps k : ℕ}
    (hb : b + i < 2 ^ 64) (hk : k < steps) (hi : i + k < 2 ^ 31)
    (hfree : ∀ x, b + i ≤ x → x < b + i + k → x < c.numTotalBlocks ∧ c.stateOf x = blockStateFree)
    (hstop : ¬ (b + i + k < c.numTotalBlocks ∧ c.stateOf (b + i + k) = blockStateFree)) :
    c.checkRangeFree b steps i =
      some (false, if b + i + k < c.numTotalBlocks then some (b + i + k) else none) := by
  induction k generalizing i steps with
  | zero =>
    obtain ⟨steps, rfl⟩ : ∃ m, steps = m + 1 := ⟨steps - 1, by omega⟩
    unfold checkRangeFree
    simp only [Nat.add_zero] at hstop ⊢
    rw [Nat.mod_eq_of_lt hb]
    by_cases hin : b + i < c.numTotalBlocks
    · rw [if_neg (by omega), if_pos hin, h.getBlock_eq hin]
      show (if c.stateOf (b + i) = blockStateFree then _ else _) = _
      rw [if_neg fun hstate => hstop ⟨hin, hstate⟩]
    · rw [if_pos (by omega), if_neg hin]
  | succ k ih =>
    obtain ⟨steps, rfl⟩ : ∃ m, steps = m + 1 := ⟨steps - 1, by omega⟩
    obtain ⟨hin, hstate⟩ := hfree (b + i) le_rfl (by omega)
    unfold checkRangeFree
    rw [Nat.mod_eq_of_lt hb, if_neg (by omega), h.getBlock_eq hin]
    show (if c.stateOf (b + i) = blockStateFree then _ else _) = _
    rw [if_pos hstate, if_pos (by omega)]
    have hrest := ih (i := i + 1) (by omega) (show k < steps by omega) (by omega)
      (fun x hx hlt => hfree x (by omega) (by omega))
      (by rwa [show b + (i + 1) + k = b + i + (k + 1) by omega])
    rw [hrest, show b + (i + 1) + k = b + i + (k + 1) by omega]

/-- How far the search looks for a range of `n` blocks before the counter overflows. -/
def span (n : ℕ) : ℕ := min n (2 ^ 31)

/-- What a search returns that comes to a free range at `b`. -/
def found (n b : ℕ) : Option (Option ℕ) := if n < 2 ^ 31 then some (some b) else none

/-- A check finds a free range, or the search goes on at `next` and no range starts before. -/
theorem checkRangeFree_cases (h : Fields c) (hN : c.numTotalBlocks < 2 ^ 64) (hb : b < 2 ^ 64)
    (hpos : b ≤ c.numTotalBlocks ∨ 0 < n) :
    (FreeRun c b (span n) ∧
      c.checkRangeFree b n 0 = if n < 2 ^ 31 then some (true, none) else none) ∨
    (0 < n ∧ ∃ f, c.checkRangeFree b n 0 = some (false, f) ∧ b ≤ f.getD b ∧ f.getD b < b + 2 ^ 31 ∧
      ∀ s, b ≤ s → s ≤ f.getD b → ¬ FreeRun c s (span n)) := by
  have hspan : span n ≤ n ∧ span n ≤ 2 ^ 31 := ⟨min_le_left _ _, min_le_right _ _⟩
  let p := fun x => x < c.numTotalBlocks ∧ c.stateOf x = blockStateFree
  by_cases hrun : runLen p b (span n) = span n
  · left
    have hall := runLen_eq_iff.1 hrun
    have hfree : FreeRun c b (span n) := by
      refine ⟨?_, fun x hx hlt => (hall x hx hlt).2⟩
      rcases Nat.eq_zero_or_pos (span n) with hzero | hpos'
      · have : n = 0 := by unfold span at hzero; omega
        omega
      · have := (hall (b + span n - 1) (by omega) (by omega)).1
        omega
    refine ⟨hfree, ?_⟩
    by_cases hn : n < 2 ^ 31
    · rw [if_pos hn]
      refine checkRangeFree_free h hN (by omega) ?_
      rwa [show span n = n by unfold span; omega] at hfree
    · rw [if_neg hn]
      refine checkRangeFree_overflow h hN (by omega) (by omega) ?_
      rwa [show span n = 2 ^ 31 by unfold span; omega] at hfree
  · right
    have hlt : runLen p b (span n) < span n := lt_of_le_of_ne (runLen_le _ _) hrun
    have hstop := runLen_lt hlt
    have hspec : ∀ x, b ≤ x → x < b + runLen p b (span n) → p x := fun x => runLen_spec
    generalize runLen p b (span n) = k at hlt hstop hspec
    have hcheck := checkRangeFree_stop (i := 0) (b := b) (k := k) h hN hb
      (show k < n by omega) (by omega) hspec hstop
    rw [Nat.add_zero] at hcheck
    refine ⟨by omega, _, hcheck, ?_⟩
    by_cases hin : b + k < c.numTotalBlocks
    · rw [if_pos hin]
      refine ⟨Nat.le_add_right _ _, by show b + k < _; omega, fun s hs hle hfree => ?_⟩
      have hle' : s ≤ b + k := hle
      exact hstop ⟨hin, hfree.2 (b + k) hle' (by omega)⟩
    · rw [if_neg hin]
      refine ⟨le_rfl, by show b < _; omega, fun s hs hle hfree => ?_⟩
      have hle' : s ≤ b := hle
      have := hfree.1
      omega

/-! ### The search -/

/-- The loop to the end of the device. -/
theorem searchForward_spec (h : Fields c) (hN : c.numTotalBlocks ≤ 2 ^ 63) (hn : n < 2 ^ 64)
    (hb : b < 2 ^ 64) (hfuel : c.numTotalBlocks < fuel + b) :
    (∃ s, b ≤ s ∧ FreeRun c s (span n) ∧ (b + n) % 2 ^ 64 < c.numTotalBlocks ∧
      (s + n) % 2 ^ 64 < c.numTotalBlocks ∧ c.searchForward n fuel b = found n s) ∨
    (c.searchForward n fuel b = some none ∧ ∀ s, b ≤ s → (b + n) % 2 ^ 64 < c.numTotalBlocks →
      (s + n) % 2 ^ 64 < c.numTotalBlocks → ¬ FreeRun c s (span n)) := by
  have hspan : 0 < n → 0 < span n := fun hpos => by unfold span; omega
  have hend : ∀ b, c.numTotalBlocks ≤ b → ∀ s, b ≤ s → (s + n) % 2 ^ 64 < c.numTotalBlocks →
      ¬ FreeRun c s (span n) := by
    intro b hle s hs hmod hfree
    have hfit := hfree.1
    rcases Nat.eq_zero_or_pos n with rfl | hpos
    · omega
    · have := hspan hpos
      omega
  induction fuel generalizing b with
  | zero => exact .inr ⟨rfl, fun s hs _ hmod => hend b (by omega) s hs hmod⟩
  | succ fuel ih =>
    unfold searchForward
    by_cases hin : b < c.numTotalBlocks
    swap
    · rw [if_neg hin]
      exact .inr ⟨rfl, fun s hs _ hmod => hend b (by omega) s hs hmod⟩
    rw [if_pos hin]
    by_cases hbreak : (b + n) % 2 ^ 64 ≥ c.numTotalBlocks
    · rw [if_pos hbreak]
      exact .inr ⟨rfl, fun s _ hmod => absurd hmod (by omega)⟩
    rw [if_neg hbreak]
    rcases checkRangeFree_cases h (n := n) (by omega) hb (.inl hin.le) with
      ⟨hfree, hcheck⟩ | ⟨hpos, f, hcheck, hle, hlt, hnone⟩
    · left
      refine ⟨b, le_rfl, hfree, by omega, by omega, ?_⟩
      rw [hcheck]
      unfold found
      split_ifs <;> rfl
    · rw [hcheck]
      rcases ih (b := f.getD b + 1) (by omega) (by omega) with
        ⟨s, hs, hfree, hmod, hmod', hsearch⟩ | ⟨hsearch, hrest⟩
      · exact .inl ⟨s, by omega, hfree, by omega, hmod', hsearch⟩
      · refine .inr ⟨hsearch, fun s hs hmod hmod' hfree => ?_⟩
        by_cases hnear : s ≤ f.getD b
        · exact hnone s hs hnear hfree
        · have hfit := hfree.1
          have := hspan hpos
          exact hrest s (by omega) (by omega) hmod' hfree

/-- The loop from the start of the device to the hint. -/
theorem searchWrapped_spec (h : Fields c) (hN : c.numTotalBlocks ≤ 2 ^ 63) (hhint : hint < 2 ^ 64)
    (hpos : b ≤ c.numTotalBlocks ∨ 0 < n) (hfuel : hint < fuel + b) :
    (∃ s, b ≤ s ∧ s < hint ∧ FreeRun c s (span n) ∧
      c.searchWrapped n hint fuel b = found n s) ∨
    (c.searchWrapped n hint fuel b = some none ∧
      ∀ s, b ≤ s → s < hint → ¬ FreeRun c s (span n)) := by
  induction fuel generalizing b with
  | zero => exact .inr ⟨rfl, fun s hs hlt => by omega⟩
  | succ fuel ih =>
    unfold searchWrapped
    by_cases hin : b < hint
    swap
    · rw [if_neg hin]
      exact .inr ⟨rfl, fun s hs hlt => by omega⟩
    rw [if_pos hin]
    rcases checkRangeFree_cases h (n := n) (by omega) (hin.trans hhint) hpos with
      ⟨hfree, hcheck⟩ | ⟨hn, f, hcheck, hle, hlt, hnone⟩
    · refine .inl ⟨b, le_rfl, hin, hfree, ?_⟩
      rw [hcheck]
      unfold found
      split_ifs <;> rfl
    · rw [hcheck]
      rcases ih (b := f.getD b + 1) (.inr hn) (by omega) with
        ⟨s, hs, hlt', hfree, hsearch⟩ | ⟨hsearch, hrest⟩
      · exact .inl ⟨s, by omega, hlt', hfree, hsearch⟩
      · refine .inr ⟨hsearch, fun s hs hlt' hfree => ?_⟩
        by_cases hnear : s ≤ f.getD b
        · exact hnone s hs hnear hfree
        · exact hrest s (by omega) hlt' hfree

theorem search_spec (h : Fields c) (hN : c.numTotalBlocks ≤ 2 ^ 63) (hn : n < 2 ^ 64)
    (hhint : hint < 2 ^ 64) :
    (∃ s, FreeRun c s (span n) ∧ Scanned c hint n s ∧ c.search hint n = found n s) ∨
    (c.search hint n = some none ∧ ∀ s, Scanned c hint n s → ¬ FreeRun c s (span n)) := by
  rcases searchForward_spec h hN hn hhint
      (show c.numTotalBlocks < c.numTotalBlocks + 1 + hint by omega) with
    ⟨s, _, hfree, hmod, hmod', hsearch⟩ | ⟨hsearch, hforward⟩
  · refine .inl ⟨s, hfree, .inr ⟨hmod, hmod'⟩, ?_⟩
    unfold search
    rw [hsearch]
    unfold found
    split_ifs <;> rfl
  · have heq : c.search hint n = c.searchWrapped n hint (hint + 1) 0 := by
      unfold search
      rw [hsearch]
      rfl
    rw [heq]
    rcases searchWrapped_spec h hN hhint (n := n) (.inl (Nat.zero_le _))
      (show hint < hint + 1 + 0 by omega) with ⟨s, _, hlt, hfree, hwrap⟩ | ⟨hwrap, hnone⟩
    · exact .inl ⟨s, hfree, .inl hlt, hwrap⟩
    · refine .inr ⟨hwrap, fun s hs hfree => ?_⟩
      by_cases hlt : s < hint
      · exact hnone s (Nat.zero_le s) hlt hfree
      · rcases hs with hs | ⟨hmod, hmod'⟩
        · exact hlt hs
        · exact hforward s (by omega) hmod hmod' hfree

/-! ### Allocations -/

/-- An allocation succeeds if and only if the device has a free range, and then a range that was free is
returned and marked. -/
def AllocExact (c : Simbmap) (v hint n : ℕ) : Prop :=
  ∃ r, c.allocBlocksContig v hint n true = some r ∧
    (r.status = .success ↔ ∃ b, FreeRun c b n) ∧
    (r.status = .success → ∃ start, r.allocatedStartBlock = some start ∧ FreeRun c start n ∧
      Marks c start n v r.ctx)

/-- The search comes to one of the free ranges, if there are some, and to no free range on which the
counter overflows. -/
def SearchFits (c : Simbmap) (hint n : ℕ) : Prop :=
  ((∃ b, FreeRun c b n) → n < 2 ^ 31 ∧ ∃ b, FreeRun c b n ∧ Scanned c hint n b) ∧
    (2 ^ 31 ≤ n → ∀ b, FreeRun c b (2 ^ 31) → ¬ Scanned c hint n b)

/-- What is done with the result of the search. -/
def allocAt (c : Simbmap) (v n : ℕ) : Option ℕ → Option Allocated
  | none => some ⟨.error, c, none⟩
  | some start => (c.setBlocksState start v n 0).map fun c' => ⟨.success, c', some start⟩

theorem allocBlocksContig_eq :
    c.allocBlocksContig v hint n true = (c.search hint n).bind (c.allocAt v n) := by
  unfold allocBlocksContig
  rw [if_neg (by decide)]
  cases c.search hint n with
  | none => rfl
  | some r =>
    cases r with
    | none => rfl
    | some start =>
      show (c.setBlocksState start v n 0).bind _ = (c.setBlocksState start v n 0).map _
      cases c.setBlocksState start v n 0 <;> rfl

theorem allocExact_of_none (h : c.search hint n = some none) :
    AllocExact c v hint n ↔ ¬ ∃ b, FreeRun c b n := by
  have halloc : c.allocBlocksContig v hint n true = some ⟨.error, c, none⟩ := by
    rw [allocBlocksContig_eq, h]
    rfl
  constructor
  · rintro ⟨r, hr, hiff, -⟩ hrun
    obtain rfl := Option.some.inj (halloc.symm.trans hr)
    exact absurd (hiff.2 hrun) nofun
  · intro hrun
    exact ⟨_, halloc, ⟨nofun, fun h => absurd h hrun⟩, nofun⟩

theorem allocExact_iff (h : Fields c) (hN : c.numTotalBlocks ≤ 2 ^ 63) (hn : n < 2 ^ 64)
    (hhint : hint < 2 ^ 64) (hv : v < 2 ^ c.bitsPerBlock) :
    AllocExact c v hint n ↔ SearchFits c hint n := by
  rcases Nat.lt_or_ge n (2 ^ 31) with hsmall | hlarge
  · have hspan : span n = n := by unfold span; omega
    rcases search_spec h hN hn hhint with ⟨s, hfree, hscan, hsearch⟩ | ⟨hsearch, hnone⟩
    · rw [hspan] at hfree
      have hfit := hfree.1
      obtain ⟨c', hset, hmarks⟩ := setBlocksState_spec (i := 0) (v := v) h
        (show s + 0 + n ≤ c.numTotalBlocks by omega) (by omega) (by omega) hv
      unfold found at hsearch
      rw [if_pos hsmall] at hsearch
      refine ⟨fun _ => ⟨fun _ => ⟨hsmall, s, hfree, hscan⟩, fun hle => by omega⟩, fun _ => ?_⟩
      refine ⟨⟨.success, c', some s⟩, ?_, ⟨fun _ => ⟨s, hfree⟩, fun _ => rfl⟩,
        fun _ => ⟨s, rfl, hfree, hmarks⟩⟩
      rw [allocBlocksContig_eq, hsearch]
      show (c.setBlocksState s v n 0).map _ = _
      rw [hset]
      rfl
    · rw [hspan] at hnone
      rw [allocExact_of_none hsearch]
      constructor
      · exact fun hrun => ⟨fun h => absurd h hrun, fun hle => by omega⟩
      · rintro ⟨hfits, -⟩ hrun
        obtain ⟨-, b, hfree, hscan⟩ := hfits hrun
        exact hnone b hscan hfree
  · have hspan : span n = 2 ^ 31 := by unfold span; omega
    rcases search_spec h hN hn hhint with ⟨s, hfree, hscan, hsearch⟩ | ⟨hsearch, hnone⟩
    · rw [hspan] at hfree
      unfold found at hsearch
      rw [if_neg (by omega)] at hsearch
      constructor
      · rintro ⟨r, hr, -⟩
        rw [allocBlocksContig_eq, hsearch] at hr
        exact absurd hr nofun
      · rintro ⟨-, hover⟩
        exact absurd hscan (hover hlarge s hfree)
    · rw [hspan] at hnone
      rw [allocExact_of_none hsearch]
      constructor
      · exact fun hrun => ⟨fun h => absurd h hrun, fun _ b hfree hscan => hnone b hscan hfree⟩
      · rintro ⟨hfits, -⟩ hrun
        have := (hfits hrun).1
        omega

/-! ### The size of the bitmap -/

/-- The size of the bitmap is enough: blocks whose fields do not fill a byte are in a word that other
blocks need, and the product of the size does not overflow. -/
def BitmapFits (numTotalBlocks numBlockStates : ℕ) : Prop :=
  let bits := numStatesToBitsPerBlock numBlockStates
  if bits < 8 then numTotalBlocks % (8 / bits) = 0 ∨ numTotalBlocks / (8 / bits) % 8 ≠ 0
  else numTotalBlocks * (bits / 8) ≤ 2 ^ 64 - 8

instance (N S : ℕ) : Decidable (BitmapFits N S) := by
  unfold BitmapFits
  infer_instance

theorem numStatesToBitsPerBlock_cases {S : ℕ} (hbits : numStatesToBitsPerBlock S ≤ 64) :
    ∃ k ≤ 6, numStatesToBitsPerBlock S = 2 ^ k ∧ (S < 2 ^ 32 ↔ k < 6) ∧ S < 2 ^ 2 ^ k := by
  unfold numStatesToBitsPerBlock at hbits ⊢
  have hk : Nat.clog 2 (Nat.log2 S + 1) ≤ 6 :=
    (Nat.pow_le_pow_iff_right (by omega)).1 (hbits.trans_eq (by norm_num : 64 = 2 ^ 6))
  have hlog : Nat.log2 S + 1 ≤ 2 ^ Nat.clog 2 (Nat.log2 S + 1) := Nat.le_pow_clog (by omega) _
  refine ⟨_, hk, rfl, ?_, Nat.lt_log2_self.trans_le (Nat.pow_le_pow_right (by omega) hlog)⟩
  rw [show Nat.clog 2 (Nat.log2 S + 1) < 6 ↔ Nat.clog 2 (Nat.log2 S + 1) ≤ 5 by omega,
    Nat.clog_le_iff_le_pow (by omega)]
  constructor
  · intro hS
    by_contra hlt
    have hpow : 2 ^ 32 ≤ 2 ^ Nat.log2 S := Nat.pow_le_pow_right (by omega) (by omega)
    rcases Nat.eq_zero_or_pos S with rfl | hpos
    · exact hlt (by decide)
    · have := Nat.log2_self_le (Nat.pos_iff_ne_zero.1 hpos)
      omega
  · intro hle
    exact Nat.lt_log2_self.trans_le (Nat.pow_le_pow_right (by omega) hle)

/-- What `init` returns. -/
theorem init_spec {mallocs : ℕ → Bool} {N S : ℕ} (h : init mallocs N S = some c) :
    numStatesToBitsPerBlock S ≤ 64 ∧ mallocs (bmapSz N (numStatesToBitsPerBlock S)) = true ∧
      c = ⟨List.replicate (bmapSz N (numStatesToBitsPerBlock S) / 8) 0, numStatesToBitsPerBlock S,
        64 / numStatesToBitsPerBlock S, N, S⟩ := by
  unfold init at h
  dsimp only at h
  split_ifs at h with hzero hbits hmod hmalloc
  exact ⟨by omega, by simpa using hmalloc, (Option.some.inj h).symm⟩

/-- The bitmap holds the fields of all blocks. -/
theorem bitmapFits_iff {N S : ℕ} (hN : N < 2 ^ 64) (hbits : numStatesToBitsPerBlock S ≤ 64)
    (hsz : bmapSz N (numStatesToBitsPerBlock S) < 2 ^ 57) :
    BitmapFits N S ↔ N ≤ bmapSz N (numStatesToBitsPerBlock S) / 8 *
      (64 / numStatesToBitsPerBlock S) := by
  obtain ⟨k, hk, heq, -⟩ := numStatesToBitsPerBlock_cases hbits
  unfold BitmapFits
  rw [heq] at hsz ⊢
  unfold bmapSz at hsz ⊢
  interval_cases k <;> simp only [Nat.reducePow, Nat.reduceDiv, Nat.reduceLT, Nat.div_one, Nat.mul_one, ↓reduceIte] at hsz ⊢ <;> split_ifs at hsz ⊢ <;> omega

/-! ### The contract -/

/-- A write to a block is read back and changes no other block. -/
def WriteExact (c : Simbmap) (v : ℕ) : Prop :=
  ∀ i < c.numTotalBlocks, ∃ c', c.setBlock i v = some c' ∧ c'.getBlock i = some v ∧
    ∀ x < c.numTotalBlocks, x ≠ i → c'.getBlock x = c.getBlock x

/-- What the allocator does for the blocks of its device: their fields are in the bitmap, writes are exact
and so are allocations. -/
structure Exact (c : Simbmap) (v hint n : ℕ) : Prop where
  inside : ∀ x < c.numTotalBlocks, x / c.blocksPerStride < c.bmap.length
  write : WriteExact c v
  alloc : AllocExact c v hint n

theorem Fields.writeExact (h : Fields c) (hv : v < 2 ^ c.bitsPerBlock) : WriteExact c v := by
  intro i hi
  obtain ⟨c', hset, hmarks⟩ := setBlock_spec h hi hv
  have htotal : c'.numTotalBlocks = c.numTotalBlocks := by rw [hmarks.shape.eq]
  have h' := hmarks.shape.fields h
  refine ⟨c', hset, ?_, fun x hx hne => ?_⟩
  · rw [h'.getBlock_eq (by omega), hmarks.state i hi, if_pos ⟨le_rfl, by omega⟩]
  · rw [h'.getBlock_eq (by omega), h.getBlock_eq hx, hmarks.state x hx, if_neg (by omega)]

/-- An allocator that `init` returned, with any states of the blocks, is exact if and only if its bitmap is
large enough, a field is narrower than a word and the search fits. -/
theorem simbmapExact_iff {mallocs : ℕ → Bool} {N S : ℕ} {c₀ : Simbmap} {bmap : List (BitVec 64)}
    (hmalloc : ∀ sz, mallocs sz = true → sz < 2 ^ 57) (hN : N < 2 ^ 64)
    (hinit : init mallocs N S = some c₀) (hbmap : bmap.length = c₀.bmap.length)
    (hv : v ≤ S) (hhint : hint < 2 ^ 64) (hn : n < 2 ^ 64) :
    Exact { c₀ with bmap := bmap } v hint n ↔
      BitmapFits N S ∧ (N = 0 ∨ S < 2 ^ 32) ∧ SearchFits { c₀ with bmap := bmap } hint n := by
  obtain ⟨hbits, hgranted, rfl⟩ := init_spec hinit
  have hsz := hmalloc _ hgranted
  obtain ⟨k, hk, heq, hS, hSlt⟩ := numStatesToBitsPerBlock_cases hbits
  have hstride : 2 ^ k * (64 / 2 ^ k) = 64 :=
    Nat.mul_div_cancel' (pow_dvd_pow 2 hk |>.trans (by norm_num))
  rw [bitmapFits_iff hN hbits hsz]
  rw [heq] at hsz hbmap ⊢
  have hlength : bmap.length = bmapSz N (2 ^ k) / 8 := by rw [hbmap, List.length_replicate]
  have hpos : 0 < 64 / 2 ^ k := by
    by_contra hzero
    rw [Nat.eq_zero_of_not_pos hzero] at hstride
    omega
  set c : Simbmap := ⟨bmap, 2 ^ k, 64 / 2 ^ k, N, S⟩ with hc
  have hinside : (∀ x < c.numTotalBlocks, x / c.blocksPerStride < c.bmap.length) ↔
      N ≤ bmapSz N (2 ^ k) / 8 * (64 / 2 ^ k) := by
    rw [← hlength]
    constructor
    · intro h
      by_contra hlt
      have hlast := h (N - 1) (by show N - 1 < N; omega)
      rw [Nat.div_lt_iff_lt_mul hpos] at hlast
      have : N - 1 < bmap.length * (64 / 2 ^ k) := hlast
      omega
    · intro h x hx
      exact (Nat.div_lt_iff_lt_mul hpos).2 (lt_of_lt_of_le hx h)
  have hfields : N ≤ bmapSz N (2 ^ k) / 8 * (64 / 2 ^ k) → (N = 0 ∨ S < 2 ^ 32) → Fields c := by
    intro hfit hwidth
    refine ⟨Nat.two_pow_pos k, fun hlt => ?_, hstride, hinside.2 hfit⟩
    have hlt' : 0 < N := hlt
    have hk' : k < 6 := hS.1 (by omega)
    exact (Nat.pow_lt_pow_right (by omega) hk').trans_eq (by norm_num : 2 ^ 6 = 64)
  have hbound : N ≤ bmapSz N (2 ^ k) / 8 * (64 / 2 ^ k) → N ≤ 2 ^ 63 := by
    intro hfit
    have hword : 64 / 2 ^ k ≤ 64 := Nat.div_le_self _ _
    have := Nat.mul_le_mul_left (bmapSz N (2 ^ k) / 8) hword
    omega
  have hvlt : v < 2 ^ c.bitsPerBlock := lt_of_le_of_lt hv hSlt
  constructor
  · rintro ⟨hin, hwrite, halloc⟩
    have hfit := hinside.1 hin
    have hwidth : N = 0 ∨ S < 2 ^ 32 := by
      by_contra hwide
      obtain ⟨c', hset, -⟩ := hwrite 0 (by show 0 < N; omega)
      have hk6 : k = 6 := by
        have := hS.2
        omega
      unfold setBlock at hset
      rw [if_pos (by show 64 ≤ 2 ^ k; rw [hk6]; norm_num)] at hset
      exact absurd hset nofun
    exact ⟨hfit, hwidth, (allocExact_iff (hfields hfit hwidth) (hbound hfit) hn hhint hvlt).1 halloc⟩
  · rintro ⟨hfit, hwidth, hsearch⟩
    have h := hfields hfit hwidth
    exact ⟨h.inside, h.writeExact hvlt, (allocExact_iff h (hbound hfit) hn hhint hvlt).2 hsearch⟩

/-- Eight blocks of fifteen states, all free. -/
def eightFree : Simbmap := ⟨[0], 4, 16, 8, 15⟩

/-- Sixteen fields for seventeen blocks. -/
def seventeenBlocks : Simbmap := ⟨[0], 4, 16, 17, 15⟩

theorem simbmapExact_eightFree : Exact { eightFree with bmap := [0] } 3 0 2 := by
  have hmalloc : ∀ sz, decide (sz < 2 ^ 57) = true → sz < 2 ^ 57 := fun _ => of_decide_eq_true
  have hinit : init (fun sz => decide (sz < 2 ^ 57)) 8 15 = some eightFree := by decide +kernel
  have hsearch : SearchFits { eightFree with bmap := [0] } 0 2 := by
    refine ⟨fun _ => ⟨by norm_num, 0, ⟨by decide, fun x _ hx => ?_⟩, .inr ⟨by decide, by decide⟩⟩,
      fun hlarge => absurd hlarge (by norm_num)⟩
    interval_cases x <;> decide +kernel
  exact (simbmapExact_iff hmalloc (by norm_num) hinit rfl (by norm_num) (by norm_num)
    (by norm_num)).2 ⟨by decide +kernel, .inr (by norm_num), hsearch⟩

/-- The range that ends at the last block is not found, and the last of seventeen blocks has no field. -/
theorem not_simbmapExact_lastBlocks :
    init (fun sz => decide (sz < 2 ^ 57)) 8 15 = some eightFree ∧ ¬ Exact eightFree 3 0 8 ∧
    init (fun sz => decide (sz < 2 ^ 57)) 17 15 = some seventeenBlocks ∧
      ¬ Exact seventeenBlocks 3 0 1 := by
  refine ⟨by decide +kernel, fun h => ?_, by decide +kernel, fun h => ?_⟩
  · obtain ⟨r, hr, hiff, -⟩ := h.alloc
    have hfails : eightFree.allocBlocksContig 3 0 8 true = some ⟨.error, eightFree, none⟩ := by
      decide +kernel
    obtain rfl := Option.some.inj (hfails.symm.trans hr)
    refine absurd (hiff.2 ⟨0, by decide, fun x _ hx => ?_⟩) nofun
    interval_cases x <;> decide +kernel
  · exact absurd (h.inside 16 (by decide)) (by decide)

end Simbmap

end DssSdk.BlockAllocator
