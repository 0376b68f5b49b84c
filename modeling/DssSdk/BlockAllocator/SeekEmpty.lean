import DssSdk.BlockAllocator.Bitmap

/-!
# The search for a free range in the bitmap

`seek_empty_cell_range` tells whether a range of cells is zero.

* `seekLoop`, `seekEmptyCellRange`: the loop with its word index and its position in the word;
* `SeeksExactly`: the answer of a scan of the cells, without a read outside the bitmap;
* `seeksExactly_iff`: the widths and ranges for which this holds whatever the bitmap contains.

The position in the word is a number of bits that is taken for a number of cells, and the loop counts
bits where it should count cells. With one bit for each cell both are the same.
-/

namespace DssSdk.BlockAllocator

open PackedCells

namespace QwordVector64Cell

/-- The conversion of a 64-bit number to `int`. -/
def toInt (n : ℕ) : ℤ := ((n + 2 ^ 31) % 2 ^ 32 : ℕ) - 2 ^ 31

/-- `data_[i]` for an `int`; a negative index is a very large one. -/
def wordAt (q : QwordVector64Cell) (i : ℤ) : Option (BitVec 64) :=
  if i < 0 then none else q.data[i.toNat]?

/-- The loop over the cells. A shift by the width of a word or more, and the overflow of the word
index, are undefined. -/
def seekLoop (q : QwordVector64Cell) : ℕ → ℤ → ℕ → Option Bool
  | 0, _, _ => some true
  | steps + 1, i, j =>
    let maskShift := j * q.bitsPerCell
    if 64 ≤ maskShift then none
    else
      match q.wordAt i with
      | none => none
      | some w =>
        if w &&& (flag q.bitsPerCell <<< maskShift) ≠ 0 then some false
        else
          let j := j + q.bitsPerCell
          if j = cellsPerWord q.bitsPerCell then
            if i + 1 < 2 ^ 31 then q.seekLoop steps (i + 1) 0 else none
          else q.seekLoop steps i j

/-- `seek_empty_cell_range`. -/
def seekEmptyCellRange (q : QwordVector64Cell) (beginCell len : ℕ) : Option Bool :=
  if (beginCell + len) % 2 ^ 64 > q.cells then some false
  else
    -- `for (k = 0; k < len; k += bits_per_cell_)`
    q.seekLoop ((len + q.bitsPerCell - 1) / q.bitsPerCell)
      (toInt (beginCell / cellsPerWord q.bitsPerCell))
      (beginCell % cellsPerWord q.bitsPerCell * q.bitsPerCell)

/-- The search answers whether all cells of the range are zero. -/
def SeeksExactly (q : QwordVector64Cell) (beginCell len : ℕ) : Prop :=
  ∃ r, q.seekEmptyCellRange beginCell len = some r ∧
    (r = true ↔ ∀ x, beginCell ≤ x → x < beginCell + len → cellAt q.bitsPerCell q.data x = 0)

/-- The ranges whose cells the loop visits: with one bit for each cell all of them, else the empty
ones and the first cell of a word. The word index does not overflow. -/
def SeekFits (bits beginCell len : ℕ) : Prop :=
  len = 0 ∨ (bits = 1 ∨ len = 1 ∧ beginCell % cellsPerWord bits = 0) ∧
    beginCell / cellsPerWord bits +
      (beginCell % cellsPerWord bits + len) * bits / cellsPerWord bits < 2 ^ 31

instance (bits beginCell len : ℕ) : Decidable (SeekFits bits beginCell len) :=
  inferInstanceAs (Decidable (_ ∨ (_ ∨ _ ∧ _) ∧ _))

variable {q : QwordVector64Cell} {steps j k : ℕ} {i : ℤ} {w : BitVec 64}

theorem toInt_of_lt {n : ℕ} (h : n < 2 ^ 31) : toInt n = n := by
  unfold toInt
  omega

theorem toInt_lt (n : ℕ) : toInt n < 2 ^ 31 := by
  unfold toInt
  omega

theorem wordAt_natCast (n : ℕ) : q.wordAt n = q.data[n]? := if_neg (by omega)

/-! ### One step of the loop -/

theorem seekLoop_hit (hj : j * q.bitsPerCell < 64) (hw : q.wordAt i = some w)
    (hne : w &&& (flag q.bitsPerCell <<< (j * q.bitsPerCell)) ≠ 0) :
    q.seekLoop (steps + 1) i j = some false := by
  rw [seekLoop]
  dsimp only
  rw [if_neg (by omega), hw]
  exact if_pos hne

theorem seekLoop_miss (hj : j * q.bitsPerCell < 64) (hw : q.wordAt i = some w)
    (heq : w &&& (flag q.bitsPerCell <<< (j * q.bitsPerCell)) = 0) :
    q.seekLoop (steps + 1) i j =
      if j + q.bitsPerCell = cellsPerWord q.bitsPerCell then
        if i + 1 < 2 ^ 31 then q.seekLoop steps (i + 1) 0 else none
      else q.seekLoop steps i (j + q.bitsPerCell) := by
  rw [seekLoop]
  dsimp only
  rw [if_neg (by omega), hw]
  exact if_neg (not_not.2 heq)

theorem seekLoop_cases {r : Bool} (h : q.seekLoop (steps + 1) i j = some r) :
    ∃ w, j * q.bitsPerCell < 64 ∧ q.wordAt i = some w ∧
      (r = false ∧ w &&& (flag q.bitsPerCell <<< (j * q.bitsPerCell)) ≠ 0 ∨
        w &&& (flag q.bitsPerCell <<< (j * q.bitsPerCell)) = 0 ∧
          (if j + q.bitsPerCell = cellsPerWord q.bitsPerCell then
            if i + 1 < 2 ^ 31 then q.seekLoop steps (i + 1) 0 else none
          else q.seekLoop steps i (j + q.bitsPerCell)) = some r) := by
  have hj : j * q.bitsPerCell < 64 := by
    by_contra hge
    rw [seekLoop] at h
    dsimp only at h
    rw [if_pos (by omega)] at h
    cases h
  cases hw : q.wordAt i with
  | none =>
    rw [seekLoop] at h
    dsimp only at h
    rw [if_neg (by omega), hw] at h
    cases h
  | some w =>
    refine ⟨w, hj, rfl, ?_⟩
    by_cases hz : w &&& (flag q.bitsPerCell <<< (j * q.bitsPerCell)) = 0
    · right
      rw [seekLoop_miss hj hw hz] at h
      exact ⟨hz, h⟩
    · left
      rw [seekLoop_hit hj hw hz] at h
      exact ⟨(Option.some.inj h).symm, hz⟩

theorem seekLoop_false (h : q.seekLoop steps i j = some false) (hi : i < 2 ^ 31)
    (hj : q.bitsPerCell ∣ j) :
    ∃ i' j' w, i' < 2 ^ 31 ∧ q.bitsPerCell ∣ j' ∧ q.wordAt i' = some w ∧
      w &&& (flag q.bitsPerCell <<< (j' * q.bitsPerCell)) ≠ 0 := by
  induction steps generalizing i j with
  | zero => cases h
  | succ steps ih =>
    obtain ⟨w, -, hw, ⟨-, hne⟩ | ⟨-, h⟩⟩ := seekLoop_cases h
    · exact ⟨i, j, w, hi, hj, hw, hne⟩
    · split_ifs at h with hend hlt
      · exact ih h hlt (dvd_zero _)
      · exact ih h hi (dvd_add hj dvd_rfl)

/-! ### One bit for each cell -/

theorem seekLoop_index_lt (hb : q.bitsPerCell = 1) (h : q.seekLoop steps i j = some true)
    (hi : i < 2 ^ 31) (hj : j < 64) : i + (j + steps : ℕ) / 64 < 2 ^ 31 := by
  induction steps generalizing i j with
  | zero => omega
  | succ steps ih =>
    obtain ⟨w, -, -, ⟨hfalse, -⟩ | ⟨-, h⟩⟩ := seekLoop_cases h
    · cases hfalse
    · rw [hb, show cellsPerWord 1 = 64 from rfl] at h
      split_ifs at h with hend hlt
      · have := ih h hlt (by omega)
        omega
      · have := ih h hi (by omega)
        omega

theorem seekLoop_spec (hb : q.bitsPerCell = 1) {n : ℕ} (hj : j < 64)
    (hlen : n * 64 + j + steps ≤ q.data.length * 64) (hn : n + (j + steps) / 64 < 2 ^ 31) :
    ∃ r, q.seekLoop steps n j = some r ∧
      (r = true ↔ ∀ x, n * 64 + j ≤ x → x < n * 64 + j + steps → cellAt 1 q.data x = 0) := by
  induction steps generalizing n j with
  | zero => exact ⟨true, rfl, fun _ x h1 h2 => by omega, fun _ => rfl⟩
  | succ steps ih =>
    have hlt : n < q.data.length := by omega
    have hw : q.wordAt n = some q.data[n] := by rw [wordAt_natCast, List.getElem?_eq_getElem hlt]
    have hshift : j * q.bitsPerCell < 64 := by rw [hb]; omega
    have hcell : cellAt 1 q.data (n * 64 + j) = readCell 1 q.data[n] j := by
      unfold cellAt
      rw [show cellsPerWord 1 = 64 from rfl, show (n * 64 + j) / 64 = n by omega,
        show (n * 64 + j) % 64 = j by omega, List.getElem?_eq_getElem hlt]
      rfl
    have htest := readCell_eq_zero_iff (show 1 ≤ 8 by omega) q.data[n] j
    rw [← hcell] at htest
    by_cases hz : cellAt 1 q.data (n * 64 + j) = 0
    · have hnext : ∃ r, q.seekLoop (steps + 1) n j = some r ∧ (r = true ↔
          ∀ x, n * 64 + (j + 1) ≤ x → x < n * 64 + (j + 1) + steps → cellAt 1 q.data x = 0) := by
        rw [seekLoop_miss hshift hw (by rw [hb]; exact htest.1 hz), hb,
          show cellsPerWord 1 = 64 from rfl]
        split_ifs with hend hov
        · obtain ⟨r, hr, hiff⟩ := ih (n := n + 1) (j := 0) (by omega) (by omega) (by omega)
          refine ⟨r, by exact_mod_cast hr, hiff.trans ?_⟩
          rw [show (n + 1) * 64 + 0 = n * 64 + (j + 1) by omega]
        · omega
        · exact ih (by omega) (by omega) (by omega)
      obtain ⟨r, hr, hiff⟩ := hnext
      refine ⟨r, hr, hiff.trans ⟨fun h x h1 h2 => ?_, fun h x h1 h2 => h x (by omega) (by omega)⟩⟩
      rcases Nat.eq_or_lt_of_le h1 with rfl | hx
      · exact hz
      · exact h x (by omega) (by omega)
    · refine ⟨false, seekLoop_hit hshift hw ?_, fun h => (by cases h), fun h => ?_⟩
      · rw [hb]
        exact fun h => hz (htest.2 h)
      · exact absurd (h _ le_rfl (by omega)) hz

/-! ### A bitmap with one cell in use -/

/-- The bitmap of `n` words whose cell `x` is one. -/
def oneCell (bits n x : ℕ) : List (BitVec 64) := setCellAt bits (List.replicate n 0) x 1

theorem oneCell_hit {bits n x : ℕ} (h0 : 0 < bits) (hb : bits ≤ 8) {m : ℕ}
    (hw : (oneCell bits n x)[m]? = some w) (hne : w &&& (flag bits <<< (k * bits)) ≠ 0) :
    m = x / cellsPerWord bits ∧ k = x % cellsPerWord bits := by
  unfold oneCell setCellAt at hw
  have hzero : ((List.replicate n (0 : BitVec 64))[x / cellsPerWord bits]?).getD 0 = 0 := by
    rw [List.getElem?_replicate]
    split_ifs <;> rfl
  rw [hzero, List.getElem?_set] at hw
  by_cases hm : x / cellsPerWord bits = m
  · rw [if_pos hm] at hw
    split_ifs at hw
    cases hw
    refine ⟨hm.symm, ?_⟩
    obtain ⟨i, hi⟩ : ∃ i, (writeCell bits 0 (x % cellsPerWord bits) 1 &&&
        (flag bits <<< (k * bits))).getLsbD i = true := by
      by_contra hall
      push Not at hall
      refine hne (BitVec.eq_of_getLsbD_eq fun i _ => ?_)
      rw [getLsbD_zeroWord]
      exact Bool.eq_false_iff.2 (hall i)
    rw [BitVec.getLsbD_and, Bool.and_eq_true] at hi
    obtain ⟨hcell, hmask⟩ := hi
    have hpos := getLsbD_writeCell_one hb hcell
    rw [BitVec.getLsbD_shiftLeft, getLsbD_flag hb] at hmask
    simp only [Bool.and_eq_true, Bool.not_eq_true', decide_eq_true_iff, decide_eq_false_iff_not] at hmask
    obtain ⟨⟨-, hlow⟩, hhigh⟩ := hmask
    rw [hpos] at hlow hhigh
    rcases lt_trichotomy k (x % cellsPerWord bits) with hlt | heq | hgt
    · have := Nat.mul_le_mul_right bits (show k + 1 ≤ x % cellsPerWord bits from hlt)
      rw [Nat.add_mul] at this
      omega
    · exact heq
    · have := Nat.mul_lt_mul_of_pos_right hgt h0
      omega
  · rw [if_neg hm, List.getElem?_replicate] at hw
    split_ifs at hw
    cases hw
    exact absurd (BitVec.zero_and) hne

theorem oneCell_ne {bits n x : ℕ} (h0 : 0 < bits) (hb : bits ≤ 8)
    (hx : x / cellsPerWord bits < n) : cellAt bits (oneCell bits n x) x ≠ 0 := by
  unfold oneCell
  rw [cellAt_setCellAt h0 hb (by rwa [List.length_replicate]), if_pos rfl]
  interval_cases bits <;> decide

/-! ### Every width -/

theorem index_lt_totalQwords {cells bits x : ℕ} (h0 : 0 < bits) (hb : bits ≤ 8) (hx : x < cells) :
    x / cellsPerWord bits < totalQwords cells bits := by
  have hpos : 0 < cellsPerWord bits := Nat.div_pos (by omega) h0
  unfold totalQwords
  have hle := Nat.div_le_div_right (c := cellsPerWord bits) (Nat.le_of_lt hx)
  split_ifs with hmod
  · omega
  · rw [not_not] at hmod
    rw [Nat.add_zero, Nat.div_lt_iff_lt_mul hpos, Nat.div_mul_cancel (Nat.dvd_of_mod_eq_zero hmod)]
    exact hx

section

variable {beginCell len : ℕ}

theorem seekEmptyCellRange_eq (hin : beginCell + len ≤ q.cells) (hcells : q.cells < 2 ^ 64) :
    q.seekEmptyCellRange beginCell len =
      q.seekLoop ((len + q.bitsPerCell - 1) / q.bitsPerCell)
        (toInt (beginCell / cellsPerWord q.bitsPerCell))
        (beginCell % cellsPerWord q.bitsPerCell * q.bitsPerCell) := by
  unfold seekEmptyCellRange
  exact if_neg (by omega)

theorem position_of_seeksExactly (h0 : 0 < q.bitsPerCell) (hb : q.bitsPerCell ≤ 8)
    (hin : beginCell + len ≤ q.cells) (hcells : q.cells < 2 ^ 64)
    (h : ∀ data : List (BitVec 64), data.length = totalQwords q.cells q.bitsPerCell →
      SeeksExactly { q with data := data } beginCell len) {x : ℕ} (hx : beginCell ≤ x)
    (hx' : x < beginCell + len) :
    q.bitsPerCell ∣ x % cellsPerWord q.bitsPerCell ∧ x / cellsPerWord q.bitsPerCell < 2 ^ 31 := by
  have hlen : (oneCell q.bitsPerCell (totalQwords q.cells q.bitsPerCell) x).length =
      totalQwords q.cells q.bitsPerCell := by
    rw [oneCell, length_setCellAt, List.length_replicate]
  obtain ⟨r, hr, hiff⟩ := h _ hlen
  have hr0 : r = false := by
    cases r with
    | false => rfl
    | true =>
      exact absurd (hiff.1 rfl x hx hx')
        (oneCell_ne h0 hb (index_lt_totalQwords h0 hb (by omega)))
  subst hr0
  rw [seekEmptyCellRange_eq (q := { q with data := oneCell _ _ x }) hin hcells] at hr
  obtain ⟨i, j, w, hi, hj, hw, hne⟩ := seekLoop_false hr (toInt_lt _) (Dvd.intro_left _ rfl)
  unfold wordAt at hw
  split_ifs at hw with hneg
  obtain ⟨h1, h2⟩ := oneCell_hit h0 hb hw hne
  rw [← h1, ← h2]
  exact ⟨hj, by omega⟩

theorem not_dvd_both {bits x : ℕ} (h1 : 1 < bits) (hb : bits ≤ 8)
    (hx : bits ∣ x % cellsPerWord bits) (hx' : bits ∣ (x + 1) % cellsPerWord bits) : False := by
  unfold cellsPerWord at hx hx'
  interval_cases bits <;> omega

theorem first_of_seeksExactly (h1 : 1 < q.bitsPerCell) (hb : q.bitsPerCell ≤ 8)
    (hin : beginCell + 1 ≤ q.cells) (hcells : q.cells < 2 ^ 64)
    (h : ∀ data : List (BitVec 64), data.length = totalQwords q.cells q.bitsPerCell →
      SeeksExactly { q with data := data } beginCell 1) :
    beginCell % cellsPerWord q.bitsPerCell = 0 := by
  have h0 : 0 < q.bitsPerCell := by omega
  have hidx := (position_of_seeksExactly h0 hb hin hcells h le_rfl (by omega)).2
  have hlen : (oneCell q.bitsPerCell (totalQwords q.cells q.bitsPerCell) beginCell).length =
      totalQwords q.cells q.bitsPerCell := by
    rw [oneCell, length_setCellAt, List.length_replicate]
  obtain ⟨r, hr, hiff⟩ := h _ hlen
  have hr1 : r ≠ true := fun hr => oneCell_ne h0 hb (index_lt_totalQwords h0 hb (by omega))
    (hiff.1 hr beginCell le_rfl (by omega))
  rw [seekEmptyCellRange_eq (q := { q with data := oneCell _ _ beginCell }) hin hcells,
    toInt_of_lt hidx] at hr
  dsimp only at hr
  rw [Nat.add_sub_cancel_left, Nat.div_self h0] at hr
  obtain ⟨w, -, hw, ⟨-, hne⟩ | ⟨-, hrest⟩⟩ := seekLoop_cases hr
  · rw [wordAt_natCast] at hw
    have hk := (oneCell_hit h0 hb hw hne).2
    by_contra hne0
    have := Nat.mul_lt_mul_of_pos_left h1 (Nat.pos_of_ne_zero hne0)
    omega
  · split_ifs at hrest
    · exact absurd (Option.some.inj hrest).symm hr1
    · exact absurd (Option.some.inj hrest).symm hr1

theorem seekFits_of_seeksExactly (h0 : 0 < q.bitsPerCell) (hb : q.bitsPerCell ≤ 8)
    (hin : beginCell + len ≤ q.cells) (hcells : q.cells < 2 ^ 64)
    (h : ∀ data : List (BitVec 64), data.length = totalQwords q.cells q.bitsPerCell →
      SeeksExactly { q with data := data } beginCell len) : SeekFits q.bitsPerCell beginCell len := by
  rcases Nat.eq_zero_or_pos len with hlen | hlen
  · exact Or.inl hlen
  right
  have hpos : 0 < cellsPerWord q.bitsPerCell := Nat.div_pos (by omega) h0
  have hidx := (position_of_seeksExactly h0 hb hin hcells h le_rfl (by omega)).2
  -- a bitmap without a cell in use
  obtain ⟨r, hr, hiff⟩ := h (List.replicate (totalQwords q.cells q.bitsPerCell) 0)
    List.length_replicate
  have hr1 : r = true := hiff.2 fun x _ _ => cellAt_replicate_zero _ _
  subst hr1
  rw [seekEmptyCellRange_eq (q := { q with data := List.replicate _ 0 }) hin hcells, toInt_of_lt hidx] at hr
  rcases Nat.lt_or_ge 1 q.bitsPerCell with hbits | hbits
  · have hlen1 : len = 1 := by
      by_contra hne
      exact not_dvd_both hbits hb
        (position_of_seeksExactly h0 hb hin hcells h le_rfl (by omega)).1
        (position_of_seeksExactly h0 hb hin hcells h (Nat.le_succ beginCell) (by omega)).1
    subst hlen1
    have hfirst := first_of_seeksExactly hbits hb hin hcells h
    refine ⟨Or.inr ⟨rfl, hfirst⟩, ?_⟩
    dsimp only at hr
    rw [Nat.add_sub_cancel_left, Nat.div_self h0, hfirst, Nat.zero_mul] at hr
    obtain ⟨w, -, -, ⟨hfalse, -⟩ | ⟨-, hrest⟩⟩ := seekLoop_cases hr
    · cases hfalse
    · rw [hfirst, Nat.zero_add, Nat.one_mul]
      dsimp only at hrest
      rw [Nat.zero_add] at hrest
      have hlast : q.bitsPerCell / cellsPerWord q.bitsPerCell =
          if q.bitsPerCell = cellsPerWord q.bitsPerCell then 1 else 0 := by
        unfold cellsPerWord
        generalize q.bitsPerCell = bits at h0 hb
        interval_cases bits <;> rfl
      rw [hlast]
      split_ifs at hrest ⊢ <;> omega
  · have hone : q.bitsPerCell = 1 := by omega
    have hcpw : cellsPerWord 1 = 64 := rfl
    refine ⟨Or.inl hone, ?_⟩
    have hlt := seekLoop_index_lt (q := { q with data := List.replicate _ 0 }) hone hr (by omega)
      (by rw [hone, hcpw]; omega)
    rw [hone, hcpw] at hlt ⊢
    omega

/-- The search answers the scan of the cells for every content exactly for these widths and ranges. -/
theorem seeksExactly_iff (h0 : 0 < q.bitsPerCell) (hb : q.bitsPerCell ≤ 8)
    (hin : beginCell + len ≤ q.cells) (hcells : q.cells < 2 ^ 64) :
    (∀ data : List (BitVec 64), data.length = totalQwords q.cells q.bitsPerCell →
      SeeksExactly { q with data := data } beginCell len) ↔ SeekFits q.bitsPerCell beginCell len := by
  refine ⟨seekFits_of_seeksExactly h0 hb hin hcells, fun hfits data hlen => ?_⟩
  unfold SeeksExactly
  rw [seekEmptyCellRange_eq (q := { q with data := data }) hin hcells]
  dsimp only
  rcases hfits with rfl | ⟨hkind, hindex⟩
  · rw [Nat.zero_add, Nat.div_eq_of_lt (by omega)]
    exact ⟨true, rfl, fun _ x h1 h2 => by omega, fun _ => rfl⟩
  rw [toInt_of_lt (lt_of_le_of_lt (Nat.le_add_right _ _) hindex)]
  rcases hkind with hone | ⟨rfl, hfirst⟩
  · have hcpw : cellsPerWord 1 = 64 := rfl
    have hsteps : (len + 1 - 1) / 1 = len := by omega
    have hwords : q.cells ≤ data.length * 64 := by
      rw [hlen, hone, totalQwords, hcpw]
      split_ifs <;> omega
    rw [hone, hcpw] at hindex
    obtain ⟨r, hr, hiff⟩ := seekLoop_spec (q := { q with data := data }) hone
      (show beginCell % 64 < 64 by omega)
      (show beginCell / 64 * 64 + beginCell % 64 + len ≤ data.length * 64 by omega) (by omega)
    rw [Nat.div_add_mod' beginCell 64] at hiff
    obtain ⟨jso, cells, bits, states, metaStart, start, old⟩ := q
    dsimp only at hone hr hiff ⊢
    subst hone
    rw [hcpw, hsteps, Nat.mul_one]
    exact ⟨r, hr, hiff⟩
  · have hidx := index_lt_totalQwords h0 hb (show beginCell < q.cells by omega)
    rw [← hlen] at hidx
    have hw : QwordVector64Cell.wordAt { q with data := data }
        (beginCell / cellsPerWord q.bitsPerCell : ℕ) =
          some data[beginCell / cellsPerWord q.bitsPerCell] := by
      rw [wordAt_natCast, List.getElem?_eq_getElem hidx]
    have hcell : cellAt q.bitsPerCell data beginCell =
        readCell q.bitsPerCell data[beginCell / cellsPerWord q.bitsPerCell] 0 := by
      rw [cellAt, hfirst, List.getElem?_eq_getElem hidx, Option.getD_some]
    have htest := readCell_eq_zero_iff hb data[beginCell / cellsPerWord q.bitsPerCell] 0
    rw [← hcell] at htest
    rw [Nat.add_sub_cancel_left, Nat.div_self h0, hfirst, Nat.zero_mul]
    have hrange : (∀ x, beginCell ≤ x → x < beginCell + 1 → cellAt q.bitsPerCell data x = 0) ↔
        cellAt q.bitsPerCell data beginCell = 0 := by
      constructor
      · exact fun h => h beginCell le_rfl (by omega)
      · intro h x h1 h2
        rwa [show x = beginCell by omega]
    by_cases hz : cellAt q.bitsPerCell data beginCell = 0
    · refine ⟨true, ?_, fun _ => hrange.2 hz, fun _ => rfl⟩
      rw [seekLoop_miss (by dsimp only; omega) hw (htest.1 hz), Nat.zero_add]
      split_ifs with hend hov
      · rfl
      · rw [hfirst, Nat.zero_add, Nat.one_mul] at hindex
        dsimp only at hend
        rw [← hend, Nat.div_self h0] at hindex
        rw [← hend] at hov
        omega
      · rfl
    · refine ⟨false, seekLoop_hit (by dsimp only; omega) hw fun h => hz (htest.2 h), ?_, ?_⟩
      · intro h
        cases h
      · intro h
        exact absurd (hrange.1 h) hz

end

/-- A bitmap of a hundred cells of one bit: a range across its words. -/
theorem seeksExactly_oneBit :
    (∀ data : List (BitVec 64), data.length = totalQwords 100 1 →
      SeeksExactly { mk' (JudySeekOptimizer.init 100 0) 100 1 2 0 0 with data := data } 60 30) ↔
    SeekFits 1 60 30 :=
  seeksExactly_iff (q := mk' (JudySeekOptimizer.init 100 0) 100 1 2 0 0) (by decide) (by decide)
    (by decide) (by decide)

/-- A bitmap with four bits for each cell, as the allocator has: the second cell of a range is
overlooked. -/
theorem not_seeksExactly_fourBits :
    ¬ SeeksExactly { mk' (JudySeekOptimizer.init 16 0) 16 4 16 0 0 with data := [0x10] } 0 2 := by
  rintro ⟨r, hr, hiff⟩
  have htrue : r = true := (Option.some.inj hr).symm
  have hcell := hiff.1 htrue 1 (by decide) (by decide)
  revert hcell
  decide

end QwordVector64Cell

end DssSdk.BlockAllocator
