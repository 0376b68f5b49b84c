import Mathlib.Tactic

/-!
# Bytes as groups of six bits

Three bytes are four sextets, high bits first; one or two bytes at the end are two or three sextets
whose last low bits are zero.

* `sextets`: the groups of some bytes;
* `Reader`: takes one sextet after another and keeps the bits that are not yet a byte;
* `Reader.foldl_feed_sextets`: what it has read at the end.
-/

namespace Sextets

/-! ### Groups of four -/

/-- The first sextet of three bytes. -/
def first (a : BitVec 8) : BitVec 6 := (a >>> 2).setWidth 6

/-- The second one. -/
def second (a b : BitVec 8) : BitVec 6 := ((a &&& 0x03#8) <<< 4 ||| b >>> 4).setWidth 6

/-- The third one. -/
def third (b c : BitVec 8) : BitVec 6 := ((b &&& 0x0F#8) <<< 2 ||| c >>> 6).setWidth 6

/-- The fourth one. -/
def fourth (c : BitVec 8) : BitVec 6 := (c &&& 0x3F#8).setWidth 6

/-- The sextets of some bytes. -/
def sextets : List (BitVec 8) → List (BitVec 6)
  | a :: b :: c :: rest => first a :: second a b :: third b c :: fourth c :: sextets rest
  | [a, b] => [first a, second a b, third b 0]
  | [a] => [first a, second a 0]
  | [] => []

/-- The first byte of four sextets. -/
def high (p q : BitVec 6) : BitVec 8 := p.setWidth 8 <<< 2 ||| q.setWidth 8 >>> 4

/-- The second one. -/
def middle (q r : BitVec 6) : BitVec 8 := q.setWidth 8 <<< 4 ||| r.setWidth 8 >>> 2

/-- The third one. -/
def low (r s : BitVec 6) : BitVec 8 := r.setWidth 8 <<< 6 ||| s.setWidth 8

variable {a b c : BitVec 8} {p q r s : BitVec 6}

@[simp] theorem high_first : high (first a) (second a b) = a := by
  apply BitVec.eq_of_getLsbD_eq
  intro i hi
  unfold high first second
  interval_cases i <;> simp

@[simp] theorem middle_second : middle (second a b) (third b c) = b := by
  apply BitVec.eq_of_getLsbD_eq
  intro i hi
  unfold middle second third
  interval_cases i <;> simp

@[simp] theorem low_third : low (third b c) (fourth c) = c := by
  apply BitVec.eq_of_getLsbD_eq
  intro i hi
  unfold low third fourth
  interval_cases i <;> simp

theorem sextets_append {x y : List (BitVec 8)} (h : 3 ∣ x.length) :
    sextets (x ++ y) = sextets x ++ sextets y := by
  induction x using sextets.induct with
  | case1 a b c rest ih =>
    have hrest : 3 ∣ rest.length := by
      simp only [List.length_cons] at h
      omega
    simp [sextets, ih hrest]
  | case2 a b => simp at h
  | case3 a => simp at h
  | case4 => rfl

theorem length_sextets (x : List (BitVec 8)) :
    (sextets x).length = 4 * (x.length / 3) + if x.length % 3 = 0 then 0 else x.length % 3 + 1 := by
  induction x using sextets.induct with
  | case1 a b c rest ih =>
    simp only [sextets, List.length_cons, ih]
    have hmod : (rest.length + 1 + 1 + 1) % 3 = rest.length % 3 := by omega
    rw [hmod]
    omega
  | case2 a b => simp [sextets]
  | case3 a => simp [sextets]
  | case4 => rfl

/-! ### One sextet after another -/

/-- The bytes read so far, and the bits of the next one. -/
structure Reader where
  out : List (BitVec 8)
  left : BitVec 32
  bits : ℕ

namespace Reader

/-- The next sextet comes in at the low end. -/
def feed (st : Reader) (v : BitVec 6) : Reader :=
  let left := st.left <<< 6 ||| v.setWidth 32
  if 8 ≤ st.bits + 6 then
    { out := st.out ++ [(left >>> (st.bits + 6 - 8) &&& 0xFF#32).setWidth 8]
      left := left &&& (1#32 <<< (st.bits + 6 - 8) - 1#32)
      bits := st.bits + 6 - 8 }
  else { st with left, bits := st.bits + 6 }

variable {out : List (BitVec 8)}

theorem feed_of_le {left : BitVec 32} {n : ℕ} (h : 2 ≤ n) :
    feed ⟨out, left, n⟩ p =
      ⟨out ++ [((left <<< 6 ||| p.setWidth 32) >>> (n - 2) &&& 0xFF#32).setWidth 8],
        (left <<< 6 ||| p.setWidth 32) &&& (1#32 <<< (n - 2) - 1#32), n - 2⟩ := by
  rw [feed, if_pos (show 8 ≤ n + 6 by omega), show n + 6 - 8 = n - 2 by omega]

theorem feed_zero : feed ⟨out, 0#32, 0⟩ p = ⟨out, p.setWidth 32, 6⟩ := by simp [feed]

theorem feed_six :
    feed ⟨out, p.setWidth 32, 6⟩ q = ⟨out ++ [high p q], (q &&& 0x0F#6).setWidth 32, 4⟩ := by
  have hbyte : ((p.setWidth 32 <<< 6 ||| q.setWidth 32) >>> 4 &&& 0xFF#32).setWidth 8 = high p q := by
    apply BitVec.eq_of_getLsbD_eq
    intro i hi
    unfold high
    interval_cases i <;> simp
  have hleft : (p.setWidth 32 <<< 6 ||| q.setWidth 32) &&& 0x0F#32 = (q &&& 0x0F#6).setWidth 32 := by
    apply BitVec.eq_of_getLsbD_eq
    intro i hi
    interval_cases i <;> simp
  rw [feed_of_le (by decide), show 6 - 2 = 4 from rfl, show 1#32 <<< 4 - 1#32 = 0x0F#32 from rfl,
    hbyte, hleft]

theorem feed_four :
    feed ⟨out, (q &&& 0x0F#6).setWidth 32, 4⟩ r =
      ⟨out ++ [middle q r], (r &&& 0x03#6).setWidth 32, 2⟩ := by
  have hbyte : (((q &&& 0x0F#6).setWidth 32 <<< 6 ||| r.setWidth 32) >>> 2 &&& 0xFF#32).setWidth 8 =
      middle q r := by
    apply BitVec.eq_of_getLsbD_eq
    intro i hi
    unfold middle
    interval_cases i <;> simp
  have hleft : ((q &&& 0x0F#6).setWidth 32 <<< 6 ||| r.setWidth 32) &&& 0x03#32 =
      (r &&& 0x03#6).setWidth 32 := by
    apply BitVec.eq_of_getLsbD_eq
    intro i hi
    interval_cases i <;> simp
  rw [feed_of_le (by decide), show 4 - 2 = 2 from rfl, show 1#32 <<< 2 - 1#32 = 0x03#32 from rfl,
    hbyte, hleft]

theorem feed_two :
    feed ⟨out, (r &&& 0x03#6).setWidth 32, 2⟩ s = ⟨out ++ [low r s], 0#32, 0⟩ := by
  have hbyte : (((r &&& 0x03#6).setWidth 32 <<< 6 ||| s.setWidth 32) >>> 0 &&& 0xFF#32).setWidth 8 =
      low r s := by
    apply BitVec.eq_of_getLsbD_eq
    intro i hi
    unfold low
    interval_cases i <;> simp
  rw [feed_of_le (by decide), show 2 - 2 = 0 from rfl, show 1#32 <<< 0 - 1#32 = 0#32 from rfl, hbyte,
    BitVec.and_zero]

/-- What a reader has of some bytes after all of their sextets. -/
theorem foldl_feed_sextets (x : List (BitVec 8)) :
    (sextets x).foldl feed ⟨out, 0#32, 0⟩ = ⟨out ++ x, 0#32, 2 * ((3 - x.length % 3) % 3)⟩ := by
  induction x using sextets.induct generalizing out with
  | case1 a b c rest ih =>
    have hmod : (rest.length + 1 + 1 + 1) % 3 = rest.length % 3 := by omega
    simp only [sextets, List.foldl_cons, feed_zero, feed_six, feed_four, feed_two, ih, high_first,
      middle_second, low_third, List.length_cons, hmod]
    simp
  | case2 a b =>
    have hleft : third b 0 &&& 0x03#6 = 0#6 := by
      apply BitVec.eq_of_getLsbD_eq
      intro i hi
      unfold third
      interval_cases i <;> simp
    simp only [sextets, List.foldl_cons, List.foldl_nil, feed_zero, feed_six, feed_four, hleft,
      high_first, middle_second]
    simp
  | case3 a =>
    have hleft : second a 0 &&& 0x0F#6 = 0#6 := by
      apply BitVec.eq_of_getLsbD_eq
      intro i hi
      unfold second
      interval_cases i <;> simp
    simp only [sextets, List.foldl_cons, List.foldl_nil, feed_zero, feed_six, hleft, high_first]
    simp
  | case4 => simp [sextets]

end Reader

end Sextets
