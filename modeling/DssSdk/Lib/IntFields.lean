import DssSdk.Lib.ByteMemory

/-!
# Signed fields in memory

The integers of a C struct: `w` bytes in little-endian order, read as a signed number.

* `leBytes`: the bytes of a number;
* `putInt`, `getInt`: a signed field in a memory;
* `getInt_putInt`: what is read is the number modulo `256 ^ w`, with its sign;
* `getInt_bounds`: the numbers of a field;
* `getInt_putBytes_of_disjoint`, `getInt_putInt_of_disjoint`: writes elsewhere.
-/

namespace ByteMemory

/-- The lowest `w` bytes of a number, the lowest first. -/
def leBytes : ℕ → ℕ → List UInt8
  | 0, _ => []
  | w + 1, n => UInt8.ofNat n :: leBytes w (n / 256)

/-- Write a signed field of `w` bytes. -/
def putInt (m : Memory) (a w : ℕ) (x : ℤ) : Memory := putBytes m a (leBytes w (x % 256 ^ w).toNat)

/-- Read a signed field of `w` bytes. -/
@[irreducible] def getInt (m : Memory) (a w : ℕ) : ℤ := (ofBytes (getBytes m a w) : ℤ).bmod (256 ^ w)

variable {m : Memory} {a b n v w : ℕ} {x : ℤ} {bs : List UInt8}

@[simp] theorem length_leBytes (w n : ℕ) : (leBytes w n).length = w := by
  induction w generalizing n with
  | zero => rfl
  | succ w ih => simp [leBytes, ih]

theorem ofBytes_leBytes (w n : ℕ) : ofBytes (leBytes w n) = n % 256 ^ w := by
  induction w generalizing n with
  | zero => simp [leBytes, ofBytes, Nat.mod_one]
  | succ w ih =>
    have hcons : ofBytes (leBytes (w + 1) n) = n % 256 + 256 * ofBytes (leBytes w (n / 256)) := rfl
    rw [hcons, ih, pow_succ', Nat.mod_mul]

theorem getBytes_putBytes {k : ℕ} (h : bs.length = k) : getBytes (putBytes m a bs) a k = bs := by
  subst h
  exact getBytes_putBytes_self m a bs

/-- A field is read back modulo its width. -/
theorem getInt_putInt (m : Memory) (a w : ℕ) (x : ℤ) :
    getInt (putInt m a w x) a w = x.bmod (256 ^ w) := by
  have hpos : (0 : ℤ) < 256 ^ w := by positivity
  have hnonneg : 0 ≤ x % 256 ^ w := Int.emod_nonneg _ hpos.ne'
  have hlt : x % 256 ^ w < 256 ^ w := Int.emod_lt_of_pos _ hpos
  have hsmall : (x % 256 ^ w).toNat < 256 ^ w := by
    rw [← Nat.cast_lt (α := ℤ), Int.toNat_of_nonneg hnonneg]
    exact_mod_cast hlt
  unfold getInt putInt
  rw [getBytes_putBytes (length_leBytes _ _), ofBytes_leBytes, Nat.mod_eq_of_lt hsmall,
    Int.toNat_of_nonneg hnonneg]
  simpa using Int.emod_bmod x (256 ^ w)

/-- A field holds a signed number of its width. -/
theorem getInt_bounds (m : Memory) (a w : ℕ) :
    -((256 ^ w : ℕ) / 2 : ℤ) ≤ getInt m a w ∧ getInt m a w < ((256 ^ w : ℕ) + 1) / 2 := by
  have hpos : 0 < 256 ^ w := by positivity
  unfold getInt
  exact ⟨Int.le_bmod hpos, Int.bmod_lt hpos⟩

theorem getInt_putBytes_of_disjoint (h : b + w ≤ a ∨ a + bs.length ≤ b) :
    getInt (putBytes m a bs) b w = getInt m b w := by
  unfold getInt
  rw [getBytes_putBytes_of_disjoint h]

theorem getInt_putInt_of_disjoint (h : b + w ≤ a ∨ a + v ≤ b) :
    getInt (putInt m a v x) b w = getInt m b w :=
  getInt_putBytes_of_disjoint (by rwa [length_leBytes])

theorem getBytes_putInt_of_disjoint (h : b + n ≤ a ∨ a + v ≤ b) :
    getBytes (putInt m a v x) b n = getBytes m b n :=
  getBytes_putBytes_of_disjoint (by rwa [length_leBytes])

end ByteMemory
