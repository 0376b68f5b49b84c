import Mathlib.Tactic

/-!
# Memory in bytes

A memory of bytes with the transfers of a C program: a copy of a byte string, and a word of 32 bits
in little-endian order.

* `putBytes`, `getBytes`: a copy into the memory and out of it;
* `putWord`, `getWord`: a word in four bytes;
* `getBytes_putBytes_of_disjoint`: what a copy elsewhere leaves;
* `round4`: a length rounded up to words;
* `Encodes`: strings one after the other, each with its size before it and filled up to words;
* `Encodes.congr`, `encodes_append`, `encodes_copy`: what the layout depends on, and its copies.
-/

namespace ByteMemory

/-- The bytes of a memory by address. -/
abbrev Memory := ℕ → UInt8

/-- Copy a byte string to address `a`. -/
def putBytes (m : Memory) (a : ℕ) (bs : List UInt8) : Memory := fun i =>
  if a ≤ i then (bs[i - a]?).getD (m i) else m i

/-- The `n` bytes at address `a`. -/
def getBytes (m : Memory) (a n : ℕ) : List UInt8 := (List.range n).map fun i => m (a + i)

/-- The bytes of a word, the lowest first. -/
def wordBytes (n : ℕ) : List UInt8 :=
  [UInt8.ofNat n, UInt8.ofNat (n / 2 ^ 8), UInt8.ofNat (n / 2 ^ 16), UInt8.ofNat (n / 2 ^ 24)]

/-- The number that the bytes of a word stand for. -/
def ofBytes (bs : List UInt8) : ℕ := bs.foldr (fun b n => b.toNat + 256 * n) 0

def putWord (m : Memory) (a n : ℕ) : Memory := putBytes m a (wordBytes n)

def getWord (m : Memory) (a : ℕ) : ℕ := ofBytes (getBytes m a 4)

/-- A number of bytes rounded up to words. -/
def round4 (n : ℕ) : ℕ := (n + 3) / 4 * 4

variable {m : Memory} {a b n : ℕ} {bs : List UInt8}

@[simp] theorem length_getBytes (m : Memory) (a n : ℕ) : (getBytes m a n).length = n := by
  simp [getBytes]

@[simp] theorem length_wordBytes (n : ℕ) : (wordBytes n).length = 4 := rfl

@[simp] theorem getBytes_putBytes_self (m : Memory) (a : ℕ) (bs : List UInt8) :
    getBytes (putBytes m a bs) a bs.length = bs := by
  apply List.ext_getElem
  · simp
  · intro i h₁ h₂
    simp [getBytes, putBytes, List.getElem?_eq_getElem h₂]

@[simp] theorem putBytes_nil (m : Memory) (a : ℕ) : putBytes m a [] = m := by
  funext i
  unfold putBytes
  split_ifs
  · rfl
  · rfl

theorem putBytes_of_disjoint (h : b < a ∨ a + bs.length ≤ b) : putBytes m a bs b = m b := by
  unfold putBytes
  split
  · rw [List.getElem?_eq_none (by omega), Option.getD_none]
  · rfl

theorem getBytes_putBytes_of_disjoint (h : b + n ≤ a ∨ a + bs.length ≤ b) :
    getBytes (putBytes m a bs) b n = getBytes m b n := by
  unfold getBytes
  apply List.map_congr_left
  intro i hi
  rw [List.mem_range] at hi
  exact putBytes_of_disjoint (by omega)

theorem getBytes_putWord_of_disjoint {w : ℕ} (h : b + n ≤ a ∨ a + 4 ≤ b) :
    getBytes (putWord m a w) b n = getBytes m b n :=
  getBytes_putBytes_of_disjoint (by rwa [length_wordBytes])

theorem getWord_putWord_self {w : ℕ} (h : w < 2 ^ 32) : getWord (putWord m a w) a = w := by
  have hget : getBytes (putWord m a w) a 4 = wordBytes w := getBytes_putBytes_self m a (wordBytes w)
  rw [getWord, hget]
  simp only [ofBytes, wordBytes, List.foldr_cons, List.foldr_nil, UInt8.toNat_ofNat']
  omega

theorem mem_getBytes {x : UInt8} : x ∈ getBytes m a n ↔ ∃ i < n, m (a + i) = x := by
  simp [getBytes]

theorem byte_of_getWord_lt (h : getWord m a < 256) : m (a + 1) = 0 := by
  have hword : getWord m a = (m a).toNat + 256 * ((m (a + 1)).toNat + 256 * ((m (a + 2)).toNat +
      256 * ((m (a + 3)).toNat + 256 * 0))) := rfl
  rw [hword] at h
  apply UInt8.toNat_inj.1
  show (m (a + 1)).toNat = 0
  omega

theorem le_round4 (n : ℕ) : n ≤ round4 n := by
  unfold round4
  omega

/-! ### Strings with their sizes -/

/-- The bytes of a string with its size. -/
def unitSize (k : List UInt8) : ℕ := 4 + round4 k.length

/-- The strings in a memory, one after the other from an address on. -/
def Encodes (m : Memory) : ℕ → List (List UInt8) → Prop
  | _, [] => True
  | a, k :: ks =>
    getWord m a = k.length ∧ getBytes m (a + 4) k.length = k ∧ Encodes m (a + unitSize k) ks

instance decidableEncodes (m : Memory) : ∀ a ks, Decidable (Encodes m a ks)
  | _, [] => isTrue trivial
  | a, k :: ks =>
    have : Decidable (Encodes m (a + unitSize k) ks) := decidableEncodes m _ ks
    inferInstanceAs (Decidable (_ ∧ _ ∧ _))

/-- The bytes of strings with their sizes. -/
def encodedSize (ks : List (List UInt8)) : ℕ := (ks.map unitSize).sum

@[simp] theorem encodedSize_nil : encodedSize [] = 0 := rfl

@[simp] theorem encodedSize_cons (k : List UInt8) (ks : List (List UInt8)) :
    encodedSize (k :: ks) = unitSize k + encodedSize ks := by
  simp [encodedSize]

@[simp] theorem encodedSize_append (ks ks' : List (List UInt8)) :
    encodedSize (ks ++ ks') = encodedSize ks + encodedSize ks' := by
  simp [encodedSize]

theorem length_le_encodedSize (ks : List (List UInt8)) : ks.length ≤ encodedSize ks := by
  induction ks with
  | nil => exact le_rfl
  | cons k ks ih =>
    rw [List.length_cons, encodedSize_cons, unitSize]
    omega

/-- The layout depends on its own bytes only. -/
theorem Encodes.congr {m' : Memory} {ks : List (List UInt8)} (h : Encodes m a ks)
    (hm : ∀ i, a ≤ i → i < a + encodedSize ks → m' i = m i) : Encodes m' a ks := by
  induction ks generalizing a with
  | nil => trivial
  | cons k ks ih =>
    obtain ⟨hlen, hkey, hrest⟩ := h
    rw [encodedSize_cons] at hm
    have hunit : 4 + k.length ≤ unitSize k := Nat.add_le_add_left (le_round4 k.length) 4
    have hget : ∀ b n, a ≤ b → b + n ≤ a + unitSize k → getBytes m' b n = getBytes m b n := by
      intro b n hb hn
      refine List.map_congr_left fun i hi => hm (b + i) (by omega) ?_
      rw [List.mem_range] at hi
      omega
    refine ⟨?_, ?_, ih hrest fun i h₁ h₂ => hm i (by omega) (by omega)⟩
    · rw [getWord, hget a 4 le_rfl (by omega)]
      exact hlen
    · rw [hget (a + 4) k.length (by omega) (by omega)]
      exact hkey

/-- Strings behind others. -/
theorem encodes_append {ks ks' : List (List UInt8)} :
    Encodes m a (ks ++ ks') ↔ Encodes m a ks ∧ Encodes m (a + encodedSize ks) ks' := by
  induction ks generalizing a with
  | nil => simp [Encodes]
  | cons k ks ih => simp only [List.cons_append, Encodes, ih, encodedSize_cons, Nat.add_assoc, and_assoc]

theorem getBytes_putBytes_getBytes {m' : Memory} {N i : ℕ} (h : i + n ≤ N) :
    getBytes (putBytes m' b (getBytes m a N)) (b + i) n = getBytes m (a + i) n := by
  unfold getBytes
  refine List.map_congr_left fun j hj => ?_
  rw [List.mem_range] at hj
  have hlt : i + j < N := by omega
  simp only [putBytes, Nat.add_assoc, Nat.le_add_right, if_true, Nat.add_sub_cancel_left]
  rw [List.getElem?_map, List.getElem?_range hlt]
  rfl

/-- A copy of the bytes of a string and its size. -/
theorem encodes_copy {m' : Memory} {k : List UInt8} (h : Encodes m a [k]) :
    Encodes (putBytes m' b (getBytes m a (unitSize k))) b [k] := by
  obtain ⟨hlen, hkey, -⟩ := h
  have hunit : 4 + k.length ≤ unitSize k := Nat.add_le_add_left (le_round4 k.length) 4
  refine ⟨?_, ?_, trivial⟩
  · have hword : getBytes (putBytes m' b (getBytes m a (unitSize k))) (b + 0) 4 = getBytes m (a + 0) 4 :=
      getBytes_putBytes_getBytes (by omega)
    rw [Nat.add_zero, Nat.add_zero] at hword
    rw [getWord, hword]
    exact hlen
  · rw [getBytes_putBytes_getBytes hunit]
    exact hkey

end ByteMemory
