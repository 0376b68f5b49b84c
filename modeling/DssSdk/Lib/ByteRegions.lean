import DssSdk.Lib.IntFields

/-!
# Regions of a memory

What is written into a memory piece by piece, and read back as a whole.

* `getBytes_add`: a region in two parts;
* `putBytes_append`, `putBytes_overwrite`: writes one behind the other, and over the first part;
* `getBytes_extend`: a region that grows at its end;
* `getBytes_patch`: a region with a part that is written again.
-/

namespace ByteMemory

variable {m : Memory} {a n : ℕ} {xs ys zs : List UInt8}

/-- A region in two parts. -/
theorem getBytes_add (m : Memory) (a n k : ℕ) :
    getBytes m a (n + k) = getBytes m a n ++ getBytes m (a + n) k := by
  simp only [getBytes, List.range_add, List.map_append, List.map_map, Function.comp_def, Nat.add_assoc]

/-- Two writes one behind the other. -/
theorem putBytes_append (m : Memory) (a : ℕ) (xs ys : List UInt8) :
    putBytes (putBytes m a xs) (a + xs.length) ys = putBytes m a (xs ++ ys) := by
  funext i
  by_cases hx : i < a + xs.length
  · rw [putBytes_of_disjoint (Or.inl hx)]
    unfold putBytes
    split_ifs with ha
    · rw [List.getElem?_append_left (by omega)]
    · rfl
  · have ha : a ≤ i := by omega
    have hax : a + xs.length ≤ i := by omega
    simp only [putBytes, ha, hax, if_true]
    rw [List.getElem?_append_right (by omega), List.getElem?_eq_none (l := xs) (by omega),
      Option.getD_none, Nat.sub_add_eq]

/-- The first part of a write is written again. -/
theorem putBytes_overwrite (m : Memory) (a : ℕ) (h : ys.length = xs.length) :
    putBytes (putBytes m a (xs ++ zs)) a ys = putBytes m a (ys ++ zs) := by
  funext i
  unfold putBytes
  split_ifs with ha
  · by_cases hx : i - a < ys.length
    · rw [List.getElem?_append_left hx, List.getElem?_eq_getElem hx]
      rfl
    · rw [List.getElem?_append_right (by omega), List.getElem?_append_right (by omega),
        List.getElem?_eq_none (l := ys) (by omega), Option.getD_none, h]
  · rfl

/-- A region that grows at its end. -/
theorem getBytes_extend (m : Memory) (a n : ℕ) (ys : List UInt8) :
    getBytes (putBytes m (a + n) ys) a (n + ys.length) = getBytes m a n ++ ys := by
  rw [getBytes_add, getBytes_putBytes_self, getBytes_putBytes_of_disjoint (Or.inl le_rfl)]

/-- A part of a region is written again. -/
theorem getBytes_patch (h : getBytes m a n = xs ++ ys ++ zs) {bs : List UInt8}
    (hlen : bs.length = ys.length) :
    getBytes (putBytes m (a + xs.length) bs) a n = xs ++ bs ++ zs := by
  have hn : n = xs.length + ys.length + zs.length := by
    rw [← length_getBytes m a n, h, List.length_append, List.length_append]
  subst hn
  rw [getBytes_add, getBytes_add] at h ⊢
  obtain ⟨hxy, hz⟩ := List.append_inj h (by simp)
  obtain ⟨hx, -⟩ := List.append_inj hxy (by simp)
  rw [getBytes_putBytes_of_disjoint (Or.inl le_rfl), hx, ← hlen, getBytes_putBytes_self,
    getBytes_putBytes_of_disjoint (Or.inr (by omega)), hlen, hz]

end ByteMemory
