import Mathlib.Tactic

/-!
# Rings of cells

Entries of a queue stand in consecutive cells of a ring of `cap` cells, from a start cell on.

* `contents f cap i n`: the `n` cells from cell `i` on;
* `contents_cons`, `contents_concat`: the first and the last of them;
* `contents_update_end`, `contents_update_start`: writing behind the last one, and over the first.
-/

namespace Ring

variable {β : Type} {f g : ℕ → β} {cap i n : ℕ}

/-- The `n` cells from cell `i` on. -/
def contents (f : ℕ → β) (cap i n : ℕ) : List β := (List.range n).map fun k => f ((i + k) % cap)

@[simp] theorem contents_zero : contents f cap i 0 = [] := rfl

@[simp] theorem length_contents : (contents f cap i n).length = n := by simp [contents]

theorem contents_concat :
    contents f cap i (n + 1) = contents f cap i n ++ [f ((i + n) % cap)] := by
  simp [contents, List.range_succ]

theorem contents_cons :
    contents f cap i (n + 1) = f (i % cap) :: contents f cap ((i + 1) % cap) n := by
  rw [contents, List.range_succ_eq_map, List.map_cons, List.map_map, Nat.add_zero]
  congr 1
  apply List.map_congr_left
  intro k _
  rw [Function.comp_apply, Nat.mod_add_mod, Nat.succ_eq_add_one, Nat.add_assoc, Nat.add_comm 1 k]

theorem contents_congr (h : ∀ k < n, f ((i + k) % cap) = g ((i + k) % cap)) :
    contents f cap i n = contents g cap i n := by
  apply List.map_congr_left
  intro k hk
  exact h k (List.mem_range.1 hk)

theorem place_inj {k l : ℕ} (hk : k < cap) (hl : l < cap) (h : (i + k) % cap = (i + l) % cap) :
    k = l :=
  Nat.ModEq.eq_of_lt_of_lt (Nat.ModEq.add_left_cancel' i h) hk hl

/-- Writing behind the last entry. -/
theorem contents_update_end (hn : n < cap) (b : β) :
    contents (Function.update f ((i + n) % cap) b) cap i (n + 1) = contents f cap i n ++ [b] := by
  rw [contents_concat, Function.update_self]
  congr 1
  apply contents_congr
  intro k hk
  refine Function.update_of_ne (fun h => ?_) _ _
  exact hk.ne (place_inj (hk.trans hn) hn h)

/-- Writing over the first entry, once it is taken out. -/
theorem contents_update_start (hi : i < cap) (hn : n < cap) (b : β) :
    contents (Function.update f i b) cap ((i + 1) % cap) n =
      contents f cap ((i + 1) % cap) n := by
  apply contents_congr
  intro k hk
  refine Function.update_of_ne (fun h => ?_) _ _
  rw [Nat.mod_add_mod, Nat.add_assoc, Nat.add_comm 1 k] at h
  have hself : (i + (k + 1)) % cap = (i + 0) % cap := by
    rw [h, Nat.add_zero, Nat.mod_eq_of_lt hi]
  have := place_inj (by omega) (by omega) hself
  omega

end Ring
