import Mathlib.Tactic

/-!
# Memory in cells

A memory that is written in cells: a cell starts at an address, takes some bytes and has a
content. A write puts a cell and destroys every cell that it overlaps.

* `write`, `modify`, `content`: put a cell, change one in place, read one;
* `write_of_disjoint`: a cell survives a write that does not overlap it.
-/

namespace CellMemory

variable {α : Type}

/-- The length and the content of the cell that starts at an address. -/
abbrev Memory (α : Type) := ℕ → Option (ℕ × α)

/-- The cells at `a` and `b` share no byte. -/
def Disjoint (a n b k : ℕ) : Prop := a + n ≤ b ∨ b + k ≤ a

instance (a n b k : ℕ) : Decidable (Disjoint a n b k) :=
  inferInstanceAs (Decidable (a + n ≤ b ∨ b + k ≤ a))

/-- Put a cell of `n` bytes at `a`. -/
def write (mem : Memory α) (a n : ℕ) (x : α) : Memory α := fun b =>
  if b = a then some (n, x) else (mem b).filter fun c => Disjoint b c.1 a n

/-- Change the content of the cell that starts at `a`. -/
def modify (mem : Memory α) (a : ℕ) (f : α → α) : Memory α := fun b =>
  if b = a then (mem b).map fun c => (c.1, f c.2) else mem b

@[simp] theorem write_self (mem : Memory α) (a n : ℕ) (x : α) : write mem a n x a = some (n, x) :=
  if_pos rfl

/-- A cell that a write does not overlap. -/
theorem write_of_disjoint {mem : Memory α} {a n b k : ℕ} {x y : α} (h : mem b = some (k, y))
    (hd : Disjoint b k a n) (hne : b ≠ a) : write mem a n x b = some (k, y) := by
  simp only [write, if_neg hne, h, Option.filter_some, decide_eq_true hd, if_true]

@[simp] theorem modify_self (mem : Memory α) (a : ℕ) (f : α → α) :
    modify mem a f a = (mem a).map fun c => (c.1, f c.2) := if_pos rfl

theorem modify_of_ne {mem : Memory α} {a b : ℕ} {f : α → α} (h : b ≠ a) :
    modify mem a f b = mem b := if_neg h

end CellMemory
