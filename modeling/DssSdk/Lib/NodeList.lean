import Mathlib.Data.List.Nodup
import Mathlib.Tactic

/-!
# Lists with references to their nodes

A list of nodes, each with its address. A reference stays valid until its node is erased, wherever the
node stands; `none` stands for the use of a reference to no node.

* `deref`, `erase`, `splice`: read a node, take it out, move it to the front;
* `deref_of_mem`, `erase_of_mem`, `splice_of_mem`: the operations on a node of the list.
-/

namespace NodeList

variable {α : Type}

/-- The element of a node. -/
def deref (l : List (ℕ × α)) (a : ℕ) : Option α := (l.find? fun n => n.1 = a).map Prod.snd

/-- `erase`. -/
def erase (l : List (ℕ × α)) (a : ℕ) : Option (List (ℕ × α)) :=
  (deref l a).map fun _ => l.filter fun n => n.1 ≠ a

/-- `splice` of one node to the front of its list. -/
def splice (l : List (ℕ × α)) (a : ℕ) : Option (List (ℕ × α)) :=
  (deref l a).map fun x => (a, x) :: l.filter fun n => n.1 ≠ a

variable {l : List (ℕ × α)} {a : ℕ} {x : α}

/-- No two nodes have one address. -/
def Distinct (l : List (ℕ × α)) : Prop := (l.map Prod.fst).Nodup

theorem Distinct.filter (h : Distinct l) (p : ℕ × α → Bool) : Distinct (l.filter p) :=
  h.sublist (List.filter_sublist.map _)

theorem Distinct.tail {n : ℕ × α} (h : Distinct (n :: l)) : Distinct l := (List.nodup_cons.1 h).2

theorem deref_of_mem (h : Distinct l) (hx : (a, x) ∈ l) : deref l a = some x := by
  induction l with
  | nil => cases hx
  | cons n l ih =>
    rw [deref, List.find?_cons]
    by_cases hn : n.1 = a
    · rw [decide_eq_true hn]
      rcases List.mem_cons.1 hx with rfl | hx
      · rfl
      · exact absurd (List.mem_map_of_mem hx) (hn ▸ (List.nodup_cons.1 h).1)
    · rw [decide_eq_false hn]
      rcases List.mem_cons.1 hx with rfl | hx
      · exact absurd rfl hn
      · exact ih h.tail hx

theorem erase_of_mem (h : Distinct l) (hx : (a, x) ∈ l) :
    erase l a = some (l.filter fun n => n.1 ≠ a) := by
  rw [erase, deref_of_mem h hx, Option.map_some]

theorem splice_of_mem (h : Distinct l) (hx : (a, x) ∈ l) :
    splice l a = some ((a, x) :: l.filter fun n => n.1 ≠ a) := by
  rw [splice, deref_of_mem h hx, Option.map_some]

theorem Distinct.unique (h : Distinct l) {y : α} (hx : (a, x) ∈ l) (hy : (a, y) ∈ l) : x = y :=
  Option.some.inj ((deref_of_mem h hx).symm.trans (deref_of_mem h hy))

end NodeList
