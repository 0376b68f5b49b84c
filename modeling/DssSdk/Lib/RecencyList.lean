import Mathlib.Data.List.Nodup
import Mathlib.Tactic

/-!
# Lists of entries in the order of their last use

Entries with different keys, the one that was used last in front.

* `lookup`, `remove`, `toFront`: find, take out and put in front the entry of a key;
* `insert`, `touch`: a new entry, with a bound on their number, and the use of an entry;
* `Stamped t l`: the order of the list is that of the times `t` of the last use;
* `Stamped.remove`, `Stamped.toFront`, `Stamped.dropLast`: the operations keep it;
* `Stamped.oldest`: the last entry has the oldest use.
-/

namespace RecencyList

variable {κ α : Type}

/-! ### The order -/

/-- The use of an entry is newer than that of the ones behind it. -/
def Stamped (t : κ → ℕ) (l : List (κ × α)) : Prop := l.Pairwise fun e d => t d.1 < t e.1

section

variable {t t' : κ → ℕ} {l : List (κ × α)}

theorem Stamped.congr (h : Stamped t l) (ht : ∀ e ∈ l, t' e.1 = t e.1) : Stamped t' l := by
  refine h.imp_of_mem fun he hd hlt => ?_
  rw [ht _ he, ht _ hd]
  exact hlt

theorem Stamped.dropLast (h : Stamped t l) : Stamped t l.dropLast := h.sublist (List.dropLast_sublist l)

/-- The last entry has the oldest use. -/
theorem Stamped.oldest {e d : κ × α} (h : Stamped t l) (he : l.getLast? = some e) (hd : d ∈ l)
    (hne : d.1 ≠ e.1) : t e.1 < t d.1 := by
  obtain ⟨m, rfl⟩ := List.getLast?_eq_some_iff.1 he
  rcases List.mem_append.1 hd with hd | hd
  · exact (List.pairwise_append.1 h).2.2 d hd e (List.mem_singleton_self e)
  · rw [List.mem_singleton.1 hd] at hne
    exact absurd rfl hne

end

/-! ### The operations -/

variable [DecidableEq κ]

/-- The value of a key. -/
def lookup (l : List (κ × α)) (k : κ) : Option α := (l.find? fun e => e.1 = k).map Prod.snd

/-- The entries of the other keys. -/
def remove (l : List (κ × α)) (k : κ) : List (κ × α) := l.filter fun e => e.1 ≠ k

/-- The entry of a key comes to the front. -/
def toFront (l : List (κ × α)) (k : κ) (v : α) : List (κ × α) := (k, v) :: remove l k

/-- The entry of a key comes to the front, and the last one goes when there are too many. -/
def insert (n : ℕ) (l : List (κ × α)) (k : κ) (v : α) : List (κ × α) :=
  if n < (toFront l k v).length then (toFront l k v).dropLast else toFront l k v

/-- An entry that is found comes to the front when there are more than `n`. -/
def touch (n : ℕ) (l : List (κ × α)) (k : κ) : List (κ × α) :=
  match lookup l k with
  | none => l
  | some v => if n < l.length then toFront l k v else l

variable {t t' : κ → ℕ} {l : List (κ × α)} {k j : κ} {v : α}

@[simp] theorem lookup_nil : lookup ([] : List (κ × α)) k = none := rfl

theorem lookup_cons (e : κ × α) (l : List (κ × α)) (k : κ) :
    lookup (e :: l) k = if e.1 = k then some e.2 else lookup l k := by
  rw [lookup, List.find?_cons]
  by_cases h : e.1 = k
  · rw [decide_eq_true h, if_pos h]
    rfl
  · rw [decide_eq_false h, if_neg h]
    rfl

theorem lookup_remove (l : List (κ × α)) (k j : κ) :
    lookup (remove l k) j = if j = k then none else lookup l j := by
  induction l with
  | nil => simp [remove]
  | cons e l ih =>
    by_cases he : e.1 = k
    · have hskip : remove (e :: l) k = remove l k := List.filter_cons_of_neg (by simpa using he)
      rw [hskip, ih, lookup_cons]
      by_cases hj : j = k
      · rw [if_pos hj, if_pos hj]
      · rw [if_neg hj, if_neg hj, if_neg (by rw [he]; exact Ne.symm hj)]
    · have hkeep : remove (e :: l) k = e :: remove l k := List.filter_cons_of_pos (by simpa using he)
      rw [hkeep, lookup_cons, lookup_cons, ih]
      by_cases hj : e.1 = j
      · rw [if_pos hj, if_pos hj, if_neg (by rw [← hj]; exact he)]
      · rw [if_neg hj, if_neg hj]

theorem lookup_toFront (l : List (κ × α)) (k j : κ) (v : α) :
    lookup (toFront l k v) j = if j = k then some v else lookup l j := by
  rw [toFront, lookup_cons, lookup_remove]
  by_cases h : j = k
  · rw [if_pos h.symm, if_pos h]
  · rw [if_neg (Ne.symm h), if_neg h, if_neg h]

theorem lookup_of_mem (hl : (l.map Prod.fst).Nodup) (h : (k, v) ∈ l) : lookup l k = some v := by
  induction l with
  | nil => cases h
  | cons e l ih =>
    rw [List.map_cons, List.nodup_cons] at hl
    rw [lookup_cons]
    rcases List.mem_cons.1 h with rfl | h
    · rw [if_pos rfl]
    · have hne : e.1 ≠ k := fun he => hl.1 (he ▸ List.mem_map_of_mem h)
      rw [if_neg hne, ih hl.2 h]

theorem lookup_isSome_iff : (lookup l k).isSome = true ↔ k ∈ l.map Prod.fst := by
  rw [lookup, Option.isSome_map, List.find?_isSome, List.mem_map]
  simp only [decide_eq_true_eq]

theorem Stamped.remove (h : Stamped t l) (k : κ) : Stamped t (remove l k) := h.filter _

/-- The newest use goes to the front. -/
theorem Stamped.toFront (h : Stamped t l) (hsame : ∀ j, j ≠ k → t' j = t j)
    (hnew : ∀ j, j ≠ k → t j < t' k) : Stamped t' (toFront l k v) := by
  have hne : ∀ e ∈ RecencyList.remove l k, e.1 ≠ k := fun e he => by simpa using List.of_mem_filter he
  refine List.pairwise_cons.2 ⟨fun e he => ?_, (h.remove k).congr fun e he => hsame _ (hne e he)⟩
  rw [hsame _ (hne e he)]
  exact hnew _ (hne e he)

theorem lookup_dropLast {e : κ × α} (hl : (l.map Prod.fst).Nodup) (he : l.getLast? = some e) (j : κ) :
    lookup l.dropLast j = if j = e.1 then none else lookup l j := by
  obtain ⟨m, rfl⟩ := List.getLast?_eq_some_iff.1 he
  have hgone : remove (m ++ [e]) e.1 = m := by
    rw [List.map_append, List.nodup_append] at hl
    rw [remove, List.filter_append, List.filter_cons_of_neg (by simp), List.filter_nil,
      List.append_nil, List.filter_eq_self]
    intro d hd
    simpa using hl.2.2 d.1 (List.mem_map_of_mem hd) e.1 (by simp)
  rw [List.dropLast_concat, ← lookup_remove, hgone]

theorem length_toFront_le (l : List (κ × α)) (k : κ) (v : α) : (toFront l k v).length ≤ l.length + 1 :=
  Nat.succ_le_succ (List.length_filter_le _ _)

theorem length_insert_le {n : ℕ} (hl : l.length ≤ n) : (insert n l k v).length ≤ n := by
  have hle := length_toFront_le l k v
  rw [insert]
  split
  · rw [List.length_dropLast]
    omega
  · omega

theorem keys_toFront (hl : (l.map Prod.fst).Nodup) : ((toFront l k v).map Prod.fst).Nodup := by
  refine List.nodup_cons.2 ⟨fun hmem => ?_, hl.sublist (List.filter_sublist.map _)⟩
  obtain ⟨e, he, heq⟩ := List.mem_map.1 hmem
  have hne : e.1 ≠ k := by simpa using List.of_mem_filter he
  exact hne heq

theorem length_toFront_of_lookup (hl : (l.map Prod.fst).Nodup) (h : lookup l k = some v) :
    (toFront l k v).length = l.length := by
  have hperm : ((toFront l k v).map Prod.fst).Perm (l.map Prod.fst) := by
    refine (List.perm_ext_iff_of_nodup (keys_toFront hl) hl).2 fun j => ?_
    rw [← lookup_isSome_iff, ← lookup_isSome_iff, lookup_toFront]
    by_cases hj : j = k
    · rw [if_pos hj, hj, h]
    · rw [if_neg hj]
  simpa using hperm.length_eq

theorem toFront_full {n : ℕ} (hn : 1 ≤ n) (hl : l.length ≤ n) (hfull : n < (toFront l k v).length) :
    l.length = n ∧ toFront l k v = (k, v) :: l ∧ k ∉ l.map Prod.fst ∧
      ∃ e ∈ l, (toFront l k v).getLast? = some e := by
  have hsub : (remove l k).Sublist l := List.filter_sublist
  have hcons : (toFront l k v).length = (remove l k).length + 1 := rfl
  have hsame : remove l k = l := hsub.eq_of_length_le (by omega)
  have hfront : toFront l k v = (k, v) :: l := congrArg ((k, v) :: ·) hsame
  have hlen : l.length = n := by
    rw [hsame] at hcons
    omega
  have hne : l ≠ [] := by
    rintro rfl
    rw [List.length_nil] at hlen
    omega
  refine ⟨hlen, hfront, ?_, l.getLast hne, List.getLast_mem hne, ?_⟩
  · rintro hin
    obtain ⟨e, he, heq⟩ := List.mem_map.1 hin
    rw [← hsame] at he
    have hother : e.1 ≠ k := by simpa using List.of_mem_filter he
    exact hother heq
  · rw [hfront, List.getLast?_cons_of_ne_nil hne]
    exact List.getLast?_eq_some_getLast hne

end RecencyList
