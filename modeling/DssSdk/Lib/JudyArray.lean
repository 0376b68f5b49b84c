import Mathlib.Tactic
import Mathlib.Data.List.Sort

/-!
# Judy arrays: ordered finite maps on words

A JudyL array maps words to values and enumerates its indices in increasing order.
Here it is the list of its entries, with the strictly increasing order of the indices as a
field, so that an unordered or ambiguous array cannot be built.

* `get?`, `insert`, `erase`: `JudyLGet`, `JudyLIns` (with the assignment to the slot) and
  `JudyLDel`;
* `next?`, `prev?`: `JudyLNext` and `JudyLPrev`, both strict;
* membership in `entries` is the specification: every operation has one lemma that says which
  entries (`mem_insert`, `mem_erase`) or which one it finds (`next?_eq_some_iff`,
  `prev?_eq_some_iff`);
* `JudyL`: the documented laws of the library, for any implementation of it. A program cannot tell one
  from the list of the entries (`Represents`), so what is proved with the list holds with it.
-/

/-- An ordered finite map from words to `α`. -/
structure JudyArray (α : Type) where
  entries : List (ℕ × α)
  sorted : entries.Pairwise (fun a b => a.1 < b.1)

namespace JudyArray

variable {α : Type}

instance : Membership (ℕ × α) (JudyArray α) := ⟨fun m e => e ∈ m.entries⟩

theorem mem_entries {m : JudyArray α} {e : ℕ × α} : e ∈ m.entries ↔ e ∈ m := Iff.rfl

@[ext] theorem ext' {m m' : JudyArray α} (h : m.entries = m'.entries) : m = m' := by
  cases m; cases m'; cases h; rfl

instance [DecidableEq α] : DecidableEq (JudyArray α) := fun m m' =>
  decidable_of_iff (m.entries = m'.entries) ⟨JudyArray.ext', fun h => h ▸ rfl⟩

/-- The empty array (the null pointer). -/
def empty : JudyArray α := ⟨[], List.Pairwise.nil⟩

@[simp] theorem entries_empty : (empty : JudyArray α).entries = [] := rfl

@[simp] theorem not_mem_empty (e : ℕ × α) : ¬ e ∈ (empty : JudyArray α) := List.not_mem_nil

/-- `JudyLGet`: the value at an index. -/
def get? (m : JudyArray α) (k : ℕ) : Option α :=
  (m.entries.find? (fun e => e.1 = k)).map Prod.snd

/-- The entries with the value at `k` set to `v`. -/
def insertEntries (k : ℕ) (v : α) : List (ℕ × α) → List (ℕ × α)
  | [] => [(k, v)]
  | e :: l =>
      if k < e.1 then (k, v) :: e :: l
      else if k = e.1 then (k, v) :: l
      else e :: insertEntries k v l

theorem mem_insertEntries_sub {k : ℕ} {v : α} {l : List (ℕ × α)} {e : ℕ × α}
    (h : e ∈ insertEntries k v l) : e = (k, v) ∨ e ∈ l := by
  induction l with
  | nil => simpa [insertEntries] using h
  | cons d l ih =>
    unfold insertEntries at h
    split_ifs at h with h1 h2
    · simpa using h
    · rcases List.mem_cons.1 h with h | h
      · exact Or.inl h
      · exact Or.inr (List.mem_cons_of_mem _ h)
    · rcases List.mem_cons.1 h with h | h
      · exact Or.inr (h ▸ List.mem_cons_self)
      · exact (ih h).imp_right (List.mem_cons_of_mem _)

theorem sorted_insertEntries {k : ℕ} {v : α} {l : List (ℕ × α)}
    (hl : l.Pairwise (fun a b => a.1 < b.1)) :
    (insertEntries k v l).Pairwise (fun a b => a.1 < b.1) := by
  induction l with
  | nil => simp [insertEntries]
  | cons d l ih =>
    obtain ⟨hd, hl'⟩ := List.pairwise_cons.1 hl
    unfold insertEntries
    split_ifs with h1 h2
    · refine List.pairwise_cons.2 ⟨fun e he => ?_, hl⟩
      rcases List.mem_cons.1 he with rfl | he
      · exact h1
      · exact h1.trans (hd e he)
    · exact List.pairwise_cons.2 ⟨fun e he => h2 ▸ hd e he, hl'⟩
    · refine List.pairwise_cons.2 ⟨fun e he => ?_, ih hl'⟩
      rcases mem_insertEntries_sub he with rfl | he
      · simp only; omega
      · exact hd e he

/-- `JudyLIns`, with `v` assigned to the slot it returns. -/
def insert (m : JudyArray α) (k : ℕ) (v : α) : JudyArray α :=
  ⟨insertEntries k v m.entries, sorted_insertEntries m.sorted⟩

/-- `JudyLDel`. -/
def erase (m : JudyArray α) (k : ℕ) : JudyArray α :=
  ⟨m.entries.filter (fun e => e.1 ≠ k), m.sorted.filter _⟩

/-- `JudyLNext`: the entry with the least index above `k`. -/
def next? (m : JudyArray α) (k : ℕ) : Option (ℕ × α) :=
  m.entries.find? (fun e => k < e.1)

/-- `JudyLPrev`: the entry with the greatest index below `k`. -/
def prev? (m : JudyArray α) (k : ℕ) : Option (ℕ × α) :=
  m.entries.reverse.find? (fun e => e.1 < k)

theorem eq_of_fst_eq {m : JudyArray α} {d e : ℕ × α} (hd : d ∈ m) (he : e ∈ m)
    (h : d.1 = e.1) : d = e := by
  obtain ⟨l, hl⟩ := m
  change d ∈ l at hd
  change e ∈ l at he
  induction l with
  | nil => cases hd
  | cons a l ih =>
    obtain ⟨ha, hl'⟩ := List.pairwise_cons.1 hl
    rcases List.mem_cons.1 hd with hda | hd' <;> rcases List.mem_cons.1 he with hea | he'
    · rw [hda, hea]
    · have := ha e he'; rw [← hda] at this; omega
    · have := ha d hd'; rw [← hea] at this; omega
    · exact ih hl' hd' he'

theorem ext_mem {m m' : JudyArray α} (h : ∀ e, e ∈ m ↔ e ∈ m') : m = m' := by
  have : Std.Irrefl fun a b : ℕ × α => a.1 < b.1 := ⟨fun a => lt_irrefl a.1⟩
  have : Std.Antisymm fun a b : ℕ × α => a.1 < b.1 :=
    ⟨fun a b hab hba => absurd hab (lt_asymm hba)⟩
  exact ext' (m.sorted.eq_of_mem_iff m'.sorted h)

theorem eq_of_mem {m : JudyArray α} {k : ℕ} {v w : α} (hv : (k, v) ∈ m) (hw : (k, w) ∈ m) :
    v = w :=
  congrArg Prod.snd (eq_of_fst_eq hv hw rfl)

theorem get?_eq_some_iff {m : JudyArray α} {k : ℕ} {v : α} : m.get? k = some v ↔ (k, v) ∈ m := by
  unfold get?
  constructor
  · intro h
    obtain ⟨e, he, hv⟩ := Option.map_eq_some_iff.1 h
    have hk : e.1 = k := by simpa using List.find?_some he
    have hm := List.mem_of_find?_eq_some he
    rwa [← hk, ← hv]
  · intro h
    cases hf : m.entries.find? (fun e => e.1 = k) with
    | none =>
      have := List.find?_eq_none.1 hf (k, v) h
      simp at this
    | some e =>
      have hk : e.1 = k := by simpa using List.find?_some hf
      have he : e = (k, v) := eq_of_fst_eq (List.mem_of_find?_eq_some hf) h hk
      simp [he]

theorem get?_eq_none_iff {m : JudyArray α} {k : ℕ} : m.get? k = none ↔ ∀ v, ¬ (k, v) ∈ m := by
  simp only [Option.eq_none_iff_forall_ne_some, ne_eq, get?_eq_some_iff]

theorem mem_insert {m : JudyArray α} {k : ℕ} {v : α} {e : ℕ × α} :
    e ∈ m.insert k v ↔ e = (k, v) ∨ e ∈ m ∧ e.1 ≠ k := by
  obtain ⟨l, hl⟩ := m
  change e ∈ insertEntries k v l ↔ e = (k, v) ∨ e ∈ l ∧ e.1 ≠ k
  induction l with
  | nil => simp [insertEntries]
  | cons a l ih =>
    obtain ⟨ha, hl'⟩ := List.pairwise_cons.1 hl
    unfold insertEntries
    split_ifs with h1 h2
    · have hne : ∀ d ∈ a :: l, d.1 ≠ k := by
        intro d hd
        rcases List.mem_cons.1 hd with rfl | hd
        · omega
        · have := ha d hd; omega
      simp only [List.mem_cons (a := e) (b := (k, v))]
      exact or_congr_right ⟨fun h => ⟨h, hne e h⟩, fun h => h.1⟩
    · have hne : ∀ d ∈ l, d.1 ≠ k := fun d hd => by have := ha d hd; omega
      simp only [List.mem_cons]
      constructor
      · rintro (h | h)
        · exact Or.inl h
        · exact Or.inr ⟨Or.inr h, hne e h⟩
      · rintro (h | ⟨h | h, hk⟩)
        · exact Or.inl h
        · exact absurd (h ▸ h2.symm) hk
        · exact Or.inr h
    · simp only [List.mem_cons, ih hl']
      constructor
      · rintro (rfl | h | ⟨h, hk⟩)
        · exact Or.inr ⟨Or.inl rfl, fun h => h2 h.symm⟩
        · exact Or.inl h
        · exact Or.inr ⟨Or.inr h, hk⟩
      · rintro (h | ⟨h | h, hk⟩)
        · exact Or.inr (Or.inl h)
        · exact Or.inl h
        · exact Or.inr (Or.inr ⟨h, hk⟩)

theorem mem_erase {m : JudyArray α} {k : ℕ} {e : ℕ × α} : e ∈ m.erase k ↔ e ∈ m ∧ e.1 ≠ k := by
  change e ∈ m.entries.filter (fun e => e.1 ≠ k) ↔ e ∈ m.entries ∧ e.1 ≠ k
  simp

theorem next?_eq_some_iff {m : JudyArray α} {k : ℕ} {e : ℕ × α} :
    m.next? k = some e ↔ e ∈ m ∧ k < e.1 ∧ ∀ d ∈ m, k < d.1 → e.1 ≤ d.1 := by
  obtain ⟨l, hl⟩ := m
  change l.find? (fun e => k < e.1) = some e ↔ e ∈ l ∧ k < e.1 ∧ ∀ d ∈ l, k < d.1 → e.1 ≤ d.1
  induction l with
  | nil => simp
  | cons a l ih =>
    obtain ⟨ha, hl'⟩ := List.pairwise_cons.1 hl
    by_cases hk : k < a.1
    · simp only [hk, decide_true, List.find?_cons_of_pos, Option.some.injEq, List.mem_cons]
      constructor
      · rintro rfl
        refine ⟨Or.inl rfl, hk, fun d hd _ => ?_⟩
        rcases hd with rfl | hd
        · exact le_rfl
        · exact (ha d hd).le
      · rintro ⟨h | h, -, hmin⟩
        · exact h.symm
        · have := hmin a (Or.inl rfl) hk
          have := ha e h
          omega
    · rw [List.find?_cons_of_neg (by simpa using hk), ih hl']
      simp only [List.mem_cons]
      constructor
      · rintro ⟨h, hlt, hmin⟩
        refine ⟨Or.inr h, hlt, fun d hd hkd => ?_⟩
        rcases hd with rfl | hd
        · exact absurd hkd hk
        · exact hmin d hd hkd
      · rintro ⟨h | h, hlt, hmin⟩
        · exact absurd (h ▸ hlt) hk
        · exact ⟨h, hlt, fun d hd => hmin d (Or.inr hd)⟩

theorem next?_eq_none_iff {m : JudyArray α} {k : ℕ} : m.next? k = none ↔ ∀ e ∈ m, e.1 ≤ k := by
  unfold next?
  rw [List.find?_eq_none]
  simp only [decide_eq_true_eq, not_lt]
  exact Iff.rfl

theorem prev?_eq_some_iff {m : JudyArray α} {k : ℕ} {e : ℕ × α} :
    m.prev? k = some e ↔ e ∈ m ∧ e.1 < k ∧ ∀ d ∈ m, d.1 < k → d.1 ≤ e.1 := by
  obtain ⟨l, hl⟩ := m
  change l.reverse.find? (fun e => e.1 < k) = some e ↔
    e ∈ l ∧ e.1 < k ∧ ∀ d ∈ l, d.1 < k → d.1 ≤ e.1
  induction l using List.reverseRecOn with
  | nil => simp
  | append_singleton l a ih =>
    obtain ⟨hl', -, ha⟩ := List.pairwise_append.1 hl
    have ha : ∀ d ∈ l, d.1 < a.1 := fun d hd => ha d hd a (List.mem_singleton.2 rfl)
    rw [List.reverse_append, List.reverse_singleton, List.singleton_append]
    by_cases hk : a.1 < k
    · simp only [hk, decide_true, List.find?_cons_of_pos, Option.some.injEq, List.mem_append,
        List.mem_singleton]
      constructor
      · rintro rfl
        refine ⟨Or.inr rfl, hk, fun d hd _ => ?_⟩
        rcases hd with hd | rfl
        · exact (ha d hd).le
        · exact le_rfl
      · rintro ⟨h | h, -, hmax⟩
        · have := hmax a (Or.inr rfl) hk
          have := ha e h
          omega
        · exact h.symm
    · rw [List.find?_cons_of_neg (by simpa using hk), ih hl']
      simp only [List.mem_append, List.mem_singleton]
      constructor
      · rintro ⟨h, hlt, hmax⟩
        refine ⟨Or.inl h, hlt, fun d hd hkd => ?_⟩
        rcases hd with hd | rfl
        · exact hmax d hd hkd
        · exact absurd hkd hk
      · rintro ⟨h | h, hlt, hmax⟩
        · exact ⟨h, hlt, fun d hd => hmax d (Or.inl hd)⟩
        · exact absurd (h ▸ hlt) hk

theorem prev?_eq_none_iff {m : JudyArray α} {k : ℕ} : m.prev? k = none ↔ ∀ e ∈ m, k ≤ e.1 := by
  unfold prev?
  rw [List.find?_eq_none]
  simp only [List.mem_reverse, decide_eq_true_eq, not_lt]
  exact Iff.rfl

/-! ### Reading after an update -/

theorem get?_insert (m : JudyArray α) (k j : ℕ) (v : α) :
    (m.insert k v).get? j = if j = k then some v else m.get? j := by
  split_ifs with h
  · subst h
    exact get?_eq_some_iff.2 (mem_insert.2 (Or.inl rfl))
  · ext w
    simp only [get?_eq_some_iff, mem_insert, Prod.mk.injEq]
    tauto

theorem get?_erase (m : JudyArray α) (k j : ℕ) :
    (m.erase k).get? j = if j = k then none else m.get? j := by
  split_ifs with h
  · subst h
    exact get?_eq_none_iff.2 fun v hv => (mem_erase.1 hv).2 rfl
  · ext w
    simp only [get?_eq_some_iff, mem_erase]
    tauto

@[simp] theorem get?_empty (k : ℕ) : (empty : JudyArray α).get? k = none := rfl

/-! ### The sum of the values -/

/-- The sum of the values of an array of numbers. -/
def total (m : JudyArray ℕ) : ℕ := (m.entries.map Prod.snd).sum

theorem total_insert {m : JudyArray ℕ} {k v : ℕ} (h : m.get? k = none) :
    (m.insert k v).total = m.total + v := by
  have hk : ∀ e ∈ m.entries, e.1 ≠ k := fun e he hek =>
    get?_eq_none_iff.1 h e.2 (by rw [← hek]; exact he)
  obtain ⟨l, hl⟩ := m
  change ((insertEntries k v l).map Prod.snd).sum = (l.map Prod.snd).sum + v
  change ∀ e ∈ l, e.1 ≠ k at hk
  clear hl h
  induction l with
  | nil => simp [insertEntries]
  | cons a l ih =>
    have ha := hk a List.mem_cons_self
    unfold insertEntries
    split_ifs with h1 h2
    · simp only [List.map_cons, List.sum_cons]; omega
    · exact absurd h2.symm ha
    · simp only [List.map_cons, List.sum_cons]
      rw [ih fun e he => hk e (List.mem_cons_of_mem _ he)]
      omega

theorem total_erase {m : JudyArray ℕ} {k v : ℕ} (h : (k, v) ∈ m) :
    (m.erase k).total + v = m.total := by
  obtain ⟨l, hl⟩ := m
  change ((l.filter (fun e => e.1 ≠ k)).map Prod.snd).sum + v = (l.map Prod.snd).sum
  change (k, v) ∈ l at h
  induction l with
  | nil => cases h
  | cons a l ih =>
    obtain ⟨ha, hl'⟩ := List.pairwise_cons.1 hl
    rcases List.mem_cons.1 h with rfl | h
    · have hf : l.filter (fun e => e.1 ≠ k) = l :=
        List.filter_eq_self.2 fun d hd => by have := ha d hd; simp only at this; simp; omega
      rw [List.filter_cons_of_neg (by simp), hf]
      simp only [List.map_cons, List.sum_cons]
      omega
    · have hne : a.1 ≠ k := by have := ha _ h; simp only at this; omega
      rw [List.filter_cons_of_pos (by simpa using hne)]
      simp only [List.map_cons, List.sum_cons]
      have := ih hl' h
      omega

/-- Lengths of disjoint ranges inside `[lo, hi)` add up to at most `hi - lo`. -/
theorem total_le_of_disjoint {m : JudyArray ℕ} {lo hi : ℕ} (hle : lo ≤ hi)
    (hin : ∀ e ∈ m, lo ≤ e.1 ∧ e.1 + e.2 ≤ hi)
    (hdis : ∀ d ∈ m, ∀ e ∈ m, d.1 < e.1 → d.1 + d.2 ≤ e.1) : lo + m.total ≤ hi := by
  obtain ⟨l, hl⟩ := m
  change ∀ e ∈ l, lo ≤ e.1 ∧ e.1 + e.2 ≤ hi at hin
  change ∀ d ∈ l, ∀ e ∈ l, d.1 < e.1 → d.1 + d.2 ≤ e.1 at hdis
  change lo + (l.map Prod.snd).sum ≤ hi
  -- the bound moves to the end of the first range
  induction l generalizing lo with
  | nil => simpa using hle
  | cons a l ih =>
    obtain ⟨ha, hl'⟩ := List.pairwise_cons.1 hl
    have h0 := hin a List.mem_cons_self
    have hrest : a.1 + a.2 + (l.map Prod.snd).sum ≤ hi := by
      refine ih h0.2 hl' (fun e he => ⟨?_, (hin e (List.mem_cons_of_mem _ he)).2⟩)
        (fun d hd e he => hdis d (List.mem_cons_of_mem _ hd) e (List.mem_cons_of_mem _ he))
      exact hdis a List.mem_cons_self e (List.mem_cons_of_mem _ he) (ha e he)
    simp only [List.map_cons, List.sum_cons]
    omega

end JudyArray

/-! ### Other implementations -/

/-- An implementation of the library, with what is documented of its calls. -/
structure JudyL (α : Type) where
  Arr : Type
  null : Arr
  get : Arr → ℕ → Option α
  ins : Arr → ℕ → α → Arr
  del : Arr → ℕ → Arr
  next : Arr → ℕ → Option (ℕ × α)
  prev : Arr → ℕ → Option (ℕ × α)
  get_null : ∀ k, get null k = none
  get_ins : ∀ a k v j, get (ins a k v) j = if j = k then some v else get a j
  get_del : ∀ a k j, get (del a k) j = if j = k then none else get a j
  next_eq_some_iff : ∀ {a k e}, next a k = some e ↔
    get a e.1 = some e.2 ∧ k < e.1 ∧ ∀ j v, get a j = some v → k < j → e.1 ≤ j
  prev_eq_some_iff : ∀ {a k e}, prev a k = some e ↔
    get a e.1 = some e.2 ∧ e.1 < k ∧ ∀ j v, get a j = some v → j < k → j ≤ e.1

namespace JudyL

open JudyArray

variable {α : Type} {J : JudyL α} {a : J.Arr} {m : JudyArray α}

/-- The list of the entries is an implementation. -/
def ofEntries (α : Type) : JudyL α where
  Arr := JudyArray α
  null := .empty
  get := get?
  ins := insert
  del := erase
  next := next?
  prev := prev?
  get_null := get?_empty
  get_ins m k v j := get?_insert m k j v
  get_del m k j := get?_erase m k j
  next_eq_some_iff := by simp [next?_eq_some_iff, get?_eq_some_iff]
  prev_eq_some_iff := by simp [prev?_eq_some_iff, get?_eq_some_iff]

/-- The array holds the entries of the list. -/
def Represents (J : JudyL α) (a : J.Arr) (m : JudyArray α) : Prop := ∀ k, J.get a k = m.get? k

theorem represents_null : J.Represents J.null .empty := fun k => by rw [J.get_null, get?_empty]

namespace Represents

theorem mem_iff (h : J.Represents a m) {e : ℕ × α} : J.get a e.1 = some e.2 ↔ e ∈ m := by
  rw [h e.1, get?_eq_some_iff]

theorem ins (h : J.Represents a m) (k : ℕ) (v : α) : J.Represents (J.ins a k v) (m.insert k v) := by
  intro j
  rw [J.get_ins, get?_insert, h j]

theorem del (h : J.Represents a m) (k : ℕ) : J.Represents (J.del a k) (m.erase k) := by
  intro j
  rw [J.get_del, get?_erase, h j]

/-- The next entry is the same one. -/
theorem next (h : J.Represents a m) (k : ℕ) : J.next a k = m.next? k := by
  ext e
  rw [J.next_eq_some_iff, next?_eq_some_iff, h.mem_iff]
  simp only [fun j v => h.mem_iff (e := (j, v)), Prod.forall]

theorem prev (h : J.Represents a m) (k : ℕ) : J.prev a k = m.prev? k := by
  ext e
  rw [J.prev_eq_some_iff, prev?_eq_some_iff, h.mem_iff]
  simp only [fun j v => h.mem_iff (e := (j, v)), Prod.forall]

end Represents

end JudyL
