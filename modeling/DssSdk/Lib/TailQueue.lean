import Mathlib.Tactic

/-!
# Tail queues

The doubly linked tail queue of the BSD `queue.h` over arbitrary elements: an element holds the
next element and the address of the pointer that leads to it, and the head holds the first element
and the address of the last pointer. Addresses are the head's own pointer or the `next` field of
an element.

* `insertTail`, `remove`, `init`: `TAILQ_INSERT_TAIL`, `TAILQ_REMOVE`, `TAILQ_INIT`. A removal
  leaves the pointers of the removed element as they are, and an insertion does not look whether
  the element is already there;
* `ChainTo next e o l`: the pointers from `o` run through `l`, and the last of them is `e`;
* `Lists q l`: the pointers from the head run through `l` and end;
* `Forms q l`: the addresses kept for insertion and removal agree with `l` too;
* `Lasso q l`: the same for a queue whose last element may have been inserted twice, which makes it
  its own next element until another one is inserted.
-/

namespace TailQueue

/-- The address of a pointer of the queue. -/
inductive Link (α : Type)
  | head
  | next (a : α)
  deriving DecidableEq

/-- A queue with the pointers of all elements, those outside it included. -/
structure Queue (α : Type) where
  first : Option α
  last : Link α
  next : α → Option α
  prev : α → Link α

variable {α : Type} [DecidableEq α]

/-- Write a pointer. -/
def Queue.store (q : Queue α) (p : Link α) (o : Option α) : Queue α :=
  match p with
  | .head => { q with first := o }
  | .next a => { q with next := Function.update q.next a o }

/-- `TAILQ_INIT`. -/
def Queue.init (q : Queue α) : Queue α := { q with first := none, last := .head }

/-- `TAILQ_INSERT_TAIL`. -/
def Queue.insertTail (q : Queue α) (a : α) : Queue α :=
  let q₁ : Queue α :=
    { q with next := Function.update q.next a none, prev := Function.update q.prev a q.last }
  { q₁.store q.last (some a) with last := .next a }

/-- `TAILQ_REMOVE`. -/
def Queue.remove (q : Queue α) (a : α) : Queue α :=
  let q₁ : Queue α :=
    match q.next a with
    | some c => { q with prev := Function.update q.prev c (q.prev a) }
    | none => { q with last := q.prev a }
  q₁.store (q₁.prev a) (q₁.next a)

/-! ### Chains of pointers -/

/-- The pointers from `o` run through the list, and the last of them is `e`. -/
def ChainTo (next : α → Option α) (e : Option α) : Option α → List α → Prop
  | o, [] => o = e
  | o, a :: l => o = some a ∧ ChainTo next e (next a) l

/-- The address of the pointer behind the last element of the list, or `p` if it is empty. -/
def endLink (p : Link α) : List α → Link α
  | [] => p
  | a :: l => endLink (.next a) l

omit [DecidableEq α] in
theorem chainTo_unique {next : α → Option α} {o : Option α} {l l' : List α}
    (h : ChainTo next none o l) (h' : ChainTo next none o l') : l = l' := by
  induction l generalizing o l' with
  | nil =>
    cases l' with
    | nil => rfl
    | cons a l' =>
      have h0 : o = none := h
      rw [h0] at h'
      exact absurd h'.1 (by simp)
  | cons a l ih =>
    cases l' with
    | nil =>
      have h0 : o = none := h'
      rw [h0] at h
      exact absurd h.1 (by simp)
    | cons a' l' =>
      obtain ⟨ho, hl⟩ := h
      obtain ⟨ho', hl'⟩ := h'
      obtain rfl : a = a' := Option.some.inj (ho.symm.trans ho')
      rw [ih hl hl']

theorem chainTo_update {next : α → Option α} {e o x : Option α} {a : α} {l : List α}
    (h : ChainTo next e o l) (ha : a ∉ l) : ChainTo (Function.update next a x) e o l := by
  induction l generalizing o with
  | nil => exact h
  | cons c l ih =>
    rw [List.mem_cons, not_or] at ha
    refine ⟨h.1, ?_⟩
    rw [Function.update_of_ne (Ne.symm ha.1)]
    exact ih h.2 ha.2

omit [DecidableEq α] in
theorem endLink_append (p : Link α) (l : List α) (a : α) : endLink p (l ++ [a]) = .next a := by
  induction l generalizing p with
  | nil => rfl
  | cons c l ih => exact ih (.next c)

omit [DecidableEq α] in
theorem endLink_cons (p : Link α) (a : α) (l : List α) :
    ∃ c ∈ a :: l, endLink p (a :: l) = .next c := by
  induction l generalizing p a with
  | nil => exact ⟨a, List.mem_cons_self, rfl⟩
  | cons b l ih =>
    obtain ⟨c, hc, h⟩ := ih (.next a) b
    exact ⟨c, List.mem_cons_of_mem _ hc, h⟩

theorem chainTo_redirect {next : α → Option α} {x y o : Option α} {c e : α} {l : List α}
    (h : ChainTo next x o (c :: l)) (hnd : (c :: l).Nodup)
    (he : endLink .head (c :: l) = .next e) :
    ChainTo (Function.update next e y) y o (c :: l) := by
  induction l generalizing o c with
  | nil =>
    obtain rfl : c = e := Link.next.inj he
    refine ⟨h.1, ?_⟩
    show Function.update next c y c = y
    exact Function.update_self c y next
  | cons b l ih =>
    have hne : c ≠ e := by
      obtain ⟨e', he', hlink⟩ := endLink_cons (.next c) b l
      obtain rfl : e' = e := Link.next.inj (hlink.symm.trans he)
      rintro rfl
      exact (List.nodup_cons.1 hnd).1 he'
    refine ⟨h.1, ?_⟩
    rw [Function.update_of_ne hne]
    exact ih h.2 (List.nodup_cons.1 hnd).2 he

omit [DecidableEq α] in
theorem chainTo_append {next : α → Option α} {y o : Option α} {a : α} {l : List α}
    (h : ChainTo next (some a) o l) (ha : next a = y) : ChainTo next y o (l ++ [a]) := by
  induction l generalizing o with
  | nil => exact ⟨h, ha⟩
  | cons c l ih => exact ⟨h.1, ih h.2⟩

theorem chainTo_snoc {next : α → Option α} {x o : Option α} {c e a : α} {l : List α}
    (h : ChainTo next x o (c :: l)) (hnd : (c :: l).Nodup) (ha : a ∉ c :: l)
    (he : endLink .head (c :: l) = .next e) :
    ChainTo (Function.update (Function.update next a none) e (some a)) none o (c :: l ++ [a]) := by
  refine chainTo_append (chainTo_redirect (chainTo_update h ha) hnd he) ?_
  obtain ⟨e', he', hlink⟩ := endLink_cons .head c l
  obtain rfl : e' = e := Link.next.inj (hlink.symm.trans he)
  have hae : a ≠ e' := fun h0 => ha (h0 ▸ he')
  rw [Function.update_of_ne hae, Function.update_self]

/-! ### Well-formed queues -/

/-- The elements from the head on, each of them once. -/
def Queue.Lists (q : Queue α) (l : List α) : Prop := l.Nodup ∧ ChainTo q.next none q.first l

/-- The address an element keeps is that of the pointer that leads to it. -/
def Backs (prev : α → Link α) : Link α → List α → Prop
  | _, [] => True
  | p, a :: l => prev a = p ∧ Backs prev (.next a) l

/-- A queue all of whose pointers agree with the list. -/
structure Queue.Forms (q : Queue α) (l : List α) : Prop where
  lists : q.Lists l
  last : q.last = endLink .head l
  backs : Backs q.prev .head l

theorem backs_update {prev : α → Link α} {p x : Link α} {a : α} {l : List α}
    (h : Backs prev p l) (ha : a ∉ l) : Backs (Function.update prev a x) p l := by
  induction l generalizing p with
  | nil => exact trivial
  | cons c l ih =>
    rw [List.mem_cons, not_or] at ha
    refine ⟨?_, ih h.2 ha.2⟩
    rw [Function.update_of_ne (Ne.symm ha.1)]
    exact h.1

omit [DecidableEq α] in
theorem backs_append {prev : α → Link α} {p : Link α} {l : List α} {a : α}
    (h : Backs prev p l) (ha : prev a = endLink p l) : Backs prev p (l ++ [a]) := by
  induction l generalizing p with
  | nil => exact ⟨ha, trivial⟩
  | cons c l ih => exact ⟨h.1, ih h.2 ha⟩

omit [DecidableEq α] in
theorem nodup_snoc {l : List α} {a : α} (hnd : l.Nodup) (ha : a ∉ l) : (l ++ [a]).Nodup := by
  rw [List.nodup_append]
  refine ⟨hnd, List.nodup_singleton a, ?_⟩
  rintro x hx y hy rfl
  exact ha ((List.mem_singleton.1 hy) ▸ hx)

omit [DecidableEq α] in
/-- The queue after `TAILQ_INIT` is empty. -/
theorem forms_init (q : Queue α) : q.init.Forms [] := ⟨⟨List.nodup_nil, rfl⟩, rfl, trivial⟩

theorem chainTo_insertTail {q : Queue α} {l : List α} {a : α} {x : Option α}
    (hnd : l.Nodup) (hch : ChainTo q.next x q.first l) (hlast : q.last = endLink .head l)
    (ha : a ∉ l) :
    ChainTo (q.insertTail a).next none (q.insertTail a).first (l ++ [a]) := by
  cases l with
  | nil =>
    have hlast' : q.last = .head := hlast
    simp only [Queue.insertTail, Queue.store, hlast']
    refine ⟨rfl, ?_⟩
    show Function.update q.next a none a = none
    exact Function.update_self a none q.next
  | cons c l =>
    obtain ⟨e, -, he⟩ := endLink_cons .head c l
    have hlast' : q.last = .next e := hlast.trans he
    simp only [Queue.insertTail, Queue.store, hlast']
    exact chainTo_snoc hch hnd ha he

theorem insertTail_prev (q : Queue α) (a : α) :
    (q.insertTail a).prev = Function.update q.prev a q.last := by
  simp only [Queue.insertTail, Queue.store]
  cases q.last <;> rfl

/-- An insertion of an element that is not in the queue. -/
theorem Queue.Forms.insertTail {q : Queue α} {l : List α} {a : α} (h : q.Forms l) (ha : a ∉ l) :
    (q.insertTail a).Forms (l ++ [a]) := by
  obtain ⟨⟨hnd, hch⟩, hlast, hback⟩ := h
  refine ⟨⟨nodup_snoc hnd ha, chainTo_insertTail hnd hch hlast ha⟩,
    (endLink_append .head l a).symm, ?_⟩
  rw [insertTail_prev]
  refine backs_append (backs_update hback ha) ?_
  rw [Function.update_self, hlast]

/-! ### Queues with an element that was inserted twice -/

/-- No element of the list keeps the address of a pointer of a later one. -/
def Back (prev : α → Link α) : List α → Prop
  | [] => True
  | a :: l => (∀ c, prev a = .next c → c ∉ l) ∧ Back prev l

/-- The elements from the head on, each of them once, to a null pointer or to the pointer of the
last element to itself. -/
structure Queue.Lasso (q : Queue α) (l : List α) : Prop where
  nodup : l.Nodup
  chain : ChainTo q.next none q.first l ∨
    ∃ e, endLink .head l = .next e ∧ ChainTo q.next (some e) q.first l
  last : q.last = endLink .head l
  closed : ∀ a ∈ l, ∀ c, q.prev a = .next c → c ∈ l
  back : Back q.prev l

theorem back_update {prev : α → Link α} {a : α} {x : Link α} {l : List α} (h : Back prev l)
    (ha : a ∉ l) : Back (Function.update prev a x) l := by
  induction l with
  | nil => exact trivial
  | cons c l ih =>
    rw [List.mem_cons, not_or] at ha
    refine ⟨fun d hd => ?_, ih h.2 ha.2⟩
    rw [Function.update_of_ne (Ne.symm ha.1)] at hd
    exact h.1 d hd

omit [DecidableEq α] in
theorem back_append {prev : α → Link α} {a : α} {l : List α} (h : Back prev l)
    (ha : ∀ c ∈ l, prev c ≠ .next a) : Back prev (l ++ [a]) := by
  induction l with
  | nil => exact ⟨fun _ _ => List.not_mem_nil, trivial⟩
  | cons c l ih =>
    refine ⟨fun d hd hmem => ?_, ih h.2 fun x hx => ha x (List.mem_cons_of_mem _ hx)⟩
    rcases List.mem_append.1 hmem with hmem | hmem
    · exact h.1 d hd hmem
    · obtain rfl := List.mem_singleton.1 hmem
      exact ha c List.mem_cons_self hd

theorem back_update_last {prev : α → Link α} {e : α} {l : List α} {p : Link α} (h : Back prev l)
    (hnd : l.Nodup) (he : endLink p l = .next e) :
    Back (Function.update prev e (.next e)) l := by
  induction l generalizing p with
  | nil => exact trivial
  | cons c l ih =>
    cases l with
    | nil => exact ⟨fun _ _ => List.not_mem_nil, trivial⟩
    | cons b l =>
      have hne : c ≠ e := by
        obtain ⟨e', he', hlink⟩ := endLink_cons (.next c) b l
        obtain rfl : e' = e := Link.next.inj (hlink.symm.trans he)
        rintro rfl
        exact (List.nodup_cons.1 hnd).1 he'
      refine ⟨fun d hd => ?_, ih (p := .next c) h.2 (List.nodup_cons.1 hnd).2 he⟩
      rw [Function.update_of_ne hne] at hd
      exact h.1 d hd

omit [DecidableEq α] in
theorem endLink_of_next_none {next : α → Option α} {o : Option α} {l : List α} {a : α}
    {p : Link α} (h : ChainTo next none o l) (ha : a ∈ l) (hnext : next a = none) :
    endLink p l = .next a := by
  induction l generalizing o p with
  | nil => exact absurd ha List.not_mem_nil
  | cons c l ih =>
    rcases List.mem_cons.1 ha with rfl | ha
    · cases l with
      | nil => rfl
      | cons b l => exact absurd (hnext.symm.trans h.2.1) (by simp)
    · exact ih h.2 ha

omit [DecidableEq α] in
theorem next_ne_none {next : α → Option α} {o : Option α} {l : List α} {a e : α}
    (h : ChainTo next (some e) o l) (ha : a ∈ l) : next a ≠ none := by
  induction l generalizing o with
  | nil => exact absurd ha List.not_mem_nil
  | cons c l ih =>
    rcases List.mem_cons.1 ha with rfl | ha
    · cases l with
      | nil => exact fun h0 => absurd (h0.symm.trans h.2) (by simp)
      | cons b l => exact fun h0 => absurd (h0.symm.trans h.2.1) (by simp)
    · exact ih h.2 ha

omit [DecidableEq α] in
theorem lasso_init (q : Queue α) : q.init.Lasso [] :=
  ⟨List.nodup_nil, Or.inl rfl, rfl, fun _ h => absurd h List.not_mem_nil, trivial⟩

omit [DecidableEq α] in
theorem endLink_mem {l : List α} {c : α} (h : endLink .head l = .next c) : c ∈ l := by
  cases l with
  | nil => cases h
  | cons a l =>
    obtain ⟨e, he, hlink⟩ := endLink_cons .head a l
    obtain rfl : e = c := Link.next.inj (hlink.symm.trans h)
    exact he

/-- An insertion of an element whose next pointer is null, be it in the queue or not. -/
theorem Queue.Lasso.insertTail {q : Queue α} {l : List α} {a : α} (h : q.Lasso l)
    (hnext : q.next a = none) :
    ∃ l', (q.insertTail a).Lasso l' ∧ (∀ c ∈ l, c ∈ l') ∧ a ∈ l' := by
  by_cases ha : a ∈ l
  · -- the element is the last one and becomes its own next one
    have hch : ChainTo q.next none q.first l := by
      rcases h.chain with hch | ⟨e, -, hch⟩
      · exact hch
      · exact absurd hnext (next_ne_none hch ha)
    have he : endLink .head l = .next a := endLink_of_next_none hch ha hnext
    have hlast : q.last = .next a := h.last.trans he
    refine ⟨l, ⟨h.nodup, Or.inr ⟨a, he, ?_⟩, he.symm, ?_, ?_⟩, fun _ hc => hc, ha⟩
    · simp only [Queue.insertTail, Queue.store, hlast, Function.update_idem]
      cases l with
      | nil => exact absurd ha List.not_mem_nil
      | cons c l => exact chainTo_redirect hch h.nodup he
    · intro b hb c hc
      rw [insertTail_prev, hlast] at hc
      by_cases hba : b = a
      · subst hba
        rw [Function.update_self] at hc
        cases hc
        exact ha
      · rw [Function.update_of_ne hba] at hc
        exact h.closed b hb c hc
    · rw [insertTail_prev, hlast]
      exact back_update_last h.back h.nodup he
  · have hch : ∃ x, ChainTo q.next x q.first l := by
      rcases h.chain with hch | ⟨e, -, hch⟩
      · exact ⟨none, hch⟩
      · exact ⟨some e, hch⟩
    obtain ⟨x, hch⟩ := hch
    refine ⟨l ++ [a], ⟨nodup_snoc h.nodup ha, Or.inl (chainTo_insertTail h.nodup hch h.last ha),
      (endLink_append .head l a).symm, ?_, ?_⟩, fun c hc => List.mem_append_left _ hc,
      List.mem_append_right _ List.mem_cons_self⟩
    · intro b hb c hc
      rw [insertTail_prev] at hc
      refine List.mem_append_left _ ?_
      by_cases hba : b = a
      · subst hba
        rw [Function.update_self] at hc
        exact endLink_mem (h.last.symm.trans hc)
      · rw [Function.update_of_ne hba] at hc
        rcases List.mem_append.1 hb with hb | hb
        · exact h.closed b hb c hc
        · exact absurd (List.mem_singleton.1 hb) hba
    · rw [insertTail_prev]
      refine back_append (back_update h.back ha) fun c hc h0 => ?_
      rw [Function.update_of_ne (fun h1 : c = a => ha (h1 ▸ hc))] at h0
      exact ha (h.closed c hc a h0)

omit [DecidableEq α] in
theorem chainTo_next_mem {next : α → Option α} {o x : Option α} {l : List α} {a c : α}
    (h : ChainTo next x o l) (ha : a ∈ l) (hnext : next a = some c) : c ∈ l ∨ x = some c := by
  induction l generalizing o with
  | nil => exact absurd ha List.not_mem_nil
  | cons b l ih =>
    rcases List.mem_cons.1 ha with rfl | ha
    · cases l with
      | nil =>
        have hx : next a = x := h.2
        exact Or.inr (hx.symm.trans hnext)
      | cons d l =>
        obtain rfl : d = c := Option.some.inj (h.2.1.symm.trans hnext)
        exact Or.inl (List.mem_cons_of_mem _ List.mem_cons_self)
    · exact (ih h.2 ha).imp_left (List.mem_cons_of_mem _)

omit [DecidableEq α] in
theorem Queue.Lasso.next_mem {q : Queue α} {l : List α} {a c : α} (h : q.Lasso l) (ha : a ∈ l)
    (hnext : q.next a = some c) : c ∈ l := by
  rcases h.chain with hch | ⟨e, he, hch⟩
  · exact (chainTo_next_mem hch ha hnext).resolve_right (by simp)
  · rcases chainTo_next_mem hch ha hnext with hc | hc
    · exact hc
    · cases hc
      exact endLink_mem he

omit [DecidableEq α] in
theorem Queue.Lasso.first_mem {q : Queue α} {l : List α} {a : α} (h : q.Lasso l)
    (hfirst : q.first = some a) : a ∈ l := by
  cases l with
  | nil =>
    rcases h.chain with hch | ⟨e, he, -⟩
    · exact absurd (hfirst.symm.trans hch) (by simp)
    · cases he
  | cons b l =>
    have hb : q.first = some b := by
      rcases h.chain with hch | ⟨e, -, hch⟩
      · exact hch.1
      · exact hch.1
    rw [Option.some.inj (hfirst.symm.trans hb)]
    exact List.mem_cons_self

omit [DecidableEq α] in
theorem lasso_unique_from {next : α → Option α} {p : Link α} {o : Option α} {l l' : List α}
    (h : ChainTo next none o l ∨ ∃ e, endLink p l = .next e ∧ ChainTo next (some e) o l)
    (h' : ChainTo next none o l' ∨ ∃ e, endLink p l' = .next e ∧ ChainTo next (some e) o l')
    (hp : ∀ e, p = .next e → e ∉ l ∧ e ∉ l') (hnd : l.Nodup) (hnd' : l'.Nodup) : l = l' := by
  induction l generalizing l' p o with
  | nil =>
    cases l' with
    | nil => rfl
    | cons a l' =>
      have ho : o = some a := by
        rcases h' with h' | ⟨e, -, h'⟩
        · exact h'.1
        · exact h'.1
      rcases h with h | ⟨e, he, h⟩
      · exact absurd (ho.symm.trans h) (by simp)
      · obtain rfl : a = e := Option.some.inj (ho.symm.trans h)
        exact absurd List.mem_cons_self (hp a he).2
  | cons a l ih =>
    have ho : o = some a := by
      rcases h with h | ⟨e, -, h⟩
      · exact h.1
      · exact h.1
    cases l' with
    | nil =>
      rcases h' with h' | ⟨e, he, h'⟩
      · exact absurd (ho.symm.trans h') (by simp)
      · obtain rfl : a = e := Option.some.inj (ho.symm.trans h')
        exact absurd List.mem_cons_self (hp a he).1
    | cons a' l' =>
      have ho' : o = some a' := by
        rcases h' with h' | ⟨e, -, h'⟩
        · exact h'.1
        · exact h'.1
      obtain rfl : a = a' := Option.some.inj (ho.symm.trans ho')
      congr 1
      refine ih (p := .next a) (o := next a) ?_ ?_ ?_ (List.nodup_cons.1 hnd).2
        (List.nodup_cons.1 hnd').2
      · exact h.imp (fun h => h.2) fun ⟨e, he, h⟩ => ⟨e, he, h.2⟩
      · exact h'.imp (fun h => h.2) fun ⟨e, he, h⟩ => ⟨e, he, h.2⟩
      · intro e he
        cases he
        exact ⟨(List.nodup_cons.1 hnd).1, (List.nodup_cons.1 hnd').1⟩

omit [DecidableEq α] in
theorem Queue.Lasso.unique {q : Queue α} {l l' : List α} (h : q.Lasso l) (h' : q.Lasso l') :
    l = l' :=
  lasso_unique_from h.chain h'.chain (fun _ he => nomatch he) h.nodup h'.nodup

omit [DecidableEq α] in
theorem backs_spec {prev : α → Link α} {p : Link α} {l : List α} (h : Backs prev p l)
    (hnd : l.Nodup) (hp : ∀ c, p = .next c → c ∉ l) :
    Back prev l ∧ ∀ a ∈ l, ∀ c, prev a = .next c → p = .next c ∨ c ∈ l := by
  induction l generalizing p with
  | nil => exact ⟨trivial, fun _ h0 => absurd h0 List.not_mem_nil⟩
  | cons a l ih =>
    have hnd' := List.nodup_cons.1 hnd
    obtain ⟨hback, hmem⟩ := ih h.2 hnd'.2 (by
      rintro c hc
      cases hc
      exact hnd'.1)
    refine ⟨⟨fun c hc hin => ?_, hback⟩, fun b hb c hc => ?_⟩
    · exact hp c (h.1.symm.trans hc) (List.mem_cons_of_mem _ hin)
    · rcases List.mem_cons.1 hb with rfl | hb
      · exact Or.inl (h.1.symm.trans hc)
      · rcases hmem b hb c hc with h0 | h0
        · cases h0
          exact Or.inr List.mem_cons_self
        · exact Or.inr (List.mem_cons_of_mem _ h0)

omit [DecidableEq α] in
theorem Queue.Forms.lasso {q : Queue α} {l : List α} (h : q.Forms l) : q.Lasso l := by
  obtain ⟨hback, hmem⟩ := backs_spec h.backs h.lists.1 fun c hc => nomatch hc
  refine ⟨h.lists.1, Or.inl h.lists.2, h.last, fun a ha c hc => ?_, hback⟩
  exact (hmem a ha c hc).resolve_left fun h0 => nomatch h0

theorem remove_next {q : Queue α} {a b : α} (h : ∀ c, q.prev a = .next c → c ≠ b) :
    (q.remove a).next b = q.next b := by
  have hprev : ∀ q₁ : Queue α, q₁.next = q.next → (∀ c, q₁.prev a = .next c → c ≠ b) →
      (q₁.store (q₁.prev a) (q₁.next a)).next b = q.next b := by
    intro q₁ hq hp
    cases hlink : q₁.prev a with
    | head =>
      show q₁.next b = q.next b
      rw [hq]
    | next c =>
      show Function.update q₁.next c (q₁.next a) b = q.next b
      rw [Function.update_of_ne (hp c hlink).symm, hq]
  cases hn : q.next a with
  | none =>
    simp only [Queue.remove, hn]
    have := hprev { q with last := q.prev a } rfl h
    simpa only [hn] using this
  | some c =>
    simp only [Queue.remove, hn]
    have := hprev { q with prev := Function.update q.prev c (q.prev a) } rfl (by
      intro d hd
      dsimp only at hd
      by_cases hac : a = c
      · subst hac
        rw [Function.update_self] at hd
        exact h d hd
      · rw [Function.update_of_ne hac] at hd
        exact h d hd)
    simpa only [hn] using this

theorem remove_next_self (q : Queue α) (a : α) : (q.remove a).next a = q.next a := by
  have hstore : ∀ (q₁ : Queue α) (p : Link α), (q₁.store p (q₁.next a)).next a = q₁.next a := by
    intro q₁ p
    cases p with
    | head => rfl
    | next c =>
      show Function.update q₁.next c (q₁.next a) a = q₁.next a
      by_cases hc : a = c
      · subst hc
        exact Function.update_self a _ _
      · exact Function.update_of_ne hc _ _
  cases hn : q.next a with
  | none =>
    simp only [Queue.remove, hn]
    simpa only [hn] using hstore { q with last := q.prev a } (q.prev a)
  | some c =>
    simp only [Queue.remove, hn]
    simpa only [hn] using hstore { q with prev := Function.update q.prev c (q.prev a) } _

theorem remove_prev (q : Queue α) (a : α) :
    (q.remove a).prev =
      match q.next a with
      | some c => Function.update q.prev c (q.prev a)
      | none => q.prev := by
  cases hn : q.next a with
  | none =>
    simp only [Queue.remove, hn, Queue.store]
    cases q.prev a <;> rfl
  | some c =>
    simp only [Queue.remove, hn, Queue.store]
    cases Function.update q.prev c (q.prev a) a <;> rfl

omit [DecidableEq α] in
theorem chainTo_congr {next next' : α → Option α} {e o : Option α} {l : List α}
    (h : ChainTo next e o l) (hl : ∀ b ∈ l, next' b = next b) : ChainTo next' e o l := by
  induction l generalizing o with
  | nil => exact h
  | cons a l ih =>
    refine ⟨h.1, ?_⟩
    rw [hl a List.mem_cons_self]
    exact ih h.2 fun b hb => hl b (List.mem_cons_of_mem _ hb)

theorem remove_first {q : Queue α} {e o : Option α} {a : α} {l : List α}
    (hnd : (a :: l).Nodup) (hch : ChainTo q.next e o (a :: l)) (hback : Back q.prev (a :: l)) :
    ChainTo (q.remove a).next e (q.next a) l ∧ Back (q.remove a).prev l := by
  have hnd' := List.nodup_cons.1 hnd
  refine ⟨chainTo_congr hch.2 fun b hb => remove_next fun c hc h0 => ?_, ?_⟩
  · exact hback.1 c hc (h0 ▸ hb)
  · rw [remove_prev]
    cases l with
    | nil => exact trivial
    | cons b l =>
      have hnext : q.next a = some b := hch.2.1
      rw [hnext]
      show Back (Function.update q.prev b (q.prev a)) (b :: l)
      have hb := List.nodup_cons.1 hnd'.2
      refine ⟨fun c hc => ?_, back_update hback.2.2 hb.1⟩
      rw [Function.update_self] at hc
      exact fun hmem => hback.1 c hc (List.mem_cons_of_mem _ hmem)

end TailQueue
