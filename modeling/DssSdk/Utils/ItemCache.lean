import DssSdk.Lib.Ring
import DssSdk.Lib.Run

/-!
# Caches of items

`dss_item_cache.c`: pointers in a ring of cells, with the number of them and the index of the
oldest one, which is minus one for an empty cache.

* `ItemCache`, `ItemCache.init`, `putItem`, `getItem`: the source;
* `queueStep`, `queueRun`: a queue of bounded length;
* `Refines`, `run_refines`: the cache is such a queue as long as no sum overflows;
* `run_overflow`: a large cache can be brought to an overflow.
-/

namespace DssSdk.Utils

/-- `dss_item_cache_context_s`. An empty cache has no index, and `NULL` in a cell is `none`. -/
structure ItemCache (α : Type) where
  nitems : ℕ
  itemIndex : Option ℕ
  cap : ℕ
  items : List (Option α)
  deriving DecidableEq

/-- One more than the largest `int`. -/
abbrev intLimit : ℕ := 2 ^ 31

section

variable {α : Type}

/-- `dss_item_cache_init`; memory does not run out. -/
def ItemCache.init (capacity : ℤ) : Option (ItemCache α) :=
  if capacity ≤ 0 then none
  else some ⟨0, none, capacity.toNat, List.replicate capacity.toNat none⟩

/-- A write to a cell, `none` outside of the array. -/
def ItemCache.store (c : ItemCache α) (index : ℕ) (item : α) : Option (ItemCache α) :=
  if index < c.items.length then
    some { c with items := c.items.set index (some item), nitems := c.nitems + 1 }
  else none

/-- `dss_item_cache_put_item`: whether it returns zero. `none` when the sum of two `int` overflows. -/
def ItemCache.putItem (c : ItemCache α) (item : Option α) : Option (ItemCache α × Bool) :=
  if c.nitems = c.cap then some (c, false)
  else
    match item with
    | none => some (c, false)
    | some item =>
        match c.itemIndex with
        | none => ({ c with itemIndex := some 0 }.store 0 item).map (·, true)
        | some first =>
            if first + c.nitems < intLimit then
              (c.store ((first + c.nitems) % c.cap) item).map (·, true)
            else none

/-- `dss_item_cache_get_item`; `none` outside of the array. -/
def ItemCache.getItem (c : ItemCache α) : Option (ItemCache α × Option α) :=
  if c.nitems = 0 then some (c, none)
  else
    match c.itemIndex with
    | none => none
    | some first =>
        match c.items[first]? with
        | none => none
        | some item =>
            some
              ({ c with
                  nitems := c.nitems - 1
                  items := c.items.set first none
                  itemIndex := if c.nitems - 1 = 0 then none else some ((first + 1) % c.cap) },
                item)

/-- A call. -/
inductive Op (α : Type)
  | put (item : α)
  | get
  deriving DecidableEq

/-- What a call returns. -/
inductive Out (α : Type)
  | put (stored : Bool)
  | got (item : Option α)
  deriving DecidableEq

/-- A cache, and what the calls returned so far. -/
structure CacheState (α : Type) where
  cache : ItemCache α
  outs : List (Out α)
  deriving DecidableEq

/-- One call. -/
def cacheStep (s : CacheState α) : Op α → Option (CacheState α)
  | .put item => (s.cache.putItem (some item)).map fun r => ⟨r.1, s.outs ++ [.put r.2]⟩
  | .get => s.cache.getItem.map fun r => ⟨r.1, s.outs ++ [.got r.2]⟩

/-- A queue of at most `cap` items: a full one takes no more, and the oldest item leaves first. -/
def queueStep (cap : ℕ) (q : List α) : Op α → List α × Out α
  | .put item => if q.length = cap then (q, .put false) else (q ++ [item], .put true)
  | .get => (q.tail, .got q.head?)

/-- A queue after some calls, and what they returned. -/
def queueRun (cap : ℕ) : List α → List (Op α) → List α × List (Out α)
  | q, [] => (q, [])
  | q, op :: ops =>
      let r := queueStep cap q op
      let rest := queueRun cap r.1 ops
      (rest.1, r.2 :: rest.2)

/-- A new cache serves the calls as the queue of its capacity does. -/
def Fifo (c : ItemCache α) (ops : List (Op α)) : Prop :=
  ∃ s, Run.run cacheStep ⟨c, []⟩ ops = some s ∧ s.outs = (queueRun c.cap [] ops).2 ∧
    s.cache.nitems = (queueRun c.cap [] ops).1.length

end

section

variable {α : Type} {c c' : ItemCache α} {q : List α} {item : α}

/-- The cache holds the items of a queue. -/
structure Refines (c : ItemCache α) (q : List α) : Prop where
  pos : 0 < c.cap
  length : c.items.length = c.cap
  bound : q.length ≤ c.cap
  nitems : c.nitems = q.length
  empty : q = [] → c.itemIndex = none
  held : q ≠ [] → ∃ first < c.cap, c.itemIndex = some first ∧
    Ring.contents (fun k => c.items[k]?) c.cap first q.length = q.map fun x => some (some x)

/-- The sum of the next insertion is an `int`. -/
def ItemCache.Small (c : ItemCache α) : Prop := ∀ first ∈ c.itemIndex, first + c.nitems < intLimit

theorem init_of_pos {capacity : ℤ} (h : 0 < capacity) :
    ∃ c : ItemCache α, ItemCache.init capacity = some c := ⟨_, if_neg (not_le.2 h)⟩

theorem cap_of_init {capacity : ℤ} (h : ItemCache.init capacity = some c) :
    0 < capacity ∧ c.cap = capacity.toNat := by
  unfold ItemCache.init at h
  split at h
  · cases h
  · cases h
    exact ⟨by omega, rfl⟩

theorem refines_init {capacity : ℤ} (h : ItemCache.init capacity = some c) : Refines c [] := by
  unfold ItemCache.init at h
  split at h
  · cases h
  · rename_i hpos
    cases h
    exact ⟨by simp; omega, by simp, Nat.zero_le _, rfl, fun _ => rfl, fun h => absurd rfl h⟩

theorem getElem?_set_eq_update {l : List (Option α)} {i : ℕ} {a : Option α} (hi : i < l.length) :
    (fun k => (l.set i a)[k]?) = Function.update (fun k => l[k]?) i (some a) := by
  funext k
  rcases eq_or_ne k i with rfl | hne
  · simp [hi]
  · simp [hne, hne.symm]

theorem Refines.put_full (h : Refines c q) (hq : q.length = c.cap) (item : Option α) :
    c.putItem item = some (c, false) := if_pos (h.nitems.trans hq)

/-- An item goes behind the others. -/
theorem Refines.put (h : Refines c q) (hq : q.length < c.cap) (hs : c.Small) (item : α) :
    ∃ c', c.putItem (some item) = some (c', true) ∧ Refines c' (q ++ [item]) ∧ c'.cap = c.cap ∧
      c'.nitems = c.nitems + 1 ∧ c'.itemIndex = some (c.itemIndex.getD 0) := by
  have hne : c.nitems ≠ c.cap := by
    rw [h.nitems]
    exact hq.ne
  have hlen : (q ++ [item]).length = q.length + 1 := by simp
  rw [ItemCache.putItem, if_neg hne]
  by_cases hempty : q = []
  · subst hempty
    have hpos : 0 < c.items.length := by
      rw [h.length]
      exact h.pos
    simp only [h.empty rfl, ItemCache.store, if_pos hpos]
    refine ⟨_, rfl, ⟨h.pos, by simpa using h.length, hq, ?_, by simp, fun _ => ?_⟩, rfl, rfl, rfl⟩
    · simp [h.nitems]
    · refine ⟨0, h.pos, rfl, ?_⟩
      rw [getElem?_set_eq_update hpos, hlen]
      simpa [Nat.mod_eq_of_lt h.pos] using @Ring.contents_update_end _ (fun k => c.items[k]?) c.cap 0 0
        h.pos (some (some item))
  · obtain ⟨first, hfirst, hindex, hcont⟩ := h.held hempty
    have hplace : (first + c.nitems) % c.cap < c.items.length := by
      rw [h.length]
      exact Nat.mod_lt _ h.pos
    simp only [hindex, if_pos (hs first hindex), ItemCache.store, if_pos hplace]
    refine ⟨_, rfl, ⟨h.pos, by simpa using h.length, ?_, ?_, by simp, fun _ => ?_⟩, rfl, rfl, rfl⟩
    · rw [hlen]
      exact hq
    · rw [hlen, h.nitems]
    · refine ⟨first, hfirst, rfl, ?_⟩
      rw [getElem?_set_eq_update hplace, hlen, h.nitems, Ring.contents_update_end hq, hcont]
      simp

theorem Refines.get_empty (h : Refines c []) : c.getItem = some (c, none) := if_pos h.nitems

/-- The oldest item comes back. -/
theorem Refines.get (h : Refines c (item :: q)) :
    ∃ c', c.getItem = some (c', some item) ∧ Refines c' q ∧ c'.cap = c.cap ∧
      c'.nitems = q.length ∧
      ∀ first ∈ c.itemIndex, q ≠ [] → c'.itemIndex = some ((first + 1) % c.cap) := by
  obtain ⟨first, hfirst, hindex, hcont⟩ := h.held (List.cons_ne_nil _ _)
  have hn : c.nitems = q.length + 1 := h.nitems
  have hb : q.length < c.cap := h.bound
  rw [List.length_cons, Ring.contents_cons, List.map_cons, List.cons.injEq,
    Nat.mod_eq_of_lt hfirst] at hcont
  obtain ⟨hhead, hrest⟩ := hcont
  rw [ItemCache.getItem, if_neg (by omega), hindex]
  simp only [hhead]
  have hsub : c.nitems - 1 = q.length := by omega
  refine ⟨_, rfl, ⟨h.pos, by simpa using h.length, hb.le, hsub, fun hq => ?_, fun hq => ?_⟩, rfl, hsub,
    fun first' hf hq => ?_⟩
  · simp [hsub, hq]
  · refine ⟨(first + 1) % c.cap, Nat.mod_lt _ h.pos, ?_, ?_⟩
    · simp [hsub, hq]
    · rw [getElem?_set_eq_update (by rw [h.length]; exact hfirst),
        Ring.contents_update_start hfirst hb, hrest]
  · rw [Option.mem_def, Option.some.injEq] at hf
    subst hf
    simp [hsub, hq]

/-- In a cache of at most `2 ^ 30` cells no sum overflows. -/
theorem Refines.small (h : Refines c q) (hc : c.cap ≤ 2 ^ 30) : c.Small := by
  intro first hf
  rcases eq_or_ne q [] with hq | hq
  · rw [h.empty hq] at hf
    cases hf
  · obtain ⟨first', hlt, hindex, -⟩ := h.held hq
    rw [hindex, Option.mem_def, Option.some.injEq] at hf
    have := h.bound
    rw [h.nitems]
    change first + q.length < 2 ^ 31
    omega

theorem step_refines {s : CacheState α} (h : Refines s.cache q) (hc : s.cache.cap ≤ 2 ^ 30)
    (op : Op α) :
    ∃ s', cacheStep s op = some s' ∧ Refines s'.cache (queueStep s.cache.cap q op).1 ∧
      s'.cache.cap = s.cache.cap ∧ s'.outs = s.outs ++ [(queueStep s.cache.cap q op).2] := by
  cases op with
  | put item =>
    rw [cacheStep, queueStep]
    split
    · rename_i hq
      rw [h.put_full hq]
      exact ⟨_, rfl, h, rfl, rfl⟩
    · rename_i hq
      obtain ⟨c', hput, href, hcap, -⟩ := h.put (lt_of_le_of_ne h.bound hq) (h.small hc) item
      rw [hput]
      exact ⟨_, rfl, href, hcap, rfl⟩
  | get =>
    rw [cacheStep, queueStep]
    cases q with
    | nil =>
      rw [h.get_empty]
      exact ⟨_, rfl, h, rfl, rfl⟩
    | cons item q =>
      obtain ⟨c', hget, href, hcap, -⟩ := h.get
      rw [hget]
      exact ⟨_, rfl, href, hcap, rfl⟩

/-- A run on a small cache is one on the queue. -/
theorem run_refines {s : CacheState α} (h : Refines s.cache q) (hc : s.cache.cap ≤ 2 ^ 30)
    (ops : List (Op α)) :
    ∃ s', Run.run cacheStep s ops = some s' ∧ Refines s'.cache (queueRun s.cache.cap q ops).1 ∧
      s'.outs = s.outs ++ (queueRun s.cache.cap q ops).2 := by
  induction ops generalizing s q with
  | nil => exact ⟨s, rfl, h, (List.append_nil _).symm⟩
  | cons op ops ih =>
    obtain ⟨s₁, hstep, href, hcap, houts⟩ := step_refines h hc op
    obtain ⟨s', hrun, href', houts'⟩ := ih href (hcap ▸ hc)
    rw [hcap] at href' houts'
    refine ⟨s', ?_, href', ?_⟩
    · rw [Run.run_cons, hstep, Option.bind_some, hrun]
    · rw [houts', houts, List.append_assoc]
      rfl

theorem fifo_of_small {capacity : ℤ} (h : ItemCache.init capacity = some c) (hc : c.cap ≤ 2 ^ 30)
    (ops : List (Op α)) : Fifo c ops := by
  obtain ⟨s', hrun, href, houts⟩ := run_refines (refines_init h : Refines (CacheState.mk c []).cache []) hc ops
  exact ⟨s', hrun, by simpa using houts, href.nitems⟩

section Overflow

/-- Insertions leave the index alone. -/
theorem Refines.puts (h : Refines c q) (outs : List (Out α)) (k : ℕ) (hk : q.length + k ≤ c.cap)
    (hs : c.itemIndex.getD 0 + q.length + k ≤ intLimit) (item : α) :
    ∃ c' outs', Run.run cacheStep ⟨c, outs⟩ (List.replicate k (.put item)) = some ⟨c', outs'⟩ ∧
      Refines c' (q ++ List.replicate k item) ∧ c'.cap = c.cap ∧
      c'.itemIndex.getD 0 = c.itemIndex.getD 0 := by
  induction k generalizing c q outs with
  | zero => exact ⟨c, outs, rfl, by simpa using h, rfl, rfl⟩
  | succ k ih =>
    have hsmall : c.Small := by
      intro first hf
      rw [Option.mem_def.1 hf, Option.getD_some] at hs
      rw [h.nitems]
      omega
    obtain ⟨c₁, hput, href, hcap, -, hindex⟩ := h.put (by omega) hsmall item
    have hlen : (q ++ [item]).length = q.length + 1 := by simp
    obtain ⟨c', outs', hrun, href', hcap', hindex'⟩ :=
      ih href (outs ++ [.put true]) (by rw [hlen, hcap]; omega)
        (by rw [hlen, hindex, Option.getD_some]; omega)
    refine ⟨c', outs', ?_, ?_, hcap'.trans hcap, ?_⟩
    · rw [List.replicate_succ, Run.run_cons, cacheStep, hput]
      exact hrun
    · rwa [List.append_assoc, List.singleton_append, ← List.replicate_succ] at href'
    · rw [hindex', hindex, Option.getD_some]

/-- Removals move the index on. -/
theorem Refines.gets {q₁ : List α} (h : Refines c (q₁ ++ q)) (outs : List (Out α)) (hq : q ≠ []) {first : ℕ}
    (hf : c.itemIndex = some first) (hlt : first + q₁.length < c.cap) :
    ∃ c' outs', Run.run cacheStep ⟨c, outs⟩ (List.replicate q₁.length .get) = some ⟨c', outs'⟩ ∧
      Refines c' q ∧ c'.cap = c.cap ∧ c'.itemIndex = some (first + q₁.length) := by
  induction q₁ generalizing c first outs with
  | nil => exact ⟨c, outs, rfl, h, rfl, hf⟩
  | cons item q₁ ih =>
    rw [List.length_cons] at hlt
    obtain ⟨c₁, hget, href, hcap, -, hindex⟩ := Refines.get (List.cons_append ▸ h)
    have hne : q₁ ++ q ≠ [] := List.append_ne_nil_of_right_ne_nil _ hq
    have hindex₁ := hindex first hf hne
    rw [Nat.mod_eq_of_lt (by omega)] at hindex₁
    obtain ⟨c', outs', hrun, href', hcap', hindex'⟩ :=
      ih href (outs ++ [.got (some item)]) hindex₁ (by rw [hcap]; omega)
    refine ⟨c', outs', ?_, href', hcap'.trans hcap, ?_⟩
    · rw [List.length_cons, List.replicate_succ, Run.run_cons, cacheStep, hget]
      exact hrun
    · rw [hindex', List.length_cons, Nat.add_assoc, Nat.add_comm 1]

/-- Calls that fill a cache, take out all items but the last, and fill it again. -/
def wrapOps (cap : ℕ) (item : α) : List (Op α) :=
  List.replicate cap (.put item) ++ List.replicate (cap - 1) .get ++
    List.replicate (intLimit - cap) (.put item) ++ [.put item]

theorem run_wrapOps {capacity : ℤ} (h : ItemCache.init capacity = some c) (hc : 2 ^ 30 < c.cap)
    (hint : c.cap < intLimit) (item : α) :
    Run.run cacheStep ⟨c, []⟩ (wrapOps c.cap item) = none := by
  have hinit := refines_init h
  have hlimit : intLimit = 2 ^ 31 := rfl
  have hindex₀ : c.itemIndex.getD 0 = 0 := by rw [hinit.empty rfl]; rfl
  obtain ⟨c₁, outs₁, hrun₁, href₁, hcap₁, hindex₁⟩ :=
    hinit.puts [] c.cap (by simp) (by rw [hindex₀]; simp; omega) item
  obtain ⟨first, -, hfirst, -⟩ := href₁.held (by simp; omega)
  have hzero : c₁.itemIndex = some 0 := by
    rw [hindex₀, hfirst, Option.getD_some] at hindex₁
    rw [hfirst, hindex₁]
  have hsplit : [] ++ List.replicate c.cap item =
      List.replicate (c.cap - 1) item ++ [item] := by
    rw [List.nil_append, ← List.replicate_succ']
    congr 1
    omega
  rw [hsplit] at href₁
  obtain ⟨c₂, outs₂, hrun₂, href₂, hcap₂, hindex₂⟩ :=
    href₁.gets outs₁ (by simp) hzero (by rw [hcap₁]; simp; omega)
  rw [List.length_replicate] at hrun₂ hindex₂
  obtain ⟨c₃, outs₃, hrun₃, href₃, hcap₃, hindex₃⟩ :=
    href₂.puts outs₂ (intLimit - c.cap) (by rw [hcap₂, hcap₁]; simp; omega) (by rw [hindex₂]; simp; omega) item
  have hn : c₃.nitems = 1 + (intLimit - c.cap) := by
    rw [href₃.nitems, List.length_append, List.length_replicate, List.length_singleton]
  obtain ⟨last, -, hlast, -⟩ := href₃.held (by simp)
  rw [hlast, hindex₂, Option.getD_some, Option.getD_some] at hindex₃
  have hput : c₃.putItem (some item) = none := by
    rw [ItemCache.putItem, if_neg (by rw [hcap₃, hcap₂, hcap₁, hn]; omega), hlast]
    exact if_neg (by rw [hindex₃, hn]; omega)
  rw [wrapOps, Run.run_append, Run.run_append, Run.run_append, hrun₁, Option.bind_some, hrun₂,
    Option.bind_some, hrun₃, Option.bind_some, Run.run_cons, cacheStep, hput]
  rfl

end Overflow

end

end DssSdk.Utils
