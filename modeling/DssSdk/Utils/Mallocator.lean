import DssSdk.Utils.ItemCache

/-!
# An allocator with caches

`dss_mallocator.c` keeps freed items in caches, one for each core, and asks the heap for memory only
when the cache is empty. A cache is made when it is used for the first time.

* `Mallocator`, `mallocatorGet`, `mallocatorPut`: the source, with what `calloc` gives as an input;
* `Event`, `step`: one call, with the items that callers hold and that the heap knows;
* `bounded_iff`: for which capacities the caches are queues and no item is handed out twice.
-/

namespace DssSdk.Utils

/-- The status codes. -/
inductive MallocStatus
  | success
  | newAllocation
  | error
  deriving DecidableEq, Repr

/-- `dss_mallocator_ctx_s`; a cache that was not made yet is `NULL`. -/
structure Mallocator (α : Type) where
  maxPerCacheItems : UInt64
  cCtx : List (Option (ItemCache α))
  deriving DecidableEq

/-- A capacity of 64 bits as the `int` that `dss_item_cache_init` takes. -/
def capacityArg (n : UInt64) : ℤ := n.toUInt32.toInt32.toInt

section

variable {α : Type}

/-- `dss_mallocator_init`. -/
def Mallocator.init (maxPerCacheItems : UInt64) (numCaches : ℕ) : Mallocator α :=
  ⟨maxPerCacheItems, List.replicate numCaches none⟩

/-- The cache of an index, made if it is not there. `none` when an assertion fails. -/
def Mallocator.cacheAt (m : Mallocator α) (cacheIndex : ℕ) : Option (ItemCache α) :=
  match m.cCtx[cacheIndex]? with
  | none => none
  | some none => ItemCache.init (capacityArg m.maxPerCacheItems)
  | some (some c) => some c

/-- `dss_mallocator_get`: the status and `*mitem`. `fresh` is what `calloc` returns if it is called. -/
def mallocatorGet (m : Mallocator α) (cacheIndex : ℕ) (fresh : Option α) :
    Option (Mallocator α × MallocStatus × Option α) :=
  match m.cacheAt cacheIndex with
  | none => none
  | some c =>
      match c.getItem with
      | none => none
      | some (c', item) =>
          let m' := { m with cCtx := m.cCtx.set cacheIndex (some c') }
          match item with
          | some item => some (m', .success, some item)
          | none => some (m', .newAllocation, fresh)

/-- `dss_mallocator_put` of an item: the status, and whether the item is freed. -/
def mallocatorPut (m : Mallocator α) (cacheIndex : ℕ) (item : α) :
    Option (Mallocator α × MallocStatus × Bool) :=
  match m.cCtx[cacheIndex]? with
  | none => some (m, .error, false)
  | some none => some (m, .error, false)
  | some (some c) =>
      match c.putItem (some item) with
      | none => none
      | some (c', stored) =>
          some ({ m with cCtx := m.cCtx.set cacheIndex (some c') }, .success, !stored)

/-- A call. -/
inductive Event (α : Type)
  | get (cacheIndex : ℕ) (fresh : Option α)
  | put (cacheIndex : ℕ) (item : α)
  deriving DecidableEq

/-- The allocator, the items that were handed out and not put back, and those that were allocated
and not freed. -/
structure MallocState (α : Type) where
  mallocator : Mallocator α
  out : List α
  heap : List α
  deriving DecidableEq

/-- A new allocator. -/
def MallocState.init (maxPerCacheItems : UInt64) (numCaches : ℕ) : MallocState α :=
  ⟨.init maxPerCacheItems numCaches, [], []⟩

variable [DecidableEq α]

/-- One call. -/
def mallocStep (s : MallocState α) : Event α → Option (MallocState α)
  | .get cacheIndex fresh =>
      (mallocatorGet s.mallocator cacheIndex fresh).map fun r =>
        { mallocator := r.1
          out := s.out ++ r.2.2.toList
          heap := if r.2.1 = .newAllocation then s.heap ++ r.2.2.toList else s.heap }
  | .put cacheIndex item =>
      (mallocatorPut s.mallocator cacheIndex item).map fun r =>
        { mallocator := r.1
          out := if r.2.1 = .success then s.out.erase item else s.out
          heap := if r.2.2 = true then s.heap.erase item else s.heap }

/-- A caller has an index of a cache and puts back what it was given; the heap does not give memory
that is in use. -/
def LegalCall (s : MallocState α) : Event α → Prop
  | .get cacheIndex fresh =>
      cacheIndex < s.mallocator.cCtx.length ∧ ∀ item ∈ fresh, item ∉ s.heap
  | .put _ item => item ∈ s.out

instance (s : MallocState α) : ∀ e, Decidable (LegalCall s e)
  | .get cacheIndex fresh =>
      inferInstanceAs (Decidable (cacheIndex < s.mallocator.cCtx.length ∧
        ∀ item ∈ fresh, item ∉ s.heap))
  | .put _ item => inferInstanceAs (Decidable (item ∈ s.out))

/-- In every run no item is handed out that was not put back. -/
def HandsOutOnce (α : Type) [DecidableEq α] (maxPerCacheItems : UInt64) : Prop :=
  ∀ (numCaches : ℕ) (events : List (Event α)),
    Run.Admissible mallocStep LegalCall (.init maxPerCacheItems numCaches) events →
      ∃ s, Run.run mallocStep (.init maxPerCacheItems numCaches) events = some s ∧ s.out.Nodup

end

section

variable {α : Type} {s s' : MallocState α} {queues : ℕ → List α} {m : Mallocator α} {i : ℕ}

/-- A small cache with the items of a queue; a cache that is not made holds nothing. -/
def Holds (q : List α) : Option (ItemCache α) → Prop
  | none => q = []
  | some c => Refines c q ∧ c.cap ≤ 2 ^ 30

variable [DecidableEq α]

/-- Every item of the heap is held by a caller or stands in one of the caches, and once. -/
structure Balanced (s : MallocState α) (queues : ℕ → List α) : Prop where
  capacity : 0 < capacityArg s.mallocator.maxPerCacheItems ∧
    capacityArg s.mallocator.maxPerCacheItems ≤ 2 ^ 30
  holds : ∀ i slot, s.mallocator.cCtx[i]? = some slot → Holds (queues i) slot
  count : ∀ x, s.out.count x +
    ∑ i ∈ Finset.range s.mallocator.cCtx.length, (queues i).count x = s.heap.count x
  nodup : s.heap.Nodup

theorem Balanced.nodup_out (h : Balanced s queues) : s.out.Nodup := by
  rw [List.nodup_iff_count_le_one]
  intro x
  have hheap := List.nodup_iff_count_le_one.1 h.nodup x
  have := h.count x
  omega

theorem sum_count_update {n : ℕ} (hi : i < n) (q : List α) (x : α) :
    ∑ k ∈ Finset.range n, (Function.update queues i q k).count x + (queues i).count x =
      ∑ k ∈ Finset.range n, (queues k).count x + q.count x := by
  have hmem : i ∈ Finset.range n := Finset.mem_range.2 hi
  rw [← Finset.add_sum_erase _ _ hmem,
    ← Finset.add_sum_erase _ (fun k => (queues k).count x) hmem, Function.update_self]
  have hrest : ∑ k ∈ (Finset.range n).erase i, (Function.update queues i q k).count x =
      ∑ k ∈ (Finset.range n).erase i, (queues k).count x := by
    apply Finset.sum_congr rfl
    intro k hk
    rw [Function.update_of_ne (Finset.ne_of_mem_erase hk)]
  omega

theorem Balanced.cacheAt (h : Balanced s queues) (hi : i < s.mallocator.cCtx.length) :
    ∃ c, s.mallocator.cacheAt i = some c ∧ Refines c (queues i) ∧ c.cap ≤ 2 ^ 30 := by
  have hslot : s.mallocator.cCtx[i]? = some s.mallocator.cCtx[i] := List.getElem?_eq_getElem hi
  have hholds := h.holds i _ hslot
  rw [Mallocator.cacheAt, hslot]
  cases hc : s.mallocator.cCtx[i] with
  | none =>
    rw [hc] at hholds
    obtain ⟨hpos, hle⟩ := h.capacity
    obtain ⟨c, hinit⟩ := @init_of_pos α _ hpos
    have hq : queues i = [] := hholds
    rw [hq]
    exact ⟨c, hinit, refines_init hinit, by rw [(cap_of_init hinit).2]; omega⟩
  | some c =>
    rw [hc] at hholds
    exact ⟨c, rfl, hholds.1, hholds.2⟩

theorem Balanced.holds_set (h : Balanced s queues) {c : ItemCache α} {q : List α}
    (hc : Refines c q) (hcap : c.cap ≤ 2 ^ 30) (k : ℕ) (slot : Option (ItemCache α))
    (hk : (s.mallocator.cCtx.set i (some c))[k]? = some slot) :
    Holds (Function.update queues i q k) slot := by
  rcases eq_or_ne k i with rfl | hne
  · rw [Function.update_self]
    rw [List.getElem?_set_self'] at hk
    obtain ⟨_, -, rfl⟩ := Option.map_eq_some_iff.1 hk
    exact ⟨hc, hcap⟩
  · rw [Function.update_of_ne hne]
    rw [List.getElem?_set_ne hne.symm] at hk
    exact h.holds k slot hk

/-- The allocator with another cache at an index. -/
def Mallocator.setCache (m : Mallocator α) (i : ℕ) (c : ItemCache α) : Mallocator α :=
  { m with cCtx := m.cCtx.set i (some c) }

section

variable {c c' : ItemCache α} {fresh : Option α} {item : α}

theorem mallocStep_get_empty (hc : s.mallocator.cacheAt i = some c)
    (hg : c.getItem = some (c', none)) : mallocStep s (.get i fresh) =
      some ⟨s.mallocator.setCache i c', s.out ++ fresh.toList, s.heap ++ fresh.toList⟩ := by
  simp [mallocStep, mallocatorGet, Mallocator.setCache, hc, hg]

theorem mallocStep_get_item (hc : s.mallocator.cacheAt i = some c)
    (hg : c.getItem = some (c', some item)) :
    mallocStep s (.get i fresh) = some ⟨s.mallocator.setCache i c', s.out ++ [item], s.heap⟩ := by
  simp [mallocStep, mallocatorGet, Mallocator.setCache, hc, hg]

theorem mallocStep_put_stored (hc : s.mallocator.cCtx[i]? = some (some c))
    (hp : c.putItem (some item) = some (c', true)) : mallocStep s (.put i item) =
      some ⟨s.mallocator.setCache i c', s.out.erase item, s.heap⟩ := by
  simp [mallocStep, mallocatorPut, Mallocator.setCache, hc, hp]

theorem mallocStep_put_freed (hc : s.mallocator.cCtx[i]? = some (some c))
    (hp : c.putItem (some item) = some (c', false)) : mallocStep s (.put i item) =
      some ⟨s.mallocator.setCache i c', s.out.erase item, s.heap.erase item⟩ := by
  simp [mallocStep, mallocatorPut, Mallocator.setCache, hc, hp]

theorem mallocStep_put_error (hc : ∀ c, s.mallocator.cCtx[i]? ≠ some (some c)) :
    mallocStep s (.put i item) = some s := by
  rw [mallocStep, mallocatorPut]
  split
  · rfl
  · rfl
  · rename_i c hslot
    exact absurd hslot (hc c)

end

theorem Balanced.setCache (h : Balanced s queues) (hi : i < s.mallocator.cCtx.length)
    {c : ItemCache α} {q out heap : List α} (hc : Refines c q) (hcap : c.cap ≤ 2 ^ 30)
    (hcount : ∀ x, out.count x + q.count x + s.heap.count x =
      s.out.count x + (queues i).count x + heap.count x) (hnodup : heap.Nodup) :
    Balanced ⟨s.mallocator.setCache i c, out, heap⟩ (Function.update queues i q) where
  capacity := h.capacity
  holds := h.holds_set hc hcap
  count := by
    intro x
    have hsum := @sum_count_update α queues i _ _ hi q x
    have hold := h.count x
    have hnew := hcount x
    have hlen : (s.mallocator.setCache i c).cCtx.length = s.mallocator.cCtx.length :=
      List.length_set
    dsimp only
    rw [hlen]
    omega
  nodup := hnodup

/-- A call for an item. -/
theorem Balanced.get (h : Balanced s queues) {fresh : Option α}
    (hi : i < s.mallocator.cCtx.length) (hfresh : ∀ item ∈ fresh, item ∉ s.heap) :
    ∃ s' queues', mallocStep s (.get i fresh) = some s' ∧ Balanced s' queues' := by
  obtain ⟨c, hc, href, hcap⟩ := h.cacheAt hi
  cases hq : queues i with
  | nil =>
    rw [hq] at href
    refine ⟨_, _, mallocStep_get_empty hc href.get_empty, h.setCache hi href hcap (fun x => ?_) ?_⟩
    · rw [hq, List.count_append, List.count_append]
      omega
    · rw [List.nodup_append]
      refine ⟨h.nodup, by cases fresh <;> simp, fun a ha b hb => ?_⟩
      rintro rfl
      exact hfresh a (by simpa using hb) ha
  | cons item q =>
    rw [hq] at href
    obtain ⟨c', hget, href', hcap', -⟩ := href.get
    refine ⟨_, _, mallocStep_get_item hc hget,
      h.setCache hi href' (hcap'.trans_le hcap) (fun x => ?_) h.nodup⟩
    rw [hq, List.count_append, List.count_cons, List.count_cons, List.count_nil]
    omega

theorem Balanced.mem_heap (h : Balanced s queues) {item : α} (hout : item ∈ s.out) :
    item ∈ s.heap := by
  rw [← List.count_pos_iff] at hout ⊢
  have := h.count item
  omega

theorem count_erase_add {l : List α} {item : α} (h : item ∈ l) (x : α) :
    (l.erase item).count x + [item].count x = l.count x := by
  rw [Nat.add_comm, ← List.count_append, List.singleton_append, (List.perm_cons_erase h).count_eq x]

/-- A call with an item that was handed out. -/
theorem Balanced.put (h : Balanced s queues) {item : α} (hout : item ∈ s.out) :
    ∃ s' queues', mallocStep s (.put i item) = some s' ∧ Balanced s' queues' := by
  by_cases hnone : ∀ c, s.mallocator.cCtx[i]? ≠ some (some c)
  · exact ⟨s, queues, mallocStep_put_error hnone, h⟩
  · obtain ⟨c, hslot⟩ := not_forall_not.1 hnone
    have hi : i < s.mallocator.cCtx.length := (List.getElem?_eq_some_iff.1 hslot).1
    obtain ⟨href, hcap⟩ : Refines c (queues i) ∧ c.cap ≤ 2 ^ 30 := h.holds i _ hslot
    by_cases hfull : (queues i).length = c.cap
    · refine ⟨_, _, mallocStep_put_freed hslot (href.put_full hfull (some item)),
        h.setCache hi href hcap (fun x => ?_) (h.nodup.erase item)⟩
      have hback := count_erase_add hout x
      have hheap := count_erase_add (h.mem_heap hout) x
      omega
    · obtain ⟨c', hput, href', hcap', -⟩ :=
        href.put (lt_of_le_of_ne href.bound hfull) (href.small hcap) item
      refine ⟨_, _, mallocStep_put_stored hslot hput,
        h.setCache hi href' (hcap'.trans_le hcap) (fun x => ?_) h.nodup⟩
      have hback := count_erase_add hout x
      rw [List.count_append]
      omega

/-- One legal call. -/
theorem Balanced.step (h : Balanced s queues) {e : Event α} (hlegal : LegalCall s e) :
    ∃ s' queues', mallocStep s e = some s' ∧ Balanced s' queues' := by
  cases e with
  | get cacheIndex fresh => exact h.get hlegal.1 hlegal.2
  | put cacheIndex item => exact h.put hlegal

theorem handsOutOnce_of_small {maxPerCacheItems : UInt64}
    (hpos : 0 < capacityArg maxPerCacheItems) (hle : capacityArg maxPerCacheItems ≤ 2 ^ 30) :
    HandsOutOnce α maxPerCacheItems := by
  intro numCaches events hok
  have hinit : Balanced (MallocState.init maxPerCacheItems numCaches : MallocState α) fun _ => [] :=
    { capacity := ⟨hpos, hle⟩
      holds := by
        intro i slot hslot
        rw [MallocState.init, Mallocator.init, List.getElem?_replicate] at hslot
        split at hslot
        · cases hslot
          rfl
        · cases hslot
      count := by simp [MallocState.init]
      nodup := List.nodup_nil }
  have hstep : ∀ (s : MallocState α) (e : Event α), (∃ queues, Balanced s queues) → LegalCall s e →
      ∃ s', mallocStep s e = some s' ∧ ∃ queues, Balanced s' queues := by
    rintro s e ⟨queues, h⟩ hlegal
    obtain ⟨s', queues', hs, h'⟩ := h.step hlegal
    exact ⟨s', hs, queues', h'⟩
  obtain ⟨s, hrun, queues, h⟩ := Run.run_total hstep ⟨_, hinit⟩ hok
  exact ⟨s, hrun, h.nodup_out⟩

/-- **For which capacities a cache is a bounded queue**, and the allocator hands out no item twice:
those for which the sum of two places is an `int`. -/
theorem bounded_iff [Nonempty α] {capacity : ℤ} {c : ItemCache α} (hint : capacity < intLimit)
    (hinit : ItemCache.init capacity = some c) :
    ((∀ ops, Fifo c ops) ∧
      ∀ maxPerCacheItems, capacityArg maxPerCacheItems = capacity → HandsOutOnce α maxPerCacheItems) ↔
      capacity ≤ 2 ^ 30 := by
  obtain ⟨hpos, hcap⟩ := cap_of_init hinit
  constructor
  · rintro ⟨hfifo, -⟩
    by_contra hlarge
    obtain ⟨item⟩ := ‹Nonempty α›
    obtain ⟨s, hrun, -⟩ := hfifo (wrapOps c.cap item)
    rw [run_wrapOps hinit (by rw [hcap]; omega) (by rw [hcap]; omega)] at hrun
    cases hrun
  · intro hle
    refine ⟨fun ops => fifo_of_small hinit (by rw [hcap]; omega) ops, ?_⟩
    rintro maxPerCacheItems rfl
    exact handsOutOnce_of_small hpos hle

end

/-- A cache for three items. -/
theorem bounded_three : (∀ ops : List (Op ℕ), Fifo ⟨0, none, 3, [none, none, none]⟩ ops) ∧
    ∀ maxPerCacheItems, capacityArg maxPerCacheItems = 3 → HandsOutOnce ℕ maxPerCacheItems :=
  (bounded_iff (show (3 : ℤ) < intLimit by decide) rfl).2 (by decide)

/-- The smallest capacity for which the cache is no queue. -/
theorem not_fifo_large : ∃ c : ItemCache ℕ, ItemCache.init (2 ^ 30 + 1) = some c ∧
    ¬ Fifo c (wrapOps c.cap 0) := by
  obtain ⟨c, hc⟩ := @init_of_pos ℕ (2 ^ 30 + 1) (by norm_num)
  obtain ⟨-, hcap⟩ := cap_of_init hc
  refine ⟨c, hc, ?_⟩
  rintro ⟨s, hrun, -⟩
  rw [run_wrapOps hc (by rw [hcap]; omega) (by rw [hcap]; norm_num)] at hrun
  cases hrun

end DssSdk.Utils
