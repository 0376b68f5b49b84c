import DssSdk.Host.ReadCache
import DssSdk.Lib.NodeList
import DssSdk.Lib.RecencyList
import DssSdk.Lib.Run
import Mathlib.Data.List.AList

/-!
# The two structures of the read cache

`nkv_lruCache` of `nkv_utils.h`: a hash map from the keys to the nodes of a list of entries, the entry
that was used last in front.

* `put`, `get`, `del`: the operations; `none` is the use of an iterator to no node, or the end of `get`
  without a `return`;
* `step`: an operation, with what it does added to a history, the last event in front;
* `Consistent`: the map and the list have the same keys, and an entry of the map points at its node;
* `stored`, `lastUse`: what the history says about a key;
* `Right`, `AllRight`: the events are those of a bounded cache that evicts the least recent key;
* `lru_iff`: a sequence of operations is right just when every `get` is of a key in the cache;
* `refines_lru`: the operations on the entries are those of `DssSdk.Host.Lru`.

Allocation gives a node an address that was not used before. The sizes of the class are 64 bits wide.
-/

namespace DssSdk.Host.LruCache

open Listing

variable {K V : Type} [DecidableEq K]

/-! ### The operations -/

/-- `_cache_map` and `_cache_list`, with the next address of a node. -/
structure Cache (K V : Type) where
  map : AList fun _ : K => ℕ
  list : List (ℕ × K × V)
  brk : ℕ

namespace Cache

/-- The constructor. -/
def init : Cache K V := ⟨∅, [], 0⟩

/-- `_cache_map.size()`. -/
def size (c : Cache K V) : ℕ := c.map.keys.length

/-- `_threshold_size`. -/
def threshold (maxSize : UInt64) : UInt64 := 90 * maxSize / 100

/-- The entry of a key is erased from the list and from the map, if there is one. -/
def unlink (c : Cache K V) (key : K) : Option (Cache K V) :=
  match c.map.lookup key with
  | some it =>
      (NodeList.erase c.list it).map fun list => { c with map := c.map.erase key, list := list }
  | none => some c

/-- `push_front`, and the iterator to the new node in the map. -/
def link (c : Cache K V) (key : K) (val : V) : Cache K V :=
  ⟨c.map.insert key c.brk, (c.brk, key, val) :: c.list, c.brk + 1⟩

/-- The eviction at the end of `put`, with the key that it removes. -/
def evict (maxSize : UInt64) (c : Cache K V) : Option (Cache K V × Option K) :=
  if maxSize.toNat < c.size then
    c.list.getLast?.map fun last =>
      ({ c with map := c.map.erase last.2.1, list := c.list.dropLast }, some last.2.1)
  else some (c, none)

/-- `put`, with the key that is evicted. -/
def put (maxSize : UInt64) (c : Cache K V) (key : K) (val : V) : Option (Cache K V × Option K) :=
  (c.unlink key).bind fun c => evict maxSize (c.link key val)

/-- `get`: the flag `exists` and the value. For a key that is not found the function sets the flag and
runs off its end without a `return`: its result is a reference, and the behaviour is not defined. -/
def get (maxSize : UInt64) (c : Cache K V) (key : K) : Option (Cache K V × Bool × V) :=
  match c.map.lookup key with
  | none => none
  | some it =>
      if (threshold maxSize).toNat < c.size then
        (NodeList.splice c.list it).bind fun list =>
          (NodeList.deref list it).map fun e => ({ c with list := list }, true, e.2)
      else (NodeList.deref c.list it).map fun e => (c, true, e.2)

/-- `del`, with the flag `exists`, which stays as it is for a key that is not found. -/
def del (c : Cache K V) (key : K) (found : Bool) : Option (Cache K V × Bool) :=
  (c.unlink key).map fun c' => (c', if (c.map.lookup key).isSome then true else found)

end Cache

/-- A call. -/
inductive Op (K V : Type)
  | put (key : K) (val : V)
  | get (key : K)
  | del (key : K) (found : Bool)

/-- What a call did. -/
inductive Event (K V : Type)
  | put (key : K) (val : V) (evicted : Option K)
  | get (key : K) (found : Bool) (val : V)
  | del (key : K)
  deriving DecidableEq

/-- A call, with its event in front of the history. -/
def step (maxSize : UInt64) (s : Cache K V × List (Event K V)) :
    Op K V → Option (Cache K V × List (Event K V))
  | .put key val =>
      (s.1.put maxSize key val).map fun (c, evicted) => (c, .put key val evicted :: s.2)
  | .get key => (s.1.get maxSize key).map fun (c, found, val) => (c, .get key found val :: s.2)
  | .del key found => (s.1.del key found).map fun (c, _) => (c, .del key :: s.2)

/-- A `get` is of a key in the cache. -/
def Held (s : Cache K V × List (Event K V)) : Op K V → Prop
  | .get key => (s.1.map.lookup key).isSome = true
  | .put _ _ | .del _ _ => True

instance (s : Cache K V × List (Event K V)) : (op : Op K V) → Decidable (Held s op)
  | .get key => inferInstanceAs (Decidable ((s.1.map.lookup key).isSome = true))
  | .put _ _ => inferInstanceAs (Decidable True)
  | .del _ _ => inferInstanceAs (Decidable True)

/-! ### What the history says -/

/-- The value of the last put of a key that was neither deleted nor evicted since. -/
def stored : List (Event K V) → K → Option V
  | [], _ => none
  | .put key val evicted :: h, k =>
      if evicted = some k then none else if k = key then some val else stored h k
  | .get _ _ _ :: h, k => stored h k
  | .del key :: h, k => if k = key then none else stored h k

/-- The keys that were put. -/
def putKeys : List (Event K V) → List K
  | [] => []
  | .put key _ _ :: h => key :: putKeys h
  | _ :: h => putKeys h

/-- The number of keys in the cache. -/
def heldSize (h : List (Event K V)) : ℕ := ((putKeys h).dedup.filter fun k => (stored h k).isSome).length

/-- A use of a key: a put, or a hit while the cache held more than its threshold. -/
def IsUse (maxSize : UInt64) (h : List (Event K V)) (k : K) : Event K V → Prop
  | .put key _ _ => key = k
  | .get key found _ => key = k ∧ found = true ∧ (Cache.threshold maxSize).toNat < heldSize h
  | .del _ => False

instance (maxSize : UInt64) (h : List (Event K V)) (k : K) :
    (e : Event K V) → Decidable (IsUse maxSize h k e)
  | .put key _ _ => inferInstanceAs (Decidable (key = k))
  | .get key found _ => inferInstanceAs (Decidable (key = k ∧ found = true ∧ _))
  | .del _ => inferInstanceAs (Decidable False)

/-- The time of the last use of a key. -/
def lastUse (maxSize : UInt64) : List (Event K V) → K → ℕ
  | [], _ => 0
  | e :: h, k => if IsUse maxSize h k e then h.length + 1 else lastUse maxSize h k

/-- The event that follows the history in a bounded cache that evicts the least recent key: a hit has
the value that is stored, and only a put of a new key into a full cache evicts, another key than that,
which was used before all other keys. -/
def Right (maxSize : UInt64) (h : List (Event K V)) : Event K V → Prop
  | .put _ _ none => True
  | .put key val (some k) =>
      k ≠ key ∧ (stored h k).isSome = true ∧ stored h key = none ∧ heldSize h = maxSize.toNat ∧
        ∀ j, j = key ∨ (stored h j).isSome = true → j ≠ k →
          lastUse maxSize (.put key val (some k) :: h) k <
            lastUse maxSize (.put key val (some k) :: h) j
  | .get key found val => found = true ∧ stored h key = some val
  | .del _ => True

/-- All events of a history. -/
def AllRight (maxSize : UInt64) : List (Event K V) → Prop
  | [] => True
  | e :: h => Right maxSize h e ∧ AllRight maxSize h

/-- The map and the list have the same keys, once each, and an entry of the map points at the node of
its key. -/
structure Consistent (c : Cache K V) : Prop where
  distinct : NodeList.Distinct c.list
  keys : (c.list.map fun n => n.2.1).Nodup
  own : ∀ k a, c.map.lookup k = some a ↔ ∃ v, (a, k, v) ∈ c.list

/-! ### The two structures -/

/-- Consistent, and the next address is new. -/
structure Sound (c : Cache K V) : Prop extends Consistent c where
  fresh : ∀ n ∈ c.list, n.1 < c.brk

/-- The entries without their nodes. -/
def Cache.entries (c : Cache K V) : List (K × V) := c.list.map Prod.snd

section

variable {c c' : Cache K V} {key k : K} {val v : V} {a : ℕ} {maxSize : UInt64}

omit [DecidableEq K] in
theorem Cache.length_entries (c : Cache K V) : c.entries.length = c.list.length := List.length_map _

theorem Consistent.keys_entries (h : Consistent c) : (c.entries.map Prod.fst).Nodup := by
  rw [Cache.entries, List.map_map]
  exact h.keys

omit [DecidableEq K] in
theorem mem_entries : (k, v) ∈ c.entries ↔ ∃ a, (a, k, v) ∈ c.list := by
  rw [Cache.entries, List.mem_map]
  constructor
  · rintro ⟨⟨a, e⟩, hmem, rfl⟩
    exact ⟨a, hmem⟩
  · rintro ⟨a, hmem⟩
    exact ⟨(a, k, v), hmem, rfl⟩

/-- The key of a node of the list has the node's address. -/
theorem Consistent.lookup (h : Consistent c) (hmem : (a, k, v) ∈ c.list) : c.map.lookup k = some a :=
  (h.own k a).2 ⟨v, hmem⟩

theorem Consistent.addr_iff (h : Consistent c) (hmem : (a, key, val) ∈ c.list) {n : ℕ × K × V}
    (hn : n ∈ c.list) : n.1 = a ↔ n.2.1 = key := by
  obtain ⟨b, k, v⟩ := n
  constructor
  · rintro rfl
    have heq := h.distinct.unique hn hmem
    exact congrArg Prod.fst heq
  · rintro rfl
    exact Option.some.inj ((h.lookup hn).symm.trans (h.lookup hmem))

theorem Consistent.filter_addr (h : Consistent c) (hmem : (a, key, val) ∈ c.list) :
    (c.list.filter fun n => n.1 ≠ a) = c.list.filter fun n => n.2.1 ≠ key := by
  refine List.filter_congr fun n hn => ?_
  rw [decide_eq_decide, ne_eq, ne_eq, h.addr_iff hmem hn]

theorem entries_filter (key : K) (l : List (ℕ × K × V)) :
    (l.filter fun n => n.2.1 ≠ key).map Prod.snd = RecencyList.remove (l.map Prod.snd) key := by
  rw [RecencyList.remove, List.filter_map]
  rfl

/-- The map and the list have one size. -/
theorem Consistent.size (h : Consistent c) : c.size = c.list.length := by
  have hperm : c.map.keys.Perm (c.list.map fun n => n.2.1) := by
    refine (List.perm_ext_iff_of_nodup c.map.keys_nodup h.keys).2 fun k => ?_
    rw [← AList.mem_keys, ← AList.lookup_isSome, Option.isSome_iff_exists, List.mem_map]
    constructor
    · rintro ⟨a, ha⟩
      obtain ⟨v, hmem⟩ := (h.own k a).1 ha
      exact ⟨(a, k, v), hmem, rfl⟩
    · rintro ⟨⟨a, k', v⟩, hmem, rfl⟩
      exact ⟨a, h.lookup hmem⟩
  rw [Cache.size, hperm.length_eq, List.length_map]

/-- Without the nodes of a key, and without the key in the map. -/
theorem Sound.without (h : Sound c) (key : K) :
    Sound { c with map := c.map.erase key, list := c.list.filter fun n => n.2.1 ≠ key } where
  distinct := h.distinct.filter _
  keys := h.keys.sublist (List.filter_sublist.map _)
  own k a := by
    by_cases hk : k = key
    · subst hk
      rw [AList.lookup_erase]
      simp
    · rw [AList.lookup_erase_ne hk, h.own]
      simp [hk]
  fresh n hn := h.fresh n (List.mem_of_mem_filter hn)

theorem Sound.unlink (h : Sound c) (key : K) :
    ∃ c', c.unlink key = some c' ∧ Sound c' ∧ c'.entries = RecencyList.remove c.entries key := by
  rw [Cache.unlink]
  cases hkey : c.map.lookup key with
  | none =>
    refine ⟨c, rfl, h, ?_⟩
    rw [RecencyList.remove, List.filter_eq_self.2]
    intro e he
    obtain ⟨a, hmem⟩ := mem_entries.1 he
    have hne : e.1 ≠ key := by
      rintro rfl
      rw [h.lookup hmem] at hkey
      cases hkey
    simpa using hne
  | some it =>
    obtain ⟨v, hmem⟩ := (h.own key it).1 hkey
    refine ⟨_, ?_, h.without key, entries_filter key c.list⟩
    have herase := NodeList.erase_of_mem h.distinct hmem
    rw [h.filter_addr hmem] at herase
    simp only [herase, Option.map_some]

/-- A new node in front, for a key that has none. -/
theorem Sound.link (h : Sound c) (hkey : ∀ v, (key, v) ∉ c.entries) : Sound (c.link key val) where
  distinct := by
    refine List.nodup_cons.2 ⟨fun hmem => ?_, h.distinct⟩
    obtain ⟨n, hn, heq⟩ := List.mem_map.1 hmem
    exact (h.fresh n hn).ne heq
  keys := by
    refine List.nodup_cons.2 ⟨fun hmem => ?_, h.keys⟩
    obtain ⟨⟨a, k, v⟩, hn, rfl⟩ := List.mem_map.1 hmem
    exact hkey v (mem_entries.2 ⟨a, hn⟩)
  own k a := by
    rw [Cache.link]
    by_cases hk : k = key
    · subst hk
      rw [AList.lookup_insert]
      constructor
      · rintro ⟨⟩
        exact ⟨val, List.mem_cons_self⟩
      · rintro ⟨v, hmem⟩
        rcases List.mem_cons.1 hmem with heq | hmem
        · cases heq
          rfl
        · exact absurd (mem_entries.2 ⟨a, hmem⟩) (hkey v)
    · rw [AList.lookup_insert_ne hk, h.own]
      simp [hk]
  fresh n hn := by
    rcases List.mem_cons.1 hn with rfl | hn
    · exact Nat.lt_succ_self _
    · exact (h.fresh n hn).trans (Nat.lt_succ_self _)

theorem Sound.dropLast (h : Sound c) {last : ℕ × K × V} (hlast : c.list.getLast? = some last) :
    Sound { c with map := c.map.erase last.2.1, list := c.list.dropLast } := by
  have hfilter : (c.list.filter fun n => n.2.1 ≠ last.2.1) = c.list.dropLast := by
    have hnodup := h.keys
    obtain ⟨l, hl⟩ := List.getLast?_eq_some_iff.1 hlast
    rw [hl, List.map_append, List.nodup_append] at hnodup
    rw [hl, List.dropLast_concat, List.filter_append, List.filter_cons_of_neg (by simp),
      List.filter_nil, List.append_nil, List.filter_eq_self]
    intro n hn
    simpa using hnodup.2.2 n.2.1 (List.mem_map_of_mem hn) last.2.1 (by simp)
  exact hfilter ▸ h.without last.2.1

theorem Sound.splice (h : Sound c) (hmem : (a, key, val) ∈ c.list) :
    Sound { c with list := (a, key, val) :: c.list.filter fun n => n.1 ≠ a } := by
  have hperm : ((a, key, val) :: c.list.filter fun n => n.1 ≠ a).Perm c.list := by
    have hnodup : c.list.Nodup := List.Nodup.of_map _ h.distinct
    refine (List.perm_ext_iff_of_nodup (List.nodup_cons.2 ⟨by simp, hnodup.filter _⟩) hnodup).2 fun n => ?_
    rw [List.mem_cons, List.mem_filter]
    constructor
    · rintro (rfl | hn)
      · exact hmem
      · exact hn.1
    · intro hn
      by_cases hna : n.1 = a
      · obtain ⟨b, e⟩ := n
        cases hna
        exact Or.inl (congrArg (Prod.mk b) (h.distinct.unique hn hmem))
      · exact Or.inr ⟨hn, by simpa using hna⟩
  exact
    { distinct := (hperm.map _).nodup_iff.2 h.distinct
      keys := (hperm.map _).nodup_iff.2 h.keys
      own := fun k b => (h.own k b).trans (exists_congr fun v => hperm.mem_iff.symm)
      fresh := fun n hn => h.fresh n (hperm.mem_iff.1 hn) }

omit [DecidableEq K] in
theorem getLast?_entries (c : Cache K V) : c.entries.getLast? = c.list.getLast?.map Prod.snd :=
  List.getLast?_map

theorem Consistent.lookup_entries (h : Consistent c) (hmem : (a, k, v) ∈ c.list) :
    RecencyList.lookup c.entries k = some v :=
  RecencyList.lookup_of_mem h.keys_entries (mem_entries.2 ⟨a, hmem⟩)

/-- `put` on the entries. -/
theorem Sound.put (h : Sound c) (maxSize : UInt64) (key : K) (val : V) :
    ∃ c', c.put maxSize key val = some (c',
        if maxSize.toNat < (RecencyList.toFront c.entries key val).length then
          (RecencyList.toFront c.entries key val).getLast?.map Prod.fst else none) ∧
      Sound c' ∧ c'.entries = RecencyList.insert maxSize.toNat c.entries key val := by
  obtain ⟨c₁, hunlink, hsound₁, hremove⟩ := h.unlink key
  have hnew : ∀ v, (key, v) ∉ c₁.entries := by
    intro v hmem
    rw [hremove] at hmem
    simpa using List.of_mem_filter hmem
  have hsound : Sound (c₁.link key val) := hsound₁.link hnew
  have hentries : (c₁.link key val).entries = RecencyList.toFront c.entries key val := by
    rw [RecencyList.toFront, ← hremove]
    rfl
  have hsize : (c₁.link key val).size = (RecencyList.toFront c.entries key val).length := by
    rw [hsound.size, ← Cache.length_entries, hentries]
  rw [Cache.put, hunlink, Option.bind_some, Cache.evict, hsize, RecencyList.insert, ← hentries]
  by_cases hfull : maxSize.toNat < (c₁.link key val).entries.length
  · obtain ⟨last, hlast⟩ : ∃ last, (c₁.link key val).list.getLast? = some last :=
      ⟨_, List.getLast?_eq_some_getLast (List.cons_ne_nil _ _)⟩
    refine ⟨_, ?_, hsound.dropLast hlast, ?_⟩
    · rw [if_pos hfull, if_pos hfull, getLast?_entries, hlast]
      rfl
    · rw [if_pos hfull]
      exact List.map_dropLast
  · exact ⟨_, by rw [if_neg hfull, if_neg hfull], hsound, (if_neg hfull).symm⟩

/-- `get` of a cached key on the entries. -/
theorem Sound.get (h : Sound c) (maxSize : UInt64) {it : ℕ} (hkey : c.map.lookup key = some it) :
    ∃ c' val, c.get maxSize key = some (c', true, val) ∧
      RecencyList.lookup c.entries key = some val ∧ Sound c' ∧
      c'.entries = RecencyList.touch (Cache.threshold maxSize).toNat c.entries key := by
  obtain ⟨v, hmem⟩ := (h.own key it).1 hkey
  have hsize : c.size = c.entries.length := h.size.trans c.length_entries.symm
  rw [Cache.get, RecencyList.touch]
  simp only [hkey, h.lookup_entries hmem, hsize]
  by_cases hmany : (Cache.threshold maxSize).toNat < c.entries.length
  · have hsound := h.splice hmem
    refine ⟨_, v, ?_, rfl, hsound, ?_⟩
    · simp only [if_pos hmany, NodeList.splice_of_mem h.distinct hmem, Option.bind_some,
        NodeList.deref_of_mem hsound.distinct List.mem_cons_self, Option.map_some]
    · rw [if_pos hmany, Cache.entries, h.filter_addr hmem, List.map_cons, entries_filter]
      rfl
  · refine ⟨c, v, ?_, rfl, h, (if_neg hmany).symm⟩
    simp only [if_neg hmany, NodeList.deref_of_mem h.distinct hmem, Option.map_some]

/-- `del` on the entries. -/
theorem Sound.del (h : Sound c) (key : K) (found : Bool) :
    ∃ c' found', c.del key found = some (c', found') ∧ Sound c' ∧
      c'.entries = RecencyList.remove c.entries key := by
  obtain ⟨c', hunlink, hsound, hentries⟩ := h.unlink key
  exact ⟨c', _, by rw [Cache.del, hunlink, Option.map_some], hsound, hentries⟩

end

/-! ### The history -/

section

variable {c c' : Cache K V} {h : List (Event K V)} {key k j : K} {val v : V} {maxSize : UInt64}
  {e : Event K V}

theorem mem_putKeys (hk : (stored h k).isSome = true) : k ∈ putKeys h := by
  induction h with
  | nil => cases hk
  | cons e h ih =>
    cases e with
    | put key val evicted =>
      rw [stored] at hk
      split at hk
      · cases hk
      split at hk
      · rename_i heq
        rw [heq]
        exact List.mem_cons_self
      · exact List.mem_cons_of_mem _ (ih hk)
    | get key found val => exact ih hk
    | del key =>
      rw [stored] at hk
      split at hk
      · cases hk
      · exact ih hk

theorem heldSize_eq (hl : (c.entries.map Prod.fst).Nodup)
    (hstored : ∀ k, stored h k = RecencyList.lookup c.entries k) : heldSize h = c.entries.length := by
  have hperm : ((putKeys h).dedup.filter fun k => (stored h k).isSome).Perm (c.entries.map Prod.fst) := by
    refine (List.perm_ext_iff_of_nodup ((List.nodup_dedup _).filter _) hl).2 fun k => ?_
    rw [List.mem_filter, List.mem_dedup, ← RecencyList.lookup_isSome_iff, ← hstored]
    exact ⟨fun hk => hk.2, fun hk => ⟨mem_putKeys hk, hk⟩⟩
  rw [heldSize, hperm.length_eq, List.length_map]

theorem lastUse_le (maxSize : UInt64) (h : List (Event K V)) (k : K) : lastUse maxSize h k ≤ h.length := by
  induction h with
  | nil => exact le_rfl
  | cons e h ih =>
    rw [lastUse, List.length_cons]
    split
    · exact le_rfl
    · exact ih.trans (Nat.le_succ _)

theorem lastUse_of_use (h : List (Event K V)) (huse : IsUse maxSize h k e) :
    lastUse maxSize (e :: h) k = h.length + 1 := if_pos huse

theorem lastUse_of_not_use (h : List (Event K V)) (huse : ¬ IsUse maxSize h k e) :
    lastUse maxSize (e :: h) k = lastUse maxSize h k := if_neg huse

/-- What a sequence of operations keeps. -/
structure Inv (maxSize : UInt64) (c : Cache K V) (h : List (Event K V)) : Prop where
  sound : Sound c
  size_le : c.entries.length ≤ maxSize.toNat
  stored : ∀ k, stored h k = RecencyList.lookup c.entries k
  stamped : RecencyList.Stamped (lastUse maxSize h) c.entries

theorem inv_init (maxSize : UInt64) : Inv maxSize (Cache.init : Cache K V) [] where
  sound :=
    { distinct := List.nodup_nil
      keys := List.nodup_nil
      own := fun k a => by simp [Cache.init]
      fresh := fun n hn => absurd hn List.not_mem_nil }
  size_le := Nat.zero_le _
  stored _ := rfl
  stamped := List.Pairwise.nil

theorem Inv.size (hinv : Inv maxSize c h) : c.size = heldSize h := by
  rw [hinv.sound.size, ← c.length_entries, heldSize_eq hinv.sound.keys_entries hinv.stored]

theorem Inv.mem_iff (hinv : Inv maxSize c h) :
    (LruCache.stored h k).isSome = true ↔ k ∈ c.entries.map Prod.fst := by
  rw [hinv.stored, RecencyList.lookup_isSome_iff]

theorem Inv.toFront (hinv : Inv maxSize c h) (huse : ∀ j, IsUse maxSize h j e ↔ key = j) :
    RecencyList.Stamped (lastUse maxSize (e :: h)) (RecencyList.toFront c.entries key val) := by
  have hnew : lastUse maxSize (e :: h) key = h.length + 1 := lastUse_of_use h ((huse key).2 rfl)
  refine hinv.stamped.toFront (fun j hj => lastUse_of_not_use h fun hu => hj ((huse j).1 hu).symm) ?_
  intro j _
  rw [hnew]
  exact Nat.lt_succ_of_le (lastUse_le maxSize h j)

/-- `put`. -/
theorem Inv.put (hinv : Inv maxSize c h) (hpos : 1 ≤ maxSize.toNat) (key : K) (val : V) :
    ∃ c' evicted, c.put maxSize key val = some (c', evicted) ∧
      Inv maxSize c' (.put key val evicted :: h) ∧ Right maxSize h (.put key val evicted) := by
  obtain ⟨c', hput, hsound, hentries⟩ := hinv.sound.put maxSize key val
  have hsize : c'.entries.length ≤ maxSize.toNat := hentries ▸ RecencyList.length_insert_le hinv.size_le
  have hstamped : ∀ evicted, RecencyList.Stamped (lastUse maxSize (.put key val evicted :: h))
      (RecencyList.toFront c.entries key val) := fun _ => hinv.toFront fun _ => Iff.rfl
  have hlookup : ∀ k, RecencyList.lookup (RecencyList.toFront c.entries key val) k
      = if k = key then some val else LruCache.stored h k := by
    intro k
    rw [RecencyList.lookup_toFront, hinv.stored]
  rw [RecencyList.insert] at hentries
  refine ⟨c', _, hput, ?_⟩
  by_cases hfull : maxSize.toNat < (RecencyList.toFront c.entries key val).length
  · -- the last entry is another one, for the cache is full
    obtain ⟨hlength, hfront, hkey, e, he, hlast⟩ := RecencyList.toFront_full hpos hinv.size_le hfull
    rw [if_pos hfull, hlast, Option.map_some]
    rw [if_pos hfull] at hentries
    refine ⟨⟨hsound, hsize, ?_, ?_⟩, ?_, ?_, ?_, ?_, ?_⟩
    · intro j
      rw [hentries, RecencyList.lookup_dropLast (RecencyList.keys_toFront hinv.sound.keys_entries) hlast,
        hlookup, LruCache.stored]
      by_cases hj : j = e.1
      · rw [if_pos (congrArg some hj.symm), if_pos hj]
      · rw [if_neg fun heq => hj (Option.some.inj heq).symm, if_neg hj]
    · rw [hentries]
      exact (hstamped _).dropLast
    · exact fun heq => hkey (heq ▸ List.mem_map_of_mem he)
    · exact hinv.mem_iff.2 (List.mem_map_of_mem he)
    · rw [← Option.not_isSome_iff_eq_none, hinv.mem_iff]
      exact hkey
    · rw [heldSize_eq hinv.sound.keys_entries hinv.stored, hlength]
    · intro j hj hne
      obtain ⟨d, hd, rfl⟩ : ∃ d ∈ RecencyList.toFront c.entries key val, d.1 = j := by
        rw [hfront]
        rcases hj with rfl | hj
        · exact ⟨_, List.mem_cons_self, rfl⟩
        · obtain ⟨d, hd, hdj⟩ := List.mem_map.1 (hinv.mem_iff.1 hj)
          exact ⟨d, List.mem_cons_of_mem _ hd, hdj⟩
      exact (hstamped _).oldest hlast hd hne
  · rw [if_neg hfull]
    rw [if_neg hfull] at hentries
    refine ⟨⟨hsound, hsize, fun j => ?_, hentries ▸ hstamped none⟩, trivial⟩
    rw [hentries, hlookup, LruCache.stored, if_neg (Option.some_ne_none j).symm]

/-- `get` of a cached key. -/
theorem Inv.get (hinv : Inv maxSize c h) (hkey : (c.map.lookup key).isSome = true) : ∃ c' val,
    c.get maxSize key = some (c', true, val) ∧ Inv maxSize c' (.get key true val :: h) ∧
      Right maxSize h (.get key true val) := by
  obtain ⟨it, hit⟩ := Option.isSome_iff_exists.1 hkey
  obtain ⟨c', val, hget, hfound, hsound, hentries⟩ := hinv.sound.get maxSize hit
  have hvalue := (hinv.stored key).trans hfound
  refine ⟨c', val, hget, ?_, rfl, hvalue⟩
  rw [RecencyList.touch] at hentries
  simp only [hfound] at hentries
  have hheld : heldSize h = c.entries.length := heldSize_eq hinv.sound.keys_entries hinv.stored
  by_cases hmany : (Cache.threshold maxSize).toNat < c.entries.length
  · rw [if_pos hmany] at hentries
    refine ⟨hsound, ?_, ?_, ?_⟩
    · rw [hentries, RecencyList.length_toFront_of_lookup hinv.sound.keys_entries hfound]
      exact hinv.size_le
    · intro k
      rw [hentries, RecencyList.lookup_toFront]
      by_cases hk : k = key
      · rw [if_pos hk, hk]
        exact hvalue
      · rw [if_neg hk]
        exact hinv.stored k
    · rw [hentries]
      refine hinv.toFront fun j => ?_
      rw [IsUse, hheld]
      exact ⟨fun hu => hu.1, fun hj => ⟨hj, rfl, hmany⟩⟩
  · rw [if_neg hmany] at hentries
    refine ⟨hsound, hentries ▸ hinv.size_le, fun k => hentries ▸ hinv.stored k, hentries ▸ ?_⟩
    exact hinv.stamped.congr fun e _ => lastUse_of_not_use h fun huse => hmany (hheld ▸ huse.2.2)

/-- `del`. -/
theorem Inv.del (hinv : Inv maxSize c h) (key : K) (found : Bool) : ∃ c' found',
    c.del key found = some (c', found') ∧ Inv maxSize c' (.del key :: h) := by
  obtain ⟨c', found', hdel, hsound, hentries⟩ := hinv.sound.del key found
  refine ⟨c', found', hdel, hsound, ?_, ?_, ?_⟩
  · rw [hentries]
    exact (List.length_filter_le _ _).trans hinv.size_le
  · intro k
    rw [LruCache.stored, hentries, RecencyList.lookup_remove, hinv.stored]
  · rw [hentries]
    exact (hinv.stamped.remove key).congr fun e _ => lastUse_of_not_use h fun huse => huse

theorem Inv.step (hinv : Inv maxSize c h) (hpos : 1 ≤ maxSize.toNat) {op : Op K V}
    (hheld : Held (c, h) op) :
    ∃ c' e, LruCache.step maxSize (c, h) op = some (c', e :: h) ∧ Inv maxSize c' (e :: h) ∧
      Right maxSize h e := by
  cases op with
  | put key val =>
    obtain ⟨c', evicted, hput, hinv', hright⟩ := hinv.put hpos key val
    exact ⟨c', _, by rw [LruCache.step, hput]; rfl, hinv', hright⟩
  | get key =>
    obtain ⟨c', val, hget, hinv', hright⟩ := hinv.get hheld
    exact ⟨c', _, by rw [LruCache.step, hget]; rfl, hinv', hright⟩
  | del key found =>
    obtain ⟨c', found', hdel, hinv'⟩ := hinv.del key found
    exact ⟨c', _, by rw [LruCache.step, hdel]; rfl, hinv', trivial⟩

/-- A `get` of another key has no result. -/
theorem step_eq_none {s : Cache K V × List (Event K V)} {op : Op K V} (hheld : ¬ Held s op) :
    LruCache.step maxSize s op = none := by
  cases op with
  | put key val => exact absurd trivial hheld
  | get key =>
    have hkey : s.1.map.lookup key = none := by
      rw [← Option.not_isSome_iff_eq_none]
      exact hheld
    rw [LruCache.step, Cache.get, hkey]
    rfl
  | del key found => exact absurd trivial hheld

theorem Inv.run (hpos : 1 ≤ maxSize.toNat) {ops : List (Op K V)} (hinv : Inv maxSize c h)
    (hright : AllRight maxSize h)
    (hheld : Run.Admissible (LruCache.step maxSize) Held (c, h) ops) :
    ∃ c' h', Run.run (LruCache.step maxSize) (c, h) ops = some (c', h') ∧
      h'.length = h.length + ops.length ∧ Inv maxSize c' h' ∧ AllRight maxSize h' := by
  induction ops generalizing c h with
  | nil => exact ⟨c, h, rfl, rfl, hinv, hright⟩
  | cons op ops ih =>
    obtain ⟨c₁, e, hstep, hinv₁, hright₁⟩ := hinv.step hpos hheld.1
    obtain ⟨c', h', hrun, hlen, hinv', hright'⟩ := ih hinv₁ ⟨hright₁, hright⟩ (hheld.2 _ hstep)
    refine ⟨c', h', ?_, ?_, hinv', hright'⟩
    · rw [Run.run_cons, hstep, Option.bind_some, hrun]
    · rw [hlen, List.length_cons, List.length_cons]
      omega

/-- Every operation has a result, the map and the list are consistent and within the capacity at the
end, and every event is right. -/
def BoundedLru (maxSize : UInt64) (ops : List (Op K V)) : Prop :=
  ∃ c h, Run.run (LruCache.step maxSize) (Cache.init, []) ops = some (c, h) ∧
    h.length = ops.length ∧ Consistent c ∧ c.size = heldSize h ∧ c.size ≤ maxSize.toNat ∧
    c.list.length ≤ maxSize.toNat ∧ AllRight maxSize h

/-- The operations on a cache with room for an entry are those of a bounded cache just when every `get`
is of a key that is in the cache. -/
theorem lru_iff (maxSize : UInt64) (hpos : 1 ≤ maxSize) (ops : List (Op K V)) :
    BoundedLru maxSize ops ↔ Run.Admissible (LruCache.step maxSize) Held (Cache.init, []) ops := by
  constructor
  · rintro ⟨c, h, hrun, -⟩
    refine Run.admissible_of_run (fun s op s' hstep => ?_) hrun
    by_contra hheld
    rw [step_eq_none hheld] at hstep
    cases hstep
  · intro hheld
    have hpos' : 1 ≤ maxSize.toNat := by simpa using UInt64.le_iff_toNat_le.1 hpos
    obtain ⟨c, h, hc, hlen, hinv, hright⟩ := (inv_init maxSize).run hpos' trivial hheld
    have hlist : c.list.length ≤ maxSize.toNat := c.length_entries ▸ hinv.size_le
    refine ⟨c, h, hc, ?_, hinv.sound.toConsistent, hinv.size, ?_, hlist, hright⟩
    · rw [hlen, List.length_nil, Nat.zero_add]
    · rw [hinv.sound.size]
      exact hlist

/-- Two keys in a cache of two, a hit, a third key and hits on both that are left. -/
theorem lru_iff_three :
    (BoundedLru (K := ℕ) (V := ℕ) 2 [.put 1 10, .put 2 20, .get 1, .put 3 30, .get 1, .get 3] ↔
      Run.Admissible (LruCache.step 2) Held ((Cache.init : Cache ℕ ℕ), [])
        [.put 1 10, .put 2 20, .get 1, .put 3 30, .get 1, .get 3]) ∧
      (Run.run (LruCache.step 2) ((Cache.init : Cache ℕ ℕ), [])
          [.put 1 10, .put 2 20, .get 1, .put 3 30, .get 1, .get 3]).map Prod.snd =
        some [.get 3 true 30, .get 1 true 10, .put 3 30 (some 2), .get 1 true 10, .put 2 20 none,
          .put 1 10 none] :=
  ⟨lru_iff 2 (by decide) [.put 1 10, .put 2 20, .get 1, .put 3 30, .get 1, .get 3], by decide⟩

/-- The first `get` of a key. -/
theorem not_boundedLru_miss : ¬ BoundedLru (K := ℕ) (V := ℕ) 1 [.get 1] := by
  rintro ⟨c, h, hrun, -⟩
  exact absurd hrun (Option.some_ne_none _).symm

end

/-! ### The cache of the calls -/

section

variable {c : Cache Bytes Bytes} {maxSize : UInt64}

theorem threshold_toNat (h : 90 * maxSize.toNat < 2 ^ 64) :
    (Cache.threshold maxSize).toNat = 90 * maxSize.toNat / 100 := by
  rw [Cache.threshold, UInt64.toNat_div, UInt64.toNat_mul]
  exact congrArg (· / 100) (Nat.mod_eq_of_lt h)

/-- The operations do on the entries what the cache in front of the device does. -/
theorem refines_lru (h : Sound c) (hfit : 90 * maxSize.toNat < 2 ^ 64) (key val : Bytes) :
    (∃ c' evicted, c.put maxSize key val = some (c', evicted) ∧ Sound c' ∧
        c'.entries = Lru.put maxSize.toNat c.entries key val) ∧
      ((c.map.lookup key).isSome = true →
        ∃ c' val, c.get maxSize key = some (c', true, val) ∧ Lru.lookup c.entries key = some val ∧
          Sound c' ∧ c'.entries = Lru.touch maxSize.toNat c.entries key) ∧
      ∀ found, ∃ c' found', c.del key found = some (c', found') ∧ Sound c' ∧
        c'.entries = Lru.del c.entries key := by
  refine ⟨?_, ?_, fun found => h.del key found⟩
  · obtain ⟨c', hput, hsound, hentries⟩ := h.put maxSize key val
    exact ⟨c', _, hput, hsound, hentries⟩
  · intro hkey
    obtain ⟨it, hit⟩ := Option.isSome_iff_exists.1 hkey
    obtain ⟨c', val, hget, hfound, hsound, hentries⟩ := h.get maxSize hit
    refine ⟨c', val, hget, hfound, hsound, hentries.trans ?_⟩
    have hlookup : Lru.lookup c.entries key = RecencyList.lookup c.entries key := rfl
    rw [threshold_toNat hfit, RecencyList.touch, Lru.touch, hlookup]
    cases RecencyList.lookup c.entries key <;> rfl

end

end DssSdk.Host.LruCache
