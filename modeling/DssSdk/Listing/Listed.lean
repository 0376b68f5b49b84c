import DssSdk.Listing.Zones

/-!
# Prefix listing: when a request changes nothing

A request for a key moves `NKV_ROOT_PREFIX` when the key has a delimiter, also a request that puts and
erases nothing. A STORE puts the last component of its key, and goes on above a key that ends in the
delimiter, unless something is listed under the key or the next pair belongs to another instance.

* `RootStays`, `StoreListed`: the conditions on the listing before the request;
* `storePass_eq_iff`: the first pass of a STORE changes nothing exactly under these conditions.
-/

namespace DssSdk.Listing

open PrefixTree

/-- The entry is listed under the prefix, in the zone of the prefix. -/
def Listed (conf : Conf) (L : ListContext) (p e : Bytes) : Prop :=
  e ∈ PrefixTree.entries (L.zones (zoneOf conf (prefixIn L.rootPrefix p))) (prefixIn L.rootPrefix p)

/-- A request for the key leaves `NKV_ROOT_PREFIX` as it is. -/
def RootStays (L : ListContext) (key : Bytes) : Prop := delim ∈ key → L.rootPrefix = []

/-- A STORE of the key has nothing to put. -/
structure StoreListed (conf : Conf) (L : ListContext) (key : Bytes) : Prop where
  root : RootStays L key
  component : baseOf key ≠ [] → Listed conf L (dirOf key) (baseOf key)
  above : baseOf key = [] → L.zones (zoneOf conf key) key = none → ∀ p e, (up key).head? = some (p, e) →
    instOf conf (zoneOf conf (prefixIn L.rootPrefix p)) = instOf conf (zoneOf conf key) →
    Listed conf L p e

theorem rootAfter_eq_iff (L : ListContext) (key : Bytes) :
    rootAfter L.rootPrefix key = L.rootPrefix ↔ RootStays L key := by
  unfold rootAfter RootStays
  by_cases hkey : delim ∈ key
  · simp only [hkey, if_true, true_imp_iff]
    exact eq_comm
  · simp [hkey]

variable {conf : Conf} {L : ListContext} {p e : Bytes} {c : List (Bytes × Bytes)} {inst : ℕ} {rc : Rc}

/-! ### One pair -/

theorem handle_store (conf : Conf) (L : ListContext) (p e : Bytes) :
    handle conf L.rootPrefix .store L p e =
      let q := prefixIn L.rootPrefix p
      let zone := L.zones (zoneOf conf q)
      let zone' := if e = [] then zone else put zone q e
      ({ L with zones := Function.update L.zones (zoneOf conf q) zone' },
        if (zone q).isSome then .storeDone else .storeContinue) := rfl

theorem handle_store_rootPrefix (conf : Conf) (L : ListContext) (p e : Bytes) :
    (handle conf L.rootPrefix .store L p e).1.rootPrefix = L.rootPrefix := rfl

theorem handle_store_nil (conf : Conf) (L : ListContext) (p : Bytes) :
    (handle conf L.rootPrefix .store L p []).1 = L := by
  rw [handle_store]
  simp

theorem Listed.handle_store {q d : Bytes} (h : Listed conf L q d) (p e : Bytes) :
    Listed conf (handle conf L.rootPrefix .store L p e).1 q d := by
  unfold Listed at h ⊢
  rw [handle_store_rootPrefix, Listing.handle_store]
  simp only
  by_cases hz : zoneOf conf (prefixIn L.rootPrefix q) = zoneOf conf (prefixIn L.rootPrefix p)
  · rw [hz] at h ⊢
    rw [Function.update_self]
    split
    · exact h
    · rw [mem_entries_put]
      exact Or.inl h
  · rwa [Function.update_of_ne hz]

theorem listed_handle_store (conf : Conf) (L : ListContext) (p : Bytes) (he : e ≠ []) :
    Listed conf (handle conf L.rootPrefix .store L p e).1 p e := by
  unfold Listed
  rw [handle_store_rootPrefix, Listing.handle_store]
  simp only [Function.update_self, if_neg he]
  exact (mem_entries_put _ _ _ _).2 (Or.inr ⟨rfl, rfl⟩)

theorem Listed.handle_eq (h : Listed conf L p e) :
    (handle conf L.rootPrefix .store L p e).1 = L ∧
      (handle conf L.rootPrefix .store L p e).2.isDone = true := by
  unfold Listed at h
  rw [Listing.handle_store]
  generalize prefixIn L.rootPrefix p = q at h ⊢
  cases hq : L.zones (zoneOf conf q) q with
  | none => simp [PrefixTree.entries, hq] at h
  | some s =>
    rw [entries_some hq] at h
    have hput : put (L.zones (zoneOf conf q)) q e = L.zones (zoneOf conf q) := by
      rw [put, entries_some hq, Finset.insert_eq_of_mem h, ← hq]
      exact Function.update_eq_self q _
    simp only [hput, ite_self, Function.update_eq_self, hq, Option.isSome_some, if_true]
    exact ⟨trivial, rfl⟩

/-! ### The pairs of a key -/

theorem Listed.walk {q d : Bytes} (h : Listed conf L q d) (inst : ℕ) (c : List (Bytes × Bytes))
    (rc : Rc) : Listed conf (walk conf L.rootPrefix inst .store c L rc).listing q d := by
  induction c generalizing L rc with
  | nil => exact h
  | cons y c ih =>
    obtain ⟨p, e⟩ := y
    rw [Listing.walk]
    split
    · simp only
      split
      · exact h.handle_store p e
      · have hnext := ih (h.handle_store p e) (handle conf L.rootPrefix .store L p e).2
        rwa [handle_store_rootPrefix] at hnext
    · exact h

/-- A walk that starts with an entry that is not empty changes nothing exactly when the entry is
listed, or its pair belongs to another instance. -/
theorem walk_store_eq_iff (he : e ≠ []) :
    (walk conf L.rootPrefix inst .store ((p, e) :: c) L rc).listing = L ↔
      (instOf conf (zoneOf conf (prefixIn L.rootPrefix p)) = inst → Listed conf L p e) := by
  rw [walk]
  by_cases hinst : instOf conf (zoneOf conf (prefixIn L.rootPrefix p)) = inst
  · rw [if_pos hinst]
    have hput := listed_handle_store conf L p he
    constructor
    · intro heq _
      simp only at heq
      split at heq
      · rwa [show (handle conf L.rootPrefix .store L p e).1 = L from heq] at hput
      · have hwalk := hput.walk inst c (handle conf L.rootPrefix .store L p e).2
        rwa [handle_store_rootPrefix, heq] at hwalk
    · intro hl
      simp only [if_pos (hl hinst).handle_eq.2]
      exact (hl hinst).handle_eq.1
  · rw [if_neg hinst]
    exact ⟨fun _ h => absurd h hinst, fun _ => rfl⟩

theorem walk_store_directory (hinst : instOf conf (zoneOf conf (prefixIn L.rootPrefix p)) = inst) :
    (walk conf L.rootPrefix inst .store ((p, []) :: c) L rc).listing =
      if (L.zones (zoneOf conf (prefixIn L.rootPrefix p)) (prefixIn L.rootPrefix p)).isSome then L
      else (walk conf L.rootPrefix inst .store c L .storeContinue).listing := by
  have hdone : (handle conf L.rootPrefix .store L p []).2 =
      if (L.zones (zoneOf conf (prefixIn L.rootPrefix p)) (prefixIn L.rootPrefix p)).isSome
      then .storeDone else .storeContinue := rfl
  rw [walk, if_pos hinst]
  simp only [handle_store_nil, hdone]
  split
  · rfl
  · rfl

theorem walk_pairs_eq_iff {key : Bytes} (hkey : key ≠ []) (hroot : RootStays L key) :
    (walk conf L.rootPrefix (firstInst conf L.rootPrefix key) .store (pairs key) L rc).listing = L ↔
      StoreListed conf L key := by
  rw [pairs_eq]
  by_cases hbase : baseOf key = []
  · have hdir : dirOf key = key := by
      have hsplit := dirOf_append_baseOf key
      rwa [hbase, List.append_nil] at hsplit
    have hpre : prefixIn L.rootPrefix key = key := if_neg hkey
    have hfirst : firstInst conf L.rootPrefix key = instOf conf (zoneOf conf key) := by
      rw [firstInst, hdir, hpre]
    rw [if_pos hbase, walk_store_directory (by rw [hfirst, hpre]), hpre, hfirst]
    cases hz : L.zones (zoneOf conf key) key with
    | some s =>
      simp only [Option.isSome_some, if_true, true_iff]
      exact ⟨hroot, fun h => absurd hbase h, fun _ h => by rw [hz] at h; cases h⟩
    | none =>
      simp only [Option.isSome_none, Bool.false_eq_true, if_false]
      cases hup : up key with
      | nil =>
        refine ⟨fun _ => ⟨hroot, fun h => absurd hbase h, fun _ _ p e h => ?_⟩, fun _ => rfl⟩
        rw [hup] at h
        cases h
      | cons y c =>
        obtain ⟨p, e⟩ := y
        obtain ⟨-, -, -, he⟩ := up_eq_cons hup
        rw [walk_store_eq_iff he.ne_nil]
        constructor
        · intro h
          refine ⟨hroot, fun hb => absurd hbase hb, fun _ _ p' e' hhead => ?_⟩
          rw [hup] at hhead
          cases hhead
          exact h
        · exact fun h => h.above hbase hz p e (by rw [hup]; rfl)
  · have hup : up key = (dirOf key, baseOf key) :: (scan key).steps := by rw [up, if_neg hbase]
    rw [if_neg hbase, hup, walk_store_eq_iff hbase]
    constructor
    · exact fun h => ⟨hroot, fun _ => h rfl, fun hb => absurd hb hbase⟩
    · exact fun h _ => h.component hbase

/-! ### The first pass of a request -/

/-- The first pass of a STORE changes nothing exactly when it has nothing to put. -/
theorem storePass_eq_iff {key : Bytes} {a : Arrival} (ha : arrive conf L.rootPrefix key = some a) :
    (listIo conf a.inst .store key { L with rootPrefix := a.rootPrefix } a.data).listing = L ↔
      StoreListed conf L key := by
  have hkey : key ≠ [] := by
    intro hnil
    rw [arrive_eq_none conf L.rootPrefix (Or.inl hnil)] at ha
    cases ha
  obtain ⟨hpend, hinst, hroot⟩ := arrive_some ha
  have hspec := (doListIo_spec a.inst .store (l := []) (c := pairs key) rfl
    { L with rootPrefix := a.rootPrefix } .passThrough hpend).1
  rw [listIo, hpend.tbd, hspec, hinst, hroot]
  constructor
  · intro heq
    have hstay : RootStays L key := by
      have hstay := congrArg ListContext.rootPrefix heq
      rw [walk_rootPrefix] at hstay
      exact (rootAfter_eq_iff L key).1 hstay
    rw [(rootAfter_eq_iff L key).2 hstay] at heq
    exact (walk_pairs_eq_iff hkey hstay).1 heq
  · intro hl
    rw [(rootAfter_eq_iff L key).2 hl.root]
    exact (walk_pairs_eq_iff hkey hl.root).2 hl

end DssSdk.Listing
