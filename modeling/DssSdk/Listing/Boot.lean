import DssSdk.Listing.KeySet

/-!
# Prefix listing: the rebuild at boot

At boot the keys found on the device are listed by `list_key_update_helper`, which walks a key from
its end with `find_last_of`, on `size_t` positions. It is compared with the updates at run time:
the same listing after the same keys, and the same effect of a deletion (`BootAgrees`).

The two agree exactly on keys without a delimiter that start with the configured head
(`bootAgrees_iff`): the walk at boot leaves the first component without its delimiter and keeps
`NKV_ROOT_PREFIX`, and a key without the head is ignored at boot only.

Source: `list_op.cpp` (`do_op_list_map`, `list_key_update_helper`).
-/

namespace DssSdk.Listing

open PrefixTree

/-! ### Positions of a `std::string` -/

/-- `std::string::npos`. -/
def npos : ℕ := 2 ^ 64 - 1

/-- A `size_t` subtraction. -/
def sizeSub (a b : ℕ) : ℕ := (a + 2 ^ 64 - b) % 2 ^ 64

/-- A `size_t` addition. -/
def sizeAdd (a b : ℕ) : ℕ := (a + b) % 2 ^ 64

/-- The last delimiter among the first `n` bytes. -/
def lastDelim (key : Bytes) : ℕ → Option ℕ
  | 0 => none
  | n + 1 => if key[n]? = some delim then some n else lastDelim key n

/-- `find_last_of` for the delimiter: the last position not behind `pos`. -/
def findLastOf (key : Bytes) (pos : ℕ) : ℕ :=
  (lastDelim key (min (pos + 1) key.length)).getD npos

def substr (key : Bytes) (pos n : ℕ) : Bytes := (key.drop pos).take n

/-! ### The update helper -/

/-- `do_op_list_map`: the listing and whether the walk stops here. An empty entry fails the
assertion. -/
def doOpListMap (conf : Conf) (L : ListContext) (p entry : Bytes) (isDel : Bool) :
    Option (ListContext × Bool) :=
  let zone := zoneOf conf p
  if entry = [] then none
  else if isDel then
    match L.zones zone p with
    | none => some (L, true)
    | some s =>
      let s' := if s.erase entry = ∅ then none else some (s.erase entry)
      some ({ L with zones := Function.update L.zones zone (Function.update (L.zones zone) p s') },
        false)
  else
    some ({ L with zones := Function.update L.zones zone (put (L.zones zone) p entry) },
      (L.zones zone p).isSome)

/-- Where the walk of a key is: the listing, the position of the delimiter, the end of the entry
and whether a prefix stopped the walk. -/
structure Cursor where
  listing : ListContext
  pos : ℕ
  posEnd : ℕ
  dupFlag : Bool

/-- The last component of a key with a delimiter. -/
def firstEntry (conf : Conf) (key : Bytes) (isDel : Bool) (L : ListContext) : Option Cursor :=
  let pos := findLastOf key npos
  if pos = npos then some ⟨L, pos, npos, false⟩
  else
    let entry := substr key (pos + 1) (key.length - pos)
    let posEnd := sizeSub pos 1
    if entry = [] then some ⟨L, findLastOf key posEnd, posEnd, false⟩
    else
      (doOpListMap conf L (substr key 0 (pos + 1)) entry isDel).map fun res =>
        ⟨res.1, findLastOf key posEnd, posEnd, res.2⟩

/-- The loop over the directories; an empty component fails the assertion. The fuel is more than
the number of positions. -/
def dirEntries (conf : Conf) (key : Bytes) (isDel : Bool) : ℕ → Cursor → Option Cursor
  | 0, _ => none
  | fuel + 1, cur =>
    if cur.dupFlag = false ∧ cur.pos ≠ npos then
      let entry := substr key (cur.pos + 1) (sizeAdd (sizeSub cur.posEnd cur.pos) 1)
      let posEnd := sizeSub cur.pos 1
      (doOpListMap conf cur.listing (substr key 0 (cur.pos + 1)) entry isDel).bind fun res =>
        dirEntries conf key isDel fuel ⟨res.1, findLastOf key posEnd, posEnd, res.2⟩
    else some cur

/-- The entry under the root prefix. -/
def rootEntry (conf : Conf) (key : Bytes) (isDel : Bool) (cur : Cursor) : Option ListContext :=
  if cur.dupFlag then some cur.listing
  else
    let entry := if cur.posEnd = npos then substr key 0 key.length
      else substr key 0 (sizeAdd cur.posEnd 1)
    (doOpListMap conf cur.listing cur.listing.rootPrefix entry isDel).map Prod.fst

/-- `list_key_update_helper`: a key without the configured head is left out. -/
def listKeyUpdateHelper (conf : Conf) (L : ListContext) (key : Bytes) (isDel : Bool) :
    Option ListContext :=
  if key.length < conf.prefixHead.length then some L
  else if key.take conf.prefixHead.length ≠ conf.prefixHead then some L
  else
    (firstEntry conf key isDel L).bind fun cur =>
      (dirEntries conf key isDel (key.length + 2) cur).bind fun cur' =>
        rootEntry conf key isDel cur'

/-! ### The two ways to build a listing -/

/-- The listing of the keys as boot builds it. -/
def bootBuild (conf : Conf) (L : ListContext) : List Bytes → Option ListContext
  | [] => some L
  | key :: keys => (listKeyUpdateHelper conf L key false).bind fun L' => bootBuild conf L' keys

/-- The listing of the keys as STORE updates build it. -/
def runBuild (conf : Conf) (L : ListContext) : List Bytes → Option ListContext
  | [] => some L
  | key :: keys => (listUpdate conf L .store key).bind fun L' => runBuild conf L' keys

/-- Boot and run time agree on the keys: they end, with the same listing, and so does the deletion
of each of the keys. The prefix that a reader starts from is part of the listing: in KV mode a key that
ends with a delimiter, and has its root pair in a zone of another instance, moves that prefix and
leaves the zones as they are. -/
def BootAgrees (conf : Conf) (keys : List Bytes) : Prop :=
  ∃ L, bootBuild conf ListContext.init keys = some L ∧
    runBuild conf ListContext.init keys = some L ∧
    ∀ k ∈ keys, ∃ L', listKeyUpdateHelper conf L k true = some L' ∧ listUpdate conf L .delete k = some L'

/-! ### The root prefix -/

theorem doOpListMap_rootPrefix {conf : Conf} {L : ListContext} {p entry : Bytes} {isDel : Bool}
    {res : ListContext × Bool} (h : doOpListMap conf L p entry isDel = some res) :
    res.1.rootPrefix = L.rootPrefix := by
  simp only [doOpListMap] at h
  split at h
  · cases h
  · split at h
    · split at h <;> (cases h; rfl)
    · cases h
      rfl

theorem firstEntry_rootPrefix {conf : Conf} {key : Bytes} {isDel : Bool} {L : ListContext}
    {cur : Cursor} (h : firstEntry conf key isDel L = some cur) :
    cur.listing.rootPrefix = L.rootPrefix := by
  simp only [firstEntry] at h
  split at h
  · cases h
    rfl
  · split at h
    · cases h
      rfl
    · obtain ⟨res, hres, rfl⟩ := Option.map_eq_some_iff.1 h
      exact doOpListMap_rootPrefix hres

theorem dirEntries_rootPrefix {conf : Conf} {key : Bytes} {isDel : Bool} {fuel : ℕ}
    {cur cur' : Cursor} (h : dirEntries conf key isDel fuel cur = some cur') :
    cur'.listing.rootPrefix = cur.listing.rootPrefix := by
  induction fuel generalizing cur with
  | zero => cases h
  | succ fuel ih =>
    rw [dirEntries] at h
    split at h
    · obtain ⟨res, hres, hrest⟩ := Option.bind_eq_some_iff.1 h
      rw [ih hrest]
      exact doOpListMap_rootPrefix hres
    · cases h
      rfl

theorem listKeyUpdateHelper_rootPrefix {conf : Conf} {L L' : ListContext} {key : Bytes} {isDel : Bool}
    (h : listKeyUpdateHelper conf L key isDel = some L') : L'.rootPrefix = L.rootPrefix := by
  rw [listKeyUpdateHelper] at h
  split at h
  · cases h
    rfl
  · split at h
    · cases h
      rfl
    · obtain ⟨cur, hcur, h⟩ := Option.bind_eq_some_iff.1 h
      obtain ⟨cur', hcur', h⟩ := Option.bind_eq_some_iff.1 h
      rw [← firstEntry_rootPrefix hcur, ← dirEntries_rootPrefix hcur']
      rw [rootEntry] at h
      split at h
      · cases h
        rfl
      · obtain ⟨res, hres, rfl⟩ := Option.map_eq_some_iff.1 h
        exact doOpListMap_rootPrefix hres

theorem bootBuild_rootPrefix {conf : Conf} {L L' : ListContext} {keys : List Bytes}
    (h : bootBuild conf L keys = some L') : L'.rootPrefix = L.rootPrefix := by
  induction keys generalizing L with
  | nil =>
    cases h
    rfl
  | cons key keys ih =>
    obtain ⟨L₁, h₁, hrest⟩ := Option.bind_eq_some_iff.1 h
    rw [ih hrest, listKeyUpdateHelper_rootPrefix h₁]

theorem doListIo_rootPrefix (conf : Conf) (inst : ℕ) (op : Op) (key : Bytes) (fuel : ℕ)
    (L : ListContext) (d : ListInfo) (rc : Rc) :
    (doListIo conf inst op key fuel L d rc).listing.rootPrefix = L.rootPrefix := by
  induction fuel generalizing L d rc with
  | zero => rfl
  | succ fuel ih =>
    rw [doListIo]
    split
    · rfl
    · simp only
      split
      · rfl
      · rw [ih]
        rfl

theorem serve_rootPrefix {conf : Conf} {op : Op} {key : Bytes} {fuel : ℕ} {L L' : ListContext}
    {d : ListInfo} {inst : ℕ} (h : serve conf op key fuel L d inst = some L') :
    L'.rootPrefix = L.rootPrefix := by
  induction fuel generalizing L d inst with
  | zero => cases h
  | succ fuel ih =>
    have hpass : (listIo conf inst op key L d).listing.rootPrefix = L.rootPrefix :=
      doListIo_rootPrefix conf inst op key _ L d _
    simp only [serve] at h
    split at h
    · cases h
      exact hpass
    · rw [ih h, hpass]
    · cases h

theorem listUpdate_rootPrefix {conf : Conf} {L L' : ListContext} {op : Op} {key : Bytes}
    (h : listUpdate conf L op key = some L') :
    key ≠ [] ∧ L'.rootPrefix = rootAfter L.rootPrefix key := by
  have hkey : key ≠ [] := by
    intro hnil
    rw [listUpdate, arrive_eq_none conf L.rootPrefix (Or.inl hnil)] at h
    cases h
  have hlen : (pairs key).length < 512 := by
    by_contra hge
    rw [listUpdate, arrive_eq_none conf L.rootPrefix (Or.inr (by omega))] at h
    cases h
  obtain ⟨d, harr, -⟩ := arrive_eq conf L.rootPrefix hkey hlen
  rw [listUpdate, harr] at h
  exact ⟨hkey, serve_rootPrefix h⟩

theorem runBuild_rootPrefix {conf : Conf} {L L' : ListContext} {keys : List Bytes}
    (h : runBuild conf L keys = some L') :
    (∀ k ∈ keys, k ≠ []) ∧
      L'.rootPrefix = if ∃ k ∈ keys, delim ∈ k then [] else L.rootPrefix := by
  induction keys generalizing L with
  | nil =>
    cases h
    exact ⟨fun k hk => (List.not_mem_nil hk).elim, by simp⟩
  | cons key keys ih =>
    obtain ⟨L₁, h₁, hrest⟩ := Option.bind_eq_some_iff.1 h
    obtain ⟨hkey, hroot⟩ := listUpdate_rootPrefix h₁
    obtain ⟨hkeys, hroot'⟩ := ih hrest
    refine ⟨fun k hk => ?_, ?_⟩
    · rcases List.mem_cons.1 hk with rfl | hk
      · exact hkey
      · exact hkeys k hk
    · rw [hroot', hroot, rootAfter]
      by_cases hmem : delim ∈ key
      · simp [hmem]
      · simp [hmem]

/-! ### Keys without a delimiter -/

/-- The key starts with the configured `list_prefix_head`. -/
def Headed (conf : Conf) (key : Bytes) : Prop := conf.prefixHead <+: key

instance (conf : Conf) (key : Bytes) : Decidable (Headed conf key) :=
  inferInstanceAs (Decidable (conf.prefixHead <+: key))

theorem lastDelim_of_notMem {key : Bytes} (h : delim ∉ key) (n : ℕ) : lastDelim key n = none := by
  induction n with
  | zero => rfl
  | succ n ih =>
    rw [lastDelim, if_neg ?_, ih]
    intro heq
    exact h (List.mem_of_getElem? heq)

theorem listKeyUpdateHelper_of_notMem {conf : Conf} {key : Bytes} (hkey : delim ∉ key)
    (L : ListContext) (isDel : Bool) :
    listKeyUpdateHelper conf L key isDel =
      if Headed conf key then (doOpListMap conf L L.rootPrefix key isDel).map Prod.fst
      else some L := by
  have hfind : findLastOf key npos = npos := by
    rw [findLastOf, lastDelim_of_notMem hkey]
    rfl
  have hfirst : firstEntry conf key isDel L = some ⟨L, npos, npos, false⟩ := by
    rw [firstEntry, hfind]
    rfl
  have hdirs : dirEntries conf key isDel (key.length + 2) ⟨L, npos, npos, false⟩ =
      some ⟨L, npos, npos, false⟩ := by
    rw [dirEntries]
    rfl
  have hhead : Headed conf key ↔ key.take conf.prefixHead.length = conf.prefixHead := by
    rw [Headed, List.prefix_iff_eq_take]
    exact eq_comm
  rw [listKeyUpdateHelper]
  by_cases hlen : key.length < conf.prefixHead.length
  · have hnot : ¬ Headed conf key := fun h => absurd h.length_le (by omega)
    rw [if_pos hlen, if_neg hnot]
  · rw [if_neg hlen]
    by_cases htake : key.take conf.prefixHead.length = conf.prefixHead
    · rw [if_neg (not_not.2 htake), if_pos (hhead.2 htake), hfirst, Option.bind_some, hdirs,
        Option.bind_some, rootEntry]
      simp [substr]
    · rw [if_pos htake, if_neg fun h => htake (hhead.1 h)]

theorem doOpListMap_insert_flat (conf : Conf) (K : Finset Bytes) {key : Bytes} (hkey : key ≠ []) :
    (doOpListMap conf (flat conf K) rootPrefixInit key false).map Prod.fst =
      some (flat conf (insert key K)) := by
  rw [← handle_store_flat conf K hkey]
  simp [doOpListMap, handle, ioHandler, listHandleStoreOp, hkey, prefixIn, flat]

theorem doOpListMap_delete_flat (conf : Conf) (K : Finset Bytes) {key : Bytes} (hkey : key ≠ []) :
    (doOpListMap conf (flat conf K) rootPrefixInit key true).map Prod.fst =
      some (flat conf (K.erase key)) := by
  rw [← handle_delete_flat conf K key]
  by_cases hK : K = ∅
  · simp [doOpListMap, handle, ioHandler, listHandleDeleteOp, hkey, prefixIn, flat, hK]
  · by_cases hs : K.erase key = ∅
    · simp [doOpListMap, handle, ioHandler, listHandleDeleteOp, hkey, prefixIn, flat, hK, hs]
    · simp [doOpListMap, handle, ioHandler, listHandleDeleteOp, hkey, prefixIn, flat, hK, hs]

theorem listUpdate_flat (conf : Conf) (K : Finset Bytes) (op : Op) {key : Bytes} (hkey : key ≠ [])
    (hflat : delim ∉ key) :
    listUpdate conf (flat conf K) op key = some (flat conf (storedAfter K ⟨op, key⟩)) := by
  obtain ⟨hlisting, hfin⟩ := walk_of_notMem conf rootPrefixInit (flat conf K) op hflat
  have hwalk : requestWalk conf (flat conf K) op key =
      walk conf rootPrefixInit (firstInst conf rootPrefixInit key) op (pairs key) (flat conf K)
        .passThrough := by
    rw [requestWalk, rootAfter, if_neg hflat]
    rfl
  have hcount : key.count delim < 511 := by
    rw [List.count_eq_zero.2 hflat]
    decide
  rw [listUpdate_eq hkey hcount (hwalk ▸ hfin), hwalk, hlisting]
  cases op with
  | store => exact congrArg some (handle_store_flat conf K hkey)
  | delete => exact congrArg some (handle_delete_flat conf K key)

theorem runBuild_flat (conf : Conf) (K : Finset Bytes) (keys : List Bytes)
    (h : ∀ k ∈ keys, k ≠ [] ∧ delim ∉ k) :
    runBuild conf (flat conf K) keys = some (flat conf (K ∪ keys.toFinset)) := by
  induction keys generalizing K with
  | nil => simp [runBuild]
  | cons key keys ih =>
    obtain ⟨hkey, hflat⟩ := h key List.mem_cons_self
    rw [runBuild, listUpdate_flat conf K .store hkey hflat, Option.bind_some,
      ih _ fun k hk => h k (List.mem_cons_of_mem _ hk), storedAfter, List.toFinset_cons]
    congr 2
    rw [Finset.insert_union, Finset.union_insert]

theorem bootBuild_flat (conf : Conf) (K : Finset Bytes) (keys : List Bytes)
    (h : ∀ k ∈ keys, k ≠ [] ∧ delim ∉ k) :
    bootBuild conf (flat conf K) keys =
      some (flat conf (K ∪ (keys.filter fun k => Headed conf k).toFinset)) := by
  induction keys generalizing K with
  | nil => simp [bootBuild]
  | cons key keys ih =>
    obtain ⟨hkey, hflat⟩ := h key List.mem_cons_self
    rw [bootBuild, listKeyUpdateHelper_of_notMem hflat]
    by_cases hhead : Headed conf key
    · have hroot : (flat conf K).rootPrefix = rootPrefixInit := rfl
      rw [if_pos hhead, hroot, doOpListMap_insert_flat conf K hkey, Option.bind_some,
        ih _ fun k hk => h k (List.mem_cons_of_mem _ hk),
        List.filter_cons_of_pos (by simpa using hhead), List.toFinset_cons]
      congr 2
      rw [Finset.insert_union, Finset.union_insert]
    · rw [if_neg hhead, Option.bind_some, ih _ fun k hk => h k (List.mem_cons_of_mem _ hk),
        List.filter_cons_of_neg (by simpa using hhead)]

theorem flat_injective (conf : Conf) : Function.Injective (flat conf) := by
  intro K K' h
  have hzone := congrFun (congrFun (congrArg ListContext.zones h) (zoneOf conf rootPrefixInit))
    rootPrefixInit
  by_cases hK : K = ∅ <;> by_cases hK' : K' = ∅
  · rw [hK, hK']
  · simp [flat, hK, hK'] at hzone
  · simp [flat, hK, hK'] at hzone
  · simpa [flat, hK, hK'] using hzone

theorem init_eq_flat (conf : Conf) : ListContext.init = flat conf ∅ := by
  ext1
  · funext z p
    simp [ListContext.init, flat]
  · rfl

/-- **Boot agrees with run time** exactly on keys that are not empty, have no delimiter and start
with the configured head. -/
theorem bootAgrees_iff (conf : Conf) (keys : List Bytes) :
    BootAgrees conf keys ↔ ∀ k ∈ keys, k ≠ [] ∧ delim ∉ k ∧ Headed conf k := by
  constructor
  · intro ⟨L, hboot, hrun, _⟩
    obtain ⟨hne, hroot⟩ := runBuild_rootPrefix hrun
    -- a delimiter moves the root prefix at run time only
    have hflat : ∀ k ∈ keys, delim ∉ k := by
      intro k hk hmem
      rw [bootBuild_rootPrefix hboot, if_pos ⟨k, hk, hmem⟩] at hroot
      cases hroot
    have hkeys : ∀ k ∈ keys, k ≠ [] ∧ delim ∉ k := fun k hk => ⟨hne k hk, hflat k hk⟩
    rw [init_eq_flat conf, bootBuild_flat conf ∅ keys hkeys] at hboot
    rw [init_eq_flat conf, runBuild_flat conf ∅ keys hkeys, ← hboot, Option.some.injEq] at hrun
    have hsame := flat_injective conf hrun
    rw [Finset.empty_union, Finset.empty_union] at hsame
    intro k hk
    refine ⟨hne k hk, hflat k hk, ?_⟩
    have hmem : k ∈ (keys.filter fun k => Headed conf k).toFinset := by
      rw [← hsame]
      exact List.mem_toFinset.2 hk
    rw [List.mem_toFinset, List.mem_filter] at hmem
    simpa using hmem.2
  · intro h
    have hkeys : ∀ k ∈ keys, k ≠ [] ∧ delim ∉ k := fun k hk => ⟨(h k hk).1, (h k hk).2.1⟩
    have hfilter : (keys.filter fun k => Headed conf k) = keys := by
      rw [List.filter_eq_self]
      intro k hk
      simpa using (h k hk).2.2
    refine ⟨flat conf keys.toFinset, ?_, ?_, ?_⟩
    · rw [init_eq_flat conf, bootBuild_flat conf ∅ keys hkeys, hfilter, Finset.empty_union]
    · rw [init_eq_flat conf, runBuild_flat conf ∅ keys hkeys, Finset.empty_union]
    · intro k hk
      obtain ⟨hne, hflat, hhead⟩ := h k hk
      refine ⟨flat conf (keys.toFinset.erase k), ?_, listUpdate_flat conf _ .delete hne hflat⟩
      rw [listKeyUpdateHelper_of_notMem hflat, if_pos hhead]
      exact doOpListMap_delete_flat conf _ hne

/-- The key `meta/x`: boot lists `meta` under `root/`, run time lists `meta/` under the moved
prefix. -/
theorem not_bootAgrees_nested : ¬ BootAgrees defaultConf [[109, 101, 116, 97, 47, 120]] := by
  intro ⟨L, hboot, hrun, _⟩
  have hb : (bootBuild defaultConf ListContext.init [[109, 101, 116, 97, 47, 120]]).map
      (fun L => (L.zones 0 rootPrefixInit, L.zones 0 [])) =
        some (some {[109, 101, 116, 97]}, none) := by
    decide +kernel
  have hr : (runBuild defaultConf ListContext.init [[109, 101, 116, 97, 47, 120]]).map
      (fun L => (L.zones 0 rootPrefixInit, L.zones 0 [])) =
        some (none, some {[109, 101, 116, 97, 47]}) := by
    decide +kernel
  rw [hboot] at hb
  rw [hrun, hb] at hr
  simp at hr

end DssSdk.Listing
