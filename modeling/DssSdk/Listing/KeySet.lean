import DssSdk.Lib.Run
import DssSdk.Listing.Requests

/-!
# Prefix listing: the listing of the stored keys

STORE and DELETE updates, each handled completely before the next, are compared with the set of the
stored keys. The listing is the one of the key set (`ListsKeys`) as long as no update meets one of
these conditions.

* The first key with a delimiter moves `NKV_ROOT_PREFIX` away. What was listed under the old value
  is out of reach, and the first component of that key goes to the zone of the old value.
* A DELETE climbs past a stored key that is a directory of the deleted key when nothing else is
  stored below it, and erases its entry.
* A request that meets a zone of another instance is forwarded with a marked pair as its zone.
* An empty key, or a key with more than 510 delimiters, fails an assertion.

`listsKeys_of_run` proves the rest from the library's updates: they follow the key set because a
listed directory has all its ancestors listed.
-/

namespace DssSdk.Listing

open PrefixTree

/-- A list update. -/
structure Update where
  op : Op
  key : Bytes
deriving DecidableEq, Repr

/-- The listing and the keys that are stored. -/
structure State where
  listing : ListContext
  stored : Finset Bytes

def State.init : State := ⟨ListContext.init, ∅⟩

/-- The key set after an update. -/
def storedAfter (K : Finset Bytes) (u : Update) : Finset Bytes :=
  match u.op with
  | .store => insert u.key K
  | .delete => K.erase u.key

/-- An update, handled completely. -/
def step (conf : Conf) (s : State) (u : Update) : Option State :=
  (listUpdate conf s.listing u.op u.key).map fun L => ⟨L, storedAfter s.stored u⟩

/-- The listing holds, under every prefix and in the zone of that prefix, exactly the components
of the stored keys, and no empty set. -/
structure ListsKeys (conf : Conf) (s : State) : Prop where
  ne_empty : ∀ z p, s.listing.zones z p ≠ some ∅
  mem_iff : ∀ z p e, (∃ es, s.listing.zones z p = some es ∧ e ∈ es) ↔
    z = zoneOf conf p ∧
      ∃ k ∈ s.stored, ∃ q, HasStep k q e ∧ p = prefixIn s.listing.rootPrefix q

/-- The pairs a request visits belong to one instance: it goes on from a pair when the handler of
that pair, in the state before the request, is not done. -/
def ServedBy (conf : Conf) (root₀ : Bytes) (inst : ℕ) (op : Op) (L : ListContext) :
    List (Bytes × Bytes) → Prop
  | [] => True
  | (p, e) :: c =>
    instOf conf (zoneOf conf (prefixIn root₀ p)) = inst ∧
      ((handle conf root₀ op L p e).2.isDone = false → ServedBy conf root₀ inst op L c)

/-- The instance a request arrives at. -/
def firstInst (conf : Conf) (root key : Bytes) : ℕ :=
  instOf conf (zoneOf conf (prefixIn root (dirOf key)))

/-- A DELETE leaves no stored directory above its key without another key below. -/
def MarkersKept (K : Finset Bytes) (u : Update) : Prop :=
  u.op = .delete → ∀ m ∈ K, m ≠ u.key → m.getLast? = some delim → m <+: u.key →
    ∃ k ∈ K, k ≠ u.key ∧ k ≠ m ∧ m <+: k

instance (K : Finset Bytes) (u : Update) : Decidable (MarkersKept K u) :=
  inferInstanceAs (Decidable (u.op = .delete → ∀ m ∈ K, m ≠ u.key → m.getLast? = some delim →
    m <+: u.key → ∃ k ∈ K, k ≠ u.key ∧ k ≠ m ∧ m <+: k))

/-- The updates that meet none of the defects. -/
structure Regular (conf : Conf) (s : State) (u : Update) : Prop where
  key_ne : u.key ≠ []
  fits : u.key.count delim < 511
  served : ServedBy conf s.listing.rootPrefix (firstInst conf s.listing.rootPrefix u.key) u.op
    { s.listing with rootPrefix := rootAfter s.listing.rootPrefix u.key } (pairs u.key)
  root : delim ∈ u.key → s.listing.rootPrefix ≠ [] →
    s.stored = ∅ ∧ (u.op = .store → zoneOf conf s.listing.rootPrefix = zoneOf conf [])
  marker : MarkersKept s.stored u

instance decidableServedBy (conf : Conf) (root₀ : Bytes) (inst : ℕ) (op : Op) (L : ListContext) :
    ∀ c, Decidable (ServedBy conf root₀ inst op L c)
  | [] => isTrue trivial
  | (p, e) :: c =>
    have : Decidable (ServedBy conf root₀ inst op L c) := decidableServedBy conf root₀ inst op L c
    inferInstanceAs (Decidable (instOf conf (zoneOf conf (prefixIn root₀ p)) = inst ∧
      ((handle conf root₀ op L p e).2.isDone = false → ServedBy conf root₀ inst op L c)))

theorem regular_iff (conf : Conf) (s : State) (u : Update) : Regular conf s u ↔
    u.key ≠ [] ∧ u.key.count delim < 511 ∧
    ServedBy conf s.listing.rootPrefix (firstInst conf s.listing.rootPrefix u.key) u.op
      { s.listing with rootPrefix := rootAfter s.listing.rootPrefix u.key } (pairs u.key) ∧
    (delim ∈ u.key → s.listing.rootPrefix ≠ [] →
      s.stored = ∅ ∧ (u.op = .store → zoneOf conf s.listing.rootPrefix = zoneOf conf [])) ∧
    MarkersKept s.stored u := by
  constructor
  · intro ⟨h₁, h₂, h₃, h₄, h₅⟩
    exact ⟨h₁, h₂, h₃, h₄, h₅⟩
  · intro ⟨h₁, h₂, h₃, h₄, h₅⟩
    exact ⟨h₁, h₂, h₃, h₄, h₅⟩

instance decidableRegular (conf : Conf) (s : State) (u : Update) : Decidable (Regular conf s u) :=
  decidable_of_iff' _ (regular_iff conf s u)

/-! ### A request as one walk -/

theorem pairs_length (key : Bytes) : (pairs key).length = key.count delim + 1 := by
  rw [← positions_length]
  induction key using List.reverseRecOn with
  | nil => rfl
  | append_singleton key b ih =>
    rw [positions_snoc, List.length_append, ih, List.count_append]
    by_cases hb : b = delim
    · rw [if_pos hb, hb]
      simp
    · rw [if_neg hb]
      simp [hb]

/-- The first pass over a new request. -/
def requestWalk (conf : Conf) (L : ListContext) (op : Op) (key : Bytes) : Walk :=
  walk conf L.rootPrefix (firstInst conf L.rootPrefix key) op (pairs key)
    { L with rootPrefix := rootAfter L.rootPrefix key } .passThrough

/-- The walk ends a request when no pair is left or the last handler was done. -/
def Walk.Finished (w : Walk) : Prop := w.left = [] ∨ w.rc.isDone

theorem nextOf_finished {conf : Conf} {pass : Pass} (h : pass.data.peCntTbd = 0 ∨ pass.rc.isDone) :
    nextOf conf pass = .done := by
  unfold nextOf
  rw [if_pos h, ite_self]

theorem listUpdate_eq {conf : Conf} {L : ListContext} {op : Op} {key : Bytes} (hkey : key ≠ [])
    (hlen : key.count delim < 511) (hdone : (requestWalk conf L op key).Finished) :
    listUpdate conf L op key = some (requestWalk conf L op key).listing := by
  have hlen' := pairs_length key
  obtain ⟨d, harr, hpend⟩ := arrive_eq conf L.rootPrefix hkey (by omega)
  have hfuel : d.peTotalCnt = key.count delim + 1 := by rw [hpend.total, hlen']
  obtain ⟨hL, hrc, hleft, -⟩ := doListIo_spec (firstInst conf L.rootPrefix key) op
    (l := []) (c := pairs key) rfl { L with rootPrefix := rootAfter L.rootPrefix key }
    .passThrough hpend
  have hnext : ∀ pass : Pass, pass.data.peCntTbd = 0 ∨ pass.rc.isDone → nextOf conf pass = .done :=
    fun pass h => nextOf_finished h
  rw [listUpdate, harr]
  simp only
  rw [hfuel, serve, listIo, hpend.tbd, ← firstInst, hnext _ ?_, requestWalk, ← hL]
  rw [hrc, hleft.tbd, List.length_eq_zero_iff]
  exact hdone

/-! ### The listing after the root prefix has moved -/

/-- A listing given by one map: every prefix is in its own zone, and the root prefix is empty. -/
def ofMap (conf : Conf) (M : ZoneMap) : ListContext where
  zones z p := if z = zoneOf conf p then M p else none
  rootPrefix := []

theorem update_ofMap (conf : Conf) (M : ZoneMap) (p : Bytes) (o : Option (Finset Bytes)) :
    ({ ofMap conf M with
      zones := Function.update (ofMap conf M).zones (zoneOf conf p)
        (Function.update ((ofMap conf M).zones (zoneOf conf p)) p o) } : ListContext) =
      ofMap conf (Function.update M p o) := by
  ext1
  · funext z q
    by_cases hz : z = zoneOf conf p
    · subst hz
      by_cases hq : q = p
      · subst hq
        simp [ofMap]
      · simp [ofMap, hq]
    · by_cases hq : q = p
      · subst hq
        simp [ofMap, hz]
      · simp [ofMap, hz, hq]
  · rfl

theorem update_ofMap_self (conf : Conf) (M : ZoneMap) (p : Bytes) :
    ({ ofMap conf M with
      zones := Function.update (ofMap conf M).zones (zoneOf conf p)
        ((ofMap conf M).zones (zoneOf conf p)) } : ListContext) = ofMap conf M := by
  rw [Function.update_eq_self]

theorem ofMap_zone (conf : Conf) (M : ZoneMap) (p : Bytes) :
    (ofMap conf M).zones (zoneOf conf p) p = M p := if_pos rfl

theorem prefixIn_nil (p : Bytes) : prefixIn [] p = p := by
  rw [prefixIn]
  split
  · next hp => exact hp.symm
  · rfl

/-- The zone of every pair is the one of its prefix: the root prefix had moved before, or its move
does not change the zone. -/
def Homed (conf : Conf) (root₀ : Bytes) : Prop := zoneOf conf root₀ = zoneOf conf []

theorem Homed.zone {conf : Conf} {root₀ : Bytes} (h : Homed conf root₀) (p : Bytes) :
    zoneOf conf (prefixIn root₀ p) = zoneOf conf p := by
  rw [prefixIn]
  split
  · next hp => rw [hp, h]
  · rfl

section Handle

variable {conf : Conf} {root₀ : Bytes} (hroot : Homed conf root₀) (M : ZoneMap) (p e : Bytes)
include hroot

theorem handle_store_ofMap :
    handle conf root₀ .store (ofMap conf M) p e =
      (ofMap conf (if e = [] then M else put M p e),
        if (M p).isSome then .storeDone else .storeContinue) := by
  have hpre : prefixIn (ofMap conf M).rootPrefix p = p := prefixIn_nil p
  simp only [handle, ioHandler, listHandleStoreOp, hroot.zone, hpre, ofMap_zone]
  congr 1
  split
  · exact update_ofMap_self conf M p
  · rw [put, PrefixTree.entries, ofMap_zone]
    exact update_ofMap conf M p _

theorem handle_delete_ofMap :
    handle conf root₀ .delete (ofMap conf M) p e =
      match M p with
      | none => (ofMap conf M, .delContinue)
      | some s =>
        if s.erase e = ∅ then (ofMap conf (Function.update M p none), .delContinue)
        else (ofMap conf (Function.update M p (some (s.erase e))), .delDone) := by
  have hpre : prefixIn (ofMap conf M).rootPrefix p = p := prefixIn_nil p
  simp only [handle, ioHandler, listHandleDeleteOp, hroot.zone, hpre, ofMap_zone]
  cases M p with
  | none => simp only [update_ofMap_self conf M p]
  | some s =>
    by_cases hs : s.erase e = ∅
    · simp only [hs, if_true, update_ofMap conf M p]
    · simp only [hs, if_false, update_ofMap conf M p]

end Handle

theorem IsComponent.ne_nil {e : Bytes} (h : IsComponent e) : e ≠ [] := by
  obtain ⟨a, b, rfl, -⟩ := h
  simp

theorem ne_of_mem_up {p : Bytes} {y : Bytes × Bytes} (h : y ∈ up p) : y.1 ≠ p := by
  intro heq
  apply tree.not_mem_self p y.2
  rw [← heq] at h ⊢
  exact h

section Walks

variable {conf : Conf} {root₀ : Bytes} {M₀ M : ZoneMap} {inst : ℕ}

/-- The walk of a STORE is the library's update. The instance condition is read in the map `M₀`
before the request, which the walk has not changed at the pairs ahead. -/
theorem walk_store_ofMap (hroot : Homed conf root₀) (x : Bytes)
    (hagree : ∀ y ∈ up x, M y.1 = M₀ y.1) (rc : Rc)
    (hserved : ServedBy conf root₀ inst .store (ofMap conf M₀) (up x)) :
    (walk conf root₀ inst .store (up x) (ofMap conf M) rc).listing =
        ofMap conf (store M (up x)) ∧
      (walk conf root₀ inst .store (up x) (ofMap conf M) rc).Finished := by
  generalize hx : up x = c at hagree hserved
  induction c generalizing x M rc with
  | nil => exact ⟨rfl, Or.inl rfl⟩
  | cons y c ih =>
    obtain ⟨p, e⟩ := y
    obtain ⟨-, hc, -, he⟩ := up_eq_cons hx
    obtain ⟨hinst, hnext⟩ := hserved
    rw [handle_store_ofMap hroot] at hnext
    have hp : M p = M₀ p := hagree (p, e) List.mem_cons_self
    rw [walk, if_pos hinst, handle_store_ofMap hroot, if_neg he.ne_nil, store]
    by_cases hsome : (M p).isSome
    · simp only [hsome, if_true]
      exact ⟨rfl, Or.inr rfl⟩
    · simp only [← hp, hsome] at hnext
      simp only [hsome]
      refine ih p .storeContinue hc.symm ?_ (hnext rfl)
      intro y hy
      rw [put_of_ne e (ne_of_mem_up (hc ▸ hy))]
      exact hagree y (List.mem_cons_of_mem _ hy)

theorem walk_delete_ofMap (hroot : Homed conf root₀) (x : Bytes)
    (hagree : ∀ y ∈ up x, M y.1 = M₀ y.1) (rc : Rc)
    (hserved : ServedBy conf root₀ inst .delete (ofMap conf M₀) (up x)) :
    (walk conf root₀ inst .delete (up x) (ofMap conf M) rc).listing =
        ofMap conf (remove M (up x)) ∧
      (walk conf root₀ inst .delete (up x) (ofMap conf M) rc).Finished := by
  generalize hx : up x = c at hagree hserved
  induction c generalizing x M rc with
  | nil => exact ⟨rfl, Or.inl rfl⟩
  | cons y c ih =>
    obtain ⟨p, e⟩ := y
    obtain ⟨-, hc, -, he⟩ := up_eq_cons hx
    obtain ⟨hinst, hnext⟩ := hserved
    rw [handle_delete_ofMap hroot] at hnext
    have hp : M p = M₀ p := hagree (p, e) List.mem_cons_self
    have hagree' : ∀ o, ∀ y ∈ c, Function.update M p o y.1 = M₀ y.1 := by
      intro o y hy
      rw [Function.update_of_ne (ne_of_mem_up (hc ▸ hy))]
      exact hagree y (List.mem_cons_of_mem _ hy)
    rw [walk, if_pos hinst, handle_delete_ofMap hroot, remove]
    rw [← hp] at hnext
    cases hM : M p with
    | none =>
      simp only [hM] at hnext
      refine ih p .delContinue hc.symm ?_ (hnext rfl)
      intro y hy
      exact hagree y (List.mem_cons_of_mem _ hy)
    | some s =>
      simp only [hM] at hnext
      by_cases hs : s.erase e = ∅
      · simp only [hs, if_true] at hnext ⊢
        exact ih p .delContinue hc.symm (hagree' none) (hnext rfl)
      · simp only [hs, if_false]
        exact ⟨rfl, Or.inr rfl⟩

theorem walk_pairs_store (hroot : Homed conf root₀) {K : Set Bytes} (h : Lists up K M)
    (key : Bytes) (hserved : ServedBy conf root₀ inst .store (ofMap conf M) (pairs key)) :
    ∃ M', (walk conf root₀ inst .store (pairs key) (ofMap conf M) .passThrough).listing =
        ofMap conf M' ∧
      (walk conf root₀ inst .store (pairs key) (ofMap conf M) .passThrough).Finished ∧
      Lists up (insert key K) M' := by
  rw [pairs_eq] at hserved ⊢
  by_cases hbase : baseOf key = []
  · rw [if_pos hbase] at hserved ⊢
    obtain ⟨hinst, hnext⟩ := hserved
    rw [handle_store_ofMap hroot, if_pos rfl] at hnext
    rw [walk, if_pos hinst, handle_store_ofMap hroot, if_pos rfl]
    by_cases hsome : (M key).isSome
    · simp only [hsome, if_true]
      exact ⟨M, rfl, Or.inr rfl, h.insert_node tree hsome⟩
    · simp only [hsome] at hnext ⊢
      obtain ⟨hL, hfin⟩ := walk_store_ofMap hroot key (fun _ _ => rfl) .storeContinue (hnext rfl)
      exact ⟨_, hL, hfin, h.store tree key⟩
  · rw [if_neg hbase] at hserved ⊢
    obtain ⟨hL, hfin⟩ := walk_store_ofMap hroot key (fun _ _ => rfl) .passThrough hserved
    exact ⟨_, hL, hfin, h.store tree key⟩

theorem exists_mem_up {m k : Bytes} (hm : IsDir m) (hpre : m <+: k) (hne : k ≠ m) :
    ∃ e, (m, e) ∈ up k := by
  obtain ⟨r, rfl⟩ := hpre
  exact ((tree.suffix_iff m (m ++ r)).1 (up_suffix_append hm r)).resolve_left hne

theorem nil_notMem_of_lists {K : Set Bytes} (h : Lists up K M) {p : Bytes} {es : Finset Bytes}
    (hp : M p = some es) : [] ∉ es := by
  intro hmem
  rw [← entries_some hp, h.mem_iff] at hmem
  obtain ⟨k, -, hstep⟩ := hmem
  exact (hasStep_of_mem_up hstep).2.1.ne_nil rfl

theorem eq_none_of_lists {K : Set Bytes} (h : Lists up K M) {key : Bytes} (hbase : baseOf key ≠ []) :
    M key = none := by
  rw [← Option.not_isSome_iff_eq_none]
  intro hsome
  obtain ⟨k, -, ⟨e, he⟩, -⟩ := h.closed tree hsome
  exact hbase (hasStep_of_mem_up he).1.scan.2

theorem walk_pairs_delete (hroot : Homed conf root₀) {K : Set Bytes} (h : Lists up K M)
    (key : Bytes) (hserved : ServedBy conf root₀ inst .delete (ofMap conf M) (pairs key))
    (hm : ∀ m ∈ K \ {key}, (∃ e, (m, e) ∈ up key) → ∃ k ∈ K \ {key}, ∃ e, (m, e) ∈ up k) :
    ∃ M', (walk conf root₀ inst .delete (pairs key) (ofMap conf M) .passThrough).listing =
        ofMap conf M' ∧
      (walk conf root₀ inst .delete (pairs key) (ofMap conf M) .passThrough).Finished ∧
      Lists up (K \ {key}) M' := by
  rw [pairs_eq] at hserved ⊢
  by_cases hbase : baseOf key = []
  · rw [if_pos hbase] at hserved ⊢
    obtain ⟨hinst, hnext⟩ := hserved
    rw [handle_delete_ofMap hroot] at hnext
    rw [walk, if_pos hinst, handle_delete_ofMap hroot]
    cases hM : M key with
    | none =>
      simp only [hM] at hnext
      obtain ⟨hL, hfin⟩ := walk_delete_ofMap hroot key (fun _ _ => rfl) .delContinue (hnext rfl)
      exact ⟨_, hL, hfin, h.remove tree hM hm⟩
    | some es =>
      -- a key is stored below: the empty entry is not there, and the request stops
      have herase : es.erase [] = es := Finset.erase_eq_of_notMem (nil_notMem_of_lists h hM)
      have hne : es ≠ ∅ := fun heq => h.ne_empty key (by rw [hM, heq])
      have hsame : Function.update M key (some es) = M := by
        rw [← hM]
        exact Function.update_eq_self key M
      simp only [herase, hne, if_false, hsame]
      exact ⟨M, rfl, Or.inr rfl, h.erase_node tree (by rw [hM]; rfl)⟩
  · rw [if_neg hbase] at hserved ⊢
    obtain ⟨hL, hfin⟩ := walk_delete_ofMap hroot key (fun _ _ => rfl) .passThrough hserved
    exact ⟨_, hL, hfin, h.remove tree (eq_none_of_lists h hbase) hm⟩

end Walks

/-! ### Before the root prefix has moved -/

/-- The listing of keys without a delimiter, under the initial root prefix. -/
def flat (conf : Conf) (K : Finset Bytes) : ListContext where
  zones z p := if z = zoneOf conf rootPrefixInit ∧ p = rootPrefixInit ∧ K ≠ ∅ then some K else none
  rootPrefix := rootPrefixInit

theorem scan_of_notMem {key : Bytes} (h : delim ∉ key) : dirOf key = [] ∧ baseOf key = key := by
  have hdir : dirOf key = [] := by
    rcases isDir_dirOf key with hnil | ⟨q, hq⟩
    · exact hnil
    · have hsplit := dirOf_append_baseOf key
      rw [hq] at hsplit
      rw [← hsplit] at h
      simp at h
  have hsplit := dirOf_append_baseOf key
  rw [hdir, List.nil_append] at hsplit
  exact ⟨hdir, hsplit⟩

theorem pairs_of_notMem {key : Bytes} (h : delim ∉ key) : pairs key = [([], key)] := by
  obtain ⟨hdir, hbase⟩ := scan_of_notMem h
  rw [pairs, hdir, hbase, up_nil]

theorem walk_of_notMem (conf : Conf) (root₀ : Bytes) (L : ListContext) (op : Op) {key : Bytes}
    (h : delim ∉ key) :
    (walk conf root₀ (firstInst conf root₀ key) op (pairs key) L .passThrough).listing =
        (handle conf root₀ op L [] key).1 ∧
      (walk conf root₀ (firstInst conf root₀ key) op (pairs key) L .passThrough).Finished := by
  obtain ⟨hdir, -⟩ := scan_of_notMem h
  rw [pairs_of_notMem h, walk, firstInst, hdir, if_pos rfl]
  simp only
  split
  · exact ⟨rfl, Or.inl rfl⟩
  · exact ⟨rfl, Or.inl rfl⟩

theorem handle_store_flat (conf : Conf) (K : Finset Bytes) {key : Bytes} (hkey : key ≠ []) :
    (handle conf rootPrefixInit .store (flat conf K) [] key).1 = flat conf (insert key K) := by
  have hK : (if K = ∅ then none else some K : Option (Finset Bytes)).getD ∅ = K := by
    split
    · next h => exact h.symm
    · rfl
  ext1
  · funext z p
    by_cases hz : z = zoneOf conf rootPrefixInit
    · subst hz
      by_cases hp : p = rootPrefixInit
      · subst hp
        simp [handle, ioHandler, listHandleStoreOp, prefixIn, hkey, flat, put, PrefixTree.entries, hK]
      · simp [handle, ioHandler, listHandleStoreOp, prefixIn, hkey, flat, put, hp]
    · simp [handle, flat, hz, prefixIn]
  · rfl

theorem handle_delete_flat (conf : Conf) (K : Finset Bytes) (key : Bytes) :
    (handle conf rootPrefixInit .delete (flat conf K) [] key).1 = flat conf (K.erase key) := by
  by_cases hK : K = ∅
  · ext1
    · funext z p
      subst hK
      by_cases hz : z = zoneOf conf rootPrefixInit
      · subst hz
        simp [handle, ioHandler, listHandleDeleteOp, prefixIn, flat]
      · simp [handle, flat, hz, prefixIn]
    · rfl
  · ext1
    · funext z p
      by_cases hz : z = zoneOf conf rootPrefixInit
      · subst hz
        by_cases hs : K.erase key = ∅
        · by_cases hp : p = rootPrefixInit
          · subst hp
            simp [handle, ioHandler, listHandleDeleteOp, prefixIn, flat, hK, hs]
          · simp [handle, ioHandler, listHandleDeleteOp, prefixIn, flat, hK, hs, hp]
        · by_cases hp : p = rootPrefixInit
          · subst hp
            simp [handle, ioHandler, listHandleDeleteOp, prefixIn, flat, hK, hs]
          · simp [handle, ioHandler, listHandleDeleteOp, prefixIn, flat, hK, hs, hp]
      · simp [handle, flat, hz, prefixIn]
    · rfl

theorem walk_delete_empty (conf : Conf) (root₀ : Bytes) (inst : ℕ) (c : List (Bytes × Bytes))
    (rc : Rc) {L : ListContext} (hL : ∀ z p, L.zones z p = none)
    (hserved : ServedBy conf root₀ inst .delete L c) :
    (walk conf root₀ inst .delete c L rc).listing = L ∧
      (walk conf root₀ inst .delete c L rc).Finished := by
  have hhandle : ∀ p e, handle conf root₀ .delete L p e = (L, .delContinue) := by
    intro p e
    simp [handle, ioHandler, listHandleDeleteOp, hL]
  induction c generalizing rc with
  | nil => exact ⟨rfl, Or.inl rfl⟩
  | cons y c ih =>
    obtain ⟨p, e⟩ := y
    obtain ⟨hinst, hnext⟩ := hserved
    rw [hhandle] at hnext
    rw [walk, if_pos hinst, hhandle]
    exact ih .delContinue (hnext rfl)

/-! ### The invariant -/

/-- The listing of the stored keys, before and after the move of the root prefix. -/
structure Follows (conf : Conf) (s : State) : Prop where
  ne_nil : ∀ k ∈ s.stored, k ≠ []
  listing : (s.listing = flat conf s.stored ∧ ∀ k ∈ s.stored, delim ∉ k) ∨
    ∃ M, s.listing = ofMap conf M ∧ Lists up (s.stored : Set Bytes) M

theorem follows_init (conf : Conf) : Follows conf State.init where
  ne_nil k hk := by cases hk
  listing := by
    refine Or.inl ⟨?_, fun k hk => by cases hk⟩
    ext1
    · funext z p
      simp [State.init, ListContext.init, flat]
    · rfl

theorem Follows.listsKeys {conf : Conf} {s : State} (h : Follows conf s) : ListsKeys conf s := by
  rcases h.listing with ⟨hL, hflat⟩ | ⟨M, hL, hM⟩
  · -- the only prefix is the root prefix
    constructor
    · intro z p
      rw [hL]
      simp only [flat]
      split
      · next hK => simpa using hK.2.2
      · exact (Option.some_ne_none ∅).symm
    · intro z p e
      have hstep : ∀ k ∈ s.stored, ∀ q, HasStep k q e ↔ q = [] ∧ e = k := by
        intro k hk q
        obtain ⟨hdir, hbase⟩ := scan_of_notMem (hflat k hk)
        have hup : up k = [([], k)] := by
          rw [up, hdir, hbase, if_neg (h.ne_nil k hk), ← up_dirOf, hdir, up_nil]
        rw [← mem_up_iff, hup]
        simp
      rw [hL]
      constructor
      · rintro ⟨es, hes, he⟩
        simp only [flat] at hes
        split at hes
        · next hK =>
          cases hes
          refine ⟨by rw [hK.1, hK.2.1], e, he, [], (hstep e he []).2 ⟨rfl, rfl⟩, ?_⟩
          rw [hK.2.1]
          rfl
        · cases hes
      · rintro ⟨hz, k, hk, q, hq, hp⟩
        obtain ⟨hq, he⟩ := (hstep k hk q).1 hq
        have hp' : p = rootPrefixInit := by
          rw [hp, hq]
          rfl
        refine ⟨s.stored, ?_, he ▸ hk⟩
        simp only [flat]
        rw [if_pos ⟨by rw [hz, hp'], hp', Finset.ne_empty_of_mem hk⟩]
  · constructor
    · intro z p
      rw [hL]
      simp only [ofMap]
      split
      · exact hM.ne_empty p
      · exact (Option.some_ne_none ∅).symm
    · intro z p e
      have hspec : (∃ k ∈ s.stored, ∃ q, HasStep k q e ∧ p = prefixIn s.listing.rootPrefix q) ↔
          e ∈ PrefixTree.entries M p := by
        rw [hM.mem_iff, hL]
        simp only [ofMap, prefixIn_nil, ← mem_up_iff]
        constructor
        · rintro ⟨k, hk, q, hq, hp⟩
          exact ⟨k, hk, hp ▸ hq⟩
        · rintro ⟨k, hk, hq⟩
          exact ⟨k, hk, p, hq, rfl⟩
      rw [hspec, hL]
      constructor
      · rintro ⟨es, hes, he⟩
        simp only [ofMap] at hes
        split at hes
        · next hz => exact ⟨hz, by rwa [entries_some hes]⟩
        · cases hes
      · rintro ⟨hz, he⟩
        simp only [ofMap, hz, if_true]
        cases hMp : M p with
        | none =>
          rw [entries_none hMp] at he
          cases he
        | some es => exact ⟨es, rfl, by rwa [entries_some hMp] at he⟩

theorem mem_storedAfter_ne_nil {K : Finset Bytes} {u : Update} (h : ∀ k ∈ K, k ≠ [])
    (hkey : u.key ≠ []) : ∀ k ∈ storedAfter K u, k ≠ [] := by
  intro k hk
  rw [storedAfter] at hk
  split at hk
  · rcases Finset.mem_insert.1 hk with rfl | hk
    · exact hkey
    · exact h k hk
  · exact h k (Finset.mem_of_mem_erase hk)

/-- The keys above a deleted key, from the condition on the update. -/
theorem MarkersKept.marked {K : Finset Bytes} {u : Update} (h : MarkersKept K u)
    (hop : u.op = .delete) (hne : ∀ k ∈ K, k ≠ []) :
    ∀ m ∈ (K : Set Bytes) \ {u.key}, (∃ e, (m, e) ∈ up u.key) →
      ∃ k ∈ (K : Set Bytes) \ {u.key}, ∃ e, (m, e) ∈ up k := by
  intro m ⟨hm, hmk⟩ ⟨e, he⟩
  obtain ⟨hdir, -, hpre, -⟩ := hasStep_of_mem_up he
  have hlast : m.getLast? = some delim := by
    rcases hdir with hnil | ⟨q, hq⟩
    · exact absurd hnil (hne m hm)
    · rw [hq]
      simp
  obtain ⟨k, hk, hku, hkm, hprek⟩ :=
    h hop m hm hmk hlast ((List.prefix_append m e).trans hpre)
  exact ⟨k, ⟨hk, hku⟩, exists_mem_up hdir hprek hkm⟩

theorem follows_walk_ofMap {conf : Conf} {K : Finset Bytes} {u : Update} {root₀ : Bytes} {inst : ℕ}
    (hne : ∀ k ∈ K, k ≠ []) (hkey : u.key ≠ []) (hroot : Homed conf root₀) {M : ZoneMap}
    (hM : Lists up (K : Set Bytes) M)
    (hserved : ServedBy conf root₀ inst u.op (ofMap conf M) (pairs u.key))
    (hmarker : MarkersKept K u) :
    let w := walk conf root₀ inst u.op (pairs u.key) (ofMap conf M) .passThrough
    w.Finished ∧ Follows conf ⟨w.listing, storedAfter K u⟩ := by
  have hne' := mem_storedAfter_ne_nil hne hkey
  cases hop : u.op with
  | store =>
    rw [hop] at hserved
    obtain ⟨M', hlisting, hfin, hM'⟩ := walk_pairs_store hroot hM u.key hserved
    refine ⟨hfin, hne', Or.inr ⟨M', hlisting, ?_⟩⟩
    simp only [storedAfter, hop]
    rwa [Finset.coe_insert]
  | delete =>
    rw [hop] at hserved
    obtain ⟨M', hlisting, hfin, hM'⟩ :=
      walk_pairs_delete hroot hM u.key hserved (hmarker.marked hop hne)
    refine ⟨hfin, hne', Or.inr ⟨M', hlisting, ?_⟩⟩
    simp only [storedAfter, hop]
    rwa [Finset.coe_erase]

theorem follows_walk_flat {conf : Conf} {K : Finset Bytes} {u : Update} (hne : ∀ k ∈ K, k ≠ [])
    (hflat : ∀ k ∈ K, delim ∉ k) (hkey : u.key ≠ []) (hdelim : delim ∉ u.key) :
    let w := walk conf rootPrefixInit (firstInst conf rootPrefixInit u.key) u.op (pairs u.key)
      (flat conf K) .passThrough
    w.Finished ∧ Follows conf ⟨w.listing, storedAfter K u⟩ := by
  obtain ⟨hlisting, hfin⟩ := walk_of_notMem conf rootPrefixInit (flat conf K) u.op hdelim
  refine ⟨hfin, mem_storedAfter_ne_nil hne hkey, Or.inl ⟨?_, ?_⟩⟩
  · rw [hlisting]
    cases hop : u.op with
    | store =>
      simp only [storedAfter, hop]
      exact handle_store_flat conf K hkey
    | delete =>
      simp only [storedAfter, hop]
      exact handle_delete_flat conf K u.key
  · intro k hk
    simp only [storedAfter] at hk
    split at hk
    · rcases Finset.mem_insert.1 hk with rfl | hk
      · exact hdelim
      · exact hflat k hk
    · exact hflat k (Finset.mem_of_mem_erase hk)

theorem flat_moved (conf : Conf) :
    ({ flat conf ∅ with rootPrefix := [] } : ListContext) = ofMap conf (fun _ => none) := by
  ext1
  · funext z p
    simp [flat, ofMap]
  · rfl

theorem lists_empty : Lists up ((∅ : Finset Bytes) : Set Bytes) (fun _ => none) := by
  refine ⟨fun p => (Option.some_ne_none ∅).symm, fun p e => ?_⟩
  simp [PrefixTree.entries]

theorem Follows.requestWalk {conf : Conf} {s : State} {u : Update} (h : Follows conf s)
    (hu : Regular conf s u) :
    (requestWalk conf s.listing u.op u.key).Finished ∧
      Follows conf ⟨(requestWalk conf s.listing u.op u.key).listing, storedAfter s.stored u⟩ := by
  have hserved := hu.served
  unfold Listing.requestWalk
  rcases h.listing with ⟨hL, hflat⟩ | ⟨M, hL, hM⟩
  · have hroot : s.listing.rootPrefix = rootPrefixInit := by
      rw [hL]
      rfl
    by_cases hkey : delim ∈ u.key
    · -- the root prefix moves, and nothing is listed
      obtain ⟨hempty, hzone⟩ := hu.root hkey (by rw [hroot]; decide)
      have hL₀ : ({ s.listing with
          rootPrefix := rootAfter s.listing.rootPrefix u.key } : ListContext) =
          ofMap conf (fun _ => none) := by
        rw [hL, hempty, rootAfter, if_pos hkey]
        exact flat_moved conf
      rw [hL₀] at hserved ⊢
      rw [hempty]
      cases hop : u.op with
      | store =>
        rw [← hop]
        exact follows_walk_ofMap (fun k hk => by cases hk) hu.key_ne (hzone hop) lists_empty hserved
          (by rw [← hempty]; exact hu.marker)
      | delete =>
        rw [hop] at hserved
        obtain ⟨hlisting, hfin⟩ := walk_delete_empty conf s.listing.rootPrefix _ (pairs u.key)
          .passThrough (fun z p => by simp [ofMap]) hserved
        have hsame : storedAfter ∅ u = ∅ := by simp [storedAfter, hop]
        rw [hsame]
        exact ⟨hfin, fun k hk => (by cases hk), Or.inr ⟨_, hlisting, lists_empty⟩⟩
    · rw [rootAfter, if_neg hkey, hroot, hL]
      exact follows_walk_flat h.ne_nil hflat hu.key_ne hkey
  · have hroot : s.listing.rootPrefix = [] := by
      rw [hL]
      rfl
    have hL₀ : ({ s.listing with
        rootPrefix := rootAfter s.listing.rootPrefix u.key } : ListContext) = ofMap conf M := by
      rw [hroot, rootAfter, ite_self, ← hL, ← hroot]
    rw [hL₀] at hserved ⊢
    exact follows_walk_ofMap h.ne_nil hu.key_ne (by rw [hroot, Homed]) hM hserved hu.marker

theorem Follows.step {conf : Conf} {s : State} {u : Update} (h : Follows conf s)
    (hu : Regular conf s u) : ∃ s', step conf s u = some s' ∧ Follows conf s' := by
  obtain ⟨hfin, hfollows⟩ := h.requestWalk hu
  refine ⟨_, ?_, hfollows⟩
  rw [Listing.step, listUpdate_eq hu.key_ne hu.fits hfin]
  rfl

/-- **The listing is the one of the key set.** In every run of STORE and DELETE updates that meet
none of the defects, no assertion fails, every update is handled to its end, and the listing holds
exactly the components of the stored keys, with no empty set. -/
theorem listsKeys_of_run (conf : Conf) (us : List Update)
    (h : Run.Admissible (step conf) (Regular conf) State.init us) :
    ∃ s, Run.run (step conf) State.init us = some s ∧ ListsKeys conf s := by
  have hstep : ∀ s u, Follows conf s → Regular conf s u → ∃ s', step conf s u = some s' ∧
      Follows conf s' := fun s u hinv hok => hinv.step hok
  obtain ⟨s, hrun, hs⟩ := Run.run_total hstep (follows_init conf) h
  exact ⟨s, hrun, hs.listsKeys⟩

/-- One zone and one list core, the defaults. -/
def defaultConf : Conf := ⟨1, 1, [109, 101, 116, 97], true, by decide, by decide, by decide⟩

/-- The keys `a/b`, `a/c` and the directory key `a/`, of which the first is deleted again. -/
theorem listsKeys_directory :
    ∃ s, Run.run (step defaultConf) State.init
      [⟨.store, [97, 47, 98]⟩, ⟨.store, [97, 47, 99]⟩, ⟨.store, [97, 47]⟩,
        ⟨.delete, [97, 47, 98]⟩] = some s ∧ ListsKeys defaultConf s :=
  listsKeys_of_run defaultConf _ (by decide +kernel)

/-- The directory key `d/` is stored, and the key `d/e` is stored and deleted: the entry of `d/`
is gone. -/
theorem not_listsKeys_marker :
    ¬ ∃ s, Run.run (step defaultConf) State.init
      [⟨.store, [100, 47]⟩, ⟨.store, [100, 47, 101]⟩, ⟨.delete, [100, 47, 101]⟩] = some s ∧
        ListsKeys defaultConf s := by
  intro ⟨s, hrun, hs⟩
  have hstate : (Run.run (step defaultConf) State.init
      [⟨.store, [100, 47]⟩, ⟨.store, [100, 47, 101]⟩, ⟨.delete, [100, 47, 101]⟩]).map
        (fun s => (s.listing.zones 0 [], s.listing.rootPrefix, s.stored)) =
      some (none, [], {[100, 47]}) := by
    decide +kernel
  rw [hrun] at hstate
  simp only [Option.map_some, Option.some.injEq, Prod.mk.injEq] at hstate
  obtain ⟨hzone, hroot, hstored⟩ := hstate
  have hstep : HasStep [100, 47] [] [100, 47] := by
    rw [← mem_up_iff]
    decide
  obtain ⟨es, hes, -⟩ := (hs.mem_iff 0 [] [100, 47]).2
    ⟨by decide, [100, 47], by rw [hstored]; decide, [], hstep, by rw [hroot]; rfl⟩
  rw [hzone] at hes
  cases hes

end DssSdk.Listing
