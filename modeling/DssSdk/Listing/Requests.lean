import DssSdk.Listing.Paths

/-!
# Prefix listing: requests as lists of pairs

The list data of a request stands for the pairs it has left, deepest first. A pass of an instance
is a walk over that list (`walk`), and what it leaves is a tail of it.

* `Pending`: the list data in which the pairs of a tail are left;
* `arrive_eq`: the list data of a new request has all its pairs;
* `doListIo_spec`: the loop of `do_list_io` is the walk.
-/

namespace DssSdk.Listing

/-- The prefix under which the pair of a directory is listed. -/
def prefixIn (root p : Bytes) : Bytes := if p = [] then root else p

/-- The handler of a pair, in the zone of its prefix at the time of the arrival. -/
def handle (conf : Conf) (root₀ : Bytes) (op : Op) (L : ListContext) (p e : Bytes) : ListContext × Rc :=
  let zone := zoneOf conf (prefixIn root₀ p)
  let res := ioHandler op (L.zones zone) (prefixIn L.rootPrefix p) e
  ({ L with zones := Function.update L.zones zone res.1 }, res.2)

/-- What a walk leaves: the listing, the pairs that are left and the last return code. -/
structure Walk where
  listing : ListContext
  left : List (Bytes × Bytes)
  rc : Rc

/-- The pass of an instance over the pairs of a request: it stops at a pair of another instance
and after a pair whose handler is done. -/
def walk (conf : Conf) (root₀ : Bytes) (inst : ℕ) (op : Op) :
    List (Bytes × Bytes) → ListContext → Rc → Walk
  | [], L, rc => ⟨L, [], rc⟩
  | (p, e) :: c, L, rc =>
    if instOf conf (zoneOf conf (prefixIn root₀ p)) = inst then
      let res := handle conf root₀ op L p e
      if res.2.isDone then ⟨res.1, c, res.2⟩ else walk conf root₀ inst op c res.1 res.2
    else ⟨L, (p, e) :: c, rc⟩

/-- The list data of a request for `key` with the shallowest `n` pairs left, and the others
marked. -/
structure Pending (conf : Conf) (root₀ key : Bytes) (n : ℕ) (d : ListInfo) : Prop where
  le : n ≤ (pairs key).length
  total : d.peTotalCnt = (pairs key).length
  tbd : d.peCntTbd = n
  marked : ∀ i, n ≤ i → i < (pairs key).length → d.zone i = -1
  zone : ∀ l p e c, pairs key = l ++ (p, e) :: c → c.length < n →
    d.zone c.length = zoneOf conf (prefixIn root₀ p)
  pos : ∀ i, d.pos i = ((positions key)[i]?).elim (-1) fun pos => (pos : ℤ)

variable {conf : Conf} {root₀ key : Bytes} {n : ℕ} {d : ListInfo}
variable {l c : List (Bytes × Bytes)} {p e : Bytes}

theorem lastPending_eq (zone : ℕ → ℤ) (n m : ℕ) (hn : ∀ i, n ≤ i → i < m → zone i = -1)
    (hlast : ∀ i, i + 1 = n → 0 ≤ zone i) (hle : n ≤ m) : lastPending zone m = n := by
  induction m with
  | zero =>
    rw [lastPending]
    omega
  | succ m ih =>
    rw [lastPending]
    rcases Nat.eq_or_lt_of_le hle with heq | hlt
    · have hpos := hlast m heq.symm
      rw [if_neg (by omega), heq]
    · have hmark := hn m (by omega) (by omega)
      rw [if_pos (by omega)]
      exact ih (fun i h₁ h₂ => hn i h₁ (by omega)) (by omega)

/-- The list data of a pair: its prefix and its entry. -/
theorem Pending.pair (h : Pending conf root₀ key n d) (hc : pairs key = l ++ (p, e) :: c)
    (root : Bytes) :
    d.prefixAt root key c.length = prefixIn root p ∧ d.entryAt key c.length = e := by
  obtain ⟨⟨r, hr⟩, hpos, hnext, hend⟩ := pairs_split hc
  have hd : d.pos c.length = p.length := by
    rw [h.pos, hpos]
    rfl
  constructor
  · rw [ListInfo.prefixAt, prefixIn, hd, ← hr]
    by_cases hp : p = []
    · simp [hp]
    · have hlen : p.length ≠ 0 := by simpa using hp
      rw [if_neg (by omega), if_neg hp]
      simp
  · have hd' : d.pos (c.length + 1) = if l = [] then -1 else ((p ++ e).length : ℤ) := by
      rw [h.pos, hnext]
      split <;> rfl
    have hdrop : key.drop p.length = e ++ r := by
      rw [← hr]
      simp
    rw [ListInfo.entryAt, hd, hd', Int.toNat_natCast, hdrop]
    by_cases hl : l = []
    · have hkey := hend hl
      have hr' : r = [] := by
        rw [hkey] at hr
        simpa using hr
      rw [if_pos hl, if_pos (Or.inl (by omega)), hr', hkey]
      simp
    · have hlen : (p ++ e).length ≤ key.length := by
        rw [← hr]
        simp
      rw [if_neg hl, if_neg (by omega)]
      have hsub : (((p ++ e).length : ℤ) - p.length).toNat = e.length := by
        rw [List.length_append]
        omega
      simp only [hsub]
      simp

/-- The pair that is found: the deepest one left, if its zone belongs to the instance. -/
theorem Pending.find (h : Pending conf root₀ key (c.length + 1) d)
    (hc : pairs key = l ++ (p, e) :: c) (inst : ℕ) :
    listFindKeyPrefix conf inst d =
      if instOf conf (zoneOf conf (prefixIn root₀ p)) = inst then
        some (c.length, { d with
          zone := Function.update d.zone c.length (-1), peCntTbd := d.peCntTbd - 1 })
      else none := by
  have hz := h.zone l p e c hc (by omega)
  have hlast : lastPending d.zone d.peTotalCnt = c.length + 1 := by
    rw [h.total]
    refine lastPending_eq d.zone _ _ h.marked ?_ h.le
    intro i hi
    have : i = c.length := by omega
    rw [this, hz]
    omega
  rw [listFindKeyPrefix, if_neg (by rw [h.tbd]; omega), hlast]
  simp only [hz, Int.toNat_natCast]

/-- Marking the deepest pair. -/
theorem Pending.mark (h : Pending conf root₀ key (n + 1) d) :
    Pending conf root₀ key n
      { d with zone := Function.update d.zone n (-1), peCntTbd := d.peCntTbd - 1 } where
  le := by
    have := h.le
    omega
  total := h.total
  tbd := by
    have := h.tbd
    simp only
    omega
  marked i hi hlt := by
    by_cases heq : i = n
    · rw [heq]
      simp
    · simp only [Function.update_of_ne heq]
      exact h.marked i (by omega) hlt
  zone l p e c hc hlt := by
    have hne : c.length ≠ n := by omega
    simp only [Function.update_of_ne hne]
    exact h.zone l p e c hc (by omega)
  pos := h.pos

/-- The indices of the pairs from `n - 1` down to `m`. -/
def indicesDown (m : ℕ) : ℕ → List ℕ
  | 0 => []
  | n + 1 => if m ≤ n then n :: indicesDown m n else []

theorem walk_left_suffix (conf : Conf) (root₀ : Bytes) (inst : ℕ) (op : Op) (c : List (Bytes × Bytes))
    (L : ListContext) (rc : Rc) : (walk conf root₀ inst op c L rc).left <:+ c := by
  induction c generalizing L rc with
  | nil => exact List.suffix_rfl
  | cons y c ih =>
    obtain ⟨p, e⟩ := y
    rw [walk]
    split
    · simp only
      split
      · exact List.suffix_cons _ _
      · exact (ih _ _).trans (List.suffix_cons _ _)
    · exact List.suffix_rfl

theorem handlePair_eq (h : Pending conf root₀ key n d) (hc : pairs key = l ++ (p, e) :: c)
    (hn : c.length < n) (op : Op) (L : ListContext) :
    handlePair op key L d c.length = handle conf root₀ op L p e := by
  obtain ⟨hpre, hent⟩ := h.pair hc L.rootPrefix
  simp only [handlePair, handle, hpre, hent, h.zone l p e c hc hn, Int.toNat_natCast]

/-- The loop of `do_list_io` walks over the pairs left. -/
theorem doListIo_spec (inst : ℕ) (op : Op) (hc : pairs key = l ++ c) (L : ListContext) (rc : Rc)
    (h : Pending conf root₀ key c.length d) :
    let pass := doListIo conf inst op key c.length L d rc
    let res := walk conf root₀ inst op c L rc
    pass.listing = res.listing ∧ pass.rc = res.rc ∧
      Pending conf root₀ key res.left.length pass.data ∧
      pass.handled = indicesDown res.left.length c.length := by
  induction c generalizing l L rc d with
  | nil => exact ⟨rfl, rfl, h, rfl⟩
  | cons y c ih =>
    obtain ⟨p, e⟩ := y
    rw [List.length_cons] at h ⊢
    simp only [doListIo, walk]
    rw [h.find hc inst]
    by_cases hinst : instOf conf (zoneOf conf (prefixIn root₀ p)) = inst
    · rw [if_pos hinst, if_pos hinst]
      simp only [handlePair_eq h hc (by omega)]
      by_cases hdone : (handle conf root₀ op L p e).2.isDone
      · rw [if_pos hdone, if_pos hdone]
        refine ⟨rfl, rfl, h.mark, ?_⟩
        cases hlen : c.length with
        | zero => rfl
        | succ m => simp [indicesDown]
      · rw [if_neg hdone, if_neg hdone]
        have hc' : pairs key = (l ++ [(p, e)]) ++ c := by
          rw [hc]
          simp
        obtain ⟨hL, hrc, hpend, hhand⟩ := ih hc' _ _ h.mark
        refine ⟨hL, hrc, hpend, ?_⟩
        have hle := (walk_left_suffix conf root₀ inst op c
          (handle conf root₀ op L p e).1 (handle conf root₀ op L p e).2).length_le
        simp only [hhand]
        rw [indicesDown, if_pos hle]
    · rw [if_neg hinst, if_neg hinst]
      refine ⟨rfl, rfl, h, ?_⟩
      simp [indicesDown]

/-! ### The arrival of a request -/

theorem pairs_above (hc : pairs key = l ++ (p, e) :: c) : c = up p := by
  rcases l with _ | ⟨y, l⟩
  · have hcons := List.cons.inj hc
    rw [← (Prod.mk.inj hcons.1).1, ← hcons.2]
  · exact tree.above_of_suffix ⟨l, ((List.cons.inj hc).2).symm⟩

theorem delimiterEnds_eq_nil (cur : ℕ) (key : Bytes) :
    delimiterEnds cur key = [] ↔ delim ∉ key := by
  induction key generalizing cur with
  | nil => simp [delimiterEnds]
  | cons b key ih =>
    rw [delimiterEnds, List.mem_cons, not_or]
    split
    · next hb => simp [hb]
    · next hb => simp [ih, Ne.symm hb]

/-- The value a request leaves in `NKV_ROOT_PREFIX`. -/
def rootAfter (root key : Bytes) : Bytes := if delim ∈ key then [] else root

theorem parseDelimiterEntriesPos_eq (root : Bytes) (hkey : key ≠ []) :
    parseDelimiterEntriesPos root key =
      some (root :: (delimiterEnds 0 key).map (key.take ·), rootAfter root key) := by
  have hnil := delimiterEnds_eq_nil 0 key
  rw [parseDelimiterEntriesPos, rootAfter]
  split
  · next hends =>
    rw [if_neg hkey, if_neg (hnil.1 hends)]
    simp [hends]
  · next hends =>
    rw [if_pos (not_not.1 fun hmem => hends (hnil.2 hmem))]

theorem prefixes_getElem (root : Bytes) (hc : pairs key = l ++ (p, e) :: c) :
    (root :: (delimiterEnds 0 key).map (key.take ·))[c.length]? = some (prefixIn root p) := by
  have habove := pairs_above hc
  obtain ⟨⟨r, hr⟩, hpos, -, -⟩ := pairs_split hc
  rw [prefixIn]
  rcases c with _ | ⟨y, c⟩
  · have hp : p = [] := tree.inj p [] habove.symm
    rw [if_pos hp]
    rfl
  · have hp : p ≠ [] := by
      intro hnil
      rw [hnil] at habove
      cases habove
    have hends : (delimiterEnds 0 key)[c.length]? = some p.length := by
      rwa [positions, List.length_cons, List.getElem?_cons_succ] at hpos
    rw [if_neg hp, List.length_cons, List.getElem?_cons_succ, List.getElem?_map, hends, ← hr]
    simp

theorem positions_length (key : Bytes) : (positions key).length = (pairs key).length := by
  rw [positions_eq]
  simp

theorem pending_new (conf : Conf) (root key : Bytes) :
    Pending conf root key (pairs key).length
      (ListInfo.new conf (root :: (delimiterEnds 0 key).map (key.take ·)) key) := by
  have hlen : (root :: (delimiterEnds 0 key).map (key.take ·)).length = (pairs key).length := by
    rw [← positions_length, positions]
    simp
  refine ⟨le_refl _, hlen, hlen, fun i h₁ h₂ => absurd h₂ (by omega), ?_, fun i => rfl⟩
  intro l p e c hc _
  simp only [ListInfo.new]
  rw [prefixes_getElem root hc]
  rfl

/-- A request whose key is not empty and has at most 510 delimiters arrives at the instance of its
deepest pair. -/
theorem arrive_eq (conf : Conf) (root : Bytes) (hkey : key ≠ []) (hlen : (pairs key).length < 512) :
    ∃ d, arrive conf root key =
        some ⟨d, instOf conf (zoneOf conf (prefixIn root (dirOf key))), rootAfter root key⟩ ∧
      Pending conf root key (pairs key).length d := by
  have hnew := pending_new conf root key
  have htotal := hnew.total
  refine ⟨_, ?_, hnew⟩
  rw [arrive, parseDelimiterEntriesPos_eq root hkey]
  have hlast : (ListInfo.new conf (root :: (delimiterEnds 0 key).map (key.take ·)) key).zone
      ((pairs key).length - 1) = zoneOf conf (prefixIn root (dirOf key)) :=
    hnew.zone [] (dirOf key) (baseOf key) (up (dirOf key)) rfl (by simp [pairs])
  simp only [ListInfo.new] at htotal hlast ⊢
  rw [htotal, if_pos hlen, hlast, Int.toNat_natCast]

theorem arrive_eq_none (conf : Conf) (root : Bytes)
    (h : key = [] ∨ 512 ≤ (pairs key).length) : arrive conf root key = none := by
  by_cases hkey : key = []
  · rw [hkey]
    rfl
  · have hlen : 512 ≤ (pairs key).length := h.resolve_left hkey
    have htotal := (pending_new conf root key).total
    rw [arrive, parseDelimiterEntriesPos_eq root hkey]
    simp only [ListInfo.new] at htotal ⊢
    rw [htotal, if_neg (by omega)]

end DssSdk.Listing
