import DssSdk.Wal.Map

/-!
# The map of a cache buffer as a finite map

* `Bucket.Ok`: the counters of a bucket agree with its chain, and a key has at most one item that
  is not invalid;
* `pass_spec`, `search_spec`: with these counters a search ends, and finds the item of its key if
  there is one;
* `Changes`: what a lookup does to the items of its key and of the others;
* `lookup_spec`, `mapStep_ok`: one call; `refines_of_run`: every run.
-/

namespace DssSdk.Wal

open CellMemory TailQueue

/-- The item is not invalid. -/
def MapItem.Live (it : MapItem) : Prop := it.status ≠ .invalid

instance (it : MapItem) : Decidable it.Live := inferInstanceAs (Decidable (it.status ≠ .invalid))

/-- The number of live items. -/
def liveCount (l : List MapItem) : ℕ := l.countP fun it => it.Live

/-- The counters of a bucket agree with its chain, a key has at most one live item, and a live
item is in the bucket of its key. -/
structure Bucket.Ok (conf : Conf) (i : ℕ) (b : Bucket) : Prop where
  ne_nil : b.entry ≠ []
  total : b.totalNrEntries = b.entry.length
  valid : b.validNrEntries = liveCount b.entry
  keys : ∀ {j k : ℕ} {it it' : MapItem}, b.entry[j]? = some it → b.entry[k]? = some it' →
    it.Live → it'.Live → it.key = it'.key → j = k
  home : ∀ {j : ℕ} {it : MapItem}, b.entry[j]? = some it → it.Live → conf.bucketIdx it.key = i

/-- Every bucket of the map is in order. -/
def MapOk (conf : Conf) (buf : Buffer) : Prop := ∀ i, (buf.map.table i).Ok conf i

/-! ### The search -/

/-- What a round through the items finds. -/
def PassSpec (key : Bytes) (items : List MapItem) (i : ℕ) (pre invalid : Option ℕ) : Pass → Prop
  | .found j => ∃ n it, j = i + n ∧ items[n]? = some it ∧ it.Live ∧ it.key = key
  | .absent j pre' invalid' =>
      (∀ it ∈ items, it.Live → it.key ≠ key) ∧
        ∃ n, j = i + n ∧ n ≤ items.length ∧ (∀ it ∈ items.drop n, ¬ it.Live) ∧
          ((invalid' = invalid ∧ ∀ it ∈ items.take n, it.Live) ∨
            ∃ t it, invalid' = some (i + t) ∧ items[t]? = some it ∧ ¬ it.Live) ∧
          pre' = if n = 0 then pre else some (i + n - 1)
  | .exhausted => False
  | .null => False

theorem liveCount_cons_live {it : MapItem} {rest : List MapItem} (h : it.Live) :
    liveCount (it :: rest) = liveCount rest + 1 := by
  exact List.countP_cons_of_pos (decide_eq_true h)

theorem liveCount_cons_invalid {it : MapItem} {rest : List MapItem} (h : ¬ it.Live) :
    liveCount (it :: rest) = liveCount rest := by
  exact List.countP_cons_of_neg (by simpa using h)

/-- A round whose count is right ends, and its outcome is right. -/
theorem pass_spec (key : Bytes) (items : List MapItem) (i : ℕ) (pre invalid : Option ℕ) :
    PassSpec key items i pre invalid (pass key items i (liveCount items) pre invalid) := by
  induction items generalizing i pre invalid with
  | nil =>
    refine ⟨fun it h => absurd h List.not_mem_nil, 0, rfl, le_rfl, ?_, Or.inl ⟨rfl, ?_⟩, rfl⟩
    · exact fun it h => absurd h List.not_mem_nil
    · exact fun it h => absurd h List.not_mem_nil
  | cons it rest ih =>
    by_cases hzero : (liveCount (it :: rest) : ℤ) = 0
    · -- the count is zero: everything from here on is invalid
      have hnone : ∀ x ∈ it :: rest, ¬ x.Live := by
        intro x hx hlive
        have hpos : 0 < liveCount (it :: rest) :=
          List.countP_pos_iff.2 ⟨x, hx, decide_eq_true hlive⟩
        omega
      rw [pass, if_pos hzero]
      refine ⟨fun x hx hlive => absurd hlive (hnone x hx), 0, rfl, Nat.zero_le _, hnone,
        Or.inl ⟨rfl, ?_⟩, rfl⟩
      exact fun x hx => absurd hx List.not_mem_nil
    · rw [pass, if_neg hzero]
      by_cases hlive : it.Live
      · rw [if_neg hlive]
        by_cases hkey : it.key = key
        · rw [if_pos hkey]
          exact ⟨0, it, rfl, rfl, hlive, hkey⟩
        · rw [if_neg hkey]
          have hcount : (liveCount (it :: rest) : ℤ) - 1 = liveCount rest := by
            rw [liveCount_cons_live hlive]
            push_cast
            ring
          rw [hcount]
          have hrest := ih (i + 1) (some i) invalid
          revert hrest
          cases pass key rest (i + 1) (liveCount rest) (some i) invalid with
          | found j =>
            rintro ⟨n, x, rfl, hx, hxl, hxk⟩
            exact ⟨n + 1, x, by omega, hx, hxl, hxk⟩
          | absent j pre' invalid' =>
            rintro ⟨hkeys, n, rfl, hn, hdrop, hinv, hpre⟩
            refine ⟨?_, n + 1, by omega, Nat.succ_le_succ hn, hdrop, ?_, ?_⟩
            · intro x hx hxl
              rcases List.mem_cons.1 hx with rfl | hx
              · exact hkey
              · exact hkeys x hx hxl
            · rcases hinv with ⟨hinv, htake⟩ | ⟨t, x, hinv, hx, hxl⟩
              · refine Or.inl ⟨hinv, fun x hx => ?_⟩
                rcases List.mem_cons.1 hx with rfl | hx
                · exact hlive
                · exact htake x hx
              · exact Or.inr ⟨t + 1, x, by rw [hinv]; congr 1; omega, hx, hxl⟩
            · rw [hpre, if_neg (Nat.succ_ne_zero n)]
              split_ifs with h0
              · subst h0
                rfl
              · congr 1
                omega
          | exhausted => exact id
          | null => exact id
      · have hinvalid : it.status = .invalid := not_not.1 hlive
        have hrest0 : rest ≠ [] := by
          rintro rfl
          exact hzero (by rw [liveCount_cons_invalid hlive]; rfl)
        rw [if_pos hinvalid, if_neg hrest0, liveCount_cons_invalid hlive]
        have hrest := ih (i + 1) (some i) (some i)
        revert hrest
        cases pass key rest (i + 1) (liveCount rest) (some i) (some i) with
        | found j =>
          rintro ⟨n, x, rfl, hx, hxl, hxk⟩
          exact ⟨n + 1, x, by omega, hx, hxl, hxk⟩
        | absent j pre' invalid' =>
          rintro ⟨hkeys, n, rfl, hn, hdrop, hinv, hpre⟩
          refine ⟨?_, n + 1, by omega, Nat.succ_le_succ hn, hdrop, Or.inr ?_, ?_⟩
          · intro x hx hxl
            rcases List.mem_cons.1 hx with rfl | hx
            · exact absurd hxl hlive
            · exact hkeys x hx hxl
          · rcases hinv with ⟨hinv, -⟩ | ⟨t, x, hinv, hx, hxl⟩
            · exact ⟨0, it, hinv, rfl, hlive⟩
            · exact ⟨t + 1, x, by rw [hinv]; congr 1; omega, hx, hxl⟩
          · rw [hpre, if_neg (Nat.succ_ne_zero n)]
            split_ifs with h0
            · subst h0
              rfl
            · congr 1
              omega
        | exhausted => exact id
        | null => exact id

/-- The search in a bucket that is in order changes nothing and ends. -/
theorem search_spec {conf : Conf} {i : ℕ} {b : Bucket} (h : b.Ok conf i) (key : Bytes) :
    ∃ r, search key b = some (b, r) ∧ PassSpec key b.entry 0 none none r := by
  have hp := pass_spec key b.entry 0 none none
  rw [← h.valid] at hp
  refine ⟨_, ?_, hp⟩
  revert hp
  rw [search]
  cases pass key b.entry 0 b.validNrEntries none none with
  | found j => exact fun _ => rfl
  | absent j pre invalid => exact fun _ => rfl
  | exhausted => exact False.elim
  | null => exact False.elim

/-! ### Items that are replaced -/

/-- An item of the chain is replaced, and the count of live items set. -/
def Bucket.replace (b : Bucket) (j : ℕ) (it : MapItem) (v : ℤ) : Bucket :=
  { b with entry := b.entry.set j it, validNrEntries := v }

/-- One if the item is live. -/
def MapItem.weight (it : MapItem) : ℕ := if it.Live then 1 else 0

theorem MapItem.weight_live {it : MapItem} (h : it.Live) : it.weight = 1 := if_pos h

theorem MapItem.weight_invalid {it : MapItem} (h : ¬ it.Live) : it.weight = 0 := if_neg h

theorem liveCount_set {l : List MapItem} {j : ℕ} {it it' : MapItem} (hj : l[j]? = some it) :
    (liveCount (l.set j it') : ℤ) = liveCount l - it.weight + it'.weight := by
  obtain ⟨hlt, rfl⟩ := List.getElem?_eq_some_iff.1 hj
  have hle : l[j].weight ≤ liveCount l := by
    rw [MapItem.weight]
    split_ifs with hlive
    · exact List.countP_pos_iff.2 ⟨l[j], List.getElem_mem hlt, decide_eq_true hlive⟩
    · exact Nat.zero_le _
  have hset := List.countP_set (p := fun it : MapItem => decide it.Live) (a := it') (l := l) hlt
  simp only [decide_eq_true_eq] at hset
  rw [liveCount, hset]
  rw [MapItem.weight, liveCount] at hle
  rw [MapItem.weight, MapItem.weight, liveCount, Nat.cast_add, Nat.cast_sub hle]

theorem Bucket.Ok.replace {conf : Conf} {i j : ℕ} {b : Bucket} {it it' : MapItem} {v : ℤ}
    (h : b.Ok conf i) (hj : b.entry[j]? = some it)
    (hv : v = b.validNrEntries - it.weight + it'.weight)
    (hnew : it'.Live → conf.bucketIdx it'.key = i ∧
      ∀ {k : ℕ} {x : MapItem}, b.entry[k]? = some x → x.Live → x.key = it'.key → k = j) :
    (b.replace j it' v).Ok conf i := by
  have hlt : j < b.entry.length := (List.getElem?_eq_some_iff.1 hj).1
  have hget : ∀ k, (b.entry.set j it')[k]? = if k = j then some it' else b.entry[k]? := by
    intro k
    rw [List.getElem?_set]
    split_ifs with h1 h2 h3
    · rfl
    · exact absurd h1.symm h2
    · exact absurd h3.symm h1
    · rfl
  refine ⟨?_, ?_, ?_, ?_, ?_⟩
  · intro h0
    exact h.ne_nil ((List.set_eq_nil_iff ..).1 h0)
  · show b.totalNrEntries = ((b.entry.set j it').length : ℤ)
    rw [List.length_set, h.total]
  · show v = (liveCount (b.entry.set j it') : ℤ)
    rw [liveCount_set hj, hv, h.valid]
  · intro k l x y hx hy hxl hyl hxy
    have hx' : (b.entry.set j it')[k]? = some x := hx
    have hy' : (b.entry.set j it')[l]? = some y := hy
    rw [hget] at hx' hy'
    split_ifs at hx' hy' with hk hl hl
    · rw [hk, hl]
    · cases hx'
      rw [hk, (hnew hxl).2 hy' hyl hxy.symm]
    · cases hy'
      rw [hl, (hnew hyl).2 hx' hxl hxy]
    · exact h.keys hx' hy' hxl hyl hxy
  · intro k x hx hxl
    have hx' : (b.entry.set j it')[k]? = some x := hx
    rw [hget] at hx'
    split_ifs at hx' with hk
    · cases hx'
      exact (hnew hxl).1
    · exact h.home hx' hxl

theorem Bucket.Ok.replace_same {conf : Conf} {i j : ℕ} {b : Bucket} {it it' : MapItem} {v : ℤ}
    (h : b.Ok conf i) (hj : b.entry[j]? = some it) (hlive : it.Live) (hkey : it'.key = it.key)
    (hv : v = b.validNrEntries - 1 + it'.weight) : (b.replace j it' v).Ok conf i := by
  refine h.replace hj ?_ ?_
  · rw [hv, MapItem.weight_live hlive, Nat.cast_one]
  · intro _
    rw [hkey]
    exact ⟨h.home hj hlive, fun hk hx hxk => h.keys hk hj hx hlive hxk⟩

theorem Bucket.Ok.replace_reuse {conf : Conf} {i j : ℕ} {b : Bucket} {it it' : MapItem} {v : ℤ}
    (h : b.Ok conf i) (hj : b.entry[j]? = some it) (hlive : ¬ it.Live)
    (hidx : conf.bucketIdx it'.key = i)
    (hkeys : ∀ x ∈ b.entry, x.Live → x.key ≠ it'.key)
    (hv : v = b.validNrEntries + it'.weight) : (b.replace j it' v).Ok conf i := by
  refine h.replace hj ?_ ?_
  · rw [hv, MapItem.weight_invalid hlive, Nat.cast_zero, sub_zero]
  · intro _
    refine ⟨hidx, fun hk hx hxk => absurd hxk ?_⟩
    exact hkeys _ (List.mem_of_getElem? hk) hx

theorem Bucket.Ok.append {conf : Conf} {i : ℕ} {b : Bucket} {it : MapItem} (h : b.Ok conf i)
    (hlive : it.Live) (hidx : conf.bucketIdx it.key = i)
    (hkeys : ∀ x ∈ b.entry, x.Live → x.key ≠ it.key) :
    (⟨b.entry ++ [it], b.validNrEntries + 1, b.totalNrEntries + 1⟩ : Bucket).Ok conf i := by
  have hget : ∀ {k : ℕ} {x : MapItem}, (b.entry ++ [it])[k]? = some x →
      b.entry[k]? = some x ∨ k = b.entry.length ∧ x = it := by
    intro k x hx
    rcases lt_trichotomy k b.entry.length with hk | hk | hk
    · rw [List.getElem?_append_left hk] at hx
      exact Or.inl hx
    · subst hk
      rw [List.getElem?_append_right le_rfl, Nat.sub_self] at hx
      exact Or.inr ⟨rfl, (Option.some.inj hx).symm⟩
    · rw [List.getElem?_eq_none (by simpa using hk)] at hx
      cases hx
  refine ⟨List.append_ne_nil_of_right_ne_nil _ (List.cons_ne_nil it []), ?_, ?_, ?_, ?_⟩
  · show b.totalNrEntries + 1 = ((b.entry ++ [it]).length : ℤ)
    rw [h.total, List.length_append]
    simp
  · show b.validNrEntries + 1 = (liveCount (b.entry ++ [it]) : ℤ)
    have hone : liveCount [it] = 1 := liveCount_cons_live hlive
    rw [h.valid, liveCount, liveCount, List.countP_append, Nat.cast_add]
    congr 1
    exact (congrArg Nat.cast hone).symm
  · intro j k x y hx hy hxl hyl hxy
    rcases hget hx with hx' | ⟨hj, hxi⟩
    · rcases hget hy with hy' | ⟨-, hyi⟩
      · exact h.keys hx' hy' hxl hyl hxy
      · exact absurd (hxy.trans (congrArg _ hyi)) (hkeys x (List.mem_of_getElem? hx') hxl)
    · rcases hget hy with hy' | ⟨hk, -⟩
      · exact absurd (hxy.symm.trans (congrArg _ hxi)) (hkeys y (List.mem_of_getElem? hy') hyl)
      · rw [hj, hk]
  · intro j x hx hxl
    rcases hget hx with hx' | ⟨-, hxi⟩
    · exact h.home hx' hxl
    · rw [hxi]
      exact hidx

/-! ### The two ways of a lookup -/

theorem setBucket_self (buf : Buffer) (i : ℕ) : buf.setBucket i (buf.map.table i) = buf := by
  rw [Buffer.setBucket, Function.update_eq_self]

/-- The item is in the map and not invalid. -/
def Buffer.Holds (buf : Buffer) (ref : ItemRef) (it : MapItem) : Prop :=
  buf.item? ref = some it ∧ it.Live

theorem lookup_eq {conf : Conf} {buf : Buffer} (h : MapOk conf buf) (obj : Object)
    (ty : LookupType) :
    let i := conf.bucketIdx obj.key
    let b := buf.map.table i
    ∃ r, PassSpec obj.key b.entry 0 none none r ∧
      (∀ j, r = .found j →
        lookup conf buf obj ty = (b.entry[j]?).bind fun it => lookupHit conf buf obj ty ⟨i, j⟩ it) ∧
      ∀ j pre invalid, r = .absent j pre invalid →
        lookup conf buf obj ty = lookupMiss conf buf obj ty i b j pre invalid := by
  intro i b
  obtain ⟨r, hr, hspec⟩ := search_spec (h i) obj.key
  have hset : buf.setBucket i b = buf := setBucket_self buf i
  refine ⟨r, hspec, ?_, ?_⟩
  · rintro j rfl
    show (search obj.key b).bind _ = _
    rw [hr, Option.bind_some]
    show (b.entry[j]?).bind (fun it => lookupHit conf (buf.setBucket i b) obj ty ⟨i, j⟩ it) = _
    rw [hset]
  · rintro j pre invalid rfl
    show (search obj.key b).bind _ = _
    rw [hr, Option.bind_some]
    show lookupMiss conf (buf.setBucket i b) obj ty i b j pre invalid = _
    rw [hset]

theorem lookup_hit {conf : Conf} {buf : Buffer} {obj : Object} {ref : ItemRef} {it : MapItem}
    (h : MapOk conf buf) (hit : buf.Holds ref it) (hkey : it.key = obj.key) (ty : LookupType) :
    lookup conf buf obj ty = lookupHit conf buf obj ty ref it := by
  obtain ⟨i, j⟩ := ref
  obtain ⟨hitem, hlive⟩ := hit
  have hi : conf.bucketIdx obj.key = i := hkey ▸ (h i).home hitem hlive
  obtain ⟨r, hspec, hfound, -⟩ := lookup_eq h obj ty
  rw [hi] at hspec hfound
  cases r with
  | found j' =>
    obtain ⟨n, it', rfl, hit', hlive', hkey'⟩ := hspec
    rw [Nat.zero_add] at hfound
    obtain rfl : n = j := (h i).keys hit' hitem hlive' hlive (hkey'.trans hkey.symm)
    obtain rfl : it' = it := Option.some.inj (hit'.symm.trans hitem)
    rw [hfound n rfl, hit', Option.bind_some]
  | absent j' pre invalid => exact absurd hkey (hspec.1 it (List.mem_of_getElem? hitem) hlive)
  | exhausted => exact hspec.elim
  | null => exact hspec.elim

theorem lookup_miss {conf : Conf} {buf : Buffer} {obj : Object} {ty : LookupType}
    (h : MapOk conf buf) (hmiss : ∀ ref it, buf.Holds ref it → it.key ≠ obj.key)
    (hty : ty = .read ∨ ty = .invalidate ∨ ty = .delete) :
    lookup conf buf obj ty = some (buf, none) := by
  obtain ⟨r, hspec, -, habsent⟩ := lookup_eq h obj ty
  cases r with
  | found j =>
    obtain ⟨n, it, rfl, hit, hlive, hkey⟩ := hspec
    exact absurd hkey (hmiss ⟨_, n⟩ it ⟨hit, hlive⟩)
  | absent j pre invalid =>
    rw [habsent j pre invalid rfl]
    rcases hty with rfl | rfl | rfl
    · rfl
    · rfl
    · rfl
  | exhausted => exact hspec.elim
  | null => exact hspec.elim

/-- A key without a live item, for the lookups that write: a new item behind the chain if all
items are live, an invalid item otherwise. -/
theorem lookup_insert {conf : Conf} {buf : Buffer} {obj : Object} {ty : LookupType}
    (h : MapOk conf buf) (hmiss : ∀ ref it, buf.Holds ref it → it.key ≠ obj.key)
    (hty : ty = .writeAppend ∨ ty = .writeInplace) :
    let i := conf.bucketIdx obj.key
    let b := buf.map.table i
    (b.validNrEntries = b.totalNrEntries ∧
        lookup conf buf obj ty = appendItem conf buf obj i (some (b.entry.length - 1))) ∨
      ∃ j it, b.validNrEntries ≠ b.totalNrEntries ∧ b.entry[j]? = some it ∧ ¬ it.Live ∧
        lookup conf buf obj ty = some (reuseItem conf buf obj i j it) := by
  intro i b
  have hok : b.Ok conf i := h i
  have hlen : 0 < b.entry.length := List.length_pos_iff.2 hok.ne_nil
  have htotal : b.totalNrEntries ≠ 0 := by
    rw [hok.total]
    omega
  obtain ⟨r, hspec, -, habsent⟩ := lookup_eq h obj ty
  cases r with
  | found j =>
    obtain ⟨n, it, rfl, hit, hlive, hkey⟩ := hspec
    exact absurd hkey (hmiss ⟨i, n⟩ it ⟨hit, hlive⟩)
  | absent j pre invalid =>
    obtain ⟨-, n, rfl, hn, hdrop, hinv, hpre⟩ := hspec
    have hmissEq : lookup conf buf obj ty =
        if b.totalNrEntries = 0 ∨ b.validNrEntries = b.totalNrEntries then
          appendItem conf buf obj i pre
        else if b.validNrEntries < b.totalNrEntries then
          (b.entry[invalid.getD (0 + n)]?).map fun it =>
            reuseItem conf buf obj i (invalid.getD (0 + n)) it
        else none := by
      rw [habsent (0 + n) pre invalid rfl]
      rcases hty with rfl | rfl
      · show (if _ then (if _ then _ else _) else _) = _
        rw [if_pos (⟨rfl, rfl⟩ : b.validNrEntries = b.validNrEntries ∧ _)]
      · show (if _ then (if _ then _ else _) else _) = _
        rw [if_pos (⟨rfl, rfl⟩ : b.validNrEntries = b.validNrEntries ∧ _)]
    by_cases hfull : b.validNrEntries = b.totalNrEntries
    · -- all items are live, so that the round went to the end of the chain
      have hall : ∀ it ∈ b.entry, it.Live := by
        have hcount : liveCount b.entry = b.entry.length := by
          have := hok.valid.symm.trans (hfull.trans hok.total)
          exact_mod_cast this
        intro it hit
        simpa using List.countP_eq_length.1 hcount it hit
      have hn' : n = b.entry.length := by
        by_contra hne
        have hlt : n < b.entry.length := lt_of_le_of_ne hn hne
        have hmem : b.entry[n] ∈ b.entry.drop n := by
          rw [List.drop_eq_getElem_cons hlt]
          exact List.mem_cons_self
        exact hdrop _ hmem (hall _ (List.getElem_mem hlt))
      refine Or.inl ⟨hfull, ?_⟩
      rw [hmissEq, if_pos (Or.inr hfull), hpre, hn', if_neg hlen.ne', Nat.zero_add]
    · have hle : b.validNrEntries ≤ b.totalNrEntries := by
        rw [hok.valid, hok.total]
        exact_mod_cast List.countP_le_length
      have hlt : b.validNrEntries < b.totalNrEntries := lt_of_le_of_ne hle hfull
      have hslot : ∃ it, b.entry[invalid.getD (0 + n)]? = some it ∧ ¬ it.Live := by
        rcases hinv with ⟨rfl, htake⟩ | ⟨t, it, rfl, hit, hlive⟩
        · -- every item on the way was live: the next one is there and invalid
          have hn' : n ≠ b.entry.length := by
            intro hn'
            rw [hn', List.take_length] at htake
            apply hfull
            rw [hok.valid, hok.total]
            exact congrArg Nat.cast (List.countP_eq_length.2 fun it hit => by simpa using htake it hit)
          have hlt' : n < b.entry.length := lt_of_le_of_ne hn hn'
          refine ⟨b.entry[n], ?_, hdrop _ ?_⟩
          · rw [Nat.zero_add]
            exact List.getElem?_eq_getElem hlt'
          · rw [List.drop_eq_getElem_cons hlt']
            exact List.mem_cons_self
        · refine ⟨it, ?_, hlive⟩
          rw [Option.getD_some, Nat.zero_add]
          exact hit
      obtain ⟨it, hit, hlive⟩ := hslot
      refine Or.inr ⟨invalid.getD (0 + n), it, hfull, hit, hlive, ?_⟩
      rw [hmissEq, if_neg (not_or.2 ⟨htotal, hfull⟩), if_pos hlt, hit, Option.map_some]
  | exhausted => exact hspec.elim
  | null => exact hspec.elim

/-! ### What the operations do to the buffer -/

/-- One bucket of the map is changed. -/
def Buffer.withBucket (buf : Buffer) (m : WalMap) (i : ℕ) (b : Bucket) : Buffer :=
  { buf with map := { m with table := Function.update m.table i b } }

/-- What an item counts in `nr_objects_inserted` when it is invalidated. -/
def MapItem.inserted (it : MapItem) : ℤ := if it.status = .valid then 1 else 0

/-- The memory after an invalidation. -/
def invalidMem (conf : Conf) (buf : Buffer) (it : MapItem) : Memory Cell :=
  if conf.logEnabled then modify buf.mem it.addr (Cell.setState .invalid) else buf.mem

/-- The buffer after an item was invalidated. -/
def invalidated (conf : Conf) (buf : Buffer) (ref : ItemRef) (it : MapItem) : Buffer :=
  { buf.withBucket buf.map ref.bucket ((buf.map.table ref.bucket).replace ref.index
      { it with status := .invalid } ((buf.map.table ref.bucket).validNrEntries - 1)) with
    mem := invalidMem conf buf it
    nrObjectsInserted := buf.nrObjectsInserted - it.inserted }

theorem invalidateItem_eq {conf : Conf} {buf : Buffer} {ref : ItemRef} {it : MapItem}
    (hlive : it.Live) (hfl : it.status ≠ .flushing) :
    invalidateItem conf buf ref it = (invalidated conf buf ref it, true) := by
  rw [invalidated]
  cases hs : it.status with
  | valid =>
    have hone : it.inserted = 1 := if_pos hs
    rw [hone]
    simp only [invalidateItem, hs]
    rfl
  | invalid => exact absurd hs hlive
  | flushing => exact absurd hs hfl
  | flushed =>
    have hzero : it.inserted = 0 := if_neg (by rw [hs]; decide)
    rw [hzero, sub_zero]
    simp only [invalidateItem, hs]
    rfl
  | deleted =>
    have hzero : it.inserted = 0 := if_neg (by rw [hs]; decide)
    rw [hzero, sub_zero]
    simp only [invalidateItem, hs]
    rfl

theorem invalidateItem_flushing {conf : Conf} {buf : Buffer} {ref : ItemRef} {it : MapItem}
    (hfl : it.status = .flushing) : invalidateItem conf buf ref it = (buf, false) := by
  rw [invalidateItem]
  simp only [hfl]

/-- The item after an overwrite. -/
def overwritten (conf : Conf) (buf : Buffer) (obj : Object) (it : MapItem) (t : InsertType) :
    MapItem :=
  if t = .overwriteDelete then
    { (cacheInsertObject conf buf obj it t).2 with status := .deleted, valSize := 0 }
  else { (cacheInsertObject conf buf obj it t).2 with valSize := obj.val.length }

theorem overwriteItem_eq (conf : Conf) (buf : Buffer) (obj : Object) (ref : ItemRef)
    (it : MapItem) (t : InsertType) :
    overwriteItem conf buf obj ref it t =
      (cacheInsertObject conf buf obj it t).1.withBucket buf.map ref.bucket
        ((buf.map.table ref.bucket).replace ref.index (overwritten conf buf obj it t)
          (buf.map.table ref.bucket).validNrEntries) := rfl

/-- The item of a new object. -/
def freshItem (conf : Conf) (buf : Buffer) (obj : Object) (it : MapItem) : MapItem :=
  { (cacheInsertObject conf buf obj it .insertNew).2 with valSize := obj.val.length }

/-- The item that a new chain element or a used one starts from. -/
def slotItem (obj : Object) (it : MapItem) : MapItem := { it with status := .valid, key := obj.key }

theorem appendItem_eq {conf : Conf} {buf : Buffer} {obj : Object} {i : ℕ}
    (hok : (buf.map.table i).Ok conf i)
    (hfull : (buf.map.table i).validNrEntries = (buf.map.table i).totalNrEntries) :
    appendItem conf buf obj i (some ((buf.map.table i).entry.length - 1)) =
      some ((cacheInsertObject conf buf obj ⟨obj.key, 0, 0, .valid⟩ .insertNew).1.withBucket buf.map i
          ⟨(buf.map.table i).entry ++ [freshItem conf buf obj ⟨obj.key, 0, 0, .valid⟩],
            (buf.map.table i).validNrEntries + 1, (buf.map.table i).totalNrEntries + 1⟩,
        some ⟨i, (buf.map.table i).entry.length⟩) := by
  have hlen : 0 < (buf.map.table i).entry.length := List.length_pos_iff.2 hok.ne_nil
  have htotal : (buf.map.table i).totalNrEntries ≠ 0 := by
    rw [hok.total]
    omega
  have hsub : (buf.map.table i).entry.length - 1 + 1 = (buf.map.table i).entry.length := by omega
  have hmax : max (buf.map.table i).totalNrEntries ((buf.map.table i).validNrEntries + 1) =
      (buf.map.table i).totalNrEntries + 1 := by
    rw [hfull]
    exact max_eq_right (by omega)
  simp only [appendItem, if_neg htotal, hsub, List.take_length, Bucket.countInsert, hmax]
  rfl

theorem reuseItem_eq {conf : Conf} {buf : Buffer} {obj : Object} {i j : ℕ} {it : MapItem}
    (hlt : (buf.map.table i).validNrEntries < (buf.map.table i).totalNrEntries) :
    reuseItem conf buf obj i j it =
      ((cacheInsertObject conf buf obj (slotItem obj it) .insertNew).1.withBucket
          { buf.map with
            queue := if buf.map.queue.next i = none then buf.map.queue.insertTail i
              else buf.map.queue } i
          ((buf.map.table i).replace j (freshItem conf buf obj (slotItem obj it))
            ((buf.map.table i).validNrEntries + 1)),
        some ⟨i, j⟩) := by
  have hmax : max (buf.map.table i).totalNrEntries ((buf.map.table i).validNrEntries + 1) =
      (buf.map.table i).totalNrEntries := max_eq_left (by omega)
  have hcount : ((buf.map.table i).setItem j
      (freshItem conf buf obj (slotItem obj it))).countInsert =
      (buf.map.table i).replace j (freshItem conf buf obj (slotItem obj it))
        ((buf.map.table i).validNrEntries + 1) := by
    simp only [Bucket.countInsert, Bucket.setItem, Bucket.replace, hmax]
  rw [← hcount]
  rfl

/-- The item that is marked as deleted starts from the invalidated one, unless it is being
flushed. -/
def deletedFrom (it : MapItem) : MapItem :=
  if it.status = .flushing then it else { it with status := .invalid }

/-- The buffer in which the deletion is written. -/
def deleteBase (conf : Conf) (buf : Buffer) (it : MapItem) : Buffer :=
  if it.status = .flushing then buf
  else
    { buf with
      mem := invalidMem conf buf it
      nrObjectsInserted := buf.nrObjectsInserted - it.inserted }

theorem lookupHit_delete {conf : Conf} {buf : Buffer} {obj : Object} {ref : ItemRef}
    {it : MapItem} (hlog : conf.logEnabled = true) (hlive : it.Live)
    (hdel : it.status ≠ .deleted) :
    lookupHit conf buf obj .delete ref it =
      some ((cacheInsertObject conf (deleteBase conf buf it) obj (deletedFrom it)
          .overwriteDelete).1.withBucket buf.map ref.bucket
        ((buf.map.table ref.bucket).replace ref.index
          (overwritten conf (deleteBase conf buf it) obj (deletedFrom it) .overwriteDelete)
          (buf.map.table ref.bucket).validNrEntries), some ref) := by
  by_cases hfl : it.status = .flushing
  · simp only [lookupHit, if_neg hdel, invalidateItem_flushing hfl, deleteBase, deletedFrom,
      if_pos hfl]
    rw [overwriteItem_eq]
  · simp only [lookupHit, if_neg hdel, invalidateItem_eq hlive hfl, deleteBase, deletedFrom,
      if_neg hfl, hlog, if_true]
    rw [overwriteItem_eq]
    simp only [invalidated, Buffer.withBucket, Buffer.setBucket, Function.update_self, Function.update_idem,
      Bucket.replace, List.set_set, sub_add_cancel]
    rfl

/-! ### The items after a lookup -/

/-- The live items are those of `buf`, but for the item at `ref`, which is `it'`. -/
def Puts (buf buf' : Buffer) (ref : ItemRef) (it' : MapItem) : Prop :=
  ∀ r x, buf'.Holds r x ↔ if r = ref then x = it' ∧ it'.Live else buf.Holds r x

theorem MapOk.unique {conf : Conf} {buf : Buffer} (h : MapOk conf buf) {r r' : ItemRef}
    {x x' : MapItem} (hx : buf.Holds r x) (hx' : buf.Holds r' x') (hkey : x.key = x'.key) :
    r = r' ∧ x = x' := by
  obtain ⟨i, j⟩ := r
  obtain ⟨i', j'⟩ := r'
  obtain rfl : i = i' := by
    rw [← (h i).home hx.1 hx.2, ← (h i').home hx'.1 hx'.2, hkey]
  obtain rfl : j = j' := (h i).keys hx.1 hx'.1 hx.2 hx'.2 hkey
  exact ⟨rfl, Option.some.inj (hx.1.symm.trans hx'.1)⟩

/-- The map is in order after a change of one bucket. -/
theorem MapOk.update {conf : Conf} {buf buf' : Buffer} {i : ℕ} {b : Bucket} (h : MapOk conf buf)
    (htable : buf'.map.table = Function.update buf.map.table i b) (hb : b.Ok conf i) :
    MapOk conf buf' := by
  intro k
  rw [htable]
  by_cases hk : k = i
  · subst hk
    rw [Function.update_self]
    exact hb
  · rw [Function.update_of_ne hk]
    exact h k

theorem puts_replace {buf buf' : Buffer} {ref : ItemRef} {it it' : MapItem} {v : ℤ}
    (hit : buf.item? ref = some it)
    (htable : buf'.map.table = Function.update buf.map.table ref.bucket
      ((buf.map.table ref.bucket).replace ref.index it' v)) : Puts buf buf' ref it' := by
  obtain ⟨i, j⟩ := ref
  have hlt : j < (buf.map.table i).entry.length := (List.getElem?_eq_some_iff.1 hit).1
  rintro ⟨i', j'⟩ x
  simp only [Buffer.Holds, Buffer.item?, htable]
  by_cases hi : i' = i
  · subst hi
    rw [Function.update_self]
    by_cases hj : j' = j
    · subst hj
      rw [if_pos rfl]
      simp only [Bucket.replace, List.getElem?_set_self hlt, Option.some.injEq]
      constructor
      · rintro ⟨rfl, hlive⟩
        exact ⟨rfl, hlive⟩
      · rintro ⟨rfl, hlive⟩
        exact ⟨rfl, hlive⟩
    · rw [if_neg (by simpa using hj)]
      simp only [Bucket.replace, List.getElem?_set_ne (Ne.symm hj)]
  · rw [Function.update_of_ne hi, if_neg (fun h => hi (congrArg ItemRef.bucket h))]

theorem puts_append {buf buf' : Buffer} {i : ℕ} {it' : MapItem} {v t : ℤ}
    (htable : buf'.map.table = Function.update buf.map.table i
      ⟨(buf.map.table i).entry ++ [it'], v, t⟩) :
    Puts buf buf' ⟨i, (buf.map.table i).entry.length⟩ it' := by
  rintro ⟨i', j'⟩ x
  simp only [Buffer.Holds, Buffer.item?, htable]
  by_cases hi : i' = i
  · subst hi
    rw [Function.update_self]
    by_cases hj : j' = (buf.map.table i').entry.length
    · subst hj
      rw [if_pos rfl]
      simp only [List.getElem?_append_right le_rfl, Nat.sub_self, List.getElem?_cons_zero,
        Option.some.injEq]
      constructor
      · rintro ⟨rfl, hlive⟩
        exact ⟨rfl, hlive⟩
      · rintro ⟨rfl, hlive⟩
        exact ⟨rfl, hlive⟩
    · rw [if_neg (by simpa using hj)]
      have hget : ((buf.map.table i').entry ++ [it'])[j']? = (buf.map.table i').entry[j']? := by
        rcases lt_or_gt_of_ne hj with hlt | hgt
        · exact List.getElem?_append_left hlt
        · rw [List.getElem?_eq_none (by simpa using hgt), List.getElem?_eq_none hgt.le]
      dsimp only
      rw [hget]
  · rw [Function.update_of_ne hi, if_neg (fun h => hi (congrArg ItemRef.bucket h))]

/-- An item is put in place of `old`, or behind the chain. -/
inductive Change (buf buf' : Buffer) (ref : ItemRef) (it' : MapItem) : Option MapItem → Prop
  | replace {it : MapItem} {v : ℤ} (hit : buf.item? ref = some it)
      (htable : buf'.map.table = Function.update buf.map.table ref.bucket
        ((buf.map.table ref.bucket).replace ref.index it' v)) : Change buf buf' ref it' (some it)
  | append {v t : ℤ} (href : ref.index = (buf.map.table ref.bucket).entry.length)
      (htable : buf'.map.table = Function.update buf.map.table ref.bucket
        ⟨(buf.map.table ref.bucket).entry ++ [it'], v, t⟩) : Change buf buf' ref it' none

theorem Change.puts {buf buf' : Buffer} {ref : ItemRef} {it' : MapItem} {old : Option MapItem}
    (h : Change buf buf' ref it' old) : Puts buf buf' ref it' := by
  cases h with
  | replace hit htable => exact puts_replace hit htable
  | append href htable =>
    obtain ⟨i, j⟩ := ref
    dsimp only at href htable
    subst href
    exact puts_append htable

/-- What was held at the place of the item. -/
theorem Change.old {buf buf' : Buffer} {ref : ItemRef} {it' x : MapItem} {old : Option MapItem}
    (h : Change buf buf' ref it' old) (hx : buf.Holds ref x) : old = some x := by
  cases h with
  | replace hit htable => exact hit.symm.trans hx.1
  | append href htable =>
    have hnone : buf.item? ref = none := List.getElem?_eq_none href.ge
    exact absurd (hnone.symm.trans hx.1) (by simp)

/-- The items of all other keys are as before. -/
def SameOthers (buf buf' : Buffer) (key : Bytes) : Prop :=
  ∀ r x, x.key ≠ key → (buf'.Holds r x ↔ buf.Holds r x)

theorem Puts.sameOthers {buf buf' : Buffer} {ref : ItemRef} {it' : MapItem} {key : Bytes}
    (h : Puts buf buf' ref it') (hkey : it'.key = key)
    (hold : ∀ x, buf.Holds ref x → x.key = key) : SameOthers buf buf' key := by
  intro r x hx
  rw [h r x]
  split_ifs with hr
  · subst hr
    constructor
    · rintro ⟨rfl, -⟩
      exact absurd hkey hx
    · intro hx'
      exact absurd (hold x hx') hx
  · exact Iff.rfl

/-- The item that was put is the item of its key. -/
theorem Puts.only {conf : Conf} {buf buf' : Buffer} {ref : ItemRef} {it' : MapItem}
    (h : Puts buf buf' ref it') (hok : MapOk conf buf') (hlive : it'.Live) {r : ItemRef}
    {x : MapItem} (hx : buf'.Holds r x) (hkey : x.key = it'.key) : r = ref ∧ x = it' :=
  hok.unique hx ((h ref it').2 (by rw [if_pos rfl]; exact ⟨rfl, hlive⟩)) hkey

/-! ### The lookups -/

/-- What a lookup returns and what becomes of the item of its key: a write leaves it valid with the
size of the value, a deletion leaves it deleted or none, an invalidation leaves none unless it is
being flushed, and a read finds it unless it is deleted. -/
def LookupEffect (buf buf' : Buffer) (obj : Object) (r : Option ItemRef) : LookupType → Prop
  | .read =>
      buf' = buf ∧
        ∀ ref, r = some ref ↔ ∃ it, buf.Holds ref it ∧ it.key = obj.key ∧ it.status ≠ .deleted
  | .invalidate => ∀ ref it, buf'.Holds ref it → it.key = obj.key → it.status = .flushing
  | .delete => ∀ ref it, buf'.Holds ref it → it.key = obj.key → it.status = .deleted
  | .writeAppend | .writeInplace =>
      ∃ ref it, r = some ref ∧ buf'.Holds ref it ∧ it.key = obj.key ∧ it.status = .valid ∧
        it.valSize = obj.val.length

/-- Every live item that is not deleted has a value that is not empty. -/
def Sized (buf : Buffer) : Prop :=
  ∀ ref it, buf.Holds ref it → it.status ≠ .deleted → it.valSize ≠ 0

theorem overwritten_key (conf : Conf) (buf : Buffer) (obj : Object) (it : MapItem)
    (t : InsertType) : (overwritten conf buf obj it t).key = it.key := by
  unfold overwritten
  split_ifs <;> rfl

theorem cacheInsertObject_status (conf : Conf) (buf : Buffer) (obj : Object) (it : MapItem)
    {t : InsertType} (ht : t ≠ .overwriteDelete) :
    (cacheInsertObject conf buf obj it t).2.status = .valid := by
  have hdel : (t == InsertType.overwriteDelete) = false := by simpa using ht
  simp only [cacheInsertObject, hdel, Bool.and_false, Bool.false_eq_true, if_false]

theorem overwritten_write (conf : Conf) (buf : Buffer) (obj : Object) (it : MapItem)
    {t : InsertType} (ht : t ≠ .overwriteDelete) :
    (overwritten conf buf obj it t).status = .valid ∧
      (overwritten conf buf obj it t).valSize = obj.val.length := by
  rw [overwritten, if_neg ht]
  exact ⟨cacheInsertObject_status conf buf obj it ht, rfl⟩

theorem freshItem_status (conf : Conf) (buf : Buffer) (obj : Object) (it : MapItem) :
    (freshItem conf buf obj it).status = .valid :=
  cacheInsertObject_status conf buf obj it (by decide)

theorem live_of_valid {it : MapItem} (h : it.status = .valid) : it.Live := by
  rw [MapItem.Live, h]
  decide

theorem live_of_flushing {it : MapItem} (h : it.status = .flushing) : it.Live := by
  rw [MapItem.Live, h]
  decide

theorem live_of_flushed {it : MapItem} (h : it.status = .flushed) : it.Live := by
  rw [MapItem.Live, h]
  decide

theorem live_of_deleted {it : MapItem} (h : it.status = .deleted) : it.Live := by
  rw [MapItem.Live, h]
  decide

theorem Puts.sized {buf buf' : Buffer} {ref : ItemRef} {it' : MapItem} (h : Puts buf buf' ref it')
    (hs : Sized buf) (hnew : it'.Live → it'.status ≠ .deleted → it'.valSize ≠ 0) :
    Sized buf' := by
  intro r x hx hdel
  have hx' := (h r x).1 hx
  split_ifs at hx' with hr
  · obtain ⟨rfl, hlive⟩ := hx'
    exact hnew hlive hdel
  · exact hs r x hx' hdel

/-- The type of the insertion at the item that was found. -/
def LookupType.overwrite : LookupType → InsertType
  | .writeAppend => .overwriteAppend
  | .delete => .overwriteDelete
  | _ => .overwriteInplace

/-- The bucket is linked into the queue if its next pointer is null. -/
def linked (q : Queue ℕ) (i : ℕ) : Queue ℕ := if q.next i = none then q.insertTail i else q

/-- What a write leaves: a valid item of the key in place of `old`, and the object in the buffer.
The bucket is linked only when an invalid item is used again. -/
structure Wrote (conf : Conf) (buf buf' : Buffer) (obj : Object) (ty : LookupType)
    (ref : ItemRef) (it' : MapItem) (old : Option MapItem) : Prop where
  ok : MapOk conf buf'
  change : Change buf buf' ref it' old
  home : ref.bucket = conf.bucketIdx obj.key
  old_key : ∀ x, old = some x → x.Live → x.key = obj.key
  key : it'.key = obj.key
  status : it'.status = .valid
  size : it'.valSize = obj.val.length
  inserted : buf'.nrObjectsInserted = buf.nrObjectsInserted +
    if ∃ x, old = some x ∧ x.Live ∧ ¬ (ty = .writeAppend ∧ x.status = .deleted) then 0 else 1
  pending : buf'.nrPendingIo = buf.nrPendingIo
  flushHead : buf'.map.flushHead = buf.map.flushHead
  queue : buf'.map.queue = buf.map.queue ∧ (∃ j x, buf.Holds ⟨ref.bucket, j⟩ x) ∨
    (∀ ref it, buf.Holds ref it → it.key ≠ obj.key) ∧
      (buf.map.table ref.bucket).validNrEntries ≠ (buf.map.table ref.bucket).totalNrEntries ∧
      buf'.map.queue = linked buf.map.queue ref.bucket
  -- the item the insertion starts from has the address and the size of the old one
  content : ∃ start t, t ≠ InsertType.overwriteDelete ∧
    buf'.mem = (cacheInsertObject conf buf obj start t).1.mem ∧
    buf'.currPos = (cacheInsertObject conf buf obj start t).1.currPos ∧
    it'.addr = (cacheInsertObject conf buf obj start t).2.addr ∧
    start.addr = (old.elim 0 MapItem.addr) ∧ start.valSize = (old.elim 0 MapItem.valSize)
  positions : buf'.startAddr = buf.startAddr ∧ buf'.endAddr = buf.endAddr ∧
    buf'.dumpInfo = buf.dumpInfo

theorem cacheInsertObject_inserted (conf : Conf) (buf : Buffer) (obj : Object) (it : MapItem)
    (t : InsertType) :
    (cacheInsertObject conf buf obj it t).1.nrObjectsInserted = buf.nrObjectsInserted +
      if t = .insertNew ∨ t = .overwriteAppend ∧ it.status = .deleted then 1 else 0 := by
  simp only [cacheInsertObject]
  split_ifs with h1 h2 h2
  · rfl
  · simp only [Bool.or_eq_true, Bool.and_eq_true, beq_iff_eq] at h1
    exact absurd h1 h2
  · simp only [Bool.or_eq_true, Bool.and_eq_true, beq_iff_eq] at h1
    exact absurd h2 h1
  · exact (add_zero _).symm

section

variable {conf : Conf} {buf : Buffer} {obj : Object} {ty : LookupType} {i : ℕ}

theorem nrObjectsInserted_insertNew (conf : Conf) (buf : Buffer) (obj : Object) (it : MapItem) :
    (cacheInsertObject conf buf obj it .insertNew).1.nrObjectsInserted =
      buf.nrObjectsInserted + 1 := by
  rw [cacheInsertObject_inserted, if_pos (Or.inl rfl)]

theorem keys_of_miss (hmiss : ∀ ref it, buf.Holds ref it → it.key ≠ obj.key) :
    ∀ x ∈ (buf.map.table i).entry, x.Live → x.key ≠ obj.key := by
  intro x hx hlive
  obtain ⟨n, hn⟩ := List.mem_iff_getElem?.1 hx
  exact hmiss ⟨i, n⟩ x ⟨hn, hlive⟩

theorem MapOk.exists_holds (h : MapOk conf buf)
    (hfull : (buf.map.table i).validNrEntries = (buf.map.table i).totalNrEntries) :
    ∃ j x, buf.Holds ⟨i, j⟩ x := by
  obtain ⟨x, hx⟩ := List.exists_mem_of_ne_nil _ (h i).ne_nil
  obtain ⟨n, hn⟩ := List.mem_iff_getElem?.1 hx
  have hcount : liveCount (buf.map.table i).entry = (buf.map.table i).entry.length := by
    have := (h i).valid.symm.trans (hfull.trans (h i).total)
    exact_mod_cast this
  exact ⟨n, x, hn, by simpa using List.countP_eq_length.1 hcount x hx⟩

theorem wrote_append (h : MapOk conf buf)
    (hmiss : ∀ ref it, buf.Holds ref it → it.key ≠ obj.key) (hi : i = conf.bucketIdx obj.key)
    (hfull : (buf.map.table i).validNrEntries = (buf.map.table i).totalNrEntries) :
    ∃ buf' ref it' old,
      appendItem conf buf obj i (some ((buf.map.table i).entry.length - 1)) =
        some (buf', some ref) ∧
      Wrote conf buf buf' obj ty ref it' old := by
  have hfresh := live_of_valid (freshItem_status conf buf obj ⟨obj.key, 0, 0, .valid⟩)
  refine ⟨_, ⟨i, (buf.map.table i).entry.length⟩, freshItem conf buf obj ⟨obj.key, 0, 0, .valid⟩,
    none, appendItem_eq (h i) hfull,
    { ok := h.update rfl ((h i).append hfresh hi.symm (keys_of_miss hmiss))
      change := .append rfl rfl
      home := hi
      old_key := fun x hx => by cases hx
      key := rfl
      status := freshItem_status conf buf obj _
      size := rfl
      inserted := ?_
      pending := rfl
      flushHead := rfl
      queue := Or.inl ⟨rfl, h.exists_holds hfull⟩
      content := ⟨_, .insertNew, by decide, rfl, rfl, rfl, rfl, rfl⟩
      positions := ⟨rfl, rfl, rfl⟩ }⟩
  refine (nrObjectsInserted_insertNew conf buf obj ⟨obj.key, 0, 0, .valid⟩).trans ?_
  rw [if_neg (by rintro ⟨x, hx, -⟩; cases hx)]

theorem wrote_reuse (h : MapOk conf buf)
    (hmiss : ∀ ref it, buf.Holds ref it → it.key ≠ obj.key) (hi : i = conf.bucketIdx obj.key)
    {j : ℕ} {it : MapItem}
    (hfull : (buf.map.table i).validNrEntries ≠ (buf.map.table i).totalNrEntries)
    (hit : (buf.map.table i).entry[j]? = some it) (hlive : ¬ it.Live) :
    ∃ buf' ref it' old, reuseItem conf buf obj i j it = (buf', some ref) ∧
      Wrote conf buf buf' obj ty ref it' old := by
  have hlt : (buf.map.table i).validNrEntries < (buf.map.table i).totalNrEntries := by
    refine lt_of_le_of_ne ?_ hfull
    rw [(h i).valid, (h i).total]
    exact_mod_cast List.countP_le_length
  have hfresh := live_of_valid (freshItem_status conf buf obj (slotItem obj it))
  have hok : ((buf.map.table i).replace j (freshItem conf buf obj (slotItem obj it))
      ((buf.map.table i).validNrEntries + 1)).Ok conf i :=
    (h i).replace_reuse hit hlive hi.symm (keys_of_miss hmiss)
      (by rw [MapItem.weight_live hfresh, Nat.cast_one])
  refine ⟨_, ⟨i, j⟩, freshItem conf buf obj (slotItem obj it), some it, reuseItem_eq hlt,
    { ok := h.update rfl hok
      change := .replace hit rfl
      home := hi
      old_key := ?_
      key := rfl
      status := freshItem_status conf buf obj _
      size := rfl
      inserted := ?_
      pending := rfl
      flushHead := rfl
      queue := Or.inr ⟨hmiss, hfull, rfl⟩
      content := ⟨_, .insertNew, by decide, rfl, rfl, rfl, rfl, rfl⟩
      positions := ⟨rfl, rfl, rfl⟩ }⟩
  · intro x hx hxl
    cases hx
    exact absurd hxl hlive
  · refine (nrObjectsInserted_insertNew conf buf obj (slotItem obj it)).trans ?_
    rw [if_neg (by rintro ⟨x, hx, hxl, -⟩; cases hx; exact hlive hxl)]

theorem nrObjectsInserted_overwrite (conf : Conf) (buf : Buffer) (obj : Object)
    (hty : ty = .writeAppend ∨ ty = .writeInplace) {it : MapItem} (hlive : it.Live) :
    (cacheInsertObject conf buf obj it ty.overwrite).1.nrObjectsInserted = buf.nrObjectsInserted +
      if ∃ x, some it = some x ∧ x.Live ∧ ¬ (ty = .writeAppend ∧ x.status = .deleted) then 0
      else 1 := by
  have hne : ty.overwrite ≠ .insertNew := by
    rcases hty with rfl | rfl <;> decide
  have happend : ty.overwrite = .overwriteAppend ↔ ty = .writeAppend := by
    rcases hty with rfl | rfl <;> decide
  refine (cacheInsertObject_inserted conf buf obj it ty.overwrite).trans ?_
  congr 1
  by_cases hdel : ty = .writeAppend ∧ it.status = .deleted
  · rw [if_pos (Or.inr ⟨happend.2 hdel.1, hdel.2⟩), if_neg]
    rintro ⟨x, hx, -, hno⟩
    cases hx
    exact hno hdel
  · rw [if_neg, if_pos ⟨it, rfl, hlive, hdel⟩]
    rintro (h0 | ⟨h0, h1⟩)
    · exact hne h0
    · exact hdel ⟨happend.1 h0, h1⟩

theorem wrote_overwrite (h : MapOk conf buf) (hty : ty = .writeAppend ∨ ty = .writeInplace)
    {ref : ItemRef} {it : MapItem} (hit : buf.Holds ref it) (hkey : it.key = obj.key) :
    Wrote conf buf (overwriteItem conf buf obj ref it ty.overwrite) obj ty ref
      (overwritten conf buf obj it ty.overwrite) (some it) := by
  have ht : ty.overwrite ≠ .overwriteDelete := by
    rcases hty with rfl | rfl <;> decide
  obtain ⟨hstatus, hsize⟩ := overwritten_write conf buf obj it ht
  have haddr : (overwritten conf buf obj it ty.overwrite).addr =
      (cacheInsertObject conf buf obj it ty.overwrite).2.addr := by
    rw [overwritten, if_neg ht]
  have hok := (h ref.bucket).replace_same (v := (buf.map.table ref.bucket).validNrEntries) hit.1
    hit.2 (overwritten_key conf buf obj it ty.overwrite)
    (by rw [MapItem.weight_live (live_of_valid hstatus), Nat.cast_one, sub_add_cancel])
  rw [overwriteItem_eq]
  exact
    { ok := h.update rfl hok
      change := .replace hit.1 rfl
      home := by
        rw [← hkey]
        exact ((h ref.bucket).home hit.1 hit.2).symm
      old_key := fun x hx _ => Option.some.inj hx ▸ hkey
      key := (overwritten_key ..).trans hkey
      status := hstatus
      size := hsize
      inserted := nrObjectsInserted_overwrite conf buf obj hty hit.2
      pending := rfl
      flushHead := rfl
      queue := Or.inl ⟨rfl, ref.index, it, hit⟩
      content := ⟨it, ty.overwrite, ht, rfl, rfl, haddr, rfl, rfl⟩
      positions := ⟨rfl, rfl, rfl⟩ }

end

theorem lookup_write {conf : Conf} {buf : Buffer} {ty : LookupType} (obj : Object)
    (h : MapOk conf buf) (hty : ty = .writeAppend ∨ ty = .writeInplace) :
    ∃ buf' ref it' old, lookup conf buf obj ty = some (buf', some ref) ∧
      Wrote conf buf buf' obj ty ref it' old := by
  by_cases hmiss : ∀ ref it, buf.Holds ref it → it.key ≠ obj.key
  · rcases lookup_insert h hmiss hty with ⟨hfull, hlook⟩ | ⟨j, it, hfull, hit, hlive, hlook⟩
    · rw [hlook]
      exact wrote_append h hmiss rfl hfull
    · obtain ⟨buf', ref, it', old, hreuse, hwrote⟩ := wrote_reuse h hmiss rfl hfull hit hlive
      exact ⟨buf', ref, it', old, by rw [hlook, hreuse], hwrote⟩
  · push Not at hmiss
    obtain ⟨ref, it, hit, hkey⟩ := hmiss
    refine ⟨_, ref, _, some it, ?_, wrote_overwrite h hty hit hkey⟩
    rw [lookup_hit h hit hkey]
    rcases hty with rfl | rfl <;> rfl

/-- The buffer after an item was marked as deleted. -/
def deletedBuf (conf : Conf) (buf : Buffer) (obj : Object) (ref : ItemRef) (it : MapItem) :
    Buffer :=
  (cacheInsertObject conf (deleteBase conf buf it) obj (deletedFrom it)
      .overwriteDelete).1.withBucket buf.map ref.bucket
    ((buf.map.table ref.bucket).replace ref.index
      (overwritten conf (deleteBase conf buf it) obj (deletedFrom it) .overwriteDelete)
      (buf.map.table ref.bucket).validNrEntries)

theorem lookup_delete {conf : Conf} {buf : Buffer} (obj : Object) (h : MapOk conf buf)
    (hlog : conf.logEnabled = true) :
    (lookup conf buf obj .delete = some (buf, none) ∧
        ∀ ref it, buf.Holds ref it → it.key = obj.key → it.status = .deleted) ∨
      ∃ ref it, buf.Holds ref it ∧ it.key = obj.key ∧ it.status ≠ .deleted ∧
        lookup conf buf obj .delete = some (deletedBuf conf buf obj ref it, some ref) := by
  by_cases hmiss : ∀ ref it, buf.Holds ref it → it.key ≠ obj.key
  · refine Or.inl ⟨lookup_miss h hmiss (Or.inr (Or.inr rfl)), ?_⟩
    exact fun ref it hit hkey => absurd hkey (hmiss ref it hit)
  · push Not at hmiss
    obtain ⟨ref, it, hit, hkey⟩ := hmiss
    rw [lookup_hit h hit hkey]
    by_cases hdel : it.status = .deleted
    · refine Or.inl ⟨?_, ?_⟩
      · simp only [lookupHit, if_pos hdel]
      · intro r x hx hxk
        obtain ⟨-, rfl⟩ := h.unique hx hit (hxk.trans hkey.symm)
        exact hdel
    · exact Or.inr ⟨ref, it, hit, hkey, hdel, lookupHit_delete hlog hit.2 hdel⟩

theorem deletedBuf_spec {conf : Conf} {buf : Buffer} {ref : ItemRef} {it : MapItem} (obj : Object)
    (h : MapOk conf buf) (hit : buf.Holds ref it) :
    MapOk conf (deletedBuf conf buf obj ref it) ∧
      ∃ it', Change buf (deletedBuf conf buf obj ref it) ref it' (some it) ∧ it'.key = it.key ∧
        it'.status = .deleted := by
  have hskey : (deletedFrom it).key = it.key := by
    rw [deletedFrom]
    split_ifs <;> rfl
  have hkey := (overwritten_key conf (deleteBase conf buf it) obj (deletedFrom it)
    .overwriteDelete).trans hskey
  have hok := (h ref.bucket).replace_same (v := (buf.map.table ref.bucket).validNrEntries) hit.1
    hit.2 hkey
    (by rw [MapItem.weight_live (live_of_deleted rfl), Nat.cast_one, sub_add_cancel])
  exact ⟨h.update rfl hok, _, .replace hit.1 rfl, hkey, rfl⟩

theorem lookup_invalidate {conf : Conf} {buf : Buffer} (obj : Object) (h : MapOk conf buf) :
    (lookup conf buf obj .invalidate = some (buf, none) ∧
        ∀ ref it, buf.Holds ref it → it.key ≠ obj.key) ∨
      ∃ ref it, buf.Holds ref it ∧ it.key = obj.key ∧
        lookup conf buf obj .invalidate =
          some (if it.status = .flushing then buf else invalidated conf buf ref it, some ref) := by
  by_cases hmiss : ∀ ref it, buf.Holds ref it → it.key ≠ obj.key
  · exact Or.inl ⟨lookup_miss h hmiss (Or.inr (Or.inl rfl)), hmiss⟩
  · push Not at hmiss
    obtain ⟨ref, it, hit, hkey⟩ := hmiss
    refine Or.inr ⟨ref, it, hit, hkey, ?_⟩
    rw [lookup_hit h hit hkey]
    by_cases hfl : it.status = .flushing
    · simp only [lookupHit, invalidateItem_flushing hfl, if_pos hfl]
    · simp only [lookupHit, invalidateItem_eq hit.2 hfl, if_neg hfl]

theorem invalidated_spec {conf : Conf} {buf : Buffer} {ref : ItemRef} {it : MapItem}
    (h : MapOk conf buf) (hit : buf.Holds ref it) :
    MapOk conf (invalidated conf buf ref it) ∧
      Change buf (invalidated conf buf ref it) ref { it with status := .invalid } (some it) := by
  have hinvalid : ¬ ({ it with status := .invalid } : MapItem).Live := fun hl => hl rfl
  have hok : ((buf.map.table ref.bucket).replace ref.index { it with status := .invalid }
      ((buf.map.table ref.bucket).validNrEntries - 1)).Ok conf ref.bucket :=
    (h ref.bucket).replace_same hit.1 hit.2 rfl
      (by rw [MapItem.weight_invalid hinvalid, Nat.cast_zero, add_zero])
  exact ⟨h.update rfl hok, .replace hit.1 rfl⟩

theorem lookup_read {conf : Conf} {buf : Buffer} {obj : Object} (h : MapOk conf buf)
    (hs : Sized buf) (hval : obj.val ≠ []) :
    ∃ r, lookup conf buf obj .read = some (buf, r) ∧
      ∀ ref, r = some ref ↔ ∃ it, buf.Holds ref it ∧ it.key = obj.key ∧ it.status ≠ .deleted := by
  by_cases hmiss : ∀ ref it, buf.Holds ref it → it.key ≠ obj.key
  · refine ⟨none, lookup_miss h hmiss (Or.inl rfl), fun ref => ⟨fun h0 => (by cases h0), ?_⟩⟩
    rintro ⟨it, hit, hkey, -⟩
    exact absurd hkey (hmiss ref it hit)
  · push Not at hmiss
    obtain ⟨ref, it, hit, hkey⟩ := hmiss
    have hunique : ∀ r x, buf.Holds r x → x.key = obj.key → r = ref ∧ x = it :=
      fun r x hx hxk => h.unique hx hit (hxk.trans hkey.symm)
    rw [lookup_hit h hit hkey]
    by_cases hdel : it.status = .deleted
    · refine ⟨none, ?_, fun r => ⟨fun h0 => (by cases h0), ?_⟩⟩
      · simp only [lookupHit, if_pos (Or.inr hdel)]
      · rintro ⟨x, hx, hxk, hxd⟩
        rw [(hunique r x hx hxk).2] at hxd
        exact absurd hdel hxd
    · have hlen : obj.val.length ≠ 0 := fun h0 => hval (List.length_eq_zero_iff.1 h0)
      have hread : (mapRead buf it obj.val.length).2 ≠ 0 := by
        have hmin : (mapRead buf it obj.val.length).2 = min it.valSize obj.val.length := by
          rw [mapRead]
          split <;> rfl
        rw [hmin]
        have := hs ref it hit hdel
        omega
      refine ⟨some ref, ?_, fun r => ⟨?_, ?_⟩⟩
      · have hstatus : ¬ (it.status = .invalid ∨ it.status = .deleted) := not_or.2 ⟨hit.2, hdel⟩
        simp only [lookupHit, if_neg hstatus, if_neg hlen, if_neg hread]
      · intro h0
        cases h0
        exact ⟨it, hit, hkey, hdel⟩
      · rintro ⟨x, hx, hxk, -⟩
        rw [(hunique r x hx hxk).1]

/-! ### The flusher and the reset -/

theorem flushEntry_cases {conf : Conf} {buf buf' : Buffer} {ref : ItemRef} {it : MapItem}
    {keyBuff sub stop : Bool} (h : flushEntry conf buf ref it keyBuff = some (buf', sub, stop)) :
    buf' = buf ∧ sub = false ∨
      (it.status = .deleted ∧ sub = false ∧
        buf' = buf.withBucket buf.map ref.bucket ((buf.map.table ref.bucket).replace ref.index
          { it with status := .invalid } ((buf.map.table ref.bucket).validNrEntries - 1))) ∨
      (it.status = .valid ∧ sub = true ∧
        buf' = { buf.withBucket buf.map ref.bucket ((buf.map.table ref.bucket).replace ref.index
            { it with status := .flushing } (buf.map.table ref.bucket).validNrEntries) with
          nrPendingIo := buf.nrPendingIo + 1 }) := by
  cases hs : it.status with
  | deleted =>
    simp only [flushEntry, hs] at h
    split_ifs at h
    cases h
    refine Or.inr (Or.inl ⟨rfl, rfl, ?_⟩)
    simp only [Buffer.setItem, Buffer.setBucket, Function.update_self, Function.update_idem]
    rfl
  | valid =>
    simp only [flushEntry, hs] at h
    split_ifs at h
    · cases h
      exact Or.inl ⟨rfl, rfl⟩
    · cases h
      exact Or.inr (Or.inr ⟨rfl, rfl, rfl⟩)
  | invalid =>
    simp only [flushEntry, hs] at h
    cases h
    exact Or.inl ⟨rfl, rfl⟩
  | flushing =>
    simp only [flushEntry, hs] at h
    cases h
    exact Or.inl ⟨rfl, rfl⟩
  | flushed =>
    simp only [flushEntry, hs] at h
    cases h
    exact Or.inl ⟨rfl, rfl⟩

theorem completeEntry_cases {buf buf' : Buffer} {ref : ItemRef} {it : MapItem}
    (h : completeEntry buf ref it = some buf') :
    it.status = .flushing ∧
      buf' = { buf.withBucket buf.map ref.bucket ((buf.map.table ref.bucket).replace ref.index
          { it with status := .flushed } (buf.map.table ref.bucket).validNrEntries) with
        nrPendingIo := buf.nrPendingIo - 1
        nrObjectsInserted := buf.nrObjectsInserted - 1 } := by
  rw [completeEntry] at h
  split_ifs at h with hs
  cases h
  exact ⟨hs, rfl⟩

theorem Bucket.reset_reset (b : Bucket) : b.reset.reset = b.reset := by
  simp [Bucket.reset, List.map_map, Function.comp_def]

theorem reinitLoop_table {fuel : ℕ} {m m' : WalMap} {o : Option ℕ}
    (h : reinitLoop fuel m o = some m') (i : ℕ) :
    m'.table i = m.table i ∨ m'.table i = (m.table i).reset := by
  induction fuel generalizing m o with
  | zero =>
    cases o with
    | none =>
      cases h
      exact Or.inl rfl
    | some b => cases h
  | succ fuel ih =>
    cases o with
    | none =>
      cases h
      exact Or.inl rfl
    | some b =>
      have hstep := ih h
      dsimp only at hstep
      by_cases hb : i = b
      · subst hb
        rw [Function.update_self, Bucket.reset_reset] at hstep
        exact Or.inr (hstep.elim id id)
      · rwa [Function.update_of_ne hb] at hstep

theorem Bucket.reset_not_live {b : Bucket} {j : ℕ} {it : MapItem}
    (h : b.reset.entry[j]? = some it) : ¬ it.Live := by
  simp only [Bucket.reset, List.getElem?_map, Option.map_eq_some_iff] at h
  obtain ⟨x, -, rfl⟩ := h
  exact fun hl => hl rfl

theorem Bucket.Ok.reset {conf : Conf} {i : ℕ} {b : Bucket} (h : b.Ok conf i) :
    b.reset.Ok conf i := by
  refine ⟨?_, ?_, ?_, ?_, ?_⟩
  · simpa [Bucket.reset] using h.ne_nil
  · simpa [Bucket.reset] using h.total
  · have hzero : liveCount b.reset.entry = 0 := by
      refine List.countP_eq_zero.2 fun it hit => ?_
      obtain ⟨j, hj⟩ := List.mem_iff_getElem?.1 hit
      simpa using Bucket.reset_not_live hj
    rw [hzero]
    rfl
  · intro j k it it' hj _ hlive
    exact absurd hlive (Bucket.reset_not_live hj)
  · intro j it hj hlive
    exact absurd hlive (Bucket.reset_not_live hj)

theorem reinit_spec {conf : Conf} {buf : Buffer} {m : WalMap} (h : MapOk conf buf)
    (hm : reinit conf buf.map = some m) :
    MapOk conf { buf with map := m } ∧
      ∀ ref it, ({ buf with map := m } : Buffer).Holds ref it → buf.Holds ref it := by
  obtain ⟨m₁, hloop, rfl⟩ := Option.map_eq_some_iff.1 hm
  have htable := reinitLoop_table hloop
  refine ⟨fun i => ?_, ?_⟩
  · show (m₁.table i).Ok conf i
    rcases htable i with hi | hi
    · rw [hi]
      exact h i
    · rw [hi]
      exact (h i).reset
  · rintro ⟨i, j⟩ it ⟨hit, hlive⟩
    have hit' : (m₁.table i).entry[j]? = some it := hit
    rcases htable i with hi | hi
    · rw [hi] at hit'
      exact ⟨hit', hlive⟩
    · rw [hi] at hit'
      exact absurd hlive (Bucket.reset_not_live hit')

/-! ### Runs -/

/-- What the callers and the theorem ask of a call: a deletion only with a log, as the code
asserts, a value that is not empty for a write and a buffer that is not empty for a read. -/
def CallOk (conf : Conf) : MapEvent → Prop
  | .lookup obj ty =>
      (ty = .delete → conf.logEnabled = true) ∧
        ((ty = .writeAppend ∨ ty = .writeInplace ∨ ty = .read) → obj.val ≠ [])
  | _ => True

instance (conf : Conf) (ev : MapEvent) : Decidable (CallOk conf ev) :=
  match ev with
  | .lookup obj ty =>
      inferInstanceAs (Decidable ((ty = .delete → conf.logEnabled = true) ∧
        ((ty = .writeAppend ∨ ty = .writeInplace ∨ ty = .read) → obj.val ≠ [])))
  | .flush .. => isTrue trivial
  | .complete .. => isTrue trivial
  | .reinit => isTrue trivial

/-- The invariant of the runs. -/
structure MapInv (conf : Conf) (buf : Buffer) : Prop where
  ok : MapOk conf buf
  sized : Sized buf

/-- Every lookup comes back with its effect, and keeps the invariant. -/
theorem lookup_spec {conf : Conf} {buf : Buffer} {obj : Object} {ty : LookupType}
    (h : MapInv conf buf) (hcall : CallOk conf (.lookup obj ty)) :
    ∃ buf' r, lookup conf buf obj ty = some (buf', r) ∧ MapInv conf buf' ∧
      SameOthers buf buf' obj.key ∧ LookupEffect buf buf' obj r ty := by
  obtain ⟨hdel, hval⟩ := hcall
  have hwrite : ∀ {ty}, (ty = .writeAppend ∨ ty = .writeInplace) → obj.val ≠ [] →
      ∃ buf' r, lookup conf buf obj ty = some (buf', r) ∧ MapInv conf buf' ∧
        SameOthers buf buf' obj.key ∧ LookupEffect buf buf' obj r ty := by
    intro ty hty hv
    obtain ⟨buf', ref, it', old, hlook, hw⟩ := lookup_write obj h.ok hty
    have hputs := hw.change.puts
    have hlen : obj.val.length ≠ 0 := fun h0 => hv (List.length_eq_zero_iff.1 h0)
    have hsized : Sized buf' := hputs.sized h.sized fun _ _ => by rwa [hw.size]
    have heffect : ∃ ref' it, some ref = some ref' ∧ buf'.Holds ref' it ∧ it.key = obj.key ∧
        it.status = .valid ∧ it.valSize = obj.val.length := by
      refine ⟨ref, it', rfl, (hputs ref it').2 ?_, hw.key, hw.status, hw.size⟩
      rw [if_pos rfl]
      exact ⟨rfl, live_of_valid hw.status⟩
    refine ⟨buf', some ref, hlook, ⟨hw.ok, hsized⟩,
      hputs.sameOthers hw.key fun x hx => hw.old_key x (hw.change.old hx) hx.2, ?_⟩
    rcases hty with rfl | rfl
    · exact heffect
    · exact heffect
  cases ty with
  | writeAppend => exact hwrite (Or.inl rfl) (hval (Or.inl rfl))
  | writeInplace => exact hwrite (Or.inr rfl) (hval (Or.inr (Or.inl rfl)))
  | read =>
    obtain ⟨r, hlook, hr⟩ := lookup_read h.ok h.sized (hval (Or.inr (Or.inr rfl)))
    exact ⟨buf, r, hlook, h, fun _ _ _ => Iff.rfl, rfl, hr⟩
  | delete =>
    rcases lookup_delete obj h.ok (hdel rfl) with ⟨hlook, hall⟩ | ⟨ref, it, hit, hkey, hne, hlook⟩
    · exact ⟨buf, none, hlook, h, fun _ _ _ => Iff.rfl, hall⟩
    · obtain ⟨hok, it', hchange, hkey', hstatus⟩ := deletedBuf_spec obj h.ok hit
      have hputs := hchange.puts
      refine ⟨_, _, hlook, ⟨hok, hputs.sized h.sized fun _ hd => absurd hstatus hd⟩,
        hputs.sameOthers (hkey'.trans hkey) ?_, ?_⟩
      · intro x hx
        obtain rfl : it = x := Option.some.inj (hchange.old hx)
        exact hkey
      · intro ref' x hx hxk
        rw [(hputs.only hok (live_of_deleted hstatus) hx (hxk.trans (hkey'.trans hkey).symm)).2]
        exact hstatus
  | invalidate =>
    rcases lookup_invalidate obj h.ok with ⟨hlook, hmiss⟩ | ⟨ref, it, hit, hkey, hlook⟩
    · exact ⟨buf, none, hlook, h, fun _ _ _ => Iff.rfl,
        fun ref it hit hkey => absurd hkey (hmiss ref it hit)⟩
    · by_cases hfl : it.status = .flushing
      · rw [if_pos hfl] at hlook
        refine ⟨buf, some ref, hlook, h, fun _ _ _ => Iff.rfl, fun r x hx hxk => ?_⟩
        rw [(h.ok.unique hx hit (hxk.trans hkey.symm)).2]
        exact hfl
      · rw [if_neg hfl] at hlook
        obtain ⟨hok, hchange⟩ := invalidated_spec h.ok hit
        have hputs := hchange.puts
        refine ⟨_, _, hlook, ⟨hok, hputs.sized h.sized fun hl => absurd rfl hl⟩,
          hputs.sameOthers hkey ?_, ?_⟩
        · intro x hx
          obtain rfl : it = x := Option.some.inj (hchange.old hx)
          exact hkey
        · intro r x hx hxk
          have hx' := (hputs r x).1 hx
          split_ifs at hx' with hr
          · exact absurd rfl hx'.2
          · exact absurd (h.ok.unique hx' hit (hxk.trans hkey.symm)).1 hr

theorem MapInv.replace {conf : Conf} {buf buf' : Buffer} {ref : ItemRef} {it : MapItem}
    {s : ItemStatus} {v : ℤ} (h : MapInv conf buf) (hit : buf.item? ref = some it)
    (hlive : it.Live) (hs : s = .invalid ∨ it.status ≠ .deleted)
    (hv : v = (buf.map.table ref.bucket).validNrEntries - 1 +
      ({ it with status := s } : MapItem).weight)
    (htable : buf'.map.table = Function.update buf.map.table ref.bucket
      ((buf.map.table ref.bucket).replace ref.index { it with status := s } v)) :
    MapInv conf buf' := by
  refine ⟨h.ok.update htable ((h.ok ref.bucket).replace_same hit hlive rfl hv), ?_⟩
  refine (puts_replace hit htable).sized h.sized fun hl _ => ?_
  rcases hs with rfl | hs
  · exact absurd rfl hl
  · exact h.sized ref it ⟨hit, hlive⟩ hs

theorem mapStep_inv {conf : Conf} {buf buf' : Buffer} {ev : MapEvent} (h : MapInv conf buf)
    (hcall : CallOk conf ev) (hstep : mapStep conf buf ev = some buf') : MapInv conf buf' := by
  cases ev with
  | lookup obj ty =>
    obtain ⟨buf₁, r, hlook, hinv, -⟩ := lookup_spec h hcall
    simp only [mapStep, hlook, Option.map_some, Option.some.injEq] at hstep
    exact hstep ▸ hinv
  | flush ref keyBuff =>
    simp only [mapStep] at hstep
    obtain ⟨it, hit, hstep⟩ := Option.bind_eq_some_iff.1 hstep
    obtain ⟨⟨buf₁, sub, stop⟩, hflush, rfl⟩ := Option.map_eq_some_iff.1 hstep
    rcases flushEntry_cases hflush with ⟨rfl, -⟩ | ⟨hs, -, rfl⟩ | ⟨hs, -, rfl⟩
    · exact h
    · refine h.replace hit (live_of_deleted hs) (Or.inl rfl) ?_ rfl
      rw [MapItem.weight_invalid (fun hl => hl rfl), Nat.cast_zero, add_zero]
    · refine h.replace hit (live_of_valid hs) (Or.inr (by rw [hs]; decide)) ?_ rfl
      rw [MapItem.weight_live (live_of_flushing rfl), Nat.cast_one, sub_add_cancel]
  | complete ref =>
    simp only [mapStep] at hstep
    obtain ⟨it, hit, hstep⟩ := Option.bind_eq_some_iff.1 hstep
    obtain ⟨hs, rfl⟩ := completeEntry_cases hstep
    refine h.replace hit (live_of_flushing hs) (Or.inr (by rw [hs]; decide)) ?_ rfl
    rw [MapItem.weight_live (live_of_flushed rfl), Nat.cast_one, sub_add_cancel]
  | reinit =>
    simp only [mapStep] at hstep
    obtain ⟨m, hm, rfl⟩ := Option.map_eq_some_iff.1 hstep
    obtain ⟨hok, hholds⟩ := reinit_spec h.ok hm
    exact ⟨hok, fun ref it hit hd => h.sized ref it (hholds ref it hit) hd⟩

theorem mapInv_create {conf : Conf} {buf : Buffer} (h : buf.map = mapCreate) : MapInv conf buf := by
  have hnone : ∀ ref it, ¬ buf.Holds ref it := by
    rintro ⟨i, j⟩ it ⟨hit, hlive⟩
    simp only [Buffer.item?, h, mapCreate] at hit
    have hmem := List.mem_of_getElem? hit
    simp only [List.mem_cons, List.not_mem_nil, or_false, or_self] at hmem
    exact hlive (by rw [hmem]; rfl)
  refine ⟨fun i => ?_, fun ref it hit => absurd hit (hnone ref it)⟩
  have hb : buf.map.table i = ⟨[allocateItem, allocateItem, allocateItem], 0, 3⟩ := by
    rw [h]
    rfl
  refine ⟨?_, ?_, ?_, ?_, ?_⟩
  · rw [hb]
    exact List.cons_ne_nil _ _
  · rw [hb]
    rfl
  · rw [hb]
    rfl
  · intro j k it it' hj _ hlive
    exact absurd ⟨hj, hlive⟩ (hnone ⟨i, j⟩ it)
  · intro j it hj hlive
    exact absurd ⟨hj, hlive⟩ (hnone ⟨i, j⟩ it)

/-- **The map refines a finite map.** After every run of calls the counters of every bucket agree
with its chain, a key has at most one live item, and every lookup ends without following a null
pointer, leaves the items of the other keys alone and has the effect of its type. -/
theorem refines_of_run (conf : Conf) (buf₀ buf : Buffer) (evs : List MapEvent)
    (hcreate : buf₀.map = mapCreate) (hcalls : ∀ ev ∈ evs, CallOk conf ev)
    (hrun : Run.run (mapStep conf) buf₀ evs = some buf) :
    (∀ i, (buf.map.table i).Ok conf i) ∧
      ∀ obj ty, CallOk conf (.lookup obj ty) →
        ∃ buf' r, lookup conf buf obj ty = some (buf', r) ∧ SameOthers buf buf' obj.key ∧
          LookupEffect buf buf' obj r ty := by
  have hadm : Run.Admissible (mapStep conf) (fun _ ev => CallOk conf ev) buf₀ evs :=
    (Run.admissible_true buf₀ evs).imp fun _ ev hev _ => hcalls ev hev
  have hstep : ∀ s ev s', MapInv conf s → CallOk conf ev → mapStep conf s ev = some s' →
      MapInv conf s' := fun _ _ _ => mapStep_inv
  have hinv : MapInv conf buf := Run.run_inv hstep (mapInv_create hcreate) hadm hrun
  refine ⟨hinv.ok, fun obj ty hcall => ?_⟩
  obtain ⟨buf', r, hlook, -, hothers, heffect⟩ := lookup_spec hinv hcall
  exact ⟨buf', r, hlook, hothers, heffect⟩

/-! ### A small buffer -/

/-- A map of two buckets, in which a key goes by its first byte. -/
def smallConf : Conf where
  hash := fun key => (key.headD 0).toNat
  nrBuckets := 2
  logEnabled := true
  fuel := 4
  nrBuckets_pos := by decide

/-- A buffer that was just created. -/
def smallBuffer : Buffer where
  startAddr := 0
  endAddr := 65536
  currPos := 4096
  dumpInfo := ⟨false, 1024, 0, dumpNotReady⟩
  map := mapCreate
  mem := fun _ => none
  nrObjectsInserted := 0
  nrPendingIo := 0

/-- Two keys of one bucket, one of which is overwritten, deleted and taken out by the flusher. -/
def someCalls : List MapEvent :=
  [.lookup ⟨[1], [7, 7], 0⟩ .writeAppend, .lookup ⟨[3], [5], 1⟩ .writeAppend,
    .lookup ⟨[1], [8], 2⟩ .writeAppend, .lookup ⟨[1], [], 3⟩ .delete, .flush ⟨1, 0⟩ true,
    .flush ⟨1, 1⟩ true, .complete ⟨1, 1⟩, .lookup ⟨[3], [], 4⟩ .invalidate]

theorem refines_someCalls :
    ∃ buf, Run.run (mapStep smallConf) smallBuffer someCalls = some buf ∧
      (∀ i, (buf.map.table i).Ok smallConf i) ∧
      ∀ obj ty, CallOk smallConf (.lookup obj ty) →
        ∃ buf' r, lookup smallConf buf obj ty = some (buf', r) ∧ SameOthers buf buf' obj.key ∧
          LookupEffect buf buf' obj r ty := by
  have hsome : (Run.run (mapStep smallConf) smallBuffer someCalls).isSome = true := by decide +kernel
  obtain ⟨buf, hrun⟩ := Option.isSome_iff_exists.1 hsome
  exact ⟨buf, hrun, refines_of_run smallConf smallBuffer buf someCalls rfl (by decide) hrun⟩

/-- After a write of an empty value the item of the key is valid, but a read does not find it. -/
theorem not_refines_emptyValue :
    ∃ buf, Run.run (mapStep smallConf) smallBuffer [.lookup ⟨[1], [], 0⟩ .writeAppend] = some buf ∧
      ¬ ∃ buf' r, lookup smallConf buf ⟨[1], [0], 1⟩ .read = some (buf', r) ∧
        SameOthers buf buf' [1] ∧ LookupEffect buf buf' ⟨[1], [0], 1⟩ r .read := by
  refine ⟨_, rfl, ?_⟩
  rintro ⟨buf', r, hlook, -, -, hr⟩
  have hnone : r = none := (congrArg Prod.snd (Option.some.inj hlook)).symm
  have hfound := (hr ⟨1, 0⟩).2 ⟨⟨[1], 0, 4096, .valid⟩, ⟨rfl, by decide⟩, rfl, by decide⟩
  rw [hnone] at hfound
  cases hfound

end DssSdk.Wal
