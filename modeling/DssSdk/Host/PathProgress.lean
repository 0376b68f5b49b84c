import DssSdk.Host.PathSelection

/-!
# The selection of a path ends

* `Ready`: the state of the load balancer fits the paths;
* `GetPathMeets`: the selection ends, with a path that is up and was not visited if there is one, and
  with the flag otherwise;
* `offered`: the one path that the failover and the least load policies offer;
* `getPathMeets_iff`: when a selection meets its purpose.

Only the round-robin policies move on by themselves. The others offer the same path again as long as
the loads and the states stay as they are, so that the selection does not end when this path is down or
was visited. When every path was visited the last one is returned, without the flag.
-/

namespace DssSdk.Host

/-! ### Lookups -/

/-- The hashes of the paths. -/
def NkvTarget.hashes (t : NkvTarget) : List UInt64 := t.pathMap.map Prod.fst

/-- A path that is up. -/
def Live (t : NkvTarget) (h : UInt64) : Prop := ∃ p, t.find h = some p ∧ p.pathStatus = true

/-- The state of the load balancer fits the paths. -/
structure Ready (t : NkvTarget) : Prop where
  nodup : t.hashes.Nodup
  array : ∀ i, i < t.pathMap.length → t.pathArray[i]? = t.hashes[i]?
  count : t.pathCount = t.pathMap.length
  preferred : t.pathMap ≠ [] → t.preferredPathHash ∈ t.hashes
  fits : t.pathMap.length ≤ maxPathPerSubsys

theorem NkvTarget.find_eq_some {t : NkvTarget} {h : UInt64} {p : TargetPath}
    (hf : t.find h = some p) : (h, p) ∈ t.pathMap := by
  obtain ⟨e, he, rfl⟩ := Option.map_eq_some_iff.1 hf
  have hkey := List.find?_some he
  simp only [decide_eq_true_eq] at hkey
  rw [← hkey]
  exact List.mem_of_find?_eq_some he

theorem NkvTarget.find_of_mem {t : NkvTarget} {e : UInt64 × TargetPath} (hnd : t.hashes.Nodup)
    (he : e ∈ t.pathMap) : t.find e.1 = some e.2 := by
  rw [NkvTarget.find]
  cases hf : t.pathMap.find? fun e' => e'.1 = e.1 with
  | none => exact absurd (List.find?_eq_none.1 hf e he) (by simp)
  | some e' =>
    have hkey := List.find?_some hf
    simp only [decide_eq_true_eq] at hkey
    rw [List.inj_on_of_nodup_map hnd (List.mem_of_find?_eq_some hf) he hkey]
    rfl

theorem NkvTarget.mem_hashes {t : NkvTarget} {h : UInt64} :
    h ∈ t.hashes ↔ ∃ p, t.find h = some p := by
  constructor
  · intro hh
    obtain ⟨e, he, rfl⟩ := List.mem_map.1 hh
    cases hf : t.pathMap.find? fun e' => e'.1 = e.1 with
    | none => exact absurd (List.find?_eq_none.1 hf e he) (by simp)
    | some e' => exact ⟨e'.2, by rw [NkvTarget.find, hf]; rfl⟩
  · rintro ⟨p, hp⟩
    exact List.mem_map_of_mem (NkvTarget.find_eq_some hp)

theorem Live.mem {t : NkvTarget} {h : UInt64} (hl : Live t h) : h ∈ t.hashes := by
  obtain ⟨p, hp, -⟩ := hl
  exact NkvTarget.mem_hashes.2 ⟨p, hp⟩

theorem Ready.card_lt {t : NkvTarget} {visited : Finset UInt64} {h : UInt64} (hr : Ready t)
    (hv : visited ⊆ t.hashes.toFinset) (hh : h ∈ t.hashes) (hnew : h ∉ visited) :
    visited.card < t.pathCount := by
  have hlt : visited.card < t.hashes.toFinset.card := by
    apply Finset.card_lt_card
    rw [Finset.ssubset_iff_of_subset hv]
    exact ⟨h, List.mem_toFinset.2 hh, hnew⟩
  rw [List.toFinset_card_of_nodup hr.nodup, NkvTarget.hashes, List.length_map] at hlt
  rw [hr.count]
  exact hlt

theorem Ready.exists_unvisited {t : NkvTarget} {visited : Finset UInt64} (hr : Ready t)
    (hlt : visited.card < t.pathCount) : ∃ h ∈ t.hashes, h ∉ visited := by
  by_contra hall
  push Not at hall
  have hle : t.hashes.toFinset.card ≤ visited.card :=
    Finset.card_le_card fun h hh => hall h (List.mem_toFinset.1 hh)
  rw [List.toFinset_card_of_nodup hr.nodup, NkvTarget.hashes, List.length_map, ← hr.count] at hle
  omega

/-! ### Fuel -/

theorem loadBalanceGetPath_mono {fuel k : ℕ} {t : NkvTarget} {visited : Finset UInt64} {sel : UInt64}
    {r : NkvTarget × Finset UInt64 × Selection} (h : loadBalanceGetPath fuel t visited sel = some r) :
    loadBalanceGetPath (fuel + k) t visited sel = some r := by
  induction fuel generalizing t visited sel with
  | zero => cases h
  | succ fuel ih =>
    rw [show fuel + 1 + k = (fuel + k) + 1 by omega]
    rw [loadBalanceGetPath] at h ⊢
    split_ifs at h ⊢ with hcard
    · exact h
    · cases hex : loadBalanceExecute t with
      | invalid => rw [hex] at h; exact h
      | fault => rw [hex] at h; exact h
      | selected path t' =>
        rw [hex] at h
        simp only at h ⊢
        split_ifs at h ⊢ with hmem
        · exact ih h
        · cases hf : t'.find path with
          | none => rw [hf] at h; exact h
          | some p =>
            rw [hf] at h
            simp only at h ⊢
            split_ifs at h ⊢ with hup
            · exact h
            · exact ih h

theorem sendLoop_mono {io : IoCall} {fuel k : ℕ} {t : NkvTarget} {visited : Finset UInt64}
    {len : UInt64} {tried : List UInt64} {r : NkvTarget × List UInt64 × SendEnd}
    (h : sendLoop io fuel t visited len tried = some r) :
    sendLoop io (fuel + k) t visited len tried = some r := by
  induction fuel generalizing t visited len tried with
  | zero => cases h
  | succ fuel ih =>
    rw [show fuel + 1 + k = (fuel + k) + 1 by omega]
    rw [sendLoop] at h ⊢
    cases hget : loadBalanceGetPath (fuel + 1) t visited 0 with
    | none => rw [hget] at h; cases h
    | some g =>
      have hmono := loadBalanceGetPath_mono (k := k) hget
      rw [show fuel + 1 + k = fuel + k + 1 by omega] at hmono
      rw [hget] at h
      rw [hmono]
      obtain ⟨t', visited', sel⟩ := g
      cases sel with
      | flagged => exact h
      | fault => exact h
      | path x =>
        simp only at h ⊢
        cases hf : t'.find x with
        | none => rw [hf] at h; exact h
        | some p =>
          rw [hf] at h
          simp only at h ⊢
          by_cases hdown : p.pathStatus = false
          · rw [if_pos hdown] at h ⊢
            exact h
          rw [if_neg hdown] at h ⊢
          by_cases hop : io.op = .unknown
          · rw [if_pos hop] at h ⊢
            exact h
          rw [if_neg hop] at h ⊢
          by_cases hretry : io.sync = true ∧ (io.outcome tried.length).status = .errIo ∧
              visited'.card < t'.pathCount
          · rw [if_pos hretry] at h ⊢
            exact ih h
          · rw [if_neg hretry] at h ⊢
            exact h

/-! ### Round robin -/

/-- The target with another value of the shared counter. -/
def NkvTarget.withCount (t : NkvTarget) (c : UInt64) : NkvTarget := { t with lbRrCount := c }

@[simp] theorem NkvTarget.withCount_hashes (t : NkvTarget) (c : UInt64) :
    (t.withCount c).hashes = t.hashes := rfl

@[simp] theorem NkvTarget.withCount_find (t : NkvTarget) (c h : UInt64) :
    (t.withCount c).find h = t.find h := rfl

@[simp] theorem NkvTarget.withCount_pathCount (t : NkvTarget) (c : UInt64) :
    (t.withCount c).pathCount = t.pathCount := rfl

@[simp] theorem NkvTarget.withCount_withCount (t : NkvTarget) (c d : UInt64) :
    (t.withCount c).withCount d = t.withCount d := rfl

theorem Ready.withCount {t : NkvTarget} (h : Ready t) (c : UInt64) : Ready (t.withCount c) :=
  ⟨h.nodup, h.array, h.count, h.preferred, h.fits⟩

@[simp] theorem live_withCount {t : NkvTarget} {c h : UInt64} : Live (t.withCount c) h ↔ Live t h :=
  Iff.rfl

theorem execute_roundRobin {t : NkvTarget} (hr : Ready t) (hpol : t.policy ≤ 1)
    (hpos : 0 < t.pathCount) :
    ∃ h, t.hashes[t.lbRrCount.toNat % t.pathCount]? = some h ∧ h ∈ t.hashes ∧
      loadBalanceExecute t = .selected h (t.withCount (t.lbRrCount + 1)) := by
  have hlt : t.lbRrCount.toNat % t.pathCount < t.pathMap.length := by
    rw [← hr.count]
    exact Nat.mod_lt _ hpos
  have hlt' : t.lbRrCount.toNat % t.pathCount < t.hashes.length := by
    rw [NkvTarget.hashes, List.length_map]
    exact hlt
  have hget := List.getElem?_eq_getElem hlt'
  refine ⟨_, hget, List.getElem_mem hlt', ?_⟩
  have harr := (hr.array _ hlt).trans hget
  have hcases : t.policy = 0 ∨ t.policy = 1 := by omega
  rcases hcases with hp | hp <;> simp only [loadBalanceExecute, hp, harr, NkvTarget.withCount]

/-- The rounds reach a path that was not visited: the counter comes to its index at the latest after
`d` of them. -/
theorem getPath_reach {t : NkvTarget} (hr : Ready t) (hpol : t.policy ≤ 1)
    {visited : Finset UInt64} (hv : visited ⊆ t.hashes.toFinset) {i : ℕ} {k : UInt64}
    (hi : t.hashes[i]? = some k) (hk : k ∉ visited) (d : ℕ) :
    ∀ (c sel : UInt64), c + UInt64.ofNat d = UInt64.ofNat i → ∃ e c' h p, t.find h = some p ∧
      h ∉ visited ∧ ∀ fuel, loadBalanceGetPath (fuel + e + 1) (t.withCount c) visited sel =
        if p.pathStatus then some (t.withCount c', insert h visited, .path h)
        else loadBalanceGetPath fuel (t.withCount c') (insert h visited) h := by
  have hkmem : k ∈ t.hashes := List.mem_of_getElem? hi
  have hcard := hr.card_lt hv hkmem hk
  have hilt : i < t.pathCount := by
    have := (List.getElem?_eq_some_iff.1 hi).1
    rwa [NkvTarget.hashes, List.length_map, ← hr.count] at this
  have hsmall : t.pathCount ≤ 4 := hr.count ▸ hr.fits
  -- a round that selects a path that was not visited
  have hround : ∀ (c sel h : UInt64), h ∈ t.hashes → h ∉ visited →
      loadBalanceExecute (t.withCount c) = .selected h (t.withCount (c + 1)) →
      ∃ e c' h p, t.find h = some p ∧ h ∉ visited ∧ ∀ fuel,
        loadBalanceGetPath (fuel + e + 1) (t.withCount c) visited sel =
          if p.pathStatus then some (t.withCount c', insert h visited, .path h)
          else loadBalanceGetPath fuel (t.withCount c') (insert h visited) h := by
    intro c sel h hmem hnew hex
    obtain ⟨p, hp⟩ := NkvTarget.mem_hashes.1 hmem
    refine ⟨0, c + 1, h, p, hp, hnew, fun fuel => ?_⟩
    rw [loadBalanceGetPath, if_neg (by simpa using hcard), hex]
    simp only [if_neg hnew, NkvTarget.withCount_find, hp]
  induction d with
  | zero =>
    intro c sel hc
    obtain ⟨h, hget, hmem, hex⟩ := execute_roundRobin (hr.withCount c) hpol
      (show 0 < t.pathCount by omega)
    have hci : c.toNat = i := by
      have hc' : c = UInt64.ofNat i := by simpa using hc
      rw [hc', UInt64.toNat_ofNat']
      exact Nat.mod_eq_of_lt (by omega)
    have hhk : h = k := by
      have hget' : t.hashes[c.toNat % t.pathCount]? = some h := hget
      rw [hci, Nat.mod_eq_of_lt hilt, hi] at hget'
      exact (Option.some.inj hget').symm
    subst hhk
    exact hround c sel h hmem hk hex
  | succ d ih =>
    intro c sel hc
    obtain ⟨h, -, hmem, hex⟩ := execute_roundRobin (hr.withCount c) hpol
      (show 0 < t.pathCount by omega)
    by_cases hnew : h ∈ visited
    · obtain ⟨e, c', h', p, hp, hnew', hrun⟩ := ih (c + 1) h (by
        rw [← hc, show UInt64.ofNat (d + 1) = UInt64.ofNat d + 1 by simp]
        grind)
      refine ⟨e + 1, c', h', p, hp, hnew', fun fuel => ?_⟩
      rw [loadBalanceGetPath, if_neg (by simpa using hcard), hex]
      simp only [if_pos hnew]
      exact hrun fuel
    · exact hround c sel h hmem hnew hex

theorem getPath_roundRobin {t : NkvTarget} (hr : Ready t) (hpol : t.policy ≤ 1) (n : ℕ) :
    ∀ (c sel : UInt64) (visited : Finset UInt64), visited ⊆ t.hashes.toFinset →
      t.pathCount - visited.card = n →
      ∃ fuel c' visited' h, loadBalanceGetPath fuel (t.withCount c) visited sel =
          some (t.withCount c', visited', .path h) ∧
        visited ⊆ visited' ∧ visited' ⊆ t.hashes.toFinset ∧
        (Live t h ∧ h ∉ visited ∧ h ∈ visited' ∨
          (∀ h, Live t h → h ∈ visited) ∧
            (t.pathCount ≤ visited.card ∧ h = sel ∨ h ∈ t.hashes ∧ ¬ Live t h)) := by
  induction n with
  | zero =>
    intro c sel visited hv hn
    refine ⟨1, c, visited, sel, ?_, Finset.Subset.refl _, hv, Or.inr ⟨?_, Or.inl ⟨by omega, rfl⟩⟩⟩
    · rw [loadBalanceGetPath, if_pos (show (t.withCount c).pathCount ≤ visited.card by simp; omega)]
    · intro h hl
      by_contra hnew
      have := hr.card_lt hv hl.mem hnew
      omega
  | succ n ih =>
    intro c sel visited hv hn
    obtain ⟨k, hk, hkv⟩ := hr.exists_unvisited (show visited.card < t.pathCount by omega)
    obtain ⟨i, hi⟩ := List.mem_iff_getElem?.1 hk
    obtain ⟨e, c', h, p, hp, hnew, hrun⟩ := getPath_reach hr hpol hv hi hkv (UInt64.ofNat i - c).toNat
      c sel (by rw [UInt64.ofNat_toNat]; grind)
    have hmem : h ∈ t.hashes := NkvTarget.mem_hashes.2 ⟨p, hp⟩
    have hv' : insert h visited ⊆ t.hashes.toFinset :=
      Finset.insert_subset (List.mem_toFinset.2 hmem) hv
    by_cases hup : p.pathStatus = true
    · refine ⟨0 + e + 1, c', insert h visited, h, ?_, Finset.subset_insert h visited, hv', ?_⟩
      · rw [hrun 0, if_pos hup]
      · exact Or.inl ⟨⟨p, hp, hup⟩, hnew, Finset.mem_insert_self h visited⟩
    · have hdown : ¬ Live t h := by
        rintro ⟨q, hq, hqup⟩
        rw [hp] at hq
        cases hq
        exact hup hqup
      obtain ⟨fuel, c'', visited', h', hget, hsub, hsub', hend⟩ :=
        ih c' h (insert h visited) hv' (by rw [Finset.card_insert_of_notMem hnew]; omega)
      refine ⟨fuel + e + 1, c'', visited', h', ?_, (Finset.subset_insert h visited).trans hsub,
        hsub', ?_⟩
      · rw [hrun fuel, if_neg hup]
        exact hget
      · rcases hend with ⟨hl, hn', hin⟩ | ⟨hall, hend⟩
        · exact Or.inl ⟨hl, fun hv => hn' (Finset.mem_insert_of_mem hv), hin⟩
        · refine Or.inr ⟨fun g hg => ?_, Or.inr ?_⟩
          · rcases Finset.mem_insert.1 (hall g hg) with rfl | hgv
            · exact absurd hg hdown
            · exact hgv
          · rcases hend with ⟨-, rfl⟩ | hend
            · exact ⟨hmem, hdown⟩
            · exact hend

/-! ### The other policies -/

/-- The path that the failover policy and the least load policies offer. -/
def offered (t : NkvTarget) : Option UInt64 :=
  match t.policy with
  | 2 =>
      if (t.find t.preferredPathHash).any TargetPath.pathStatus then some t.preferredPathHash
      else (t.pathMap.find? fun e => e.2.pathStatus).map Prod.fst
  | 3 => (t.pathMap.argmin fun e => e.2.pendingIoNumber.toNat).map Prod.fst
  | 4 => (t.pathMap.argmin fun e => e.2.pendingIoSize.toNat).map Prod.fst
  | _ => none

theorem getNextPath_eq_argmin (load : TargetPath → ℕ) (l : List (UInt64 × TargetPath)) :
    getNextPath load l = (l.argmin fun e => load e.2).map Prod.fst := by
  cases l with
  | nil => rfl
  | cons e es =>
    rw [getNextPath, List.argmin, List.foldl_cons]
    show _ = ((es.foldl (List.argAux fun b c => load b.2 < load c.2) (some e)).map Prod.fst)
    induction es generalizing e with
    | nil => rfl
    | cons x es ih =>
      rw [List.foldl_cons, List.foldl_cons]
      by_cases hlt : load x.2 < load e.2
      · rw [if_pos hlt, ih x]
        simp [List.argAux, hlt]
      · rw [if_neg hlt, ih e]
        simp [List.argAux, hlt]

/-- The target with another preferred path. -/
def NkvTarget.withPreferred (t : NkvTarget) (h : UInt64) : NkvTarget := { t with preferredPathHash := h }

@[simp] theorem NkvTarget.withPreferred_hashes (t : NkvTarget) (q : UInt64) :
    (t.withPreferred q).hashes = t.hashes := rfl

@[simp] theorem NkvTarget.withPreferred_find (t : NkvTarget) (q h : UInt64) :
    (t.withPreferred q).find h = t.find h := rfl

@[simp] theorem NkvTarget.withPreferred_pathCount (t : NkvTarget) (q : UInt64) :
    (t.withPreferred q).pathCount = t.pathCount := rfl

/-- The policy offers `m`, and again afterwards. -/
structure Offers (t : NkvTarget) (m q : UInt64) : Prop where
  mem : m ∈ t.hashes
  first : loadBalanceExecute t = .selected m (t.withPreferred q)
  again : loadBalanceExecute (t.withPreferred q) = .selected m (t.withPreferred q)
  offered : ∀ h, Live t h → (offered t = some h ↔ h = m)

theorem offers_failover {t : NkvTarget} (hr : Ready t) (hpol : t.policy = 2) (hne : t.pathMap ≠ []) :
    ∃ m q, Offers t m q := by
  obtain ⟨p, hp⟩ := NkvTarget.mem_hashes.1 (hr.preferred hne)
  have hex : ∀ q, loadBalanceExecute (t.withPreferred q) = executeFailover (t.withPreferred q) := by
    intro q
    simp only [loadBalanceExecute, NkvTarget.withPreferred, hpol]
  have hoff : DssSdk.Host.offered t = if p.pathStatus then some t.preferredPathHash
      else (t.pathMap.find? fun e => e.2.pathStatus).map Prod.fst := by
    simp only [DssSdk.Host.offered, hpol, hp, Option.any_some]
  by_cases hup : p.pathStatus = true
  · have hsel : executeFailover (t.withPreferred t.preferredPathHash) =
        .selected t.preferredPathHash (t.withPreferred t.preferredPathHash) := by
      rw [executeFailover, show (t.withPreferred t.preferredPathHash).find
        (t.withPreferred t.preferredPathHash).preferredPathHash = some p from hp]
      simp only [hup, if_true]
      rfl
    refine ⟨t.preferredPathHash, t.preferredPathHash, hr.preferred hne, (hex _).trans hsel,
      (hex _).trans hsel, fun h _ => ?_⟩
    rw [hoff, if_pos hup]
    exact ⟨fun he => (Option.some.inj he).symm, fun he => by rw [he]⟩
  · have hcongr : (t.pathMap.find? fun e => e.1 ≠ t.preferredPathHash ∧ e.2.pathStatus) =
        t.pathMap.find? fun e => e.2.pathStatus := by
      apply List.find?_congr
      intro e he
      by_cases heq : e.1 = t.preferredPathHash
      · have hfe := NkvTarget.find_of_mem hr.nodup he
        rw [heq, hp] at hfe
        have hpe := Option.some.inj hfe
        simp [heq, ← hpe, hup]
      · simp [heq]
    rw [if_neg hup] at hoff
    cases hfind : t.pathMap.find? fun e => e.2.pathStatus with
    | none =>
      have hsel : executeFailover (t.withPreferred t.preferredPathHash) =
          .selected t.preferredPathHash (t.withPreferred t.preferredPathHash) := by
        rw [executeFailover, show (t.withPreferred t.preferredPathHash).find
          (t.withPreferred t.preferredPathHash).preferredPathHash = some p from hp]
        simp only [if_neg hup]
        rw [show ((t.withPreferred t.preferredPathHash).pathMap.find? fun e =>
          e.1 ≠ (t.withPreferred t.preferredPathHash).preferredPathHash ∧ e.2.pathStatus) = none from
          hcongr.trans hfind]
        rfl
      refine ⟨t.preferredPathHash, t.preferredPathHash, hr.preferred hne, (hex _).trans hsel,
        (hex _).trans hsel, fun h hl => ?_⟩
      obtain ⟨r, hr', hrup⟩ := hl
      exact absurd hrup (by
        simpa using List.find?_eq_none.1 hfind _ (NkvTarget.find_eq_some hr'))
    | some e =>
      have hmem := List.mem_of_find?_eq_some hfind
      have heup : e.2.pathStatus = true := (List.find?_eq_some_iff_append.1 hfind).1
      refine ⟨e.1, e.1, List.mem_map_of_mem hmem, ?_, ?_, fun h _ => ?_⟩
      · refine (hex t.preferredPathHash).trans ?_
        rw [executeFailover, show (t.withPreferred t.preferredPathHash).find
          (t.withPreferred t.preferredPathHash).preferredPathHash = some p from hp]
        simp only [if_neg hup]
        rw [show ((t.withPreferred t.preferredPathHash).pathMap.find? fun e =>
          e.1 ≠ (t.withPreferred t.preferredPathHash).preferredPathHash ∧ e.2.pathStatus) = some e from
          hcongr.trans hfind]
        rfl
      · refine (hex e.1).trans ?_
        rw [executeFailover, show (t.withPreferred e.1).find (t.withPreferred e.1).preferredPathHash =
          some e.2 from NkvTarget.find_of_mem hr.nodup hmem]
        simp only [heup, if_true]
        rfl
      · rw [hoff, hfind]
        exact ⟨fun he => (Option.some.inj he).symm, fun he => by rw [he]; rfl⟩

theorem offers_leastLoad {t : NkvTarget} (hpol : t.policy = 3 ∨ t.policy = 4)
    (hne : t.pathMap ≠ []) : ∃ m q, Offers t m q := by
  obtain ⟨load, hex, hoff⟩ : ∃ load : TargetPath → ℕ,
      (∀ path, getNextPath load t.pathMap = some path → loadBalanceExecute t = .selected path t) ∧
      offered t = (t.pathMap.argmin fun e => load e.2).map Prod.fst := by
    rcases hpol with hp | hp
    · refine ⟨fun p => p.pendingIoNumber.toNat, fun path hpath => ?_, by simp only [offered, hp]⟩
      rw [loadBalanceExecute, hp, hpath]
      rfl
    · refine ⟨fun p => p.pendingIoSize.toNat, fun path hpath => ?_, by simp only [offered, hp]⟩
      rw [loadBalanceExecute, hp, hpath]
      rfl
  rw [getNextPath_eq_argmin] at hex
  cases hmin : t.pathMap.argmin fun e => load e.2 with
  | none => exact absurd (List.argmin_eq_none.1 hmin) hne
  | some e =>
    rw [hmin] at hex hoff
    have hsel := hex e.1 rfl
    refine ⟨e.1, t.preferredPathHash, List.mem_map_of_mem (List.argmin_mem hmin), hsel, hsel,
      fun h _ => ?_⟩
    rw [hoff]
    exact ⟨fun he => (Option.some.inj he).symm, fun he => by rw [he]; rfl⟩

theorem offers {t : NkvTarget} (hr : Ready t) (hlow : ¬ t.policy ≤ 1) (hhigh : t.policy ≤ 4)
    (hne : 0 < t.pathCount) : ∃ m q, Offers t m q := by
  have hne : t.pathMap ≠ [] := by
    rw [hr.count] at hne
    exact List.ne_nil_of_length_pos hne
  by_cases h2 : t.policy = 2
  · exact offers_failover hr h2 hne
  · exact offers_leastLoad (by omega) hne

theorem getPath_stuck_again {t : NkvTarget} {m q : UInt64} {visited : Finset UInt64}
    (ho : Offers t m q) (hlt : visited.card < t.pathCount) (hm : m ∈ visited) (fuel : ℕ) :
    ∀ sel, loadBalanceGetPath fuel (t.withPreferred q) visited sel = none := by
  induction fuel with
  | zero => exact fun _ => rfl
  | succ fuel ih =>
    intro sel
    rw [loadBalanceGetPath, if_neg (by simpa using hlt), ho.again]
    simp only [if_pos hm]
    exact ih m

theorem getPath_stuck {t : NkvTarget} {m q : UInt64} {visited : Finset UInt64} (ho : Offers t m q)
    (hlt : visited.card < t.pathCount) (hm : m ∈ visited) (fuel : ℕ) (sel : UInt64) :
    loadBalanceGetPath fuel t visited sel = none := by
  cases fuel with
  | zero => rfl
  | succ fuel =>
    rw [loadBalanceGetPath, if_neg (by omega), ho.first]
    simp only [if_pos hm]
    exact getPath_stuck_again ho hlt hm fuel m

/-- A path that is offered and was not visited: it is selected when it is up, and otherwise the
selection goes on with it visited. -/
theorem getPath_offered {t : NkvTarget} {m q : UInt64} {visited : Finset UInt64} (ho : Offers t m q)
    (hlt : visited.card < t.pathCount) (hm : m ∉ visited) :
    ∃ p, t.find m = some p ∧ ∀ fuel sel, loadBalanceGetPath (fuel + 1) t visited sel =
      if p.pathStatus then some (t.withPreferred q, insert m visited, .path m)
      else loadBalanceGetPath fuel (t.withPreferred q) (insert m visited) m := by
  obtain ⟨p, hp⟩ := NkvTarget.mem_hashes.1 ho.mem
  refine ⟨p, hp, fun fuel sel => ?_⟩
  rw [loadBalanceGetPath, if_neg (by omega), ho.first]
  simp only [if_neg hm, NkvTarget.withPreferred_find, hp]

/-! ### The selection -/

theorem getPath_unique {t : NkvTarget} {visited : Finset UInt64} {sel : UInt64} {f g : ℕ}
    {r s : NkvTarget × Finset UInt64 × Selection} (hr : loadBalanceGetPath f t visited sel = some r)
    (hs : loadBalanceGetPath g t visited sel = some s) : r = s := by
  have hr' := loadBalanceGetPath_mono (k := g) hr
  have hs' := loadBalanceGetPath_mono (k := f) hs
  rw [Nat.add_comm, hr'] at hs'
  exact Option.some.inj hs'

/-- The selection ends, with a path that is up and was not visited if there is one, and with the flag
otherwise. -/
def GetPathMeets (t : NkvTarget) (visited : Finset UInt64) : Prop :=
  ∃ fuel t' visited' r, loadBalanceGetPath fuel t visited 0 = some (t', visited', r) ∧
    ((∃ h, Live t h ∧ h ∉ visited) → ∃ h, r = .path h ∧ Live t h ∧ h ∉ visited) ∧
    ((∀ h, Live t h → h ∈ visited) → r = .flagged)

/-- The paths from which the policies select a path that is up: with round robin there is one that
was not visited, with the failover and the least load policies it is the one that is offered, and for
an invalid policy there is none and a path was not visited. -/
def Selectable (t : NkvTarget) (visited : Finset UInt64) : Prop :=
  if t.policy ≤ 1 then ∃ h, Live t h ∧ h ∉ visited
  else if t.policy ≤ 4 then ∃ h, offered t = some h ∧ Live t h ∧ h ∉ visited
  else visited.card < t.pathCount ∧ ∀ h, Live t h → h ∈ visited

theorem getPathMeets_roundRobin {t : NkvTarget} {visited : Finset UInt64} (hr : Ready t)
    (hv : visited ⊆ t.hashes.toFinset) (hpol : t.policy ≤ 1) :
    GetPathMeets t visited ↔ ∃ h, Live t h ∧ h ∉ visited := by
  obtain ⟨fuel, c', visited', h, hget, -, -, hend⟩ :=
    getPath_roundRobin hr hpol _ t.lbRrCount 0 visited hv rfl
  have hget : loadBalanceGetPath fuel t visited 0 = some (t.withCount c', visited', .path h) := hget
  constructor
  · rintro ⟨f, t', v', r, hf, -, hnone⟩
    by_contra hall
    push Not at hall
    have hflag := hnone hall
    have heq := getPath_unique hget hf
    cases heq
    cases hflag
  · intro hex
    refine ⟨fuel, _, _, _, hget, fun _ => ⟨h, rfl, ?_⟩, fun hall => ?_⟩
    · rcases hend with ⟨hl, hn, -⟩ | ⟨hall, -⟩
      · exact ⟨hl, hn⟩
      · obtain ⟨g, hg, hgn⟩ := hex
        exact absurd (hall g hg) hgn
    · obtain ⟨g, hg, hgn⟩ := hex
      exact absurd (hall g hg) hgn

theorem not_getPathMeets_of_full {t : NkvTarget} {visited : Finset UInt64} (hr : Ready t)
    (hv : visited ⊆ t.hashes.toFinset) (hfull : t.pathCount ≤ visited.card) :
    ¬ GetPathMeets t visited := by
  rintro ⟨f, t', v', r, hf, -, hnone⟩
  have hflag := hnone fun h hl => by
    by_contra hn
    have := hr.card_lt hv hl.mem hn
    omega
  have hget : loadBalanceGetPath 1 t visited 0 = some (t, visited, .path 0) := by
    rw [loadBalanceGetPath, if_pos hfull]
  cases getPath_unique hget hf
  cases hflag

theorem getPathMeets_offered {t : NkvTarget} {visited : Finset UInt64} (hr : Ready t)
    (hv : visited ⊆ t.hashes.toFinset) (hlow : ¬ t.policy ≤ 1) (hhigh : t.policy ≤ 4) :
    GetPathMeets t visited ↔ ∃ h, offered t = some h ∧ Live t h ∧ h ∉ visited := by
  by_cases hfull : t.pathCount ≤ visited.card
  · constructor
    · exact fun h => absurd h (not_getPathMeets_of_full hr hv hfull)
    · rintro ⟨h, -, hl, hn⟩
      have := hr.card_lt hv hl.mem hn
      omega
  · obtain ⟨m, q, ho⟩ := offers hr hlow hhigh (by omega)
    constructor
    · rintro ⟨f, t', v', r, hf, hsome, hnone⟩
      have hm : m ∉ visited := by
        intro hm
        rw [getPath_stuck ho (by omega) hm] at hf
        cases hf
      obtain ⟨p, hp, hget⟩ := getPath_offered ho (by omega) hm
      by_cases hup : p.pathStatus = true
      · have hl : Live t m := ⟨p, hp, hup⟩
        exact ⟨m, (ho.offered m hl).2 rfl, hl, hm⟩
      · -- the path that is offered is down: it is returned when it was the last one
        have hdown : ¬ Live t m := by
          rintro ⟨p', hp', hup'⟩
          rw [hp] at hp'
          cases hp'
          exact hup hup'
        have hpath : r = .path m := by
          cases f with
          | zero => cases hf
          | succ f =>
            rw [hget f, if_neg hup] at hf
            by_cases hcard : t.pathCount ≤ (insert m visited).card
            · cases f with
              | zero => cases hf
              | succ f =>
                rw [loadBalanceGetPath, if_pos (by simpa using hcard)] at hf
                cases hf
                rfl
            · rw [getPath_stuck_again ho (by omega) (Finset.mem_insert_self m visited)] at hf
              cases hf
        by_cases hex : ∃ h, Live t h ∧ h ∉ visited
        · obtain ⟨h, hrh, hl, -⟩ := hsome hex
          rw [hpath] at hrh
          cases hrh
          exact absurd hl hdown
        · push Not at hex
          have := hnone hex
          rw [hpath] at this
          cases this
    · rintro ⟨h, hoff, hl, hn⟩
      obtain rfl := (ho.offered h hl).1 hoff
      obtain ⟨p, hp, hget⟩ := getPath_offered ho (by omega) hn
      obtain ⟨p', hp', hup⟩ := hl
      rw [hp] at hp'
      cases hp'
      refine ⟨1, _, _, _, by rw [hget 0 0, if_pos hup], fun _ => ⟨h, rfl, ⟨p, hp, hup⟩, hn⟩,
        fun hall => absurd (hall h ⟨p, hp, hup⟩) hn⟩

theorem execute_invalid {t : NkvTarget} (hpol : 4 < t.policy) : loadBalanceExecute t = .invalid := by
  rw [loadBalanceExecute]
  split <;> first | omega | rfl

theorem getPathMeets_invalid {t : NkvTarget} {visited : Finset UInt64} (hr : Ready t)
    (hv : visited ⊆ t.hashes.toFinset) (hpol : 4 < t.policy) :
    GetPathMeets t visited ↔ visited.card < t.pathCount ∧ ∀ h, Live t h → h ∈ visited := by
  by_cases hfull : t.pathCount ≤ visited.card
  · constructor
    · exact fun h => absurd h (not_getPathMeets_of_full hr hv hfull)
    · rintro ⟨hlt, -⟩
      omega
  · have hget : loadBalanceGetPath 1 t visited 0 = some (t, visited, .flagged) := by
      rw [loadBalanceGetPath, if_neg hfull, execute_invalid hpol]
    constructor
    · rintro ⟨f, t', v', r, hf, hsome, -⟩
      refine ⟨by omega, fun h hl => ?_⟩
      by_contra hn
      obtain ⟨g, hg, -⟩ := hsome ⟨h, hl, hn⟩
      cases getPath_unique hget hf
      cases hg
    · rintro ⟨-, hall⟩
      exact ⟨1, _, _, _, hget, fun ⟨h, hl, hn⟩ => absurd (hall h hl) hn, fun _ => rfl⟩

/-- When a selection meets its purpose. -/
theorem getPathMeets_iff {t : NkvTarget} {visited : Finset UInt64} (hr : Ready t)
    (hv : visited ⊆ t.hashes.toFinset) : GetPathMeets t visited ↔ Selectable t visited := by
  rw [Selectable]
  split_ifs with hlow hhigh
  · exact getPathMeets_roundRobin hr hv hlow
  · exact getPathMeets_offered hr hv hlow hhigh
  · exact getPathMeets_invalid hr hv (by omega)

end DssSdk.Host
