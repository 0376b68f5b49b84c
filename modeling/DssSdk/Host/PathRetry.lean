import DssSdk.Host.PathProgress

/-!
# The retry loop of an I/O ends

* `SendMeets`: a call ends, tries paths that are up and none twice, and finds every path;
* `Sendable`: the targets on which every call does;
* `selection_iff`: when a target meets `GetPathMeets` and `SendMeets`.

A failed I/O is tried again with the paths that were visited so far. With a policy that offers the same
path again the second selection does not end.
-/

namespace DssSdk.Host

/-! ### What an I/O changes -/

section Counting

variable {t : NkvTarget} {h : UInt64} {f : TargetPath → TargetPath}

theorem modify_hashes : (t.modify h f).hashes = t.hashes := by
  rw [NkvTarget.hashes, NkvTarget.hashes, NkvTarget.modify, List.map_map]
  apply List.map_congr_left
  intro e _
  rw [Function.comp_apply]
  split_ifs <;> rfl

theorem modify_find (g : UInt64) :
    (t.modify h f).find g = (t.find g).map fun p => if g = h then f p else p := by
  rw [NkvTarget.find, NkvTarget.find, NkvTarget.modify]
  show (((t.pathMap.map _).find? _).map Prod.snd) = _
  rw [List.find?_map, Option.map_map, Option.map_map]
  have hcongr : ((fun e : UInt64 × TargetPath => decide (e.1 = g)) ∘
      fun e => if e.1 = h then (e.1, f e.2) else e) = fun e => decide (e.1 = g) := by
    funext e
    rw [Function.comp_apply]
    split_ifs <;> rfl
  rw [hcongr]
  cases hf : t.pathMap.find? fun e => e.1 = g with
  | none => rfl
  | some e =>
    have hkey := List.find?_some hf
    simp only [decide_eq_true_eq] at hkey
    simp only [Option.map_some, Function.comp_apply, hkey]
    split_ifs <;> rfl

theorem modify_live (hf : ∀ p, (f p).pathStatus = p.pathStatus) (g : UInt64) :
    Live (t.modify h f) g ↔ Live t g := by
  constructor
  · rintro ⟨p, hp, hup⟩
    rw [modify_find] at hp
    obtain ⟨q, hq, rfl⟩ := Option.map_eq_some_iff.1 hp
    refine ⟨q, hq, ?_⟩
    split_ifs at hup
    · rwa [hf] at hup
    · exact hup
  · rintro ⟨p, hp, hup⟩
    refine ⟨_, by rw [modify_find, hp]; rfl, ?_⟩
    split_ifs
    · rwa [hf]
    · exact hup

theorem modify_ready (hr : Ready t) : Ready (t.modify h f) := by
  have hlen : (t.modify h f).pathMap.length = t.pathMap.length := by
    rw [NkvTarget.modify]
    exact List.length_map _
  refine ⟨by rw [modify_hashes]; exact hr.nodup, ?_, ?_, ?_, hlen ▸ hr.fits⟩
  · intro i hi
    rw [modify_hashes]
    exact hr.array i (hlen ▸ hi)
  · rw [hlen]
    exact hr.count
  · intro hne
    rw [modify_hashes]
    apply hr.preferred
    rintro hnil
    apply hne
    rw [NkvTarget.modify, hnil]
    rfl

end Counting

/-- What an I/O leaves of a target: the paths and their states. -/
structure SamePaths (t t' : NkvTarget) : Prop where
  ready : Ready t → Ready t'
  policy : t'.policy = t.policy
  hashes : t'.hashes = t.hashes
  count : t'.pathCount = t.pathCount
  live : ∀ h, Live t' h ↔ Live t h

theorem SamePaths.trans {t t' t'' : NkvTarget} (h : SamePaths t t') (h' : SamePaths t' t'') :
    SamePaths t t'' :=
  ⟨fun hr => h'.ready (h.ready hr), h'.policy.trans h.policy, h'.hashes.trans h.hashes,
    h'.count.trans h.count, fun x => (h'.live x).trans (h.live x)⟩

theorem SamePaths.refl (t : NkvTarget) : SamePaths t t :=
  ⟨fun hr => hr, rfl, rfl, rfl, fun _ => Iff.rfl⟩

theorem samePaths_modify {t : NkvTarget} {h : UInt64} {f : TargetPath → TargetPath}
    (hf : ∀ p, (f p).pathStatus = p.pathStatus) : SamePaths t (t.modify h f) :=
  ⟨modify_ready, rfl, modify_hashes, rfl, modify_live hf⟩

theorem samePaths_beginIo (t : NkvTarget) (h : UInt64) (op : WhichOp) (len : UInt64) :
    SamePaths t (t.beginIo h op len) := by
  rw [NkvTarget.beginIo]
  split
  · exact SamePaths.refl t
  · exact samePaths_modify fun _ => rfl

theorem samePaths_completeIo (t : NkvTarget) (h : UInt64) (op : WhichOp) (len : UInt64) :
    SamePaths t (t.completeIo h op len) := by
  rw [NkvTarget.completeIo]
  split
  · exact SamePaths.refl t
  · exact samePaths_modify fun _ => rfl

theorem completeIo_beginIo (t : NkvTarget) (h : UInt64) (op : WhichOp) (len : UInt64) :
    (t.beginIo h op len).completeIo h op len = t := by
  rw [NkvTarget.beginIo, NkvTarget.completeIo]
  cases countedSize op len with
  | none => rfl
  | some size =>
    show { t with pathMap := (t.pathMap.map _).map _ } = t
    have hmap : ((t.pathMap.map fun e => if e.1 = h then (e.1, e.2.begin size) else e).map
        fun e => if e.1 = h then (e.1, e.2.complete size) else e) = t.pathMap := by
      rw [List.map_map]
      conv_rhs => rw [← List.map_id t.pathMap]
      apply List.map_congr_left
      intro e _
      rw [Function.comp_apply]
      by_cases he : e.1 = h
      · rw [if_pos he, if_pos he]
        show (e.1, (e.2.begin size).complete size) = e
        simp [TargetPath.begin, TargetPath.complete]
      · rw [if_neg he, if_neg he]
        rfl
    rw [hmap]

/-! ### Calls -/

/-- The call ends, the paths that it tried are up and were tried once, and it found every path. -/
def SendMeets (route : Route) (op : WhichOp) (sync : Bool) (t : NkvTarget) (len : UInt64) : Prop :=
  ∀ outcome, ∃ fuel t' tried e, sendIoToPath route ⟨op, sync, outcome⟩ fuel t len = some (t', tried, e) ∧
    e ≠ .fault ∧ tried.Nodup ∧ ∀ h ∈ tried, Live t h

/-- The calls that end: without the load balancer or for a container that is not verified, and with
a path if the policy is a round-robin one or invalid, or there is one path only, or the I/O is not
tried again and is offered a path that is up. -/
def Sendable (route : Route) (op : WhichOp) (sync : Bool) (t : NkvTarget) : Prop :=
  route.nicLoadBalance = false ∨ route.containerPathHash ≠ route.verifyPath ∨
    0 < t.pathCount ∧ (t.policy ≤ 1 ∨ 4 < t.policy ∨ t.pathCount = 1 ∨
      (sync = false ∨ op = .unknown) ∧ ∃ h, offered t = some h ∧ Live t h)

theorem sendLoop_roundRobin (io : IoCall) (n : ℕ) :
    ∀ (t : NkvTarget) (visited : Finset UInt64) (len : UInt64) (tried : List UInt64), Ready t →
      t.policy ≤ 1 → visited ⊆ t.hashes.toFinset → visited.card < t.pathCount →
      t.pathCount - visited.card = n → tried.Nodup → (∀ h ∈ tried, h ∈ visited ∧ Live t h) →
      ∃ fuel t' tried' e, sendLoop io fuel t visited len tried = some (t', tried', e) ∧ e ≠ .fault ∧
        tried'.Nodup ∧ ∀ h ∈ tried', Live t h := by
  induction n using Nat.strong_induction_on with
  | _ n ih =>
    intro t visited len tried hr hpol hv hlt hn hnd htried
    obtain ⟨fuel, c', visited', h, hget, hsub, hsub', hend⟩ :=
      getPath_roundRobin hr hpol _ t.lbRrCount 0 visited hv rfl
    have hget : loadBalanceGetPath fuel t visited 0 = some (t.withCount c', visited', .path h) := hget
    have hget' : loadBalanceGetPath (fuel + 1) t visited 0 = some (t.withCount c', visited', .path h) :=
      loadBalanceGetPath_mono hget
    have htl : ∀ h ∈ tried, Live t h := fun h hh => (htried h hh).2
    rcases hend with ⟨hl, hnew, hin⟩ | ⟨-, hend⟩
    · obtain ⟨p, hp, hup⟩ := hl
      have hnd' : (tried ++ [h]).Nodup := by
        rw [List.nodup_append]
        refine ⟨hnd, List.nodup_singleton h, ?_⟩
        rintro x hx y hy rfl
        rw [List.mem_singleton] at hy
        subst hy
        exact hnew (htried x hx).1
      have htl' : ∀ x ∈ tried ++ [h], Live t x := by
        intro x hx
        rcases List.mem_append.1 hx with hx | hx
        · exact htl x hx
        · rw [List.mem_singleton] at hx
          rw [hx]
          exact ⟨p, hp, hup⟩
      by_cases hop : io.op = .unknown
      · refine ⟨fuel + 1, t.withCount c', tried, .returned .errWrongInput, ?_, by simp, hnd, htl⟩
        rw [sendLoop, hget']
        simp only [NkvTarget.withCount_find, hp, hup, hop]
        rfl
      set out := io.outcome tried.length with hout
      set ended := if io.sync then
          ((t.withCount c').beginIo h io.op len).completeIo h io.op out.valueLength
        else (t.withCount c').beginIo h io.op len with hended
      have hsame : SamePaths t ended := by
        have hc : SamePaths t (t.withCount c') :=
          ⟨fun hr => hr.withCount c', rfl, rfl, rfl, fun _ => Iff.rfl⟩
        have hb := hc.trans (samePaths_beginIo _ h io.op len)
        rw [hended]
        split_ifs
        · exact hb.trans (samePaths_completeIo _ h io.op out.valueLength)
        · exact hb
      have hstep : ∀ k, sendLoop io (fuel + k + 1) t visited len tried =
          if io.sync ∧ out.status = .errIo ∧ visited'.card < t.pathCount then
            sendLoop io (fuel + k) ended visited' out.valueLength (tried ++ [h])
          else some (ended, tried ++ [h], .returned out.status) := by
        intro k
        rw [sendLoop, show loadBalanceGetPath (fuel + k + 1) t visited 0 =
          some (t.withCount c', visited', .path h) from
          loadBalanceGetPath_mono (loadBalanceGetPath_mono hget)]
        simp only [NkvTarget.withCount_find, hp, hup, hop, NkvTarget.withCount_pathCount]
        rfl
      by_cases hretry : io.sync ∧ out.status = .errIo ∧ visited'.card < t.pathCount
      · have hss : visited.card < visited'.card :=
          Finset.card_lt_card ((Finset.ssubset_iff_of_subset hsub).2 ⟨h, hin, hnew⟩)
        have htried' : ∀ x ∈ tried ++ [h], x ∈ visited' ∧ Live ended x := by
          intro x hx
          refine ⟨?_, (hsame.live x).2 (htl' x hx)⟩
          rcases List.mem_append.1 hx with hx | hx
          · exact hsub (htried x hx).1
          · rw [List.mem_singleton] at hx
            rw [hx]
            exact hin
        obtain ⟨f, t', tried', e, hrun, he, hnd'', hl''⟩ := ih (t.pathCount - visited'.card)
          (by omega) ended visited' out.valueLength (tried ++ [h]) (hsame.ready hr)
          (hsame.policy ▸ hpol) (hsame.hashes ▸ hsub') (by rw [hsame.count]; exact hretry.2.2)
          (by rw [hsame.count]) hnd' htried'
        refine ⟨fuel + f + 1, t', tried', e, ?_, he, hnd'', fun x hx => (hsame.live x).1 (hl'' x hx)⟩
        rw [hstep f, if_pos hretry, Nat.add_comm]
        exact sendLoop_mono hrun
      · refine ⟨fuel + 0 + 1, ended, tried ++ [h], .returned out.status, ?_, by simp, hnd', htl'⟩
        rw [hstep 0, if_neg hretry]
    · rcases hend with ⟨hfull, -⟩ | ⟨hmem, hdown⟩
      · omega
      · obtain ⟨p, hp⟩ := NkvTarget.mem_hashes.1 hmem
        have hpd : p.pathStatus = false := by
          cases hs : p.pathStatus with
          | false => rfl
          | true => exact absurd ⟨p, hp, hs⟩ hdown
        refine ⟨fuel + 1, t.withCount c', tried, .returned .errCntPathDown, ?_, by simp, hnd, htl⟩
        rw [sendLoop, hget']
        simp only [NkvTarget.withCount_find, hp, hpd]
        rfl

theorem sendLoop_once {io : IoCall} {fuel : ℕ} {t t' : NkvTarget} {len m : UInt64} {p : TargetPath}
    (hget : loadBalanceGetPath (fuel + 1) t ∅ 0 = some (t', {m}, .path m)) (hp : t'.find m = some p)
    (hlive : Live t' m ↔ Live t m) (honce : io.sync = false ∨ io.op = .unknown ∨ t'.pathCount ≤ 1) :
    ∃ t'' tried e, sendLoop io (fuel + 1) t ∅ len [] = some (t'', tried, e) ∧ e ≠ .fault ∧
      tried.Nodup ∧ ∀ h ∈ tried, Live t h := by
  rw [sendLoop, hget]
  simp only [hp]
  by_cases hdown : p.pathStatus = false
  · rw [if_pos hdown]
    exact ⟨_, _, _, rfl, by simp, List.nodup_nil, by simp⟩
  rw [if_neg hdown]
  by_cases hop : io.op = .unknown
  · rw [if_pos hop]
    exact ⟨_, _, _, rfl, by simp, List.nodup_nil, by simp⟩
  rw [if_neg hop, if_neg]
  · refine ⟨_, _, _, rfl, by simp, by simp, ?_⟩
    intro h hh
    have hm : h = m := by simpa using hh
    rw [hm, ← hlive]
    exact ⟨p, hp, by simpa using hdown⟩
  · rintro ⟨hsync, -, hlt⟩
    rw [Finset.card_singleton] at hlt
    rcases honce with hs | hu | hc
    · rw [hs] at hsync
      cases hsync
    · exact hop hu
    · omega

theorem sendLoop_noPath {io : IoCall} {t : NkvTarget} (hr : Ready t) (h0 : t.pathCount = 0)
    (fuel : ℕ) (len : UInt64) : sendLoop io (fuel + 1) t ∅ len [] = some (t, [], .fault) := by
  have hnil : t.pathMap = [] := List.eq_nil_of_length_eq_zero (by rw [← hr.count, h0])
  have hfind : t.find 0 = none := by rw [NkvTarget.find, hnil]; rfl
  rw [sendLoop, loadBalanceGetPath, if_pos (by omega)]
  simp only [hfind]

theorem sendLoop_stuck {op : WhichOp} {t : NkvTarget} {m q : UInt64} (ho : Offers t m q)
    (hcount : 1 < t.pathCount) (hop : op ≠ .unknown) (fuel : ℕ) (len : UInt64) :
    sendLoop ⟨op, true, fun _ => ⟨.errIo, len⟩⟩ fuel t ∅ len [] = none := by
  cases fuel with
  | zero => rfl
  | succ fuel =>
    obtain ⟨p, hp, hget⟩ := getPath_offered ho (show (∅ : Finset UInt64).card < t.pathCount by simp; omega)
      (Finset.notMem_empty m)
    have hcard : (insert m (∅ : Finset UInt64)).card = 1 := Finset.card_singleton m
    by_cases hup : p.pathStatus = true
    · rw [sendLoop, hget fuel 0, if_pos hup]
      simp only [NkvTarget.withPreferred_find, hp, hup, if_neg hop]
      rw [if_neg (by simp), if_pos ⟨trivial, trivial, by rw [hcard]; exact hcount⟩, if_pos trivial,
        completeIo_beginIo]
      cases fuel with
      | zero => rfl
      | succ fuel =>
        rw [sendLoop, getPath_stuck_again ho (by rw [hcard]; exact hcount)
          (Finset.mem_insert_self m ∅)]
    · rw [sendLoop, hget fuel 0, if_neg hup,
        getPath_stuck_again ho (by rw [hcard]; exact hcount) (Finset.mem_insert_self m ∅)]

theorem Offers.live_iff {t : NkvTarget} {m q : UInt64} (ho : Offers t m q) :
    Live t m ↔ ∃ h, DssSdk.Host.offered t = some h ∧ Live t h := by
  constructor
  · exact fun hl => ⟨m, (ho.offered m hl).2 rfl, hl⟩
  · rintro ⟨h, hoff, hl⟩
    exact (ho.offered h hl).1 hoff ▸ hl

theorem sendMeets_iff {route : Route} {op : WhichOp} {sync : Bool} {t : NkvTarget} {len : UInt64}
    (hr : Ready t) : SendMeets route op sync t len ↔ Sendable route op sync t := by
  by_cases hnic : route.nicLoadBalance = false
  · refine iff_of_true (fun outcome => ⟨0, ?_⟩) (Or.inl hnic)
    rw [sendIoToPath, if_neg (by simp [hnic])]
    cases hf : t.find route.containerPathHash with
    | none => exact ⟨_, _, _, rfl, by simp, List.nodup_nil, by simp⟩
    | some p =>
      by_cases hdown : p.pathStatus = false
      · simp only [if_pos hdown]
        exact ⟨_, _, _, rfl, by simp, List.nodup_nil, by simp⟩
      simp only [if_neg hdown]
      by_cases hop : op = .unknown
      · rw [if_pos hop]
        exact ⟨_, _, _, rfl, by simp, List.nodup_nil, by simp⟩
      · rw [if_neg hop]
        refine ⟨_, _, _, rfl, by simp, by simp, fun h hh => ?_⟩
        rw [List.mem_singleton.1 hh]
        exact ⟨p, hf, by simpa using hdown⟩
  by_cases hverify : route.containerPathHash ≠ route.verifyPath
  · refine iff_of_true (fun outcome => ⟨0, t, [], .returned .errCntVerifyFailed, ?_, by simp,
      List.nodup_nil, by simp⟩) (Or.inr (Or.inl hverify))
    rw [sendIoToPath, if_pos (by simpa using hnic), if_pos hverify]
  have hsend : ∀ io fuel, sendIoToPath route io fuel t len = sendLoop io fuel t ∅ len [] := by
    intro io fuel
    rw [sendIoToPath, if_pos (by simpa using hnic), if_neg hverify]
  rw [SendMeets, Sendable, or_iff_right hnic, or_iff_right hverify]
  simp only [hsend]
  by_cases h0 : t.pathCount = 0
  · refine iff_of_false (fun h => ?_) (fun h => by omega)
    obtain ⟨fuel, t', tried, e, hrun, he, -⟩ := h fun _ => ⟨.success, 0⟩
    cases fuel with
    | zero => cases hrun
    | succ fuel =>
      rw [sendLoop_noPath hr h0] at hrun
      cases hrun
      exact he rfl
  rw [and_iff_right (by omega : 0 < t.pathCount)]
  by_cases hlow : t.policy ≤ 1
  · refine iff_of_true (fun outcome => ?_) (Or.inl hlow)
    exact sendLoop_roundRobin _ _ t ∅ len [] hr hlow (Finset.empty_subset _) (by simp; omega) rfl
      List.nodup_nil (by simp)
  rw [or_iff_right hlow]
  by_cases hhigh : 4 < t.policy
  · refine iff_of_true (fun outcome => ⟨1, t, [], .returned .errNoCntPathFound, ?_, by simp,
      List.nodup_nil, by simp⟩) (Or.inl hhigh)
    rw [sendLoop, loadBalanceGetPath, if_neg (by simp; omega), execute_invalid hhigh]
  rw [or_iff_right hhigh]
  obtain ⟨m, q, ho⟩ := offers hr hlow (by omega) (by omega)
  obtain ⟨p, hp, hget⟩ := getPath_offered ho (show (∅ : Finset UInt64).card < t.pathCount by simp; omega)
    (Finset.notMem_empty m)
  rw [← ho.live_iff]
  by_cases hone : t.pathCount = 1
  · refine iff_of_true (fun outcome => ?_) (Or.inl hone)
    have hget2 : loadBalanceGetPath (1 + 1) t ∅ 0 = some (t.withPreferred q, {m}, .path m) := by
      rw [hget 1 0]
      split_ifs
      · rfl
      · rw [loadBalanceGetPath, if_pos (by simp [hone])]
        rfl
    exact ⟨2, sendLoop_once hget2 hp Iff.rfl (Or.inr (Or.inr hone.le))⟩
  rw [or_iff_right hone]
  constructor
  · intro h
    have hm : Live t m := by
      by_contra hdown
      obtain ⟨fuel, t', tried, e, hrun, -⟩ := h fun _ => ⟨.success, 0⟩
      cases fuel with
      | zero => cases hrun
      | succ fuel =>
        have hup : ¬ p.pathStatus = true := fun hup => hdown ⟨p, hp, hup⟩
        rw [sendLoop, hget fuel 0, if_neg hup, getPath_stuck_again ho
          (show (insert m (∅ : Finset UInt64)).card < t.pathCount by simp; omega)
          (Finset.mem_insert_self m ∅)] at hrun
        cases hrun
    refine ⟨?_, hm⟩
    by_contra hretry
    push Not at hretry
    have hsync : sync = true := by simpa using hretry.1
    subst hsync
    obtain ⟨fuel, t', tried, e, hrun, -⟩ := h fun _ => ⟨.errIo, len⟩
    rw [sendLoop_stuck ho (by omega) hretry.2] at hrun
    cases hrun
  · rintro ⟨hsingle, p', hp', hup⟩ outcome
    rw [hp] at hp'
    cases hp'
    have hget1 : loadBalanceGetPath (0 + 1) t ∅ 0 = some (t.withPreferred q, {m}, .path m) := by
      rw [hget 0 0, if_pos hup]
      rfl
    exact ⟨1, sendLoop_once hget1 hp Iff.rfl (hsingle.imp_right Or.inl)⟩

/-! ### Targets -/

/-- A target as `load_balance_initialize_cnt` sets it up, with the preferred path and the counter of a
later time. -/
def startedTarget (policy : ℕ) (paths : List (UInt64 × TargetPath)) (preferred counter : UInt64) :
    Option NkvTarget :=
  (loadBalanceInitializeCnt ⟨policy, paths, List.replicate maxPathPerSubsys 0, 0, 0, 0⟩).map
    fun t => { t with preferredPathHash := preferred, lbRrCount := counter }

theorem startedTarget_ready {policy : ℕ} {paths : List (UInt64 × TargetPath)}
    {preferred counter : UInt64} {t : NkvTarget} (hnd : (paths.map Prod.fst).Nodup)
    (hpref : paths ≠ [] → preferred ∈ paths.map Prod.fst)
    (ht : startedTarget policy paths preferred counter = some t) :
    Ready t ∧ t.hashes = paths.map Prod.fst := by
  rw [startedTarget, loadBalanceInitializeCnt] at ht
  split_ifs at ht with hfits
  · simp only [Option.map_some, Option.some.injEq] at ht
    subst ht
    refine ⟨⟨hnd, ?_, rfl, hpref, hfits⟩, rfl⟩
    intro i hi
    exact List.getElem?_append_left (by simpa using hi)
  · cases ht

/-- **When the selection ends as it should.** A target that is set up selects a path that is up
whenever there is one, or reports that there is none, if and only if it is `Selectable`; its calls end
without a missing path and try the paths that are up at most once if and only if it is `Sendable`. -/
theorem selection_iff {policy : ℕ} {paths : List (UInt64 × TargetPath)} {preferred counter : UInt64}
    {visited : Finset UInt64} {route : Route} {op : WhichOp} {sync : Bool} {len : UInt64}
    (hnd : (paths.map Prod.fst).Nodup) (hpref : paths ≠ [] → preferred ∈ paths.map Prod.fst)
    (hv : visited ⊆ (paths.map Prod.fst).toFinset) :
    ((∃ t, startedTarget policy paths preferred counter = some t ∧ GetPathMeets t visited) ↔
      ∃ t, startedTarget policy paths preferred counter = some t ∧ Selectable t visited) ∧
    ((∃ t, startedTarget policy paths preferred counter = some t ∧ SendMeets route op sync t len) ↔
      ∃ t, startedTarget policy paths preferred counter = some t ∧ Sendable route op sync t) := by
  constructor
  · apply exists_congr
    intro t
    apply and_congr_right
    intro ht
    obtain ⟨hr, hhashes⟩ := startedTarget_ready hnd hpref ht
    exact getPathMeets_iff hr (hhashes ▸ hv)
  · apply exists_congr
    intro t
    apply and_congr_right
    intro ht
    exact sendMeets_iff (startedTarget_ready hnd hpref ht).1

/-- Two paths with round robin, one of them down. -/
theorem selection_iff_two :
    ((∃ t, startedTarget 0 [(7, ⟨true, 0, 0⟩), (9, ⟨false, 0, 0⟩)] 7 5 = some t ∧ GetPathMeets t {9}) ↔
      ∃ t, startedTarget 0 [(7, ⟨true, 0, 0⟩), (9, ⟨false, 0, 0⟩)] 7 5 = some t ∧ Selectable t {9}) ∧
    ((∃ t, startedTarget 0 [(7, ⟨true, 0, 0⟩), (9, ⟨false, 0, 0⟩)] 7 5 = some t ∧
        SendMeets ⟨true, 7, 7⟩ .store true t 4096) ↔
      ∃ t, startedTarget 0 [(7, ⟨true, 0, 0⟩), (9, ⟨false, 0, 0⟩)] 7 5 = some t ∧
        Sendable ⟨true, 7, 7⟩ .store true t) :=
  selection_iff (by decide) (by decide) (by decide)

/-- Two paths that are up, with the failover policy: once the I/O on the preferred one failed, the
selection does not come to the other one, and the call does not end. -/
theorem failover_stuck :
    ∃ t, startedTarget 2 [(7, ⟨true, 0, 0⟩), (9, ⟨true, 0, 0⟩)] 7 0 = some t ∧
      (Live t 9 ∧ ∀ fuel, loadBalanceGetPath fuel t {7} 0 = none) ∧
      ∀ fuel, sendIoToPath ⟨true, 7, 7⟩ ⟨.retrieve, true, fun _ => ⟨.errIo, 4096⟩⟩ fuel t 4096 = none := by
  have hstart : startedTarget 2 [(7, ⟨true, 0, 0⟩), (9, ⟨true, 0, 0⟩)] 7 0 =
      some ⟨2, [(7, ⟨true, 0, 0⟩), (9, ⟨true, 0, 0⟩)], [7, 9, 0, 0], 2, 7, 0⟩ := rfl
  have hr := (startedTarget_ready (by decide) (by decide) hstart).1
  obtain ⟨m, q, ho⟩ := offers_failover hr rfl (by decide)
  have hm : m = 7 := ((ho.offered 7 ⟨⟨true, 0, 0⟩, by decide, rfl⟩).1 (by decide)).symm
  subst hm
  refine ⟨_, rfl, ⟨⟨⟨true, 0, 0⟩, by decide, rfl⟩, fun fuel => ?_⟩, fun fuel => ?_⟩
  · exact getPath_stuck ho (by decide) (by decide) fuel 0
  · exact sendLoop_stuck ho (by decide) (by decide) fuel 4096

end DssSdk.Host
