import DssSdk.Host.PathLoad
import DssSdk.Host.PathProgress
import DssSdk.Host.Transparency

/-!
# What the load of a path counts

The counters of `DssSdk.Host.PathLoad` in runs of calls.

* `LoadInv`: the counters are those of the I/Os in flight, each of which still has the value length that
  it was started with;
* `loadAccounted_of_run`: the counters in every run whose steps meet the condition `Fits`;
* `not_accounted_hit`: a retrieve that the read cache answers with a shorter value.
-/

namespace DssSdk.Host.Load

open Run Listing

/-! ### Sums over the calls -/

section
variable {h : UInt64} {fs gs : List Flight} {f g : Flight} {i : ℕ}

theorem number_perm (hp : fs.Perm gs) : number h fs = number h gs := (hp.filter _).length_eq

theorem totalSize_perm (hp : fs.Perm gs) : totalSize h fs = totalSize h gs :=
  ((hp.filter _).map _).sum_eq

theorem number_cons : number h (f :: fs) = (if f.On h then 1 else 0) + number h fs := by
  unfold number
  by_cases hon : f.On h
  · rw [List.filter_cons_of_pos (by simpa using hon), List.length_cons, if_pos hon, Nat.add_comm]
  · rw [List.filter_cons_of_neg (by simpa using hon), if_neg hon, Nat.zero_add]

theorem totalSize_cons : totalSize h (f :: fs) = (if f.On h then f.size else 0) + totalSize h fs := by
  unfold totalSize
  by_cases hon : f.On h
  · rw [List.filter_cons_of_pos (by simpa using hon), List.map_cons, List.sum_cons, if_pos hon]
  · rw [List.filter_cons_of_neg (by simpa using hon), if_neg hon, Nat.zero_add]

theorem perm_erase (hi : fs[i]? = some f) : fs.Perm (f :: fs.eraseIdx i) := by
  obtain ⟨hlt, rfl⟩ := List.getElem?_eq_some_iff.1 hi
  exact (List.getElem_cons_eraseIdx_perm hlt).symm

theorem perm_set (hi : fs[i]? = some f) : (fs.set i g).Perm (g :: fs.eraseIdx i) :=
  List.set_perm_cons_eraseIdx (List.getElem?_eq_some_iff.1 hi).1 g

theorem number_erase (hi : fs[i]? = some f) :
    number h fs = (if f.On h then 1 else 0) + number h (fs.eraseIdx i) :=
  (number_perm (perm_erase hi)).trans number_cons

theorem totalSize_erase (hi : fs[i]? = some f) :
    totalSize h fs = (if f.On h then f.size else 0) + totalSize h (fs.eraseIdx i) :=
  (totalSize_perm (perm_erase hi)).trans totalSize_cons

theorem number_set (hi : fs[i]? = some f) :
    number h (fs.set i g) = (if g.On h then 1 else 0) + number h (fs.eraseIdx i) :=
  (number_perm (perm_set hi)).trans number_cons

theorem totalSize_set (hi : fs[i]? = some f) :
    totalSize h (fs.set i g) = (if g.On h then g.size else 0) + totalSize h (fs.eraseIdx i) :=
  (totalSize_perm (perm_set hi)).trans totalSize_cons

theorem not_on_choosing (hf : f.phase = .choosing) : ¬ f.On h := fun hon => hon.1 hf

theorem number_snoc (hf : f.phase = .choosing) : number h (fs ++ [f]) = number h fs := by
  rw [number_perm List.perm_append_comm, List.singleton_append, number_cons,
    if_neg (not_on_choosing hf), Nat.zero_add]

theorem totalSize_snoc (hf : f.phase = .choosing) : totalSize h (fs ++ [f]) = totalSize h fs := by
  rw [totalSize_perm List.perm_append_comm, List.singleton_append, totalSize_cons,
    if_neg (not_on_choosing hf), Nat.zero_add]

end

/-! ### The paths of a target -/

theorem mem_modify {t : NkvTarget} {h : UInt64} {g : TargetPath → TargetPath} {e : UInt64 × TargetPath}
    (he : e ∈ (t.modify h g).pathMap) :
    ∃ p, (e.1, p) ∈ t.pathMap ∧ e.2 = if e.1 = h then g p else p := by
  obtain ⟨e₀, he₀, rfl⟩ := List.mem_map.1 he
  by_cases hh : e₀.1 = h
  · exact ⟨e₀.2, by rw [if_pos hh]; exact he₀, by rw [if_pos hh, if_pos hh]⟩
  · exact ⟨e₀.2, by rw [if_neg hh]; exact he₀, by rw [if_neg hh, if_neg hh]⟩

theorem execute_pathMap {t t' : NkvTarget} {h : UInt64}
    (hex : loadBalanceExecute t = .selected h t') : t'.pathMap = t.pathMap := by
  unfold loadBalanceExecute executeFailover at hex
  repeat' split at hex
  all_goals cases hex
  all_goals rfl

theorem getPath_pathMap {fuel : ℕ} {t t' : NkvTarget} {visited visited' : Finset UInt64} {sel : UInt64}
    {r : Selection} (h : loadBalanceGetPath fuel t visited sel = some (t', visited', r)) :
    t'.pathMap = t.pathMap := by
  induction fuel generalizing t visited sel with
  | zero => cases h
  | succ fuel ih =>
    rw [loadBalanceGetPath] at h
    split at h
    · cases h
      rfl
    · split at h
      · cases h
        rfl
      · cases h
        rfl
      · rename_i path t₁ hex
        have hmap := execute_pathMap hex
        split at h
        · exact (ih h).trans hmap
        · split at h
          · cases h
            exact hmap
          · split at h
            · cases h
              exact hmap
            · exact (ih h).trans hmap

/-! ### The invariant -/

/-- The counters of the paths are those of the calls. -/
def Counts (t : NkvTarget) (fs : List Flight) : Prop :=
  ∀ e ∈ t.pathMap, e.2.pendingIoNumber.toNat = number e.1 fs ∧ e.2.pendingIoSize.toNat = totalSize e.1 fs

/-- An I/O is counted with its value length, which it keeps. -/
def Flight.Good (f : Flight) : Prop :=
  f.phase ≠ .choosing →
    countedSize f.io.op f.started = some (UInt64.ofNat f.size) ∧ f.valueLength = f.started

/-- The counters are those of the calls, and the I/Os keep their value lengths. -/
structure LoadInv (s : LoadState) : Prop where
  counts : Counts s.target s.flights
  good : ∀ f ∈ s.flights, f.Good

theorem Flight.size_lt (f : Flight) : f.size < 2 ^ 64 := by
  unfold Flight.size
  split
  · exact f.started.toNat_lt
  · exact f.started.toNat_lt
  · norm_num

theorem Flight.size_toNat (f : Flight) : (UInt64.ofNat f.size).toNat = f.size := by
  rw [UInt64.toNat_ofNat']
  exact Nat.mod_eq_of_lt f.size_lt

theorem countedSize_started {f : Flight} (h1 : f.io.op ≠ .storeRdd) (h2 : f.io.op ≠ .retrieveRdd)
    (h3 : f.io.op ≠ .unknown) : countedSize f.io.op f.started = some (UInt64.ofNat f.size) := by
  unfold Flight.size
  cases hio : f.io with
  | store rdd =>
    rw [hio] at h1
    cases rdd with
    | true => exact absurd rfl h1
    | false => simp [PathIo.op, countedSize]
  | retrieve rdd =>
    rw [hio] at h2
    cases rdd with
    | true => exact absurd rfl h2
    | false => simp [PathIo.op, countedSize]
  | delete => rfl
  | lock => rfl
  | unlock => rfl
  | unknown =>
    rw [hio] at h3
    exact absurd rfl h3

section
variable {t : NkvTarget} {fs gs : List Flight} {f g : Flight} {i : ℕ}

theorem Counts.congr {t' : NkvTarget} (h : Counts t fs) (hmap : t'.pathMap = t.pathMap)
    (hnum : ∀ k, number k gs = number k fs) (hsize : ∀ k, totalSize k gs = totalSize k fs) :
    Counts t' gs := by
  intro e he
  rw [hmap] at he
  rw [hnum, hsize]
  exact h e he

theorem Counts.erase {t' : NkvTarget} (h : Counts t fs) (hmap : t'.pathMap = t.pathMap)
    (hi : fs[i]? = some f) (hf : f.phase = .choosing) : Counts t' (fs.eraseIdx i) := by
  apply h.congr hmap
  · intro k
    rw [number_erase hi, if_neg (not_on_choosing hf), Nat.zero_add]
  · intro k
    rw [totalSize_erase hi, if_neg (not_on_choosing hf), Nat.zero_add]

/-- A call goes on with the same I/O. -/
theorem Counts.set (h : Counts t fs) (hi : fs[i]? = some f) (hon : ∀ k, g.On k ↔ f.On k)
    (hsize : g.size = f.size) : Counts t (fs.set i g) := by
  apply h.congr rfl
  · intro k
    rw [number_set hi, number_erase hi]
    simp only [hon k]
  · intro k
    rw [totalSize_set hi, totalSize_erase hi, hsize]
    simp only [hon k]

theorem Counts.beginIo {h : UInt64} {op : WhichOp} {len : UInt64} (hc : Counts t fs)
    (hi : fs[i]? = some f) (hf : f.phase = .choosing) (hg : g.phase ≠ .choosing) (hpath : g.path = h)
    (hcounted : countedSize op len = some (UInt64.ofNat g.size))
    (hnum : number h fs + 1 < 2 ^ 32) (hsize : totalSize h fs + g.size < 2 ^ 64) :
    Counts (t.beginIo h op len) (fs.set i g) := by
  intro e he
  rw [NkvTarget.beginIo, hcounted] at he
  obtain ⟨p, hp, hval⟩ := mem_modify he
  have hn := (number_erase (h := e.1) hi).trans (by rw [if_neg (not_on_choosing hf), Nat.zero_add])
  have hs := (totalSize_erase (h := e.1) hi).trans (by rw [if_neg (not_on_choosing hf), Nat.zero_add])
  rw [number_set hi, totalSize_set hi, ← hn, ← hs, hval]
  obtain ⟨h1, h2⟩ := hc _ hp
  by_cases hk : e.1 = h
  · have hon : g.On e.1 := ⟨hg, hpath.trans hk.symm⟩
    rw [if_pos hk, if_pos hon, if_pos hon]
    simp only [hk] at h1 h2 ⊢
    constructor
    · rw [TargetPath.begin, UInt32.toNat_add, h1, Nat.mod_eq_of_lt (by simpa using hnum), Nat.add_comm]
      rfl
    · rw [TargetPath.begin, UInt64.toNat_add, Flight.size_toNat, h2, Nat.mod_eq_of_lt hsize, Nat.add_comm]
  · have hon : ¬ g.On e.1 := fun hon => hk (hon.2.symm.trans hpath)
    rw [if_neg hk, if_neg hon, if_neg hon, Nat.zero_add, Nat.zero_add]
    exact ⟨h1, h2⟩

theorem Counts.le {e : UInt64 × TargetPath} (hc : Counts t fs) (hi : fs[i]? = some f) (hon : f.On e.1)
    (he : e ∈ t.pathMap) :
    1 ≤ e.2.pendingIoNumber.toNat ∧ f.size ≤ e.2.pendingIoSize.toNat := by
  obtain ⟨h1, h2⟩ := hc e he
  rw [h1, h2, number_erase hi, totalSize_erase hi, if_pos hon, if_pos hon]
  omega

theorem Counts.completeIo {op : WhichOp} {len : UInt64} (hc : Counts t fs) (hi : fs[i]? = some f)
    (hf : f.phase ≠ .choosing) (hcounted : countedSize op len = some (UInt64.ofNat f.size))
    (hnum : ∀ k, number k gs = number k (fs.eraseIdx i))
    (hsize : ∀ k, totalSize k gs = totalSize k (fs.eraseIdx i)) :
    Counts (t.completeIo f.path op len) gs := by
  intro e he
  rw [NkvTarget.completeIo, hcounted] at he
  obtain ⟨p, hp, hval⟩ := mem_modify he
  rw [hnum, hsize, hval]
  obtain ⟨h1, h2⟩ := hc _ hp
  simp only [number_erase hi, totalSize_erase hi] at h1 h2
  by_cases hk : e.1 = f.path
  · have hon : f.On e.1 := ⟨hf, hk.symm⟩
    obtain ⟨hle, hle'⟩ := hc.le (e := (e.1, p)) hi hon hp
    rw [if_pos hon] at h1 h2
    rw [if_pos hk]
    constructor
    · have hone : 1 ≤ p.pendingIoNumber := UInt32.le_iff_toNat_le.2 hle
      rw [TargetPath.complete, UInt32.toNat_sub_of_le _ _ hone, h1, Nat.add_comm]
      rfl
    · have hsub : UInt64.ofNat f.size ≤ p.pendingIoSize := by
        rw [UInt64.le_iff_toNat_le, Flight.size_toNat]
        exact hle'
      rw [TargetPath.complete, UInt64.toNat_sub_of_le _ _ hsub, Flight.size_toNat, h2,
        Nat.add_sub_cancel_left]
  · have hon : ¬ f.On e.1 := fun hon => hk hon.2.symm
    rw [if_neg hk]
    rw [if_neg hon, Nat.zero_add] at h1 h2
    exact ⟨h1, h2⟩

end

/-! ### Steps -/

section
variable {conf : LoadConf} {s s' : LoadState} {i fuel : ℕ} {f g : Flight}

theorem good_erase (h : ∀ f ∈ s.flights, f.Good) : ∀ f ∈ s.flights.eraseIdx i, f.Good :=
  fun f hf => h f (List.mem_of_mem_eraseIdx hf)

theorem good_set (h : ∀ f ∈ s.flights, f.Good) (hg : g.Good) : ∀ f ∈ s.flights.set i g, f.Good := by
  intro f hf
  rcases List.mem_or_eq_of_mem_set hf with hmem | rfl
  · exact h f hmem
  · exact hg

theorem LoadInv.choose (h : LoadInv s) (hi : s.flights[i]? = some f) (hf : f.phase = .choosing)
    (hok : Fits conf s (.choose i fuel)) (hs : choose s i fuel f = some s') : LoadInv s' := by
  obtain ⟨hst, hrt, hroom⟩ := hok f hi
  unfold Load.choose at hs
  split at hs
  · cases hs
  · cases hs
  · rename_i t visited hget
    cases hs
    exact ⟨h.counts.erase (getPath_pathMap hget) hi hf, good_erase h.good⟩
  · rename_i t visited path hget
    have hmap := getPath_pathMap hget
    split at hs
    · cases hs
    · rename_i p hfind
      split at hs
      · cases hs
        exact ⟨h.counts.erase hmap hi hf, good_erase h.good⟩
      · rename_i hup
        push Not at hup
        cases hs
        have hcounts : Counts t s.flights := h.counts.congr hmap (fun _ => rfl) fun _ => rfl
        have hmem : (path, p) ∈ s.target.pathMap := hmap ▸ NkvTarget.find_eq_some hfind
        have hlive : p.pathStatus = true := by simpa using hup.1
        obtain ⟨hnum, hsize⟩ := hroom _ hmem hlive
        have hcounted := countedSize_started (f := { f with
          visited := visited, phase := .running, path := path, started := f.valueLength }) hst hrt hup.2
        have hle : Flight.size { f with
            visited := visited, phase := .running, path := path, started := f.valueLength } ≤
            f.valueLength.toNat := by
          unfold Flight.size
          split
          · exact le_rfl
          · exact le_rfl
          · exact Nat.zero_le _
        refine ⟨hcounts.beginIo hi hf (fun hc => by cases hc) rfl hcounted hnum ?_, ?_⟩
        · exact (Nat.add_le_add_left hle _).trans_lt hsize
        · exact good_set h.good fun _ => ⟨hcounted, rfl⟩

theorem retrieveFromDevice_length {c : ReadConf} {on delete : Bool} {p p' : Path} {k : Bytes} {n : ℕ}
    {out : Outcome} (h : retrieveFromDevice c on p k n delete = some (p', out)) : out.length = n := by
  unfold retrieveFromDevice at h
  repeat' split at h
  all_goals cases h
  all_goals rfl

theorem retrieveDirect_length (c : ReadConf) (p : Path) (k : Bytes) (n : ℕ) (delete : Bool) :
    (retrieveDirect c p k n delete).2.length = n := by
  unfold retrieveDirect
  repeat' split
  all_goals rfl

theorem doRetrieveIoFromPath_length {p p' : Path} {k : Bytes} {n : UInt64} {opt : RetrieveOption}
    {r : Rdma} {rdd : Bool} {n₀ : UInt64} {out : Outcome}
    (hok : HitKeeps conf p n (.retrieve rdd k n₀ opt r))
    (h : doRetrieveIoFromPath conf.read conf.cacheOn p k n.toNat opt r = some (p', out)) :
    UInt64.ofNat out.length = n := by
  unfold doRetrieveIoFromPath at h
  split at h
  · cases h
    exact UInt64.ofNat_toNat
  rename_i hkey
  split at h
  · cases h
    exact UInt64.ofNat_toNat
  rename_i hmax
  split at h
  · obtain rfl := congrArg Prod.snd (Option.some.inj h)
    rw [retrieveDirect_length]
    exact UInt64.ofNat_toNat
  rename_i hrdd
  split at h
  · rename_i hlooks
    split at h
    · cases h
      exact UInt64.ofNat_toNat
    · rename_i w hne hcached
      cases h
      have hhit : CacheHit conf p k := ⟨hlooks.1, hlooks.2, by rw [hcached]; rfl⟩
      exact hok hkey (not_lt.1 hmax) (by simpa using hrdd) hhit w hcached hne
    · cases h
  · rw [retrieveFromDevice_length h]
    exact UInt64.ofNat_toNat

theorem performSync_length {p p' : Path} {n : UInt64} {fault : Option SendStatus} {io : PathIo}
    {out : IoOutcome} (hok : HitKeeps conf p n io)
    (hp : performSync conf p n fault io = some (p', out)) : out.valueLength = n := by
  cases io with
  | store rdd k v opt r =>
    simp only [performSync] at hp
    split at hp
    all_goals cases hp
    all_goals rfl
  | retrieve rdd k n₀ opt r =>
    have hdo : ∀ {q : Path × IoOutcome},
        ((doRetrieveIoFromPath conf.read conf.cacheOn p k n.toNat opt r).map fun res =>
          (res.1, (⟨statusOf res.2.result, UInt64.ofNat res.2.length⟩ : IoOutcome))) = some q →
        q.2.valueLength = n := by
      intro q hq
      obtain ⟨⟨p'', out'⟩, hres, rfl⟩ := Option.map_eq_some_iff.1 hq
      exact doRetrieveIoFromPath_length hok hres
    simp only [performSync] at hp
    split at hp
    · split at hp
      · cases hp
        rfl
      · exact hdo hp
    · exact hdo hp
  | delete k =>
    simp only [performSync] at hp
    split at hp
    all_goals cases hp
    all_goals rfl
  | lock k =>
    cases hp
    rfl
  | unlock k =>
    cases hp
    rfl
  | unknown => cases hp

theorem performAsync_submits {p : Path} {n : UInt64} {io : PathIo} (hapi : conf.read.samsungApi = true)
    (hok : Submits conf p n io) {res : Path × Option SendStatus}
    (hp : performAsync conf p n none io = some res) : res.2 = none := by
  cases io with
  | store rdd k v opt r =>
    have herr : storeError conf.read k v opt ⟨0, 0, none⟩ = none := hok
    simp only [performAsync, herr, if_pos hapi] at hp
    cases hp
    rfl
  | retrieve rdd k n₀ opt r =>
    obtain ⟨hkey, hmax, hhit⟩ := hok
    simp only [performAsync, if_neg hkey, if_neg (not_lt.2 hmax), if_neg hhit, if_pos hapi] at hp
    split at hp
    · cases hp
    · cases hp
      rfl
  | delete k =>
    have hkey : ¬ KeyBad conf.read k := hok
    simp only [performAsync, if_neg hkey, if_pos hapi] at hp
    cases hp
    rfl
  | lock | unlock | unknown => exact absurd hok id

theorem LoadInv.perform {fault : Option SendStatus} (h : LoadInv s) (hi : s.flights[i]? = some f)
    (hf : f.phase = .running) (hok : Fits conf s (.perform i fault))
    (hs : perform conf s i f fault = some s') : LoadInv s' := by
  have hfit := hok f hi
  have hgood := h.good f (List.mem_of_getElem? hi)
  have hne : f.phase ≠ .choosing := by
    rw [hf]
    exact fun hc => by cases hc
  obtain ⟨hcounted, hkept⟩ := hgood hne
  unfold Load.perform at hs
  by_cases hsync : f.sync
  · rw [if_pos hsync] at hs hfit
    obtain ⟨⟨p', out⟩, hres, rfl⟩ := Option.map_eq_some_iff.1 hs
    have hlen := performSync_length hfit hres
    refine ⟨h.counts.set hi (fun k => ?_) rfl, good_set h.good fun _ => ⟨hcounted, hlen.trans hkept⟩⟩
    exact ⟨fun hon => ⟨hne, hon.2⟩, fun hon => ⟨(fun hc => by cases hc), hon.2⟩⟩
  · rw [if_neg hsync] at hs hfit
    obtain ⟨hapi, rfl, hsub⟩ := hfit
    obtain ⟨res, hres, rfl⟩ := Option.map_eq_some_iff.1 hs
    simp only [performAsync_submits hapi hsub hres]
    refine ⟨h.counts.set hi (fun k => ?_) rfl, good_set h.good fun _ => ⟨hcounted, hkept⟩⟩
    exact ⟨fun hon => ⟨hne, hon.2⟩, fun hon => ⟨(fun hc => by cases hc), hon.2⟩⟩

theorem LoadInv.account {status : SendStatus} (h : LoadInv s) (hi : s.flights[i]? = some f)
    (hf : f.phase = .returned status) : LoadInv (account s i f status) := by
  have hne : f.phase ≠ .choosing := by
    rw [hf]
    exact fun hc => by cases hc
  obtain ⟨hcounted, hkept⟩ := h.good f (List.mem_of_getElem? hi) hne
  rw [← hkept] at hcounted
  by_cases hretry : status = .errIo ∧ f.visited.card < s.target.pathCount
  · rw [Load.account, if_pos hretry]
    refine ⟨h.counts.completeIo hi hne hcounted ?_ ?_, good_set h.good fun hc => absurd rfl hc⟩
    · intro k
      rw [number_set hi, if_neg (not_on_choosing rfl), Nat.zero_add]
    · intro k
      rw [totalSize_set hi, if_neg (not_on_choosing rfl), Nat.zero_add]
  · rw [Load.account, if_neg hretry]
    exact ⟨h.counts.completeIo hi hne hcounted (fun _ => rfl) fun _ => rfl, good_erase h.good⟩

/-- A step keeps the invariant. -/
theorem LoadInv.step {ev : LoadEvent} (h : LoadInv s) (hok : Fits conf s ev)
    (hs : loadStep conf s ev = some s') : LoadInv s' := by
  cases ev with
  | submit io sync =>
    cases hs
    refine ⟨h.counts.congr rfl (fun _ => number_snoc rfl) fun _ => totalSize_snoc rfl, fun f hf => ?_⟩
    rcases List.mem_append.1 hf with hold | hnew
    · exact h.good f hold
    · rw [List.mem_singleton.1 hnew]
      exact fun hc => absurd rfl hc
  | pathStatus k up =>
    cases hs
    refine ⟨fun e he => ?_, h.good⟩
    obtain ⟨p, hp, hval⟩ := mem_modify he
    obtain ⟨h1, h2⟩ := h.counts _ hp
    rw [hval]
    split
    · exact ⟨h1, h2⟩
    · exact ⟨h1, h2⟩
  | choose i fuel =>
    simp only [loadStep] at hs
    split at hs
    · rename_i f hi
      split at hs
      · rename_i hf
        exact h.choose hi hf hok hs
      · cases hs
    · cases hs
  | perform i fault =>
    simp only [loadStep] at hs
    split at hs
    · rename_i f hi
      split at hs
      · rename_i hf
        exact h.perform hi hf hok hs
      · cases hs
    · cases hs
  | account i =>
    simp only [loadStep] at hs
    split at hs
    · rename_i f hi
      split at hs
      · rename_i status hf
        cases hs
        exact h.account hi hf
      · cases hs
    · cases hs
  | aioCompletion i fault => exact absurd hok id

end

/-! ### Runs -/

theorem loadInv_init {s : LoadState} (h : Unloaded s) : LoadInv s := by
  refine ⟨fun e he => ?_, fun f hf => ?_⟩
  · obtain ⟨h1, h2⟩ := h.load e he
    rw [h1, h2, h.flights]
    exact ⟨rfl, rfl⟩
  · rw [h.flights] at hf
    cases hf

theorem LoadInv.accounted {s : LoadState} (h : LoadInv s) : Accounted s := by
  refine ⟨fun e he => (h.counts e he).1, fun e he => (h.counts e he).2, ?_, ?_⟩
  · intro f hf status hphase e he hpath size hsize
    have hne : f.phase ≠ .choosing := by
      rw [hphase]
      exact fun hc => by cases hc
    obtain ⟨hcounted, hkept⟩ := h.good f hf hne
    rw [hkept, hcounted] at hsize
    cases hsize
    obtain ⟨i, hi⟩ := List.mem_iff_getElem?.1 hf
    rw [Flight.size_toNat]
    exact h.counts.le hi ⟨hne, hpath.symm⟩ he
  · intro e he hidle
    obtain ⟨h1, h2⟩ := h.counts e he
    have hnil : (s.flights.filter fun f => f.On e.1) = [] := by
      apply List.filter_eq_nil_iff.2
      intro f hf
      simpa using hidle f hf
    rw [number, hnil] at h1
    rw [totalSize, hnil] at h2
    exact ⟨UInt32.toNat_inj.1 h1, UInt64.toNat_inj.1 h2⟩

/-- **The load of the paths in every run.** From a target without load, in every run whose steps meet
the condition the counters of every path are the number and the total value length of the I/Os on it
that are not finished, they do not underflow, and they are zero when there is none. -/
theorem loadAccounted_of_run {conf : LoadConf} {s s' : LoadState} {evs : List LoadEvent} (h : Unloaded s)
    (hok : Admissible (loadStep conf) (Fits conf) s evs) (hrun : run (loadStep conf) s evs = some s') :
    Accounted s' :=
  (run_inv (fun _ _ _ hinv hfit hstep => LoadInv.step hinv hfit hstep) (loadInv_init h) hok hrun).accounted

section
variable (conf : LoadConf)

instance (s : Path) (n : UInt64) (io : PathIo) : Decidable (HitKeeps conf s n io) := by
  unfold HitKeeps
  split <;> infer_instance

instance (s : Path) (n : UInt64) (io : PathIo) : Decidable (Submits conf s n io) := by
  unfold Submits
  split <;> infer_instance

instance (s : LoadState) (ev : LoadEvent) : Decidable (Fits conf s ev) := by
  unfold Fits
  split <;> infer_instance

end

/-- Two paths in turn, with no load, nothing stored and empty caches. -/
def twoPaths : LoadState where
  target := ⟨0, [(1, ⟨true, 0, 0⟩), (2, ⟨true, 0, 0⟩)], [1, 2], 2, 1, 0⟩
  paths := fun _ => ⟨fun _ => none, fun _ => []⟩
  flights := []

theorem unloaded_twoPaths : Unloaded twoPaths := ⟨rfl, by decide⟩

/-- The configuration with the read cache. -/
def loadConf : LoadConf := ⟨smallConf, true, true⟩

/-- A store that fails on the first path and is sent on the second, while an asynchronous store is at the
device; and a retrieve that the cache answers. -/
def retryAndHit : List LoadEvent :=
  [.submit (.store false [97] [1, 2, 3, 4] noOption noRdma) true, .choose 0 5, .perform 0 (some .errIo),
    .account 0, .choose 0 5, .perform 0 none, .account 0,
    .submit (.store false [98] [1, 2] noOption noRdma) false, .choose 0 5, .perform 0 none,
    .submit (.retrieve false [97] 4 ⟨false, false⟩ noRdma) true, .choose 1 5, .perform 1 none, .account 1]

theorem accounted_retryAndHit :
    ∃ s', run (loadStep loadConf) twoPaths retryAndHit = some s' ∧ Accounted s' := by
  have hok : Admissible (loadStep loadConf) (Fits loadConf) twoPaths retryAndHit := by decide +kernel
  exact ⟨_, rfl, loadAccounted_of_run unloaded_twoPaths hok rfl⟩

/-- A value of three bytes is stored and retrieved into a buffer of 4096 bytes on the same path: the read
cache answers, and the difference stays in the size that is pending when nothing is outstanding. -/
theorem not_accounted_hit :
    ∃ s', run (loadStep loadConf) { twoPaths with
        target := ⟨0, [(1, ⟨true, 0, 0⟩)], [1], 1, 1, 0⟩ }
      [.submit (.store false [97] [1, 2, 3] noOption noRdma) true, .choose 0 5, .perform 0 none, .account 0,
        .submit (.retrieve false [97] 4096 ⟨false, false⟩ noRdma) true, .choose 0 5, .perform 0 none,
        .account 0] = some s' ∧ s'.flights = [] ∧
      s'.target.pathMap = [(1, ⟨true, 0, 4093⟩)] ∧ ¬ Accounted s' := by
  refine ⟨_, rfl, rfl, rfl, fun h => ?_⟩
  have hsize := h.size _ List.mem_cons_self
  revert hsize
  decide +kernel

end DssSdk.Host.Load
