import DssSdk.Host.ReadCache

/-!
# The read cache does not show

* `Coherent`: an entry of the cache is the value of the device, and an empty entry stands for a key
  that is not there;
* `Regular`: the calls that keep it so;
* `transparent_of_run`: the answers of such calls are the same with the cache and without it.
-/

namespace DssSdk.Host

open Listing

/-! ### The entries of the cache -/

section

variable {l : Lru} {k v : Bytes} {e : Bytes × Bytes} {m : ℕ}

theorem Lru.mem_del : e ∈ l.del k ↔ e ∈ l ∧ e.1 ≠ k := by
  unfold Lru.del
  simp

theorem Lru.mem_put (h : e ∈ l.put m k v) : e = (k, v) ∨ e ∈ l ∧ e.1 ≠ k := by
  have hmem : e ∈ (k, v) :: l.del k := by
    unfold Lru.put at h
    split_ifs at h
    · exact List.mem_of_mem_dropLast h
    · exact h
  rcases List.mem_cons.1 hmem with heq | hmem
  · exact Or.inl heq
  · exact Or.inr (Lru.mem_del.1 hmem)

theorem Lru.mem_of_lookup (h : l.lookup k = some v) : (k, v) ∈ l := by
  unfold Lru.lookup at h
  obtain ⟨e, he, hv⟩ := Option.map_eq_some_iff.1 h
  have hk : e.1 = k := by simpa using List.find?_some he
  have hmem := List.mem_of_find?_eq_some he
  rw [← hk, ← hv]
  exact hmem

theorem Lru.ne_of_lookup_none (h : l.lookup k = none) (he : e ∈ l) : e.1 ≠ k := by
  unfold Lru.lookup at h
  rw [Option.map_eq_none_iff, List.find?_eq_none] at h
  simpa using h e he

theorem Lru.mem_touch (h : e ∈ l.touch m k) : e ∈ l := by
  unfold Lru.touch at h
  cases hl : l.lookup k with
  | none =>
    rw [hl] at h
    exact h
  | some w =>
    rw [hl] at h
    dsimp only at h
    split_ifs at h
    · rcases List.mem_cons.1 h with rfl | h
      · exact Lru.mem_of_lookup hl
      · exact (Lru.mem_del.1 h).1
    · exact h

end

/-! ### The cache and the device -/

/-- A cached value is the one of the device. A value without bytes stands for no value. -/
def Agrees (d : Device) (k w : Bytes) : Prop := if w = [] then d k = none else d k = some w

/-- The cache is right, except perhaps for one key. -/
structure CoherentBut (conf : ReadConf) (k : Bytes) (s : Path) : Prop where
  shard : ∀ i, ∀ e ∈ s.shards i, i = cacheShard conf e.1 ∧ LooksUp conf e.1
  agrees : ∀ i, ∀ e ∈ s.shards i, e.1 ≠ k → Agrees s.device e.1 e.2

/-- The cache is right. -/
structure Coherent (conf : ReadConf) (s : Path) : Prop where
  shard : ∀ i, ∀ e ∈ s.shards i, i = cacheShard conf e.1 ∧ LooksUp conf e.1
  agrees : ∀ i, ∀ e ∈ s.shards i, Agrees s.device e.1 e.2

section

variable {conf : ReadConf} {s : Path} {k v w : Bytes} {d : Device}

/-- The device changes at one key. -/
theorem Coherent.device (h : Coherent conf s) (hd : ∀ j, j ≠ k → d j = s.device j) :
    CoherentBut conf k { s with device := d } := by
  refine ⟨h.shard, fun i e he hne => ?_⟩
  have hagrees := h.agrees i e he
  unfold Agrees at hagrees ⊢
  dsimp only
  rw [hd e.1 hne]
  exact hagrees

/-- The key has no entry. -/
theorem CoherentBut.absent (h : CoherentBut conf k s) (hk : cached conf s k = none) :
    Coherent conf s := by
  refine ⟨h.shard, fun i e he => h.agrees i e he fun heq => ?_⟩
  have hi := (h.shard i e he).1
  rw [heq] at hi
  rw [hi] at he
  exact Lru.ne_of_lookup_none hk he heq

theorem mem_update_shards {i j : ℕ} {l : Lru} {e : Bytes × Bytes}
    (h : e ∈ Function.update s.shards j l i) : e ∈ l ∧ i = j ∨ e ∈ s.shards i ∧ i ≠ j := by
  by_cases hij : i = j
  · rw [hij, Function.update_self] at h
    exact Or.inl ⟨h, hij⟩
  · rw [Function.update_of_ne hij] at h
    exact Or.inr ⟨h, hij⟩

theorem CoherentBut.put (h : CoherentBut conf k s) (hlooks : LooksUp conf k)
    (hv : Agrees s.device k v) : Coherent conf (cachePut conf s k v) := by
  have hmem : ∀ i, ∀ e ∈ (cachePut conf s k v).shards i,
      (i = cacheShard conf k ∧ e = (k, v)) ∨ e ∈ s.shards i ∧ e.1 ≠ k := by
    intro i e he
    rcases mem_update_shards he with ⟨he, hi⟩ | ⟨he, hi⟩
    · rcases Lru.mem_put he with heq | ⟨he, hne⟩
      · exact Or.inl ⟨hi, heq⟩
      · exact Or.inr ⟨hi ▸ he, hne⟩
    · refine Or.inr ⟨he, fun heq => hi ?_⟩
      rw [← heq]
      exact (h.shard i e he).1
  constructor
  · intro i e he
    rcases hmem i e he with ⟨hi, rfl⟩ | ⟨he, -⟩
    · exact ⟨hi, hlooks⟩
    · exact h.shard i e he
  · intro i e he
    rcases hmem i e he with ⟨-, rfl⟩ | ⟨he, hne⟩
    · exact hv
    · exact h.agrees i e he hne

theorem CoherentBut.del (h : CoherentBut conf k s) : Coherent conf (cacheDel conf s k) := by
  have hmem : ∀ i, ∀ e ∈ (cacheDel conf s k).shards i, e ∈ s.shards i ∧ e.1 ≠ k := by
    intro i e he
    rcases mem_update_shards he with ⟨he, hi⟩ | ⟨he, hi⟩
    · rw [hi]
      exact Lru.mem_del.1 he
    · refine ⟨he, fun heq => hi ?_⟩
      rw [← heq]
      exact (h.shard i e he).1
  exact ⟨fun i e he => h.shard i e (hmem i e he).1,
    fun i e he => h.agrees i e (hmem i e he).1 (hmem i e he).2⟩

theorem Coherent.touch (h : Coherent conf s) (k : Bytes) : Coherent conf (cacheTouch conf s k) := by
  have hmem : ∀ i, ∀ e ∈ (cacheTouch conf s k).shards i, e ∈ s.shards i := by
    intro i e he
    rcases mem_update_shards he with ⟨he, hi⟩ | ⟨he, -⟩
    · rw [hi]
      exact Lru.mem_touch he
    · exact he
  exact ⟨fun i e he => h.shard i e (hmem i e he), fun i e he => h.agrees i e (hmem i e he)⟩

/-- A cached value. -/
theorem Coherent.cached (h : Coherent conf s) (hk : cached conf s k = some w) :
    LooksUp conf k ∧ Agrees s.device k w := by
  have hmem := Lru.mem_of_lookup hk
  exact ⟨(h.shard _ _ hmem).2, h.agrees _ _ hmem⟩

theorem Coherent.uncached (h : Coherent conf s) (hlooks : ¬ LooksUp conf k) :
    Host.cached conf s k = none := by
  rw [Option.eq_none_iff_forall_ne_some]
  intro w hw
  exact hlooks (h.cached hw).1

theorem looksUp_of_puts {len : ℕ} (h : Puts conf k len) : LooksUp conf k :=
  ⟨h.1, h.2.imp_right fun h => h.1⟩

end

/-! ### The calls -/

/-- A store that keeps the cache right: one that goes by the cache is not of a cached key, and one
that goes into it leaves the device with the value of the caller, which has bytes. -/
def StoreFits (conf : ReadConf) (s : Path) (k v : Bytes) (opt : StoreOption) (r : Rdma) : Prop :=
  if rddRoute conf opt.rdd v.length r = true ∨ ¬ Puts conf k v.length then cached conf s k = none
  else v ≠ [] ∧ (storeType conf opt = .append → (s.device k).getD [] = [])

/-- A retrieve that asks the cache: it has an entry for the key, and when this is a value, then the
buffer has its length and the key stays on the device. -/
def HitFits (conf : ReadConf) (s : Path) (k : Bytes) (n : ℕ) (opt : RetrieveOption) : Prop :=
  ∃ w ∈ cached conf s k, w ≠ [] → n = w.length ∧ opt.delete = false

/-- A retrieve that does not ask the cache: it does not come to the shard of a key that does not
exist. -/
def PassFits (conf : ReadConf) (s : Path) (k : Bytes) : Prop :=
  conf.samsungApi = false → s.device k = none → ¬ conf.iterPrefix <+: k

/-- A retrieve that keeps the cache right. -/
def RetrieveFits (conf : ReadConf) (s : Path) (k : Bytes) (n : ℕ) (opt : RetrieveOption)
    (r : Rdma) : Prop :=
  if rddRoute conf opt.rdd n r = true then
    conf.samsungApi = true → opt.delete = true → cached conf s k = none
  else if LooksUp conf k then HitFits conf s k n opt
  else PassFits conf s k

/-- The calls that keep the cache right. -/
def Fits (conf : ReadConf) (s : Path) : Call → Prop
  | .store k v opt r => storeError conf k v opt r = none →
      (Device.store (storeType conf opt) s.device k v).2 = .success → StoreFits conf s k v opt r
  | .retrieve k n opt r => ¬ KeyBad conf k → n ≤ conf.maxValueLength → RetrieveFits conf s k n opt r
  | .delete _ => True

instance (conf : ReadConf) (s : Path) (k v : Bytes) (opt : StoreOption) (r : Rdma) :
    Decidable (StoreFits conf s k v opt r) :=
  inferInstanceAs (Decidable (if rddRoute conf opt.rdd v.length r = true ∨ ¬ Puts conf k v.length
    then cached conf s k = none
    else v ≠ [] ∧ (storeType conf opt = .append → (s.device k).getD [] = [])))

instance (conf : ReadConf) (s : Path) (k : Bytes) (n : ℕ) (opt : RetrieveOption) :
    Decidable (HitFits conf s k n opt) :=
  inferInstanceAs (Decidable (∃ w ∈ cached conf s k, w ≠ [] → n = w.length ∧ opt.delete = false))

instance (conf : ReadConf) (s : Path) (k : Bytes) : Decidable (PassFits conf s k) :=
  inferInstanceAs (Decidable (_ → _ → _))

instance (conf : ReadConf) (s : Path) (k : Bytes) (n : ℕ) (opt : RetrieveOption) (r : Rdma) :
    Decidable (RetrieveFits conf s k n opt r) :=
  inferInstanceAs (Decidable (if rddRoute conf opt.rdd n r = true
    then conf.samsungApi = true → opt.delete = true → cached conf s k = none
    else if LooksUp conf k then HitFits conf s k n opt else PassFits conf s k))

instance (conf : ReadConf) (s : Path) : ∀ c, Decidable (Fits conf s c)
  | .store _ _ _ _ => inferInstanceAs (Decidable (_ → _ → _))
  | .retrieve _ _ _ _ => inferInstanceAs (Decidable (_ → _ → _))
  | .delete _ => inferInstanceAs (Decidable True)

section

variable {conf : ReadConf} {s t : Path} {k v w : Bytes} {d : Device}

theorem store_other {ty : StoreType} {j : Bytes} (hj : j ≠ k) :
    (Device.store ty d k v).1 j = d j := by
  unfold Device.store
  split <;> simp [hj]

theorem store_success {ty : StoreType} (h : (Device.store ty d k v).2 = .success)
    (happend : ty = .append → (d k).getD [] = []) : (Device.store ty d k v).1 k = some v := by
  unfold Device.store at h ⊢
  split at h
  · cases h
  · cases h
  · rename_i w hk
    have hw := happend rfl
    rw [hk, Option.getD_some] at hw
    simp [hw]
  · simp

theorem store_error {ty : StoreType} (h : (Device.store ty d k v).2 ≠ .success) :
    (Device.store ty d k v).1 = d := by
  unfold Device.store at h ⊢
  split at h
  · rfl
  · rfl
  · exact absurd rfl h
  · exact absurd rfl h

/-- What a call with the cache and one without it have in common. -/
structure Same {α : Type} (conf : ReadConf) (p q : Path × α) : Prop where
  answer : p.2 = q.2
  device : p.1.device = q.1.device
  coherent : Coherent conf p.1

theorem doStoreIoToPath_same {opt : StoreOption} {r : Rdma} (h : Coherent conf s)
    (ht : s.device = t.device) (hok : Fits conf s (.store k v opt r)) :
    Same conf (doStoreIoToPath conf true s k v opt r) (doStoreIoToPath conf false t k v opt r) := by
  unfold doStoreIoToPath
  cases herr : storeError conf k v opt r with
  | some e => exact ⟨rfl, ht, h⟩
  | none =>
    have hother : ∀ j, j ≠ k → (Device.store (storeType conf opt) s.device k v).1 j = s.device j :=
      fun j hj => store_other hj
    have hsucc := hok herr
    have hvalue : (Device.store (storeType conf opt) s.device k v).2 = .success →
        (storeType conf opt = .append → (s.device k).getD [] = []) →
        (Device.store (storeType conf opt) s.device k v).1 k = some v := store_success
    have hsame : (Device.store (storeType conf opt) s.device k v).2 ≠ .success →
        (Device.store (storeType conf opt) s.device k v).1 = s.device := store_error
    dsimp only
    rw [← ht]
    generalize Device.store (storeType conf opt) s.device k v = res at hother hsucc hvalue hsame ⊢
    obtain ⟨d, e⟩ := res
    have hbut : CoherentBut conf k { s with device := d } := h.device hother
    by_cases he : e = .success
    · subst he
      have hfits := hsucc rfl
      unfold StoreFits at hfits
      dsimp only
      by_cases hrdd : rddRoute conf opt.rdd v.length r = true
      · rw [if_pos hrdd, if_pos hrdd]
        rw [if_pos (Or.inl hrdd)] at hfits
        exact ⟨rfl, rfl, hbut.absent hfits⟩
      · rw [if_neg hrdd, if_neg hrdd]
        by_cases hputs : Puts conf k v.length
        · rw [if_neg (not_or.2 ⟨hrdd, not_not.2 hputs⟩)] at hfits
          rw [if_pos ⟨rfl, hputs⟩, if_neg (by simp)]
          refine ⟨rfl, rfl, hbut.put (looksUp_of_puts hputs) ?_⟩
          unfold Agrees
          rw [if_neg hfits.1]
          exact hvalue rfl hfits.2
        · rw [if_pos (Or.inr hputs)] at hfits
          rw [if_neg (fun hno => hputs hno.2), if_neg (by simp)]
          exact ⟨rfl, rfl, hbut.absent hfits⟩
    · obtain rfl : d = s.device := hsame he
      cases e with
      | success => exact absurd rfl he
      | _ => exact ⟨rfl, rfl, h⟩

theorem doDeleteIoFromPath_same (h : Coherent conf s) (ht : s.device = t.device) :
    Same conf (doDeleteIoFromPath conf true s k) (doDeleteIoFromPath conf false t k) := by
  unfold doDeleteIoFromPath
  by_cases hbad : KeyBad conf k
  · rw [if_pos hbad, if_pos hbad]
    exact ⟨rfl, ht, h⟩
  · rw [if_neg hbad, if_neg hbad]
    have hoff : ¬ (false = true ∧ LooksUp conf k) := by simp
    have hbut : CoherentBut conf k { s with device := s.device.delete k } :=
      h.device fun j hj => Function.update_of_ne hj _ _
    have hdevice : s.device.delete k = t.device.delete k := by rw [ht]
    by_cases hlooks : LooksUp conf k
    · rw [if_pos ⟨rfl, hlooks⟩, if_neg hoff]
      exact ⟨rfl, hdevice, hbut.del⟩
    · rw [if_neg (fun hno => hlooks hno.2), if_neg hoff]
      have habsent : cached conf { s with device := s.device.delete k } k = none := h.uncached hlooks
      exact ⟨rfl, hdevice, hbut.absent habsent⟩

theorem retrieveDirect_same {n : ℕ} {delete : Bool} (h : Coherent conf s) (ht : s.device = t.device)
    (hok : conf.samsungApi = true → delete = true → cached conf s k = none) :
    Same conf (retrieveDirect conf s k n delete) (retrieveDirect conf t k n delete) ∧
      (retrieveDirect conf s k n delete).2.bytes.length ≤ n := by
  unfold retrieveDirect
  by_cases hapi : conf.samsungApi = false
  · rw [if_pos hapi, if_pos hapi]
    exact ⟨⟨rfl, ht, h⟩, Nat.zero_le n⟩
  · rw [if_neg hapi, if_neg hapi]
    unfold Device.retrieve
    rw [← ht]
    cases hk : s.device k with
    | none => exact ⟨⟨rfl, rfl, h⟩, Nat.zero_le n⟩
    | some w =>
      dsimp only
      by_cases hlen : n < w.length
      · rw [if_pos hlen]
        exact ⟨⟨rfl, rfl, h⟩, Nat.zero_le n⟩
      · rw [if_neg hlen]
        refine ⟨⟨rfl, rfl, ?_⟩, Nat.not_lt.1 hlen⟩
        dsimp only
        by_cases hdel : delete = true
        · rw [if_pos hdel]
          have hbut : CoherentBut conf k { s with device := Function.update s.device k none } :=
            h.device fun j hj => Function.update_of_ne hj _ _
          exact hbut.absent (hok (by simpa using hapi) hdel)
        · rw [if_neg hdel]
          exact h

theorem retrieveFromDevice_same {n : ℕ} {opt : RetrieveOption} (h : Coherent conf s)
    (ht : s.device = t.device) (hlooks : ¬ LooksUp conf k) (hok : PassFits conf s k) :
    ∃ p q, retrieveFromDevice conf true s k n opt.delete = some p ∧
      retrieveFromDevice conf false t k n opt.delete = some q ∧ Same conf p q ∧
      p.2.bytes.length ≤ n := by
  have hmiss := h.uncached hlooks
  have hkeep : ∀ (on : Bool) (p : Path) (w : Bytes), keepValue conf on p k w = p :=
    fun on p w => if_neg fun hputs => hlooks (looksUp_of_puts hputs.2.2)
  unfold retrieveFromDevice
  rw [← ht]
  cases hk : s.device k with
  | none =>
    have hret : s.device.retrieve k n opt.delete = (s.device, .errKeyNotExist, []) := by
      unfold Device.retrieve
      rw [hk]
    rw [hret]
    dsimp only
    rw [if_neg (by simp : ¬ (false = true ∧ _))]
    rw [if_neg fun hno => hok hno.2.1 hk hno.2.2.2]
    exact ⟨_, _, rfl, rfl, ⟨rfl, rfl, h⟩, Nat.zero_le n⟩
  | some w =>
    by_cases hlen : n < w.length
    · have hret : s.device.retrieve k n opt.delete = (s.device, .errBufferSmall, []) := by
        unfold Device.retrieve
        rw [hk]
        exact if_pos hlen
      rw [hret]
      dsimp only
      rw [if_neg (by simp), if_neg (by simp)]
      exact ⟨_, _, rfl, rfl, ⟨rfl, rfl, h⟩, Nat.zero_le n⟩
    · have hret : s.device.retrieve k n opt.delete =
          (if opt.delete = true then Function.update s.device k none else s.device, .success, w) := by
        unfold Device.retrieve
        rw [hk]
        exact if_neg hlen
      rw [hret]
      have hbut : CoherentBut conf k { s with
          device := if opt.delete = true then Function.update s.device k none else s.device } := by
        refine h.device fun j hj => ?_
        split_ifs
        · exact Function.update_of_ne hj _ _
        · rfl
      cases w with
      | nil =>
        dsimp only
        by_cases hdel : opt.delete = true
        · -- the first call took the value away
          rw [if_pos hdel] at hbut ⊢
          have hretry : Device.retrieve (Function.update s.device k none) k n opt.delete =
              (Function.update s.device k none, .errKeyNotExist, []) := by
            unfold Device.retrieve
            rw [Function.update_self]
          rw [hretry]
          exact ⟨_, _, rfl, rfl, ⟨rfl, rfl, hbut.absent hmiss⟩, Nat.zero_le n⟩
        · rw [if_neg hdel] at hbut hret ⊢
          rw [hret]
          dsimp only
          rw [hkeep, hkeep]
          exact ⟨_, _, rfl, rfl, ⟨rfl, rfl, h⟩, Nat.zero_le n⟩
      | cons b w =>
        dsimp only
        rw [hkeep, hkeep]
        exact ⟨_, _, rfl, rfl, ⟨rfl, rfl, hbut.absent hmiss⟩, Nat.not_lt.1 hlen⟩

theorem doRetrieveIoFromPath_same {n : ℕ} {opt : RetrieveOption} {r : Rdma} (h : Coherent conf s)
    (ht : s.device = t.device) (hok : Fits conf s (.retrieve k n opt r)) :
    ∃ p q, doRetrieveIoFromPath conf true s k n opt r = some p ∧
      doRetrieveIoFromPath conf false t k n opt r = some q ∧ Same conf p q ∧
      p.2.bytes.length ≤ n := by
  unfold doRetrieveIoFromPath
  by_cases hbad : KeyBad conf k
  · rw [if_pos hbad, if_pos hbad]
    exact ⟨_, _, rfl, rfl, ⟨rfl, ht, h⟩, Nat.zero_le n⟩
  rw [if_neg hbad, if_neg hbad]
  by_cases hmax : conf.maxValueLength < n
  · rw [if_pos hmax, if_pos hmax]
    exact ⟨_, _, rfl, rfl, ⟨rfl, ht, h⟩, Nat.zero_le n⟩
  rw [if_neg hmax, if_neg hmax]
  have hfits := hok hbad (Nat.not_lt.1 hmax)
  unfold RetrieveFits at hfits
  by_cases hrdd : rddRoute conf opt.rdd n r = true
  · rw [if_pos hrdd] at hfits
    rw [if_pos hrdd, if_pos hrdd]
    obtain ⟨hsame, hlen⟩ := retrieveDirect_same (n := n) (k := k) h ht hfits
    exact ⟨_, _, rfl, rfl, hsame, hlen⟩
  rw [if_neg hrdd] at hfits
  rw [if_neg hrdd, if_neg hrdd, if_neg (by simp : ¬ (false = true ∧ LooksUp conf k))]
  by_cases hlooks : LooksUp conf k
  · rw [if_pos hlooks] at hfits
    obtain ⟨w, hc, hw⟩ := hfits
    have hc : cached conf s k = some w := hc
    have hagrees := (h.cached hc).2
    rw [if_pos ⟨rfl, hlooks⟩, hc]
    unfold Agrees at hagrees
    unfold retrieveFromDevice Device.retrieve
    rw [← ht]
    cases w with
    | nil =>
      rw [if_pos rfl] at hagrees
      rw [hagrees]
      exact ⟨_, _, rfl, rfl, ⟨rfl, rfl, h.touch k⟩, Nat.zero_le n⟩
    | cons b w =>
      rw [if_neg (List.cons_ne_nil _ _)] at hagrees
      obtain ⟨hn, hdel⟩ := hw (List.cons_ne_nil _ _)
      subst hn
      rw [hagrees]
      dsimp only
      rw [if_neg (lt_irrefl _), hdel, if_neg (by simp)]
      refine ⟨_, _, rfl, rfl, ⟨rfl, ?_, h.touch k⟩, le_rfl⟩
      unfold keepValue
      rw [if_neg (by simp)]
      rfl
  · rw [if_neg hlooks] at hfits
    rw [if_neg fun hno => hlooks hno.2]
    exact retrieveFromDevice_same h ht hlooks hfits

end

/-! ### Runs -/

/-- The answers are the same with the cache and without it, and no retrieve copies more than fits
into the buffer. -/
def Transparent (conf : ReadConf) (calls : List Call) : Prop :=
  ∃ s t, Run.run (serve conf true) Session.init calls = some s ∧
    Run.run (serve conf false) Session.init calls = some t ∧ s.answers = t.answers ∧
    ∀ n o, .retrieved n o ∈ s.answers → o.bytes.length ≤ n

/-- A session with the cache and one without it. -/
structure Alike (conf : ReadConf) (s t : Session) : Prop where
  coherent : Coherent conf s.path
  device : s.path.device = t.path.device
  answers : s.answers = t.answers
  fits : ∀ n o, .retrieved n o ∈ s.answers → o.bytes.length ≤ n

section

variable {conf : ReadConf} {s t : Session}

theorem Alike.snoc {p q : Path} {a : Answer} (h : Alike conf s t) (hp : Coherent conf p)
    (hd : p.device = q.device) (ha : ∀ n o, a = .retrieved n o → o.bytes.length ≤ n) :
    Alike conf ⟨p, s.answers ++ [a]⟩ ⟨q, t.answers ++ [a]⟩ := by
  refine ⟨hp, hd, by rw [h.answers], fun n o hmem => ?_⟩
  rcases List.mem_append.1 hmem with hmem | hmem
  · exact h.fits n o hmem
  · exact ha n o (List.mem_singleton.1 hmem).symm

theorem Alike.serve {c : Call} (h : Alike conf s t) (hok : Fits conf s.path c) :
    ∃ s' t', serve conf true s c = some s' ∧ serve conf false t c = some t' ∧ Alike conf s' t' := by
  cases c with
  | store k v opt r =>
    have hsame := doStoreIoToPath_same h.coherent h.device hok
    refine ⟨_, _, rfl, rfl, ?_⟩
    rw [← hsame.answer]
    exact h.snoc hsame.coherent hsame.device fun n o hno => (nomatch hno)
  | retrieve k n opt r =>
    obtain ⟨p, q, hp, hq, hsame, hlen⟩ := doRetrieveIoFromPath_same h.coherent h.device hok
    refine ⟨_, _, by rw [Host.serve, hp]; rfl, by rw [Host.serve, hq]; rfl, ?_⟩
    dsimp only
    rw [← hsame.answer]
    refine h.snoc hsame.coherent hsame.device fun n' o ho => ?_
    cases ho
    exact hlen
  | delete k =>
    have hsame := doDeleteIoFromPath_same (k := k) h.coherent h.device
    refine ⟨_, _, rfl, rfl, ?_⟩
    rw [← hsame.answer]
    exact h.snoc hsame.coherent hsame.device fun n o hno => (nomatch hno)

theorem Alike.run {calls : List Call} (h : Alike conf s t)
    (hok : Run.Admissible (Host.serve conf true) (fun s c => Fits conf s.path c) s calls) :
    ∃ s' t', Run.run (Host.serve conf true) s calls = some s' ∧
      Run.run (Host.serve conf false) t calls = some t' ∧ Alike conf s' t' := by
  induction calls generalizing s t with
  | nil => exact ⟨s, t, rfl, rfl, h⟩
  | cons c calls ih =>
    obtain ⟨s₁, t₁, hs₁, ht₁, h₁⟩ := h.serve hok.1
    obtain ⟨s', t', hs', ht', h'⟩ := ih h₁ (hok.2 s₁ hs₁)
    refine ⟨s', t', ?_, ?_, h'⟩
    · rw [Run.run_cons, hs₁, Option.bind_some, hs']
    · rw [Run.run_cons, ht₁, Option.bind_some, ht']

/-- The cache does not show in a run of calls that keep it right. -/
theorem transparent_of_run {calls : List Call}
    (hok : Run.Admissible (Host.serve conf true) (fun s c => Fits conf s.path c) Session.init calls) :
    Transparent conf calls := by
  have hinit : Alike conf Session.init Session.init :=
    ⟨⟨fun i e he => (nomatch he), fun i e he => (nomatch he)⟩, rfl, rfl, fun n o hno => (nomatch hno)⟩
  obtain ⟨s, t, hs, ht, h⟩ := hinit.run hok
  exact ⟨s, t, hs, ht, h.answers, h.fits⟩

end

/-- A path with a cache of two values of at most four bytes and an RDD connection. -/
def smallConf : ReadConf where
  samsungApi := true
  iterPrefix := [109]
  hash := fun l => l.foldl (fun h b => (h ^^^ b.toUInt64) * 1099511628211) 14695981039346656037
  shardSize := 2
  cacheSize := 2
  useDataCache := true
  dataCacheSizeThreshold := 4
  maxKeyLength := 255
  maxValueLength := 2097152
  rddConn := some 7

/-- No option is set. -/
def noOption : StoreOption := ⟨false, false, false, false, false, false⟩

/-- Neither a key of the client nor a memory region. -/
def noRdma : Rdma := ⟨0, 0, none⟩

/-- A value is stored, retrieved, overwritten, retrieved, deleted, stored and retrieved; a third value
takes the room of the one that was used last the longest ago, and keys of `.minio.sys` do not come to
the cache. -/
def storeAndRetrieve : List Call :=
  [.store [97] [1, 2, 3, 4] noOption noRdma, .retrieve [97] 4 ⟨false, false⟩ noRdma,
    .store [97] [5, 6] noOption noRdma, .retrieve [97] 2 ⟨false, false⟩ noRdma, .delete [97],
    .store [97] [7] noOption noRdma, .store [99] [8] noOption noRdma,
    .retrieve [97] 1 ⟨false, false⟩ noRdma, .store [101] [9] noOption noRdma,
    .retrieve [97] 1 ⟨false, false⟩ noRdma, .store minioSys [1, 2] noOption noRdma,
    .retrieve minioSys 1 ⟨false, false⟩ noRdma, .retrieve minioSys 2 ⟨true, false⟩ noRdma,
    .retrieve minioSys 2 ⟨false, false⟩ noRdma]

theorem transparent_storeAndRetrieve : Transparent smallConf storeAndRetrieve :=
  transparent_of_run (by decide +kernel)

/-- A value is stored, then another one on the RDD route: the cache still has the first. -/
theorem not_transparent_rdd : ¬ Transparent smallConf
    [.store [97] [1, 2, 3, 4] noOption noRdma, .store [97] [5, 6, 7, 8, 9] noOption ⟨0, 0, some 3⟩,
      .retrieve [97] 8 ⟨false, false⟩ noRdma] := by
  rintro ⟨s, t, hs, ht, heq, -⟩
  have hne : (Run.run (serve smallConf true) Session.init
      [.store [97] [1, 2, 3, 4] noOption noRdma, .store [97] [5, 6, 7, 8, 9] noOption ⟨0, 0, some 3⟩,
        .retrieve [97] 8 ⟨false, false⟩ noRdma]).map Session.answers ≠
      (Run.run (serve smallConf false) Session.init
      [.store [97] [1, 2, 3, 4] noOption noRdma, .store [97] [5, 6, 7, 8, 9] noOption ⟨0, 0, some 3⟩,
        .retrieve [97] 8 ⟨false, false⟩ noRdma]).map Session.answers := by decide +kernel
  rw [hs, ht, Option.map_some, Option.map_some, heq] at hne
  exact hne rfl

end DssSdk.Host
