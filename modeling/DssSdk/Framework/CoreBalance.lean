import DssSdk.Framework.CoreSelection

/-!
# The cores of a group are used evenly

* `PeerBalanced`: the counts of every peer are the numbers of its connections, `current_usage` is the
  least of them, and the usage of a core is the sum of its counts;
* `PeerInv`, `PlainInv`: the invariants of the two modes;
* `LeastFirst`: every core before the first least used one is used more than `max_usage`;
* `balanced_of_run`: with peer addresses every connect gets a core that its peer uses least, and
  without them exactly the connects at a `LeastFirst` group get a least used core;
* `countersFit_of_run`: no counter is above the number of open connections.

Without peers the first core within `max_usage` is taken. The value only bounds the usages, since a
disconnect lowers it by the largest usage: a core that is emptied behind a core within the bound is
passed over.
-/

namespace DssSdk.Framework

open Run

/-! ### Lists with one entry changed -/

theorem mem_modify {α : Type} {l : List α} {i : ℕ} {f : α → α} {x : α} :
    x ∈ l.modify i f ↔ ∃ j y, l[j]? = some y ∧ (if i = j then f y else y) = x := by
  rw [List.mem_iff_getElem?]
  apply exists_congr
  intro j
  rw [List.getElem?_modify]
  cases l[j]? <;> simp

theorem modify_map {α β γ : Type} [DecidableEq β] {l : List α} {key : α → β} {i : ℕ} {x : α}
    (hnd : (l.map key).Nodup) (hx : l[i]? = some x) (f : α → γ) (g : γ → γ) :
    (l.map f).modify i g = l.map fun y => if key y = key x then g (f y) else f y := by
  apply List.ext_getElem?
  intro j
  rw [List.getElem?_modify, List.getElem?_map, List.getElem?_map]
  cases hj : l[j]? with
  | none => rfl
  | some y =>
    by_cases hij : i = j
    · subst hij
      rw [hx] at hj
      cases hj
      simp
    · have hne : key y ≠ key x := by
        intro h
        have hi : (l.map key)[i]? = (l.map key)[j]? := by simp [hx, hj, h]
        have hlt : i < (l.map key).length := by
          rw [List.length_map]
          exact (List.getElem?_eq_some_iff.1 hx).1
        exact hij ((List.getElem?_inj hlt hnd).1 hi)
      simp [hij, hne]

/-! ### The least count -/

theorem selectCore_least {us : List ℤ} {cur : ℤ} (hcur : ∀ u ∈ us, cur ≤ u) (hmem : cur ∈ us) :
    ∃ i inc, selectCore cur us = some (some (i, inc)) ∧ us[i]? = some cur ∧
      (inc = true ↔ ∀ j, us[j]? = some cur → j = i) := by
  induction us with
  | nil => cases hmem
  | cons u us ih =>
    by_cases hu : u = cur
    · subst hu
      refine ⟨0, !us.any fun v => v = u, by simp [selectCore], rfl, ?_⟩
      constructor
      · intro h j hj
        cases j with
        | zero => rfl
        | succ j =>
          simp at h
          exact absurd rfl (h u (List.mem_of_getElem? hj))
      · intro h
        simp only [Bool.not_eq_true', List.any_eq_false, decide_eq_true_eq]
        rintro v hv rfl
        obtain ⟨j, hj⟩ := List.mem_iff_getElem?.1 hv
        cases h (j + 1) hj
    · have hlt : cur < u := lt_of_le_of_ne (hcur u List.mem_cons_self) (Ne.symm hu)
      obtain ⟨i, inc, hsel, hi, hinc⟩ :=
        ih (fun v hv => hcur v (List.mem_cons_of_mem _ hv))
          ((List.mem_cons.1 hmem).resolve_left (Ne.symm hu))
      refine ⟨i + 1, inc, ?_, hi, ?_⟩
      · rw [selectCore, if_neg (not_le.2 hlt), hsel]
        rfl
      · rw [hinc]
        constructor
        · intro h j hj
          cases j with
          | zero => exact absurd (Option.some.inj hj) hu
          | succ j => rw [h j hj]
        · intro h j hj
          exact Nat.succ.inj (h (j + 1) hj)

theorem least_connect {us : List ℤ} {cur : ℤ} {i : ℕ} {inc : Bool}
    (hcur : IsLeast {u | u ∈ us} cur) (hi : us[i]? = some cur)
    (hinc : inc = true ↔ ∀ j, us[j]? = some cur → j = i) :
    IsLeast {u | u ∈ us.modify i (· + 1)} (if inc then cur + 1 else cur) := by
  constructor
  · show _ ∈ us.modify i (· + 1)
    rw [mem_modify]
    cases inc with
    | true => exact ⟨i, cur, hi, by simp⟩
    | false =>
      have h : ¬ ∀ j, us[j]? = some cur → j = i := fun h => absurd (hinc.2 h) (by simp)
      push Not at h
      obtain ⟨j, hj, hne⟩ := h
      exact ⟨j, cur, hj, by simp [Ne.symm hne]⟩
  · intro u hu
    obtain ⟨j, v, hj, rfl⟩ := mem_modify.1 hu
    have hv : cur ≤ v := hcur.2 (List.mem_of_getElem? hj)
    cases inc with
    | false =>
      simp only [Bool.false_eq_true, if_false]
      split_ifs <;> omega
    | true =>
      simp only [if_true]
      split_ifs with hij
      · omega
      · have : v ≠ cur := by
          rintro rfl
          exact hij (hinc.1 rfl j hj).symm
        omega

theorem least_release {us : List ℤ} {cur v : ℤ} {i : ℕ} (hcur : IsLeast {u | u ∈ us} cur)
    (hi : us[i]? = some v) :
    IsLeast {u | u ∈ us.modify i (· - 1)} (if v - 1 < cur then cur - 1 else cur) := by
  have hv : cur ≤ v := hcur.2 (List.mem_of_getElem? hi)
  constructor
  · show _ ∈ us.modify i (· - 1)
    rw [mem_modify]
    split_ifs with h
    · exact ⟨i, v, hi, by simp; omega⟩
    · obtain ⟨j, hj⟩ := List.mem_iff_getElem?.1 hcur.1
      have hne : i ≠ j := by
        rintro rfl
        rw [hi] at hj
        have := Option.some.inj hj
        omega
      exact ⟨j, cur, hj, by simp [hne]⟩
  · intro u hu
    obtain ⟨j, w, hj, rfl⟩ := mem_modify.1 hu
    have hw : cur ≤ w := hcur.2 (List.mem_of_getElem? hj)
    by_cases hij : i = j
    · subst hij
      rw [hi] at hj
      cases hj
      split_ifs <;> omega
    · rw [if_neg hij]
      split_ifs <;> omega

/-! ### With peer addresses -/

/-- The counts of a peer are the numbers of its connections on the cores, and `current_usage` is the
least of them. -/
structure PeerOk (ids : List ℕ) (handed : List (Option (List UInt8) × ℕ)) (p : PeerAlloc) : Prop where
  counts : p.peerCpuUsage = ids.map fun id => (handed.count (some p.peerId, id) : ℤ)
  least : IsLeast {u | u ∈ p.peerCpuUsage} p.currentUsage

/-- The sum of the counts of a core. -/
def peersUsage (ps : List PeerAlloc) (i : ℕ) : ℤ := (ps.map fun p => p.peerCpuUsage.getD i 0).sum

/-- The counts of every peer are right, and the usage of a core is their sum. -/
structure PeerBalanced (ids : List ℕ) (s : CoreState) : Prop where
  cores : s.group.cpuList.map CpuInfo.cpuId = ids
  usage : ∀ i c, s.group.cpuList[i]? = some c → c.usage = peersUsage s.group.peerList i
  peers : ∀ p ∈ s.group.peerList, PeerOk ids s.handed p

/-- The invariant with peer addresses: a peer has one entry, and `max_usage` is the sum of the
least counts. -/
structure PeerInv (ids : List ℕ) (s : CoreState) : Prop extends PeerBalanced ids s where
  entries : (s.group.peerList.map PeerAlloc.peerId).Nodup
  handed : ∀ x ∈ s.handed, (∃ p ∈ s.group.peerList, x.1 = some p.peerId) ∧ x.2 ∈ ids
  maxUsage : s.group.maxUsage = (s.group.peerList.map PeerAlloc.currentUsage).sum

theorem atPeer_split {β : Type} {addr : List UInt8} {ps : List PeerAlloc}
    (h : ∃ p ∈ ps, p.peerId = peerKey addr) :
    ∃ pre p post, ps = pre ++ p :: post ∧ p.peerId = peerKey addr ∧
      ∀ f : PeerAlloc → Option (PeerAlloc × β),
        atPeer addr f ps = (f p).map fun x => (pre ++ x.1 :: post, x.2) := by
  induction ps with
  | nil =>
    obtain ⟨p, hp, -⟩ := h
    cases hp
  | cons q qs ih =>
    by_cases hq : q.peerId = peerKey addr
    · exact ⟨[], q, qs, rfl, hq, fun f => by rw [atPeer, if_pos hq]; rfl⟩
    · obtain ⟨p, hp, hkey⟩ := h
      obtain ⟨pre, p', post, rfl, hp', hat⟩ := ih ⟨p, (List.mem_cons.1 hp).resolve_left
        (by rintro rfl; exact hq hkey), hkey⟩
      refine ⟨q :: pre, p', post, rfl, hp', fun f => ?_⟩
      rw [atPeer, if_neg hq, hat]
      cases f p' <;> rfl

theorem PeerInv.replace {ids : List ℕ} {s : CoreState} {pre post : List PeerAlloc} {p p' : PeerAlloc}
    {i : ℕ} {d : ℤ} {handed' : List (Option (List UInt8) × ℕ)} (h : PeerInv ids s)
    (hps : s.group.peerList = pre ++ p :: post) (hkey : p'.peerId = p.peerId)
    (hok : PeerOk ids handed' p')
    (hd : ∀ j, p'.peerCpuUsage.getD j 0 = p.peerCpuUsage.getD j 0 + if i = j then d else 0)
    (hcount : ∀ q id, q ≠ some p.peerId → handed'.count (q, id) = s.handed.count (q, id))
    (hmem : ∀ x ∈ handed', x ∈ s.handed ∨ x.1 = some p.peerId ∧ x.2 ∈ ids) :
    PeerInv ids ⟨⟨s.group.maxUsage + (p'.currentUsage - p.currentUsage),
      s.group.cpuList.modify i fun c => { c with usage := c.usage + d }, pre ++ p' :: post⟩, handed'⟩ := by
  have hnd := h.entries
  rw [hps, List.map_append, List.map_cons] at hnd
  have hother : ∀ q, q ∈ pre ∨ q ∈ post → q.peerId ≠ p.peerId := by
    rw [List.nodup_append] at hnd
    rintro q (hq | hq) heq
    · exact hnd.2.2 _ (List.mem_map_of_mem hq) _ List.mem_cons_self heq
    · exact (List.nodup_cons.1 hnd.2.1).1 (heq ▸ List.mem_map_of_mem hq)
  refine ⟨⟨?_, ?_, ?_⟩, ?_, ?_, ?_⟩
  · show (s.group.cpuList.modify i fun c => { c with usage := c.usage + d }).map CpuInfo.cpuId = ids
    rw [← h.cores]
    apply List.ext_getElem?
    intro j
    rw [List.getElem?_map, List.getElem?_map, List.getElem?_modify]
    cases s.group.cpuList[j]? with
    | none => rfl
    | some c =>
      by_cases hij : i = j <;> simp [hij]
  · intro j c hc
    have hc' : (s.group.cpuList.modify i fun c => { c with usage := c.usage + d })[j]? = some c := hc
    rw [List.getElem?_modify] at hc'
    obtain ⟨c₀, hc₀, rfl⟩ := Option.map_eq_some_iff.1 hc'
    have husage := h.usage j c₀ hc₀
    rw [hps] at husage
    simp only [peersUsage, List.map_append, List.map_cons, List.sum_append, List.sum_cons] at husage ⊢
    rw [hd j]
    split_ifs
    · show c₀.usage + d = _
      omega
    · omega
  · intro q hq
    rcases List.mem_append.1 hq with hq | hq
    · have hq' := h.peers q (by rw [hps]; exact List.mem_append_left _ hq)
      refine ⟨?_, hq'.least⟩
      rw [hq'.counts]
      apply List.map_congr_left
      intro id _
      rw [hcount _ _ fun he => hother q (Or.inl hq) (Option.some.inj he)]
    · rcases List.mem_cons.1 hq with rfl | hq
      · exact hok
      · have hq' := h.peers q (by
          rw [hps]
          exact List.mem_append_right _ (List.mem_cons_of_mem _ hq))
        refine ⟨?_, hq'.least⟩
        rw [hq'.counts]
        apply List.map_congr_left
        intro id _
        rw [hcount _ _ fun he => hother q (Or.inr hq) (Option.some.inj he)]
  · show ((pre ++ p' :: post).map PeerAlloc.peerId).Nodup
    rw [List.map_append, List.map_cons, hkey]
    exact hnd
  · intro x hx
    rcases hmem x hx with hx | ⟨hx, hid⟩
    · obtain ⟨⟨q, hq, hxq⟩, hid⟩ := h.handed x hx
      refine ⟨?_, hid⟩
      rw [hps] at hq
      rcases List.mem_append.1 hq with hq | hq
      · exact ⟨q, List.mem_append_left _ hq, hxq⟩
      · rcases List.mem_cons.1 hq with rfl | hq
        · exact ⟨p', by simp, by rw [hkey]; exact hxq⟩
        · exact ⟨q, List.mem_append_right _ (List.mem_cons_of_mem _ hq), hxq⟩
    · exact ⟨⟨p', by simp, by rw [hkey]; exact hx⟩, hid⟩
  · show s.group.maxUsage + _ = ((pre ++ p' :: post).map PeerAlloc.currentUsage).sum
    rw [h.maxUsage, hps]
    simp only [List.map_append, List.map_cons, List.sum_append, List.sum_cons]
    omega

/-- A peer has an entry when it connects. -/
theorem PeerInv.entry {ids : List ℕ} {s : CoreState} (h : PeerInv ids s) (hids : ids ≠ [])
    (addr : List UInt8) :
    PeerInv ids ⟨⟨s.group.maxUsage, s.group.cpuList, addPeer s.group addr⟩, s.handed⟩ ∧
      ∃ p ∈ addPeer s.group addr, p.peerId = peerKey addr := by
  by_cases hany : s.group.peerList.any fun p => p.peerId = peerKey addr
  · rw [addPeer, if_pos hany]
    obtain ⟨p, hp, hkey⟩ := List.any_eq_true.1 hany
    exact ⟨h, p, hp, of_decide_eq_true hkey⟩
  · rw [addPeer, if_neg hany]
    have hnew : ∀ p ∈ s.group.peerList, p.peerId ≠ peerKey addr := by
      intro p hp hkey
      exact hany (List.any_eq_true.2 ⟨p, hp, decide_eq_true hkey⟩)
    have hlen : s.group.cpuList.length = ids.length := by rw [← h.cores, List.length_map]
    have hcount : ∀ id, s.handed.count (some (peerKey addr), id) = 0 := by
      intro id
      apply List.count_eq_zero_of_not_mem
      intro hmem
      obtain ⟨⟨p, hp, hkey⟩, -⟩ := h.handed _ hmem
      exact hnew p hp (Option.some.inj hkey).symm
    refine ⟨⟨⟨h.cores, ?_, ?_⟩, ?_, ?_, ?_⟩, PeerAlloc.new addr s.group.cpuList.length, by simp, rfl⟩
    · intro i c hc
      show c.usage = peersUsage (s.group.peerList ++ [_]) i
      rw [h.usage i c hc]
      have hzero : (List.replicate s.group.cpuList.length (0 : ℤ)).getD i 0 = 0 := by
        rw [List.getD_eq_getElem?_getD, List.getElem?_replicate]
        split_ifs <;> rfl
      simp only [peersUsage, PeerAlloc.new, List.map_append, List.map_singleton, List.sum_append,
        List.sum_singleton, hzero, add_zero]
    · intro p hp
      rcases List.mem_append.1 hp with hp | hp
      · exact h.peers p hp
      · obtain rfl := List.mem_singleton.1 hp
        constructor
        · simp [PeerAlloc.new, hcount, hlen]
        · have hpos : 0 < ids.length := List.length_pos_of_ne_nil hids
          constructor
          · show (0 : ℤ) ∈ List.replicate _ _
            rw [hlen]
            exact List.mem_replicate.2 ⟨by omega, rfl⟩
          · intro u hu
            exact (List.eq_of_mem_replicate hu).ge
    · show ((s.group.peerList ++ [_]).map PeerAlloc.peerId).Nodup
      rw [List.map_append, List.nodup_append]
      refine ⟨h.entries, by simp, ?_⟩
      rintro x hx y hy rfl
      obtain ⟨p, hp, hpx⟩ := List.mem_map.1 hx
      rw [List.map_singleton, List.mem_singleton] at hy
      exact hnew p hp (hpx.trans hy)
    · intro x hx
      obtain ⟨⟨p, hp, hkey⟩, hid⟩ := h.handed x hx
      exact ⟨⟨p, List.mem_append_left _ hp, hkey⟩, hid⟩
    · show s.group.maxUsage = ((s.group.peerList ++ [_]).map PeerAlloc.currentUsage).sum
      rw [h.maxUsage]
      simp [PeerAlloc.new]

theorem PeerOk.count_of {ids : List ℕ} {handed : List (Option (List UInt8) × ℕ)} {p : PeerAlloc}
    (h : PeerOk ids handed p) {i : ℕ} {u : ℤ} (hu : p.peerCpuUsage[i]? = some u) :
    ∃ id, ids[i]? = some id ∧ u = handed.count (some p.peerId, id) := by
  rw [h.counts, List.getElem?_map] at hu
  obtain ⟨id, hid, rfl⟩ := Option.map_eq_some_iff.1 hu
  exact ⟨id, hid, rfl⟩

theorem PeerOk.count_at {ids : List ℕ} {handed : List (Option (List UInt8) × ℕ)} {p : PeerAlloc}
    (h : PeerOk ids handed p) {i id : ℕ} (hid : ids[i]? = some id) :
    p.peerCpuUsage[i]? = some (handed.count (some p.peerId, id) : ℤ) := by
  rw [h.counts, List.getElem?_map, hid]
  rfl

theorem PeerBalanced.core_at {ids : List ℕ} {s : CoreState} (h : PeerBalanced ids s) {i id : ℕ}
    (hid : ids[i]? = some id) : ∃ c, s.group.cpuList[i]? = some c ∧ c.cpuId = id := by
  rw [← h.cores, List.getElem?_map] at hid
  exact Option.map_eq_some_iff.1 hid

theorem getD_modify {us : List ℤ} {i : ℕ} {u : ℤ} (hu : us[i]? = some u) (d : ℤ) (j : ℕ) :
    (us.modify i (· + d)).getD j 0 = us.getD j 0 + if i = j then d else 0 := by
  rw [List.getD_eq_getElem?_getD, List.getD_eq_getElem?_getD, List.getElem?_modify]
  by_cases hij : i = j
  · subst hij
    simp [hu]
  · cases us[j]? <;> simp [hij]

/-- The choice for a peer: a core that it uses least. -/
theorem PeerOk.next {ids : List ℕ} {handed : List (Option (List UInt8) × ℕ)} {p : PeerAlloc}
    (h : PeerOk ids handed p) (hnd : ids.Nodup) :
    ∃ i id p' inc, p.next = some (p', i, inc) ∧ ids[i]? = some id ∧
      (∀ x ∈ ids, handed.count (some p.peerId, id) ≤ handed.count (some p.peerId, x)) ∧
      p'.peerId = p.peerId ∧ p'.currentUsage = p.currentUsage + (if inc then 1 else 0) ∧
      (∀ j, p'.peerCpuUsage.getD j 0 = p.peerCpuUsage.getD j 0 + if i = j then 1 else 0) ∧
      PeerOk ids ((some p.peerId, id) :: handed) p' := by
  obtain ⟨i, inc, hsel, hi, hinc⟩ := selectCore_least (fun u hu => h.least.2 hu) h.least.1
  obtain ⟨id, hid, hcur⟩ := h.count_of hi
  refine ⟨i, id, { p with
      peerCpuUsage := p.peerCpuUsage.modify i (· + 1)
      currentUsage := if inc then p.currentUsage + 1 else p.currentUsage }, inc,
    by rw [PeerAlloc.next, hsel], hid, ?_, rfl, ?_, getD_modify hi 1, ?_,
    least_connect h.least hi hinc⟩
  · intro x hx
    obtain ⟨j, hj⟩ := List.mem_iff_getElem?.1 hx
    have hle := h.least.2 (List.mem_of_getElem? (h.count_at hj))
    rw [hcur] at hle
    exact_mod_cast hle
  · cases inc <;> simp
  · show p.peerCpuUsage.modify i (· + 1) = ids.map fun x => ((List.count (some p.peerId, x) _ : ℕ) : ℤ)
    rw [h.counts, modify_map (show (ids.map fun x => x).Nodup by simpa using hnd) hid]
    apply List.map_congr_left
    intro x _
    rw [List.count_cons]
    by_cases hx : x = id
    · simp [hx]
    · simp [hx, Ne.symm hx]

/-- A connection of a peer given back; its core is in the group and `max_usage` has room. -/
theorem PeerOk.release {ids : List ℕ} {handed : List (Option (List UInt8) × ℕ)} {p : PeerAlloc}
    {i core : ℕ} {maxUsage : ℤ} (h : PeerOk ids handed p) (hnd : ids.Nodup) (hi : ids[i]? = some core)
    (hmem : (some p.peerId, core) ∈ handed) (hmax : p.currentUsage ≤ maxUsage) :
    ∃ p' dec, p.release maxUsage i = some (p', dec) ∧ p'.peerId = p.peerId ∧
      p'.currentUsage = p.currentUsage - (if dec then 1 else 0) ∧
      (∀ j, p'.peerCpuUsage.getD j 0 = p.peerCpuUsage.getD j 0 + if i = j then -1 else 0) ∧
      PeerOk ids (handed.erase (some p.peerId, core)) p' := by
  have hu := h.count_at hi
  have hpos : 0 < handed.count (some p.peerId, core) := List.count_pos_iff.2 hmem
  have hle : p.currentUsage ≤ handed.count (some p.peerId, core) :=
    h.least.2 (List.mem_of_getElem? hu)
  have hcounts : p.peerCpuUsage.modify i (· - 1) =
      ids.map fun x => ((handed.erase (some p.peerId, core)).count (some p.peerId, x) : ℤ) := by
    rw [h.counts, modify_map (show (ids.map fun x => x).Nodup by simpa using hnd) hi]
    apply List.map_congr_left
    intro x _
    rw [List.count_erase]
    by_cases hx : x = core
    · subst hx
      simp
      omega
    · simp [hx, Ne.symm hx]
  have hleast := least_release h.least hu
  have hat : (p.peerCpuUsage.modify i (· - 1)).getD i 0 =
      (handed.count (some p.peerId, core) : ℤ) - 1 := by
    rw [List.getD_eq_getElem?_getD, List.getElem?_modify, hu]
    simp
  have hgetD := getD_modify hu (-1)
  rw [PeerAlloc.release]
  simp only [hat]
  split_ifs at hleast ⊢ with hlt hroom
  · exact ⟨_, true, rfl, rfl, rfl, hgetD, hcounts, hleast⟩
  · exact absurd ⟨by omega, by omega⟩ hroom
  · exact ⟨_, false, rfl, rfl, by simp, hgetD, hcounts, hleast⟩

/-- A connect is given a core that its peer uses least. -/
theorem PeerInv.connect {ids : List ℕ} {s : CoreState} {addr : List UInt8} (h : PeerInv ids s)
    (hids : ids ≠ []) (hnd : ids.Nodup) (ha : addr ≠ []) :
    ∃ g core, getNextAvailableCpu s.group (some addr) = some (g, core) ∧
      (core ∈ ids ∧ ∀ id ∈ ids, s.handed.count (some (peerKey addr), core) ≤
        s.handed.count (some (peerKey addr), id)) ∧
      PeerInv ids ⟨g, (some (peerKey addr), core) :: s.handed⟩ := by
  obtain ⟨hadd, hex⟩ := h.entry hids addr
  obtain ⟨pre, p, post, hps, hkey, hat⟩ := @atPeer_split (ℕ × Bool) _ _ hex
  have hp := hadd.peers p (by show p ∈ addPeer s.group addr; rw [hps]; simp)
  obtain ⟨i, id, p', inc, hnext, hid, hleast, hkey', hcur, hcounts, hok⟩ := hp.next hnd
  obtain ⟨c, hc, rfl⟩ := hadd.core_at hid
  have hrep := hadd.replace hps hkey' hok hcounts
    (fun q x hq => List.count_cons_of_ne fun he => hq (congrArg Prod.fst he).symm)
    (fun x hx => (List.mem_cons.1 hx).elim
      (fun he => Or.inr (by rw [he]; exact ⟨rfl, List.mem_of_getElem? hid⟩)) Or.inl)
  rw [hkey] at hleast hrep
  refine ⟨_, c.cpuId, ?_, ⟨List.mem_of_getElem? hid, hleast⟩, hrep⟩
  rw [getNextAvailableCpu, if_neg ha, hat, hnext]
  simp only [Option.map_some]
  rw [useCore, show s.group.cpuList[i]? = some c from hc]
  have hmax : (if inc then s.group.maxUsage + 1 else s.group.maxUsage) =
      s.group.maxUsage + (p'.currentUsage - p.currentUsage) := by
    rw [hcur]
    cases inc <;> simp
  simp only [hmax]

theorem PeerBalanced.release_core {ids : List ℕ} {s : CoreState} {core : ℕ} (h : PeerBalanced ids s)
    (hnd : ids.Nodup) (hcore : core ∈ ids) :
    ∃ i, (s.group.cpuList.findIdx fun c => c.cpuId = core) = i ∧ i < s.group.cpuList.length ∧
      ids[i]? = some core ∧
      (s.group.cpuList.map fun c => if c.cpuId = core then { c with usage := c.usage - 1 } else c) =
        s.group.cpuList.modify i fun c => { c with usage := c.usage + -1 } := by
  rw [← h.cores] at hcore hnd
  obtain ⟨c, hc, rfl⟩ := List.mem_map.1 hcore
  have hlt : (s.group.cpuList.findIdx fun d => d.cpuId = c.cpuId) < s.group.cpuList.length :=
    List.findIdx_lt_length_of_exists ⟨c, hc, decide_eq_true rfl⟩
  have hat := of_decide_eq_true (List.findIdx_getElem (w := hlt))
  refine ⟨_, rfl, hlt, ?_, ?_⟩
  · rw [← h.cores, List.getElem?_map, List.getElem?_eq_getElem hlt, Option.map_some, hat]
  · have hmod := modify_map hnd (List.getElem?_eq_getElem hlt) id
      fun c : CpuInfo => { c with usage := c.usage + -1 }
    rw [List.map_id, hat] at hmod
    exact hmod.symm

/-- A disconnect. -/
theorem PeerInv.disconnect {ids : List ℕ} {s : CoreState} {addr : List UInt8} {core : ℕ}
    (h : PeerInv ids s) (hnd : ids.Nodup) (ha : addr ≠ [])
    (hmem : (some (peerKey addr), core) ∈ s.handed) :
    ∃ g, updateConnUsage s.group core (some addr) = some g ∧
      PeerInv ids ⟨g, s.handed.erase (some (peerKey addr), core)⟩ := by
  obtain ⟨⟨q, hq, hqkey⟩, hcore⟩ := h.handed _ hmem
  obtain ⟨i, hfind, hlt, hid, hcpus⟩ := h.release_core hnd hcore
  obtain ⟨pre, p, post, hps, hkey, hat⟩ := @atPeer_split Bool _ _
    ⟨q, hq, (Option.some.inj hqkey).symm⟩
  have hp := h.peers p (by rw [hps]; simp)
  have hcur : ∀ r ∈ s.group.peerList, 0 ≤ r.currentUsage := by
    intro r hr
    have hmem := (h.peers r hr).least.1
    obtain ⟨j, hj⟩ := List.mem_iff_getElem?.1 hmem
    obtain ⟨id, -, hid⟩ := (h.peers r hr).count_of hj
    omega
  have hmax : p.currentUsage ≤ s.group.maxUsage := by
    rw [h.maxUsage]
    apply List.single_le_sum
    · intro x hx
      obtain ⟨r, hr, rfl⟩ := List.mem_map.1 hx
      exact hcur r hr
    · exact List.mem_map_of_mem (by rw [hps]; simp)
  obtain ⟨p', dec, hrel, hkey', hcur', hcounts, hok⟩ := hp.release hnd hid (hkey ▸ hmem) hmax
  have hrep := h.replace hps hkey' hok hcounts
    (fun q x hq => List.count_erase_of_ne fun he => hq (congrArg Prod.fst he))
    (fun x hx => Or.inl (List.mem_of_mem_erase hx))
  rw [hkey] at hrep
  refine ⟨_, ?_, hrep⟩
  rw [updateConnUsage]
  simp only [hfind, hcpus]
  rw [if_neg (by simp [ha, hlt]), hat, hrel]
  have hmax' : (if dec then s.group.maxUsage - 1 else s.group.maxUsage) =
      s.group.maxUsage + (p'.currentUsage - p.currentUsage) := by
    rw [hcur']
    cases dec
    · simp
    · simp
      omega
  simp only [Option.map_some, hmax']

/-! ### Without peer addresses -/

theorem largestUsage_spec (cs : List CpuInfo) :
    0 ≤ largestUsage cs ∧ (∀ c ∈ cs, c.usage ≤ largestUsage cs) ∧
      (largestUsage cs = 0 ∨ ∃ c ∈ cs, c.usage = largestUsage cs) := by
  have hfold : ∀ (m : ℤ), m ≤ cs.foldl (fun m c => max m c.usage) m ∧
      (∀ c ∈ cs, c.usage ≤ cs.foldl (fun m c => max m c.usage) m) ∧
      (cs.foldl (fun m c => max m c.usage) m = m ∨
        ∃ c ∈ cs, c.usage = cs.foldl (fun m c => max m c.usage) m) := by
    induction cs with
    | nil => simp
    | cons c cs ih =>
      intro m
      obtain ⟨hm, hall, hex⟩ := ih (max m c.usage)
      rw [List.foldl_cons]
      refine ⟨(le_max_left _ _).trans hm, ?_, ?_⟩
      · intro d hd
        rcases List.mem_cons.1 hd with rfl | hd
        · exact (le_max_right _ _).trans hm
        · exact hall d hd
      · rcases hex with hex | ⟨d, hd, hex⟩
        · rw [hex]
          rcases max_choice m c.usage with h | h
          · exact Or.inl h
          · exact Or.inr ⟨c, List.mem_cons_self, h.symm⟩
        · exact Or.inr ⟨d, List.mem_cons_of_mem _ hd, hex⟩
  exact hfold 0

/-- The invariant without peers: the usages are the numbers of connections, at most one above
`max_usage`, and one of them reaches `max_usage`. -/
structure PlainInv (ids : List ℕ) (s : CoreState) : Prop where
  cores : s.group.cpuList.map CpuInfo.cpuId = ids
  noPeers : s.group.peerList = []
  usage : ∀ c ∈ s.group.cpuList, c.usage = s.handed.count (none, c.cpuId)
  handed : ∀ x ∈ s.handed, x.1 = none ∧ x.2 ∈ ids
  nonneg : 0 ≤ s.group.maxUsage
  bound : ∀ c ∈ s.group.cpuList, c.usage ≤ s.group.maxUsage + 1
  reached : 0 < s.group.maxUsage → ∃ c ∈ s.group.cpuList, s.group.maxUsage ≤ c.usage

/-- Every core before the first least used one is used more than `max_usage`. -/
def LeastFirst (g : CpuGroup) : Prop :=
  ∀ (i : ℕ) (c : CpuInfo), g.cpuList[i]? = some c →
    (∀ (j : ℕ) (d : CpuInfo), j ≤ i → g.cpuList[j]? = some d → ∃ e ∈ g.cpuList, e.usage < d.usage) →
    g.maxUsage < c.usage

/-- The core at an index is least used. -/
def LeastUsed (g : CpuGroup) (core : ℕ) : Prop :=
  ∃ c ∈ g.cpuList, c.cpuId = core ∧ ∀ d ∈ g.cpuList, c.usage ≤ d.usage

/-- A first core within `max_usage` is least used if the cores before a least used one are not within
it. -/
theorem leastFirst_iff_of_found {g : CpuGroup} {i : ℕ} {c : CpuInfo} (hc : g.cpuList[i]? = some c)
    (hle : c.usage ≤ g.maxUsage)
    (hbefore : ∀ j d, j < i → g.cpuList[j]? = some d → g.maxUsage < d.usage) :
    LeastFirst g ↔ ∀ d ∈ g.cpuList, c.usage ≤ d.usage := by
  constructor
  · intro h
    by_contra hlow
    push Not at hlow
    obtain ⟨d, hd, hlow⟩ := hlow
    have := h i c hc fun j e hj he => by
      rcases hj.lt_or_eq with hj | rfl
      · exact ⟨d, hd, by have := hbefore j e hj he; omega⟩
      · rw [hc] at he
        cases he
        exact ⟨d, hd, hlow⟩
    omega
  · intro h j d hd hall
    by_cases hj : j < i
    · exact hbefore j d hj hd
    · obtain ⟨e, he, hlt⟩ := hall i c (by omega) hc
      have := h e he
      omega

/-- A core of the group gets a connection. -/
theorem PlainInv.use {ids : List ℕ} {s : CoreState} {i : ℕ} {c : CpuInfo} {m : ℤ} (h : PlainInv ids s)
    (hnd : ids.Nodup) (hc : s.group.cpuList[i]? = some c) (hm : 0 ≤ m)
    (hbound : ∀ d ∈ s.group.cpuList, d.usage ≤ m + 1) (hcm : c.usage ≤ m)
    (hreached : 0 < m → m ≤ c.usage + 1 ∨ ∃ d ∈ s.group.cpuList, m ≤ d.usage) :
    PlainInv ids ⟨⟨m, s.group.cpuList.modify i fun c => { c with usage := c.usage + 1 },
      s.group.peerList⟩, (none, c.cpuId) :: s.handed⟩ := by
  have hmod := modify_map (h.cores ▸ hnd) hc id fun c : CpuInfo => { c with usage := c.usage + 1 }
  rw [List.map_id] at hmod
  rw [hmod]
  refine ⟨?_, h.noPeers, ?_, ?_, hm, ?_, ?_⟩
  · rw [← h.cores]
    show List.map _ (List.map _ _) = _
    rw [List.map_map]
    apply List.map_congr_left
    intro d _
    rw [Function.comp_apply]
    split_ifs <;> rfl
  · intro d' hd'
    obtain ⟨d, hd, rfl⟩ := List.mem_map.1 hd'
    have hu := h.usage d hd
    by_cases hdc : d.cpuId = c.cpuId
    · rw [if_pos hdc]
      show d.usage + 1 = ((List.count (none, d.cpuId) _ : ℕ) : ℤ)
      rw [hu, hdc, List.count_cons_self]
      push_cast
      rfl
    · rw [if_neg hdc]
      show d.usage = ((List.count (none, d.cpuId) _ : ℕ) : ℤ)
      rw [hu, List.count_cons_of_ne fun he => hdc (congrArg Prod.snd he).symm]
  · intro x hx
    rcases List.mem_cons.1 hx with rfl | hx
    · refine ⟨rfl, ?_⟩
      rw [← h.cores]
      exact List.mem_map_of_mem (List.mem_of_getElem? hc)
    · exact h.handed x hx
  · intro d' hd'
    obtain ⟨d, hd, rfl⟩ := List.mem_map.1 hd'
    by_cases hdc : d.cpuId = c.cpuId
    · have : d = c :=
        List.inj_on_of_nodup_map (h.cores ▸ hnd) hd (List.mem_of_getElem? hc) hdc
      subst this
      rw [if_pos rfl]
      show d.usage + 1 ≤ m + 1
      omega
    · rw [if_neg hdc]
      exact hbound d hd
  · intro hpos
    show ∃ d ∈ List.map _ s.group.cpuList, m ≤ CpuInfo.usage d
    rcases hreached hpos with hcu | ⟨d, hd, hdu⟩
    · refine ⟨_, List.mem_map_of_mem (List.mem_of_getElem? hc), ?_⟩
      rw [if_pos rfl]
      exact hcu
    · refine ⟨_, List.mem_map_of_mem hd, ?_⟩
      split_ifs
      · show m ≤ d.usage + 1
        omega
      · exact hdu

/-- A connect is given the first core within `max_usage`, or the first one if there is none. -/
theorem PlainInv.connect {ids : List ℕ} {s : CoreState} (h : PlainInv ids s) (hids : ids ≠ [])
    (hnd : ids.Nodup) :
    ∃ g core, getNextAvailableCpu s.group none = some (g, core) ∧
      (LeastUsed s.group core ↔ LeastFirst s.group) ∧ PlainInv ids ⟨g, (none, core) :: s.handed⟩ := by
  have hinj := List.inj_on_of_nodup_map (h.cores ▸ hnd : (s.group.cpuList.map CpuInfo.cpuId).Nodup)
  have hleast : ∀ c ∈ s.group.cpuList,
      LeastUsed s.group c.cpuId ↔ ∀ d ∈ s.group.cpuList, c.usage ≤ d.usage := by
    intro c hc
    constructor
    · rintro ⟨d, hd, hid, hall⟩
      rwa [hinj hd hc hid] at hall
    · exact fun hall => ⟨c, hc, rfl, hall⟩
  rw [getNextAvailableCpu, if_neg (by simp [h.noPeers])]
  cases hfind : s.group.cpuList.findIdx? fun c => c.usage ≤ s.group.maxUsage with
  | some i =>
    obtain ⟨hlt, hle, hbefore⟩ := List.findIdx?_eq_some_iff_getElem.1 hfind
    have hc := List.getElem?_eq_getElem hlt
    have hle := of_decide_eq_true hle
    refine ⟨_, (s.group.cpuList[i]).cpuId, ?_, ?_,
      h.use hnd hc h.nonneg h.bound hle fun hpos => Or.inr (h.reached hpos)⟩
    · simp only [useCore, hc]
    · rw [hleast _ (List.getElem_mem hlt), leastFirst_iff_of_found hc hle]
      intro j d hj hd
      obtain ⟨hj', rfl⟩ := List.getElem?_eq_some_iff.1 hd
      simpa using hbefore j hj
  | none =>
    have habove : ∀ c ∈ s.group.cpuList, s.group.maxUsage < c.usage := by
      intro c hc
      simpa using List.findIdx?_eq_none_iff.1 hfind c hc
    cases hcpus : s.group.cpuList with
    | nil =>
      have := h.cores
      rw [hcpus] at this
      exact absurd this.symm hids
    | cons c cs =>
      have hc : s.group.cpuList[0]? = some c := by rw [hcpus]; rfl
      have hmem := List.mem_of_getElem? hc
      have hbound := h.bound c hmem
      have hnonneg := h.nonneg
      have hab := habove c hmem
      refine ⟨_, c.cpuId, ?_, ?_, h.use hnd hc (m := s.group.maxUsage + 1) (by omega)
        (fun d hd => (h.bound d hd).trans (by omega)) (by omega) fun _ => Or.inl (by omega)⟩
      · simp only [useCore, hcpus]
        rfl
      · rw [hleast c hmem]
        constructor
        · intro _ i d hd _
          exact habove d (List.mem_of_getElem? hd)
        · intro _ d hd
          have := habove d hd
          omega

/-- A disconnect. -/
theorem PlainInv.disconnect {ids : List ℕ} {s : CoreState} {core : ℕ} (h : PlainInv ids s)
    (hmem : (none, core) ∈ s.handed) :
    ∃ g, updateConnUsage s.group core none = some g ∧
      PlainInv ids ⟨g, s.handed.erase (none, core)⟩ := by
  have hcore := (h.handed _ hmem).2
  rw [← h.cores] at hcore
  obtain ⟨b, hb, rfl⟩ := List.mem_map.1 hcore
  have hlt : (s.group.cpuList.findIdx fun c => c.cpuId = b.cpuId) < s.group.cpuList.length :=
    List.findIdx_lt_length_of_exists ⟨b, hb, decide_eq_true rfl⟩
  set cpus := s.group.cpuList.map fun c =>
    if c.cpuId = b.cpuId then { c with usage := c.usage - 1 } else c with hcpus
  obtain ⟨hpos, hall, hex⟩ := largestUsage_spec cpus
  have hids : cpus.map CpuInfo.cpuId = ids := by
    rw [← h.cores, hcpus, List.map_map]
    apply List.map_congr_left
    intro d _
    rw [Function.comp_apply]
    split_ifs <;> rfl
  have husage : ∀ d ∈ cpus, d.usage = (s.handed.erase (none, b.cpuId)).count (none, d.cpuId) := by
    intro d' hd'
    obtain ⟨d, hd, rfl⟩ := List.mem_map.1 hd'
    have hu := h.usage d hd
    have hcount : 0 < s.handed.count (none, b.cpuId) := List.count_pos_iff.2 hmem
    by_cases hdb : d.cpuId = b.cpuId
    · rw [if_pos hdb]
      show d.usage - 1 = ((List.count (none, d.cpuId) _ : ℕ) : ℤ)
      rw [hu, hdb, List.count_erase_self]
      omega
    · rw [if_neg hdb, hu, List.count_erase_of_ne fun he => hdb (congrArg Prod.snd he)]
  have hbound : ∀ d ∈ cpus, d.usage ≤ s.group.maxUsage + 1 := by
    intro d' hd'
    obtain ⟨d, hd, rfl⟩ := List.mem_map.1 hd'
    have := h.bound d hd
    split_ifs
    · show d.usage - 1 ≤ _
      omega
    · exact this
  -- the core that reaches `max_usage` lost at most one connection
  have hreach : 0 < s.group.maxUsage → s.group.maxUsage - 1 ≤ largestUsage cpus := by
    intro hm
    obtain ⟨d, hd, hdm⟩ := h.reached hm
    have := hall _ (List.mem_map_of_mem hd)
    split_ifs at this
    · have : d.usage - 1 ≤ largestUsage cpus := this
      omega
    · omega
  have hnonneg := h.nonneg
  have hhanded : ∀ x ∈ s.handed.erase (none, b.cpuId), x.1 = none ∧ x.2 ∈ ids :=
    fun x hx => h.handed x (List.mem_of_mem_erase hx)
  rw [updateConnUsage]
  simp only [← hcpus]
  rw [if_neg (by simp [h.noPeers, hlt])]
  by_cases hlow : largestUsage cpus < s.group.maxUsage
  · have heq : largestUsage cpus = s.group.maxUsage - 1 := by
      have := hreach (by omega)
      omega
    rw [if_pos hlow, if_pos heq]
    refine ⟨_, rfl, hids, h.noPeers, husage, hhanded, ?_, ?_, ?_⟩
    · show 0 ≤ s.group.maxUsage - 1
      omega
    · intro d hd
      show d.usage ≤ s.group.maxUsage - 1 + 1
      have := hall d hd
      omega
    · intro hm
      have hm : 0 < s.group.maxUsage - 1 := hm
      show ∃ c ∈ cpus, s.group.maxUsage - 1 ≤ c.usage
      rcases hex with hex | ⟨c, hc, hex⟩
      · omega
      · exact ⟨c, hc, by omega⟩
  · rw [if_neg hlow]
    refine ⟨_, rfl, hids, h.noPeers, husage, hhanded, hnonneg, hbound, ?_⟩
    intro hm
    have hm : 0 < s.group.maxUsage := hm
    show ∃ c ∈ cpus, s.group.maxUsage ≤ c.usage
    rcases hex with hex | ⟨c, hc, hex⟩
    · omega
    · exact ⟨c, hc, by omega⟩

/-! ### Runs -/

/-- The invariant of the mode. -/
def CoreInv (ids : List ℕ) (withPeers : Bool) (s : CoreState) : Prop :=
  if withPeers then PeerInv ids s else PlainInv ids s

theorem coreInv_init (ids : List ℕ) (withPeers : Bool) :
    CoreInv ids withPeers ⟨allocateCpuGroup ids, []⟩ := by
  have hcores : (allocateCpuGroup ids).cpuList.map CpuInfo.cpuId = ids := by
    show List.map _ (List.map _ _) = _
    rw [List.map_map]
    exact List.map_id ids
  have hzero : ∀ c ∈ (allocateCpuGroup ids).cpuList, c.usage = 0 := by
    intro c hc
    obtain ⟨id, -, rfl⟩ := List.mem_map.1 hc
    rfl
  cases withPeers with
  | true =>
    show PeerInv _ _
    refine ⟨⟨hcores, ?_, by rintro p ⟨⟩⟩, List.nodup_nil, by rintro x ⟨⟩, rfl⟩
    intro i c hc
    rw [hzero c (List.mem_of_getElem? hc)]
    rfl
  | false =>
    show PlainInv _ _
    refine ⟨hcores, rfl, hzero, by rintro x ⟨⟩, le_rfl, ?_, fun h => absurd h (lt_irrefl _)⟩
    intro c hc
    rw [hzero c hc]
    show (0 : ℤ) ≤ 0 + 1
    omega

theorem coreStep_inv {ids : List ℕ} {withPeers : Bool} (hids : ids ≠ []) (hnd : ids.Nodup)
    (s : CoreState) (a : ConnCall) (h : CoreInv ids withPeers s)
    (hok : LegalCall s a ∧ a.hasPeer = withPeers) :
    ∃ s', coreStep s a = some s' ∧ CoreInv ids withPeers s' := by
  obtain ⟨hlegal, rfl⟩ := hok
  cases a with
  | connect peer =>
    cases peer with
    | some addr =>
      have ha : addr ≠ [] := fun he => hlegal (by rw [he])
      obtain ⟨g, core, hget, -, hinv⟩ := PeerInv.connect h hids hnd ha
      exact ⟨_, by rw [coreStep, hget]; rfl, hinv⟩
    | none =>
      obtain ⟨g, core, hget, -, hinv⟩ := PlainInv.connect h hids hnd
      exact ⟨_, by rw [coreStep, hget]; rfl, hinv⟩
  | disconnect peer core =>
    obtain ⟨hne, hmem⟩ := hlegal
    cases peer with
    | some addr =>
      have ha : addr ≠ [] := fun he => hne (by rw [he])
      obtain ⟨g, hupd, hinv⟩ := PeerInv.disconnect h hnd ha hmem
      exact ⟨_, by rw [coreStep, hupd]; rfl, hinv⟩
    | none =>
      obtain ⟨g, hupd, hinv⟩ := PlainInv.disconnect h hmem
      exact ⟨_, by rw [coreStep, hupd]; rfl, hinv⟩

/-- **No assertion fails. With peers the counts are right and every connect gets a core that its peer
uses least; without them a connect gets a least used core if and only if the group is `LeastFirst`.** -/
theorem balanced_of_run {ids : List ℕ} {withPeers : Bool} {acts : List ConnCall} (hids : ids ≠ [])
    (hnd : ids.Nodup) (hok : Admissible coreStep (fun s a => LegalCall s a ∧ a.hasPeer = withPeers)
      ⟨allocateCpuGroup ids, []⟩ acts) :
    ∃ s, run coreStep ⟨allocateCpuGroup ids, []⟩ acts = some s ∧
      (withPeers = true → PeerBalanced ids s ∧ ∀ addr, addr ≠ [] →
        ∃ g core, getNextAvailableCpu s.group (some addr) = some (g, core) ∧ core ∈ ids ∧
          ∀ id ∈ ids, s.handed.count (some (peerKey addr), core) ≤
            s.handed.count (some (peerKey addr), id)) ∧
      (withPeers = false → (∀ c ∈ s.group.cpuList, c.usage = s.handed.count (none, c.cpuId)) ∧
        ∃ g core, getNextAvailableCpu s.group none = some (g, core) ∧
          (LeastUsed s.group core ↔ LeastFirst s.group)) := by
  obtain ⟨s, hrun, hinv⟩ := run_total (coreStep_inv hids hnd) (coreInv_init ids withPeers) hok
  refine ⟨s, hrun, ?_, ?_⟩
  · rintro rfl
    have hinv : PeerInv ids s := hinv
    refine ⟨hinv.toPeerBalanced, fun addr ha => ?_⟩
    obtain ⟨g, core, hget, hleast, -⟩ := hinv.connect hids hnd ha
    exact ⟨g, core, hget, hleast⟩
  · rintro rfl
    have hinv : PlainInv ids s := hinv
    obtain ⟨g, core, hget, hleast, -⟩ := hinv.connect hids hnd
    exact ⟨hinv.usage, g, core, hget, hleast⟩

instance (s : CoreState) (a : ConnCall) : Decidable (LegalCall s a) := by
  unfold LegalCall
  split <;> infer_instance

/-- Two peers on three cores. -/
theorem balanced_of_run_two :
    ∃ s, run coreStep ⟨allocateCpuGroup [4, 6, 9], []⟩
        [.connect (some [1]), .connect (some [2]), .connect (some [1]), .disconnect (some [1]) 4,
          .connect (some [1])] = some s ∧
      (true = true → PeerBalanced [4, 6, 9] s ∧ ∀ addr, addr ≠ [] →
        ∃ g core, getNextAvailableCpu s.group (some addr) = some (g, core) ∧ core ∈ [4, 6, 9] ∧
          ∀ id ∈ [4, 6, 9], s.handed.count (some (peerKey addr), core) ≤
            s.handed.count (some (peerKey addr), id)) ∧
      (true = false → (∀ c ∈ s.group.cpuList, c.usage = s.handed.count (none, c.cpuId)) ∧
        ∃ g core, getNextAvailableCpu s.group none = some (g, core) ∧
          (LeastUsed s.group core ↔ LeastFirst s.group)) :=
  balanced_of_run (by decide) (by decide) (by decide)

/-- Three connects to two cores and two disconnects: the next connect is given the core that is used
once, and the other core is idle. -/
theorem not_leastUsed_after_disconnects :
    ∃ s, Admissible coreStep (fun s a => LegalCall s a ∧ a.hasPeer = false)
        ⟨allocateCpuGroup [0, 1], []⟩
        [.connect none, .connect none, .connect none, .disconnect none 0, .disconnect none 1] ∧
      run coreStep ⟨allocateCpuGroup [0, 1], []⟩
        [.connect none, .connect none, .connect none, .disconnect none 0, .disconnect none 1] =
          some s ∧
      ∃ g core, getNextAvailableCpu s.group none = some (g, core) ∧ ¬ LeastUsed s.group core :=
  ⟨⟨⟨1, [⟨0, 1⟩, ⟨1, 0⟩], []⟩, [(none, 0)]⟩, by decide, by decide,
    ⟨1, [⟨0, 2⟩, ⟨1, 0⟩], []⟩, 0, by decide, by
      rintro ⟨c, hc, hid, hall⟩
      have := hall ⟨1, 0⟩ (by decide)
      simp at hc
      rcases hc with rfl | rfl <;> simp_all⟩

/-! ### The size of the counters -/

section

theorem sum_count_le_length {α : Type} [BEq α] [LawfulBEq α] {keys : List α} (hnd : keys.Nodup)
    (l : List α) : (keys.map fun k => l.count k).sum ≤ l.length := by
  induction keys generalizing l with
  | nil => exact Nat.zero_le _
  | cons k ks ih =>
    obtain ⟨hk, hks⟩ := List.nodup_cons.1 hnd
    have hrest : ∀ x ∈ ks, l.count x = (l.filter fun y => !(y == k)).count x := by
      intro x hx
      have hne : x ≠ k := by
        rintro rfl
        exact hk hx
      rw [List.count_filter (by simpa using hne)]
    have hlen : l.length = l.count k + (l.filter fun y => !(y == k)).length := by
      rw [← List.countP_eq_length_filter]
      simpa [List.count] using l.length_eq_countP_add_countP (· == k)
    rw [List.map_cons, List.sum_cons, List.map_congr_left hrest, hlen]
    exact Nat.add_le_add_left (ih hks _) _

/-- Every counter is the number of some of the connections that are open. -/
def CountersFit (s : CoreState) : Prop :=
  s.group.maxUsage ∈ Set.Icc (0 : ℤ) s.handed.length ∧
    (∀ c ∈ s.group.cpuList, c.usage ∈ Set.Icc (0 : ℤ) s.handed.length) ∧
    ∀ p ∈ s.group.peerList, p.currentUsage ∈ Set.Icc (0 : ℤ) s.handed.length ∧
      ∀ u ∈ p.peerCpuUsage, u ∈ Set.Icc (0 : ℤ) s.handed.length

variable {ids : List ℕ} {s : CoreState}

theorem count_mem_Icc (l : List (Option (List UInt8) × ℕ)) (k : Option (List UInt8) × ℕ) :
    (l.count k : ℤ) ∈ Set.Icc (0 : ℤ) l.length :=
  ⟨Int.natCast_nonneg _, Int.ofNat_le.2 List.count_le_length⟩

theorem PlainInv.countersFit (h : PlainInv ids s) : CountersFit s := by
  have husage : ∀ c ∈ s.group.cpuList, c.usage ∈ Set.Icc (0 : ℤ) s.handed.length := by
    intro c hc
    rw [h.usage c hc]
    exact count_mem_Icc _ _
  refine ⟨⟨h.nonneg, ?_⟩, husage, ?_⟩
  · rcases h.nonneg.eq_or_lt with hzero | hpos
    · rw [← hzero]
      exact Int.natCast_nonneg _
    · obtain ⟨c, hc, hle⟩ := h.reached hpos
      exact hle.trans (husage c hc).2
  · rw [h.noPeers]
    rintro p ⟨⟩

theorem PeerOk.counts_mem {handed : List (Option (List UInt8) × ℕ)} {p : PeerAlloc}
    (h : PeerOk ids handed p) : ∀ u ∈ p.peerCpuUsage, u ∈ Set.Icc (0 : ℤ) handed.length := by
  intro u hu
  rw [h.counts] at hu
  obtain ⟨id, -, rfl⟩ := List.mem_map.1 hu
  exact count_mem_Icc _ _

theorem PeerInv.peersUsage_eq (h : PeerInv ids s) {i id : ℕ} (hid : ids[i]? = some id) :
    peersUsage s.group.peerList i =
      (((s.group.peerList.map fun p => (some p.peerId, id)).map fun k => s.handed.count k).sum : ℕ) := by
  unfold peersUsage
  rw [List.map_map, Nat.cast_list_sum, List.map_map]
  refine congrArg List.sum (List.map_congr_left fun p hp => ?_)
  rw [(h.peers p hp).counts, List.getD_eq_getElem?_getD, List.getElem?_map, hid]
  rfl

theorem PeerInv.countersFit (h : PeerInv ids s) (hids : ids ≠ []) : CountersFit s := by
  have hnd : ∀ id : ℕ, (s.group.peerList.map fun p => (some p.peerId, id)).Nodup := by
    intro id
    have hkeys := h.entries.map (f := fun k : List UInt8 => (some k, id)) fun a b hab => by
      simpa using hab
    rwa [List.map_map] at hkeys
  have hsum : ∀ i id, ids[i]? = some id →
      peersUsage s.group.peerList i ∈ Set.Icc (0 : ℤ) s.handed.length := by
    intro i id hid
    rw [h.peersUsage_eq hid]
    exact ⟨Int.natCast_nonneg _, Int.ofNat_le.2 (sum_count_le_length (hnd id) _)⟩
  have hleast : ∀ p ∈ s.group.peerList, p.currentUsage ∈ p.peerCpuUsage ∧
      ∀ u ∈ p.peerCpuUsage, p.currentUsage ≤ u := fun p hp => (h.peers p hp).least
  refine ⟨⟨?_, ?_⟩, ?_, fun p hp => ⟨?_, (h.peers p hp).counts_mem⟩⟩
  · rw [h.maxUsage]
    refine List.sum_nonneg fun u hu => ?_
    obtain ⟨p, hp, rfl⟩ := List.mem_map.1 hu
    exact ((h.peers p hp).counts_mem _ (hleast p hp).1).1
  · -- the least counts are below the counts of the first core
    obtain ⟨id, rest, rfl⟩ := List.exists_cons_of_ne_nil hids
    rw [h.maxUsage]
    refine le_trans ?_ (hsum 0 id rfl).2
    unfold peersUsage
    refine List.sum_le_sum fun p hp => (hleast p hp).2 _ ?_
    rw [(h.peers p hp).counts]
    exact List.mem_cons_self
  · intro c hc
    obtain ⟨i, hi⟩ := List.mem_iff_getElem?.1 hc
    rw [h.usage i c hi]
    refine hsum i c.cpuId ?_
    rw [← h.cores, List.getElem?_map, hi]
    rfl
  · exact (h.peers p hp).counts_mem _ (hleast p hp).1

theorem CoreInv.countersFit {withPeers : Bool} (h : CoreInv ids withPeers s) (hids : ids ≠ []) :
    CountersFit s := by
  cases withPeers with
  | true => exact PeerInv.countersFit h hids
  | false => exact PlainInv.countersFit h

/-- In every state that is reached no counter is above the number of open connections, so that none of
them overflows below `2 ^ 31` connections. -/
theorem countersFit_of_run {withPeers : Bool} {acts : List ConnCall} (hids : ids ≠ [])
    (hnd : ids.Nodup) (hok : Admissible coreStep (fun s a => LegalCall s a ∧ a.hasPeer = withPeers)
      ⟨allocateCpuGroup ids, []⟩ acts) :
    ∃ s, run coreStep ⟨allocateCpuGroup ids, []⟩ acts = some s ∧ CountersFit s := by
  obtain ⟨s, hrun, hinv⟩ := run_total (coreStep_inv hids hnd) (coreInv_init ids withPeers) hok
  exact ⟨s, hrun, hinv.countersFit hids⟩

end

end DssSdk.Framework
