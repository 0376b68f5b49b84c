import DssSdk.Fuse.Module

/-!
# What a map says about the commands under way

* `Atomic`: an item has never both plain writes and a pair under way, a key has at most one item in
  use, and no other write of a key leaves the module while a pair of that key is under way;
* `ItemOk`, `Inv`: the counter and the request of an item agree with the commands under way, and
  `Inv.atomic` is that pairs are atomic then;
* `On`: the invariant, and that the item may be taken into use for its key;
* `On.setItem`, `Inv.setRequest`, `On.sendFused`, `Inv.dropFlight`: the changes that keep it.
-/

namespace DssSdk.Fuse

open Program

/-- The fused commands of an item. -/
def Traffic.fusedOn (s : Traffic) (i : ItemRef) : List Io :=
  s.flight.filter fun io => io.fused && io.item == i

/-- The plain writes of an item. -/
def Traffic.plainOn (s : Traffic) (i : ItemRef) : List Io :=
  s.flight.filter fun io => !io.fused && io.item == i

/-- Fused pairs are atomic: see the header. `since` is when the comparison of a pair began, so that
the last field is about the writes that were sent since then. -/
structure Atomic (s : Table) : Prop where
  exclusive : ∀ i, ¬ (0 < (s.items i).refCnt ∧ (s.items i).fuseReq ≠ none)
  oneActive : ∀ b j j', (s.items (b, j)).active = true → (s.items (b, j')).active = true →
    (s.items (b, j)).key = (s.items (b, j')).key → j = j'
  noOtherWrite : ∀ x ∈ s.flight, x.fused = true → ∀ w ∈ s.flight, w.isWrite = true →
    w.key = some x.pairKey → x.since < w.seq → w = x

/-- The request waits in the item or is under way there. -/
def Item.Holds (it : Item) (r : ℕ) : Prop := r ∈ it.waiting ∨ it.fuseReq = some r

/-- The request belongs to no other item. -/
def Traffic.At (s : Traffic) (i : ItemRef) (r : ℕ) : Prop :=
  (s.requests r).fuseData = none ∨ (s.requests r).fuseData = some i

/-- A second command that is linked to a request of the item. -/
structure LinkOk (s : Traffic) (i : ItemRef) (it : Item) (f2 : ℕ) : Prop where
  lt : f2 < s.nrRequests
  opc : (s.requests f2).opc.isF2 = true
  key : (s.requests f2).key = it.key
  here : s.At i f2
  next : (s.requests f2).nextReq = none
  notWaiting : f2 ∉ it.waiting

/-- A request that an item holds. -/
structure RefOk (s : Traffic) (i : ItemRef) (it : Item) (r : ℕ) : Prop where
  lt : r < s.nrRequests
  opc : (s.requests r).opc.isPlain = false
  key : (s.requests r).key = it.key
  here : s.At i r
  next : (s.requests r).opc.isF2 = true → (s.requests r).nextReq = none
  link : ∀ f2, (s.requests r).nextReq = some f2 → LinkOk s i it f2

/-- A pair that the poller will try again on the item. -/
def Traffic.Delayed (s : Traffic) (i : ItemRef) (r : ℕ) : Prop :=
  r ∈ s.wpDelayQueue ∧ (s.requests r).opc = .cmp ∧ (s.requests r).fuseData = some i

/-- An item that agrees with the rest of the map. -/
structure ItemOk (s : Traffic) (i : ItemRef) (it : Item) : Prop where
  exclusive : 0 < it.refCnt → it.fuseReq = none
  plain : (s.plainOn i).length ≤ it.refCnt
  fused : s.fusedOn i ≠ [] → it.fuseReq ≠ none
  single : (s.fusedOn i).length ≤ 1
  wal : ∀ io ∈ s.fusedOn i, io.kind = .walWrite → it.fuseReq = some io.req
  keys : ∀ io ∈ s.flight, io.item = i →
    io.pairKey = it.key ∧ (io.key = some it.key ∨ io.key = none)
  nodup : it.waiting.Nodup
  notWaiting : ∀ r, it.fuseReq = some r → r ∉ it.waiting
  waiting : ∀ r ∈ it.waiting, (s.requests r).fuseData = some i
  refs : ∀ r, it.Holds r → RefOk s i it r
  delayed : ∀ r, s.Delayed i r → it.fuseReq = some r ∧ s.fusedOn i = []

/-- A request in the queue of the poller. -/
def Traffic.DelayOk (s : Traffic) (r : ℕ) : Prop :=
  r < s.nrRequests ∧ ((s.requests r).opc.isPlain = true ∨
    (s.requests r).opc = .cmp ∧ (s.requests r).nextReq ≠ none ∧ (s.requests r).fuseData ≠ none)

/-- The invariant of a map. -/
structure Inv (s : Table) : Prop where
  items : ∀ i, ItemOk s.toTraffic i (s.items i)
  one : ∀ i i', (s.items i).active = true → (s.items i').active = true →
    (s.items i).key = (s.items i').key → i = i'
  home : ∀ i, (s.items i).active = true →
    i.1 = bucketOf (s.items i).key ∧ i.2 < s.nrEntries i.1
  plainReq : ∀ io ∈ s.flight, io.kind = .plain →
    io.req < s.nrRequests ∧ (s.requests io.req).opc.isPlain = true ∧
      (s.requests io.req).fuseData = some io.item
  plainNodup : ((s.flight.filter fun io => !io.fused).map Io.req).Nodup
  delayReq : ∀ r ∈ s.wpDelayQueue, s.DelayOk r
  delayNodup : s.wpDelayQueue.Nodup
  delayFlight : ∀ r ∈ s.wpDelayQueue, ∀ io ∈ s.flight, io.kind = .plain → io.req ≠ r

/-- The invariant, and that the item `i` is the one for its key. -/
structure On (s : Table) (i : ItemRef) : Prop extends Inv s where
  claim : ∀ i', (s.items i').active = true → (s.items i').key = (s.items i).key → i' = i
  place : i.1 = bucketOf (s.items i).key ∧ i.2 < s.nrEntries i.1

/-- No pair of the item is delayed. -/
def Traffic.Clear (s : Traffic) (i : ItemRef) : Prop := ∀ r, ¬ s.Delayed i r

/-! ### Items in use -/

theorem Opc.isPlain_of_isF2 {o : Opc} (h : o.isF2 = true) : o.isPlain = false := by
  cases o <;> simp_all [Opc.isF2, Opc.isPlain]

theorem Item.active_iff {it : Item} :
    it.active = true ↔ 0 < it.refCnt ∨ it.waiting ≠ [] ∨ it.fuseReq ≠ none := by
  unfold Item.active
  cases it.fuseReq <;> simp

theorem Item.not_active {it : Item} (h : it.active = false) :
    it.refCnt = 0 ∧ it.waiting = [] ∧ it.fuseReq = none := by
  have h' : ¬ it.active = true := by simp [h]
  rw [Item.active_iff] at h'
  push Not at h'
  exact ⟨by omega, h'.2.1, h'.2.2⟩

theorem Item.Holds.active {it : Item} {r : ℕ} (h : it.Holds r) : it.active = true := by
  rw [Item.active_iff]
  rcases h with h | h
  · exact Or.inr (Or.inl (List.ne_nil_of_mem h))
  · exact Or.inr (Or.inr (by simp [h]))

section

variable {s : Table} {i : ItemRef} {it : Item}

theorem mem_fusedOn {io : Io} : io ∈ s.fusedOn i ↔ io ∈ s.flight ∧ io.fused = true ∧ io.item = i := by
  simp [Traffic.fusedOn]

theorem mem_plainOn {io : Io} : io ∈ s.plainOn i ↔ io ∈ s.flight ∧ io.fused = false ∧ io.item = i := by
  simp [Traffic.plainOn]

theorem ItemOk.active_of_flight (h : ItemOk s.toTraffic i it) {io : Io} (hio : io ∈ s.flight)
    (hi : io.item = i) : it.active = true := by
  rw [Item.active_iff]
  cases hf : io.fused with
  | true =>
    have hmem : io ∈ s.fusedOn i := mem_fusedOn.2 ⟨hio, hf, hi⟩
    exact Or.inr (Or.inr (h.fused (List.ne_nil_of_mem hmem)))
  | false =>
    have hmem : io ∈ s.plainOn i := mem_plainOn.2 ⟨hio, hf, hi⟩
    have hpos := List.length_pos_of_mem hmem
    exact Or.inl (lt_of_lt_of_le hpos h.plain)

theorem ItemOk.fusedOn_eq_nil (h : ItemOk s.toTraffic i it) (hf : it.fuseReq = none) : s.fusedOn i = [] := by
  by_contra hne
  exact h.fused hne hf

/-- Without a pair under way no pair is delayed. -/
theorem ItemOk.clear (h : ItemOk s.toTraffic i it) (hf : it.fuseReq = none) : s.Clear i := by
  intro r hr
  rw [(h.delayed r hr).1] at hf
  cases hf

theorem ItemOk.clear_of_fused (h : ItemOk s.toTraffic i it) (hf : s.fusedOn i ≠ []) : s.Clear i :=
  fun r hr => hf (h.delayed r hr).2

/-- The invariant says that pairs are atomic. -/
theorem Inv.atomic (h : Inv s) : Atomic s := by
  refine ⟨fun i hi => hi.2 ((h.items i).exclusive hi.1), fun b j j' hj hj' hkey => ?_, ?_⟩
  · exact congrArg Prod.snd (h.one (b, j) (b, j') hj hj' hkey)
  · intro x hx hxf w hw _ hkey _
    have hxi := (h.items x.item).keys x hx rfl
    have hwi := (h.items w.item).keys w hw rfl
    have hsame : (s.items w.item).key = (s.items x.item).key := by
      rw [hkey, hxi.1] at hwi
      simpa [eq_comm] using hwi.2
    have hitem : w.item = x.item :=
      h.one _ _ ((h.items w.item).active_of_flight hw rfl)
        ((h.items x.item).active_of_flight hx rfl) hsame
    have hxmem : x ∈ s.fusedOn x.item := mem_fusedOn.2 ⟨hx, hxf, rfl⟩
    cases hwf : w.fused with
    | true =>
      have hwmem : w ∈ s.fusedOn x.item := mem_fusedOn.2 ⟨hw, hwf, hitem⟩
      obtain ⟨y, hy⟩ : ∃ y, s.fusedOn x.item = [y] := by
        refine List.length_eq_one_iff.1 ?_
        have hpos := List.length_pos_of_mem hxmem
        have hle := (h.items x.item).single
        omega
      rw [hy, List.mem_singleton] at hxmem hwmem
      rw [hwmem, hxmem]
    | false =>
      -- a plain write of the key keeps the counter positive, so that no pair is under way
      have hwmem : w ∈ s.plainOn x.item := mem_plainOn.2 ⟨hw, hwf, hitem⟩
      have hpos := lt_of_lt_of_le (List.length_pos_of_mem hwmem) (h.items x.item).plain
      have hnone := (h.items x.item).exclusive hpos
      exact absurd hnone ((h.items x.item).fused (List.ne_nil_of_mem hxmem))

/-! ### Changes of a map -/

/-- Another item at `i`, for the same key. -/
theorem On.setItem (h : On s i) (hit : ItemOk s.toTraffic i it) (hkey : it.key = (s.items i).key) :
    On { s with items := Function.update s.items i it } i := by
  have hself : (Function.update s.items i it) i = it := by simp
  have hother : ∀ j, j ≠ i → (Function.update s.items i it) j = s.items j := by
    intro j hj
    simp [hj]
  have hclaim : ∀ j, (Function.update s.items i it j).active = true →
      (Function.update s.items i it j).key = it.key → j = i := by
    intro j hj hk
    by_contra hne
    rw [hother j hne] at hj hk
    exact hne (h.claim j hj (hk.trans hkey))
  constructor
  · constructor
    · intro j
      by_cases hj : j = i
      · subst hj
        dsimp only
        rw [hself]
        exact hit
      · dsimp only
        rw [hother j hj]
        exact h.items j
    · intro j j' hj hj' hk
      dsimp only at hj hj' hk
      by_cases hji : j = i
      · subst hji
        rw [hself] at hk
        exact (hclaim j' hj' hk.symm).symm
      · by_cases hji' : j' = i
        · subst hji'
          rw [hself] at hk
          exact hclaim j hj hk
        · rw [hother j hji] at hj hk
          rw [hother j' hji'] at hj' hk
          exact h.one j j' hj hj' hk
    · intro j hj
      dsimp only at hj ⊢
      by_cases hji : j = i
      · subst hji
        rw [hself, hkey]
        exact h.place
      · rw [hother j hji] at hj ⊢
        exact h.home j hj
    · exact h.plainReq
    · exact h.plainNodup
    · exact h.delayReq
    · exact h.delayNodup
    · exact h.delayFlight
  · dsimp only
    rw [hself]
    exact hclaim
  · dsimp only
    rw [hself, hkey]
    exact h.place

/-- Another item for the same key, as long as the fused commands and the delayed pairs keep the
request they belong to. -/
theorem ItemOk.update (h : ItemOk s.toTraffic i it) {it' : Item} (hkey : it'.key = it.key)
    (hwait : it'.waiting.Sublist it.waiting) (hx : 0 < it'.refCnt → it'.fuseReq = none)
    (hp : (s.plainOn i).length ≤ it'.refCnt)
    (hkeep : it'.fuseReq = it.fuseReq ∨ s.fusedOn i = [] ∧ s.Clear i)
    (hreq : ∀ r, it'.fuseReq = some r → r ∉ it'.waiting ∧
      (it.Holds r ∨ LinkOk s.toTraffic i it r)) :
    ItemOk s.toTraffic i it' := by
  have hlink : ∀ f2, LinkOk s.toTraffic i it f2 → LinkOk s.toTraffic i it' f2 := by
    intro f2 hf2
    exact ⟨hf2.lt, hf2.opc, hf2.key.trans hkey.symm, hf2.here, hf2.next,
      fun hmem => hf2.notWaiting (hwait.subset hmem)⟩
  have hheld : ∀ r, it.Holds r → RefOk s.toTraffic i it' r := by
    intro r hr
    have href := h.refs r hr
    exact ⟨href.lt, href.opc, href.key.trans hkey.symm, href.here, href.next,
      fun f2 hf2 => hlink f2 (href.link f2 hf2)⟩
  constructor
  · exact hx
  · exact hp
  · intro hne
    rcases hkeep with hkeep | ⟨hnil, _⟩
    · rw [hkeep]
      exact h.fused hne
    · exact absurd hnil hne
  · exact h.single
  · intro io hio hk
    rcases hkeep with hkeep | ⟨hnil, _⟩
    · rw [hkeep]
      exact h.wal io hio hk
    · rw [hnil] at hio
      cases hio
  · rw [hkey]
    exact h.keys
  · exact h.nodup.sublist hwait
  · exact fun r hr => (hreq r hr).1
  · exact fun r hr => h.waiting r (hwait.subset hr)
  · intro r hr
    rcases hr with hr | hr
    · exact hheld r (Or.inl (hwait.subset hr))
    · rcases (hreq r hr).2 with hr | hr
      · exact hheld r hr
      · have hf2 := hlink r hr
        refine ⟨hf2.lt, Opc.isPlain_of_isF2 hf2.opc, hf2.key, hf2.here, fun _ => hf2.next,
          fun f3 hf3 => ?_⟩
        rw [hf2.next] at hf3
        cases hf3
  · intro r hr
    rcases hkeep with hkeep | ⟨_, hc⟩
    · rw [hkeep]
      exact h.delayed r hr
    · exact absurd hr (hc r)

theorem Inv.on_of_active (h : Inv s) (ha : (s.items i).active = true) : On s i :=
  ⟨h, fun j hj hk => h.one j i hj ha hk, h.home i ha⟩

/-- Commands that came back. -/
theorem Inv.dropFlight (h : Inv s) {l : List Io} (hl : l.Sublist s.flight) :
    Inv { s with flight := l } := by
  have hfused : ∀ j, (l.filter fun io => io.fused && io.item == j).Sublist (s.fusedOn j) :=
    fun j => hl.filter _
  have hplain : ∀ j, (l.filter fun io => !io.fused && io.item == j).Sublist (s.plainOn j) :=
    fun j => hl.filter _
  constructor
  · intro j
    have hj := h.items j
    constructor
    · exact hj.exclusive
    · exact (hplain j).length_le.trans hj.plain
    · intro hne
      refine hj.fused fun hnil => hne ?_
      have hsub := hfused j
      rw [hnil] at hsub
      exact List.sublist_nil.1 hsub
    · exact (hfused j).length_le.trans hj.single
    · exact fun io hio => hj.wal io ((hfused j).subset hio)
    · exact fun io hio => hj.keys io (hl.subset hio)
    · exact hj.nodup
    · exact hj.notWaiting
    · exact hj.waiting
    · intro r hr
      have href := hj.refs r hr
      refine ⟨href.lt, href.opc, href.key, href.here, href.next, fun f2 hf2 => ?_⟩
      have hlink := href.link f2 hf2
      exact ⟨hlink.lt, hlink.opc, hlink.key, hlink.here, hlink.next, hlink.notWaiting⟩
    · intro r hr
      refine ⟨(hj.delayed r hr).1, ?_⟩
      have hsub := hfused j
      rw [(hj.delayed r hr).2] at hsub
      exact List.sublist_nil.1 hsub
  · exact h.one
  · exact h.home
  · exact fun io hio => h.plainReq io (hl.subset hio)
  · exact h.plainNodup.sublist ((hl.filter _).map _)
  · exact h.delayReq
  · exact h.delayNodup
  · exact fun r hr io hio => h.delayFlight r hr io (hl.subset hio)

/-- The item of a request that other items hold or link to. -/
def Table.Refers (s : Table) (i : ItemRef) (r : ℕ) : Prop :=
  (s.items i).Holds r ∨ ∃ f1, (s.items i).Holds f1 ∧ (s.requests f1).nextReq = some r

/-- Other pointers in a request: they agree with the commands under way, the items and the queue of the
poller. -/
structure Repoints (s : Table) (r : ℕ) (q : Request) : Prop where
  command : q.toCommand = (s.requests r).toCommand
  plain : ∀ io ∈ s.flight, io.kind = .plain → io.req = r → q.fuseData = some io.item
  waiting : ∀ j, r ∈ (s.items j).waiting → q.fuseData = some j
  here : ∀ j, s.Refers j r → q.fuseData = none ∨ q.fuseData = some j
  next : ∀ f2, q.nextReq = some f2 → ∀ j, s.Refers j r → q.opc.isF2 = false ∧
    ((s.items j).Holds r → LinkOk s.toTraffic j (s.items j) f2)
  delay : r ∈ s.wpDelayQueue → q.opc.isPlain = true ∨ q.nextReq ≠ none ∧
    ∃ j, q.fuseData = some j ∧ (s.items j).fuseReq = some r ∧ s.fusedOn j = []

section

variable {r r' f2 : ℕ} {q : Request} {j : ItemRef}

/-- The map with the new pointers. -/
def Table.repoint (s : Table) (r : ℕ) (q : Request) : Table :=
  { s with requests := Function.update s.requests r q }

@[simp] theorem repoint_self : (s.repoint r q).requests r = q := Function.update_self _ _ _

theorem repoint_of_ne (hne : r' ≠ r) : (s.repoint r q).requests r' = s.requests r' :=
  Function.update_of_ne hne _ _

theorem Repoints.toCommand_eq (hq : Repoints s r q) (r' : ℕ) :
    ((s.repoint r q).requests r').toCommand = (s.requests r').toCommand := by
  rcases eq_or_ne r' r with rfl | hne
  · rw [repoint_self, hq.command]
  · rw [repoint_of_ne hne]

theorem Repoints.opc_eq (hq : Repoints s r q) (r' : ℕ) :
    ((s.repoint r q).requests r').opc = (s.requests r').opc :=
  congrArg Command.opc (hq.toCommand_eq r')

theorem Repoints.key_eq (hq : Repoints s r q) (r' : ℕ) :
    ((s.repoint r q).requests r').key = (s.requests r').key :=
  congrArg Command.key (hq.toCommand_eq r')

theorem Repoints.at_repoint (hq : Repoints s r q) (href : s.Refers j r') (hat : s.At j r') :
    (s.repoint r q).At j r' := by
  unfold Traffic.At
  rcases eq_or_ne r' r with rfl | hne
  · rw [repoint_self]
    exact hq.here j href
  · rw [repoint_of_ne hne]
    exact hat

theorem Repoints.nextReq_eq_none (hq : Repoints s r q) (href : s.Refers j r)
    (hop : (s.requests r).opc.isF2 = true) : q.nextReq = none := by
  by_contra hne
  obtain ⟨f2, hf2⟩ := Option.ne_none_iff_exists'.1 hne
  have hq2 := (hq.next f2 hf2 j href).1
  rw [show q.opc = (s.requests r).opc from congrArg Command.opc hq.command, hop] at hq2
  cases hq2

theorem Repoints.next_repoint (hq : Repoints s r q) (href : s.Refers j r')
    (hop : (s.requests r').opc.isF2 = true) (hnext : (s.requests r').nextReq = none) :
    ((s.repoint r q).requests r').nextReq = none := by
  rcases eq_or_ne r' r with rfl | hne
  · rw [repoint_self]
    exact hq.nextReq_eq_none href hop
  · rw [repoint_of_ne hne]
    exact hnext

theorem LinkOk.repoint (hq : Repoints s r q) (h : RefOk s.toTraffic j (s.items j) r')
    (hr' : (s.items j).Holds r') (hf2 : ((s.repoint r q).requests r').nextReq = some f2) :
    LinkOk (s.repoint r q).toTraffic j (s.items j) f2 := by
  have hlink : LinkOk s.toTraffic j (s.items j) f2 ∧ (f2 ≠ r ∨ s.Refers j f2) := by
    rcases eq_or_ne r' r with rfl | hne
    · rw [repoint_self] at hf2
      obtain ⟨hop, hlink⟩ := hq.next f2 hf2 j (Or.inl hr')
      refine ⟨hlink hr', Or.inl ?_⟩
      rintro rfl
      rw [show q.opc = (s.requests f2).opc from congrArg Command.opc hq.command,
        (hlink hr').opc] at hop
      cases hop
    · rw [repoint_of_ne hne] at hf2
      exact ⟨h.link f2 hf2, Or.inr (Or.inr ⟨r', hr', hf2⟩)⟩
  obtain ⟨hlink, hrefers⟩ := hlink
  have hother : f2 ≠ r → (s.repoint r q).requests f2 = s.requests f2 := repoint_of_ne
  refine ⟨hlink.lt, ?opc, ?key, ?here, ?next, hlink.notWaiting⟩
  case opc =>
    rw [hq.opc_eq]
    exact hlink.opc
  case key =>
    rw [hq.key_eq]
    exact hlink.key
  case here =>
    rcases hrefers with hne | href
    · unfold Traffic.At
      rw [hother hne]
      exact hlink.here
    · exact hq.at_repoint href hlink.here
  case next =>
    rcases hrefers with hne | href
    · rw [hother hne]
      exact hlink.next
    · exact hq.next_repoint href hlink.opc hlink.next

theorem RefOk.repoint (hq : Repoints s r q) (h : RefOk s.toTraffic j (s.items j) r')
    (hr' : (s.items j).Holds r') : RefOk (s.repoint r q).toTraffic j (s.items j) r' where
  lt := h.lt
  opc := by
    rw [hq.opc_eq]
    exact h.opc
  key := by
    rw [hq.key_eq]
    exact h.key
  here := hq.at_repoint (Or.inl hr') h.here
  next := by
    rw [hq.opc_eq]
    exact fun hop => hq.next_repoint (Or.inl hr') hop (h.next hop)
  link := fun _ hf2 => .repoint hq h hr' hf2

theorem ItemOk.repoint (hq : Repoints s r q) (h : ItemOk s.toTraffic j (s.items j)) :
    ItemOk (s.repoint r q).toTraffic j (s.items j) where
  exclusive := h.exclusive
  plain := h.plain
  fused := h.fused
  single := h.single
  wal := h.wal
  keys := h.keys
  nodup := h.nodup
  notWaiting := h.notWaiting
  waiting := fun r' hr' => by
    rcases eq_or_ne r' r with rfl | hne
    · rw [repoint_self]
      exact hq.waiting j hr'
    · rw [repoint_of_ne hne]
      exact h.waiting r' hr'
  refs := fun r' hr' => (h.refs r' hr').repoint hq hr'
  delayed := by
    rintro r' ⟨hmem, hop, hfd⟩
    rw [hq.opc_eq] at hop
    rcases eq_or_ne r' r with rfl | hne
    · rw [repoint_self] at hfd
      rcases hq.delay hmem with hp | ⟨_, j', hj', hfuse, hnil⟩
      · rw [show q.opc = (s.requests r').opc from congrArg Command.opc hq.command, hop] at hp
        cases hp
      · rw [hj', Option.some.injEq] at hfd
        subst hfd
        exact ⟨hfuse, hnil⟩
    · rw [repoint_of_ne hne] at hfd
      exact h.delayed r' ⟨hmem, hop, hfd⟩

theorem Traffic.DelayOk.repoint (hq : Repoints s r q) (hr' : r' ∈ s.wpDelayQueue)
    (h : s.DelayOk r') : (s.repoint r q).DelayOk r' := by
  obtain ⟨hlt, hop⟩ := h
  refine ⟨hlt, ?_⟩
  rw [hq.opc_eq]
  refine hop.imp id fun ⟨hc, hnext, hfd⟩ => ⟨hc, ?_⟩
  rcases eq_or_ne r' r with rfl | hne
  · rw [repoint_self]
    rcases hq.delay hr' with hp | ⟨hnx, j, hj, -, -⟩
    · rw [show q.opc = (s.requests r').opc from congrArg Command.opc hq.command, hc] at hp
      cases hp
    · exact ⟨hnx, by simp [hj]⟩
  · rw [repoint_of_ne hne]
    exact ⟨hnext, hfd⟩

/-- Other pointers in a request. -/
theorem Inv.setRequest (h : Inv s) {r : ℕ} {q : Request}
    (hcmd : q.toCommand = (s.requests r).toCommand)
    (hplain : ∀ io ∈ s.flight, io.kind = .plain → io.req = r → q.fuseData = some io.item)
    (hwait : ∀ j, r ∈ (s.items j).waiting → q.fuseData = some j)
    (hat : ∀ j, s.Refers j r → q.fuseData = none ∨ q.fuseData = some j)
    (hnext : ∀ f2, q.nextReq = some f2 → ∀ j, s.Refers j r → q.opc.isF2 = false ∧
      ((s.items j).Holds r → LinkOk s.toTraffic j (s.items j) f2))
    (hdelay : r ∈ s.wpDelayQueue → q.opc.isPlain = true ∨ q.nextReq ≠ none ∧
      ∃ j, q.fuseData = some j ∧ (s.items j).fuseReq = some r ∧ s.fusedOn j = []) :
    Inv { s with requests := Function.update s.requests r q } := by
  have hq : Repoints s r q := ⟨hcmd, hplain, hwait, hat, hnext, hdelay⟩
  show Inv (s.repoint r q)
  constructor
  case items => exact fun j => (h.items j).repoint hq
  case one => exact h.one
  case home => exact h.home
  case plainReq =>
    intro io hio hk
    obtain ⟨hlt, hop, hfd⟩ := h.plainReq io hio hk
    refine ⟨hlt, ?_, ?_⟩
    · rw [hq.opc_eq]
      exact hop
    · rcases eq_or_ne io.req r with heq | hne
      · rw [heq, repoint_self]
        exact hplain io hio hk heq
      · rw [repoint_of_ne hne]
        exact hfd
  case plainNodup => exact h.plainNodup
  case delayReq => exact fun r' hr' => (h.delayReq r' hr').repoint hq hr'
  case delayNodup => exact h.delayNodup
  case delayFlight => exact h.delayFlight

end

theorem Inv.not_refers (h : Inv s) {r : ℕ} (hop : (s.requests r).opc.isPlain = true)
    (j : ItemRef) : ¬ s.Refers j r := by
  rintro (hj | ⟨f1, hf1, hnext⟩)
  · have hp := ((h.items j).refs r hj).opc
    rw [hop] at hp
    cases hp
  · have hp := Opc.isPlain_of_isF2 (((h.items j).refs f1 hf1).link r hnext).opc
    rw [hop] at hp
    cases hp

theorem Opc.isF2_of_isPlain {o : Opc} (h : o.isPlain = true) : o.isF2 = false := by
  cases o <;> simp_all [Opc.isF2, Opc.isPlain]

theorem Inv.setPlain (h : Inv s) {r : ℕ} {q : Request}
    (hcmd : q.toCommand = (s.requests r).toCommand)
    (hop : (s.requests r).opc.isPlain = true)
    (hfree : ∀ io ∈ s.flight, io.kind = .plain → io.req ≠ r) :
    Inv { s with requests := Function.update s.requests r q } := by
  have hopc : q.opc = (s.requests r).opc := congrArg Command.opc hcmd
  refine h.setRequest hcmd ?_ ?_ ?_ ?_ ?_
  · exact fun io hio hk heq => absurd heq (hfree io hio hk)
  · exact fun j hj => absurd (Or.inl (Or.inl hj)) (h.not_refers hop j)
  · exact fun j hj => absurd hj (h.not_refers hop j)
  · exact fun f2 _ j hj => absurd hj (h.not_refers hop j)
  · rw [hopc]
    exact fun _ => Or.inl hop

theorem Inv.relink (h : Inv s) {r : ℕ} {q : Request}
    (hcmd : q.toCommand = (s.requests r).toCommand)
    (hdata : q.fuseData = (s.requests r).fuseData)
    (hnone : q.nextReq = none → (s.requests r).nextReq = none)
    (hnext : ∀ f2, q.nextReq = some f2 → q.opc.isF2 = false ∧
      ∀ j, (s.items j).Holds r → LinkOk s.toTraffic j (s.items j) f2) :
    Inv { s with requests := Function.update s.requests r q } := by
  refine h.setRequest hcmd ?_ ?_ ?_
    (fun f2 hf2 j _ => ⟨(hnext f2 hf2).1, (hnext f2 hf2).2 j⟩) ?_
  · intro io hio hk heq
    rw [hdata, ← heq]
    exact (h.plainReq io hio hk).2.2
  · intro j hj
    rw [hdata]
    exact (h.items j).waiting r hj
  · intro j hj
    rw [hdata]
    rcases hj with hj | ⟨f1, hf1, hlink⟩
    · exact ((h.items j).refs r hj).here
    · exact (((h.items j).refs f1 hf1).link r hlink).here
  · intro hmem
    rw [show q.opc = (s.requests r).opc from congrArg Command.opc hcmd, hdata]
    obtain ⟨_, hp | ⟨hcmp, hnx, hfd⟩⟩ := h.delayReq r hmem
    · exact Or.inl hp
    · obtain ⟨j, hj⟩ := Option.ne_none_iff_exists'.1 hfd
      have hd := (h.items j).delayed r ⟨hmem, hcmp, hj⟩
      exact Or.inr ⟨fun hq => hnx (hnone hq), j, hj, hd⟩

theorem Inv.setData (h : Inv s) {r : ℕ} {q : Request}
    (hcmd : q.toCommand = (s.requests r).toCommand) (hnext : q.nextReq = (s.requests r).nextReq)
    (hop : (s.requests r).opc.isPlain = false)
    (hwait : ∀ j, r ∈ (s.items j).waiting → q.fuseData = some j)
    (hat : ∀ j, s.Refers j r → q.fuseData = none ∨ q.fuseData = some j)
    (hdelay : r ∉ s.wpDelayQueue) :
    Inv { s with requests := Function.update s.requests r q } := by
  refine h.setRequest hcmd ?_ hwait hat ?_ (fun hmem => absurd hmem hdelay)
  · rintro io hio hk rfl
    have hp := (h.plainReq io hio hk).2.1
    rw [hop] at hp
    cases hp
  · intro f2 hf2 j hj
    rw [hnext] at hf2
    rw [show q.opc = (s.requests r).opc from congrArg Command.opc hcmd]
    rcases hj with hj | ⟨f1, hf1, hlink⟩
    · have href := (h.items j).refs r hj
      refine ⟨?_, fun _ => href.link f2 hf2⟩
      by_contra hF2
      rw [href.next (by simpa using hF2)] at hf2
      cases hf2
    · rw [(((h.items j).refs f1 hf1).link r hlink).next] at hf2
      cases hf2

theorem ItemOk.requeue (h : ItemOk s.toTraffic i it) {it' : Item} (hkey : it'.key = it.key)
    (hcnt : it'.refCnt = it.refCnt) (hx : 0 < it'.refCnt → it'.fuseReq = none)
    (hkeep : it'.fuseReq = it.fuseReq ∨ s.fusedOn i = [] ∧ s.Clear i)
    (hnodup : it'.waiting.Nodup)
    (hreq : ∀ r, it'.fuseReq = some r → r ∉ it'.waiting ∧ it.Holds r)
    (hnew : ∀ r ∈ it'.waiting, (s.requests r).fuseData = some i ∧ RefOk s.toTraffic i it r)
    (hlink : ∀ r f2, it'.Holds r → (s.requests r).nextReq = some f2 → f2 ∉ it'.waiting) :
    ItemOk s.toTraffic i it' := by
  have hrefs : ∀ r, it'.Holds r → RefOk s.toTraffic i it' r := by
    intro r hr
    have href : RefOk s.toTraffic i it r := by
      rcases hr with hr | hr
      · exact (hnew r hr).2
      · exact h.refs r (hreq r hr).2
    refine ⟨href.lt, href.opc, href.key.trans hkey.symm, href.here, href.next, fun f2 hf2 => ?_⟩
    have hl := href.link f2 hf2
    exact ⟨hl.lt, hl.opc, hl.key.trans hkey.symm, hl.here, hl.next, hlink r f2 hr hf2⟩
  constructor
  · exact hx
  · exact h.plain.trans hcnt.ge
  · intro hne
    rcases hkeep with hkeep | ⟨hnil, _⟩
    · rw [hkeep]
      exact h.fused hne
    · exact absurd hnil hne
  · exact h.single
  · intro io hio hk
    rcases hkeep with hkeep | ⟨hnil, _⟩
    · rw [hkeep]
      exact h.wal io hio hk
    · rw [hnil] at hio
      cases hio
  · rw [hkey]
    exact h.keys
  · exact hnodup
  · exact fun r hr => (hreq r hr).1
  · exact fun r hr => (hnew r hr).1
  · exact hrefs
  · intro r hr
    rcases hkeep with hkeep | ⟨_, hc⟩
    · rw [hkeep]
      exact h.delayed r hr
    · exact absurd hr (hc r)

theorem Inv.dropDelay (h : Inv s) {l : List ℕ} (hl : l.Sublist s.wpDelayQueue) :
    Inv { s with wpDelayQueue := l } := by
  constructor
  · intro j
    have hj := h.items j
    constructor
    · exact hj.exclusive
    · exact hj.plain
    · exact hj.fused
    · exact hj.single
    · exact hj.wal
    · exact hj.keys
    · exact hj.nodup
    · exact hj.notWaiting
    · exact hj.waiting
    · intro r hr
      have href := hj.refs r hr
      refine ⟨href.lt, href.opc, href.key, href.here, href.next, fun f2 hf2 => ?_⟩
      have hlink := href.link f2 hf2
      exact ⟨hlink.lt, hlink.opc, hlink.key, hlink.here, hlink.next, hlink.notWaiting⟩
    · exact fun r hr => hj.delayed r ⟨hl.subset hr.1, hr.2⟩
  · exact h.one
  · exact h.home
  · exact h.plainReq
  · exact h.plainNodup
  · exact fun r hr => h.delayReq r (hl.subset hr)
  · exact h.delayNodup.sublist hl
  · exact fun r hr => h.delayFlight r (hl.subset hr)

theorem Inv.pushDelay (h : Inv s) {r : ℕ} (hok : s.DelayOk r) (hnot : r ∉ s.wpDelayQueue)
    (hfree : ∀ io ∈ s.flight, io.kind = .plain → io.req ≠ r)
    (hd : ∀ j, (s.requests r).opc = .cmp → (s.requests r).fuseData = some j →
      (s.items j).fuseReq = some r ∧ s.fusedOn j = []) :
    Inv { s with wpDelayQueue := r :: s.wpDelayQueue } := by
  constructor
  · intro j
    have hj := h.items j
    constructor
    · exact hj.exclusive
    · exact hj.plain
    · exact hj.fused
    · exact hj.single
    · exact hj.wal
    · exact hj.keys
    · exact hj.nodup
    · exact hj.notWaiting
    · exact hj.waiting
    · intro r' hr'
      have href := hj.refs r' hr'
      refine ⟨href.lt, href.opc, href.key, href.here, href.next, fun f2 hf2 => ?_⟩
      have hlink := href.link f2 hf2
      exact ⟨hlink.lt, hlink.opc, hlink.key, hlink.here, hlink.next, hlink.notWaiting⟩
    · rintro r' ⟨hmem, hcmp, hfd⟩
      rcases List.mem_cons.1 hmem with rfl | hmem
      · exact hd j hcmp hfd
      · exact hj.delayed r' ⟨hmem, hcmp, hfd⟩
  · exact h.one
  · exact h.home
  · exact h.plainReq
  · exact h.plainNodup
  · intro r' hr'
    rcases List.mem_cons.1 hr' with rfl | hr'
    · exact hok
    · exact h.delayReq r' hr'
  · exact List.nodup_cons.2 ⟨hnot, h.delayNodup⟩
  · intro r' hr' io hio hk
    rcases List.mem_cons.1 hr' with rfl | hr'
    · exact hfree io hio hk
    · exact h.delayFlight r' hr' io hio hk

theorem On.sendPlain (h : On s i) (io : Io) (hkind : io.kind = .plain) (hi : io.item = i)
    (hlt : (s.plainOn i).length < (s.items i).refCnt)
    (hreq : io.req < s.nrRequests ∧ (s.requests io.req).opc.isPlain = true ∧
      (s.requests io.req).fuseData = some i)
    (hfree : ∀ x ∈ s.flight, x.kind = .plain → x.req ≠ io.req) (hnot : io.req ∉ s.wpDelayQueue)
    (hpair : io.pairKey = (s.items i).key)
    (hkey : io.key = some (s.items i).key ∨ io.key = none) :
    Inv { s with flight := s.flight ++ [io] } := by
  have hf : io.fused = false := by simp [Io.fused, hkind]
  have hfused : ∀ j, ((s.flight ++ [io]).filter fun x => x.fused && x.item == j) = s.fusedOn j := by
    intro j
    rw [List.filter_append]
    simp [Traffic.fusedOn, hf]
  have hplain : ∀ j, ((s.flight ++ [io]).filter fun x => !x.fused && x.item == j).length =
      (s.plainOn j).length + if j = i then 1 else 0 := by
    intro j
    rw [List.filter_append, List.length_append]
    by_cases hj : j = i
    · subst hj
      simp [Traffic.plainOn, hf, hi]
    · simp [Traffic.plainOn, hf, hi, hj, Ne.symm hj]
  constructor
  · intro j
    have hj := h.items j
    constructor
    · exact hj.exclusive
    · refine (hplain j).le.trans ?_
      by_cases hji : j = i
      · subst hji
        simpa using hlt
      · simpa [hji] using hj.plain
    · intro hne
      refine hj.fused ?_
      rw [← hfused j]
      exact hne
    · exact (congrArg List.length (hfused j)).le.trans hj.single
    · intro x hx
      have hx' : x ∈ s.fusedOn j := hfused j ▸ hx
      exact hj.wal x hx'
    · intro x hx hxj
      rcases List.mem_append.1 hx with hx | hx
      · exact hj.keys x hx hxj
      · rw [List.mem_singleton] at hx
        subst hx
        rw [← hxj, hi]
        exact ⟨hpair, hkey⟩
    · exact hj.nodup
    · exact hj.notWaiting
    · exact hj.waiting
    · intro r hr
      have href := hj.refs r hr
      refine ⟨href.lt, href.opc, href.key, href.here, href.next, fun f2 hf2 => ?_⟩
      have hlink := href.link f2 hf2
      exact ⟨hlink.lt, hlink.opc, hlink.key, hlink.here, hlink.next, hlink.notWaiting⟩
    · intro r hr
      exact ⟨(hj.delayed r hr).1, (hfused j).trans (hj.delayed r hr).2⟩
  · exact h.one
  · exact h.home
  · intro x hx hk
    rcases List.mem_append.1 hx with hx | hx
    · exact h.plainReq x hx hk
    · rw [List.mem_singleton] at hx
      subst hx
      rw [hi]
      exact hreq
  · dsimp only
    rw [List.filter_append, List.map_append, List.nodup_append]
    refine ⟨h.plainNodup, by simp [hf], ?_⟩
    intro r hr r' hr'
    obtain ⟨x, hx, rfl⟩ := List.mem_map.1 hr
    have hx' := List.mem_filter.1 hx
    have hr'' : r' = io.req := by simpa [hf] using hr'
    subst hr''
    exact hfree x hx'.1 (by simpa [Io.fused] using hx'.2)
  · exact h.delayReq
  · exact h.delayNodup
  · intro r hr x hx hk
    rcases List.mem_append.1 hx with hx | hx
    · exact h.delayFlight r hr x hx hk
    · rw [List.mem_singleton] at hx
      subst hx
      rintro rfl
      exact hnot hr

theorem Inv.newRequest (h : Inv s) (q : Request) :
    Inv { s with requests := Function.update s.requests s.nrRequests q, nrRequests := s.nrRequests + 1 } := by
  have hother : ∀ r, r < s.nrRequests → Function.update s.requests s.nrRequests q r = s.requests r := by
    intro r hr
    simp [hr.ne]
  constructor
  · intro j
    have hj := h.items j
    constructor
    · exact hj.exclusive
    · exact hj.plain
    · exact hj.fused
    · exact hj.single
    · exact hj.wal
    · exact hj.keys
    · exact hj.nodup
    · exact hj.notWaiting
    · intro r hr
      dsimp only
      rw [hother r (hj.refs r (Or.inl hr)).lt]
      exact hj.waiting r hr
    · intro r hr
      have href := hj.refs r hr
      have hr' := hother r href.lt
      refine ⟨href.lt.trans (Nat.lt_succ_self _), ?_, ?_, ?_, ?_, fun f2 hf2 => ?_⟩
      · dsimp only
        rw [hr']
        exact href.opc
      · dsimp only
        rw [hr']
        exact href.key
      · unfold Traffic.At
        dsimp only
        rw [hr']
        exact href.here
      · dsimp only
        rw [hr']
        exact href.next
      · dsimp only at hf2
        rw [hr'] at hf2
        have hlink := href.link f2 hf2
        have hf2' := hother f2 hlink.lt
        refine ⟨hlink.lt.trans (Nat.lt_succ_self _), ?_, ?_, ?_, ?_, hlink.notWaiting⟩
        · dsimp only
          rw [hf2']
          exact hlink.opc
        · dsimp only
          rw [hf2']
          exact hlink.key
        · unfold Traffic.At
          dsimp only
          rw [hf2']
          exact hlink.here
        · dsimp only
          rw [hf2']
          exact hlink.next
    · rintro r ⟨hmem, hcmp, hfd⟩
      dsimp only at hcmp hfd
      rw [hother r (h.delayReq r hmem).1] at hcmp hfd
      exact hj.delayed r ⟨hmem, hcmp, hfd⟩
  · exact h.one
  · exact h.home
  · intro io hio hk
    obtain ⟨hlt, hrest⟩ := h.plainReq io hio hk
    refine ⟨hlt.trans (Nat.lt_succ_self _), ?_⟩
    dsimp only
    rw [hother _ hlt]
    exact hrest
  · exact h.plainNodup
  · intro r hr
    obtain ⟨hlt, hrest⟩ := h.delayReq r hr
    refine ⟨hlt.trans (Nat.lt_succ_self _), ?_⟩
    dsimp only
    rw [hother r hlt]
    exact hrest
  · exact h.delayNodup
  · exact h.delayFlight

theorem On.not_delayed (h : On s i) (hc : s.Clear i) {r : ℕ}
    (hkey : (s.requests r).key = (s.items i).key)
    (hop : (s.requests r).opc.isPlain = false) : r ∉ s.wpDelayQueue := by
  intro hmem
  obtain ⟨_, hp | ⟨hcmp, _, hfd⟩⟩ := h.delayReq r hmem
  · rw [hop] at hp
    cases hp
  · -- a delayed pair is the one under way on its item, and that item has the same key
    obtain ⟨j, hj⟩ := Option.ne_none_iff_exists'.1 hfd
    have hd : s.Delayed j r := ⟨hmem, hcmp, hj⟩
    have hfuse := ((h.items j).delayed r hd).1
    have hhold : (s.items j).Holds r := Or.inr hfuse
    have hji : j = i := h.claim j hhold.active
      (((h.items j).refs r hhold).key.symm.trans hkey)
    subst hji
    exact hc r hd

theorem On.clearRequest (h : On s i) (hc : s.Clear i) {r : ℕ}
    (hkey : (s.requests r).key = (s.items i).key)
    (hop : (s.requests r).opc.isPlain = false) (hw : ∀ j, r ∉ (s.items j).waiting) :
    On { s with requests := Function.update s.requests r (s.requests r).clear } i := by
  refine ⟨h.toInv.setRequest rfl ?_ ?_ ?_ ?_ ?_, h.claim, h.place⟩
  · intro io hio hk heq
    have hp := (h.plainReq io hio hk).2.1
    rw [heq, hop] at hp
    cases hp
  · exact fun j hj => absurd hj (hw j)
  · exact fun j _ => Or.inl rfl
  · intro f2 hf2
    cases hf2
  · exact fun hmem => absurd hmem (h.not_delayed hc hkey hop)

/-- A fused command of the item is sent. -/
theorem On.sendFused (h : On s i) (hc : s.Clear i) (hnil : s.fusedOn i = []) (io : Io)
    (hreq : (s.items i).fuseReq = some io.req) (hf : io.fused = true) (hi : io.item = i)
    (hpair : io.pairKey = (s.items i).key)
    (hkey : io.key = some (s.items i).key ∨ io.key = none) :
    On { s with flight := s.flight ++ [io] } i := by
  have hkind : io.kind ≠ .plain := by simpa [Io.fused] using hf
  have hfused : ∀ j, j ≠ i →
      ((s.flight ++ [io]).filter fun x => x.fused && x.item == j) = s.fusedOn j := by
    intro j hj
    rw [List.filter_append]
    simp [Traffic.fusedOn, hi, Ne.symm hj]
  have hself : ((s.flight ++ [io]).filter fun x => x.fused && x.item == i) = [io] := by
    rw [List.filter_append]
    have : s.flight.filter (fun x => x.fused && x.item == i) = [] := hnil
    rw [this]
    simp [hf, hi]
  have hplain : ∀ j, ((s.flight ++ [io]).filter fun x => !x.fused && x.item == j) = s.plainOn j := by
    intro j
    rw [List.filter_append]
    simp [Traffic.plainOn, hf]
  refine ⟨?_, h.claim, h.place⟩
  constructor
  · intro j
    have hj := h.items j
    have hrefs : ∀ r, (s.items j).Holds r → RefOk
        { s.toTraffic with flight := s.flight ++ [io] } j (s.items j) r := by
      intro r hr
      have href := hj.refs r hr
      refine ⟨href.lt, href.opc, href.key, href.here, href.next, fun f2 hf2 => ?_⟩
      have hlink := href.link f2 hf2
      exact ⟨hlink.lt, hlink.opc, hlink.key, hlink.here, hlink.next, hlink.notWaiting⟩
    by_cases hji : j = i
    · subst hji
      constructor
      · exact hj.exclusive
      · exact (congrArg List.length (hplain j)).le.trans hj.plain
      · intro _
        dsimp only
        rw [hreq]
        exact Option.some_ne_none _
      · exact (congrArg List.length hself).le
      · intro x hx _
        have hx' : x ∈ [io] := hself ▸ hx
        rw [List.mem_singleton] at hx'
        subst hx'
        exact hreq
      · intro x hx hxi
        rcases List.mem_append.1 hx with hx | hx
        · exact hj.keys x hx hxi
        · rw [List.mem_singleton] at hx
          subst hx
          exact ⟨hpair, hkey⟩
      · exact hj.nodup
      · exact hj.notWaiting
      · exact hj.waiting
      · exact hrefs
      · exact fun r hr => absurd hr (hc r)
    · constructor
      · exact hj.exclusive
      · exact (congrArg List.length (hplain j)).le.trans hj.plain
      · intro hne
        refine hj.fused ?_
        rw [← hfused j hji]
        exact hne
      · exact (congrArg List.length (hfused j hji)).le.trans hj.single
      · intro x hx
        have hx' : x ∈ s.fusedOn j := hfused j hji ▸ hx
        exact hj.wal x hx'
      · intro x hx hxi
        rcases List.mem_append.1 hx with hx | hx
        · exact hj.keys x hx hxi
        · rw [List.mem_singleton] at hx
          subst hx
          exact absurd (hxi.symm.trans hi) hji
      · exact hj.nodup
      · exact hj.notWaiting
      · exact hj.waiting
      · exact hrefs
      · intro r hr
        exact ⟨(hj.delayed r hr).1, (hfused j hji).trans (hj.delayed r hr).2⟩
  · exact h.one
  · exact h.home
  · intro x hx hk
    rcases List.mem_append.1 hx with hx | hx
    · exact h.plainReq x hx hk
    · rw [List.mem_singleton] at hx
      subst hx
      exact absurd hk hkind
  · dsimp only
    rw [List.filter_append]
    simpa [hf] using h.plainNodup
  · exact h.delayReq
  · exact h.delayNodup
  · intro r hr x hx hk
    rcases List.mem_append.1 hx with hx | hx
    · exact h.delayFlight r hr x hx hk
    · rw [List.mem_singleton] at hx
      subst hx
      exact absurd hk hkind

/-- The invariant, and that the item has neither a fused command under way nor a delayed pair. -/
structure Ready (s : Table) (i : ItemRef) : Prop extends On s i where
  clear : s.Clear i
  idle : s.fusedOn i = []

/-- Another item for the same key when no fused command is under way. -/
theorem Ready.setItem (h : Ready s i) (hkey : it.key = (s.items i).key)
    (hwait : it.waiting.Sublist (s.items i).waiting) (hx : 0 < it.refCnt → it.fuseReq = none)
    (hp : (s.plainOn i).length ≤ it.refCnt)
    (hreq : ∀ r, it.fuseReq = some r → r ∉ it.waiting ∧
      ((s.items i).Holds r ∨ LinkOk s.toTraffic i (s.items i) r)) :
    Ready { s with items := Function.update s.items i it } i :=
  ⟨h.toOn.setItem ((h.items i).update hkey hwait hx hp (Or.inr ⟨h.idle, h.clear⟩) hreq) hkey,
    h.clear, h.idle⟩

/-- The same map, but for the buffers of an item. -/
structure Rebuffed (i : ItemRef) (s s' : Table) : Prop where
  traffic : s'.toTraffic = s.toTraffic
  nrEntries : s'.nrEntries = s.nrEntries
  others : ∀ j, j ≠ i → s'.items j = s.items j
  key : (s'.items i).key = (s.items i).key
  refCnt : (s'.items i).refCnt = (s.items i).refCnt
  fuseReq : (s'.items i).fuseReq = (s.items i).fuseReq
  waiting : (s'.items i).waiting = (s.items i).waiting

theorem Rebuffed.refl (i : ItemRef) (s : Table) : Rebuffed i s s :=
  ⟨rfl, rfl, fun _ _ => rfl, rfl, rfl, rfl, rfl⟩

theorem Rebuffed.trans {s₁ s₂ s₃ : Table} (h : Rebuffed i s₁ s₂) (h' : Rebuffed i s₂ s₃) :
    Rebuffed i s₁ s₃ :=
  ⟨h'.traffic.trans h.traffic, h'.nrEntries.trans h.nrEntries,
    fun j hj => (h'.others j hj).trans (h.others j hj), h'.key.trans h.key,
    h'.refCnt.trans h.refCnt, h'.fuseReq.trans h.fuseReq, h'.waiting.trans h.waiting⟩

/-- Other buffers in an item. -/
theorem Rebuffed.setItem (s : FuseMap) (i : ItemRef) (v : Option Value) (b : Bool) (t : ℕ) :
    Rebuffed i s.toTable
      (s.setItem i { s.items i with f1ReadVal := v, largeKeyBuff := b, readAt := t }).toTable := by
  refine ⟨rfl, rfl, fun j hj => s.setItem_items_of_ne _ hj, ?_, ?_, ?_, ?_⟩
  all_goals simp

theorem Ready.rebuffed {s' : Table} (h : Ready s i) (hs : Rebuffed i s s') : Ready s' i := by
  have heq : s' = { s with items := Function.update s.items i (s'.items i) } := by
    obtain ⟨ht, hn, ho, -, -, -, -⟩ := hs
    obtain ⟨t', n', items'⟩ := s'
    obtain ⟨t, n, items⟩ := s
    dsimp only at ht hn ho ⊢
    subst ht hn
    congr 1
    funext j
    by_cases hj : j = i
    · subst hj
      simp
    · simp [hj, ho j hj]
  rw [heq]
  have hi := h.items i
  refine h.setItem hs.key (by rw [hs.waiting]) ?_ ?_ ?_
  · rw [hs.refCnt, hs.fuseReq]
    exact hi.exclusive
  · rw [hs.refCnt]
    exact hi.plain
  · intro r hr
    rw [hs.fuseReq] at hr
    rw [hs.waiting]
    exact ⟨hi.notWaiting r hr, Or.inl (Or.inr hr)⟩

end

end DssSdk.Fuse
