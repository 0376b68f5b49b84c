import DssSdk.Listing.KeySet

/-!
# Prefix listing: concurrent updates over zones

The list instances run concurrently, each over the requests in its own queue. A request is put in
the queue of the instance of its deepest pair, the instance makes a pass over it, and the request is
done or goes to the end of the queue of the next instance.

* `poolStep`: the arrival of a request, and the pass of an instance over the first request of its
  queue. A request whose forwarding reads behind the zones stops the model.
* In every run, a request handles its pairs from the deepest one up, each at most once and by the
  instance of its zone; outside KV mode it ends when all are handled or when a handler is done: the
  entries above are there already (`HandledOnce`).
* In a run without forwarding, and without the defects of the updates, a key whose last update is
  a STORE is reachable from the root prefix once all requests are done.
-/

namespace DssSdk.Listing

/-- A list update under way, with the root prefix at its arrival and the pairs that were handled:
the index of each and the instance. -/
structure Req where
  op : Op
  key : Bytes
  root₀ : Bytes
  data : ListInfo
  rc : Rc
  done : Bool
  handled : List (ℕ × ℕ)

def Req.update (r : Req) : Update := ⟨r.op, r.key⟩

/-- The request of an update at its arrival. -/
def Req.new (u : Update) (root : Bytes) (data : ListInfo) : Req :=
  ⟨u.op, u.key, root, data, .passThrough, false, []⟩

/-- The listing, the requests by number, the queue of every instance and the updates that are
done, in order. -/
structure Pool where
  listing : ListContext
  reqs : List Req
  queues : ℕ → List ℕ
  applied : List Update

def Pool.init : Pool := ⟨ListContext.init, [], fun _ => [], []⟩

inductive Event
  | request (u : Update)
  | process (inst : ℕ)
deriving DecidableEq, Repr

/-- A request enters the queue of an instance. -/
def Pool.post (s : Pool) (inst id : ℕ) : Pool :=
  { s with queues := Function.update s.queues inst (s.queues inst ++ [id]) }

/-- The first request of a queue. -/
def Pool.front (s : Pool) (inst : ℕ) : Option Req := (s.queues inst).head?.bind (s.reqs[·]?)

/-- The request after a pass. -/
def Req.after (r : Req) (inst : ℕ) (pass : Pass) (done : Bool) : Req :=
  { r with
    data := pass.data
    rc := pass.rc
    done := done
    handled := r.handled ++ pass.handled.map (·, inst) }

/-- The pool after a pass over the request `id`. -/
def Pool.finishPass (conf : Conf) (s : Pool) (inst id : ℕ) (rest : List ℕ) (r : Req) :
    Option Pool :=
  let pass := listIo conf inst r.op r.key s.listing r.data
  let s' := { s with listing := pass.listing, queues := Function.update s.queues inst rest }
  match nextOf conf pass with
  | .done => some { s' with
      reqs := s.reqs.set id (r.after inst pass true)
      applied := s.applied ++ [r.update] }
  | .forward inst' => some (({ s' with reqs := s.reqs.set id (r.after inst pass false) }).post inst' id)
  | .outOfBounds => none

def poolStep (conf : Conf) (s : Pool) : Event → Option Pool
  | .request u =>
    match arrive conf s.listing.rootPrefix u.key with
    | none => none
    | some a => some (({ s with
        listing := { s.listing with rootPrefix := a.rootPrefix }
        reqs := s.reqs ++ [Req.new u s.listing.rootPrefix a.data] }).post a.inst s.reqs.length)
  | .process inst =>
    match s.queues inst with
    | [] => some s
    | id :: rest =>
      match s.reqs[id]? with
      | none => none
      | some r => s.finishPass conf inst id rest r

/-! ### Pairs are handled once -/

/-- The zone of pair `i` of a request. -/
def Req.zoneAt (conf : Conf) (r : Req) (i : ℕ) : ℕ :=
  zoneOf conf (prefixIn r.root₀ (((pairs r.key).reverse[i]?).elim [] Prod.fst))

/-- A request handles its pairs from the deepest one up, each once, by the instance of its zone,
until all are handled or a handler is done; in KV mode it ends after one pass. -/
structure HandledOnce (conf : Conf) (r : Req) : Prop where
  nodup : (r.handled.map Prod.fst).Nodup
  deepest : ∀ i, i ∈ r.handled.map Prod.fst ↔ r.data.peCntTbd ≤ i ∧ i < (pairs r.key).length
  owner : ∀ x ∈ r.handled, x.2 = instOf conf (r.zoneAt conf x.1)
  done : r.done → conf.kvMode = false → r.data.peCntTbd = 0 ∨ r.rc.isDone

/-- What holds of a request in every run. -/
structure ReqInv (conf : Conf) (r : Req) : Prop where
  pending : Pending conf r.root₀ r.key r.data.peCntTbd r.data
  handled : r.handled.map Prod.fst = indicesDown r.data.peCntTbd (pairs r.key).length
  owner : ∀ x ∈ r.handled, x.2 = instOf conf (r.zoneAt conf x.1)
  done : r.done → conf.kvMode = false → r.data.peCntTbd = 0 ∨ r.rc.isDone

/-- A request that has not been handled yet is in the queue of its deepest pair. -/
structure PoolInv (conf : Conf) (s : Pool) : Prop where
  reqs : ∀ r ∈ s.reqs, ReqInv conf r
  queued : ∀ inst, ∀ id ∈ s.queues inst, ∀ r, s.reqs[id]? = some r →
    r.data.peCntTbd = (pairs r.key).length → inst = firstInst conf r.root₀ r.key
  valid : ∀ inst, ∀ id ∈ s.queues inst, id < s.reqs.length

theorem mem_indicesDown (m n i : ℕ) : i ∈ indicesDown m n ↔ m ≤ i ∧ i < n := by
  induction n with
  | zero => simp [indicesDown]
  | succ n ih =>
    rw [indicesDown]
    split
    · rw [List.mem_cons, ih]
      omega
    · simp only [List.not_mem_nil, false_iff]
      omega

theorem nodup_indicesDown (m n : ℕ) : (indicesDown m n).Nodup := by
  induction n with
  | zero => exact List.nodup_nil
  | succ n ih =>
    rw [indicesDown]
    split
    · refine List.nodup_cons.2 ⟨fun h => ?_, ih⟩
      have := (mem_indicesDown m n n).1 h
      omega
    · exact List.nodup_nil

theorem indicesDown_append {m n k : ℕ} (hmn : m ≤ n) (hnk : n ≤ k) :
    indicesDown n k ++ indicesDown m n = indicesDown m k := by
  induction k with
  | zero =>
    have hn : n = 0 := by omega
    rw [hn]
    rfl
  | succ k ih =>
    rcases Nat.eq_or_lt_of_le hnk with heq | hlt
    · have hnil : indicesDown n (k + 1) = [] := by
        rw [indicesDown, if_neg (by omega)]
      rw [hnil, ← heq, List.nil_append]
    · have hcons : indicesDown m (k + 1) = k :: indicesDown m k := by
        rw [indicesDown, if_pos (by omega)]
      rw [hcons, indicesDown, if_pos (by omega), List.cons_append, ih (by omega)]

theorem ReqInv.handledOnce {conf : Conf} {r : Req} (h : ReqInv conf r) : HandledOnce conf r where
  nodup := by
    rw [h.handled]
    exact nodup_indicesDown _ _
  deepest i := by
    rw [h.handled]
    exact mem_indicesDown _ _ _
  owner := h.owner
  done := h.done

theorem walk_owned (conf : Conf) (root₀ : Bytes) (inst : ℕ) (op : Op)
    {c l c' : List (Bytes × Bytes)} {p e : Bytes} (L : ListContext) (rc : Rc)
    (hc : c = l ++ (p, e) :: c')
    (hlen : (walk conf root₀ inst op c L rc).left.length ≤ c'.length) :
    instOf conf (zoneOf conf (prefixIn root₀ p)) = inst := by
  induction c generalizing l L rc with
  | nil => simp at hc
  | cons y c ih =>
    obtain ⟨q, e'⟩ := y
    rw [walk] at hlen
    by_cases hinst : instOf conf (zoneOf conf (prefixIn root₀ q)) = inst
    · rcases l with _ | ⟨z, l⟩
      · cases hc
        exact hinst
      · have htail := (List.cons.inj hc).2
        rw [if_pos hinst] at hlen
        simp only at hlen
        split at hlen
        · -- the walk stopped above this pair
          rw [htail] at hlen
          simp at hlen
          omega
        · exact ih _ _ htail hlen
    · rw [if_neg hinst, hc] at hlen
      simp at hlen
      omega

theorem walk_left_lt (conf : Conf) (root₀ key : Bytes) (op : Op) (L : ListContext) (rc : Rc) :
    (walk conf root₀ (firstInst conf root₀ key) op (pairs key) L rc).left.length <
      (pairs key).length := by
  have hsuf : (walk conf root₀ (firstInst conf root₀ key) op (pairs key) L rc).left <:+
      up (dirOf key) := by
    rw [pairs, walk, if_pos (by rw [firstInst])]
    simp only
    split
    · exact List.suffix_rfl
    · exact walk_left_suffix conf _ _ _ _ _ _
  have hle := hsuf.length_le
  have hlen : (pairs key).length = (up (dirOf key)).length + 1 := rfl
  omega

theorem Pending.split {conf : Conf} {root₀ key : Bytes} {n : ℕ} {d : ListInfo}
    (h : Pending conf root₀ key n d) :
    ∃ l c, pairs key = l ++ c ∧ c.length = n := by
  have hle := h.le
  refine ⟨(pairs key).take ((pairs key).length - n), (pairs key).drop ((pairs key).length - n),
    (List.take_append_drop _ _).symm, ?_⟩
  rw [List.length_drop]
  omega

/-- A pass over a request: the pairs it handles, and what it leaves. -/
theorem ReqInv.pass {conf : Conf} {r : Req} (h : ReqInv conf r) (inst : ℕ) (L : ListContext)
    (hfirst : r.data.peCntTbd = (pairs r.key).length → inst = firstInst conf r.root₀ r.key) :
    let pass := listIo conf inst r.op r.key L r.data
    ReqInv conf (r.after inst pass false) ∧
      pass.data.peCntTbd < (pairs r.key).length ∧ pass.data.peTotalCnt = (pairs r.key).length ∧
      pass.data.zone ((pairs r.key).length - 1) = -1 := by
  obtain ⟨l, c, hc, hlen⟩ := h.pending.split
  have hpend := h.pending
  rw [← hlen] at hpend
  obtain ⟨hL, hrc, hleft, hhand⟩ := doListIo_spec inst r.op hc L .passThrough hpend
  have hpass : listIo conf inst r.op r.key L r.data =
      doListIo conf inst r.op r.key c.length L r.data .passThrough := by
    rw [listIo, hlen]
  intro pass
  have hpass' : pass = doListIo conf inst r.op r.key c.length L r.data .passThrough := hpass
  rw [← hpass'] at hL hrc hleft hhand
  have hleft_le := (walk_left_suffix conf r.root₀ inst r.op c L .passThrough).length_le
  have hlt : (walk conf r.root₀ inst r.op c L .passThrough).left.length < (pairs r.key).length := by
    rcases Nat.eq_or_lt_of_le h.pending.le with heq | hlt
    · have hcp : c = pairs r.key := by
        have hlen' := congrArg List.length hc
        rw [List.length_append, hlen, heq] at hlen'
        have hl : l = [] := List.length_eq_zero_iff.1 (by omega)
        rw [hc, hl, List.nil_append]
      rw [hcp, hfirst heq]
      exact walk_left_lt conf r.root₀ r.key r.op L .passThrough
    · omega
  have htbd := hleft.tbd
  refine ⟨⟨?_, ?_, ?_, fun hd => by cases hd⟩, by omega, hleft.total,
    hleft.marked _ (by omega) (by omega)⟩
  · simp only [Req.after]
    rw [htbd]
    exact hleft
  · simp only [Req.after, List.map_append, List.map_map]
    have hmap : List.map (Prod.fst ∘ fun x => (x, inst)) pass.handled = pass.handled :=
      List.map_id _
    rw [hmap, h.handled, hhand, htbd, ← hlen]
    exact indicesDown_append hleft_le (by rw [hlen]; exact h.pending.le)
  · intro x hx
    simp only [Req.after] at hx
    rcases List.mem_append.1 hx with hx | hx
    · exact h.owner x hx
    · obtain ⟨i, hi, rfl⟩ := List.mem_map.1 hx
      rw [hhand, mem_indicesDown] at hi
      -- the pair of index `i`
      have hic : c.length - 1 - i < c.length := by omega
      obtain ⟨l', p, e, c', hc', hlen'⟩ : ∃ l' p e c', c = l' ++ (p, e) :: c' ∧ c'.length = i := by
        refine ⟨c.take (c.length - 1 - i), (c.get ⟨c.length - 1 - i, hic⟩).1,
          (c.get ⟨c.length - 1 - i, hic⟩).2, c.drop (c.length - 1 - i + 1), ?_, ?_⟩
        · rw [Prod.mk.eta, List.get_eq_getElem, List.getElem_cons_drop, List.take_append_drop]
        · rw [List.length_drop]
          omega
      have hown := walk_owned conf r.root₀ inst r.op L .passThrough hc' (by omega)
      have hzone : (pairs r.key).reverse[i]? = some (p, e) := by
        rw [hc, hc', ← hlen']
        simp
      simp only [Req.zoneAt, Req.after, hzone]
      exact hown.symm

theorem nextOf_eq (conf : Conf) {pass : Pass} {n : ℕ} (hlt : pass.data.peCntTbd < n)
    (htotal : pass.data.peTotalCnt = n) (hmark : pass.data.zone (n - 1) = -1) :
    nextOf conf pass =
      if conf.kvMode = true then .done
      else if pass.data.peCntTbd = 0 ∨ pass.rc.isDone then .done
      else if 255 < conf.zonePerPool then .forward (instOf conf 255) else .outOfBounds := by
  have hforward : forwardZone pass.data.zone pass.data.peTotalCnt = some 255 := by
    obtain ⟨m, hm⟩ : ∃ m, n = m + 1 := ⟨n - 1, by omega⟩
    rw [htotal, hm, forwardZone]
    rw [hm, Nat.add_sub_cancel] at hmark
    rw [hmark]
    rfl
  rw [nextOf, hforward]

theorem ReqInv.new {conf : Conf} {u : Update} {root : Bytes} {d : ListInfo}
    (h : Pending conf root u.key (pairs u.key).length d) : ReqInv conf (Req.new u root d) where
  pending := by
    have htbd : (Req.new u root d).data.peCntTbd = (pairs u.key).length := h.tbd
    rw [htbd]
    exact h
  handled := by
    have htbd : (Req.new u root d).data.peCntTbd = (pairs u.key).length := h.tbd
    rw [htbd]
    symm
    refine List.eq_nil_iff_forall_not_mem.2 fun i hi => ?_
    have hmem := (mem_indicesDown _ _ i).1 hi
    have hkey : (Req.new u root d).key = u.key := rfl
    rw [hkey] at hmem
    omega
  owner x hx := by cases hx
  done hd := by cases hd

theorem arrive_some {conf : Conf} {root key : Bytes} {a : Arrival}
    (h : arrive conf root key = some a) :
    Pending conf root key (pairs key).length a.data ∧ a.inst = firstInst conf root key ∧
      a.rootPrefix = rootAfter root key := by
  have hkey : key ≠ [] := by
    intro hnil
    rw [arrive_eq_none conf root (Or.inl hnil)] at h
    cases h
  have hlen : (pairs key).length < 512 := by
    by_contra hge
    rw [arrive_eq_none conf root (Or.inr (by omega))] at h
    cases h
  obtain ⟨d, harr, hpend⟩ := arrive_eq conf root hkey hlen
  rw [harr] at h
  cases h
  exact ⟨hpend, rfl, rfl⟩

theorem mem_post {s : Pool} {inst inst' id id' : ℕ} (h : id' ∈ (s.post inst id).queues inst') :
    id' ∈ s.queues inst' ∨ inst' = inst ∧ id' = id := by
  simp only [Pool.post, Function.update_apply] at h
  split at h
  · next heq =>
    rcases List.mem_append.1 h with h | h
    · exact Or.inl (heq ▸ h)
    · exact Or.inr ⟨heq, List.mem_singleton.1 h⟩
  · exact Or.inl h

theorem PoolInv.request {conf : Conf} {s : Pool} {u : Update} {a : Arrival} (h : PoolInv conf s)
    (ha : arrive conf s.listing.rootPrefix u.key = some a) :
    PoolInv conf (({ s with
      listing := { s.listing with rootPrefix := a.rootPrefix }
      reqs := s.reqs ++ [Req.new u s.listing.rootPrefix a.data] }).post a.inst s.reqs.length) := by
  obtain ⟨hpend, hinst, -⟩ := arrive_some ha
  refine ⟨?_, ?_, ?_⟩
  · intro r hr
    rcases List.mem_append.1 hr with hr | hr
    · exact h.reqs r hr
    · rw [List.mem_singleton.1 hr]
      exact ReqInv.new hpend
  · intro inst id hid r hr htbd
    simp only [Pool.post] at hr
    rcases mem_post hid with hid | ⟨hi, hid⟩
    · have hlt := h.valid inst id hid
      rw [List.getElem?_append_left hlt] at hr
      exact h.queued inst id hid r hr htbd
    · rw [hid] at hr
      simp at hr
      rw [hi, hinst, ← hr]
      rfl
  · intro inst id hid
    simp only [Pool.post, List.length_append, List.length_singleton]
    rcases mem_post hid with hid | ⟨-, hid⟩
    · have := h.valid inst id hid
      omega
    · omega

theorem mem_rest {s : Pool} {inst id : ℕ} {rest : List ℕ} (hq : s.queues inst = id :: rest)
    {inst' id' : ℕ} (h : id' ∈ Function.update s.queues inst rest inst') : id' ∈ s.queues inst' := by
  rw [Function.update_apply] at h
  split at h
  · next heq =>
    rw [heq, hq]
    exact List.mem_cons_of_mem _ h
  · exact h

/-- A pass that changes only the request `id`, whose pairs are not all left. -/
theorem PoolInv.set {conf : Conf} {s s' : Pool} {id : ℕ} {r' : Req} (h : PoolInv conf s)
    (hr' : ReqInv conf r') (htbd : r'.data.peCntTbd < (pairs r'.key).length)
    (hreqs : s'.reqs = s.reqs.set id r') (hid : id < s.reqs.length)
    (hqueues : ∀ inst', ∀ id' ∈ s'.queues inst', id' ∈ s.queues inst' ∨ id' = id) :
    PoolInv conf s' := by
  refine ⟨?_, ?_, ?_⟩
  · intro q hq
    rw [hreqs] at hq
    rcases List.mem_or_eq_of_mem_set hq with hq | rfl
    · exact h.reqs q hq
    · exact hr'
  · intro inst' id' hid' q hq heq
    rw [hreqs, List.getElem?_set] at hq
    split at hq
    · cases hq
      omega
    · next hne =>
      rcases hqueues inst' id' hid' with hmem | heq'
      · exact h.queued inst' id' hmem q hq heq
      · exact absurd heq'.symm hne
  · intro inst' id' hid'
    rw [hreqs, List.length_set]
    rcases hqueues inst' id' hid' with hmem | heq'
    · exact h.valid inst' id' hmem
    · rw [heq']
      exact hid

theorem PoolInv.finishPass {conf : Conf} {s s' : Pool} {inst id : ℕ} {rest : List ℕ} {r : Req}
    (h : PoolInv conf s) (hq : s.queues inst = id :: rest) (hr : s.reqs[id]? = some r)
    (hs : s.finishPass conf inst id rest r = some s') : PoolInv conf s' := by
  have hmem : id ∈ s.queues inst := by
    rw [hq]
    exact List.mem_cons_self
  have hid := h.valid inst id hmem
  obtain ⟨hinv, hlt, htotal, hmark⟩ := (h.reqs r (List.mem_of_getElem? hr)).pass inst s.listing
    (h.queued inst id hmem r hr)
  simp only [Pool.finishPass] at hs
  have hnext := nextOf_eq conf hlt htotal hmark
  split at hs
  · next hdone =>
    -- done: all pairs are handled, or the last handler was done
    cases hs
    have hfin : conf.kvMode = false →
        (listIo conf inst r.op r.key s.listing r.data).data.peCntTbd = 0 ∨
          (listIo conf inst r.op r.key s.listing r.data).rc.isDone := by
      intro hmode
      by_contra hnot
      rw [hnext, hmode, if_neg Bool.false_ne_true, if_neg hnot] at hdone
      split at hdone <;> cases hdone
    have hinv' : ReqInv conf (r.after inst (listIo conf inst r.op r.key s.listing r.data) true) :=
      ⟨hinv.pending, hinv.handled, hinv.owner, fun _ => hfin⟩
    refine h.set hinv' hlt rfl hid ?_
    intro inst' id' hid'
    exact Or.inl (mem_rest hq hid')
  · cases hs
    refine h.set hinv hlt rfl hid ?_
    intro inst' id' hid'
    rcases mem_post hid' with hid' | ⟨-, heq⟩
    · exact Or.inl (mem_rest hq hid')
    · exact Or.inr heq
  · cases hs

theorem PoolInv.step {conf : Conf} {s s' : Pool} {ev : Event} (h : PoolInv conf s)
    (hs : poolStep conf s ev = some s') : PoolInv conf s' := by
  cases ev with
  | request u =>
    simp only [poolStep] at hs
    split at hs
    · cases hs
    · next a ha =>
      cases hs
      exact h.request ha
  | process inst =>
    simp only [poolStep] at hs
    split at hs
    · cases hs
      exact h
    · next id rest hq =>
      split at hs
      · cases hs
      · next r hr => exact h.finishPass hq hr hs

theorem poolInv_init (conf : Conf) : PoolInv conf Pool.init where
  reqs r hr := by cases hr
  queued inst id hid := by cases hid
  valid inst id hid := by cases hid

theorem poolInv_of_run {conf : Conf} {evs : List Event} {s : Pool}
    (hrun : Run.run (poolStep conf) Pool.init evs = some s) : PoolInv conf s := by
  have hstep : ∀ s ev s', PoolInv conf s → True → poolStep conf s ev = some s' →
      PoolInv conf s' := fun s ev s' hinv _ hs => hinv.step hs
  exact Run.run_inv hstep (poolInv_init conf) (Run.admissible_true _ _) hrun

/-! ### Stored keys are reachable -/

/-- The keys stored by a list of updates. -/
def storedBy (us : List Update) : Finset Bytes := us.foldl storedAfter ∅

/-- The updates that have arrived, in order. -/
def Pool.arrived (s : Pool) : List Update := s.reqs.map Req.update

/-- The last update of the key that has arrived is a STORE. -/
def Pool.LastStored (s : Pool) (k : Bytes) : Prop :=
  (s.arrived.filter fun u => u.key = k).getLast? = some ⟨.store, k⟩

/-- Every component of the key is listed under the directory it is in, from the root prefix
down. -/
def Reachable (conf : Conf) (L : ListContext) (k : Bytes) : Prop :=
  ∀ p e, HasStep k p e → ∃ es,
    L.zones (zoneOf conf (prefixIn L.rootPrefix p)) (prefixIn L.rootPrefix p) = some es ∧ e ∈ es

/-- The events without forwarding and without the defects of the updates. -/
def Orderly (conf : Conf) (s : Pool) : Event → Prop
  | .request u =>
    delim ∈ u.key → s.listing.rootPrefix ≠ [] →
      storedBy s.applied = ∅ ∧ (∀ r ∈ s.reqs, r.done = true) ∧
        zoneOf conf s.listing.rootPrefix = zoneOf conf []
  | .process inst =>
    ∀ r ∈ s.front inst, ServedBy conf r.root₀ inst r.op s.listing (pairs r.key) ∧
      MarkersKept (storedBy s.applied) r.update

/-- The root prefix a request arrived with is as good as the one its pass finds. -/
def RootKept (conf : Conf) (root root₀ key : Bytes) : Prop :=
  root = [] ∧ Homed conf root₀ ∨ root = rootPrefixInit ∧ root₀ = rootPrefixInit ∧ delim ∉ key

/-- The updates waiting in a queue. -/
def Pool.waiting (s : Pool) (inst : ℕ) : List Update :=
  (s.queues inst).filterMap fun id => (s.reqs[id]?).map Req.update

/-- The pool in an orderly run: no request in a queue has been handled, the listing is the one of
the updates done, and the updates of one key are done in the order of their arrival. -/
structure OrderInv (conf : Conf) (s : Pool) : Prop where
  follows : Follows conf ⟨s.listing, storedBy s.applied⟩
  queued : ∀ inst, ∀ id ∈ s.queues inst, ∃ r, s.reqs[id]? = some r ∧ r.done = false ∧ r.key ≠ [] ∧
    Pending conf r.root₀ r.key (pairs r.key).length r.data ∧
    inst = firstInst conf r.root₀ r.key ∧ RootKept conf s.listing.rootPrefix r.root₀ r.key
  nodup : ∀ inst, (s.queues inst).Nodup
  fifo : ∀ k, s.applied.filter (fun u => u.key = k) ++
    (s.waiting (firstInst conf s.listing.rootPrefix k)).filter (fun u => u.key = k) =
      s.arrived.filter fun u => u.key = k

theorem RootKept.firstInst {conf : Conf} {root root₀ key : Bytes}
    (h : RootKept conf root root₀ key) : firstInst conf root₀ key = firstInst conf root key := by
  rcases h with ⟨hroot, hhomed⟩ | ⟨hroot, hroot₀, -⟩
  · rw [Listing.firstInst, Listing.firstInst, hhomed.zone, hroot, prefixIn_nil]
  · rw [hroot, hroot₀]

theorem mem_storedBy (us : List Update) (k : Bytes) :
    k ∈ storedBy us ↔ (us.filter fun u => u.key = k).getLast? = some ⟨.store, k⟩ := by
  induction us using List.reverseRecOn with
  | nil => simp [storedBy]
  | append_singleton us u ih =>
    have hfold : storedBy (us ++ [u]) = storedAfter (storedBy us) u := by
      simp [storedBy]
    obtain ⟨op, key⟩ := u
    rw [hfold, List.filter_append]
    by_cases hk : key = k
    · subst hk
      cases op <;> simp [storedAfter]
    · have hk' : k ≠ key := Ne.symm hk
      cases op <;> simp [storedAfter, hk, hk', ih]

theorem storedBy_snoc (us : List Update) (u : Update) :
    storedBy (us ++ [u]) = storedAfter (storedBy us) u := by
  simp [storedBy]

theorem OrderInv.walk {conf : Conf} {s : Pool} {r : Req} {inst : ℕ} (h : OrderInv conf s)
    (hne : r.key ≠ []) (hinst : inst = firstInst conf r.root₀ r.key)
    (hroot : RootKept conf s.listing.rootPrefix r.root₀ r.key)
    (hserved : ServedBy conf r.root₀ inst r.op s.listing (pairs r.key))
    (hmarker : MarkersKept (storedBy s.applied) r.update) :
    let w := walk conf r.root₀ inst r.op (pairs r.key) s.listing .passThrough
    w.Finished ∧ Follows conf ⟨w.listing, storedBy (s.applied ++ [r.update])⟩ := by
  rw [storedBy_snoc]
  rcases hroot with ⟨hroot, hhomed⟩ | ⟨hroot, hroot₀, hdelim⟩
  · rcases h.follows.listing with ⟨hL, -⟩ | ⟨M, hL, hM⟩
    · have hL' : s.listing = flat conf (storedBy s.applied) := hL
      rw [hL'] at hroot
      cases hroot
    · have hL' : s.listing = ofMap conf M := hL
      rw [hL'] at hserved ⊢
      exact follows_walk_ofMap h.follows.ne_nil (u := r.update) hne hhomed hM hserved hmarker
  · rcases h.follows.listing with ⟨hL, hflat⟩ | ⟨M, hL, -⟩
    · have hL' : s.listing = flat conf (storedBy s.applied) := hL
      rw [hL', hinst, hroot₀]
      exact follows_walk_flat h.follows.ne_nil hflat (u := r.update) hne hdelim
    · have hL' : s.listing = ofMap conf M := hL
      rw [hL'] at hroot
      cases hroot

theorem OrderInv.root {conf : Conf} {s : Pool} (h : OrderInv conf s) :
    s.listing.rootPrefix = [] ∨
      s.listing.rootPrefix = rootPrefixInit ∧ s.listing = flat conf (storedBy s.applied) := by
  rcases h.follows.listing with ⟨hL, -⟩ | ⟨M, hL, -⟩
  · have hL' : s.listing = flat conf (storedBy s.applied) := hL
    exact Or.inr ⟨by rw [hL']; rfl, hL'⟩
  · have hL' : s.listing = ofMap conf M := hL
    exact Or.inl (by rw [hL']; rfl)

/-- No request waits when all are done. -/
theorem OrderInv.idle {conf : Conf} {s : Pool} (h : OrderInv conf s)
    (hdone : ∀ r ∈ s.reqs, r.done = true) (inst : ℕ) : s.queues inst = [] := by
  refine List.eq_nil_iff_forall_not_mem.2 fun id hid => ?_
  obtain ⟨r, hr, hnot, -⟩ := h.queued inst id hid
  rw [hdone r (List.mem_of_getElem? hr)] at hnot
  cases hnot

/-- The root prefix after an arrival: the same, or moved while nothing is stored or waits. -/
theorem OrderInv.moved {conf : Conf} {s : Pool} {u : Update} (h : OrderInv conf s)
    (hok : Orderly conf s (.request u)) :
    rootAfter s.listing.rootPrefix u.key = s.listing.rootPrefix ∨
      rootAfter s.listing.rootPrefix u.key = [] ∧ Homed conf s.listing.rootPrefix ∧
        (∀ inst, s.queues inst = []) ∧ storedBy s.applied = ∅ := by
  by_cases hdelim : delim ∈ u.key
  · by_cases hroot : s.listing.rootPrefix = []
    · left
      rw [rootAfter, if_pos hdelim, hroot]
    · obtain ⟨hstored, hdone, hzone⟩ := hok hdelim hroot
      exact Or.inr ⟨if_pos hdelim, hzone, h.idle hdone, hstored⟩
  · exact Or.inl (if_neg hdelim)

theorem OrderInv.rootKept {conf : Conf} {s : Pool} {u : Update} (h : OrderInv conf s)
    (hok : Orderly conf s (.request u)) :
    RootKept conf (rootAfter s.listing.rootPrefix u.key) s.listing.rootPrefix u.key := by
  rcases h.root with hroot | ⟨hroot, -⟩
  · left
    rw [hroot, rootAfter, ite_self]
    exact ⟨rfl, rfl⟩
  · by_cases hdelim : delim ∈ u.key
    · exact Or.inl ⟨if_pos hdelim, (hok hdelim (by rw [hroot]; decide)).2.2⟩
    · refine Or.inr ⟨?_, hroot, hdelim⟩
      rw [rootAfter, if_neg hdelim, hroot]

theorem OrderInv.follows_request {conf : Conf} {s : Pool} {u : Update} (h : OrderInv conf s)
    (hok : Orderly conf s (.request u)) :
    Follows conf ⟨{ s.listing with rootPrefix := rootAfter s.listing.rootPrefix u.key },
      storedBy s.applied⟩ := by
  rcases h.moved hok with hsame | ⟨hroot', -, -, hstored⟩
  · rw [hsame]
    exact h.follows
  · rw [hroot', hstored]
    refine ⟨fun k hk => (by cases hk), Or.inr ⟨fun _ => none, ?_, lists_empty⟩⟩
    rcases h.follows.listing with ⟨hL, -⟩ | ⟨M, hL, hM⟩
    · have hL' : s.listing = flat conf (storedBy s.applied) := hL
      rw [hL', hstored]
      exact flat_moved conf
    · have hL' : s.listing = ofMap conf M := hL
      have hM' : M = fun _ => none := by
        funext p
        rw [← Option.not_isSome_iff_eq_none]
        intro hsome
        obtain ⟨k, hk, -⟩ := hM.closed tree hsome
        rw [hstored] at hk
        cases hk
      rw [hL', hM']
      rfl

theorem waiting_post (s : Pool) (inst : ℕ) (r : Req)
    (hvalid : ∀ inst, ∀ id ∈ s.queues inst, id < s.reqs.length) (L : ListContext) (inst' : ℕ) :
    (({ s with listing := L, reqs := s.reqs ++ [r] }).post inst s.reqs.length).waiting inst' =
      s.waiting inst' ++ if inst' = inst then [r.update] else [] := by
  have hold : (s.queues inst').filterMap (fun id => ((s.reqs ++ [r])[id]?).map Req.update) =
      s.waiting inst' := by
    refine List.filterMap_congr fun id hid => ?_
    rw [List.getElem?_append_left (hvalid inst' id hid)]
  simp only [Pool.waiting, Pool.post, Function.update_apply] at hold ⊢
  split
  · next heq =>
    rw [← heq, List.filterMap_append, hold]
    simp
  · rw [hold, List.append_nil]

theorem OrderInv.request {conf : Conf} {s : Pool} {u : Update} {a : Arrival}
    (h : OrderInv conf s) (hvalid : ∀ inst, ∀ id ∈ s.queues inst, id < s.reqs.length)
    (hok : Orderly conf s (.request u)) (hkey : u.key ≠ [])
    (ha : arrive conf s.listing.rootPrefix u.key = some a) :
    OrderInv conf (({ s with
      listing := { s.listing with rootPrefix := a.rootPrefix }
      reqs := s.reqs ++ [Req.new u s.listing.rootPrefix a.data] }).post a.inst s.reqs.length) := by
  obtain ⟨hpend, hinst, hroot⟩ := arrive_some ha
  have hkept := h.rootKept hok
  rw [hroot]
  refine ⟨h.follows_request hok, ?_, ?_, ?_⟩
  · intro inst id hid
    simp only [Pool.post]
    rcases mem_post hid with hid | ⟨hi, hid⟩
    · rcases h.moved hok with hsame | ⟨-, -, hidle, -⟩
      · obtain ⟨r, hr, hrest⟩ := h.queued inst id hid
        refine ⟨r, ?_, ?_⟩
        · rw [List.getElem?_append_left (hvalid inst id hid)]
          exact hr
        · rw [hsame]
          exact hrest
      · have hempty : s.queues inst = [] := hidle inst
        rw [hempty] at hid
        cases hid
    · refine ⟨Req.new u s.listing.rootPrefix a.data, ?_, rfl, hkey, hpend, ?_, hkept⟩
      · rw [hid]
        simp
      · rw [hi]
        exact hinst
  · intro inst
    simp only [Pool.post, Function.update_apply]
    split
    · refine List.nodup_append.2 ⟨h.nodup _, List.nodup_singleton _, ?_⟩
      intro id hid id' hid' heq
      have hlt := hvalid a.inst id hid
      rw [List.mem_singleton.1 hid'] at heq
      omega
    · exact h.nodup inst
  · intro k
    have hfifo := h.fifo k
    have harr : (s.reqs ++ [Req.new u s.listing.rootPrefix a.data]).map Req.update =
        s.arrived ++ [u] := by
      rw [List.map_append]
      rfl
    have hupd : (Req.new u s.listing.rootPrefix a.data).update = u := rfl
    -- the queue of `k` before and after: the same, or all queues are empty
    have hwait : s.waiting (Listing.firstInst conf (rootAfter s.listing.rootPrefix u.key) k) =
        s.waiting (Listing.firstInst conf s.listing.rootPrefix k) := by
      rcases h.moved hok with hsame | ⟨-, -, hidle, -⟩
      · rw [hsame]
      · simp only [Pool.waiting, hidle]
    have hpost := waiting_post s a.inst (Req.new u s.listing.rootPrefix a.data) hvalid
      { s.listing with rootPrefix := rootAfter s.listing.rootPrefix u.key }
    simp only [Pool.arrived, Pool.post] at hpost ⊢
    rw [harr, hpost, hwait, hupd, List.filter_append, ← List.append_assoc, hfifo,
      List.filter_append]
    congr 1
    by_cases hk : u.key = k
    · rw [if_pos ?_]
      rw [hinst, ← hk]
      exact hkept.firstInst.symm
    · split <;> simp [hk]

theorem walk_rootPrefix (conf : Conf) (root₀ : Bytes) (inst : ℕ) (op : Op)
    (c : List (Bytes × Bytes)) (L : ListContext) (rc : Rc) :
    (walk conf root₀ inst op c L rc).listing.rootPrefix = L.rootPrefix := by
  induction c generalizing L rc with
  | nil => rfl
  | cons y c ih =>
    obtain ⟨p, e⟩ := y
    rw [walk]
    split
    · simp only
      split
      · rfl
      · rw [ih]
        rfl
    · rfl

theorem map_update_set {reqs : List Req} {id : ℕ} {r r' : Req} (hr : reqs[id]? = some r)
    (hupd : r'.update = r.update) : (reqs.set id r').map Req.update = reqs.map Req.update := by
  rw [List.map_set, hupd]
  refine List.ext_getElem? fun i => ?_
  rw [List.getElem?_set]
  split
  · next heq =>
    rw [← heq, List.getElem?_map, hr]
    obtain ⟨hlt, -⟩ := List.getElem?_eq_some_iff.1 hr
    simp [hlt]
  · rfl

theorem waiting_set {s : Pool} {inst id : ℕ} {rest : List ℕ} {r r' : Req}
    (hq : s.queues inst = id :: rest) (hr : s.reqs[id]? = some r) (hupd : r'.update = r.update)
    (L : ListContext) (us : List Update) (inst' : ℕ) :
    s.waiting inst' = (if inst' = inst then [r.update] else []) ++
      ({ listing := L, reqs := s.reqs.set id r', queues := Function.update s.queues inst rest,
          applied := us } : Pool).waiting inst' := by
  have hlook : ∀ i : ℕ, ((s.reqs.set id r')[i]?).map Req.update = (s.reqs[i]?).map Req.update := by
    intro i
    rw [← List.getElem?_map, ← List.getElem?_map, map_update_set hr hupd]
  simp only [Pool.waiting, hlook, Function.update_apply]
  split
  · next heq =>
    rw [heq, hq, List.filterMap_cons, hr]
    rfl
  · rfl

theorem OrderInv.finishPass {conf : Conf} {s s' : Pool} {inst id : ℕ} {rest : List ℕ} {r : Req}
    (h : OrderInv conf s) (hq : s.queues inst = id :: rest) (hr : s.reqs[id]? = some r)
    (hok : Orderly conf s (.process inst)) (hs : s.finishPass conf inst id rest r = some s') :
    OrderInv conf s' := by
  have hmem : id ∈ s.queues inst := by
    rw [hq]
    exact List.mem_cons_self
  obtain ⟨r', hr', -, hkey, hpend, hinst, hroot⟩ := h.queued inst id hmem
  rw [hr] at hr'
  cases hr'
  have hfront : s.front inst = some r := by
    rw [Pool.front, hq]
    exact hr
  obtain ⟨hserved, hmarker⟩ := hok r hfront
  obtain ⟨hfin, hfollows⟩ := h.walk hkey hinst hroot hserved hmarker
  obtain ⟨hL, hrc, hleft, -⟩ := doListIo_spec inst r.op (l := []) (c := pairs r.key) rfl s.listing
    .passThrough hpend
  have hpass : listIo conf inst r.op r.key s.listing r.data =
      doListIo conf inst r.op r.key (pairs r.key).length s.listing r.data .passThrough := by
    rw [listIo, hpend.tbd]
  rw [← hpass] at hL hrc hleft
  have hnext : nextOf conf (listIo conf inst r.op r.key s.listing r.data) = .done := by
    apply nextOf_finished
    rw [hleft.tbd, hrc, List.length_eq_zero_iff]
    exact hfin
  simp only [Pool.finishPass, hnext, Option.some.injEq] at hs
  subst hs
  have hL' : (listIo conf inst r.op r.key s.listing r.data).listing.rootPrefix =
      s.listing.rootPrefix := by
    rw [hL, walk_rootPrefix]
  refine ⟨by rw [hL]; exact hfollows, ?_, ?_, ?_⟩
  · intro inst' id' hid'
    have hold : id' ∈ s.queues inst' := mem_rest hq hid'
    have hne : id' ≠ id := by
      intro heq
      subst heq
      obtain ⟨q, hq', -, -, -, hinst', -⟩ := h.queued inst' id' hold
      rw [hr] at hq'
      cases hq'
      have hsame : inst' = inst := by rw [hinst', hinst]
      rw [hsame] at hid'
      simp only [Function.update_self] at hid'
      have hnodup := h.nodup inst
      rw [hq, List.nodup_cons] at hnodup
      exact hnodup.1 hid'
    obtain ⟨q, hq', hrest⟩ := h.queued inst' id' hold
    refine ⟨q, ?_, ?_⟩
    · rw [List.getElem?_set, if_neg (Ne.symm hne)]
      exact hq'
    · rw [hL']
      exact hrest
  · intro inst'
    simp only [Function.update_apply]
    split
    · have hnodup := h.nodup inst
      rw [hq, List.nodup_cons] at hnodup
      exact hnodup.2
    · exact h.nodup inst'
  · intro k
    have hfifo := h.fifo k
    have hupd : (r.after inst (listIo conf inst r.op r.key s.listing r.data) true).update =
        r.update := rfl
    have hwait := waiting_set hq hr hupd
      (listIo conf inst r.op r.key s.listing r.data).listing (s.applied ++ [r.update])
    have harr := map_update_set hr hupd
    simp only [Pool.arrived] at hfifo ⊢
    rw [harr, ← hfifo, hL', List.filter_append, List.append_assoc, hwait, List.filter_append]
    congr 2
    by_cases hk : r.update.key = k
    · rw [if_pos ?_]
      rw [← hk, hinst, hroot.firstInst]
      rfl
    · split <;> simp [hk]

theorem orderInv_init (conf : Conf) : OrderInv conf Pool.init where
  follows := follows_init conf
  queued inst id hid := by cases hid
  nodup inst := List.nodup_nil
  fifo k := rfl

theorem OrderInv.step {conf : Conf} {s s' : Pool} {ev : Event} (hpool : PoolInv conf s)
    (h : OrderInv conf s) (hok : Orderly conf s ev) (hs : poolStep conf s ev = some s') :
    OrderInv conf s' := by
  cases ev with
  | request u =>
    simp only [poolStep] at hs
    split at hs
    · cases hs
    · next a ha =>
      cases hs
      have hkey : u.key ≠ [] := by
        intro hnil
        rw [arrive_eq_none conf s.listing.rootPrefix (Or.inl hnil)] at ha
        cases ha
      exact h.request hpool.valid hok hkey ha
  | process inst =>
    simp only [poolStep] at hs
    split at hs
    · cases hs
      exact h
    · next id rest hq =>
      split at hs
      · cases hs
      · next r hr => exact h.finishPass hq hr hok hs

theorem orderInv_of_run {conf : Conf} {evs : List Event} {s : Pool}
    (hok : Run.Admissible (poolStep conf) (Orderly conf) Pool.init evs)
    (hrun : Run.run (poolStep conf) Pool.init evs = some s) : OrderInv conf s := by
  have hstep : ∀ s ev s', PoolInv conf s ∧ OrderInv conf s → Orderly conf s ev →
      poolStep conf s ev = some s' → PoolInv conf s' ∧ OrderInv conf s' :=
    fun s ev s' hinv hok hs => ⟨hinv.1.step hs, hinv.2.step hinv.1 hok hs⟩
  exact (Run.run_inv hstep ⟨poolInv_init conf, orderInv_init conf⟩ hok hrun).2

/-- A key whose last update is a STORE is reachable once all requests are done. -/
theorem OrderInv.reachable {conf : Conf} {s : Pool} (h : OrderInv conf s)
    (hdone : ∀ r ∈ s.reqs, r.done = true) {k : Bytes} (hk : s.LastStored k) :
    Reachable conf s.listing k := by
  have hfifo := h.fifo k
  have hwait : s.waiting (firstInst conf s.listing.rootPrefix k) = [] := by
    rw [Pool.waiting, h.idle hdone]
    rfl
  rw [hwait, List.filter_nil, List.append_nil] at hfifo
  have hstored : k ∈ storedBy s.applied := by
    rw [mem_storedBy, hfifo]
    exact hk
  intro p e hstep
  exact (h.follows.listsKeys.mem_iff _ _ e).2 ⟨rfl, k, hstored, p, hstep, rfl⟩

/-- **Updates over zones.** In every run each pair of a request is handled at most once, from the
deepest one up, by the instance of its zone, and outside KV mode a request is done when all its pairs
are handled or a handler is done. In an orderly run, when all requests are done, every key whose last update
is a STORE is reachable from the root prefix. -/
theorem zones_of_run (conf : Conf) (evs : List Event) (s : Pool)
    (hrun : Run.run (poolStep conf) Pool.init evs = some s) :
    (∀ r ∈ s.reqs, HandledOnce conf r) ∧
      (Run.Admissible (poolStep conf) (Orderly conf) Pool.init evs →
        (∀ r ∈ s.reqs, r.done = true) → ∀ k, s.LastStored k → Reachable conf s.listing k) := by
  constructor
  · intro r hr
    exact ((poolInv_of_run hrun).reqs r hr).handledOnce
  · intro hok hdone k hk
    exact (orderInv_of_run hok hrun).reachable hdone hk

instance decidableOrderly (conf : Conf) (s : Pool) : ∀ ev, Decidable (Orderly conf s ev)
  | .request u => inferInstanceAs (Decidable (delim ∈ u.key → s.listing.rootPrefix ≠ [] →
      storedBy s.applied = ∅ ∧ (∀ r ∈ s.reqs, r.done = true) ∧
        zoneOf conf s.listing.rootPrefix = zoneOf conf []))
  | .process inst => inferInstanceAs (Decidable (∀ r ∈ s.front inst,
      ServedBy conf r.root₀ inst r.op s.listing (pairs r.key) ∧
        MarkersKept (storedBy s.applied) r.update))

/-- The default configuration outside KV mode. -/
def blockConf : Conf := { defaultConf with kvMode := false }

/-- The keys `a/b` and `a/c` arrive together, and `a/b` is deleted while `a/c` waits. -/
def threeRequests : List Event :=
  [.request ⟨.store, [97, 47, 98]⟩, .request ⟨.store, [97, 47, 99]⟩, .process 0,
    .request ⟨.delete, [97, 47, 98]⟩, .process 0, .process 0]

theorem zones_threeRequests :
    ∃ s, Run.run (poolStep blockConf) Pool.init threeRequests = some s ∧
      (∀ r ∈ s.reqs, HandledOnce blockConf r) ∧ Reachable blockConf s.listing [97, 47, 99] := by
  have hsome : (Run.run (poolStep blockConf) Pool.init threeRequests).isSome := by
    decide +kernel
  obtain ⟨s, hs⟩ := Option.isSome_iff_exists.1 hsome
  have hend : (Run.run (poolStep blockConf) Pool.init threeRequests).map
      (fun s => (s.reqs.all (·.done), s.arrived)) =
      some (true, [⟨.store, [97, 47, 98]⟩, ⟨.store, [97, 47, 99]⟩, ⟨.delete, [97, 47, 98]⟩]) := by
    decide +kernel
  rw [hs, Option.map_some, Option.some.injEq, Prod.mk.injEq] at hend
  obtain ⟨hdone, harr⟩ := hend
  obtain ⟨honce, hreach⟩ := zones_of_run blockConf threeRequests s hs
  refine ⟨s, hs, honce, hreach (by decide +kernel) ?_ _ ?_⟩
  · intro r hr
    exact List.all_eq_true.1 hdone r hr
  · rw [Pool.LastStored, harr]
    decide

/-- Every pair of a request that is done has been handled once. -/
def EachPairOnce (s : Pool) : Prop :=
  ∀ r ∈ s.reqs, r.done = true → ∀ i < (pairs r.key).length, (r.handled.map Prod.fst).count i = 1

/-- The second STORE into a directory stops at the directory: its root pair is not handled. -/
theorem not_eachPairOnce_secondStore :
    ∃ s, Run.run (poolStep blockConf) Pool.init
      [.request ⟨.store, [97, 47, 98]⟩, .process 0, .request ⟨.store, [97, 47, 99]⟩, .process 0] =
        some s ∧ ¬ EachPairOnce s := by
  have hsome : (Run.run (poolStep blockConf) Pool.init
      [.request ⟨.store, [97, 47, 98]⟩, .process 0, .request ⟨.store, [97, 47, 99]⟩,
        .process 0]).isSome := by
    decide +kernel
  obtain ⟨s, hs⟩ := Option.isSome_iff_exists.1 hsome
  refine ⟨s, hs, fun honce => ?_⟩
  have hend : (Run.run (poolStep blockConf) Pool.init
      [.request ⟨.store, [97, 47, 98]⟩, .process 0, .request ⟨.store, [97, 47, 99]⟩,
        .process 0]).map
      (fun s => (s.reqs[1]?).map fun r => (r.done, r.key, r.handled)) =
      some (some (true, [97, 47, 99], [(1, 0)])) := by
    decide +kernel
  rw [hs, Option.map_some, Option.some.injEq, Option.map_eq_some_iff] at hend
  obtain ⟨r, hr, hrest⟩ := hend
  simp only [Prod.mk.injEq] at hrest
  obtain ⟨hdone, hkey, hhand⟩ := hrest
  have hcount := honce r (List.mem_of_getElem? hr) hdone 0 (by rw [hkey]; decide)
  rw [hhand] at hcount
  revert hcount
  decide

end DssSdk.Listing
