import DssSdk.Lib.Run

/-!
# The pipes of a module

The requests of a module go through the rings of its instances: any core posts a request or completes
one, and the poller of each instance takes them out on its own core.

* `getModuleInstance`, `postRequest`, `completeRequest`, `postToInstance`, `postToInstanceCq`, `poll`:
  the source, cut where another core can come in between;
* `sends`: where each call sends its request, by the order of the calls alone;
* `fifo_of_run`: each instance gets what was sent to it, in that order, once;
* `served_of_run`: how long a request waits;
* `iReqs_of_run`: what the statistic of an instance counts.

`none` stands for a failed assertion, the use of a missing instance and a division by zero; the
assertions are on, as they are without `DSS_RELEASE_BUILD`. The rings belong to the environment, which
is not part of the repository: `SpdkRing` is any implementation with the documented effect of its calls
on the entries.
-/

namespace DssSdk.Framework.ModulePipes

/-- `MAX_CPU`. -/
def maxCpu : ℕ := 256

/-- `REQ_PER_POLL`. -/
def reqPerPoll : ℕ := 8

/-- The rings of the environment. An entry may find no place; a batch has the oldest entries. -/
structure SpdkRing (α : Type) where
  Queue : Type
  /-- The entries, the oldest one first. -/
  entries : Queue → List α
  /-- `spdk_ring_create`. -/
  create : Queue
  /-- `spdk_ring_enqueue` of one entry. -/
  enqueue : Queue → α → Option Queue
  /-- `spdk_ring_dequeue`: the batch, and the ring without it. -/
  dequeue : Queue → ℕ → List α × Queue
  entries_create : entries create = []
  entries_enqueue : ∀ {q q' : Queue} {a : α}, enqueue q a = some q' → entries q' = entries q ++ [a]
  dequeue_append : ∀ (q : Queue) (n : ℕ), (dequeue q n).1 ++ entries (dequeue q n).2 = entries q
  length_dequeue : ∀ (q : Queue) (n : ℕ), (dequeue q n).1.length = min n (entries q).length

/-- A ring that is the list of its entries. -/
def SpdkRing.ofSize (α : Type) (size : ℕ) : SpdkRing α where
  Queue := List α
  entries q := q
  create := []
  enqueue q a := if q.length < size then some (q ++ [a]) else none
  dequeue q n := (q.take n, q.drop n)
  entries_create := rfl
  entries_enqueue := fun h => (Option.some.inj (Option.ite_none_right_eq_some.1 h).2).symm
  dequeue_append := fun _ _ => List.take_append_drop _ _
  length_dequeue := fun _ _ => List.length_take

/-- The two rings of `dfly_module_pipe_s`. -/
inductive Pipe
  | msg
  | cmpl
  deriving DecidableEq, Repr

/-- Where `module_poller` is: outside, in the loop over the completions, behind the second
`spdk_ring_dequeue`, and in the loop over the requests. -/
inductive Phase (α : Type)
  | idle
  | completing (batch : List α)
  | dequeued (batch : List α)
  | polling (batch : List α)
  deriving DecidableEq, Repr

/-- `dfly_module_poller_instance_s`: the rings, the poller and the statistic `i_reqs`. The last fields
are records for the proofs: the calls of `module_rpoll`, `module_cpoll` and `dfly_handle_request`, and
the polls that returned. -/
structure Inst {α : Type} (R : SpdkRing α) where
  msg : R.Queue
  cmpl : R.Queue
  phase : Phase α
  iReqs : ℕ
  rpolled : List α
  cpolled : List α
  handled : List α
  rounds : ℕ

/-- A module: the number of its instances, and which of `module_cpoll` and `find_instance_context` it
has. -/
structure Config (α : Type) where
  numThreads : ℕ
  moduleCpoll : Bool
  findInstanceContext : Option (α → Option ℕ)

/-- The module while it runs. `uncounted` are the requests of an instance that are in a ring and not
yet in its statistic. -/
structure State {α : Type} (R : SpdkRing α) where
  threadIndexArr : ℕ → ℕ
  insts : ℕ → Inst R
  uncounted : ℕ → ℕ

variable {α : Type} {R : SpdkRing α}

/-- The entries of `msg_ring`. -/
def Inst.msgRing (m : Inst R) : List α := R.entries m.msg

/-- The entries of `cmpl_ring`. -/
def Inst.cmplRing (m : Inst R) : List α := R.entries m.cmpl

/-- A request goes into a ring. -/
def Inst.push (m : Inst R) (req : α) : Pipe → Option (Inst R)
  | .msg => (R.enqueue m.msg req).map fun q => { m with msg := q }
  | .cmpl => (R.enqueue m.cmpl req).map fun q => { m with cmpl := q }

/-- Zeroed memory, and empty rings. -/
def State.initial : State R :=
  ⟨fun _ => 0, fun _ => ⟨R.create, R.create, .idle, 0, [], [], [], 0⟩, fun _ => 0⟩

/-- Change an instance. -/
def State.modify (s : State R) (i : ℕ) (f : Inst R → Inst R) : State R :=
  { s with insts := Function.update s.insts i (f (s.insts i)) }

section

variable (c : Config α)

/-- `dfly_get_module_instance`. -/
def getModuleInstance (s : State R) (core : ℕ) : Option (ℕ × State R) :=
  if core < maxCpu ∧ c.numThreads ≠ 0 then
    let i := s.threadIndexArr core
    some (i, { s with
      threadIndexArr := Function.update s.threadIndexArr core ((i + 1) % c.numThreads) })
  else none

/-- The instance for a request, in `dfly_module_post_request` and `dfly_module_complete_request`. -/
def findInstance (s : State R) (core : ℕ) (req : α) : Option (ℕ × State R) :=
  match c.findInstanceContext with
  | some f => (f req).map fun i => (i, s)
  | none => getModuleInstance c s core

/-- `spdk_ring_enqueue` of one request, with the assertion behind it. -/
def enqueue (s : State R) (p : Pipe) (i : ℕ) (req : α) : Option (State R) :=
  if i < c.numThreads then ((s.insts i).push req p).map fun m => s.modify i fun _ => m else none

/-- The statistic of the instance is behind by one request. -/
def State.owe (s : State R) (i : ℕ) : State R :=
  { s with uncounted := Function.update s.uncounted i (s.uncounted i + 1) }

/-- `dfly_module_post_request` up to the statistic. -/
def postRequest (s : State R) (core : ℕ) (req : α) : Option (State R) :=
  (findInstance c s core req).bind fun r => (enqueue c r.2 .msg r.1 req).map fun s => s.owe r.1

/-- `dfly_module_complete_request`, which leaves the statistic alone. -/
def completeRequest (s : State R) (core : ℕ) (req : α) : Option (State R) :=
  (findInstance c s core req).bind fun r => enqueue c r.2 .cmpl r.1 req

/-- `dss_module_post_to_instance` up to the statistic. -/
def postToInstance (s : State R) (i : ℕ) (req : α) : Option (State R) :=
  (enqueue c s .msg i req).map fun s => s.owe i

/-- `dss_module_post_to_instance_cq` up to the statistic. -/
def postToInstanceCq (s : State R) (i : ℕ) (req : α) : Option (State R) :=
  (enqueue c s .cmpl i req).map fun s => s.owe i

/-- `dfly_ustat_update_module_inst_stat` for a request that was put into a ring. -/
def count (s : State R) (i : ℕ) : State R :=
  if 0 < s.uncounted i then
    { s with uncounted := Function.update s.uncounted i (s.uncounted i - 1) }.modify i fun m =>
      { m with iReqs := (m.iReqs + 1) % 2 ^ 64 }
  else s

/-- The second `spdk_ring_dequeue`. -/
def dequeueMsg (m : Inst R) : Inst R :=
  let taken := R.dequeue m.msg reqPerPoll
  { m with phase := .dequeued taken.1, msg := taken.2 }

/-- The next step of `module_poller`; `processed` is what `module_rpoll` returns, when it is called. -/
def poll (m : Inst R) (processed : Bool) : Inst R :=
  match m.phase with
  | .idle =>
      if c.moduleCpoll then
        let taken := R.dequeue m.cmpl reqPerPoll
        { m with phase := .completing taken.1, cmpl := taken.2 }
      else dequeueMsg m
  | .completing [] => dequeueMsg m
  | .completing (req :: batch) => { m with phase := .completing batch, cpolled := m.cpolled ++ [req] }
  | .dequeued batch =>
      { m with phase := .polling batch, iReqs := (m.iReqs + (2 ^ 64 - batch.length)) % 2 ^ 64 }
  | .polling (req :: batch) =>
      { m with
        phase := .polling batch
        rpolled := m.rpolled ++ [req]
        handled := if processed then m.handled ++ [req] else m.handled }
  | .polling [] => { m with phase := .idle, rounds := m.rounds + 1 }

end

/-- What the cores do. -/
inductive Action (α : Type)
  | post (core : ℕ) (req : α)
  | complete (core : ℕ) (req : α)
  | postTo (inst : ℕ) (req : α)
  | postToCq (inst : ℕ) (req : α)
  | count (inst : ℕ)
  | poll (inst : ℕ) (processed : Bool)
  deriving DecidableEq, Repr

/-- A step of the module. -/
def step (c : Config α) (s : State R) : Action α → Option (State R)
  | .post core req => postRequest c s core req
  | .complete core req => completeRequest c s core req
  | .postTo i req => postToInstance c s i req
  | .postToCq i req => postToInstanceCq c s i req
  | .count i => some (count s i)
  | .poll i processed => some (s.modify i fun m => poll c m processed)

/-! ### Where the requests go -/

/-- The instance for the call number `n` of a core, counted from zero. -/
def target (c : Config α) (n : ℕ) (req : α) : Option ℕ :=
  match c.findInstanceContext with
  | some f => f req
  | none => some (n % c.numThreads)

/-- The calls of a core after an action. -/
def callsAfter (calls : ℕ → ℕ) : Action α → ℕ → ℕ
  | .post core _ | .complete core _ => Function.update calls core (calls core + 1)
  | _ => calls

/-- Where an action sends its request. -/
def sends (c : Config α) (calls : ℕ → ℕ) : Action α → Option (Pipe × ℕ × α)
  | .post core req => (target c (calls core) req).map fun i => (.msg, i, req)
  | .complete core req => (target c (calls core) req).map fun i => (.cmpl, i, req)
  | .postTo i req => some (.msg, i, req)
  | .postToCq i req => some (.cmpl, i, req)
  | .count _ | .poll _ _ => none

/-- What an action sends to a pipe of an instance. -/
def sentBy (c : Config α) (p : Pipe) (i : ℕ) (calls : ℕ → ℕ) (a : Action α) : List α :=
  match sends c calls a with
  | some (p', i', req) => if p' = p ∧ i' = i then [req] else []
  | none => []

/-- What the actions send to a pipe of an instance. -/
def sentTo (c : Config α) (p : Pipe) (i : ℕ) : (ℕ → ℕ) → List (Action α) → List α
  | _, [] => []
  | calls, a :: acts => sentBy c p i calls a ++ sentTo c p i (callsAfter calls a) acts

/-- The completions that an action puts into a ring of the instance and owes to its statistic. -/
def cqs (j : ℕ) : Action α → ℕ
  | .postToCq i _ => if i = j then 1 else 0
  | _ => 0

/-- The array of the module agrees with the number of calls each core made. -/
def Tracks (c : Config α) (calls : ℕ → ℕ) (s : State R) : Prop :=
  c.findInstanceContext = none → ∀ core, s.threadIndexArr core = calls core % c.numThreads

section

variable {c : Config α} {calls : ℕ → ℕ} {s s' : State R} {a : Action α} {i j core : ℕ} {req : α}
  {p : Pipe}

theorem modify_insts (f : Inst R → Inst R) :
    (s.modify i f).insts j = if i = j then f (s.insts j) else s.insts j := by
  unfold State.modify
  by_cases h : i = j
  · subst h
    simp
  · rw [if_neg h]
    exact Function.update_of_ne (Ne.symm h) _ _

theorem findInstance_eq (htracks : Tracks c calls s) (h : findInstance c s core req = some (i, s')) :
    target c (calls core) req = some i ∧ s'.insts = s.insts ∧ s'.uncounted = s.uncounted ∧
      Tracks c (Function.update calls core (calls core + 1)) s' := by
  unfold findInstance at h
  unfold target
  cases hfind : c.findInstanceContext with
  | some f =>
    simp only [hfind] at h
    obtain ⟨i', hi', hpair⟩ := Option.map_eq_some_iff.1 h
    cases hpair
    refine ⟨hi', rfl, rfl, fun hnone => ?_⟩
    rw [hfind] at hnone
    cases hnone
  | none =>
    simp only [hfind] at h
    unfold getModuleInstance at h
    split at h
    · cases h
      refine ⟨congrArg some (htracks hfind core).symm, rfl, rfl, fun _ core' => ?_⟩
      by_cases hcore : core' = core
      · subst hcore
        simp only [Function.update_self]
        rw [htracks hfind, Nat.mod_add_mod]
      · simp only [Function.update_of_ne hcore]
        exact htracks hfind core'
    · cases h

/-- A request that an instance took into a ring: only the ring is new. -/
structure Pushed (p : Pipe) (req : α) (m m' : Inst R) : Prop where
  msgRing : m'.msgRing = m.msgRing ++ if p = .msg then [req] else []
  cmplRing : m'.cmplRing = m.cmplRing ++ if p = .cmpl then [req] else []
  phase : m'.phase = m.phase
  iReqs : m'.iReqs = m.iReqs
  rpolled : m'.rpolled = m.rpolled
  cpolled : m'.cpolled = m.cpolled
  handled : m'.handled = m.handled
  rounds : m'.rounds = m.rounds

theorem pushed_of_push {m m' : Inst R} (h : m.push req p = some m') : Pushed p req m m' := by
  cases p with
  | msg =>
    obtain ⟨q, hq, rfl⟩ := Option.map_eq_some_iff.1 h
    exact ⟨R.entries_enqueue hq, (List.append_nil _).symm, rfl, rfl, rfl, rfl, rfl, rfl⟩
  | cmpl =>
    obtain ⟨q, hq, rfl⟩ := Option.map_eq_some_iff.1 h
    exact ⟨(List.append_nil _).symm, R.entries_enqueue hq, rfl, rfl, rfl, rfl, rfl, rfl⟩

theorem enqueue_eq (h : enqueue c s p i req = some s') :
    i < c.numThreads ∧ ∃ m, Pushed p req (s.insts i) m ∧ s' = s.modify i fun _ => m := by
  unfold enqueue at h
  split at h
  next hlt =>
    obtain ⟨m, hm, rfl⟩ := Option.map_eq_some_iff.1 h
    exact ⟨hlt, m, pushed_of_push hm, rfl⟩
  · cases h

theorem owe_uncounted :
    (s.owe i).uncounted j = s.uncounted j + if i = j then 1 else 0 := by
  unfold State.owe
  by_cases h : i = j
  · subst h
    simp
  · rw [if_neg h, Nat.add_zero]
    exact Function.update_of_ne (Ne.symm h) _ _

/-- A request that was put into a ring of an instance. -/
structure Put (p : Pipe) (i : ℕ) (req : α) (a : Action α) (s s' : State R) : Prop where
  pushed : Pushed p req (s.insts i) (s'.insts i)
  others : ∀ j, i ≠ j → s'.insts j = s.insts j
  owed : ∀ j, s'.uncounted j + (s.insts j).msgRing.length =
    s.uncounted j + (s'.insts j).msgRing.length + cqs j a

theorem put_owe {s₁ : State R} {m : Inst R} (hinsts : s₁.insts = s.insts)
    (huncounted : s₁.uncounted = s.uncounted) (hm : Pushed p req (s₁.insts i) m)
    (hcqs : ∀ j, cqs j a = if p = .cmpl ∧ i = j then 1 else 0) :
    Put p i req a s ((s₁.modify i fun _ => m).owe i) := by
  have hput : ∀ j, ((s₁.modify i fun _ => m).owe i).insts j = if i = j then m else s.insts j := by
    intro j
    rw [← hinsts]
    exact modify_insts (s := s₁) (fun _ => m)
  rw [hinsts] at hm
  refine ⟨?_, fun j hij => (hput j).trans (if_neg hij), fun j => ?_⟩
  · rw [hput, if_pos rfl]
    exact hm
  · rw [hput j, owe_uncounted, show (s₁.modify i fun _ => m).uncounted = s₁.uncounted from rfl,
      huncounted, hcqs j]
    by_cases hij : i = j
    · subst hij
      rw [if_pos rfl, if_pos rfl, hm.msgRing]
      cases p <;> simp <;> omega
    · simp [hij]

theorem put_cmpl {s₁ : State R} {m : Inst R} (hinsts : s₁.insts = s.insts)
    (huncounted : s₁.uncounted = s.uncounted) (hm : Pushed .cmpl req (s₁.insts i) m)
    (hcqs : ∀ j, cqs j a = 0) : Put .cmpl i req a s (s₁.modify i fun _ => m) := by
  have hput : ∀ j, (s₁.modify i fun _ => m).insts j = if i = j then m else s.insts j := by
    intro j
    rw [← hinsts]
    exact modify_insts _
  rw [hinsts] at hm
  refine ⟨?_, fun j hij => (hput j).trans (if_neg hij), fun j => ?_⟩
  · rw [hput, if_pos rfl]
    exact hm
  · rw [hput j, show (s₁.modify i fun _ => m).uncounted = s₁.uncounted from rfl, huncounted, hcqs j]
    by_cases hij : i = j
    · subst hij
      rw [if_pos rfl, hm.msgRing]
      simp
    · simp [hij]

theorem tracks_congr (htracks : Tracks c calls s) (h : s'.threadIndexArr = s.threadIndexArr) :
    Tracks c calls s' := by
  intro hnone core
  rw [h]
  exact htracks hnone core

theorem step_cases (htracks : Tracks c calls s) (h : step c s a = some s') :
    Tracks c (callsAfter calls a) s' ∧
      ((∃ p i req, sends c calls a = some (p, i, req) ∧ Put p i req a s s') ∨
        (∃ i, a = .count i ∧ s' = count s i) ∨
          ∃ i processed, a = .poll i processed ∧ s' = s.modify i fun m => poll c m processed) := by
  cases a with
  | post core req =>
    obtain ⟨⟨i, s₁⟩, hfind, h⟩ := Option.bind_eq_some_iff.1 h
    obtain ⟨s₂, hput, rfl⟩ := Option.map_eq_some_iff.1 h
    obtain ⟨htarget, hinsts, huncounted, htracks'⟩ := findInstance_eq htracks hfind
    obtain ⟨-, m, hm, rfl⟩ := enqueue_eq hput
    exact ⟨htracks', .inl ⟨.msg, i, req, congrArg (Option.map _) htarget,
      put_owe hinsts huncounted hm fun j => by simp [cqs]⟩⟩
  | complete core req =>
    obtain ⟨⟨i, s₁⟩, hfind, hput⟩ := Option.bind_eq_some_iff.1 h
    obtain ⟨htarget, hinsts, huncounted, htracks'⟩ := findInstance_eq htracks hfind
    obtain ⟨-, m, hm, rfl⟩ := enqueue_eq hput
    exact ⟨htracks', .inl ⟨.cmpl, i, req, congrArg (Option.map _) htarget,
      put_cmpl hinsts huncounted hm fun _ => rfl⟩⟩
  | postTo i req =>
    obtain ⟨s₂, hput, rfl⟩ := Option.map_eq_some_iff.1 h
    obtain ⟨-, m, hm, rfl⟩ := enqueue_eq hput
    exact ⟨htracks, .inl ⟨.msg, i, req, rfl, put_owe rfl rfl hm fun j => by simp [cqs]⟩⟩
  | postToCq i req =>
    obtain ⟨s₂, hput, rfl⟩ := Option.map_eq_some_iff.1 h
    obtain ⟨-, m, hm, rfl⟩ := enqueue_eq hput
    exact ⟨htracks, .inl ⟨.cmpl, i, req, rfl, put_owe rfl rfl hm fun j => by simp [cqs]⟩⟩
  | count i =>
    obtain rfl := Option.some.inj h
    refine ⟨tracks_congr htracks ?_, .inr (.inl ⟨i, rfl, rfl⟩)⟩
    unfold count
    split <;> rfl
  | poll i processed =>
    obtain rfl := Option.some.inj h
    exact ⟨tracks_congr htracks rfl, .inr (.inr ⟨i, processed, rfl, rfl⟩)⟩

theorem count_insts :
    (count s i).insts j = if i = j ∧ 0 < s.uncounted i then
      { s.insts j with iReqs := ((s.insts j).iReqs + 1) % 2 ^ 64 } else s.insts j := by
  unfold count
  by_cases hu : 0 < s.uncounted i
  · rw [if_pos hu, modify_insts]
    simp [hu]
  · rw [if_neg hu, if_neg fun h => hu h.2]

/-! ### The order of the requests -/

/-- The part of the batch in hand that `module_rpoll` has not seen. -/
def Phase.msgs : Phase α → List α
  | .idle | .completing _ => []
  | .dequeued batch | .polling batch => batch

/-- The part of the batch in hand that `module_cpoll` has not seen. -/
def Phase.cmpls : Phase α → List α
  | .completing batch => batch
  | _ => []

/-- What went into a pipe: the calls made for it, the batch in hand and the ring. -/
def Inst.all (m : Inst R) : Pipe → List α
  | .msg => m.rpolled ++ (m.phase.msgs ++ m.msgRing)
  | .cmpl => m.cpolled ++ (m.phase.cmpls ++ m.cmplRing)

/-- What the second `spdk_ring_dequeue` took and what it left were the ring. -/
theorem dequeueMsg_msgRing (m : Inst R) :
    (dequeueMsg m).phase.msgs ++ (dequeueMsg m).msgRing = m.msgRing :=
  R.dequeue_append _ _

theorem poll_all (m : Inst R) (processed : Bool) : (poll c m processed).all p = m.all p := by
  have hmsg : ∀ (q : R.Queue) (l : List α),
      l ++ ((R.dequeue q reqPerPoll).1 ++ R.entries (R.dequeue q reqPerPoll).2) = l ++ R.entries q :=
    fun q l => by rw [R.dequeue_append]
  cases hphase : m.phase with
  | idle =>
    simp only [poll, hphase]
    split <;> cases p <;>
      simp [Inst.all, Inst.msgRing, Inst.cmplRing, dequeueMsg, hphase, Phase.msgs, Phase.cmpls, hmsg]
  | completing batch =>
    cases batch <;> cases p <;>
      simp [poll, Inst.all, Inst.msgRing, Inst.cmplRing, dequeueMsg, hphase, Phase.msgs, Phase.cmpls,
        hmsg]
  | dequeued batch =>
    cases p <;> simp [poll, Inst.all, Inst.msgRing, Inst.cmplRing, hphase, Phase.msgs, Phase.cmpls]
  | polling batch =>
    cases batch <;> cases p <;>
      simp [poll, Inst.all, Inst.msgRing, Inst.cmplRing, hphase, Phase.msgs, Phase.cmpls]

theorem Pushed.all {m m' : Inst R} {p' : Pipe} (h : Pushed p' req m m') :
    m'.all p = m.all p ++ if p' = p then [req] else [] := by
  cases p with
  | msg =>
    simp only [Inst.all]
    rw [h.rpolled, h.phase, h.msgRing, List.append_assoc, List.append_assoc]
  | cmpl =>
    simp only [Inst.all]
    rw [h.cpolled, h.phase, h.cmplRing, List.append_assoc, List.append_assoc]

theorem step_all (htracks : Tracks c calls s) (h : step c s a = some s') (p : Pipe) (j : ℕ) :
    (s'.insts j).all p = (s.insts j).all p ++ sentBy c p j calls a := by
  unfold sentBy
  obtain ⟨p', i, req, hsends, hput⟩ | ⟨i, rfl, rfl⟩ | ⟨i, processed, rfl, rfl⟩ :=
    (step_cases htracks h).2
  · rw [hsends]
    by_cases hij : i = j
    · subst hij
      rw [hput.pushed.all]
      simp
    · rw [hput.others j hij]
      simp [hij]
  · rw [count_insts, sends, List.append_nil]
    split
    · cases p <;> rfl
    · rfl
  · rw [modify_insts, sends, List.append_nil]
    split
    · exact poll_all _ _
    · rfl

/-- What every step keeps, a run keeps. -/
theorem run_keeps {acts : List (Action α)} {Q : State R → Prop}
    (hstep : ∀ {calls s a s'}, Tracks c calls s → step c s a = some s' → Q s → Q s')
    (htracks : Tracks c calls s) (hrun : Run.run (step c) s acts = some s') (hs : Q s) :
    Tracks c (acts.foldl callsAfter calls) s' ∧ Q s' := by
  induction acts generalizing s calls with
  | nil =>
    cases hrun
    exact ⟨htracks, hs⟩
  | cons a acts ih =>
    rw [Run.run_cons] at hrun
    obtain ⟨s₁, h₁, hrun⟩ := Option.bind_eq_some_iff.1 hrun
    exact ih (step_cases htracks h₁).1 hrun (hstep htracks h₁ hs)

theorem run_all {acts : List (Action α)} (htracks : Tracks c calls s)
    (hrun : Run.run (step c) s acts = some s') (p : Pipe) (j : ℕ) :
    (s'.insts j).all p = (s.insts j).all p ++ sentTo c p j calls acts := by
  induction acts generalizing s calls with
  | nil =>
    cases hrun
    exact (List.append_nil _).symm
  | cons a acts ih =>
    rw [Run.run_cons] at hrun
    obtain ⟨s₁, h₁, hrun⟩ := Option.bind_eq_some_iff.1 hrun
    rw [ih (step_cases htracks h₁).1 hrun, step_all htracks h₁, sentTo, List.append_assoc]

theorem poll_handled (m : Inst R) (processed : Bool) (h : List.Sublist m.handled m.rpolled) :
    List.Sublist (poll c m processed).handled (poll c m processed).rpolled := by
  cases hphase : m.phase with
  | idle =>
    simp only [poll, hphase]
    split <;> exact h
  | completing batch =>
    cases batch <;> simp only [poll, hphase] <;> exact h
  | dequeued batch => simpa only [poll, hphase] using h
  | polling batch =>
    cases batch with
    | nil => simpa only [poll, hphase] using h
    | cons req batch =>
      simp only [poll, hphase]
      split
      · exact h.append_right [req]
      · exact h.trans (List.sublist_append_left _ _)

/-- The requests that go on to `dfly_handle_request` are some of those `module_rpoll` was called for, in
the same order. -/
theorem step_handled (htracks : Tracks c calls s) (h : step c s a = some s') (j : ℕ)
    (hsub : List.Sublist (s.insts j).handled (s.insts j).rpolled) :
    List.Sublist (s'.insts j).handled (s'.insts j).rpolled := by
  obtain ⟨p, i, req, -, hput⟩ | ⟨i, rfl, rfl⟩ | ⟨i, processed, rfl, rfl⟩ :=
    (step_cases htracks h).2
  · by_cases hij : i = j
    · subst hij
      rw [hput.pushed.handled, hput.pushed.rpolled]
      exact hsub
    · rw [hput.others j hij]
      exact hsub
  · rw [count_insts]
    split <;> exact hsub
  · rw [modify_insts]
    split
    · exact poll_handled _ _ hsub
    · exact hsub

theorem run_handled {acts : List (Action α)} (htracks : Tracks c calls s)
    (hrun : Run.run (step c) s acts = some s') (j : ℕ)
    (hsub : List.Sublist (s.insts j).handled (s.insts j).rpolled) :
    List.Sublist (s'.insts j).handled (s'.insts j).rpolled :=
  (run_keeps (fun htracks h => step_handled htracks h j) htracks hrun hsub).2

theorem tracks_initial : Tracks c (fun _ => 0) (State.initial : State R) := by
  intro _ core
  exact (Nat.zero_mod _).symm

/-! ### How long a request waits -/

/-- The poll in hand has taken its batch of requests. -/
def Phase.busy : Phase α → ℕ
  | .idle | .completing _ => 0
  | .dequeued _ | .polling _ => 1

/-- The places of a batch that the poll in hand has used already. -/
def Phase.spare : Phase α → ℕ
  | .idle | .completing _ => 0
  | .dequeued batch | .polling batch => reqPerPoll - batch.length

/-- At least this many calls of `module_rpoll` are made after `k` polls from `m` on, if `n` requests are
waiting in `m`. -/
def Inst.due (m : Inst R) (k : ℕ) : ℕ :=
  m.rpolled.length + min (m.phase.msgs ++ m.msgRing).length (reqPerPoll * k - m.phase.spare)

/-- An instance that was `m₀` keeps up with its requests. -/
structure KeepsUp (m₀ m : Inst R) : Prop where
  rounds : m₀.rounds ≤ m.rounds
  called : m₀.due (m.rounds - m₀.rounds) ≤ m.rpolled.length
  inHand : m₀.due (m.rounds - m₀.rounds + m.phase.busy) ≤ m.rpolled.length + m.phase.msgs.length
  waiting : m₀.rpolled.length + (m₀.phase.msgs ++ m₀.msgRing).length ≤
    m.rpolled.length + (m.phase.msgs ++ m.msgRing).length

theorem keepsUp_refl (m : Inst R) : KeepsUp m m := by
  refine ⟨le_rfl, ?_, ?_, le_rfl⟩
  · simp [Inst.due]
  · cases hphase : m.phase <;>
      simp [Inst.due, hphase, Phase.busy, Phase.spare, Phase.msgs, reqPerPoll] <;> omega

theorem keepsUp_dequeueMsg {m₀ m : Inst R} (hrounds : m₀.rounds ≤ m.rounds)
    (hcalled : m₀.due (m.rounds - m₀.rounds) ≤ m.rpolled.length)
    (hwaiting : m₀.rpolled.length + (m₀.phase.msgs ++ m₀.msgRing).length ≤
      m.rpolled.length + m.msgRing.length) : KeepsUp m₀ (dequeueMsg m) := by
  refine ⟨hrounds, hcalled, ?_, ?_⟩
  · change m₀.due (m.rounds - m₀.rounds + 1) ≤
      m.rpolled.length + (R.dequeue m.msg reqPerPoll).1.length
    rw [R.length_dequeue]
    change _ ≤ m.rpolled.length + min reqPerPoll m.msgRing.length
    unfold Inst.due reqPerPoll at hcalled ⊢
    omega
  · rw [dequeueMsg_msgRing]
    exact hwaiting

theorem KeepsUp.poll {m₀ m : Inst R} (h : KeepsUp m₀ m) (processed : Bool) :
    KeepsUp m₀ (poll c m processed) := by
  obtain ⟨hrounds, hcalled, hinHand, hwaiting⟩ := h
  have hsucc : m.rounds + 1 - m₀.rounds = m.rounds - m₀.rounds + 1 := by omega
  cases hphase : m.phase with
  | idle =>
    rw [hphase] at hinHand hwaiting
    simp only [ModulePipes.poll, hphase]
    split
    · exact ⟨hrounds, hcalled, hinHand, hwaiting⟩
    · exact keepsUp_dequeueMsg hrounds hcalled hwaiting
  | completing batch =>
    rw [hphase] at hinHand hwaiting
    cases batch with
    | nil =>
      simp only [ModulePipes.poll, hphase]
      exact keepsUp_dequeueMsg hrounds hcalled hwaiting
    | cons req batch =>
      simp only [ModulePipes.poll, hphase]
      exact ⟨hrounds, hcalled, hinHand, hwaiting⟩
  | dequeued batch =>
    rw [hphase] at hinHand hwaiting
    simp only [ModulePipes.poll, hphase]
    exact ⟨hrounds, hcalled, hinHand, hwaiting⟩
  | polling batch =>
    rw [hphase] at hinHand hwaiting
    cases batch with
    | nil =>
      simp only [ModulePipes.poll, hphase]
      refine ⟨hrounds.trans (Nat.le_succ _), ?_, ?_, hwaiting⟩
      · rw [hsucc]
        exact hinHand
      · rw [hsucc]
        exact hinHand
    | cons req batch =>
      simp only [ModulePipes.poll, hphase]
      refine ⟨hrounds, ?_, ?_, ?_⟩
      · exact hcalled.trans (by simp)
      · refine hinHand.trans (le_of_eq ?_)
        simp [Phase.msgs]
        omega
      · refine hwaiting.trans (le_of_eq ?_)
        simp [Phase.msgs, Inst.msgRing]
        omega

theorem KeepsUp.step {m₀ : Inst R} (htracks : Tracks c calls s) (h : step c s a = some s')
    (hkeeps : KeepsUp m₀ (s.insts j)) : KeepsUp m₀ (s'.insts j) := by
  obtain ⟨p, i, req, -, hput⟩ | ⟨i, rfl, rfl⟩ | ⟨i, processed, rfl, rfl⟩ :=
    (step_cases htracks h).2
  · by_cases hij : i = j
    · subst hij
      have hm := hput.pushed
      refine ⟨?_, ?_, ?_, hkeeps.waiting.trans ?_⟩
      · rw [hm.rounds]
        exact hkeeps.rounds
      · rw [hm.rounds, hm.rpolled]
        exact hkeeps.called
      · rw [hm.rounds, hm.phase, hm.rpolled]
        exact hkeeps.inHand
      · rw [hm.phase, hm.rpolled, hm.msgRing]
        simp only [List.length_append]
        omega
    · rw [hput.others j hij]
      exact hkeeps
  · rw [count_insts]
    split
    · exact ⟨hkeeps.rounds, hkeeps.called, hkeeps.inHand, hkeeps.waiting⟩
    · exact hkeeps
  · rw [modify_insts]
    split
    · exact hkeeps.poll processed
    · exact hkeeps

/-! ### The statistic -/

/-- The requests that were taken out of the ring and are still in the statistic. -/
def Phase.fresh : Phase α → ℕ
  | .dequeued batch => batch.length
  | _ => 0

/-- What the statistic of an instance shows, once all that is owed is added. -/
structure Counts (m : Inst R) (owed posted : ℕ) : Prop where
  lt : m.iReqs < 2 ^ 64
  batch : m.phase.fresh ≤ reqPerPoll
  modEq : m.iReqs + owed ≡ m.msgRing.length + m.phase.fresh + posted [MOD 2 ^ 64]

theorem counts_dequeueMsg {m : Inst R} {owed posted : ℕ} (hlt : m.iReqs < 2 ^ 64)
    (hmod : m.iReqs + owed ≡ m.msgRing.length + posted [MOD 2 ^ 64]) :
    Counts (dequeueMsg m) owed posted := by
  refine ⟨hlt, (R.length_dequeue _ _).le.trans (min_le_left _ _), ?_⟩
  have hlength : (dequeueMsg m).msgRing.length + (dequeueMsg m).phase.fresh = m.msgRing.length := by
    rw [Nat.add_comm, ← dequeueMsg_msgRing m, List.length_append]
    rfl
  rw [hlength]
  exact hmod

theorem Counts.poll {m : Inst R} {owed posted : ℕ} (h : Counts m owed posted) (processed : Bool) :
    Counts (poll c m processed) owed posted := by
  obtain ⟨hlt, hbatch, hmod⟩ := h
  cases hphase : m.phase with
  | idle =>
    rw [hphase] at hmod
    simp only [ModulePipes.poll, hphase]
    split
    · exact ⟨hlt, Nat.zero_le _, hmod⟩
    · exact counts_dequeueMsg hlt hmod
  | completing batch =>
    rw [hphase] at hmod
    cases batch with
    | nil =>
      simp only [ModulePipes.poll, hphase]
      exact counts_dequeueMsg hlt hmod
    | cons req batch =>
      simp only [ModulePipes.poll, hphase]
      exact ⟨hlt, Nat.zero_le _, hmod⟩
  | dequeued batch =>
    rw [hphase] at hbatch hmod
    change batch.length ≤ 8 at hbatch
    simp only [ModulePipes.poll, hphase]
    refine ⟨Nat.mod_lt _ (by decide), Nat.zero_le _, ?_⟩
    -- the subtraction, with the batch on both sides
    refine Nat.ModEq.add_right_cancel' batch.length ?_
    calc (m.iReqs + (2 ^ 64 - batch.length)) % 2 ^ 64 + owed + batch.length
        ≡ m.iReqs + (2 ^ 64 - batch.length) + owed + batch.length [MOD 2 ^ 64] :=
          ((Nat.mod_modEq _ _).add_right _).add_right _
      _ = m.iReqs + owed + 2 ^ 64 := by omega
      _ ≡ m.iReqs + owed [MOD 2 ^ 64] := Nat.add_modEq_right
      _ ≡ m.msgRing.length + batch.length + posted [MOD 2 ^ 64] := hmod
      _ = m.msgRing.length + 0 + posted + batch.length := by omega
  | polling batch =>
    rw [hphase] at hmod
    cases batch with
    | nil =>
      simp only [ModulePipes.poll, hphase]
      exact ⟨hlt, Nat.zero_le _, hmod⟩
    | cons req batch =>
      simp only [ModulePipes.poll, hphase]
      exact ⟨hlt, Nat.zero_le _, hmod⟩

theorem count_uncounted :
    (count s i).uncounted j = s.uncounted j - if i = j ∧ 0 < s.uncounted i then 1 else 0 := by
  unfold count
  by_cases hu : 0 < s.uncounted i
  · rw [if_pos hu]
    change Function.update s.uncounted i (s.uncounted i - 1) j = _
    by_cases hij : i = j
    · subst hij
      simp [hu]
    · rw [Function.update_of_ne (Ne.symm hij), if_neg fun h => hij h.1, Nat.sub_zero]
  · rw [if_neg hu, if_neg fun h => hu h.2, Nat.sub_zero]

theorem Counts.count {posted : ℕ} (h : Counts (s.insts j) (s.uncounted j) posted) :
    Counts ((count s i).insts j) ((count s i).uncounted j) posted := by
  rw [count_insts, count_uncounted]
  by_cases hij : i = j ∧ 0 < s.uncounted i
  · rw [if_pos hij, if_pos hij]
    obtain ⟨rfl, hpos⟩ := hij
    refine ⟨Nat.mod_lt _ (by decide), h.batch, ?_⟩
    calc ((s.insts i).iReqs + 1) % 2 ^ 64 + (s.uncounted i - 1)
        ≡ (s.insts i).iReqs + 1 + (s.uncounted i - 1) [MOD 2 ^ 64] :=
          (Nat.mod_modEq _ _).add_right _
      _ = (s.insts i).iReqs + s.uncounted i := by omega
      _ ≡ _ [MOD 2 ^ 64] := h.modEq
  · rw [if_neg hij, if_neg hij, Nat.sub_zero]
    exact h

theorem Counts.step {posted : ℕ} (htracks : Tracks c calls s) (h : step c s a = some s')
    (hcounts : Counts (s.insts j) (s.uncounted j) posted) :
    Counts (s'.insts j) (s'.uncounted j) (posted + cqs j a) := by
  obtain ⟨p, i, req, -, hput⟩ | ⟨i, rfl, rfl⟩ | ⟨i, processed, rfl, rfl⟩ :=
    (step_cases htracks h).2
  · have howed := hput.owed j
    have hsame : (s'.insts j).iReqs = (s.insts j).iReqs ∧ (s'.insts j).phase = (s.insts j).phase := by
      by_cases hij : i = j
      · subst hij
        exact ⟨hput.pushed.iReqs, hput.pushed.phase⟩
      · rw [hput.others j hij]
        exact ⟨rfl, rfl⟩
    refine ⟨?_, ?_, ?_⟩
    · rw [hsame.1]
      exact hcounts.lt
    · rw [hsame.2]
      exact hcounts.batch
    · rw [hsame.1, hsame.2]
      -- what is owed more is what the ring grew by, and the completions
      refine Nat.ModEq.add_right_cancel' (s.insts j).msgRing.length ?_
      calc (s.insts j).iReqs + s'.uncounted j + (s.insts j).msgRing.length
          = (s.insts j).iReqs + s.uncounted j + ((s'.insts j).msgRing.length + cqs j a) := by omega
        _ ≡ (s.insts j).msgRing.length + (s.insts j).phase.fresh + posted +
            ((s'.insts j).msgRing.length + cqs j a) [MOD 2 ^ 64] := hcounts.modEq.add_right _
        _ = (s'.insts j).msgRing.length + (s.insts j).phase.fresh + (posted + cqs j a) +
            (s.insts j).msgRing.length := by omega
  · exact hcounts.count
  · rw [modify_insts]
    split
    · exact hcounts.poll processed
    · exact hcounts

theorem Counts.run {posted : ℕ} {acts : List (Action α)} (htracks : Tracks c calls s)
    (hrun : Run.run (ModulePipes.step c) s acts = some s')
    (hcounts : Counts (s.insts j) (s.uncounted j) posted) :
    Counts (s'.insts j) (s'.uncounted j) (posted + (acts.map (cqs j)).sum) := by
  induction acts generalizing s calls posted with
  | nil =>
    cases hrun
    exact hcounts
  | cons a acts ih =>
    rw [Run.run_cons] at hrun
    obtain ⟨s₁, h₁, hrun⟩ := Option.bind_eq_some_iff.1 hrun
    rw [List.map_cons, List.sum_cons, ← Nat.add_assoc]
    exact ih (step_cases htracks h₁).1 hrun (hcounts.step htracks h₁)

/-! ### Runs of a module -/

theorem initial_all : ((State.initial : State R).insts i).all p = [] := by
  cases p <;> exact R.entries_create

/-- In every run, the requests that a module function was called for, those of the batch in hand and
those in the ring are, in this order, the requests that were sent to the pipe. The requests that go on
are some of them, in the same order. -/
theorem fifo_of_run {acts : List (Action α)}
    (hrun : Run.run (step c) State.initial acts = some s) (p : Pipe) (i : ℕ) :
    (s.insts i).all p = sentTo c p i (fun _ => 0) acts ∧
      List.Sublist (s.insts i).handled (sentTo c .msg i (fun _ => 0) acts) := by
  have hall : ∀ p, (s.insts i).all p = sentTo c p i (fun _ => 0) acts := by
    intro p
    rw [run_all tracks_initial hrun p i, initial_all, List.nil_append]
  refine ⟨hall p, ?_⟩
  rw [← hall .msg]
  exact (run_handled tracks_initial hrun i (List.Sublist.refl [])).trans
    (List.sublist_append_left _ _)

/-- Three requests of core 0 are spread over two instances, and one completion is posted. -/
def spread : List (Action ℕ) :=
  [.post 0 1, .post 0 2, .count 0, .post 0 3, .postToCq 0 9, .count 0, .count 1, .count 0]

/-- Two instances that poll for completions. -/
def twoInsts : Config ℕ := ⟨2, true, none⟩

/-- Both with rings of four entries. -/
def twoRings : State (SpdkRing.ofSize ℕ 4) := State.initial

/-- Instance 0 polls once. -/
def pollOnce : List (Action ℕ) := List.replicate 7 (.poll 0 true)

theorem fifo_spread : ∃ s, Run.run (step twoInsts) twoRings (spread ++ pollOnce) = some s ∧
    (s.insts 0).handled = [1, 3] ∧ (s.insts 0).cpolled = [9] ∧
      (s.insts 0).all .msg = sentTo twoInsts .msg 0 (fun _ => 0) (spread ++ pollOnce) ∧
      List.Sublist (s.insts 0).handled
        (sentTo twoInsts .msg 0 (fun _ => 0) (spread ++ pollOnce)) := by
  have hpolled : (Run.run (step twoInsts) twoRings (spread ++ pollOnce)).map
      (fun s => ((s.insts 0).handled, (s.insts 0).cpolled)) = some ([1, 3], [9]) := by
    decide
  obtain ⟨s, hs, heq⟩ := Option.map_eq_some_iff.1 hpolled
  obtain ⟨hhandled, hcpolled⟩ := Prod.mk.inj heq
  exact ⟨s, hs, hhandled, hcpolled, fifo_of_run hs .msg 0⟩

/-- After each poll that returns, eight more of the requests that were waiting have been handed to
`module_rpoll`, in order. The first poll may have used places of its batch already. -/
theorem served_of_run {acts acts' : List (Action α)}
    (hrun : Run.run (step c) State.initial acts = some s)
    (hrun' : Run.run (step c) s acts' = some s') (i : ℕ) :
    (s.insts i).rpolled ++ ((s.insts i).phase.msgs ++ (s.insts i).msgRing).take
        (reqPerPoll * ((s'.insts i).rounds - (s.insts i).rounds) - (s.insts i).phase.spare) <+:
      (s'.insts i).rpolled := by
  obtain ⟨htracks, -⟩ := run_keeps (Q := fun _ => True) (fun _ _ _ => trivial) tracks_initial hrun trivial
  have hkeeps := (run_keeps (fun htracks h => KeepsUp.step htracks h) htracks hrun'
    (keepsUp_refl (s.insts i))).2
  have hall := run_all htracks hrun' .msg i
  -- both lists begin what was sent, and the first one is not longer
  have hold : (s.insts i).rpolled ++ ((s.insts i).phase.msgs ++ (s.insts i).msgRing).take
      (reqPerPoll * ((s'.insts i).rounds - (s.insts i).rounds) - (s.insts i).phase.spare) <+:
      (s'.insts i).all .msg := by
    rw [hall]
    refine List.IsPrefix.trans ?_ (List.prefix_append _ _)
    exact (List.prefix_append_right_inj _).2 (List.take_prefix _ _)
  refine List.prefix_of_prefix_length_le hold (List.prefix_append _ _) ?_
  rw [List.length_append, List.length_take, Nat.min_comm]
  exact hkeeps.called

theorem served_spread : ∃ s s', Run.run (step twoInsts) twoRings spread = some s ∧
    Run.run (step twoInsts) s pollOnce = some s' ∧
    (s.insts 0).rpolled ++ ((s.insts 0).phase.msgs ++ (s.insts 0).msgRing).take
        (reqPerPoll * ((s'.insts 0).rounds - (s.insts 0).rounds) - (s.insts 0).phase.spare) <+:
      (s'.insts 0).rpolled := by
  obtain ⟨s, hs⟩ : ∃ s, Run.run (step twoInsts) twoRings spread = some s := ⟨_, rfl⟩
  obtain ⟨s', hs'⟩ : ∃ s', Run.run (step twoInsts) s pollOnce = some s' := ⟨_, rfl⟩
  exact ⟨s, s', hs, hs', served_of_run hs hs' 0⟩

/-- In every state of a run, the statistic of an instance and what it is owed are, modulo `2 ^ 64`, the
requests in its ring and in a batch just taken, and all completions that were ever posted to it with
`dss_module_post_to_instance_cq`: these are never subtracted. -/
theorem iReqs_of_run {acts : List (Action α)}
    (hrun : Run.run (step c) State.initial acts = some s) (i : ℕ) :
    (s.insts i).iReqs < 2 ^ 64 ∧
      (s.insts i).iReqs + s.uncounted i ≡
        (s.insts i).msgRing.length + (s.insts i).phase.fresh + (acts.map (cqs i)).sum
        [MOD 2 ^ 64] := by
  have hcounts :
      Counts ((State.initial : State R).insts i) ((State.initial : State R).uncounted i) 0 := by
    refine ⟨Nat.two_pow_pos 64, Nat.zero_le _, ?_⟩
    change 0 ≡ (R.entries R.create).length + 0 + 0 [MOD 2 ^ 64]
    rw [R.entries_create]
    rfl
  have h := hcounts.run tracks_initial hrun
  rw [Nat.zero_add] at h
  exact ⟨h.lt, h.modEq⟩

theorem iReqs_spread : ∃ s, Run.run (step twoInsts) twoRings (spread ++ pollOnce) = some s ∧
    (s.insts 0).iReqs < 2 ^ 64 ∧
      (s.insts 0).iReqs + s.uncounted 0 ≡
        (s.insts 0).msgRing.length + (s.insts 0).phase.fresh + ((spread ++ pollOnce).map (cqs 0)).sum
        [MOD 2 ^ 64] := by
  obtain ⟨s, hs⟩ : ∃ s, Run.run (step twoInsts) twoRings (spread ++ pollOnce) = some s := ⟨_, rfl⟩
  exact ⟨s, hs, iReqs_of_run hs 0⟩

end

end DssSdk.Framework.ModulePipes
