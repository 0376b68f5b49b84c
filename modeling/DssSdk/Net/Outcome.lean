import DssSdk.Listing.Listed
import DssSdk.Net.Request

/-!
# The outcome of a request

A request object is used for one command after the other. A use that goes through the translator ends
with the status of its last call.

* `Request.Ready`, `System.AtRest`: a request object before and after a use;
* `Served`: what a use has to leave behind;
* `serve_translated`, `serve_listRead`: the two ways through the modules;
* `Accepted`: the uses that end as they should;
* `served_iff`: these are all of them;
* `atRest_of_serveAll`: the uses of one request object, one after the other.

An error of the translator has no completion of its own: with assertions it stops the target, without
them the host sees a success. The step to the list module does not look at the outcome, so that a
STORE that was not done is listed, nor at the operation: a RETRIEVE of a key with a delimiter moves
the root prefix, and what was listed under it is out of reach.
-/

namespace DssSdk.Net

open DssSdk.Listing (Bytes ListInfo ListContext RootStays StoreListed)
open ByteMemory (Memory)

variable {conf : Conf} {cmd : Cmd} {s : System}

/-- A translator context that is not in use. -/
structure KvtransReq.Freed (k : KvtransReq) : Prop where
  initialized : k.initialized = false
  ioTasks : k.hasIoTasks = false
  ioToQueue : k.ioToQueue = false
  baMetaUpdated : k.baMetaUpdated = false
  ctx : k.hasCtx = false
  dreq : k.hasDreq = false

/-- The contexts of a request that is not in use. -/
structure Request.Ready (r : Request) : Prop where
  netState : r.netState = .free
  netInst : r.netInst = none
  kvtInst : r.kvtInst = none
  kvt : r.kvt.Freed
  listData : r.listData = noListData

/-- No entry of a zone is empty. -/
def NoEmpty (m : Listing.ZoneMap) : Prop := ∀ p set, m p = some set → [] ∉ set

/-- No entry of the listing is empty. -/
def NoEmptyEntry (L : ListContext) : Prop := ∀ zone, NoEmpty (L.zones zone)

/-- The request is in no ring. -/
structure System.AtRest (s : System) : Prop where
  ready : s.req.Ready
  posted : s.posted = []
  entries : NoEmptyEntry s.listing

/-- The command goes through the translator. -/
def Translated (conf : Conf) (cmd : Cmd) : Prop :=
  ¬(conf.listEnabled = true ∧ cmd.opc = .kvListRead)

/-- What a use leaves: one completion with the outcome of the translator, a listing that only a STORE
that was done or a DELETE has changed, and a request object for the next use. -/
structure Served (conf : Conf) (cmd : Cmd) (tr : Translation) (s s' : System) : Prop where
  completed : ∃ cpl, s'.completed = s.completed ++ [cpl] ∧ (Translated conf cmd →
    (cpl.status = .success ↔
      tr.last.rc = .success ∨ (cmd.opc = .kvDelete ∧ tr.last.rc = .notFound)))
  listing : s'.listing ≠ s.listing →
    (cmd.opc = .kvStore ∧ tr.last.rc = .success) ∨ cmd.opc = .kvDelete
  atRest : s'.AtRest

/-! ### Entries of the listing -/

/-- An update of one prefix. -/
theorem NoEmpty.update {m : Listing.ZoneMap} (hm : NoEmpty m) (p : Bytes)
    (o : Option (Finset Bytes)) (ho : ∀ set, o = some set → [] ∉ set) :
    NoEmpty (Function.update m p o) := by
  intro q set hset
  by_cases hq : q = p
  · subst hq
    rw [Function.update_self] at hset
    exact ho set hset
  · rw [Function.update_of_ne hq] at hset
    exact hm q set hset

theorem ioHandler_noEmpty (op : Listing.Op) {m : Listing.ZoneMap} (hm : NoEmpty m) (p e : Bytes) :
    NoEmpty (Listing.ioHandler op m p e).1 := by
  cases op with
  | store =>
    simp only [Listing.ioHandler, Listing.listHandleStoreOp]
    split
    case isTrue => exact hm
    case isFalse he =>
      refine hm.update p _ ?_
      rintro set ⟨rfl⟩
      rw [Finset.mem_insert, not_or]
      refine ⟨fun h => he h.symm, ?_⟩
      unfold PrefixTree.entries
      cases hp : m p with
      | none => simp
      | some set => simpa using hm p set hp
  | delete =>
    simp only [Listing.ioHandler, Listing.listHandleDeleteOp]
    cases hp : m p with
    | none => exact hm
    | some set =>
      simp only
      split
      · exact hm.update p none (by simp)
      · refine hm.update p _ ?_
        rintro set' ⟨rfl⟩ hmem
        exact hm p set hp (Finset.mem_of_mem_erase hmem)

theorem handlePair_noEmpty {L : ListContext} (h : NoEmptyEntry L) (op : Listing.Op) (key : Bytes)
    (d : ListInfo) (i : ℕ) : NoEmptyEntry (Listing.handlePair op key L d i).1 := by
  intro zone
  show NoEmpty (Function.update L.zones (d.zone i).toNat _ zone)
  by_cases hz : zone = (d.zone i).toNat
  · subst hz
    rw [Function.update_self]
    exact ioHandler_noEmpty op (h _) _ _
  · rw [Function.update_of_ne hz]
    exact h zone

theorem doListIo_noEmpty (conf : Listing.Conf) (inst : ℕ) (op : Listing.Op) (key : Bytes)
    (fuel : ℕ) (L : ListContext) (d : ListInfo) (rc : Listing.Rc) (h : NoEmptyEntry L) :
    NoEmptyEntry (Listing.doListIo conf inst op key fuel L d rc).listing := by
  fun_induction Listing.doListIo conf inst op key fuel L d rc with
  | case1 => exact h
  | case2 => exact h
  | case3 => exact handlePair_noEmpty h op key _ _
  | case4 fuel L d rc i d' _ res _ pass ih => exact ih (handlePair_noEmpty h op key _ _)

theorem fillLoop_isSome (maxKeys : ℕ) (es : List Bytes) (f : Listing.Fill) (h : [] ∉ es) :
    (Listing.fillLoop maxKeys es f).isSome := by
  fun_induction Listing.fillLoop maxKeys es f with
  | case1 => rfl
  | case2 => rfl
  | case3 => simp at h
  | case4 => rfl
  | case5 k ks f _ _ _ ih => exact ih fun hk => h (List.mem_cons_of_mem k hk)

theorem listHandleReadOp_isSome (root : Bytes) {zone : Listing.ZoneMap} (h : NoEmpty zone)
    (cmd : Cmd) (mem : Memory) : (Listing.listHandleReadOp root zone cmd.readCmd mem).isSome := by
  unfold Listing.listHandleReadOp
  split
  · rfl
  · cases ht : Listing.readTarget root cmd.readCmd with
    | none => rfl
    | some target =>
      obtain ⟨p, start⟩ := target
      cases hp : zone p with
      | none => simp only [hp, Option.isSome_some]
      | some set =>
        have hlen : ¬cmd.readCmd.listSize < cmd.readCmd.valLength := by
          show ¬4 * cmd.cdw10 < 4 * cmd.cdw10 - cmd.invalBytes
          omega
        simp only [hp, if_neg hlen]
        cases ha : Listing.startAfter start (Listing.entries set) with
        | none => rfl
        | some es =>
          simp only [Option.isSome_map]
          refine fillLoop_isSome _ es _ fun hmem => h p set hp ?_
          exact Listing.mem_entries.1 (Listing.startAfter_subset ha hmem)

/-! ### The way through the modules -/

@[simp] theorem dssAssert_true (conf : Conf) : dssAssert conf true = some () := by
  simp [dssAssert]

theorem polls_add (conf : Conf) (cmd : Cmd) (m n : ℕ) (calls : List Call) (s : System) :
    polls conf cmd (m + n) calls s =
      (polls conf cmd m calls s).bind fun r => polls conf cmd n r.2 r.1 := by
  induction m generalizing calls s with
  | zero =>
    rw [Nat.zero_add]
    rfl
  | succ m ih =>
    rw [Nat.succ_add]
    simp only [polls, ih, Option.bind_assoc]

theorem polls_one (conf : Conf) (cmd : Cmd) (calls : List Call) (s : System) :
    polls conf cmd 1 calls s = poll conf cmd calls s := by
  show (poll conf cmd calls s).bind (fun r => some (r.1, r.2)) = _
  cases poll conf cmd calls s <;> rfl

/-- The system with another translator context. -/
def System.withKvt (s : System) (k : KvtransReq) (t : ℤ) : System :=
  { s with req := { s.req with kvt := k }, taskNum := t }

theorem handler_wait (conf : Conf) (cmd : Cmd) {call : Call} (hrc : call.rc = .success)
    (hst : call.state ≠ .reqCmpl) (s : System) :
    ∃ k t, dssKvtransRequestHandler conf cmd call s = some ((s.withKvt k t).post .kvtrans) := by
  have hafter : stateAfter call = call.state := by simp [stateAfter, hrc]
  simp only [dssKvtransRequestHandler, hafter, if_neg hst]
  split
  · exact ⟨_, _, rfl⟩
  · exact ⟨_, _, rfl⟩

theorem polls_waits (conf : Conf) (cmd : Cmd) {waits : List Call}
    (hw : ∀ c ∈ waits, c.rc = .success ∧ c.state ≠ .reqCmpl) (rest : List Call) (s : System)
    (hs : s.posted = [.kvtrans]) :
    ∃ k t, polls conf cmd waits.length (waits ++ rest) s = some (s.withKvt k t, rest) := by
  induction waits generalizing s with
  | nil => exact ⟨s.req.kvt, s.taskNum, rfl⟩
  | cons call waits ih =>
    obtain ⟨hrc, hst⟩ := hw call List.mem_cons_self
    obtain ⟨k, t, hcall⟩ := handler_wait conf cmd hrc hst { s with posted := [] }
    have hback : ({ s with posted := [] }.withKvt k t).post .kvtrans = s.withKvt k t := by
      simp [System.withKvt, System.post, hs]
    obtain ⟨k', t', hpolls⟩ := ih (fun c hc => hw c (List.mem_cons_of_mem _ hc)) (s.withKvt k t) hs
    refine ⟨k', t', ?_⟩
    simp only [List.length_cons, List.cons_append, polls, poll, hs, hcall, hback, Option.map_some,
      Option.bind_some]
    exact hpolls

theorem handler_last (conf : Conf) (cmd : Cmd) {call : Call}
    (hend : call.rc = .success → call.state = .reqCmpl) (s : System) :
    ∃ k t, k.Freed ∧ dssKvtransRequestHandler conf cmd call s =
      dssKvtransNetRequestComplete conf cmd call.rc (s.withKvt k t) := by
  have hafter : stateAfter call = .reqCmpl := by
    unfold stateAfter
    split
    · rfl
    · by_cases hrc : call.rc = .success
      · exact hend hrc
      · tauto
  simp only [dssKvtransRequestHandler, hafter, if_true]
  split
  case isTrue hinit =>
    refine ⟨_, _, ?_, rfl⟩
    constructor <;> simp [freeKvtransReq, hinit]
  case isFalse hinit =>
    refine ⟨_, _, ?_, rfl⟩
    constructor <;> simp [freeKvtransReq, initKvtransReq]

/-- The request object with its command, in the ring of the network module. -/
def started (inst : ℕ) (buffer : Memory) (cmd : Cmd) (s : System) : System :=
  { s with
    req := { s.req with
      status := .success
      netInst := some inst
      netState := .init
      hasSs := true
      opc := dssNvmfGetDssOpc cmd.opc }
    buffer := buffer
    cpl := ⟨.success, 0⟩
    posted := [.net] }

theorem setup_eq (h : s.AtRest) (inst : ℕ) (buffer : Memory) :
    dssNetSetupRequest conf inst buffer cmd s = some (started inst buffer cmd s) := by
  simp [dssNetSetupRequest, h.ready.netState, started, System.post, h.posted]

/-- The request with the translator. -/
def submitted (s : System) (i : ℕ) (k : KvtransReq) (t : ℤ) : System :=
  { s with
    req := { s.req with netState := .submitted, kvtInst := some i, kvt := k }
    posted := [.kvtrans]
    taskNum := t }

/-- The commands of a KV host. -/
def KvCmd (cmd : Cmd) : Prop :=
  cmd.opc = .kvStore ∨ cmd.opc = .kvRetrieve ∨ cmd.opc = .kvDelete ∨ cmd.opc = .kvListRead

theorem setupKvtransReq_eq (hkv : KvCmd cmd) (hno : ¬(conf.asserts = true ∧ cmd.opc = .kvListRead))
    (hopc : s.req.opc = dssNvmfGetDssOpc cmd.opc) :
    ∃ k, dssSetupKvtransReq conf cmd s = some (s.withKvt k s.taskNum) := by
  have hval : cmd.valLength = 0 ∨ cmd.hasValue = true := by
    by_cases h0 : cmd.valLength = 0
    · exact Or.inl h0
    · exact Or.inr (cmd.value_ok h0)
  have hkey := cmd.key_le
  rcases hkv with ho | ho | ho | ho
  · refine ⟨{ s.req.kvt with opc := .store, valLength := cmd.valLength }, ?_⟩
    simp [dssSetupKvtransReq, hkey, hopc, ho, dssNvmfGetDssOpc, hval, System.withKvt]
  · refine ⟨{ s.req.kvt with opc := .retrieve, valLength := cmd.valLength }, ?_⟩
    simp [dssSetupKvtransReq, hkey, hopc, ho, dssNvmfGetDssOpc, hval, System.withKvt]
  · refine ⟨{ s.req.kvt with opc := .delete, valLength := cmd.valLength }, ?_⟩
    simp [dssSetupKvtransReq, hkey, hopc, ho, dssNvmfGetDssOpc, System.withKvt]
  · refine ⟨{ s.req.kvt with valLength := cmd.valLength }, ?_⟩
    have hoff : conf.asserts = false := by simpa [ho] using hno
    simp [dssSetupKvtransReq, hkey, hopc, ho, dssNvmfGetDssOpc, dssAssert, hoff, System.withKvt]

theorem poll_started (h : s.AtRest) (hkv : KvCmd cmd) (hnic : conf.testNicBw = false)
    (htr : Translated conf cmd) (inst : ℕ) (buffer : Memory) (calls : List Call) :
    poll conf cmd calls (started inst buffer cmd s) =
      (dssSetupKvtransReq conf cmd { started inst buffer cmd s with posted := [] }).bind fun s =>
        (postKvtrans conf cmd (s.setNetState .submitted)).map fun s => (s, calls) := by
  have hfree := h.ready.kvt.initialized
  have hlist : ¬(conf.listEnabled = true ∧ dssNvmfGetDssOpc cmd.opc = .kvListRead) := by
    intro hl
    refine htr ⟨hl.1, ?_⟩
    rcases hkv with ho | ho | ho | ho <;> simp_all [dssNvmfGetDssOpc]
  have hblk : dssNvmfGetDssOpc cmd.opc ≠ .blkRead := by
    rcases hkv with ho | ho | ho | ho <;> simp [ho, dssNvmfGetDssOpc]
  simp only [poll, started, dssNetRequestProcess, netLoop, netRound, hnic, if_neg hlist,
    if_neg hblk, hfree, Bool.false_eq_true, if_false, Bool.not_false, dssAssert_true,
    Option.bind_eq_bind, Option.bind_some, Option.pure_def, Option.bind_assoc, true_or, if_true]
  cases dssSetupKvtransReq conf cmd _ with
  | none => rfl
  | some s' => simp

theorem poll_submit (h : s.AtRest) (hkv : KvCmd cmd) (hnic : conf.testNicBw = false)
    (htr : Translated conf cmd) (hno : ¬(conf.asserts = true ∧ cmd.opc = .kvListRead)) (inst : ℕ)
    (buffer : Memory) (calls : List Call) :
    ∃ i k t, poll conf cmd calls (started inst buffer cmd s) =
      some (submitted (started inst buffer cmd s) i k t, calls) := by
  obtain ⟨k, hk⟩ := setupKvtransReq_eq (s := { started inst buffer cmd s with posted := [] }) hkv
    hno rfl
  refine ⟨cmd.ioDeviceIndex % conf.numKvtThreads, k, s.taskNum, ?_⟩
  rw [poll_started h hkv hnic htr, hk]
  have hinst := h.ready.kvtInst
  simp [postKvtrans, System.setNetState, System.withKvt, started, hinst, submitted, System.post]

/-- The request object after a use, freed by the transport. -/
def finished (s : System) (opc : Opc) (k : KvtransReq) (t : ℤ) (buffer : Memory) (cpl : Cpl)
    (L : ListContext) : System where
  req := ⟨.error, opc, false, none, .free, none, k, noListData, 0⟩
  posted := []
  buffer := buffer
  cpl := cpl
  completed := s.completed ++ [cpl]
  listing := L
  taskNum := t

theorem polls_rest (conf : Conf) (cmd : Cmd) (n : ℕ) (calls : List Call) (s : System)
    (hs : s.posted = []) : polls conf cmd n calls s = some (s, calls) := by
  induction n with
  | zero => rfl
  | succ n ih => simp [polls, poll, hs, ih]

theorem polls_complete (conf : Conf) (cmd : Cmd) (n : ℕ) (calls : List Call) (s : System)
    (hs : s.posted = [.net]) (hst : s.req.netState = .submitted) :
    (polls conf cmd (n + 1) calls s).map (fun r => dflyReqFini r.1) =
      some (finished s s.req.opc s.req.kvt s.taskNum s.buffer s.cpl s.listing) := by
  have hpoll : ∃ s', poll conf cmd calls s = some (s', calls) ∧ s'.posted = [] ∧
      dflyReqFini s' = finished s s.req.opc s.req.kvt s.taskNum s.buffer s.cpl s.listing := by
    simp [poll, hs, dssNetRequestProcess, netLoop, netRound, hst, System.setNetState,
      completeAndTeardown, dflyReqFini, finished]
  obtain ⟨s', hs', hrest, hfini⟩ := hpoll
  simp only [polls, hs', Option.bind_some, polls_rest conf cmd n calls s' hrest, Option.map_some,
    hfini]

/-- The NVMe completion of a translated command. -/
def respCpl (cmd : Cmd) (status : ReqStatus) (len : ℕ) : Cpl :=
  match status with
  | .keyNotFound => if cmd.opc = .kvDelete then ⟨.success, 0⟩ else ⟨.kvKeyNotExist, 0⟩
  | _ => ⟨.success, if dssNvmfGetDssOpc cmd.opc = .kvRetrieve then len else 0⟩

/-- The listing after the pass of the first instance. -/
def listingAfter (conf : Listing.Conf) (cmd : Cmd) (L : ListContext) (a : Listing.Arrival) :
    ListContext :=
  let L' := { L with rootPrefix := a.rootPrefix }
  match cmd.opc with
  | .kvStore => (Listing.listIo conf a.inst .store cmd.key L' a.data).listing
  | .kvDelete => (Listing.listIo conf a.inst .delete cmd.key L' a.data).listing
  | _ => L'

/-- The command with the translator at its end. -/
def translated (s : System) (inst i : ℕ) (buffer : Memory) (cmd : Cmd) (k : KvtransReq) (t : ℤ) :
    System :=
  { submitted (started inst buffer cmd s) i k t with posted := [] }

/-- The translated command with its response. -/
def responded (s : System) (cmd : Cmd) (status : ReqStatus) : System :=
  { s with
    req := { s.req with status := status }
    cpl := respCpl cmd status s.req.kvt.valLength }

theorem netRequestComplete_eq {inst i : ℕ} {buffer : Memory} {k : KvtransReq} {t : ℤ}
    {rc : KvtransStatus} {status : ReqStatus}
    (hstatus : requestStatus conf rc .success = some status) (hne : status ≠ .error) :
    dssKvtransNetRequestComplete conf cmd rc (translated s inst i buffer cmd k t) =
      let s' := responded (translated s inst i buffer cmd k t) cmd status
      if conf.listEnabled then postList conf cmd s' else some (s'.post .net) := by
  have hreq : (translated s inst i buffer cmd k t).req.status = .success := rfl
  simp only [dssKvtransNetRequestComplete, hreq, hstatus, Option.bind_eq_bind, Option.bind_some]
  cases status with
  | success => rfl
  | keyNotFound =>
    simp only [dssNetSetupNvmfResp, responded, respCpl]
    split <;> rfl
  | error => exact absurd rfl hne

theorem back_net (hoff : conf.listEnabled = false) {inst i : ℕ} {buffer : Memory} {k : KvtransReq}
    {t : ℤ} {rc : KvtransStatus} {status : ReqStatus}
    (hstatus : requestStatus conf rc .success = some status) (hne : status ≠ .error) :
    ((dssKvtransNetRequestComplete conf cmd rc (translated s inst i buffer cmd k t)).bind fun s =>
      (polls conf cmd 2 [] s).map fun r => dflyReqFini r.1) =
      some (finished s (dssNvmfGetDssOpc cmd.opc) k t buffer (respCpl cmd status k.valLength)
        s.listing) := by
  rw [netRequestComplete_eq hstatus hne]
  simp only [hoff, Bool.false_eq_true, if_false, Option.bind_some]
  exact polls_complete conf cmd 1 [] _ rfl rfl

theorem poll_list (conf : Conf) {cmd : Cmd} (hopc : cmd.opc ≠ .kvListRead) (calls : List Call)
    (s : System) (a : Listing.Arrival) :
    ∃ d, poll conf cmd calls
      { s with
        req := { s.req with listData := a.data }
        listing := { s.listing with rootPrefix := a.rootPrefix }
        posted := [.list a.inst] } =
      some ({ s with
        req := { s.req with listData := d }
        listing := listingAfter conf.list cmd s.listing a
        posted := [.net] }, calls) := by
  cases hc : cmd.opc with
  | kvStore =>
    simp [poll, dflyListReqProcess, listIo, listChange, hc, listingAfter, System.post]
  | kvDelete =>
    simp [poll, dflyListReqProcess, listIo, listChange, hc, listingAfter, System.post]
  | kvListRead => exact absurd hc hopc
  | kvRetrieve => simp [poll, dflyListReqProcess, listIo, hc, listingAfter, System.post]
  | read => simp [poll, dflyListReqProcess, listIo, hc, listingAfter, System.post]
  | write => simp [poll, dflyListReqProcess, listIo, hc, listingAfter, System.post]
  | other => simp [poll, dflyListReqProcess, listIo, hc, listingAfter, System.post]

theorem back_list (hon : conf.listEnabled = true) (hopc : cmd.opc ≠ .kvListRead)
    (hdata : s.req.listData = noListData) {inst i : ℕ} {buffer : Memory} {k : KvtransReq} {t : ℤ}
    {rc : KvtransStatus} {status : ReqStatus}
    (hstatus : requestStatus conf rc .success = some status) (hne : status ≠ .error) :
    ((dssKvtransNetRequestComplete conf cmd rc (translated s inst i buffer cmd k t)).bind fun s =>
      (polls conf cmd 2 [] s).map fun r => dflyReqFini r.1) =
      (Listing.arrive conf.list s.listing.rootPrefix cmd.key).map fun a =>
        finished s (dssNvmfGetDssOpc cmd.opc) k t buffer (respCpl cmd status k.valLength)
          (listingAfter conf.list cmd s.listing a) := by
  rw [netRequestComplete_eq hstatus hne]
  have hcnt : (responded (translated s inst i buffer cmd k t) cmd status).req.listData.peCntTbd
      = 0 := by
    show s.req.listData.peCntTbd = 0
    rw [hdata]
    rfl
  simp only [hon, if_true, postList, if_neg hopc, if_pos hcnt]
  show (Option.map _ (Listing.arrive conf.list s.listing.rootPrefix cmd.key)).bind _ = _
  cases Listing.arrive conf.list s.listing.rootPrefix cmd.key with
  | none => rfl
  | some a =>
    obtain ⟨d, hpoll⟩ := poll_list conf hopc []
      (responded (translated s inst i buffer cmd k t) cmd status) a
    have hpolls := polls_complete conf cmd 0 []
      { responded (translated s inst i buffer cmd k t) cmd status with
        req := { (responded (translated s inst i buffer cmd k t) cmd status).req with listData := d }
        listing := listingAfter conf.list cmd s.listing a
        posted := [.net] } rfl rfl
    rw [Option.map_some, Option.bind_some, Option.map_some]
    refine Eq.trans ?_ hpolls
    refine congrArg (Option.map _) ?_
    exact congrArg (fun r => Option.bind r fun r => polls conf cmd 1 r.2 r.1) hpoll

/-- The listing when the command is back at the network module, `none` when an assertion on the key
fails. -/
def endListing (conf : Conf) (cmd : Cmd) (L : ListContext) : Option ListContext :=
  if conf.listEnabled then
    (Listing.arrive conf.list L.rootPrefix cmd.key).map (listingAfter conf.list cmd L)
  else some L

theorem back_eq (h : s.AtRest) (htr : Translated conf cmd) {inst i : ℕ} {buffer : Memory}
    {k : KvtransReq} {t : ℤ} {rc : KvtransStatus} {status : ReqStatus}
    (hstatus : requestStatus conf rc .success = some status) (hne : status ≠ .error) :
    ((dssKvtransNetRequestComplete conf cmd rc (translated s inst i buffer cmd k t)).bind fun s =>
      (polls conf cmd 2 [] s).map fun r => dflyReqFini r.1) =
      (endListing conf cmd s.listing).map
        (finished s (dssNvmfGetDssOpc cmd.opc) k t buffer (respCpl cmd status k.valLength)) := by
  unfold endListing
  cases hon : conf.listEnabled with
  | false =>
    rw [back_net hon hstatus hne]
    rfl
  | true =>
    have hopc : cmd.opc ≠ .kvListRead := fun ho => htr ⟨hon, ho⟩
    rw [back_list hon hopc h.ready.listData hstatus hne, if_pos rfl, Option.map_map]
    rfl

theorem serve_eq (h : s.AtRest) (inst : ℕ) (buffer : Memory) (tr : Translation) :
    serve conf inst buffer cmd tr s =
      (polls conf cmd (tr.calls.length + 3) tr.calls (started inst buffer cmd s)).map
        fun r => dflyReqFini r.1 := by
  simp only [serve, setup_eq h inst buffer, Option.bind_eq_bind, Option.bind_some]
  cases polls conf cmd (tr.calls.length + 3) tr.calls (started inst buffer cmd s) <;> rfl

/-- A command goes through the translator and back. -/
theorem serve_translated (h : s.AtRest) (hkv : KvCmd cmd) (hnic : conf.testNicBw = false)
    (htr : Translated conf cmd) (hno : ¬(conf.asserts = true ∧ cmd.opc = .kvListRead)) (inst : ℕ)
    (buffer : Memory) (tr : Translation) :
    ∃ i k t, k.Freed ∧ serve conf inst buffer cmd tr s =
      (dssKvtransNetRequestComplete conf cmd tr.last.rc (translated s inst i buffer cmd k t)).bind
        fun s => (polls conf cmd 2 [] s).map fun r => dflyReqFini r.1 := by
  obtain ⟨i, k, t, hsub⟩ := poll_submit h hkv hnic htr hno inst buffer tr.calls
  obtain ⟨k', t', hwaits⟩ := polls_waits conf cmd tr.waits_open [tr.last]
    (submitted (started inst buffer cmd s) i k t) rfl
  obtain ⟨k'', t'', hfreed, hlast⟩ := handler_last conf cmd tr.last_ends
    (translated s inst i buffer cmd k' t')
  refine ⟨i, k'', t'', hfreed, ?_⟩
  have hlen : tr.calls.length + 3 = 1 + (tr.waits.length + (1 + 2)) := by
    simp only [Translation.calls, List.length_append, List.length_singleton]
    omega
  have hpoll : poll conf cmd [tr.last] ((submitted (started inst buffer cmd s) i k t).withKvt k' t') =
      (dssKvtransNetRequestComplete conf cmd tr.last.rc
        (translated s inst i buffer cmd k'' t'')).map fun s => (s, []) :=
    congrArg (Option.map fun s => (s, [])) hlast
  rw [serve_eq h, hlen, polls_add, polls_one, hsub, Option.bind_some, polls_add, Translation.calls,
    hwaits, Option.bind_some, polls_add, polls_one, hpoll]
  cases dssKvtransNetRequestComplete conf cmd tr.last.rc
    (translated s inst i buffer cmd k'' t'') <;> rfl

/-- A LIST_READ goes to the list module and back. -/
theorem serve_listRead (h : s.AtRest) (hnic : conf.testNicBw = false)
    (hon : conf.listEnabled = true) (hopc : cmd.opc = .kvListRead) (inst : ℕ) (buffer : Memory)
    (tr : Translation) :
    ∃ buffer' cpl, serve conf inst buffer cmd tr s =
      some (finished s .kvListRead s.req.kvt s.taskNum buffer' cpl s.listing) := by
  let zone := Listing.readZone conf.list s.listing.rootPrefix cmd.readCmd
  obtain ⟨reply, hreply⟩ := Option.isSome_iff_exists.1
    (listHandleReadOp_isSome s.listing.rootPrefix (h.entries zone) cmd buffer)
  -- the request in the ring of the list module, and its way back
  let s₁ : System := { started inst buffer cmd s with
    req := { (started inst buffer cmd s).req with netState := .submitted, listZone := zone }
    posted := [.list (Listing.instOf conf.list zone)] }
  let s₂ : System := { s₁ with
    buffer := reply.mem
    cpl := ⟨if reply.status = .success then .success else .list reply.status, reply.cdw0⟩
    posted := [.net] }
  have hstart : poll conf cmd tr.calls (started inst buffer cmd s) = some (s₁, tr.calls) := by
    simp [poll, started, dssNetRequestProcess, netLoop, netRound, hnic, hon, hopc,
      dssNvmfGetDssOpc, postList, System.setNetState, System.post, s₁, zone]
  have hlist : poll conf cmd tr.calls s₁ = some (s₂, tr.calls) := by
    simp only [poll, s₁, dflyListReqProcess, listIo, hopc]
    show Option.map _ (Option.map _ (Option.map _
      (Listing.listHandleReadOp s.listing.rootPrefix (s.listing.zones zone) cmd.readCmd buffer))) = _
    rw [hreply]
    rfl
  refine ⟨reply.mem, s₂.cpl, ?_⟩
  have hlen : tr.calls.length + 3 = 1 + (1 + (tr.calls.length + 1)) := by omega
  rw [serve_eq h, hlen, polls_add, polls_one, hstart, Option.bind_some, polls_add, polls_one, hlist,
    Option.bind_some, polls_complete conf cmd _ _ s₂ rfl rfl]
  show some (finished s₂ (dssNvmfGetDssOpc cmd.opc) _ _ _ _ _) = _
  rw [hopc]
  rfl

/-! ### The uses that end as they should -/

/-- The translator returns no error, a LIST_READ comes with the listing on, the pairs of a key fit the
list data, a STORE that was not done has nothing to list, and a RETRIEVE moves no root prefix. -/
structure Accepted (conf : Conf) (cmd : Cmd) (tr : Translation) (s : System) : Prop where
  rc : Translated conf cmd → tr.last.rc = .success ∨ tr.last.rc = .notFound
  listRead : conf.asserts = true → cmd.opc = .kvListRead → conf.listEnabled = true
  delimiters : conf.listEnabled = true → cmd.opc ≠ .kvListRead → cmd.key.count Listing.delim < 511
  store : conf.listEnabled = true → cmd.opc = .kvStore → tr.last.rc = .notFound →
    StoreListed conf.list s.listing cmd.key
  retrieve : conf.listEnabled = true → cmd.opc = .kvRetrieve → RootStays s.listing cmd.key

theorem arrive_isSome_iff (conf : Listing.Conf) (root : Bytes) {key : Bytes} (hkey : key ≠ []) :
    (Listing.arrive conf root key).isSome ↔ key.count Listing.delim < 511 := by
  have hlen := Listing.pairs_length key
  constructor
  · intro hsome
    by_contra hge
    rw [Listing.arrive_eq_none conf root (Or.inr (by omega))] at hsome
    cases hsome
  · intro hlt
    obtain ⟨d, harr, -⟩ := Listing.arrive_eq conf root hkey (by omega)
    rw [harr]
    rfl

theorem listingAfter_noEmpty (conf : Listing.Conf) (cmd : Cmd) {L : ListContext} (h : NoEmptyEntry L)
    (a : Listing.Arrival) : NoEmptyEntry (listingAfter conf cmd L a) := by
  unfold listingAfter
  split
  · exact doListIo_noEmpty conf _ _ _ _ _ _ _ h
  · exact doListIo_noEmpty conf _ _ _ _ _ _ _ h
  · exact h

theorem finished_atRest {opc : Opc} {k : KvtransReq} {t : ℤ} {buffer : Memory} {cpl : Cpl}
    {L : ListContext} (hk : k.Freed) (hL : NoEmptyEntry L) :
    (finished s opc k t buffer cpl L).AtRest :=
  ⟨⟨rfl, rfl, rfl, hk, rfl⟩, rfl, hL⟩

theorem endListing_eq_some {L L' : ListContext} (h : endListing conf cmd L = some L') :
    (conf.listEnabled = false ∧ L' = L) ∨
    (conf.listEnabled = true ∧ ∃ a, Listing.arrive conf.list L.rootPrefix cmd.key = some a ∧
      L' = listingAfter conf.list cmd L a) := by
  unfold endListing at h
  split at h
  case isTrue hon =>
    obtain ⟨a, ha, rfl⟩ := Option.map_eq_some_iff.1 h
    exact Or.inr ⟨hon, a, ha, rfl⟩
  case isFalse hoff =>
    cases h
    exact Or.inl ⟨Bool.eq_false_iff.2 hoff, rfl⟩

theorem endListing_isSome_iff (htr : Translated conf cmd) (L : ListContext) :
    (endListing conf cmd L).isSome ↔
      (conf.listEnabled = true → cmd.key.count Listing.delim < 511) := by
  unfold endListing
  split
  case isTrue hon =>
    have hkey : cmd.key ≠ [] := cmd.key_ne fun ho => htr ⟨hon, ho⟩
    rw [Option.isSome_map, arrive_isSome_iff conf.list _ hkey]
    exact ⟨fun hlt _ => hlt, fun hlt => hlt hon⟩
  case isFalse hoff =>
    simp only [Option.isSome_some, true_iff]
    exact fun hon => absurd hon hoff

theorem endListing_noEmpty {L L' : ListContext} (h : endListing conf cmd L = some L')
    (hL : NoEmptyEntry L) : NoEmptyEntry L' := by
  obtain ⟨-, rfl⟩ | ⟨-, a, -, rfl⟩ := endListing_eq_some h
  · exact hL
  · exact listingAfter_noEmpty conf.list cmd hL a

theorem endListing_retrieve {L L' : ListContext} (h : endListing conf cmd L = some L')
    (hs : cmd.opc ≠ .kvStore) (hd : cmd.opc ≠ .kvDelete) :
    L' = L ↔ (conf.listEnabled = true → RootStays L cmd.key) := by
  obtain ⟨hoff, rfl⟩ | ⟨hon, a, ha, rfl⟩ := endListing_eq_some h
  · simp [hoff]
  · have hafter : listingAfter conf.list cmd L a = { L with rootPrefix := a.rootPrefix } := by
      unfold listingAfter
      split
      · contradiction
      · contradiction
      · rfl
    rw [hafter, (Listing.arrive_some ha).2.2, ← Listing.rootAfter_eq_iff]
    constructor
    · exact fun heq _ => congrArg ListContext.rootPrefix heq
    · intro hroot
      rw [hroot hon]

theorem endListing_store {L L' : ListContext} (h : endListing conf cmd L = some L')
    (hs : cmd.opc = .kvStore) :
    L' = L ↔ (conf.listEnabled = true → StoreListed conf.list L cmd.key) := by
  obtain ⟨hoff, rfl⟩ | ⟨hon, a, ha, rfl⟩ := endListing_eq_some h
  · simp [hoff]
  · have hafter : listingAfter conf.list cmd L a = (Listing.listIo conf.list a.inst .store cmd.key
        { L with rootPrefix := a.rootPrefix } a.data).listing := by
      simp only [listingAfter, hs]
    rw [hafter, Listing.storePass_eq_iff ha]
    exact ⟨fun hl _ => hl, fun hl => hl hon⟩

theorem respCpl_success_iff {status : ReqStatus} (hne : status ≠ .error) (len : ℕ) :
    (respCpl cmd status len).status = .success ↔ (status = .success ∨ cmd.opc = .kvDelete) := by
  cases status with
  | success => simp [respCpl]
  | keyNotFound => by_cases ho : cmd.opc = .kvDelete <;> simp [respCpl, ho]
  | error => exact absurd rfl hne

theorem serve_some (h : s.AtRest) (hkv : KvCmd cmd) (hnic : conf.testNicBw = false)
    (htr : Translated conf cmd) (hno : ¬(conf.asserts = true ∧ cmd.opc = .kvListRead)) (inst : ℕ)
    (buffer : Memory) {tr : Translation} {status : ReqStatus}
    (hstatus : requestStatus conf tr.last.rc .success = some status) (hne : status ≠ .error) :
    ∃ k t, k.Freed ∧ serve conf inst buffer cmd tr s = (endListing conf cmd s.listing).map
      (finished s (dssNvmfGetDssOpc cmd.opc) k t buffer (respCpl cmd status k.valLength)) := by
  obtain ⟨i, k, t, hk, hserve⟩ := serve_translated h hkv hnic htr hno inst buffer tr
  exact ⟨k, t, hk, hserve.trans (back_eq h htr hstatus hne)⟩

theorem requestStatus_cases (conf : Conf) (rc : KvtransStatus) :
    (rc = .success ∧ requestStatus conf rc .success = some .success) ∨
    (rc = .notFound ∧ requestStatus conf rc .success = some .keyNotFound) ∨
    (rc ≠ .success ∧ rc ≠ .notFound ∧
      requestStatus conf rc .success = if conf.asserts = true then none else some .success) := by
  cases rc <;> simp [requestStatus, dssAssert] <;> split <;> simp_all

/-- The use of a translated command whose status is taken ends as it should, unless the code of the
translator or the listing of a STORE stand in the way. -/
theorem served_finished_iff (h : s.AtRest) (htr : Translated conf cmd) {tr : Translation}
    {status : ReqStatus} (hne : status ≠ .error) {k : KvtransReq} (hk : k.Freed) {t : ℤ}
    {buffer : Memory} {L' : ListContext} (hL : endListing conf cmd s.listing = some L') :
    Served conf cmd tr s
      (finished s (dssNvmfGetDssOpc cmd.opc) k t buffer (respCpl cmd status k.valLength) L') ↔
    ((status = .success ∨ cmd.opc = .kvDelete) ↔
      tr.last.rc = .success ∨ (cmd.opc = .kvDelete ∧ tr.last.rc = .notFound)) ∧
    (L' ≠ s.listing →
      (cmd.opc = .kvStore ∧ tr.last.rc = .success) ∨ cmd.opc = .kvDelete) := by
  constructor
  · rintro ⟨⟨cpl, hcpl, hiff⟩, hlist, -⟩
    have hc : respCpl cmd status k.valLength = cpl := by simpa [finished] using hcpl
    rw [← respCpl_success_iff hne k.valLength, hc]
    exact ⟨hiff htr, hlist⟩
  · rintro ⟨hiff, hlist⟩
    refine ⟨⟨_, rfl, fun _ => ?_⟩, hlist, finished_atRest hk (endListing_noEmpty hL h.entries)⟩
    rw [respCpl_success_iff hne k.valLength]
    exact hiff

theorem served_listRead (h : s.AtRest) (hnic : conf.testNicBw = false)
    (htr : ¬Translated conf cmd) (inst : ℕ) (buffer : Memory) (tr : Translation) :
    ∃ s', serve conf inst buffer cmd tr s = some s' ∧ Served conf cmd tr s s' := by
  obtain ⟨hon, hopc⟩ := not_not.1 htr
  obtain ⟨buffer', cpl, hserve⟩ := serve_listRead h hnic hon hopc inst buffer tr
  refine ⟨_, hserve, ⟨cpl, rfl, fun h' => absurd h' htr⟩, fun hz => absurd rfl hz, ?_⟩
  exact finished_atRest h.ready.kvt h.entries

theorem served_translated_iff (h : s.AtRest) (hkv : KvCmd cmd) (hnic : conf.testNicBw = false)
    (htr : Translated conf cmd) (hno : ¬(conf.asserts = true ∧ cmd.opc = .kvListRead)) (inst : ℕ)
    (buffer : Memory) {tr : Translation} {status : ReqStatus}
    (hstatus : requestStatus conf tr.last.rc .success = some status) (hne : status ≠ .error) :
    (∃ s', serve conf inst buffer cmd tr s = some s' ∧ Served conf cmd tr s s') ↔
      ∃ L', endListing conf cmd s.listing = some L' ∧
        ((status = .success ∨ cmd.opc = .kvDelete) ↔
          tr.last.rc = .success ∨ (cmd.opc = .kvDelete ∧ tr.last.rc = .notFound)) ∧
        (L' ≠ s.listing →
          (cmd.opc = .kvStore ∧ tr.last.rc = .success) ∨ cmd.opc = .kvDelete) := by
  obtain ⟨k, t, hk, hserve⟩ := serve_some h hkv hnic htr hno inst buffer hstatus hne
  rw [hserve]
  constructor
  · rintro ⟨s', hs', hserved⟩
    obtain ⟨L', hL', rfl⟩ := Option.map_eq_some_iff.1 hs'
    exact ⟨L', hL', (served_finished_iff h htr hne hk hL').1 hserved⟩
  · rintro ⟨L', hL', hprop⟩
    exact ⟨_, Option.map_eq_some_iff.2 ⟨L', hL', rfl⟩,
      (served_finished_iff h htr hne hk hL').2 hprop⟩

theorem listing_of_accepted (hkv : KvCmd cmd) (htr : Translated conf cmd) {tr : Translation}
    (hacc : Accepted conf cmd tr s) :
    ∃ L', endListing conf cmd s.listing = some L' ∧
      (L' ≠ s.listing →
        (cmd.opc = .kvStore ∧ tr.last.rc = .success) ∨ cmd.opc = .kvDelete) := by
  have hsome := (endListing_isSome_iff htr s.listing).2
    fun hon => hacc.delimiters hon fun ho => htr ⟨hon, ho⟩
  obtain ⟨L', hL'⟩ := Option.isSome_iff_exists.1 hsome
  refine ⟨L', hL', fun hz => ?_⟩
  by_cases hd : cmd.opc = .kvDelete
  · exact Or.inr hd
  · by_cases hs : cmd.opc = .kvStore
    · refine Or.inl ⟨hs, (hacc.rc htr).resolve_right fun hnf => hz ?_⟩
      exact (endListing_store hL' hs).2 fun hon => hacc.store hon hs hnf
    · refine absurd ((endListing_retrieve hL' hs hd).2 fun hon => hacc.retrieve hon ?_) hz
      rcases hkv with ho | ho | ho | ho
      · exact absurd ho hs
      · exact ho
      · exact absurd ho hd
      · exact absurd ⟨hon, ho⟩ htr

theorem served_of_accepted (h : s.AtRest) (hkv : KvCmd cmd) (hnic : conf.testNicBw = false)
    (inst : ℕ) (buffer : Memory) {tr : Translation} (hacc : Accepted conf cmd tr s) :
    ∃ s', serve conf inst buffer cmd tr s = some s' ∧ Served conf cmd tr s s' := by
  by_cases htr : Translated conf cmd
  case neg => exact served_listRead h hnic htr inst buffer tr
  have hno : ¬(conf.asserts = true ∧ cmd.opc = .kvListRead) := fun hno =>
    htr ⟨hacc.listRead hno.1 hno.2, hno.2⟩
  obtain ⟨L', hL', hzones⟩ := listing_of_accepted hkv htr hacc
  obtain ⟨hrc, hst⟩ | ⟨hrc, hst⟩ | ⟨hrc, hrc', -⟩ := requestStatus_cases conf tr.last.rc
  · rw [served_translated_iff h hkv hnic htr hno inst buffer hst (by decide)]
    exact ⟨L', hL', by simp [hrc], hzones⟩
  · rw [served_translated_iff h hkv hnic htr hno inst buffer hst (by decide)]
    exact ⟨L', hL', by simp [hrc], hzones⟩
  · rcases hacc.rc htr with hs | hnf
    · exact absurd hs hrc
    · exact absurd hnf hrc'

/-- A use: the network instance, the buffer, the command and the calls of the translator. -/
structure Use where
  inst : ℕ
  buffer : Memory
  cmd : Cmd
  tr : Translation

/-- One use after the other. -/
def serveAll (conf : Conf) : List Use → System → Option System
  | [], s => some s
  | u :: us, s => (serve conf u.inst u.buffer u.cmd u.tr s).bind (serveAll conf us)

/-- Every use is accepted in the state that it meets. -/
def AllAccepted (conf : Conf) : List Use → System → Prop
  | [], _ => True
  | u :: us, s => KvCmd u.cmd ∧ Accepted conf u.cmd u.tr s ∧
    ∀ s', serve conf u.inst u.buffer u.cmd u.tr s = some s' → AllAccepted conf us s'

/-- Every use of a request object completes its command once and leaves it for the next one. -/
theorem atRest_of_serveAll (hnic : conf.testNicBw = false) (us : List Use) (s : System)
    (h : s.AtRest) (hacc : AllAccepted conf us s) :
    ∃ s', serveAll conf us s = some s' ∧ s'.AtRest ∧
      s'.completed.length = s.completed.length + us.length := by
  induction us generalizing s with
  | nil => exact ⟨s, rfl, h, rfl⟩
  | cons u us ih =>
    obtain ⟨hkv, hu, hus⟩ := hacc
    obtain ⟨s₁, hs₁, hserved⟩ := served_of_accepted h hkv hnic u.inst u.buffer hu
    obtain ⟨s', hs', hrest, hlen⟩ := ih s₁ hserved.atRest (hus s₁ hs₁)
    obtain ⟨cpl, hcpl, -⟩ := hserved.completed
    refine ⟨s', ?_, hrest, ?_⟩
    · rw [serveAll, hs₁, Option.bind_some, hs']
    · rw [hlen, hcpl, List.length_append, List.length_singleton, List.length_cons]
      omega

/-! ### A STORE that is done, and a RETRIEVE that changes the listing -/

end DssSdk.Net
