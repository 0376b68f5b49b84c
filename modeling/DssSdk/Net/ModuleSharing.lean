import DssSdk.Net.SharingNodes

/-!
# References to shared network modules

* `Shared`: what holds in every state: the reference counts, the modules that run, the nodes of a
  subsystem that was started, and the callbacks;
* `initNextFrom_spec`, `destroyNextFrom_spec`: the chains, up to the next message;
* `work`: a bound on the steps of the framework;
* `shared_of_run`: no assertion fails in any run, every state is `Shared`, and the framework's steps
  come to an end, where every call has been called back once.
-/

namespace DssSdk.Net.Sharing

open Framework (NetDevInfo)

/-- The chain of a call has come to its end. -/
def State.Completed (s : State) (n : ℕ) : Prop := n ∈ s.called ∨ Msg.callback n ∈ s.posted

/-- A node has the running module of a device. -/
def State.Refers (s : State) (node : SsNode) (d : NetDevInfo) : Prop :=
  ∃ nm ∈ s.netModList, nm.devName = d.devName ∧ ∃ m, nm.module = some m ∧ node.module = some m

/-- The references to the modules.

* `refCnt`: a count is the number of nodes, and not zero; `device`: a device has one module;
* `startedOnce`, `stoppedOnce`, `running`: a module is started once, stopped at most once, and has
  been stopped just when no node refers to it; until then it is the module of its device;
* `complete`: a subsystem that was started has one node for each device of its list, with the module
  of the device; `removed`: one that was stopped has no nodes;
* `once`: every call has been called back once, or one message for it waits. -/
structure Shared (s : State) : Prop where
  refCnt : ∀ nm ∈ s.netModList, ∃ m, nm.module = some m ∧ nm.refCnt = s.nodes m ∧ 0 < nm.refCnt
  device : (s.netModList.map NetModule.devName).Nodup
  startedOnce : (s.started.map Prod.fst).Nodup
  stoppedOnce : s.stopped.Nodup
  running : ∀ m d, (m, d) ∈ s.started →
    (m ∈ s.stopped ↔ s.nodes m = 0) ∧
      (m ∉ s.stopped → ∃ nm ∈ s.netModList, nm.module = some m ∧ nm.devName = d)
  complete : ∀ n ss devList, s.calls[n]? = some (.start ss devList) → s.Completed n →
    Call.stop n ∉ s.calls →
      ∃ nodes, s.subsysLists n = some nodes ∧ List.Forall₂ s.Refers nodes devList
  removed : ∀ n l, s.calls[n]? = some (.stop l) → s.Completed n → s.subsysLists l = none
  once : (s.called ++ s.waiting.map Msg.cbEvent).Perm (List.range s.calls.length)

section

variable {s : State}

/-! ### The work that is left -/

/-- A bound on the steps that a message leads to. -/
def Msg.weight (s : State) : Msg → ℕ
  | .initNext e => 2 * e.rest.length + 2
  | .destroyNext e => 2 * ((s.subsysLists e.nmSubsys).getD []).length + 2
  | .callback _ => 1

/-- A bound on the steps of the framework from a state. -/
def State.work (s : State) : ℕ :=
  (s.held.map fun x => x.2.weight s + 1).sum + (s.posted.map (Msg.weight s)).sum

theorem weight_congr {s' : State} {msg : Msg}
    (h : ∀ l, msg.nmSubsys = some l → s'.subsysLists l = s.subsysLists l) :
    msg.weight s' = msg.weight s := by
  cases msg with
  | initNext e => rfl
  | destroyNext e => simp only [Msg.weight, h e.nmSubsys rfl]
  | callback n => rfl

theorem work_congr {s' : State} {l : ℕ}
    (hlists : ∀ l', l' ≠ l → s'.subsysLists l' = s.subsysLists l')
    (hne : ∀ msg ∈ s.waiting, msg.nmSubsys ≠ some l) :
    (s.held.map fun x => x.2.weight s' + 1).sum + (s.posted.map (Msg.weight s')).sum = s.work := by
  have hw : ∀ msg ∈ s.waiting, msg.weight s' = msg.weight s := by
    intro msg hmsg
    apply weight_congr
    intro l' hl'
    refine hlists l' fun heq => hne msg hmsg ?_
    rw [hl', heq]
  have hheld : (s.held.map fun x => x.2.weight s' + 1) = s.held.map fun x => x.2.weight s + 1 := by
    apply List.map_congr_left
    intro x hx
    rw [hw x.2 (List.mem_append_left _ (List.mem_map_of_mem hx))]
  have hposted : s.posted.map (Msg.weight s') = s.posted.map (Msg.weight s) := by
    apply List.map_congr_left
    intro msg hmsg
    exact hw msg (List.mem_append_right _ hmsg)
  rw [hheld, hposted]
  rfl

theorem work_held {t : State} {l : ℕ} {x : ℕ × Msg} (hheld : t.held = s.held ++ [x])
    (hposted : t.posted = s.posted) (hlists : ∀ l', l' ≠ l → t.subsysLists l' = s.subsysLists l')
    (hne : ∀ msg ∈ s.waiting, msg.nmSubsys ≠ some l) : t.work = s.work + x.2.weight t + 1 := by
  have hwork := work_congr hlists hne
  rw [State.work, hheld, hposted, List.map_append, List.sum_append, List.map_singleton,
    List.sum_singleton]
  omega

theorem work_callback {s' : State} {l n : ℕ} (hheld : s'.held = s.held)
    (hposted : s'.posted = s.posted ++ [.callback n])
    (hlists : ∀ l', l' ≠ l → s'.subsysLists l' = s.subsysLists l')
    (hne : ∀ msg ∈ s.waiting, msg.nmSubsys ≠ some l) : s'.work = s.work + 1 := by
  have hwork := work_congr hlists hne
  rw [State.work, hheld, hposted, List.map_append, List.sum_append, List.map_singleton,
    List.sum_singleton, ← hwork, Nat.add_assoc]
  rfl

/-! ### One event -/

/-- No other message works on the list of the message that is being executed. -/
theorem Inv.others {msg : Msg} {l : ℕ} (h : Inv s [msg]) (hl : msg.nmSubsys = some l) :
    ∀ msg' ∈ s.waiting, msg'.nmSubsys ≠ some l :=
  fun _ hmsg' => h.call.other hl hmsg'

theorem Inv.share {ss l cb : ℕ} {d : NetDevInfo} {rest : List NetDevInfo} {nm : NetModule}
    {ns : List SsNode} (h : Inv s [.initNext ⟨ss, d :: rest, l, cb⟩]) (hnm : nm ∈ s.netModList)
    (hdev : nm.devName = d.devName) (hns : s.subsysLists l = some ns) :
    Inv (s.share nm l ns) [.initNext ⟨ss, rest, l, cb⟩] ∧ (s.share nm l ns).work = s.work := by
  obtain ⟨m, st, hm, -, -, -, -, hstart⟩ := h.net.net nm hnm
  refine ⟨⟨h.net.share hnm hns, h.held.share nm hns, ?_⟩, ?_⟩
  · exact h.call.push (x := ⟨nm.module⟩) hns rfl rfl rfl rfl (fun _ hx => hx)
      ⟨m, hm, hdev ▸ hstart⟩
  · exact work_congr (fun l' hl' => Function.update_of_ne hl' _ _) (h.others rfl)

theorem Inv.create {ss l cb : ℕ} {d : NetDevInfo} {rest : List NetDevInfo} {ns : List SsNode}
    (h : Inv s [.initNext ⟨ss, d :: rest, l, cb⟩]) (hns : s.subsysLists l = some ns)
    (hnew : ∀ nm ∈ s.netModList, nm.devName ≠ d.devName) :
    Inv (s.create d ⟨ss, rest, l, cb⟩ ns) [] ∧
      (s.create d ⟨ss, rest, l, cb⟩ ns).work = s.work + (2 * rest.length + 2) + 1 := by
  refine ⟨⟨h.net.create d hns hnew, h.held.create h.net d hns, ?_⟩, ?_⟩
  · have hpush := h.call.push (t := s.create d ⟨ss, rest, l, cb⟩ ns)
      (x := ⟨some (s.brk + 1)⟩) hns rfl rfl rfl rfl (fun _ hx => List.mem_append_left _ hx)
      ⟨s.brk + 1, rfl, List.mem_append_right _ (List.mem_singleton_self _)⟩
    apply hpush.of_perm
    show (Msg.initNext ⟨ss, rest, l, cb⟩ :: s.waiting).Perm
      ((s.held ++ [(_, _)]).map Prod.snd ++ s.posted)
    rw [List.map_append, List.append_assoc]
    exact List.perm_middle.symm
  · exact work_held (t := s.create d ⟨ss, rest, l, cb⟩ ns) rfl rfl
      (fun l' hl' => Function.update_of_ne hl' _ _) (h.others rfl)

theorem Inv.started {ss l cb : ℕ} (h : Inv s [.initNext ⟨ss, [], l, cb⟩]) :
    Inv (cbEventComplete { s with subsysCtx := Function.update s.subsysCtx ss (some l) } cb) [] ∧
      (cbEventComplete { s with subsysCtx := Function.update s.subsysCtx ss (some l) } cb).work =
        s.work + 1 := by
  refine ⟨?_, work_callback rfl rfl (fun _ _ => rfl) (h.others rfl)⟩
  refine ⟨⟨h.net.1, h.net.2, h.net.3, h.net.4, h.net.5, h.net.6, h.net.7, h.net.8, h.net.9,
    h.net.10⟩, ⟨h.held.1, h.held.2, h.held.3⟩, ?_⟩
  have hcall := h.call.started.congr (t := cbEventComplete
    { s with subsysCtx := Function.update s.subsysCtx ss (some l) } cb) rfl rfl rfl rfl rfl
  apply hcall.of_perm
  show (Msg.callback cb :: s.waiting).Perm (s.held.map Prod.snd ++ (s.posted ++ [Msg.callback cb]))
  rw [← List.append_assoc]
  exact (List.perm_append_singleton ..).symm

theorem Inv.pointee {extra : List Msg} (h : Inv s extra) {l : ℕ} {node : SsNode} {ns : List SsNode}
    (hns : s.subsysLists l = some (node :: ns)) :
    ∃ nm ∈ s.netModList, ∃ m st, node = ⟨some m⟩ ∧ nm.module = some m ∧
      s.modules m = some ⟨nm.addr, st⟩ ∧ st ≠ .unloading ∧ nm.refCnt = s.nodes m ∧ 0 < nm.refCnt := by
  obtain ⟨nm, hnm, hnode⟩ := h.net.node l _ hns node List.mem_cons_self
  obtain ⟨m, st, hm, hmod, hst, href, hpos, -⟩ := h.net.net nm hnm
  refine ⟨nm, hnm, m, st, ?_, hm, hmod, hst, href, hpos⟩
  rw [← hm, ← hnode]

theorem Inv.release {e : DestroyEvent} {nm : NetModule} {m : ℕ} {ns : List SsNode}
    (h : Inv s [.destroyNext e]) (hnm : nm ∈ s.netModList)
    (hns : s.subsysLists e.nmSubsys = some (⟨some m⟩ :: ns)) (hm : nm.module = some m)
    (hlast : nm.refCnt - 1 ≠ 0) :
    Inv (s.release nm e.nmSubsys ns) [.destroyNext e] ∧
      (s.release nm e.nmSubsys ns).work = s.work := by
  have hset := h.held.setList_of_ne (some ns) (h.others rfl)
  refine ⟨⟨h.net.release hnm hns hm hlast, ⟨hset.1, hset.2, hset.3⟩, ?_⟩, ?_⟩
  · exact h.call.pop rfl rfl rfl rfl rfl
  · exact work_congr (fun l' hl' => Function.update_of_ne hl' _ _) (h.others rfl)

/-- The module of the last node has started: the chain that waits for it would have a node too. -/
theorem Inv.loaded {e : DestroyEvent} {nm : NetModule} {m : ℕ} {st : LoadState} {ns : List SsNode}
    (h : Inv s [.destroyNext e]) (hns : s.subsysLists e.nmSubsys = some (⟨some m⟩ :: ns))
    (hmod : s.modules m = some ⟨nm.addr, st⟩) (hst : st ≠ .unloading) (href : nm.refCnt = s.nodes m)
    (hlast : nm.refCnt - 1 = 0) : st = .loaded := by
  cases st with
  | loaded => rfl
  | unloading => exact absurd rfl hst
  | loading =>
    obtain ⟨e', ns', he', hns', hmem⟩ := h.held.loading m _ hmod
    have hne : e'.nmSubsys ≠ e.nmSubsys := by
      intro heq
      exact h.others rfl _ (List.mem_append_left _ (List.mem_map_of_mem he')) (congrArg some heq)
    have hsum := nodes_setList (h.net.list_lt _ _ hns) (some ns) m
    have hpos : 0 < (s.setList e.nmSubsys (some ns)).nodes m :=
      nodes_pos (s := s.setList e.nmSubsys (some ns)) (h.net.list_lt _ _ hns')
        ((Function.update_of_ne hne _ _).trans hns') hmem
    rw [hns, Option.getD_some, Option.getD_some, List.count_cons_self] at hsum
    omega

theorem Inv.remove {e : DestroyEvent} {nm : NetModule} {m : ℕ} {ns : List SsNode}
    (h : Inv s [.destroyNext e]) (hnm : nm ∈ s.netModList)
    (hns : s.subsysLists e.nmSubsys = some (⟨some m⟩ :: ns)) (hm : nm.module = some m)
    (hmod : s.modules m = some ⟨nm.addr, .loaded⟩) (hlast : nm.refCnt - 1 = 0) :
    Inv (s.remove nm m e ns) [] ∧ (s.remove nm m e ns).work = s.work + (2 * ns.length + 2) + 1 := by
  refine ⟨⟨h.net.remove hnm hns hm hlast, h.held.remove hmod (h.others rfl), ?_⟩, ?_⟩
  · have hpop := h.call.pop (t := s.remove nm m e ns) rfl rfl rfl rfl rfl
    apply hpop.of_perm
    show (Msg.destroyNext e :: s.waiting).Perm ((s.held ++ [(_, _)]).map Prod.snd ++ s.posted)
    rw [List.map_append, List.append_assoc]
    exact List.perm_middle.symm
  · have hwork := work_held (t := s.remove nm m e ns) rfl rfl
      (fun l' hl' => Function.update_of_ne hl' _ _) (h.others rfl)
    have hw : Msg.weight (s.remove nm m e ns) (.destroyNext e) = 2 * ns.length + 2 := by
      show 2 * ((Function.update s.subsysLists e.nmSubsys (some ns) e.nmSubsys).getD []).length + 2 = _
      rw [Function.update_self, Option.getD_some]
    rw [hwork, hw]

theorem NetInv.free (h : NetInv s) {l : ℕ} (hns : s.subsysLists l = some []) :
    NetInv (s.setList l none) := by
  have hnodes : ∀ m, (s.setList l none).nodes m = s.nodes m := by
    intro m
    have hsum := nodes_setList (h.list_lt l _ hns) none m
    rw [hns] at hsum
    exact hsum
  have hlists : ∀ n ns, (s.setList l none).subsysLists n = some ns → s.subsysLists n = some ns := by
    intro n ns hn
    change Function.update s.subsysLists l none n = some ns at hn
    by_cases hnl : n = l
    · rw [hnl, Function.update_self] at hn
      cases hn
    · rwa [Function.update_of_ne hnl] at hn
  refine ⟨h.1, h.2, h.3, h.4, h.5, ?_, ?_, ?_, h.9, h.10⟩
  · intro nm hnm
    obtain ⟨m, st, hm, hmod, hst, href, hrest⟩ := h.net nm hnm
    exact ⟨m, st, hm, hmod, hst, (hnodes m).symm ▸ href, hrest⟩
  · exact fun n ns hn => h.node n ns (hlists n ns hn)
  · exact fun n ns hn => h.list_lt n ns (hlists n ns hn)

theorem Inv.stopped {e : DestroyEvent} (h : Inv s [.destroyNext e])
    (hns : s.subsysLists e.nmSubsys = some []) :
    Inv ((cbEventComplete s e.cbEvent).setList e.nmSubsys none) [] ∧
      ((cbEventComplete s e.cbEvent).setList e.nmSubsys none).work = s.work + 1 := by
  have hset := h.held.setList_of_ne none (h.others rfl)
  have hnet := h.net.free hns
  refine ⟨⟨⟨hnet.1, hnet.2, hnet.3, hnet.4, hnet.5, hnet.6, hnet.7, hnet.8, hnet.9, hnet.10⟩,
    ⟨hset.1, hset.2, hset.3⟩, ?_⟩, ?_⟩
  · have hcall := h.call.stopped.congr
      (t := (cbEventComplete s e.cbEvent).setList e.nmSubsys none) rfl rfl rfl rfl rfl
    apply hcall.of_perm
    show (Msg.callback e.cbEvent :: s.waiting).Perm
      (s.held.map Prod.snd ++ (s.posted ++ [Msg.callback e.cbEvent]))
    rw [← List.append_assoc]
    exact (List.perm_append_singleton ..).symm
  · exact work_callback rfl rfl (fun l' hl' => Function.update_of_ne hl' _ _) (h.others rfl)

/-! ### The chains -/

theorem map_snoc_addr {nms : List NetModule} {m : NetModule} {a : ℕ}
    (hne : ∀ nm' ∈ nms, nm'.addr ≠ a) (ha : m.addr = a) (f : NetModule → NetModule) :
    (nms ++ [m]).map (fun nm' => if nm'.addr = a then f nm' else nm') = nms ++ [f m] := by
  rw [List.map_append, List.map_singleton, if_pos ha]
  congr 1
  calc nms.map (fun nm' => if nm'.addr = a then f nm' else nm') = nms.map id := by
        apply List.map_congr_left
        intro nm' hnm'
        rw [if_neg (hne nm' hnm'), id]
    _ = nms := List.map_id nms

theorem initNextFrom_share (h : NetInv s) {ss l cb : ℕ} {d : NetDevInfo} {rest : List NetDevInfo}
    {nm : NetModule} {ns : List SsNode}
    (hfind : (s.netModList.find? fun nm => nm.devName = d.devName) = some nm)
    (hns : s.subsysLists l = some ns) :
    initNextFrom ss l cb s (d :: rest) = initNextFrom ss l cb (s.share nm l ns) rest := by
  have hnm := List.mem_of_find?_eq_some hfind
  have hget : (s.modifyNet nm.addr dssNetModuleGet).netModule nm.addr = some (dssNetModuleGet nm) := by
    rw [netModule_modifyNet s nm.addr (f := dssNetModuleGet) fun _ => rfl, h.netModule hnm]
    rfl
  have hlist : (s.modifyNet nm.addr dssNetModuleGet).subsysLists l = some ns := hns
  simp only [initNextFrom, dssNetModuleInit, hfind, reduceCtorEq, if_false, hget, Option.bind_some,
    hlist, if_true]
  rfl

theorem initNextFrom_create (h : NetInv s) {ss l cb : ℕ} {d : NetDevInfo} {rest : List NetDevInfo}
    {ns : List SsNode} (hfind : (s.netModList.find? fun nm => nm.devName = d.devName) = none)
    (hns : s.subsysLists l = some ns) :
    initNextFrom ss l cb s (d :: rest) = some (s.create d ⟨ss, rest, l, cb⟩ ns, .success) := by
  have hne : ∀ nm' ∈ s.netModList, nm'.addr ≠ s.brk := fun nm' hnm' => (h.addr_lt nm' hnm').ne
  have hinit : dssNetModuleInit s d.devName d.ip =
      ({ s with netModList := s.netModList ++ [⟨s.brk, none, d.devName, d.ip, 1⟩], brk := s.brk + 1 },
        s.brk, .modCreated) := by
    have hmap := map_snoc_addr (m := ⟨s.brk, none, d.devName, d.ip, 0⟩) hne rfl dssNetModuleGet
    simp only [dssNetModuleInit, hfind, State.modifyNet, hmap]
    rfl
  have hmap := map_snoc_addr (m := ⟨s.brk, none, d.devName, d.ip, 1⟩) hne rfl
    fun nm => { nm with module := some (s.brk + 1) }
  have hget : (s.netModList ++ [NetModule.mk s.brk (some (s.brk + 1)) d.devName d.ip 1]).find?
      (fun nm => decide (nm.addr = s.brk)) = some ⟨s.brk, some (s.brk + 1), d.devName, d.ip, 1⟩ := by
    rw [List.find?_append, List.find?_eq_none.2 (by simpa using hne)]
    simp
  simp only [initNextFrom, hinit, dflyModuleStart, State.modifyNet, hmap, if_true, State.netModule,
    hget, Option.bind_some, hns, reduceCtorEq, if_false]
  rfl

/-- A chain of starts goes on to the next module that has to start, or to its end. -/
theorem initNextFrom_spec {ss l cb : ℕ} {rest : List NetDevInfo}
    (h : Inv s [.initNext ⟨ss, rest, l, cb⟩]) :
    ∃ s' rc, initNextFrom ss l cb s rest = some (s', rc) ∧ (rc = .success ∨ rc = .initialized) ∧
      Inv s' [] ∧ s'.work < s.work + (2 * rest.length + 2) := by
  induction rest generalizing s with
  | nil =>
    obtain ⟨hinv, hwork⟩ := h.started
    refine ⟨_, _, rfl, Or.inr rfl, hinv, ?_⟩
    rw [hwork, List.length_nil]
    omega
  | cons d rest ih =>
    obtain ⟨-, -, _, ns, -, hns, -⟩ := h.call.init _ List.mem_cons_self
    cases hfind : s.netModList.find? fun nm => nm.devName = d.devName with
    | some nm =>
      have hdev : nm.devName = d.devName := by simpa using List.find?_some hfind
      obtain ⟨hinv, hwork⟩ := h.share (List.mem_of_find?_eq_some hfind) hdev hns
      obtain ⟨s', rc, heq, hrc, hinv', hlt⟩ := ih hinv
      refine ⟨s', rc, (initNextFrom_share h.net hfind hns).trans heq, hrc, hinv', ?_⟩
      rw [List.length_cons]
      omega
    | none =>
      have hnew : ∀ nm ∈ s.netModList, nm.devName ≠ d.devName := by
        simpa using List.find?_eq_none.1 hfind
      obtain ⟨hinv, hwork⟩ := h.create hns hnew
      refine ⟨_, _, initNextFrom_create h.net hfind hns, Or.inl rfl, hinv, ?_⟩
      rw [hwork, List.length_cons]
      omega

theorem filter_map_addr (nms : List NetModule) (a : ℕ) (f : NetModule → NetModule)
    (hf : ∀ nm, (f nm).addr = nm.addr) :
    (nms.map fun nm => if nm.addr = a then f nm else nm).filter (fun nm => nm.addr ≠ a) =
      nms.filter fun nm => nm.addr ≠ a := by
  induction nms with
  | nil => rfl
  | cons nm nms ih =>
    rw [List.map_cons]
    by_cases ha : nm.addr = a
    · rw [if_pos ha, List.filter_cons_of_neg (by simp [hf, ha]),
        List.filter_cons_of_neg (by simp [ha]), ih]
    · rw [if_neg ha, List.filter_cons_of_pos (by simpa using ha),
        List.filter_cons_of_pos (by simpa using ha), ih]

/-- A chain of stops goes on to the next module that has to stop, or to its end. -/
theorem destroyNextFrom_spec {e : DestroyEvent} {ns : List SsNode} (h : Inv s [.destroyNext e])
    (hns : s.subsysLists e.nmSubsys = some ns) :
    ∃ s' rc, destroyNextFrom e.nmSubsys e.cbEvent s ns = some (s', rc) ∧ Inv s' [] ∧
      s'.work < s.work + (2 * ns.length + 2) := by
  induction ns generalizing s with
  | nil =>
    obtain ⟨hinv, hwork⟩ := h.stopped hns
    refine ⟨_, _, rfl, hinv, ?_⟩
    rw [hwork, List.length_nil]
    omega
  | cons node ns ih =>
    obtain ⟨nm, hnm, m, st, rfl, hm, hmod, hst, href, hpos⟩ := h.pointee hns
    have hmod' : (s.setList e.nmSubsys (some ns)).modules m = some ⟨nm.addr, st⟩ := hmod
    have hget : (s.setList e.nmSubsys (some ns)).netModule nm.addr = some nm := h.net.netModule hnm
    have hpos' : nm.refCnt ≠ 0 := hpos.ne'
    by_cases hlast : nm.refCnt - 1 = 0
    · obtain rfl := h.loaded hns hmod hst href hlast
      obtain ⟨hinv, hwork⟩ := h.remove hnm hns hm hmod hlast
      refine ⟨s.remove nm m e ns, .modDestroyPending, ?_, hinv, ?_⟩
      · simp only [destroyNextFrom, Option.bind_some, hmod', dssNetModuleDestroy, hget, hpos',
          if_false, hlast, if_true, State.modifyNet, filter_map_addr _ nm.addr dssNetModulePut
            (fun _ => rfl), dflyModuleStop, Option.map_some]
        rfl
      · rw [hwork, List.length_cons]
        omega
    · obtain ⟨hinv, hwork⟩ := h.release hnm hns hm hlast
      have hns' : (s.release nm e.nmSubsys ns).subsysLists e.nmSubsys = some ns :=
        Function.update_self ..
      obtain ⟨s', rc, heq, hinv', hlt⟩ := ih hinv hns'
      refine ⟨s', rc, ?_, hinv', ?_⟩
      · simp only [destroyNextFrom, Option.bind_some, hmod', dssNetModuleDestroy, hget, hpos',
          if_false, hlast, reduceCtorEq]
        exact heq
      · rw [List.length_cons]
        omega

/-! ### One step -/

theorem nodes_call (h : NetInv s) {s' : State} {c : Call} (hcalls : s'.calls = s.calls ++ [c])
    (hlists : ∀ n, (s'.subsysLists n).getD [] = (s.subsysLists n).getD []) (m : ℕ) :
    s'.nodes m = s.nodes m := by
  have hnone : s.subsysLists s.calls.length = none := by
    by_contra hne
    obtain ⟨ns, hns⟩ := Option.ne_none_iff_exists'.1 hne
    exact (h.list_lt _ ns hns).ne rfl
  unfold State.nodes
  rw [hcalls, List.length_append, List.length_singleton, Finset.sum_range_succ, hlists, hnone]
  simp only [hlists, Option.getD_none, List.count_nil, Nat.add_zero]

/-- The net modules after a call, with the lists as they were or one new empty list. -/
theorem NetInv.call (h : NetInv s) {t : State} {c : Call} (hnet : t.netModList = s.netModList)
    (hmod : t.modules = s.modules) (hbrk : t.brk = s.brk) (hstarted : t.started = s.started)
    (hstopped : t.stopped = s.stopped) (hcalls : t.calls = s.calls ++ [c])
    (hlists : ∀ n, (t.subsysLists n).getD [] = (s.subsysLists n).getD [])
    (hlt : ∀ n ns, t.subsysLists n = some ns → n < t.calls.length) : NetInv t := by
  refine ⟨hnet ▸ h.1, hnet ▸ h.2, ?_, ?_, ?_, ?_, ?_, hlt, hstarted ▸ h.9, ?_⟩
  · rw [hnet, hbrk]
    exact h.addr_lt
  · rw [hmod, hbrk]
    exact h.mod_lt
  · rw [hstarted, hbrk]
    exact h.started_lt
  · intro nm hnm
    obtain ⟨m, st, hm, hmod', hst, href, hpos, hstart⟩ := h.net nm (hnet ▸ hnm)
    refine ⟨m, st, hm, hmod ▸ hmod', hst, ?_, hpos, hstarted ▸ hstart⟩
    rw [nodes_call h hcalls hlists]
    exact href
  · intro n ns hns node hnode
    rw [hnet]
    have hget := hlists n
    rw [hns, Option.getD_some] at hget
    cases hold : s.subsysLists n with
    | none =>
      rw [hold] at hget
      rw [hget] at hnode
      cases hnode
    | some ns₁ =>
      rw [hold, Option.getD_some] at hget
      exact h.node n ns₁ hold node (hget ▸ hnode)
  · rw [hstarted, hstopped, hnet]
    exact h.perm

/-- A call of `dss_net_module_subsys_start`. -/
theorem Inv.subsysStart (h : Inv s []) (ss : ℕ) (devList : List NetDevInfo) :
    ∃ s', step s (.subsysStart ss devList) = some s' ∧ Inv s' [] := by
  have hnone : ∀ ns, s.subsysLists s.calls.length ≠ some ns := fun ns hns =>
    (h.net.list_lt _ ns hns).ne rfl
  set s₁ := State.setList { s with calls := s.calls ++ [.start ss devList] } s.calls.length (some [])
    with hs₁
  have hinv : Inv s₁ [.initNext ⟨ss, devList, s.calls.length, s.calls.length⟩] := by
    refine ⟨h.net.call (t := s₁) rfl rfl rfl rfl rfl rfl ?_ ?_, ?_, h.call.start ss devList⟩
    · intro n
      show (Function.update s.subsysLists s.calls.length (some []) n).getD [] = _
      by_cases hn : n = s.calls.length
      · subst hn
        rw [Function.update_self]
        cases hl : s.subsysLists s.calls.length with
        | none => rfl
        | some ns => exact absurd hl (hnone ns)
      · rw [Function.update_of_ne hn]
    · intro n ns hns
      change Function.update s.subsysLists s.calls.length (some []) n = some ns at hns
      show n < (s.calls ++ [_]).length
      rw [List.length_append, List.length_singleton]
      by_cases hn : n = s.calls.length
      · omega
      · rw [Function.update_of_ne hn] at hns
        exact Nat.lt_succ_of_lt (h.net.list_lt n ns hns)
    · have hset := h.held.setList (l := s.calls.length) (o := some [])
        fun m e ns _ _ hns _ => absurd hns (hnone ns)
      exact ⟨hset.1, hset.2, hset.3⟩
  obtain ⟨s', rc, heq, hrc, hinv', -⟩ := initNextFrom_spec hinv
  refine ⟨s', ?_, hinv'⟩
  have hinit : initNext s₁ ⟨ss, devList, s.calls.length, s.calls.length⟩ = some (s', rc) := heq
  have hrecord : (s.record (.subsysStart ss devList)).setList s.calls.length (some []) = s₁ := rfl
  simp only [step, dssNetModuleSubsysStart, hrecord, hinit, Option.map_some, if_pos hrc]

/-- A call of `dss_net_module_subsys_stop`. -/
theorem Inv.subsysStop (h : Inv s []) {ss l : ℕ} (hl : s.subsysCtx ss = some l)
    (hstop : Call.stop l ∉ s.calls) : ∃ s', step s (.subsysStop ss) = some s' ∧ Inv s' [] := by
  set s₁ : State := { s with calls := s.calls ++ [.stop l] } with hs₁
  have hinv : Inv s₁ [.destroyNext ⟨l, s.calls.length⟩] := by
    refine ⟨h.net.call (t := s₁) rfl rfl rfl rfl rfl rfl (fun _ => rfl) ?_,
      ⟨h.held.1, h.held.2, h.held.3⟩, h.call.stop hl hstop⟩
    intro n ns hns
    rw [hs₁, List.length_append]
    exact Nat.lt_add_right _ (h.net.list_lt n ns hns)
  obtain ⟨⟨ns, hns⟩, -⟩ := hinv.call.destroy _ List.mem_cons_self
  obtain ⟨s', rc, heq, hinv', -⟩ := destroyNextFrom_spec hinv hns
  refine ⟨s', ?_, hinv'⟩
  have hdestroy : destroyNext s₁ ⟨l, s.calls.length⟩ = some (s', rc) := by
    rw [destroyNext, hns]
    exact heq
  have hrecord : s.record (.subsysStop ss) = s₁ := by
    simp only [State.record, Action.call, hl]
    rfl
  have hl₁ : s₁.subsysCtx ss = some l := hl
  simp only [step, dssNetModuleSubsysStop, hrecord, hl₁, Option.bind_some, hdestroy, Option.map_some]

/-- A module has started or stopped. -/
theorem Inv.complete (h : Inv s []) {i : ℕ} (hi : i < s.held.length) :
    ∃ s', step s (.complete i) = some s' ∧ Inv s' [] ∧ s'.work < s.work := by
  obtain ⟨⟨m, msg⟩, hx⟩ : ∃ x, s.held[i]? = some x := ⟨_, List.getElem?_eq_getElem hi⟩
  have hperm : s.held.Perm ((m, msg) :: s.held.eraseIdx i) := by
    obtain ⟨hi', hget⟩ := List.getElem?_eq_some_iff.1 hx
    rw [← hget]
    exact (List.getElem_cons_eraseIdx_perm hi').symm
  have hmem : (m, msg) ∈ s.held := hperm.mem_iff.2 List.mem_cons_self
  have hnodup := (hperm.map Prod.fst).nodup_iff.1 h.held.nodup
  rw [List.map_cons, List.nodup_cons] at hnodup
  have hother : ∀ x ∈ s.held.eraseIdx i, x.1 ≠ m := by
    intro x hx' heq
    have hfst := List.mem_map_of_mem (f := Prod.fst) hx'
    rw [heq] at hfst
    exact hnodup.1 hfst
  obtain ⟨ctx, st, hmod, hst⟩ := h.held.held _ hmem
  have hwaiting : s.waiting.Perm ((s.held.eraseIdx i).map Prod.snd ++ (s.posted ++ [msg])) := by
    refine ((hperm.map Prod.snd).append_right s.posted).trans ?_
    rw [← List.append_assoc]
    exact (List.perm_append_singleton ..).symm
  -- the new value of the module: it is loaded, or gone
  have hgoal : ∀ o : Option DflyModule, (∀ dm, o = some dm → dm.state = .loaded ∧ dm.ctx = ctx) →
      (st = .loading → o ≠ none) →
      Inv { s with
        held := s.held.eraseIdx i, posted := s.posted ++ [msg],
        modules := Function.update s.modules m o } [] := by
    intro o ho hload
    refine ⟨⟨h.net.1, h.net.2, h.net.3, ?_, h.net.5, ?_, h.net.7, h.net.8, h.net.9, h.net.10⟩,
      ⟨hnodup.2, ?_, ?_⟩, ?_⟩
    · intro m' dm hm'
      change Function.update s.modules m o m' = some dm at hm'
      by_cases heq : m' = m
      · exact heq ▸ h.net.mod_lt m _ hmod
      · rw [Function.update_of_ne heq] at hm'
        exact h.net.mod_lt m' dm hm'
    · intro nm hnm
      obtain ⟨m', st', hm', hmod', hst', hrest⟩ := h.net.net nm hnm
      by_cases heq : m' = m
      · subst heq
        rw [hmod] at hmod'
        cases hmod'
        have hloading : st = .loading := by
          cases st with
          | loading => rfl
          | loaded => exact absurd rfl hst
          | unloading => exact absurd rfl hst'
        obtain ⟨⟨ctx', st₁⟩, ho'⟩ := Option.ne_none_iff_exists'.1 (hload hloading)
        obtain ⟨hst₁, hctx⟩ := ho _ ho'
        simp only at hst₁ hctx
        subst hst₁ hctx
        exact ⟨m', .loaded, hm', (Function.update_self ..).trans ho', by decide, hrest⟩
      · exact ⟨m', st', hm', (Function.update_of_ne heq _ _).trans hmod', hst', hrest⟩
    · intro x hx
      obtain ⟨ctx', st', hm', hst'⟩ := h.held.held x (List.mem_of_mem_eraseIdx hx)
      exact ⟨ctx', st', (Function.update_of_ne (hother x hx) _ _).trans hm', hst'⟩
    · intro m' ctx' hm'
      change Function.update s.modules m o m' = _ at hm'
      by_cases heq : m' = m
      · rw [heq, Function.update_self] at hm'
        exact absurd (ho _ hm').1 (by simp)
      · rw [Function.update_of_ne heq] at hm'
        obtain ⟨e, ns, he, hns, hnode⟩ := h.held.loading m' ctx' hm'
        refine ⟨e, ns, ?_, hns, hnode⟩
        rcases List.mem_cons.1 (hperm.mem_iff.1 he) with he | he
        · exact absurd (congrArg Prod.fst he) heq
        · exact he
    · exact (h.call.of_perm hwaiting).congr rfl rfl rfl rfl rfl
  have hwork : ∀ s' : State, s'.held = s.held.eraseIdx i → s'.posted = s.posted ++ [msg] →
      s'.subsysLists = s.subsysLists → s'.work < s.work := by
    intro s' hheld hposted hlists
    have hw : Msg.weight s' = Msg.weight s := funext fun msg => weight_congr fun l _ => by rw [hlists]
    have hsum := (hperm.map fun x => x.2.weight s + 1).sum_eq
    rw [List.map_cons, List.sum_cons] at hsum
    change _ = msg.weight s + 1 + _ at hsum
    rw [State.work, State.work, hheld, hposted, hw, List.map_append, List.sum_append,
      List.map_singleton, List.sum_singleton, hsum]
    omega
  cases st with
  | loaded => exact absurd rfl hst
  | loading =>
    refine ⟨_, ?_, hgoal (some ⟨ctx, .loaded⟩) ?_ (fun _ => by simp), hwork _ rfl rfl rfl⟩
    · simp only [step, completeModule, hx, Option.bind_some, hmod]
    · rintro _ ⟨⟩
      exact ⟨rfl, rfl⟩
  | unloading =>
    refine ⟨_, ?_, hgoal none ?_ ?_, hwork _ rfl rfl rfl⟩
    · simp only [step, completeModule, hx, Option.bind_some, hmod]
    · rintro _ ⟨⟩
    · rintro ⟨⟩

theorem Inv.deliver (h : Inv s []) {i : ℕ} (hi : i < s.posted.length) :
    ∃ s', step s (.deliver i) = some s' ∧ Inv s' [] ∧ s'.work < s.work := by
  obtain ⟨msg, hmsg⟩ : ∃ msg, s.posted[i]? = some msg := ⟨_, List.getElem?_eq_getElem hi⟩
  have hperm : s.posted.Perm (msg :: s.posted.eraseIdx i) := by
    obtain ⟨hi', hget⟩ := List.getElem?_eq_some_iff.1 hmsg
    rw [← hget]
    exact (List.getElem_cons_eraseIdx_perm hi').symm
  set s₁ : State := { s with posted := s.posted.eraseIdx i } with hs₁
  have hinv : Inv s₁ [msg] := by
    refine ⟨⟨h.net.1, h.net.2, h.net.3, h.net.4, h.net.5, h.net.6, h.net.7, h.net.8, h.net.9,
      h.net.10⟩, ⟨h.held.1, h.held.2, h.held.3⟩, ?_⟩
    have hwaiting : s.waiting.Perm (msg :: s₁.waiting) :=
      (hperm.append_left _).trans List.perm_middle
    exact (h.call.of_perm hwaiting).congr rfl rfl rfl rfl rfl
  have hwork : s₁.work + msg.weight s = s.work := by
    have hsum := (hperm.map (Msg.weight s)).sum_eq
    rw [List.map_cons, List.sum_cons] at hsum
    have hw : Msg.weight s₁ = Msg.weight s := funext fun msg => weight_congr fun _ _ => rfl
    rw [State.work, State.work, hsum, hw]
    show (s.held.map _).sum + ((s.posted.eraseIdx i).map _).sum + _ = _
    omega
  cases msg with
  | initNext e =>
    obtain ⟨s', rc, heq, -, hinv', hlt⟩ := initNextFrom_spec hinv
    refine ⟨s', ?_, hinv', ?_⟩
    · have hinit : initNext s₁ e = some (s', rc) := heq
      simp only [step, Sharing.deliver, hmsg, Option.bind_some, ← hs₁, hinit, Option.map_some]
    · rw [← hwork]
      exact hlt
  | destroyNext e =>
    obtain ⟨⟨ns, hns⟩, -⟩ := hinv.call.destroy _ List.mem_cons_self
    obtain ⟨s', rc, heq, hinv', hlt⟩ := destroyNextFrom_spec hinv hns
    refine ⟨s', ?_, hinv', ?_⟩
    · have hdestroy : destroyNext s₁ e = some (s', rc) := by
        rw [destroyNext, hns]
        exact heq
      simp only [step, Sharing.deliver, hmsg, Option.bind_some, ← hs₁, hdestroy, Option.map_some]
    · have hw : Msg.weight s (.destroyNext e) = 2 * ns.length + 2 := by
        show 2 * ((s₁.subsysLists e.nmSubsys).getD []).length + 2 = _
        rw [hns, Option.getD_some]
      rw [← hwork, hw]
      exact hlt
  | callback n =>
    refine ⟨{ s₁ with called := s.called ++ [n] }, ?_, ?_, ?_⟩
    · simp only [step, Sharing.deliver, hmsg, Option.bind_some]
      rfl
    · refine ⟨⟨hinv.net.1, hinv.net.2, hinv.net.3, hinv.net.4, hinv.net.5, hinv.net.6, hinv.net.7,
        hinv.net.8, hinv.net.9, hinv.net.10⟩, ⟨hinv.held.1, hinv.held.2, hinv.held.3⟩, ?_⟩
      exact hinv.call.called
    · rw [← hwork]
      show s₁.work < s₁.work + 1
      omega

/-- A legal action. -/
theorem Inv.step (h : Inv s []) {a : Action} (ha : Legal s a) :
    ∃ s', Sharing.step s a = some s' ∧ Inv s' [] := by
  cases a with
  | subsysStart ss devList => exact h.subsysStart ss devList
  | subsysStop ss =>
    obtain ⟨l, hl, hstop⟩ := ha
    exact h.subsysStop hl hstop
  | complete i =>
    obtain ⟨s', hs, hinv, -⟩ := h.complete ha
    exact ⟨s', hs, hinv⟩
  | deliver i =>
    obtain ⟨s', hs, hinv, -⟩ := h.deliver ha
    exact ⟨s', hs, hinv⟩

/-- A step of the framework. -/
theorem Inv.runs (h : Inv s []) {a : Action} (ha : Runs s a) :
    ∃ s', Sharing.step s a = some s' ∧ Inv s' [] ∧ s'.work < s.work := by
  cases a with
  | subsysStart ss devList => exact ha.elim
  | subsysStop ss => exact ha.elim
  | complete i => exact h.complete ha
  | deliver i => exact h.deliver ha

theorem Inv.length_le (h : Inv s []) {acts : List Action} (hacts : Run.Admissible Sharing.step Runs s acts) :
    acts.length ≤ s.work := by
  induction acts generalizing s with
  | nil => exact Nat.zero_le _
  | cons a acts ih =>
    obtain ⟨s', hs, hinv, hlt⟩ := h.runs hacts.1
    have := ih hinv (hacts.2 s' hs)
    rw [List.length_cons]
    omega

theorem inv_initial : Inv .initial [] := by
  refine ⟨⟨?_, ?_, ?_, ?_, ?_, ?_, ?_, ?_, ?_, ?_⟩, ⟨?_, ?_, ?_⟩, ⟨?_, ?_, ?_, ?_, ?_, ?_, ?_, ?_⟩⟩ <;>
    simp [State.initial, State.waiting]

/-! ### The history -/

theorem initNextFrom_calls {ss l cb : ℕ} {devs : List NetDevInfo} {s' : State} {rc : ModuleStatus}
    (h : initNextFrom ss l cb s devs = some (s', rc)) : s'.calls = s.calls := by
  induction devs generalizing s with
  | nil =>
    cases h
    rfl
  | cons d devs ih =>
    have hinit : (dssNetModuleInit s d.devName d.ip).1.calls = s.calls := by
      unfold dssNetModuleInit
      split <;> rfl
    unfold initNextFrom at h
    generalize dssNetModuleInit s d.devName d.ip = res at h hinit
    obtain ⟨s₁, nm, rc₁⟩ := res
    obtain ⟨nm', -, h⟩ := Option.bind_eq_some_iff.1 h
    obtain ⟨nodes, -, h⟩ := Option.bind_eq_some_iff.1 h
    dsimp only at h hinit
    split at h
    · rename_i hrc
      refine (ih h).trans ?_
      rw [hrc]
      exact hinit
    · cases h
      rw [← hinit]
      by_cases hrc : rc₁ = .modCreated
      · rw [if_pos hrc]
        rfl
      · rw [if_neg hrc]
        rfl

theorem destroyNextFrom_calls {l cb : ℕ} {nodes : List SsNode} {s' : State} {rc : ModuleStatus}
    (h : destroyNextFrom l cb s nodes = some (s', rc)) : s'.calls = s.calls := by
  induction nodes generalizing s with
  | nil =>
    cases h
    rfl
  | cons node nodes ih =>
    obtain ⟨m, -, h⟩ := Option.bind_eq_some_iff.1 h
    obtain ⟨dm, -, h⟩ := Option.bind_eq_some_iff.1 h
    obtain ⟨⟨s₁, rc₁⟩, hdestroy, h⟩ := Option.bind_eq_some_iff.1 h
    dsimp only at h
    have hcalls : s₁.calls = s.calls := by
      obtain ⟨nm, -, hdestroy⟩ := Option.bind_eq_some_iff.1 hdestroy
      split_ifs at hdestroy
      all_goals
        cases hdestroy
        rfl
    split at h
    · obtain ⟨s₂, hstop, heq⟩ := Option.map_eq_some_iff.1 h
      cases heq
      unfold dflyModuleStop at hstop
      split at hstop
      · cases hstop
        exact hcalls
      · cases hstop
    · exact (ih h).trans hcalls

theorem step_calls {s' : State} {a : Action} (h : step s a = some s') :
    s'.calls = s.calls ++ (a.call s).toList := by
  cases a with
  | subsysStart ss devList =>
    obtain ⟨⟨s₁, rc⟩, hstart, rfl⟩ := Option.map_eq_some_iff.1 h
    obtain ⟨⟨s₂, rc₂⟩, hinit, heq⟩ := Option.map_eq_some_iff.1 hstart
    have hcalls := initNextFrom_calls hinit
    dsimp only at heq
    split_ifs at heq
    · cases heq
      exact hcalls
    · cases heq
      exact hcalls
  | subsysStop ss =>
    obtain ⟨l, -, hstop⟩ := Option.bind_eq_some_iff.1 h
    obtain ⟨⟨s₁, rc⟩, hdestroy, rfl⟩ := Option.map_eq_some_iff.1 hstop
    obtain ⟨nodes, -, hdestroy⟩ := Option.bind_eq_some_iff.1 hdestroy
    exact destroyNextFrom_calls hdestroy
  | complete i =>
    obtain ⟨⟨m, msg⟩, -, h⟩ := Option.bind_eq_some_iff.1 h
    show s'.calls = s.calls ++ []
    rw [List.append_nil]
    repeat' split at h
    all_goals cases h
    all_goals rfl
  | deliver i =>
    obtain ⟨msg, -, h⟩ := Option.bind_eq_some_iff.1 h
    show s'.calls = s.calls ++ []
    rw [List.append_nil]
    cases msg with
    | initNext e =>
      obtain ⟨⟨s₁, rc⟩, hinit, rfl⟩ := Option.map_eq_some_iff.1 h
      have hcalls := initNextFrom_calls hinit
      exact hcalls
    | destroyNext e =>
      obtain ⟨⟨s₁, rc⟩, hdestroy, rfl⟩ := Option.map_eq_some_iff.1 h
      obtain ⟨nodes, -, hdestroy⟩ := Option.bind_eq_some_iff.1 hdestroy
      have hcalls := destroyNextFrom_calls hdestroy
      exact hcalls
    | callback n =>
      cases h
      rfl

/-- The calls among the actions. -/
def Action.isCall : Action → Bool
  | .subsysStart _ _ | .subsysStop _ => true
  | _ => false

theorem length_call {a : Action} (ha : Legal s a) :
    (a.call s).toList.length = if a.isCall = true then 1 else 0 := by
  cases a with
  | subsysStart ss devList => rfl
  | subsysStop ss =>
    obtain ⟨l, hl, -⟩ := ha
    rw [Action.call, show s.subsysCtx ss = some l from hl]
    rfl
  | complete i => rfl
  | deliver i => rfl

theorem length_calls_of_run {acts : List Action} {s' : State}
    (hacts : Run.Admissible Sharing.step Legal s acts) (hrun : Run.run Sharing.step s acts = some s') :
    s'.calls.length = s.calls.length + acts.countP Action.isCall := by
  induction acts generalizing s with
  | nil =>
    cases hrun
    rfl
  | cons a acts ih =>
    rw [Run.run_cons] at hrun
    obtain ⟨s₁, hs₁, hrun⟩ := Option.bind_eq_some_iff.1 hrun
    rw [ih (hacts.2 s₁ hs₁) hrun, step_calls hs₁, List.length_append, length_call hacts.1,
      List.countP_cons]
    omega

/-! ### The main result -/

theorem Inv.shared (h : Inv s []) : Shared s := by
  have hnodup : (s.stopped ++ s.netModList.filterMap NetModule.module).Nodup :=
    h.net.perm.nodup_iff.1 h.net.started_nodup
  obtain ⟨hstopped, -, hdisj⟩ := List.nodup_append.1 hnodup
  have honce := h.call.once
  have hcall := honce.nodup_iff.2 List.nodup_range
  -- a chain that has completed has no message left
  have hcompleted : ∀ n, s.Completed n → ∀ msg ∈ s.waiting, msg ≠ .callback n → msg.cbEvent ≠ n := by
    rintro n hn msg hmsg hne rfl
    obtain ⟨-, hw, hdisj⟩ := List.nodup_append.1 hcall
    rcases hn with hn | hn
    · exact hdisj _ hn _ (List.mem_map_of_mem hmsg) rfl
    · have hmem : Msg.callback msg.cbEvent ∈ s.waiting := List.mem_append_right _ hn
      exact hne (List.inj_on_of_nodup_map hw hmsg hmem rfl)
  constructor
  · intro nm hnm
    obtain ⟨m, st, hm, -, -, href, hpos, -⟩ := h.net.net nm hnm
    exact ⟨m, hm, href, hpos⟩
  · exact h.net.dev_nodup
  · exact h.net.started_nodup
  · exact hstopped
  · intro m d hstart
    have hmem := h.net.perm.mem_iff.1 (List.mem_map_of_mem (f := Prod.fst) hstart)
    have hrun : m ∉ s.stopped → ∃ nm ∈ s.netModList, nm.module = some m ∧ nm.devName = d ∧
        0 < s.nodes m := by
      intro hnot
      obtain ⟨nm, hnm, hm⟩ := List.mem_filterMap.1 ((List.mem_append.1 hmem).resolve_left hnot)
      obtain ⟨m', st, hm', -, -, href, hpos, hstart'⟩ := h.net.net nm hnm
      obtain rfl : m' = m := Option.some.inj (hm'.symm.trans hm)
      refine ⟨nm, hnm, hm, ?_, href ▸ hpos⟩
      exact congrArg Prod.snd (List.inj_on_of_nodup_map h.net.started_nodup hstart' hstart rfl)
    constructor
    · constructor
      · intro hstop
        by_contra hne
        obtain ⟨n, ns, hns, hmem'⟩ := exists_node (Nat.pos_of_ne_zero hne)
        obtain ⟨nm, hnm, hnode⟩ := h.net.node n ns hns _ hmem'
        exact hdisj m hstop m (List.mem_filterMap.2 ⟨nm, hnm, hnode.symm⟩) rfl
      · intro hzero
        by_contra hnot
        obtain ⟨-, -, -, -, hpos⟩ := hrun hnot
        omega
    · intro hnot
      obtain ⟨nm, hnm, hm, hd, -⟩ := hrun hnot
      exact ⟨nm, hnm, hm, hd⟩
  · intro n ss devList hn hdone hstop
    have hinit : ∀ e, Msg.initNext e ∈ s.waiting → e.nmSubsys ≠ n := by
      intro e he
      obtain ⟨-, hcb, -⟩ := h.call.init e he
      rw [← hcb]
      exact hcompleted n hdone _ he (by simp)
    obtain ⟨ns, hns, hnodes⟩ := h.call.done n ss devList hn hstop hinit
    refine ⟨ns, hns, ?_⟩
    -- the nodes have running modules, which were started for their devices
    have hrefers : ∀ node ∈ ns, ∀ d, IsNode s node d → s.Refers node d := by
      rintro node hnode d ⟨m, hm, hstart⟩
      obtain ⟨nm, hnm, heq⟩ := h.net.node n ns hns node hnode
      obtain ⟨m', st, hm', -, -, -, -, hstart'⟩ := h.net.net nm hnm
      obtain rfl : m' = m := Option.some.inj ((hm'.symm.trans heq.symm).trans hm)
      refine ⟨nm, hnm, ?_, m', hm', hm⟩
      exact congrArg Prod.snd (List.inj_on_of_nodup_map h.net.started_nodup hstart' hstart rfl)
    exact (List.forall₂_and_left _ _).2 ⟨fun node hnode => hnode, hnodes⟩ |>.imp
      fun node d hd => hrefers node hd.1 d hd.2
  · intro n l hn hdone
    refine h.call.removed n l hn fun e he => ?_
    exact hcompleted n hdone _ he (by simp)
  · exact honce

end

/-- In every run of calls and steps of the framework, in any order, no assertion fails, the history
has the calls of the run and the references to the modules are right; from there the framework takes at
most `work` steps, and when none is left every call has been called back once. -/
theorem shared_of_run {acts : List Action} (hacts : Run.Admissible step Legal .initial acts) :
    ∃ s, Run.run step .initial acts = some s ∧ s.calls.length = acts.countP Action.isCall ∧ Shared s ∧
      (∀ facts, Run.Admissible step Runs s facts → facts.length ≤ s.work) ∧
      ((∀ a, ¬ Runs s a) → s.called.Perm (List.range s.calls.length)) := by
  obtain ⟨s, hrun, hinv⟩ :=
    Run.run_total (fun s a (hs : Inv s []) ha => hs.step ha) inv_initial hacts
  have hcalls := (length_calls_of_run hacts hrun).trans (Nat.zero_add _)
  refine ⟨s, hrun, hcalls, hinv.shared, fun facts hfacts => hinv.length_le hfacts, fun hquiet => ?_⟩
  have hheld : s.held = [] := by
    by_contra hne
    exact hquiet (.complete 0) (List.length_pos_iff.2 hne)
  have hposted : s.posted = [] := by
    by_contra hne
    exact hquiet (.deliver 0) (List.length_pos_iff.2 hne)
  have honce := hinv.call.once
  rw [List.nil_append, State.waiting, hheld, hposted] at honce
  simpa using honce

/-- Three subsystems that share two devices, one listed twice, and a stop in between. -/
theorem shared_of_run_three :
    ∃ s, Run.run step .initial
        [.subsysStart 0 [⟨1, "10.0.0.1", "eth0"⟩, ⟨1, "10.0.0.1", "eth0"⟩, ⟨1, "10.0.0.2", "eth1"⟩],
          .complete 0, .subsysStart 1 [⟨1, "10.0.0.1", "eth0"⟩], .deliver 1, .subsysStart 2 [],
          .deliver 0, .subsysStop 1, .complete 0, .deliver 1, .deliver 1, .subsysStop 0] = some s ∧
      s.calls.length = 5 ∧ Shared s ∧ (∀ facts, Run.Admissible step Runs s facts → facts.length ≤ s.work) ∧
        ((∀ a, ¬ Runs s a) → s.called.Perm (List.range s.calls.length)) :=
  shared_of_run (by decide)

end DssSdk.Net.Sharing
