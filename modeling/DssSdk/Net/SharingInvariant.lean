import DssSdk.Net.NetModule

/-!
# The invariant of shared network modules

Subsystems start and stop in any order and share devices.

* `NetInv`: the net modules, the nodes that refer to them and the counts;
* `HeldInv`: the modules that are starting or stopping;
* `CallInv`: the calls, their events and callbacks, with one lemma for each thing that happens to an
  event.
-/

namespace DssSdk.Net.Sharing

open Framework (NetDevInfo)

/-- The number of nodes that refer to a module. -/
def State.nodes (s : State) (m : ℕ) : ℕ :=
  ∑ n ∈ Finset.range s.calls.length, ((s.subsysLists n).getD []).count ⟨some m⟩

/-- The event of the call that a message is for. -/
def Msg.cbEvent : Msg → ℕ
  | .initNext e => e.cbEvent
  | .destroyNext e => e.cbEvent
  | .callback n => n

/-- The list that a message works on. -/
def Msg.nmSubsys : Msg → Option ℕ
  | .initNext e => some e.nmSubsys
  | .destroyNext e => some e.nmSubsys
  | .callback _ => none

/-- The messages that wait. -/
def State.waiting (s : State) : List Msg := s.held.map Prod.snd ++ s.posted

/-! ### The invariant -/

/-- A net module, its module and its nodes. -/
def NetOk (s : State) (nm : NetModule) : Prop :=
  ∃ m st, nm.module = some m ∧ s.modules m = some ⟨nm.addr, st⟩ ∧ st ≠ .unloading ∧
    nm.refCnt = s.nodes m ∧ 0 < nm.refCnt ∧ (m, nm.devName) ∈ s.started

/-- The net modules and the nodes. -/
structure NetInv (s : State) : Prop where
  dev_nodup : (s.netModList.map NetModule.devName).Nodup
  addr_nodup : (s.netModList.map NetModule.addr).Nodup
  addr_lt : ∀ nm ∈ s.netModList, nm.addr < s.brk
  mod_lt : ∀ m dm, s.modules m = some dm → m < s.brk
  started_lt : ∀ x ∈ s.started, x.1 < s.brk
  net : ∀ nm ∈ s.netModList, NetOk s nm
  node : ∀ n ns, s.subsysLists n = some ns → ∀ node ∈ ns, ∃ nm ∈ s.netModList, node.module = nm.module
  list_lt : ∀ n ns, s.subsysLists n = some ns → n < s.calls.length
  started_nodup : (s.started.map Prod.fst).Nodup
  perm : (s.started.map Prod.fst).Perm (s.stopped ++ s.netModList.filterMap NetModule.module)

/-- The modules that are starting or stopping. -/
structure HeldInv (s : State) : Prop where
  nodup : (s.held.map Prod.fst).Nodup
  held : ∀ x ∈ s.held, ∃ ctx st, s.modules x.1 = some ⟨ctx, st⟩ ∧ st ≠ .loaded
  loading : ∀ m ctx, s.modules m = some ⟨ctx, .loading⟩ →
    ∃ e ns, (m, Msg.initNext e) ∈ s.held ∧ s.subsysLists e.nmSubsys = some ns ∧ ⟨some m⟩ ∈ ns

/-- A node with a module that was started for a device. -/
def IsNode (s : State) (node : SsNode) (d : NetDevInfo) : Prop :=
  ∃ m, node.module = some m ∧ (m, d.devName) ∈ s.started

/-- A chain that starts the modules of a subsystem. -/
def InitOk (s : State) (e : InitEvent) : Prop :=
  Call.stop e.nmSubsys ∉ s.calls ∧ e.cbEvent = e.nmSubsys ∧
    ∃ done ns, s.calls[e.nmSubsys]? = some (.start e.ss (done ++ e.rest)) ∧
      s.subsysLists e.nmSubsys = some ns ∧ List.Forall₂ (IsNode s) ns done

/-- The calls and the messages `P` that wait or are being executed. -/
structure CallInv (s : State) (P : List Msg) : Prop where
  roles : (P.filterMap Msg.nmSubsys).Nodup
  init : ∀ e, Msg.initNext e ∈ P → InitOk s e
  destroy : ∀ e, Msg.destroyNext e ∈ P →
    (∃ ns, s.subsysLists e.nmSubsys = some ns) ∧ s.calls[e.cbEvent]? = some (.stop e.nmSubsys)
  done : ∀ n ss devs, s.calls[n]? = some (.start ss devs) → Call.stop n ∉ s.calls →
    (∀ e, Msg.initNext e ∈ P → e.nmSubsys ≠ n) →
      ∃ ns, s.subsysLists n = some ns ∧ List.Forall₂ (IsNode s) ns devs
  ctx : ∀ ss l, s.subsysCtx ss = some l → (∃ devs, s.calls[l]? = some (.start ss devs)) ∧
    ∀ e, Msg.initNext e ∈ P → e.nmSubsys ≠ l
  removed : ∀ n l, s.calls[n]? = some (.stop l) → (∀ e, Msg.destroyNext e ∈ P → e.cbEvent ≠ n) →
    s.subsysLists l = none
  stop_lt : ∀ l, Call.stop l ∈ s.calls → l < s.calls.length
  once : (s.called ++ P.map Msg.cbEvent).Perm (List.range s.calls.length)

/-- The invariant while the messages `extra` are being executed. -/
structure Inv (s : State) (extra : List Msg) : Prop where
  net : NetInv s
  held : HeldInv s
  call : CallInv s (extra ++ s.waiting)

/-! ### Nodes -/

section

variable {s : State} {P : List Msg}

theorem nodes_setList {l : ℕ} (hl : l < s.calls.length) (o : Option (List SsNode)) (m : ℕ) :
    (s.setList l o).nodes m + ((s.subsysLists l).getD []).count ⟨some m⟩ =
      s.nodes m + (o.getD []).count ⟨some m⟩ := by
  have hmem : l ∈ Finset.range s.calls.length := Finset.mem_range.2 hl
  have hrest : ∑ n ∈ (Finset.range s.calls.length).erase l,
      ((Function.update s.subsysLists l o n).getD []).count (⟨some m⟩ : SsNode) =
      ∑ n ∈ (Finset.range s.calls.length).erase l,
        ((s.subsysLists n).getD []).count (⟨some m⟩ : SsNode) := by
    apply Finset.sum_congr rfl
    intro n hn
    rw [Function.update_of_ne (Finset.ne_of_mem_erase hn)]
  have hnew := Finset.add_sum_erase _
    (fun n => ((Function.update s.subsysLists l o n).getD []).count (⟨some m⟩ : SsNode)) hmem
  have hold := Finset.add_sum_erase _
    (fun n => ((s.subsysLists n).getD []).count (⟨some m⟩ : SsNode)) hmem
  simp only [Function.update_self] at hnew
  rw [hrest] at hnew
  show (∑ n ∈ Finset.range s.calls.length,
    ((Function.update s.subsysLists l o n).getD []).count (⟨some m⟩ : SsNode)) + _ = _
  unfold State.nodes
  omega

theorem nodes_pos {n m : ℕ} {ns : List SsNode} (hn : n < s.calls.length)
    (hns : s.subsysLists n = some ns) (hm : ⟨some m⟩ ∈ ns) : 0 < s.nodes m := by
  have hcount : 0 < ((s.subsysLists n).getD []).count (⟨some m⟩ : SsNode) := by
    rw [hns]
    exact List.count_pos_iff.2 hm
  exact lt_of_lt_of_le hcount (Finset.single_le_sum
    (f := fun n => ((s.subsysLists n).getD []).count (⟨some m⟩ : SsNode))
    (fun _ _ => Nat.zero_le _) (Finset.mem_range.2 hn))

theorem exists_node {m : ℕ} (hm : 0 < s.nodes m) :
    ∃ n ns, s.subsysLists n = some ns ∧ ⟨some m⟩ ∈ ns := by
  obtain ⟨n, -, hn⟩ := Finset.exists_ne_zero_of_sum_ne_zero (Nat.pos_iff_ne_zero.1 hm)
  cases hns : s.subsysLists n with
  | none => rw [hns] at hn; exact absurd rfl hn
  | some ns =>
    rw [hns] at hn
    exact ⟨n, ns, hns, List.count_pos_iff.1 (Nat.pos_of_ne_zero hn)⟩

/-! ### Calls and events -/

theorem IsNode.mono {s' : State} (h : ∀ x ∈ s.started, x ∈ s'.started) {node : SsNode}
    {d : NetDevInfo} : IsNode s node d → IsNode s' node d :=
  fun ⟨m, hm, hstart⟩ => ⟨m, hm, h _ hstart⟩

theorem CallInv.of_perm (h : CallInv s P) {P' : List Msg} (hp : P.Perm P') : CallInv s P' where
  roles := (hp.filterMap _).nodup_iff.1 h.roles
  init e he := h.init e (hp.mem_iff.2 he)
  destroy e he := h.destroy e (hp.mem_iff.2 he)
  done n ss devs hn hs he := h.done n ss devs hn hs fun e hmem => he e (hp.mem_iff.1 hmem)
  ctx ss l hl := ⟨(h.ctx ss l hl).1, fun e he => (h.ctx ss l hl).2 e (hp.mem_iff.2 he)⟩
  removed n l hn he := h.removed n l hn fun e hmem => he e (hp.mem_iff.1 hmem)
  stop_lt := h.stop_lt
  once := ((hp.map Msg.cbEvent).symm.append_left s.called).trans h.once

/-- The other messages work on other lists. -/
theorem CallInv.other {msg msg' : Msg} {l : ℕ} (h : CallInv s (msg :: P)) (hl : msg.nmSubsys = some l)
    (hmem : msg' ∈ P) : msg'.nmSubsys ≠ some l := by
  have hroles := h.roles
  rw [List.filterMap_cons_some hl, List.nodup_cons] at hroles
  intro hl'
  exact hroles.1 (List.mem_filterMap.2 ⟨msg', hmem, hl'⟩)

theorem CallInv.roles_tail {msg : Msg} (h : CallInv s (msg :: P)) :
    (P.filterMap Msg.nmSubsys).Nodup :=
  h.roles.sublist ((List.sublist_cons_self msg P).filterMap _)

theorem CallInv.congr {t : State} (h : CallInv s P) (hcalls : t.calls = s.calls)
    (hcalled : t.called = s.called) (hctx : t.subsysCtx = s.subsysCtx)
    (hlists : t.subsysLists = s.subsysLists) (hstarted : t.started = s.started) : CallInv t P := by
  have hmono : ∀ x ∈ s.started, x ∈ t.started := fun x hx => hstarted ▸ hx
  constructor
  · exact h.roles
  · intro e he
    obtain ⟨hstop, hcb, done, ns, hcall, hns, hnodes⟩ := h.init e he
    refine ⟨hcalls ▸ hstop, hcb, done, ns, hcalls ▸ hcall, hlists ▸ hns, ?_⟩
    exact hnodes.imp fun _ _ => IsNode.mono hmono
  · rw [hcalls, hlists]
    exact h.destroy
  · rw [hcalls, hlists]
    intro n ss devs hn hs he
    obtain ⟨ns, hns, hnodes⟩ := h.done n ss devs hn hs he
    exact ⟨ns, hns, hnodes.imp fun _ _ => IsNode.mono hmono⟩
  · rw [hcalls, hctx]
    exact h.ctx
  · rw [hcalls, hlists]
    exact h.removed
  · rw [hcalls]
    exact h.stop_lt
  · rw [hcalls, hcalled]
    exact h.once

theorem CallInv.push {t : State} {ss l cb : ℕ} {d : NetDevInfo} {rest : List NetDevInfo}
    {x : SsNode} {ns : List SsNode} (h : CallInv s (.initNext ⟨ss, d :: rest, l, cb⟩ :: P))
    (hns : s.subsysLists l = some ns) (hcalls : t.calls = s.calls) (hcalled : t.called = s.called)
    (hctx : t.subsysCtx = s.subsysCtx)
    (hlists : t.subsysLists = Function.update s.subsysLists l (some (ns ++ [x])))
    (hmono : ∀ x ∈ s.started, x ∈ t.started) (hnode : IsNode t x d) :
    CallInv t (.initNext ⟨ss, rest, l, cb⟩ :: P) := by
  have hother : ∀ e, Msg.initNext e ∈ P → e.nmSubsys ≠ l := by
    intro e he hl
    exact h.other rfl he (congrArg some hl)
  have hotherD : ∀ e, Msg.destroyNext e ∈ P → e.nmSubsys ≠ l := by
    intro e he hl
    exact h.other rfl he (congrArg some hl)
  obtain ⟨hstop, hcb, done, ns', hcall, hns', hnodes⟩ := h.init _ List.mem_cons_self
  obtain rfl : ns = ns' := Option.some.inj (hns.symm.trans hns')
  constructor
  · exact h.roles
  · intro e he
    rcases List.mem_cons.1 he with he | he
    · cases he
      refine ⟨hcalls ▸ hstop, hcb, done ++ [d], ns ++ [x], ?_, ?_, ?_⟩
      · rw [hcalls, List.append_assoc]
        exact hcall
      · rw [hlists, Function.update_self]
      · exact List.rel_append (hnodes.imp fun _ _ => IsNode.mono hmono)
          (.cons hnode .nil)
    · obtain ⟨hstop, hcb, done, ns₁, hcall, hns₁, hnodes₁⟩ := h.init e (List.mem_cons_of_mem _ he)
      refine ⟨hcalls ▸ hstop, hcb, done, ns₁, hcalls ▸ hcall, ?_, ?_⟩
      · rw [hlists, Function.update_of_ne (hother e he)]
        exact hns₁
      · exact hnodes₁.imp fun _ _ => IsNode.mono hmono
  · intro e he
    have he' : Msg.destroyNext e ∈ P := by simpa using he
    rw [hcalls, hlists, Function.update_of_ne (hotherD e he')]
    exact h.destroy e (List.mem_cons_of_mem _ he')
  · rw [hcalls]
    intro n ss' devs hn hs he
    have hne : l ≠ n := he _ List.mem_cons_self
    rw [hlists, Function.update_of_ne hne.symm]
    obtain ⟨ns₁, hns₁, hnodes₁⟩ := h.done n ss' devs hn hs fun e he' => by
      rcases List.mem_cons.1 he' with he' | he'
      · cases he'
        exact hne
      · exact he e (List.mem_cons_of_mem _ he')
    exact ⟨ns₁, hns₁, hnodes₁.imp fun _ _ => IsNode.mono hmono⟩
  · rw [hcalls, hctx]
    intro ss' l' hl'
    obtain ⟨hstart, hne⟩ := h.ctx ss' l' hl'
    refine ⟨hstart, fun e he => ?_⟩
    rcases List.mem_cons.1 he with he | he
    · cases he
      exact hne ⟨ss, d :: rest, l, cb⟩ List.mem_cons_self
    · exact hne e (List.mem_cons_of_mem _ he)
  · rw [hcalls]
    intro n l' hn he
    have hne : l' ≠ l := by
      rintro rfl
      exact hstop (List.mem_of_getElem? hn)
    rw [hlists, Function.update_of_ne hne]
    refine h.removed n l' hn fun e he' => he e ?_
    simpa using he'
  · rw [hcalls]
    exact h.stop_lt
  · rw [hcalls, hcalled]
    exact h.once

/-- A chain of starts comes to its end. -/
theorem CallInv.started {ss l cb : ℕ} (h : CallInv s (.initNext ⟨ss, [], l, cb⟩ :: P)) :
    CallInv { s with subsysCtx := Function.update s.subsysCtx ss (some l) } (.callback cb :: P) := by
  have hother : ∀ e, Msg.initNext e ∈ P → e.nmSubsys ≠ l := by
    intro e he hl
    exact h.other rfl he (congrArg some hl)
  have hmem : ∀ e, Msg.initNext e ∈ Msg.callback cb :: P → Msg.initNext e ∈ P := by
    intro e he
    simpa using he
  obtain ⟨hstop, hcb, done, ns, hcall, hns, hnodes⟩ := h.init _ List.mem_cons_self
  rw [List.append_nil] at hcall
  constructor
  · exact h.roles_tail
  · intro e he
    exact h.init e (List.mem_cons_of_mem _ (hmem e he))
  · intro e he
    exact h.destroy e (by simpa using he)
  · intro n ss' devs hn hs he
    by_cases hnl : n = l
    · subst hnl
      obtain ⟨rfl, rfl⟩ := Call.start.inj (Option.some.inj (hn.symm.trans hcall))
      exact ⟨ns, hns, hnodes⟩
    · refine h.done n ss' devs hn hs fun e he' => ?_
      rcases List.mem_cons.1 he' with he' | he'
      · cases he'
        exact Ne.symm hnl
      · exact he e (List.mem_cons_of_mem _ he')
  · intro ss' l' hl'
    change Function.update s.subsysCtx ss (some l) ss' = some l' at hl'
    by_cases hss : ss' = ss
    · subst hss
      rw [Function.update_self] at hl'
      cases hl'
      exact ⟨⟨done, hcall⟩, fun e he => hother e (hmem e he)⟩
    · rw [Function.update_of_ne hss] at hl'
      obtain ⟨hstart, hne⟩ := h.ctx ss' l' hl'
      exact ⟨hstart, fun e he => hne e (List.mem_cons_of_mem _ (hmem e he))⟩
  · intro n l' hn he
    exact h.removed n l' hn fun e he' => he e (by simpa using he')
  · exact h.stop_lt
  · exact h.once

/-- A node is taken from a list that is being stopped. -/
theorem CallInv.pop {t : State} {e : DestroyEvent} {ns : List SsNode}
    (h : CallInv s (.destroyNext e :: P)) (hcalls : t.calls = s.calls)
    (hcalled : t.called = s.called) (hctx : t.subsysCtx = s.subsysCtx)
    (hlists : t.subsysLists = Function.update s.subsysLists e.nmSubsys (some ns))
    (hstarted : t.started = s.started) : CallInv t (.destroyNext e :: P) := by
  have hmono : ∀ x ∈ s.started, x ∈ t.started := fun x hx => hstarted ▸ hx
  obtain ⟨⟨ns', hns'⟩, hcall⟩ := h.destroy e List.mem_cons_self
  have hstop : Call.stop e.nmSubsys ∈ s.calls := List.mem_of_getElem? hcall
  constructor
  · exact h.roles
  · intro e' he
    obtain ⟨hs, hcb, done, ns₁, hc, hns₁, hnodes⟩ := h.init e' he
    have hne : e'.nmSubsys ≠ e.nmSubsys := fun heq => hs (heq ▸ hstop)
    refine ⟨hcalls ▸ hs, hcb, done, ns₁, hcalls ▸ hc, ?_, hnodes.imp fun _ _ => IsNode.mono hmono⟩
    rw [hlists, Function.update_of_ne hne]
    exact hns₁
  · intro e' he
    rw [hcalls, hlists]
    obtain ⟨⟨ns₁, hns₁⟩, hc⟩ := h.destroy e' he
    refine ⟨?_, hc⟩
    by_cases heq : e'.nmSubsys = e.nmSubsys
    · exact ⟨ns, by rw [heq, Function.update_self]⟩
    · exact ⟨ns₁, by rw [Function.update_of_ne heq]; exact hns₁⟩
  · rw [hcalls]
    intro n ss devs hn hs he
    have hne : n ≠ e.nmSubsys := fun heq => hs (heq ▸ hstop)
    obtain ⟨ns₁, hns₁, hnodes⟩ := h.done n ss devs hn hs he
    refine ⟨ns₁, ?_, hnodes.imp fun _ _ => IsNode.mono hmono⟩
    rw [hlists, Function.update_of_ne hne]
    exact hns₁
  · rw [hcalls, hctx]
    exact h.ctx
  · rw [hcalls]
    intro n l hn he
    have hl := h.removed n l hn he
    have hne : l ≠ e.nmSubsys := by
      rintro rfl
      rw [hns'] at hl
      cases hl
    rw [hlists, Function.update_of_ne hne]
    exact hl
  · rw [hcalls]
    exact h.stop_lt
  · rw [hcalls, hcalled]
    exact h.once

/-- A chain of stops comes to its end. -/
theorem CallInv.stopped {e : DestroyEvent} (h : CallInv s (.destroyNext e :: P)) :
    CallInv (s.setList e.nmSubsys none) (.callback e.cbEvent :: P) := by
  have hotherD : ∀ e', Msg.destroyNext e' ∈ P → e'.nmSubsys ≠ e.nmSubsys := by
    intro e' he hl
    exact h.other rfl he (congrArg some hl)
  obtain ⟨-, hcall⟩ := h.destroy e List.mem_cons_self
  have hstop : Call.stop e.nmSubsys ∈ s.calls := List.mem_of_getElem? hcall
  constructor
  · exact h.roles_tail
  · intro e' he
    obtain ⟨hs, hcb, done, ns₁, hc, hns₁, hnodes⟩ :=
      h.init e' (List.mem_cons_of_mem _ (by simpa using he))
    have hne : e'.nmSubsys ≠ e.nmSubsys := fun heq => hs (heq ▸ hstop)
    refine ⟨hs, hcb, done, ns₁, hc, ?_, hnodes⟩
    exact (Function.update_of_ne hne _ _).trans hns₁
  · intro e' he
    have he' : Msg.destroyNext e' ∈ P := by simpa using he
    obtain ⟨⟨ns₁, hns₁⟩, hc⟩ := h.destroy e' (List.mem_cons_of_mem _ he')
    exact ⟨⟨ns₁, (Function.update_of_ne (hotherD e' he') _ _).trans hns₁⟩, hc⟩
  · intro n ss devs hn hs he
    have hne : n ≠ e.nmSubsys := fun heq => hs (heq ▸ hstop)
    obtain ⟨ns₁, hns₁, hnodes⟩ := h.done n ss devs hn hs fun e' he' =>
      he e' (List.mem_cons_of_mem _ (by simpa using he'))
    exact ⟨ns₁, (Function.update_of_ne hne _ _).trans hns₁, hnodes⟩
  · intro ss l hl
    obtain ⟨hstart, hne⟩ := h.ctx ss l hl
    exact ⟨hstart, fun e' he => hne e' (List.mem_cons_of_mem _ (by simpa using he))⟩
  · intro n l hn he
    by_cases hl : l = e.nmSubsys
    · subst hl
      exact Function.update_self ..
    · refine (Function.update_of_ne hl _ _).trans (h.removed n l hn fun e' he' => ?_)
      rcases List.mem_cons.1 he' with he' | he'
      · cases he'
        rintro rfl
        exact hl (Call.stop.inj (Option.some.inj (hn.symm.trans hcall)))
      · exact he e' (List.mem_cons_of_mem _ he')
  · exact h.stop_lt
  · exact h.once

/-- A callback. -/
theorem CallInv.called {n : ℕ} (h : CallInv s (.callback n :: P)) :
    CallInv { s with called := s.called ++ [n] } P where
  roles := h.roles_tail
  init e he := h.init e (List.mem_cons_of_mem _ he)
  destroy e he := h.destroy e (List.mem_cons_of_mem _ he)
  done m ss devs hm hs he := h.done m ss devs hm hs fun e he' => he e (by simpa using he')
  ctx ss l hl := ⟨(h.ctx ss l hl).1, fun e he => (h.ctx ss l hl).2 e (List.mem_cons_of_mem _ he)⟩
  removed m l hm he := h.removed m l hm fun e he' => he e (by simpa using he')
  stop_lt := h.stop_lt
  once := by
    have honce := h.once
    show ((s.called ++ [n]) ++ P.map Msg.cbEvent).Perm (List.range s.calls.length)
    rw [List.append_assoc]
    exact honce

theorem CallInv.nmSubsys_lt {msg : Msg} {l : ℕ} (h : CallInv s P) (hmsg : msg ∈ P)
    (hl : msg.nmSubsys = some l) : l < s.calls.length := by
  cases msg with
  | initNext e =>
    obtain ⟨-, -, _, _, hcall, -⟩ := h.init e hmsg
    cases hl
    exact (List.getElem?_eq_some_iff.1 hcall).1
  | destroyNext e =>
    obtain ⟨-, hcall⟩ := h.destroy e hmsg
    cases hl
    exact h.stop_lt _ (List.mem_of_getElem? hcall)
  | callback n => cases hl

theorem getElem?_snoc {α : Type} {l : List α} {a b : α} {n : ℕ} :
    (l ++ [a])[n]? = some b ↔ l[n]? = some b ∨ n = l.length ∧ a = b := by
  rw [List.getElem?_append]
  split
  · rename_i hn
    constructor
    · exact Or.inl
    · rintro (h | ⟨rfl, -⟩)
      · exact h
      · omega
  · rename_i hn
    rw [List.getElem?_eq_none (not_lt.1 hn), List.getElem?_singleton]
    constructor
    · intro h
      split at h
      · cases h
        exact Or.inr ⟨by omega, rfl⟩
      · cases h
    · rintro (h | ⟨rfl, rfl⟩)
      · cases h
      · rw [if_pos (by omega)]

/-- `dss_net_module_subsys_start` is called. -/
theorem CallInv.start (h : CallInv s P) (ss : ℕ) (devList : List NetDevInfo) :
    CallInv (State.setList { s with calls := s.calls ++ [.start ss devList] } s.calls.length (some []))
      (.initNext ⟨ss, devList, s.calls.length, s.calls.length⟩ :: P) := by
  set n := s.calls.length with hn
  have hfresh : ∀ {msg l}, msg ∈ P → Msg.nmSubsys msg = some l → l ≠ n :=
    fun hmsg hl => (h.nmSubsys_lt hmsg hl).ne
  have hstop : Call.stop n ∉ s.calls := fun hmem => (h.stop_lt n hmem).ne hn.symm
  have hstops : ∀ l, Call.stop l ∈ s.calls ++ [Call.start ss devList] ↔ Call.stop l ∈ s.calls := by
    intro l
    simp
  have hlist : ∀ {l}, l ≠ n → Function.update s.subsysLists n (some []) l = s.subsysLists l :=
    fun hl => Function.update_of_ne hl _ _
  constructor
  · change (n :: P.filterMap Msg.nmSubsys).Nodup
    rw [List.nodup_cons]
    refine ⟨fun hmem => ?_, h.roles⟩
    obtain ⟨msg, hmsg, hl⟩ := List.mem_filterMap.1 hmem
    exact hfresh hmsg hl rfl
  · intro e he
    rcases List.mem_cons.1 he with he | he
    · cases he
      exact ⟨fun hmem => hstop ((hstops n).1 hmem), rfl, [], [],
        getElem?_snoc.2 (Or.inr ⟨rfl, rfl⟩), Function.update_self .., .nil⟩
    · obtain ⟨hs, hcb, done, ns, hcall, hns, hnodes⟩ := h.init e he
      exact ⟨fun hmem => hs ((hstops _).1 hmem), hcb, done, ns, getElem?_snoc.2 (Or.inl hcall),
        (hlist (hfresh he rfl)).trans hns, hnodes⟩
  · intro e he
    have he' : Msg.destroyNext e ∈ P := by simpa using he
    obtain ⟨⟨ns, hns⟩, hcall⟩ := h.destroy e he'
    exact ⟨⟨ns, (hlist (hfresh he' rfl)).trans hns⟩, getElem?_snoc.2 (Or.inl hcall)⟩
  · intro k ss' devs hk hs he
    have hkn : k ≠ n := (he _ List.mem_cons_self).symm
    rcases getElem?_snoc.1 hk with hk | ⟨hk, -⟩
    · obtain ⟨ns, hns, hnodes⟩ := h.done k ss' devs hk (fun hmem => hs ((hstops k).2 hmem))
        fun e he' => he e (List.mem_cons_of_mem _ he')
      exact ⟨ns, (hlist hkn).trans hns, hnodes⟩
    · exact absurd hk hkn
  · intro ss' l hl
    obtain ⟨⟨devs, hcall⟩, hne⟩ := h.ctx ss' l hl
    refine ⟨⟨devs, getElem?_snoc.2 (Or.inl hcall)⟩, fun e he => ?_⟩
    rcases List.mem_cons.1 he with he | he
    · cases he
      exact (List.getElem?_eq_some_iff.1 hcall).1.ne'
    · exact hne e he
  · intro k l hk he
    rcases getElem?_snoc.1 hk with hk | ⟨-, hk⟩
    · have hl : l ≠ n := (h.stop_lt l (List.mem_of_getElem? hk)).ne
      exact (hlist hl).trans (h.removed k l hk fun e he' => he e (List.mem_cons_of_mem _ he'))
    · cases hk
  · intro l hl
    change l < (s.calls ++ [_]).length
    rw [List.length_append]
    exact Nat.lt_add_right _ (h.stop_lt l ((hstops l).1 hl))
  · show (s.called ++ n :: P.map Msg.cbEvent).Perm (List.range (s.calls ++ [_]).length)
    rw [List.length_append, List.length_singleton, List.range_succ]
    exact (List.perm_middle.trans (h.once.cons n)).trans (List.perm_append_singleton ..).symm

/-- `dss_net_module_subsys_stop` is called for a subsystem that was started. -/
theorem CallInv.stop {ss l : ℕ} (h : CallInv s P) (hl : s.subsysCtx ss = some l)
    (hstop : Call.stop l ∉ s.calls) :
    CallInv { s with calls := s.calls ++ [.stop l] } (.destroyNext ⟨l, s.calls.length⟩ :: P) := by
  obtain ⟨⟨devs, hstart⟩, hinit⟩ := h.ctx ss l hl
  have hlt : l < s.calls.length := (List.getElem?_eq_some_iff.1 hstart).1
  have hstops : ∀ l', Call.stop l' ∈ s.calls ++ [Call.stop l] ↔ Call.stop l' ∈ s.calls ∨ l' = l := by
    intro l'
    simp
  have hmem : ∀ e, Msg.initNext e ∈ Msg.destroyNext ⟨l, s.calls.length⟩ :: P → Msg.initNext e ∈ P := by
    intro e he
    simpa using he
  constructor
  · change (l :: P.filterMap Msg.nmSubsys).Nodup
    rw [List.nodup_cons]
    refine ⟨fun hmem => ?_, h.roles⟩
    obtain ⟨msg, hmsg, hl'⟩ := List.mem_filterMap.1 hmem
    cases msg with
    | initNext e => exact hinit e hmsg (Option.some.inj hl')
    | destroyNext e =>
      have hcall := (h.destroy e hmsg).2
      rw [show e.nmSubsys = l from Option.some.inj hl'] at hcall
      exact hstop (List.mem_of_getElem? hcall)
    | callback n => cases hl'
  · intro e he
    obtain ⟨hs, hcb, done, ns, hcall, hns, hnodes⟩ := h.init e (hmem e he)
    refine ⟨fun hs' => ?_, hcb, done, ns, getElem?_snoc.2 (Or.inl hcall), hns, hnodes⟩
    rcases (hstops _).1 hs' with hs' | hs'
    · exact hs hs'
    · exact hinit e (hmem e he) hs'
  · intro e he
    rcases List.mem_cons.1 he with he | he
    · cases he
      obtain ⟨ns, hns, -⟩ := h.done l ss devs hstart hstop hinit
      exact ⟨⟨ns, hns⟩, getElem?_snoc.2 (Or.inr ⟨rfl, rfl⟩)⟩
    · obtain ⟨hns, hcall⟩ := h.destroy e he
      exact ⟨hns, getElem?_snoc.2 (Or.inl hcall)⟩
  · intro k ss' devs' hk hs he
    rcases getElem?_snoc.1 hk with hk | ⟨-, hk⟩
    · exact h.done k ss' devs' hk (fun hs' => hs ((hstops k).2 (Or.inl hs')))
        fun e he' => he e (List.mem_cons_of_mem _ he')
    · cases hk
  · intro ss' l' hl'
    obtain ⟨⟨devs', hcall⟩, hne⟩ := h.ctx ss' l' hl'
    exact ⟨⟨devs', getElem?_snoc.2 (Or.inl hcall)⟩, fun e he => hne e (hmem e he)⟩
  · intro k l' hk he
    rcases getElem?_snoc.1 hk with hk | ⟨hk, hk'⟩
    · exact h.removed k l' hk fun e he' => he e (List.mem_cons_of_mem _ he')
    · exact absurd hk.symm (he _ List.mem_cons_self)
  · intro l' hl'
    rw [List.length_append]
    rcases (hstops l').1 hl' with hl' | rfl
    · exact Nat.lt_add_right _ (h.stop_lt l' hl')
    · exact Nat.lt_add_right _ hlt
  · show (s.called ++ s.calls.length :: P.map Msg.cbEvent).Perm (List.range (s.calls ++ [_]).length)
    rw [List.length_append, List.length_singleton, List.range_succ]
    exact (List.perm_middle.trans (h.once.cons _)).trans (List.perm_append_singleton ..).symm

end

end DssSdk.Net.Sharing
