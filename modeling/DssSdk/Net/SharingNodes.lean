import DssSdk.Net.SharingInvariant

/-!
# One node of a subsystem

What the two chains do for one node: `share` and `create` a reference to the module of a device,
`release` one and `remove` the module with the last one; and what each does to the net modules
(`NetInv`) and to the modules that are starting or stopping (`HeldInv`).
-/

namespace DssSdk.Net.Sharing

open Framework (NetDevInfo)

/-! ### One node -/

/-- A reference to the running module of a device. -/
def State.share (s : State) (nm : NetModule) (l : ℕ) (ns : List SsNode) : State :=
  (s.modifyNet nm.addr dssNetModuleGet).setList l (some (ns ++ [⟨nm.module⟩]))

/-- The first reference to the module of a device. -/
def State.create (s : State) (d : NetDevInfo) (e : InitEvent) (ns : List SsNode) : State :=
  { s with
    netModList := s.netModList ++ [⟨s.brk, some (s.brk + 1), d.devName, d.ip, 1⟩]
    modules := Function.update s.modules (s.brk + 1) (some ⟨s.brk, .loading⟩)
    brk := s.brk + 2
    subsysLists := Function.update s.subsysLists e.nmSubsys (some (ns ++ [⟨some (s.brk + 1)⟩]))
    held := s.held ++ [(s.brk + 1, .initNext e)]
    started := s.started ++ [(s.brk + 1, d.devName)] }

/-- A reference that is not the last one is given back. -/
def State.release (s : State) (nm : NetModule) (l : ℕ) (ns : List SsNode) : State :=
  (s.setList l (some ns)).modifyNet nm.addr dssNetModulePut

/-- The last reference is given back. -/
def State.remove (s : State) (nm : NetModule) (m : ℕ) (e : DestroyEvent) (ns : List SsNode) : State :=
  { s with
    netModList := s.netModList.filter fun nm' => nm'.addr ≠ nm.addr
    modules := Function.update s.modules m (some ⟨nm.addr, .unloading⟩)
    subsysLists := Function.update s.subsysLists e.nmSubsys (some ns)
    held := s.held ++ [(m, .destroyNext e)]
    stopped := s.stopped ++ [m] }

section

variable {s : State}

theorem NetInv.eq_of_addr (h : NetInv s) {nm nm' : NetModule} (hnm : nm ∈ s.netModList)
    (hnm' : nm' ∈ s.netModList) (haddr : nm.addr = nm'.addr) : nm = nm' :=
  List.inj_on_of_nodup_map h.addr_nodup hnm hnm' haddr

theorem NetInv.netModule (h : NetInv s) {nm : NetModule} (hnm : nm ∈ s.netModList) :
    s.netModule nm.addr = some nm := by
  unfold State.netModule
  cases hfind : s.netModList.find? fun nm' => nm'.addr = nm.addr with
  | none =>
    have hne := List.find?_eq_none.1 hfind nm hnm
    simp at hne
  | some nm' =>
    have haddr : nm'.addr = nm.addr := by simpa using List.find?_some hfind
    rw [h.eq_of_addr (List.mem_of_find?_eq_some hfind) hnm haddr]

theorem netModule_modifyNet (s : State) (a : ℕ) {f : NetModule → NetModule}
    (hf : ∀ nm, (f nm).addr = nm.addr) : (s.modifyNet a f).netModule a = (s.netModule a).map f := by
  unfold State.netModule State.modifyNet
  rw [List.find?_map]
  have hcomp : ((fun nm : NetModule => decide (nm.addr = a)) ∘
      fun nm => if nm.addr = a then f nm else nm) = fun nm : NetModule => decide (nm.addr = a) := by
    funext nm
    by_cases ha : nm.addr = a
    · simp [ha, hf]
    · simp [ha]
  rw [hcomp]
  cases hfind : s.netModList.find? fun nm => decide (nm.addr = a) with
  | none => rfl
  | some nm =>
    have haddr : nm.addr = a := by simpa using List.find?_some hfind
    simp [haddr]

theorem NetInv.module_ne (h : NetInv s) {nm nm' : NetModule} {m : ℕ} (hnm : nm ∈ s.netModList)
    (hnm' : nm' ∈ s.netModList) (hm : nm.module = some m) (hm' : nm'.module = some m) : nm = nm' := by
  obtain ⟨m₁, st₁, h₁, hmod₁, -⟩ := h.net nm hnm
  obtain ⟨m₂, st₂, h₂, hmod₂, -⟩ := h.net nm' hnm'
  obtain rfl : m₁ = m := Option.some.inj (h₁.symm.trans hm)
  obtain rfl : m₂ = m₁ := Option.some.inj (h₂.symm.trans hm')
  rw [hmod₁] at hmod₂
  exact h.eq_of_addr hnm hnm' (congrArg DflyModule.ctx (Option.some.inj hmod₂))

theorem NetInv.modify (h : NetInv s) {nm : NetModule} (hnm : nm ∈ s.netModList) {l m : ℕ}
    {ns ns' : List SsNode} (hns : s.subsysLists l = some ns) (hm : nm.module = some m)
    {f : NetModule → NetModule} (haddr : ∀ nm, (f nm).addr = nm.addr)
    (hdev : ∀ nm, (f nm).devName = nm.devName) (hmodule : ∀ nm, (f nm).module = nm.module)
    (hnodes : ∀ node ∈ ns', node ∈ ns ∨ node.module = some m)
    (hcount : (f nm).refCnt + ns.count ⟨some m⟩ = nm.refCnt + ns'.count ⟨some m⟩)
    (hother : ∀ m', m' ≠ m → ns'.count (⟨some m'⟩ : SsNode) = ns.count ⟨some m'⟩)
    (hpos : 0 < (f nm).refCnt) : NetInv ((s.setList l (some ns')).modifyNet nm.addr f) := by
  have hl := h.list_lt l ns hns
  have hmem : ∀ nm', nm' ∈ ((s.setList l (some ns')).modifyNet nm.addr f).netModList →
      ∃ nm₀ ∈ s.netModList, nm' = if nm₀.addr = nm.addr then f nm₀ else nm₀ := by
    intro nm' hnm'
    obtain ⟨nm₀, hnm₀, rfl⟩ := List.mem_map.1 hnm'
    exact ⟨nm₀, hnm₀, rfl⟩
  have hsum : ∀ m', ((s.setList l (some ns')).modifyNet nm.addr f).nodes m' + ns.count ⟨some m'⟩ =
      s.nodes m' + ns'.count ⟨some m'⟩ := by
    intro m'
    have hsum := nodes_setList hl (some ns') m'
    rw [hns] at hsum
    exact hsum
  have hkeep : ∀ {β : Type} (g : NetModule → β), (∀ nm, g (f nm) = g nm) →
      (g ∘ fun nm₀ : NetModule => if nm₀.addr = nm.addr then f nm₀ else nm₀) = g := by
    intro β g hg
    funext nm₀
    rw [Function.comp_apply]
    split
    · exact hg nm₀
    · rfl
  constructor
  · show ((s.netModList.map _).map NetModule.devName).Nodup
    rw [List.map_map, hkeep _ hdev]
    exact h.dev_nodup
  · show ((s.netModList.map _).map NetModule.addr).Nodup
    rw [List.map_map, hkeep _ haddr]
    exact h.addr_nodup
  · intro nm' hnm'
    obtain ⟨nm₀, hnm₀, rfl⟩ := hmem nm' hnm'
    have hlt := h.addr_lt nm₀ hnm₀
    split
    · rw [haddr]; exact hlt
    · exact hlt
  · exact h.mod_lt
  · exact h.started_lt
  · intro nm' hnm'
    obtain ⟨nm₀, hnm₀, rfl⟩ := hmem nm' hnm'
    obtain ⟨m₀, st, hm₀, hmod, hst, href, hpos₀, hstart⟩ := h.net nm₀ hnm₀
    have hs := hsum m₀
    by_cases ha : nm₀.addr = nm.addr
    · obtain rfl := h.eq_of_addr hnm₀ hnm ha
      obtain rfl : m₀ = m := Option.some.inj (hm₀.symm.trans hm)
      rw [if_pos rfl]
      refine ⟨m₀, st, (hmodule _).trans hm, ?_, hst, ?_, hpos, ?_⟩
      · rw [haddr]; exact hmod
      · omega
      · rw [hdev]; exact hstart
    · have hne : m₀ ≠ m := fun heq => ha (by rw [h.module_ne hnm₀ hnm (heq ▸ hm₀) hm])
      rw [if_neg ha]
      refine ⟨m₀, st, hm₀, hmod, hst, ?_, hpos₀, hstart⟩
      have := hother m₀ hne
      omega
  · have hmap : ∀ {node : SsNode}, (∃ nm₀ ∈ s.netModList, node.module = nm₀.module) →
        ∃ nm' ∈ ((s.setList l (some ns')).modifyNet nm.addr f).netModList,
          node.module = nm'.module := by
      rintro node ⟨nm₀, hnm₀, hnode⟩
      refine ⟨_, List.mem_map_of_mem hnm₀, ?_⟩
      split
      · rw [hmodule]; exact hnode
      · exact hnode
    intro n ns₁ hns₁ node hnode
    change Function.update s.subsysLists l (some ns') n = some ns₁ at hns₁
    by_cases hn : n = l
    · subst hn
      rw [Function.update_self] at hns₁
      cases hns₁
      rcases hnodes node hnode with hnode | hnode
      · exact hmap (h.node n ns hns node hnode)
      · exact hmap ⟨nm, hnm, hnode.trans hm.symm⟩
    · rw [Function.update_of_ne hn] at hns₁
      exact hmap (h.node n ns₁ hns₁ node hnode)
  · intro n ns₁ hns₁
    change Function.update s.subsysLists l (some ns') n = some ns₁ at hns₁
    by_cases hn : n = l
    · exact hn ▸ hl
    · rw [Function.update_of_ne hn] at hns₁
      exact h.list_lt n ns₁ hns₁
  · exact h.started_nodup
  · show (s.started.map Prod.fst).Perm (s.stopped ++ (s.netModList.map _).filterMap NetModule.module)
    rw [List.filterMap_map, hkeep _ hmodule]
    exact h.perm

theorem NetInv.share (h : NetInv s) {nm : NetModule} (hnm : nm ∈ s.netModList) {l : ℕ}
    {ns : List SsNode} (hns : s.subsysLists l = some ns) : NetInv (s.share nm l ns) := by
  obtain ⟨m, st, hm, -⟩ := h.net nm hnm
  show NetInv ((s.setList l (some (ns ++ [⟨nm.module⟩]))).modifyNet nm.addr dssNetModuleGet)
  apply h.modify hnm hns hm (f := dssNetModuleGet)
    (fun _ => rfl) (fun _ => rfl) (fun _ => rfl)
  · intro node hnode
    rcases List.mem_append.1 hnode with hnode | hnode
    · exact Or.inl hnode
    · rw [List.mem_singleton.1 hnode]
      exact Or.inr hm
  · rw [hm, List.count_append, List.count_singleton_self]
    simp only [dssNetModuleGet]
    omega
  · intro m' hne
    rw [hm, List.count_append, List.count_singleton, if_neg (by simpa using hne.symm)]
    rfl
  · exact Nat.succ_pos _

theorem NetInv.release (h : NetInv s) {nm : NetModule} (hnm : nm ∈ s.netModList) {l m : ℕ}
    {ns : List SsNode} (hns : s.subsysLists l = some (⟨some m⟩ :: ns)) (hm : nm.module = some m)
    (hlast : nm.refCnt - 1 ≠ 0) : NetInv (s.release nm l ns) := by
  apply h.modify hnm hns hm (f := dssNetModulePut)
    (fun _ => rfl) (fun _ => rfl) (fun _ => rfl)
  · intro node hnode
    exact Or.inl (List.mem_cons_of_mem _ hnode)
  · rw [List.count_cons_self]
    simp only [dssNetModulePut]
    omega
  · intro m' hne
    rw [List.count_cons_of_ne (by simpa using hne.symm)]
  · exact Nat.pos_of_ne_zero hlast

theorem NetInv.module_lt (h : NetInv s) {nm : NetModule} (hnm : nm ∈ s.netModList) {m : ℕ}
    (hm : nm.module = some m) : m < s.brk := by
  obtain ⟨m', st, hm', hmod, -⟩ := h.net nm hnm
  obtain rfl : m' = m := Option.some.inj (hm'.symm.trans hm)
  exact h.mod_lt m' _ hmod

theorem NetInv.nodes_brk (h : NetInv s) : s.nodes (s.brk + 1) = 0 := by
  by_contra hne
  obtain ⟨n, ns₁, hns₁, hmem⟩ := exists_node (Nat.pos_of_ne_zero hne)
  obtain ⟨nm, hnm, hnode⟩ := h.node n ns₁ hns₁ _ hmem
  have hlt := h.module_lt hnm hnode.symm
  omega

theorem NetInv.nodes_create (h : NetInv s) {e : InitEvent} {ns : List SsNode} (d : NetDevInfo)
    (hns : s.subsysLists e.nmSubsys = some ns) (m : ℕ) :
    (s.create d e ns).nodes m = s.nodes m + if m = s.brk + 1 then 1 else 0 := by
  have hsum := nodes_setList (h.list_lt _ ns hns) (some (ns ++ [⟨some (s.brk + 1)⟩])) m
  rw [hns] at hsum
  have hnodes : (s.create d e ns).nodes m + ns.count ⟨some m⟩ =
      s.nodes m + (ns ++ [SsNode.mk (some (s.brk + 1))]).count ⟨some m⟩ := hsum
  rw [List.count_append] at hnodes
  split_ifs with hm
  · subst hm
    rw [List.count_singleton_self] at hnodes
    omega
  · rw [List.count_singleton, if_neg (by simpa using Ne.symm hm)] at hnodes
    omega

theorem nodup_map_concat {α β : Type} {f : α → β} {l : List α} {x : α} (h : (l.map f).Nodup)
    (hx : ∀ y ∈ l, f y ≠ f x) : ((l ++ [x]).map f).Nodup := by
  rw [List.map_append, List.map_singleton, List.nodup_append]
  refine ⟨h, List.nodup_singleton _, ?_⟩
  rintro _ hy _ hfx rfl
  obtain ⟨y, hy, heq⟩ := List.mem_map.1 hy
  exact hx y hy (heq.trans (List.mem_singleton.1 hfx))

theorem NetInv.create (h : NetInv s) {e : InitEvent} {ns : List SsNode} (d : NetDevInfo)
    (hns : s.subsysLists e.nmSubsys = some ns) (hnew : ∀ nm ∈ s.netModList, nm.devName ≠ d.devName) :
    NetInv (s.create d e ns) := by
  have hnodes := h.nodes_create d hns
  constructor
  case dev_nodup => exact nodup_map_concat h.dev_nodup hnew
  case addr_nodup => exact nodup_map_concat h.addr_nodup fun nm hnm => (h.addr_lt nm hnm).ne
  case addr_lt =>
    intro nm hnm
    rcases List.mem_append.1 hnm with hnm | hnm
    · exact Nat.lt_add_right _ (h.addr_lt nm hnm)
    · rw [List.mem_singleton.1 hnm]
      show s.brk < s.brk + 2
      omega
  case mod_lt =>
    intro m dm hm
    change Function.update s.modules (s.brk + 1) _ m = some dm at hm
    show m < s.brk + 2
    by_cases hne : m = s.brk + 1
    · omega
    · rw [Function.update_of_ne hne] at hm
      exact Nat.lt_add_right _ (h.mod_lt m dm hm)
  case started_lt =>
    intro x hx
    show x.1 < s.brk + 2
    rcases List.mem_append.1 hx with hx | hx
    · exact Nat.lt_add_right _ (h.started_lt x hx)
    · rw [List.mem_singleton.1 hx]
      show s.brk + 1 < s.brk + 2
      omega
  case net =>
    intro nm hnm
    rcases List.mem_append.1 hnm with hnm | hnm
    · obtain ⟨m, st, hm, hmod₁, hst, href, hpos, hstart⟩ := h.net nm hnm
      have hne : m ≠ s.brk + 1 := by
        have := h.module_lt hnm hm
        omega
      refine ⟨m, st, hm, ?_, hst, ?_, hpos, List.mem_append_left _ hstart⟩
      · exact (Function.update_of_ne hne _ _).trans hmod₁
      · rw [hnodes, if_neg hne]
        exact href
    · rw [List.mem_singleton.1 hnm]
      refine ⟨s.brk + 1, .loading, rfl, Function.update_self .., by decide, ?_, one_pos,
        List.mem_append_right _ (List.mem_singleton_self _)⟩
      show 1 = (s.create d e ns).nodes (s.brk + 1)
      rw [hnodes, h.nodes_brk, if_pos rfl]
  case node =>
    intro n ns₁ hns₁ node hnode
    have hkeep : (∃ nm ∈ s.netModList, node.module = nm.module) →
        ∃ nm ∈ (s.create d e ns).netModList, node.module = nm.module :=
      fun ⟨nm, hnm, hm⟩ => ⟨nm, List.mem_append_left _ hnm, hm⟩
    change Function.update s.subsysLists e.nmSubsys _ n = some ns₁ at hns₁
    by_cases hn : n = e.nmSubsys
    · subst hn
      rw [Function.update_self] at hns₁
      cases hns₁
      rcases List.mem_append.1 hnode with hnode | hnode
      · exact hkeep (h.node _ ns hns node hnode)
      · rw [List.mem_singleton.1 hnode]
        exact ⟨_, List.mem_append_right _ (List.mem_singleton_self _), rfl⟩
    · rw [Function.update_of_ne hn] at hns₁
      exact hkeep (h.node n ns₁ hns₁ node hnode)
  case list_lt =>
    intro n ns₁ hns₁
    change Function.update s.subsysLists e.nmSubsys _ n = some ns₁ at hns₁
    by_cases hn : n = e.nmSubsys
    · exact hn ▸ h.list_lt _ ns hns
    · rw [Function.update_of_ne hn] at hns₁
      exact h.list_lt n ns₁ hns₁
  case started_nodup =>
    refine nodup_map_concat h.started_nodup fun x hx => ?_
    have hlt := h.started_lt x hx
    show x.1 ≠ s.brk + 1
    omega
  case perm =>
    show ((s.started ++ [_]).map Prod.fst).Perm
      (s.stopped ++ (s.netModList ++ [_]).filterMap NetModule.module)
    rw [List.map_append, List.filterMap_append, ← List.append_assoc]
    exact h.perm.append_right _

theorem perm_filter_addr {nms : List NetModule} (hnodup : (nms.map NetModule.addr).Nodup)
    {nm : NetModule} (hnm : nm ∈ nms) :
    nms.Perm (nm :: nms.filter fun nm' => nm'.addr ≠ nm.addr) := by
  induction nms with
  | nil => cases hnm
  | cons a nms ih =>
    rw [List.map_cons, List.nodup_cons] at hnodup
    rcases List.mem_cons.1 hnm with rfl | hnm
    · rw [List.filter_cons_of_neg (by simp), List.filter_eq_self.2]
      intro nm' hnm'
      have hne : nm'.addr ≠ nm.addr := fun heq => hnodup.1 (heq ▸ List.mem_map_of_mem hnm')
      simpa using hne
    · have hne : a.addr ≠ nm.addr := fun heq => hnodup.1 (heq ▸ List.mem_map_of_mem hnm)
      rw [List.filter_cons_of_pos (by simpa using hne)]
      exact ((ih hnodup.2 hnm).cons a).trans (.swap ..)

theorem NetInv.remove (h : NetInv s) {nm : NetModule} (hnm : nm ∈ s.netModList) {m : ℕ}
    {e : DestroyEvent} {ns : List SsNode} (hns : s.subsysLists e.nmSubsys = some (⟨some m⟩ :: ns))
    (hm : nm.module = some m) (hlast : nm.refCnt - 1 = 0) : NetInv (s.remove nm m e ns) := by
  have hl := h.list_lt _ _ hns
  have hperm := perm_filter_addr h.addr_nodup hnm
  have hsub : ∀ nm' ∈ (s.remove nm m e ns).netModList, nm' ∈ s.netModList ∧ nm'.addr ≠ nm.addr := by
    intro nm' hnm'
    obtain ⟨hnm', hne⟩ := List.mem_filter.1 hnm'
    exact ⟨hnm', by simpa using hne⟩
  have hne : ∀ nm' ∈ (s.remove nm m e ns).netModList, nm'.module ≠ some m := by
    intro nm' hnm' hm'
    obtain ⟨hmem, haddr⟩ := hsub nm' hnm'
    exact haddr (by rw [h.module_ne hmem hnm hm' hm])
  have hsum : ∀ m', (s.remove nm m e ns).nodes m' + (⟨some m⟩ :: ns).count ⟨some m'⟩ =
      s.nodes m' + ns.count ⟨some m'⟩ := by
    intro m'
    have hsum := nodes_setList hl (some ns) m'
    rw [hns] at hsum
    exact hsum
  have hzero : (s.remove nm m e ns).nodes m = 0 := by
    obtain ⟨m', -, hm', -, -, href, -⟩ := h.net nm hnm
    obtain rfl : m' = m := Option.some.inj (hm'.symm.trans hm)
    have hs := hsum m'
    rw [List.count_cons_self] at hs
    omega
  have hlists : ∀ n ns₁, (s.remove nm m e ns).subsysLists n = some ns₁ → n < s.calls.length ∧
      ∀ node ∈ ns₁, ∃ nm' ∈ s.netModList, node.module = nm'.module := by
    intro n ns₁ hns₁
    change Function.update s.subsysLists e.nmSubsys (some ns) n = some ns₁ at hns₁
    by_cases hn : n = e.nmSubsys
    · subst hn
      rw [Function.update_self] at hns₁
      cases hns₁
      exact ⟨hl, fun node hnode => h.node _ _ hns node (List.mem_cons_of_mem _ hnode)⟩
    · rw [Function.update_of_ne hn] at hns₁
      exact ⟨h.list_lt n ns₁ hns₁, h.node n ns₁ hns₁⟩
  constructor
  · exact h.dev_nodup.sublist (List.filter_sublist.map _)
  · exact h.addr_nodup.sublist (List.filter_sublist.map _)
  · exact fun nm' hnm' => h.addr_lt nm' (hsub nm' hnm').1
  · intro m' dm hdm
    change Function.update s.modules m _ m' = some dm at hdm
    by_cases hm' : m' = m
    · subst hm'
      obtain ⟨m₁, st, hm₁, hmod, -⟩ := h.net nm hnm
      obtain rfl : m₁ = m' := Option.some.inj (hm₁.symm.trans hm)
      exact h.mod_lt m₁ _ hmod
    · rw [Function.update_of_ne hm'] at hdm
      exact h.mod_lt m' dm hdm
  · exact h.started_lt
  · intro nm' hnm'
    obtain ⟨m', st, hm', hmod, hst, href, hpos, hstart⟩ := h.net nm' (hsub nm' hnm').1
    have hne' : m' ≠ m := fun heq => hne nm' hnm' (heq ▸ hm')
    refine ⟨m', st, hm', (Function.update_of_ne hne' _ _).trans hmod, hst, ?_, hpos, hstart⟩
    have hs := hsum m'
    rw [List.count_cons_of_ne (by simpa using hne'.symm)] at hs
    omega
  · intro n ns₁ hns₁ node hnode
    obtain ⟨hn, hnodes⟩ := hlists n ns₁ hns₁
    obtain ⟨nm', hnm', hnode'⟩ := hnodes node hnode
    refine ⟨nm', List.mem_filter.2 ⟨hnm', ?_⟩, hnode'⟩
    have haddr : nm'.addr ≠ nm.addr := by
      intro heq
      obtain rfl := h.eq_of_addr hnm' hnm heq
      have hmem : (⟨some m⟩ : SsNode) ∈ ns₁ := by
        rw [← hm, ← hnode']
        exact hnode
      exact (nodes_pos (s := s.remove nm' m e ns) hn hns₁ hmem).ne' hzero
    simpa using haddr
  · exact fun n ns₁ hns₁ => (hlists n ns₁ hns₁).1
  · exact h.started_nodup
  · have hmods := hperm.filterMap NetModule.module
    rw [List.filterMap_cons_some hm] at hmods
    show (s.started.map Prod.fst).Perm ((s.stopped ++ [m]) ++
      (s.netModList.filter fun nm' => nm'.addr ≠ nm.addr).filterMap NetModule.module)
    rw [List.append_assoc, List.singleton_append]
    exact h.perm.trans (hmods.append_left _)

/-! ### Modules that start and stop -/

/-- A list of a subsystem changes, and the chains that wait for a module keep their nodes. -/
theorem HeldInv.setList (h : HeldInv s) {l : ℕ} {o : Option (List SsNode)}
    (hkeep : ∀ m e ns, (m, Msg.initNext e) ∈ s.held → e.nmSubsys = l → s.subsysLists l = some ns →
      ⟨some m⟩ ∈ ns → ∃ ns', o = some ns' ∧ ⟨some m⟩ ∈ ns') : HeldInv (s.setList l o) where
  nodup := h.nodup
  held := h.held
  loading m ctx hm := by
    obtain ⟨e, ns, he, hns, hmem⟩ := h.loading m ctx hm
    by_cases hl : e.nmSubsys = l
    · obtain ⟨ns', ho, hmem'⟩ := hkeep m e ns he hl (hl ▸ hns) hmem
      refine ⟨e, ns', he, ?_, hmem'⟩
      show Function.update s.subsysLists l o e.nmSubsys = some ns'
      rw [hl, Function.update_self, ho]
    · exact ⟨e, ns, he, (Function.update_of_ne hl _ _).trans hns, hmem⟩

theorem HeldInv.setList_of_ne (h : HeldInv s) {l : ℕ} (o : Option (List SsNode))
    (hne : ∀ msg ∈ s.waiting, msg.nmSubsys ≠ some l) : HeldInv (s.setList l o) := by
  apply h.setList
  intro m e ns he hl
  exact absurd (congrArg some hl) (hne _ (List.mem_append_left _ (List.mem_map_of_mem he)))

theorem HeldInv.share (h : HeldInv s) (nm : NetModule) {l : ℕ} {ns : List SsNode}
    (hns : s.subsysLists l = some ns) : HeldInv (s.share nm l ns) := by
  have hset := h.setList (l := l) (o := some (ns ++ [⟨nm.module⟩])) fun m e ns' _ _ hns' hmem => by
    obtain rfl : ns = ns' := Option.some.inj (hns.symm.trans hns')
    exact ⟨_, rfl, List.mem_append_left _ hmem⟩
  exact ⟨hset.nodup, hset.held, hset.loading⟩

theorem HeldInv.create (h : HeldInv s) (hnet : NetInv s) {e : InitEvent} {ns : List SsNode}
    (d : NetDevInfo) (hns : s.subsysLists e.nmSubsys = some ns) : HeldInv (s.create d e ns) := by
  have hlt : ∀ x ∈ s.held, x.1 < s.brk := by
    intro x hx
    obtain ⟨ctx, st, hm, -⟩ := h.held x hx
    exact hnet.mod_lt _ _ hm
  constructor
  · show ((s.held ++ [_]).map Prod.fst).Nodup
    rw [List.map_append, List.map_singleton, List.nodup_append]
    refine ⟨h.nodup, List.nodup_singleton _, ?_⟩
    rintro _ hx _ hy rfl
    obtain ⟨x, hx, hm⟩ := List.mem_map.1 hx
    have := hlt x hx
    have := hm.trans (List.mem_singleton.1 hy)
    omega
  · intro x hx
    rcases List.mem_append.1 hx with hx | hx
    · obtain ⟨ctx, st, hm, hst⟩ := h.held x hx
      have hne : x.1 ≠ s.brk + 1 := by
        have := hlt x hx
        omega
      exact ⟨ctx, st, (Function.update_of_ne hne _ _).trans hm, hst⟩
    · rw [List.mem_singleton.1 hx]
      exact ⟨s.brk, .loading, Function.update_self .., by decide⟩
  · intro m ctx hm
    change Function.update s.modules (s.brk + 1) _ m = _ at hm
    by_cases hne : m = s.brk + 1
    · subst hne
      exact ⟨e, _, List.mem_append_right _ (List.mem_singleton_self _), Function.update_self ..,
        List.mem_append_right _ (List.mem_singleton_self _)⟩
    · rw [Function.update_of_ne hne] at hm
      obtain ⟨e', ns', he', hns', hmem⟩ := h.loading m ctx hm
      by_cases hl : e'.nmSubsys = e.nmSubsys
      · obtain rfl : ns = ns' := Option.some.inj (hns.symm.trans (hl ▸ hns'))
        refine ⟨e', ns ++ [⟨some (s.brk + 1)⟩], List.mem_append_left _ he', ?_,
          List.mem_append_left _ hmem⟩
        show Function.update s.subsysLists e.nmSubsys _ e'.nmSubsys = _
        rw [hl, Function.update_self]
      · exact ⟨e', ns', List.mem_append_left _ he', (Function.update_of_ne hl _ _).trans hns', hmem⟩

theorem HeldInv.remove (h : HeldInv s) {nm : NetModule} {m : ℕ} {e : DestroyEvent}
    {ns : List SsNode} (hm : s.modules m = some ⟨nm.addr, .loaded⟩)
    (hne : ∀ msg ∈ s.waiting, msg.nmSubsys ≠ some e.nmSubsys) : HeldInv (s.remove nm m e ns) := by
  have hnot : ∀ x ∈ s.held, x.1 ≠ m := by
    intro x hx heq
    obtain ⟨ctx, st, hm', hst⟩ := h.held x hx
    rw [heq, hm] at hm'
    cases hm'
    exact hst rfl
  have hset := h.setList_of_ne (some ns) hne
  constructor
  · show ((s.held ++ [_]).map Prod.fst).Nodup
    rw [List.map_append, List.map_singleton, List.nodup_append]
    refine ⟨h.nodup, List.nodup_singleton _, ?_⟩
    rintro _ hx _ hy rfl
    obtain ⟨x, hx, hx'⟩ := List.mem_map.1 hx
    exact hnot x hx (hx'.trans (List.mem_singleton.1 hy))
  · intro x hx
    rcases List.mem_append.1 hx with hx | hx
    · obtain ⟨ctx, st, hm', hst⟩ := h.held x hx
      exact ⟨ctx, st, (Function.update_of_ne (hnot x hx) _ _).trans hm', hst⟩
    · rw [List.mem_singleton.1 hx]
      exact ⟨nm.addr, .unloading, Function.update_self .., by decide⟩
  · intro m' ctx hm'
    change Function.update s.modules m _ m' = _ at hm'
    by_cases heq : m' = m
    · rw [heq, Function.update_self] at hm'
      cases hm'
    · rw [Function.update_of_ne heq] at hm'
      obtain ⟨e', ns', he', hns', hmem⟩ := hset.loading m' ctx hm'
      exact ⟨e', ns', List.mem_append_left _ he', hns', hmem⟩

end

end DssSdk.Net.Sharing
