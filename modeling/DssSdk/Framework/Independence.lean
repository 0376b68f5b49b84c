import DssSdk.Framework.Subsystem
import DssSdk.Lib.Run

/-!
# Subsystems are configured independently

The history of set-ups and destructions, and what it says when every subsystem gets the modules that
its own and the global configuration ask for.

* `ownModules`: the modules and arguments for a configuration;
* `Independent`: every set-up of a history started these modules, every destruction stopped those of
  the set-up, and the completion was called once;
* `Compatible`, `independent_of_run`: this holds in a run where a subsystem in KV mode is set up and
  destroyed only while no other mode was set up, and the same for the iops-perf mode.

The table keeps the flags from one subsystem to the next: a subsystem without KV mode clears that of
KVTRANS for good, and one without iops-perf mode leaves that of NET set.
-/

namespace DssSdk.Framework

open ModuleType

/-! ### Lists of modules -/

section Processing

variable {g : GlobalConf}

/-- The enabled modules of a list. -/
def Table.enabledOf (t : Table) (l : List ModuleType) : List ModuleType :=
  l.filter fun m => (t m).modEnabled

theorem nextModule_cons (t : Table) (i : ℕ) (m : ModuleType) (ms : List ModuleType) :
    nextModule t i (m :: ms) =
      if (t m).modEnabled = false then nextModule t (i + 1) ms else some (i, m) := rfl

/-- `advance`, and the calls that the completions make. -/
def processFrom (g : GlobalConf) (fuel : ℕ) (s : State) (ev : ProcessEvent) :
    Option (State × List Action) :=
  (advance s ev).bind fun r =>
    match r with
    | (s, acts, none) => some (s, acts)
    | (s, acts, some ev) => (processAll g fuel s ev).bind fun q => some (q.1, acts ++ q.2)

theorem processAll_succ (fuel : ℕ) (s : State) {ev : ProcessEvent}
    (h : ¬ (ev.currModule = 0 ∧ ev.toInitialize = true)) :
    processAll g (fuel + 1) s ev = processFrom g fuel s ev := by
  unfold processAll processNext processFrom
  rw [if_neg h]
  rfl

theorem processAll_start (fuel : ℕ) (s : State) (nvmf : NvmfSubsystem) :
    processAll g (fuel + 1) s ⟨nvmf, true, 0⟩ =
      (configure g (s.subsystems nvmf.id) nvmf s.moduleInitializers).bind fun t =>
        processFrom g fuel { s with moduleInitializers := t } ⟨nvmf, true, 0⟩ := by
  unfold processAll processNext processFrom
  rw [if_pos ⟨rfl, rfl⟩]
  dsimp only
  cases configure g (s.subsystems nvmf.id) nvmf s.moduleInitializers with
  | none => rfl
  | some t => rfl

theorem advance_skip {s : State} {nvmf : NvmfSubsystem} {b : Bool} {k : ℕ} {m : ModuleType}
    {l : List ModuleType} (hl : order.drop k = m :: l)
    (hm : (s.moduleInitializers m).modEnabled = false) :
    (advance s ⟨nvmf, b, k⟩) = advance s ⟨nvmf, b, k + 1⟩ := by
  have hl' : order.drop (k + 1) = l := by
    rw [← List.tail_drop, hl]
    rfl
  unfold advance
  dsimp only
  rw [hl, hl', nextModule_cons, if_pos hm]

/-- The state after the modules `ms` were started (`b`) or stopped. -/
def State.setModules (s : State) (id : ℕ) (ms : List ModuleType) (b : Bool) : State :=
  s.modify id fun ss => { ss with mlist := fun m => if m ∈ ms then b else ss.mlist m }

theorem setModules_cons (s : State) (id : ℕ) (m : ModuleType) (ms : List ModuleType) (b : Bool) :
    (s.modify id fun ss => { ss with mlist := Function.update ss.mlist m b }).setModules id ms b =
      s.setModules id (m :: ms) b := by
  unfold State.setModules State.modify
  simp only [Function.update_self, Function.update_idem]
  congr 2
  congr 1
  funext m'
  by_cases h : m' ∈ ms
  · rw [if_pos h, if_pos (List.mem_cons_of_mem _ h)]
  · by_cases hm : m' = m
    · subst hm
      rw [if_neg h, if_pos List.mem_cons_self, Function.update_self]
    · rw [if_neg h, if_neg (by simp [h, hm]), Function.update_of_ne hm]

theorem setModules_nil (s : State) (id : ℕ) (b : Bool) : s.setModules id [] b = s := by
  unfold State.setModules State.modify
  simp

/-- The last assignments of a set-up (`b`) or a destruction. -/
def State.finish (s : State) (id : ℕ) (b : Bool) : State :=
  if b then
    { s with moduleInitializers := s.moduleInitializers.resetArgs }.modify id
      fun ss => { ss with initialized := true }
  else s.modify id fun ss => { ss with initialized := false }

theorem finish_other (s : State) {id id' : ℕ} (ms : List ModuleType) (b : Bool) (hne : id' ≠ id) :
    ((s.setModules id ms b).finish id b).subsystems id' = s.subsystems id' := by
  unfold State.finish State.setModules State.modify
  cases b with
  | true => simp [Function.update_of_ne hne]
  | false => simp [Function.update_of_ne hne]

theorem finish_initialized (s : State) (id : ℕ) (ms : List ModuleType) (b : Bool) :
    (((s.setModules id ms b).finish id b).subsystems id).initialized = b := by
  unfold State.finish State.modify
  cases b with
  | true => simp
  | false => simp

theorem finish_mlist (s : State) (id : ℕ) (ms : List ModuleType) (b : Bool) (m : ModuleType) :
    (((s.setModules id ms b).finish id b).subsystems id).mlist m =
      if m ∈ ms then b else (s.subsystems id).mlist m := by
  unfold State.finish State.setModules State.modify
  cases b with
  | true => simp
  | false => simp

/-- The action for an enabled module. -/
def actionOf (t : Table) (id : ℕ) (b : Bool) (m : ModuleType) : Action :=
  if b then .start id m (t m).arg else .stop id m

/-- A module that can be started (`b`) or stopped. -/
def Ready (s : State) (id : ℕ) (b : Bool) (m : ModuleType) : Prop :=
  if b then needsArg m = true → (s.moduleInitializers m).arg ≠ none
  else hasDeinit m = true ∧ (s.subsystems id).mlist m = true

theorem advance_enabled {s : State} {nvmf : NvmfSubsystem} {b : Bool} {k : ℕ} {m : ModuleType}
    {l : List ModuleType} (hl : order.drop k = m :: l)
    (hm : (s.moduleInitializers m).modEnabled = true) (hready : Ready s nvmf.id b m) :
    advance s ⟨nvmf, b, k⟩ =
      some (s.modify nvmf.id (fun ss => { ss with mlist := Function.update ss.mlist m b }),
        [actionOf s.moduleInitializers nvmf.id b m], some ⟨nvmf, b, k + 1⟩) := by
  unfold advance
  dsimp only
  rw [hl, nextModule_cons, if_neg (by simp [hm])]
  dsimp only
  cases b with
  | true =>
    rw [if_pos rfl, if_neg]
    · rfl
    · rintro ⟨h1, h2⟩
      exact hready h1 h2
  | false =>
    have hready' : hasDeinit m = true ∧ (s.subsystems nvmf.id).mlist m = true := hready
    rw [if_neg (by decide), if_pos hready']
    rfl

theorem Ready.of_ne {s : State} {id : ℕ} {b : Bool} {m m' : ModuleType} (h : Ready s id b m')
    (hne : m' ≠ m) :
    Ready (s.modify id fun ss => { ss with mlist := Function.update ss.mlist m b }) id b m' := by
  cases b with
  | true => exact h
  | false =>
    obtain ⟨h1, h2⟩ := h
    exact ⟨h1, by simpa [State.modify, Function.update_of_ne hne] using h2⟩

theorem processFrom_eq (nvmf : NvmfSubsystem) (b : Bool) {t : Table} {l : List ModuleType}
    (hnodup : l.Nodup) (k fuel : ℕ) (s : State) (ht : s.moduleInitializers = t)
    (hl : order.drop k = l) (hfuel : l.length ≤ fuel)
    (hready : ∀ m ∈ l, (t m).modEnabled = true → Ready s nvmf.id b m) :
    processFrom g fuel s ⟨nvmf, b, k⟩ =
      some ((s.setModules nvmf.id (t.enabledOf l) b).finish nvmf.id b,
        (t.enabledOf l).map (actionOf t nvmf.id b) ++ [.callback nvmf.id]) := by
  induction l generalizing k fuel s with
  | nil =>
    unfold processFrom advance
    dsimp only
    rw [hl, show t.enabledOf [] = [] from rfl, setModules_nil]
    cases b with
    | true => rfl
    | false => rfl
  | cons m l ih =>
    have hl' : order.drop (k + 1) = l := by
      rw [← List.tail_drop, hl]
      rfl
    rw [List.length_cons] at hfuel
    by_cases hm : (t m).modEnabled = true
    · have hen : t.enabledOf (m :: l) = m :: t.enabledOf l := by
        simp [Table.enabledOf, hm]
      obtain ⟨fuel, rfl⟩ : ∃ f, fuel = f + 1 := ⟨fuel - 1, by omega⟩
      have hrest := ih hnodup.of_cons (k + 1) fuel
        (s.modify nvmf.id fun ss => { ss with mlist := Function.update ss.mlist m b }) ht hl'
        (by omega) ?_
      · unfold processFrom
        rw [advance_enabled hl (by rw [ht]; exact hm) (hready m List.mem_cons_self hm)]
        simp only [Option.bind_some]
        rw [processAll_succ _ _ (by simp), hrest, hen, setModules_cons, ht]
        rfl
      · -- the module does not come again
        intro m' hmem hen'
        refine (hready m' (List.mem_cons_of_mem _ hmem) hen').of_ne fun h0 => ?_
        exact (List.nodup_cons.1 hnodup).1 (h0 ▸ hmem)
    · have hm' : (t m).modEnabled = false := by simpa using hm
      have hen : t.enabledOf (m :: l) = t.enabledOf l := by
        simp [Table.enabledOf, hm']
      rw [hen, ← ih hnodup.of_cons (k + 1) fuel s ht hl' (by omega)
        (fun m' hmem => hready m' (List.mem_cons_of_mem _ hmem))]
      unfold processFrom
      rw [advance_skip hl (by rw [ht]; exact hm')]

end Processing

/-! ### The flags of a set-up -/

@[simp] theorem Table.enable_modEnabled (t : Table) (m m' : ModuleType) (b : Bool) :
    (t.enable m b m').modEnabled = if m' = m then b else (t m').modEnabled := by
  unfold Table.enable
  by_cases h : m' = m
  · subst h
    simp
  · simp [h]

@[simp] theorem Table.enable_arg (t : Table) (m m' : ModuleType) (b : Bool) :
    (t.enable m b m').arg = (t m').arg := by
  unfold Table.enable
  by_cases h : m' = m
  · subst h
    simp
  · simp [h]

@[simp] theorem Table.setArg_modEnabled (t : Table) (m m' : ModuleType) (a : Option Arg) :
    (t.setArg m a m').modEnabled = (t m').modEnabled := by
  unfold Table.setArg
  by_cases h : m' = m
  · subst h
    simp
  · simp [h]

@[simp] theorem Table.setArg_arg (t : Table) (m m' : ModuleType) (a : Option Arg) :
    (t.setArg m a m').arg = if m' = m then a else (t m').arg := by
  unfold Table.setArg
  by_cases h : m' = m
  · subst h
    simp
  · simp [h]

/-- The configuration of a subsystem for one set-up. -/
structure Own where
  kvMode : Bool
  iopsPerfMode : Bool
  listeners : List String
  ioOps : Option Arg
  deriving DecidableEq, Repr

/-- The modules that the configuration asks for, with their arguments. -/
def ownModules (g : GlobalConf) (o : Own) : List (ModuleType × Option Arg) :=
  (if o.iopsPerfMode = false then
    [(.net, some (.netConfig (dssFillDssNetDevInfo g o.listeners))), (.io, o.ioOps)] else []) ++
  (if o.kvMode then [(.kvtrans, none)] else []) ++
  (if g.listEnabled then [(.list, some .listConf)] else [])

/-- The table when the modules of a set-up are started. -/
structure SetUp (g : GlobalConf) (o : Own) (t t' : Table) : Prop where
  lock : (t' .lock).modEnabled = false
  fuse : (t' .fuse).modEnabled = false
  wal : (t' .wal).modEnabled = false
  net : (t' .net).modEnabled = (!o.iopsPerfMode || (t .net).modEnabled)
  io : (t' .io).modEnabled = !o.iopsPerfMode
  kvtrans : (t' .kvtrans).modEnabled = (o.kvMode && (t .kvtrans).modEnabled)
  list : (t' .list).modEnabled = (g.listEnabled || (t .list).modEnabled)
  netArg : (t' .net).arg = if o.iopsPerfMode then (t .net).arg else
    some (.netConfig (dssFillDssNetDevInfo g o.listeners))
  ioArg : (t' .io).arg = o.ioOps
  kvtransArg : (t' .kvtrans).arg = (t .kvtrans).arg
  listArg : (t' .list).arg = if g.listEnabled then some .listConf else (t .list).arg

theorem configure_spec (g : GlobalConf) (ss : DflySubsystem) (nvmf : NvmfSubsystem)
    (ioOps : Option Arg) (t : Table) (hss : ss.dssEnabled = true)
    (hlisten : ss.dssIopsPerfMode = false → nvmf.listeners ≠ []) :
    ∃ t', configure g ss nvmf (enableModules g ss.dssKvMode ioOps t) = some t' ∧
      SetUp g ⟨ss.dssKvMode, ss.dssIopsPerfMode, nvmf.listeners, ioOps⟩ t t' := by
  unfold configure enableModules dssEnableNetModule
  rw [if_pos hss, hss]
  cases hperf : ss.dssIopsPerfMode with
  | true =>
    refine ⟨_, rfl, ?_⟩
    cases ss.dssKvMode <;> cases hl : g.listEnabled <;> cases g.fuseEnabled <;>
      cases g.walCacheEnabled <;> constructor <;> simp [hl]
  | false =>
    have hne := hlisten hperf
    rw [if_pos (by decide), if_neg (by simpa using hne)]
    refine ⟨_, rfl, ?_⟩
    cases ss.dssKvMode <;> cases hl : g.listEnabled <;> cases g.fuseEnabled <;>
      cases g.walCacheEnabled <;> constructor <;> simp [hl]

/-- The modules enabled at a set-up are its own, when KVTRANS is still enabled for a subsystem in KV
mode and NET not yet for one in iops-perf mode. -/
theorem SetUp.ownModules_eq {g : GlobalConf} {o : Own} {t t' : Table} (h : SetUp g o t t')
    (hargs : ∀ m, (t m).arg = none) (hkv : o.kvMode = true → (t .kvtrans).modEnabled = true)
    (hnet : o.iopsPerfMode = true → (t .net).modEnabled = false)
    (hlist : (t .list).modEnabled = true → g.listEnabled = true) :
    (t'.enabledOf order).map (fun m => (m, (t' m).arg)) = ownModules g o := by
  have hnet' : (t' .net).modEnabled = !o.iopsPerfMode := by
    rw [h.net]
    cases hp : o.iopsPerfMode with
    | true => simp [hnet hp]
    | false => rfl
  have hkv' : (t' .kvtrans).modEnabled = o.kvMode := by
    rw [h.kvtrans]
    cases hk : o.kvMode with
    | true => simp [hkv hk]
    | false => rfl
  have hlist' : (t' .list).modEnabled = g.listEnabled := by
    rw [h.list]
    cases hl : (t .list).modEnabled with
    | true => simp [hlist hl]
    | false => simp
  unfold Table.enabledOf order ownModules
  simp only [List.filter_cons, List.filter_nil, h.lock, h.fuse, h.wal, h.io, hnet', hkv', hlist']
  cases hp : o.iopsPerfMode <;> cases hk : o.kvMode <;> cases hl : g.listEnabled <;>
    simp [h.netArg, h.ioArg, h.kvtransArg, h.listArg, hargs, hp, hl]

/-! ### Histories -/

/-- The calls. -/
inductive Call
  | parseConf (id : ℕ) (sp : Section)
  | init (nvmf : NvmfSubsystem) (ioOps : Option Arg)
  | destroy (nvmf : NvmfSubsystem)
  deriving DecidableEq, Repr

/-- A call to set up or destroy a subsystem: the configuration at the call, the code it returned
and what it did. -/
structure Entry where
  id : ℕ
  own : Own
  reply : Reply
  actions : List Action
  deriving DecidableEq, Repr

namespace Entry

/-- The modules it started, with their arguments. -/
def starts (e : Entry) : List (ModuleType × Option Arg) :=
  e.actions.filterMap fun a =>
    match a with
    | .start _ m arg => some (m, arg)
    | _ => none

/-- The modules it stopped. -/
def stops (e : Entry) : List ModuleType :=
  e.actions.filterMap fun a =>
    match a with
    | .stop _ m => some m
    | _ => none

/-- How often it called its completion. -/
def callbacks (e : Entry) : ℕ := e.actions.count (.callback e.id)

end Entry

/-- The state with the calls so far, the last one first. -/
structure History where
  state : State
  entries : List Entry

/-- The configuration that a set-up reads. -/
def ownOf (s : State) (nvmf : NvmfSubsystem) (ioOps : Option Arg) : Own :=
  let ss := s.subsystems nvmf.id
  ⟨ss.dssKvMode, ss.dssIopsPerfMode, nvmf.listeners, ioOps⟩

/-- One call, processed to its end. -/
def History.step (g : GlobalConf) (h : History) : Call → Option History
  | .parseConf id sp => some { h with state := dfSubsystemParseConf g h.state id sp }
  | .init nvmf ioOps =>
      (dflySubsystemInit g h.state nvmf ioOps).map fun r =>
        ⟨r.1, ⟨nvmf.id, ownOf h.state nvmf ioOps, r.2.1, r.2.2⟩ :: h.entries⟩
  | .destroy nvmf =>
      (dflySubsystemDestroy g h.state nvmf).map fun r =>
        ⟨r.1, ⟨nvmf.id, ownOf h.state nvmf none, r.2.1, r.2.2⟩ :: h.entries⟩

/-- The last set-up of a subsystem. -/
def lastSetUp (id : ℕ) (entries : List Entry) : Option Entry :=
  entries.find? fun e => e.id = id ∧ e.reply = .initPending

/-- A call did what the configuration of its own subsystem asks for. -/
structure EntryOk (g : GlobalConf) (older : List Entry) (e : Entry) : Prop where
  starts : e.starts = if e.reply = .initPending then ownModules g e.own else []
  stops : e.stops = if e.reply = .deinitPending then
    ((lastSetUp e.id older).map fun e' => e'.starts.map Prod.fst).getD [] else []
  args : ∀ m a, (m, a) ∈ e.starts → needsArg m = true → a ≠ none
  callbacks : e.callbacks = if e.reply = .initPending ∨ e.reply = .deinitPending then 1 else 0

/-- Every call of a history did. -/
def Independent (g : GlobalConf) : List Entry → Prop
  | [] => True
  | e :: older => EntryOk g older e ∧ Independent g older

/-- Every subsystem set up so far is in KV mode if this one is, and in iops-perf mode if this one
is. -/
def Compatible (entries : List Entry) (o : Own) : Prop :=
  ∀ e ∈ entries, e.reply = .initPending →
    (o.kvMode = true → e.own.kvMode = true) ∧ (o.iopsPerfMode = true → e.own.iopsPerfMode = true)

/-- A call to set up a subsystem starts modules. -/
def Performs (s : State) (nvmf : NvmfSubsystem) : Prop :=
  (s.subsystems nvmf.id).dssEnabled = true ∧ nvmf.nvme = true ∧
    (s.subsystems nvmf.id).initialized = false

/-- The calls under which the subsystems stay independent. -/
def Admits (h : History) : Call → Prop
  | .parseConf _ _ => True
  | .init nvmf ioOps =>
      nvmf.id < maxSs ∧ (Performs h.state nvmf →
        Compatible h.entries (ownOf h.state nvmf ioOps) ∧
          ((ownOf h.state nvmf ioOps).iopsPerfMode = false → nvmf.listeners ≠ []))
  | .destroy nvmf =>
      nvmf.id < maxSs ∧ ((h.state.subsystems nvmf.id).initialized = true →
        ∀ e ∈ lastSetUp nvmf.id h.entries, Compatible h.entries e.own)

instance (entries : List Entry) (o : Own) : Decidable (Compatible entries o) :=
  inferInstanceAs (Decidable (∀ e ∈ entries, _))

instance (s : State) (nvmf : NvmfSubsystem) : Decidable (Performs s nvmf) :=
  inferInstanceAs (Decidable (_ ∧ _ ∧ _))

instance (h : History) : (call : Call) → Decidable (Admits h call)
  | .parseConf _ _ => isTrue trivial
  | .init _ _ => inferInstanceAs (Decidable (_ ∧ (_ → _ ∧ (_ → ¬ _ = _))))
  | .destroy _ => inferInstanceAs (Decidable (_ ∧ (_ → ∀ e ∈ _, _)))

/-- The start: nothing is configured. -/
def History.initial : History := ⟨State.initial, []⟩

/-! ### The invariant -/

/-- What the table and the subsystems say about the calls so far. -/
structure HistoryInv (g : GlobalConf) (h : History) : Prop where
  independent : Independent g h.entries
  args : ∀ m, (h.state.moduleInitializers m).arg = none
  kv : (h.state.moduleInitializers .kvtrans).modEnabled = true ↔
    ∀ e ∈ h.entries, e.reply = .initPending → e.own.kvMode = true
  net : (h.state.moduleInitializers .net).modEnabled = true ↔
    ∃ e ∈ h.entries, e.reply = .initPending ∧ e.own.iopsPerfMode = false
  list : (h.state.moduleInitializers .list).modEnabled = true → g.listEnabled = true
  after : ∀ e ∈ h.entries, e.reply = .initPending →
    (h.state.moduleInitializers .lock).modEnabled = false ∧
    (h.state.moduleInitializers .fuse).modEnabled = false ∧
    (h.state.moduleInitializers .wal).modEnabled = false ∧
    (h.state.moduleInitializers .io).modEnabled = (h.state.moduleInitializers .net).modEnabled ∧
    (h.state.moduleInitializers .list).modEnabled = g.listEnabled
  idle : ∀ id, (h.state.subsystems id).initialized = false →
    ∀ m, (h.state.subsystems id).mlist m = false
  running : ∀ id, (h.state.subsystems id).initialized = true →
    ∃ e, lastSetUp id h.entries = some e ∧
      ∀ m, (h.state.subsystems id).mlist m = true ↔ m ∈ (ownModules g e.own).map Prod.fst

theorem historyInv_initial (g : GlobalConf) : HistoryInv g History.initial := by
  refine ⟨trivial, fun m => ?_, ?_, ?_, ?_, ?_, fun _ _ _ => rfl, fun _ h => ?_⟩
  · cases m <;> rfl
  · exact ⟨fun _ e he => absurd he List.not_mem_nil, fun _ => rfl⟩
  · constructor
    · intro h
      cases h
    · rintro ⟨e, he, -⟩
      cases he
  · intro h
    cases h
  · intro e he
    cases he
  · cases h

theorem lastSetUp_spec {id : ℕ} {entries : List Entry} {e : Entry}
    (h : lastSetUp id entries = some e) : e ∈ entries ∧ e.id = id ∧ e.reply = .initPending := by
  have h1 := List.mem_of_find?_eq_some h
  have h2 := List.find?_some h
  simp only [decide_eq_true_eq] at h2
  exact ⟨h1, h2⟩

/-- Every set-up of an independent history started its own modules. -/
theorem Independent.starts {g : GlobalConf} {entries : List Entry} (h : Independent g entries)
    {e : Entry} (he : e ∈ entries) (hr : e.reply = .initPending) : e.starts = ownModules g e.own := by
  induction entries with
  | nil => cases he
  | cons e' older ih =>
    obtain ⟨hok, hrest⟩ := h
    rcases List.mem_cons.1 he with rfl | he
    · rw [hok.starts, if_pos hr]
    · exact ih hrest he

theorem entryOk_done (g : GlobalConf) (older : List Entry) (id : ℕ) (o : Own) {reply : Reply}
    (h1 : reply ≠ .initPending) (h2 : reply ≠ .deinitPending) :
    EntryOk g older ⟨id, o, reply, []⟩ := by
  refine ⟨?_, ?_, fun m a ha => absurd ha List.not_mem_nil, ?_⟩
  · rw [if_neg h1]
    rfl
  · rw [if_neg h2]
    rfl
  · rw [if_neg (by simp [h1, h2])]
    rfl

/-- A call that returns at once keeps the invariant. -/
theorem HistoryInv.done {g : GlobalConf} {h : History} (hi : HistoryInv g h) (id : ℕ) (o : Own)
    {reply : Reply} (h1 : reply ≠ .initPending) (h2 : reply ≠ .deinitPending)
    (oss : ℕ → Bool) :
    HistoryInv g ⟨{ h.state with ossTargetEnabled := oss }, ⟨id, o, reply, []⟩ :: h.entries⟩ := by
  have hmem : ∀ {P : Entry → Prop},
      (∀ e ∈ (⟨id, o, reply, []⟩ : Entry) :: h.entries, e.reply = .initPending → P e) ↔
        ∀ e ∈ h.entries, e.reply = .initPending → P e := by
    intro P
    simp only [List.mem_cons, forall_eq_or_imp]
    exact ⟨fun hh => hh.2, fun hh => ⟨fun h0 => absurd h0 h1, hh⟩⟩
  refine ⟨⟨entryOk_done g _ id o h1 h2, hi.independent⟩, hi.args, ?_, ?_, hi.list, ?_, hi.idle, ?_⟩
  · rw [hmem]
    exact hi.kv
  · rw [show (∃ e ∈ (⟨id, o, reply, []⟩ : Entry) :: h.entries, e.reply = .initPending ∧
        e.own.iopsPerfMode = false) ↔ ∃ e ∈ h.entries, e.reply = .initPending ∧
        e.own.iopsPerfMode = false by simp [h1]]
    exact hi.net
  · rw [hmem]
    exact hi.after
  · intro id' hid'
    obtain ⟨e, he, hrun⟩ := hi.running id' hid'
    refine ⟨e, ?_, hrun⟩
    unfold lastSetUp
    rw [List.find?_cons_of_neg (by simp [h1])]
    exact he

theorem HistoryInv.parseConf {g : GlobalConf} {h : History} (hi : HistoryInv g h) (id : ℕ)
    (sp : Section) : HistoryInv g { h with state := dfSubsystemParseConf g h.state id sp } := by
  have hsame : ∀ id', ((dfSubsystemParseConf g h.state id sp).subsystems id').initialized =
      (h.state.subsystems id').initialized ∧
      ((dfSubsystemParseConf g h.state id sp).subsystems id').mlist =
        (h.state.subsystems id').mlist := by
    intro id'
    unfold dfSubsystemParseConf State.modify
    by_cases hid : id' = id
    · subst hid
      simp
    · simp [Function.update_of_ne hid]
  refine ⟨hi.independent, hi.args, hi.kv, hi.net, hi.list, hi.after, fun id' h0 m => ?_,
    fun id' h0 => ?_⟩
  · dsimp only at h0 ⊢
    rw [(hsame id').1] at h0
    rw [(hsame id').2]
    exact hi.idle id' h0 m
  · dsimp only at h0 ⊢
    rw [(hsame id').1] at h0
    rw [(hsame id').2]
    exact hi.running id' h0

/-! ### The calls keep the invariant -/

theorem order_nodup : order.Nodup := by decide

theorem dflySubsystemInit_spec {g : GlobalConf} {h : History} (hi : HistoryInv g h)
    {nvmf : NvmfSubsystem} {ioOps : Option Arg} (hok : Admits h (.init nvmf ioOps))
    (hperf : Performs h.state nvmf) :
    ∃ s t', dflySubsystemInit g h.state nvmf ioOps = some (s, .initPending,
        (ownModules g (ownOf h.state nvmf ioOps)).map (fun p => .start nvmf.id p.1 p.2) ++
          [.callback nvmf.id]) ∧
      SetUp g (ownOf h.state nvmf ioOps) h.state.moduleInitializers t' ∧
      s.moduleInitializers = t'.resetArgs ∧
      (∀ id, id ≠ nvmf.id → s.subsystems id = h.state.subsystems id) ∧
      (s.subsystems nvmf.id).initialized = true ∧
      (∀ m, (s.subsystems nvmf.id).mlist m = true ↔
        m ∈ (ownModules g (ownOf h.state nvmf ioOps)).map Prod.fst) := by
  obtain ⟨hid, hcond⟩ := hok
  obtain ⟨hcomp, hlisten⟩ := hcond hperf
  obtain ⟨hen, hnvme, hini⟩ := hperf
  obtain ⟨t', ht', hset⟩ := configure_spec g (h.state.subsystems nvmf.id) nvmf ioOps
    h.state.moduleInitializers hen hlisten
  have hnet : (ownOf h.state nvmf ioOps).iopsPerfMode = true →
      (h.state.moduleInitializers .net).modEnabled = false := by
    intro hp
    by_contra hno
    obtain ⟨e, he, hr, hperf⟩ := hi.net.1 (by simpa using hno)
    exact absurd ((hcomp e he hr).2 hp) (by simp [hperf])
  have hown := hset.ownModules_eq hi.args
    (fun hk => hi.kv.2 fun e he hr => (hcomp e he hr).1 hk) hnet hi.list
  have hnames : t'.enabledOf order =
      (ownModules g (ownOf h.state nvmf ioOps)).map Prod.fst := by
    rw [show ownModules g (ownOf h.state nvmf ioOps) = _ from hown.symm, List.map_map]
    exact (List.map_id _).symm
  -- the state when the first module is looked for
  let s₀ : State := { h.state with
    ossTargetEnabled := Function.update h.state.ossTargetEnabled nvmf.id true
    moduleInitializers := t'
    fuseNqnName := if g.fuseEnabled then nvmf.subnqn else h.state.fuseNqnName }
  have hready : ∀ m ∈ order, (t' m).modEnabled = true → Ready s₀ nvmf.id true m := by
    intro m _ hm hneed
    show (t' m).arg ≠ none
    cases m with
    | fuse =>
      rw [hset.fuse] at hm
      cases hm
    | net =>
      rw [hset.netArg]
      cases hp : (h.state.subsystems nvmf.id).dssIopsPerfMode with
      | true =>
        rw [hset.net, hnet hp, hp] at hm
        cases hm
      | false =>
        rw [if_neg (by simp)]
        exact Option.some_ne_none _
    | lock => cases hneed
    | io => cases hneed
    | kvtrans => cases hneed
    | list => cases hneed
    | wal => cases hneed
  have hrun := processFrom_eq (g := g) nvmf true order_nodup 0 order.length s₀ rfl
    rfl le_rfl hready
  refine ⟨(s₀.setModules nvmf.id (t'.enabledOf order) true).finish nvmf.id true, t', ?_, hset, rfl,
    fun id hne => ?_, ?_, fun m => ?_⟩
  · unfold dflySubsystemInit
    dsimp only
    rw [if_neg (by omega), hen, hnvme, if_pos (by decide), if_neg (by simp [hini]),
      processAll_start, ht', Option.bind_some, hrun]
    simp only [Option.bind_eq_bind, Option.bind_some]
    rw [show (t'.enabledOf order).map (actionOf t' nvmf.id true) =
      (ownModules g (ownOf h.state nvmf ioOps)).map (fun p => .start nvmf.id p.1 p.2) by
        rw [show ownModules g (ownOf h.state nvmf ioOps) = _ from hown.symm, List.map_map]
        rfl]
  · exact finish_other s₀ _ true hne
  · exact finish_initialized s₀ _ _ true
  · rw [finish_mlist, ← hnames]
    split_ifs with hm
    · simp [hm]
    · have hidle : (s₀.subsystems nvmf.id).mlist m = false := hi.idle nvmf.id hini m
      simp [hm, hidle]

theorem HistoryInv.enabledOf_eq {g : GlobalConf} {h : History} (hi : HistoryInv g h) {e : Entry}
    (he : e ∈ h.entries) (hr : e.reply = .initPending) (hcomp : Compatible h.entries e.own) :
    h.state.moduleInitializers.enabledOf order = (ownModules g e.own).map Prod.fst := by
  obtain ⟨hlock, hfuse, hwal, hio, hlist⟩ := hi.after e he hr
  have hnet : (h.state.moduleInitializers .net).modEnabled = !e.own.iopsPerfMode := by
    rw [Bool.eq_iff_iff, hi.net]
    constructor
    · rintro ⟨e', he', hr', hp⟩
      by_contra hno
      exact absurd ((hcomp e' he' hr').2 (by simpa using hno)) (by simp [hp])
    · intro hp
      exact ⟨e, he, hr, by simpa using hp⟩
  have hkv : (h.state.moduleInitializers .kvtrans).modEnabled = e.own.kvMode := by
    rw [Bool.eq_iff_iff, hi.kv]
    exact ⟨fun hall => hall e he hr, fun hk e' he' hr' => (hcomp e' he' hr').1 hk⟩
  unfold Table.enabledOf order ownModules
  simp only [List.filter_cons, List.filter_nil, hlock, hfuse, hwal, hio, hlist, hnet, hkv]
  cases e.own.iopsPerfMode <;> cases e.own.kvMode <;> cases g.listEnabled <;> simp

theorem dflySubsystemDestroy_spec {g : GlobalConf} {h : History} (hi : HistoryInv g h)
    {nvmf : NvmfSubsystem} (hid : nvmf.id < maxSs) (hoss : h.state.ossTargetEnabled nvmf.id = true)
    (hini : (h.state.subsystems nvmf.id).initialized = true) {e : Entry}
    (he : lastSetUp nvmf.id h.entries = some e) (hcomp : Compatible h.entries e.own)
    (hmlist : ∀ m, (h.state.subsystems nvmf.id).mlist m = true ↔
      m ∈ (ownModules g e.own).map Prod.fst) :
    ∃ s, dflySubsystemDestroy g h.state nvmf = some (s, .deinitPending,
        ((ownModules g e.own).map Prod.fst).map (fun m => .stop nvmf.id m) ++ [.callback nvmf.id]) ∧
      s.moduleInitializers = h.state.moduleInitializers ∧
      (∀ id, id ≠ nvmf.id → s.subsystems id = h.state.subsystems id) ∧
      (s.subsystems nvmf.id).initialized = false ∧ ∀ m, (s.subsystems nvmf.id).mlist m = false := by
  obtain ⟨hmem, -, hr⟩ := lastSetUp_spec he
  have hen := hi.enabledOf_eq hmem hr hcomp
  obtain ⟨hlock, hfuse, hwal, -, -⟩ := hi.after e hmem hr
  have hready : ∀ m ∈ order, (h.state.moduleInitializers m).modEnabled = true →
      Ready h.state nvmf.id false m := by
    intro m hmo hm
    refine ⟨?_, (hmlist m).2 ?_⟩
    · cases m with
      | fuse =>
        rw [hfuse] at hm
        cases hm
      | wal =>
        rw [hwal] at hm
        cases hm
      | lock => rfl
      | net => rfl
      | io => rfl
      | kvtrans => rfl
      | list => rfl
    · rw [← hen]
      exact List.mem_filter.2 ⟨hmo, hm⟩
  have hrun := processFrom_eq (g := g) nvmf false order_nodup 0 order.length h.state
    rfl rfl le_rfl hready
  rw [hen] at hrun
  refine ⟨(h.state.setModules nvmf.id ((ownModules g e.own).map Prod.fst) false).finish nvmf.id false,
    ?_, rfl, fun id hne => ?_, ?_, fun m => ?_⟩
  · unfold dflySubsystemDestroy
    dsimp only
    rw [if_neg (by omega), if_neg (by simp [hoss]), if_neg (by simp [hini]),
      processAll_succ _ _ (by simp), hrun]
    rfl
  · exact finish_other h.state _ false hne
  · exact finish_initialized h.state _ _ false
  · rw [finish_mlist]
    split_ifs with hm
    · rfl
    · exact Bool.eq_false_of_not_eq_true fun h0 => hm ((hmlist m).1 h0)

theorem entryOk_init {g : GlobalConf} (older : List Entry) (id : ℕ) (o : Own) :
    EntryOk g older ⟨id, o, .initPending,
      (ownModules g o).map (fun p => .start id p.1 p.2) ++ [.callback id]⟩ := by
  have hstarts : Entry.starts ⟨id, o, .initPending,
      (ownModules g o).map (fun p => .start id p.1 p.2) ++ [.callback id]⟩ = ownModules g o := by
    unfold Entry.starts
    rw [List.filterMap_append, List.filterMap_map]
    simp
  refine ⟨by rw [hstarts, if_pos rfl], ?_, fun m a hma hneed => ?_, ?_⟩
  · unfold Entry.stops
    rw [if_neg (by simp), List.filterMap_append, List.filterMap_map]
    simp
  · rw [hstarts] at hma
    unfold ownModules at hma
    cases m with
    | net =>
      have : a = some (.netConfig (dssFillDssNetDevInfo g o.listeners)) := by
        cases o.iopsPerfMode <;> cases o.kvMode <;> cases g.listEnabled <;> simp_all
      rw [this]
      exact Option.some_ne_none _
    | fuse =>
      cases o.iopsPerfMode <;> cases o.kvMode <;> cases g.listEnabled <;> simp at hma
    | lock => cases hneed
    | io => cases hneed
    | kvtrans => cases hneed
    | list => cases hneed
    | wal => cases hneed
  · unfold Entry.callbacks
    rw [if_pos (Or.inl rfl), List.count_append, List.count_eq_zero_of_not_mem]
    · simp
    · simp

theorem entryOk_destroy {g : GlobalConf} {older : List Entry} (id : ℕ) (o : Own) {e : Entry}
    (he : lastSetUp id older = some e) (hstarts : e.starts = ownModules g e.own) :
    EntryOk g older ⟨id, o, .deinitPending,
      ((ownModules g e.own).map Prod.fst).map (fun m => .stop id m) ++ [.callback id]⟩ := by
  have hnone : Entry.starts ⟨id, o, .deinitPending,
      ((ownModules g e.own).map Prod.fst).map (fun m => .stop id m) ++ [.callback id]⟩ = [] := by
    unfold Entry.starts
    rw [List.filterMap_append, List.filterMap_map]
    simp
  refine ⟨by rw [hnone, if_neg (by simp)], ?_, fun m a hma => ?_, ?_⟩
  · rw [if_pos rfl, he]
    unfold Entry.stops
    rw [List.filterMap_append, List.filterMap_map]
    simp [hstarts]
  · rw [hnone] at hma
    cases hma
  · unfold Entry.callbacks
    rw [if_pos (Or.inr rfl), List.count_append, List.count_eq_zero_of_not_mem]
    · simp
    · simp

theorem init_inv {g : GlobalConf} {h : History} (hi : HistoryInv g h) {nvmf : NvmfSubsystem}
    {ioOps : Option Arg} (hok : Admits h (.init nvmf ioOps)) :
    ∃ h', h.step g (.init nvmf ioOps) = some h' ∧ HistoryInv g h' := by
  by_cases hperf : Performs h.state nvmf
  · obtain ⟨s, t', hs, hset, htable, hother, hini, hmlist⟩ := dflySubsystemInit_spec hi hok hperf
    have hcomp := (hok.2 hperf).1
    have hstep : h.step g (.init nvmf ioOps) = some ⟨s, ⟨nvmf.id, ownOf h.state nvmf ioOps,
        .initPending, (ownModules g (ownOf h.state nvmf ioOps)).map
          (fun p => .start nvmf.id p.1 p.2) ++ [.callback nvmf.id]⟩ :: h.entries⟩ := by
      show (dflySubsystemInit g h.state nvmf ioOps).map _ = _
      rw [hs]
      rfl
    refine ⟨_, hstep, ?_⟩
    generalize ownOf h.state nvmf ioOps = o at hset hmlist hcomp ⊢
    have hlist : (t' .list).modEnabled = g.listEnabled := by
      rw [hset.list]
      cases hl : (h.state.moduleInitializers .list).modEnabled with
      | true => simp [hi.list hl]
      | false => simp
    have hnet : (t' .net).modEnabled = !o.iopsPerfMode := by
      rw [hset.net]
      cases hp : o.iopsPerfMode with
      | false => rfl
      | true =>
        have : (h.state.moduleInitializers .net).modEnabled = false := by
          by_contra hno
          obtain ⟨e, he, hr, hf⟩ := hi.net.1 (by simpa using hno)
          exact absurd ((hcomp e he hr).2 hp) (by simp [hf])
        simp [this]
    have hflag : ∀ m, (s.moduleInitializers m).modEnabled = (t' m).modEnabled := by
      intro m
      rw [htable]
      rfl
    refine ⟨⟨entryOk_init _ _ _, hi.independent⟩, fun m => ?_, ?_, ?_, ?_, ?_, fun id h0 => ?_,
      fun id h0 => ?_⟩
    · show (s.moduleInitializers m).arg = none
      rw [htable]
      rfl
    · dsimp only
      rw [hflag, hset.kvtrans, Bool.and_eq_true, hi.kv]
      simp
    · dsimp only
      rw [hflag, hset.net, Bool.or_eq_true, hi.net]
      simp
    · dsimp only
      rw [hflag, hlist]
      exact id
    · intro e _ _
      dsimp only
      rw [hflag, hflag, hflag, hflag, hflag, hflag]
      exact ⟨hset.lock, hset.fuse, hset.wal, hset.io.trans hnet.symm, hlist⟩
    · have hne : id ≠ nvmf.id := by
        rintro rfl
        exact absurd (hini.symm.trans h0) (by decide)
      dsimp only at h0 ⊢
      rw [hother id hne] at h0 ⊢
      exact hi.idle id h0
    · by_cases hne : id = nvmf.id
      · subst hne
        exact ⟨_, List.find?_cons_of_pos (by simp), hmlist⟩
      · dsimp only at h0 ⊢
        rw [hother id hne] at h0 ⊢
        obtain ⟨e, he, hrun⟩ := hi.running id h0
        refine ⟨e, ?_, hrun⟩
        unfold lastSetUp
        rw [List.find?_cons_of_neg (by simp [Ne.symm hne])]
        exact he
  · refine ⟨⟨{ h.state with
        ossTargetEnabled := Function.update h.state.ossTargetEnabled nvmf.id
          ((h.state.subsystems nvmf.id).dssEnabled && nvmf.nvme) },
      ⟨nvmf.id, ownOf h.state nvmf ioOps, .initDone, []⟩ :: h.entries⟩, ?_,
      hi.done _ _ (by decide) (by decide) _⟩
    show (dflySubsystemInit g h.state nvmf ioOps).map _ = _
    unfold dflySubsystemInit
    dsimp only
    rw [if_neg (by have := hok.1; omega)]
    by_cases hen : ((h.state.subsystems nvmf.id).dssEnabled && nvmf.nvme) = true
    · have hini : (h.state.subsystems nvmf.id).initialized = true := by
        by_contra h0
        rw [Bool.and_eq_true] at hen
        exact hperf ⟨hen.1, hen.2, by simpa using h0⟩
      rw [if_pos hen, if_pos hini, hen]
      rfl
    · rw [if_neg hen, Bool.eq_false_of_not_eq_true hen]
      rfl

theorem destroy_inv {g : GlobalConf} {h : History} (hi : HistoryInv g h) {nvmf : NvmfSubsystem}
    (hok : Admits h (.destroy nvmf)) :
    ∃ h', h.step g (.destroy nvmf) = some h' ∧ HistoryInv g h' := by
  obtain ⟨hid, hcond⟩ := hok
  by_cases hperf : h.state.ossTargetEnabled nvmf.id = true ∧
      (h.state.subsystems nvmf.id).initialized = true
  · obtain ⟨hoss, hini⟩ := hperf
    obtain ⟨e, he, hmlist⟩ := hi.running nvmf.id hini
    obtain ⟨s, hs, htable, hother, hini', hmlist'⟩ :=
      dflySubsystemDestroy_spec hi hid hoss hini he (hcond hini e he) hmlist
    obtain ⟨hmem, -, hr⟩ := lastSetUp_spec he
    have hstep : h.step g (.destroy nvmf) = some ⟨s, ⟨nvmf.id, ownOf h.state nvmf none,
        .deinitPending, ((ownModules g e.own).map Prod.fst).map (fun m => .stop nvmf.id m) ++
          [.callback nvmf.id]⟩ :: h.entries⟩ := by
      show (dflySubsystemDestroy g h.state nvmf).map _ = _
      rw [hs]
      rfl
    refine ⟨_, hstep, ⟨entryOk_destroy _ _ he (hi.independent.starts hmem hr), hi.independent⟩,
      ?_, ?_, ?_, ?_, ?_, fun id h0 => ?_, fun id h0 => ?_⟩
    · dsimp only
      rw [htable]
      exact hi.args
    · dsimp only
      rw [htable, hi.kv]
      simp
    · dsimp only
      rw [htable, hi.net]
      simp
    · dsimp only
      rw [htable]
      exact hi.list
    · intro e' he' hr'
      dsimp only
      rw [htable]
      exact hi.after e hmem hr
    · by_cases hne : id = nvmf.id
      · subst hne
        exact hmlist'
      · dsimp only at h0 ⊢
        rw [hother id hne] at h0 ⊢
        exact hi.idle id h0
    · have hne : id ≠ nvmf.id := by
        rintro rfl
        exact absurd (hini'.symm.trans h0) (by decide)
      dsimp only at h0 ⊢
      rw [hother id hne] at h0 ⊢
      obtain ⟨e', he', hrun⟩ := hi.running id h0
      refine ⟨e', ?_, hrun⟩
      unfold lastSetUp
      rw [List.find?_cons_of_neg (by simp)]
      exact he'
  · refine ⟨⟨h.state, ⟨nvmf.id, ownOf h.state nvmf none, .deinitDone, []⟩ :: h.entries⟩, ?_,
      hi.done _ _ (by decide) (by decide) h.state.ossTargetEnabled⟩
    show (dflySubsystemDestroy g h.state nvmf).map _ = _
    unfold dflySubsystemDestroy
    dsimp only
    rw [if_neg (by omega)]
    by_cases hoss : h.state.ossTargetEnabled nvmf.id = false
    · rw [if_pos hoss]
      rfl
    · have hini : (h.state.subsystems nvmf.id).initialized = false := by
        by_contra h0
        exact hperf ⟨by simpa using hoss, by simpa using h0⟩
      rw [if_neg hoss, if_pos hini]
      rfl

/-- In every run whose calls are admitted no assertion fails, every set-up starts the modules that its
own and the global configuration ask for, every destruction stops these, and every call that does
not return at once calls its completion once. -/
theorem independent_of_run (g : GlobalConf) (calls : List Call)
    (hok : Run.Admissible (History.step g) Admits History.initial calls) :
    ∃ h, Run.run (History.step g) History.initial calls = some h ∧ Independent g h.entries := by
  have hstep : ∀ h call, HistoryInv g h → Admits h call →
      ∃ h', History.step g h call = some h' ∧ HistoryInv g h' := by
    intro h call hi hok
    cases call with
    | parseConf id sp => exact ⟨_, rfl, hi.parseConf id sp⟩
    | init nvmf ioOps => exact init_inv hi hok
    | destroy nvmf => exact destroy_inv hi hok
  obtain ⟨h, hrun, hi⟩ := Run.run_total hstep (historyInv_initial g) hok
  exact ⟨h, hrun, hi.independent⟩

/-- A configuration with listing, for two subsystems with one listener each. -/
def listingConf : GlobalConf := ⟨true, 4, false, true, false⟩

/-- The subsystem `id` with a listener. -/
def listening (id : ℕ) : NvmfSubsystem := ⟨id, true, "nqn", ["10.0.0.1"]⟩

/-- Two subsystems of the same modes are set up and destroyed. -/
theorem independent_sameModes :
    ∃ h, Run.run (History.step listingConf) History.initial
        [.parseConf 0 ⟨true, true, false⟩, .parseConf 1 ⟨true, true, false⟩,
          .init (listening 0) none, .init (listening 1) none, .destroy (listening 0),
          .init (listening 0) none, .destroy (listening 1)] = some h ∧
      Independent listingConf h.entries :=
  independent_of_run listingConf _ (by decide +kernel)

/-- A subsystem with a number and a listener. -/
def Listens : Call → Prop
  | .parseConf _ _ => True
  | .init nvmf _ => nvmf.id < maxSs ∧ nvmf.listeners ≠ []
  | .destroy nvmf => nvmf.id < maxSs

/-- A subsystem without KV mode takes KVTRANS from the one that is set up after it. -/
theorem not_independent_mixedModes :
    ¬ ∀ (g : GlobalConf) (calls : List Call), (∀ call ∈ calls, Listens call) →
      ∃ h, Run.run (History.step g) History.initial calls = some h ∧ Independent g h.entries := by
  intro hall
  obtain ⟨h, hrun, hind⟩ := hall listingConf [.parseConf 0 ⟨true, false, false⟩,
    .parseConf 1 ⟨true, true, false⟩, .init (listening 0) none, .init (listening 1) none] (by
      intro call hcall
      simp only [List.mem_cons, List.not_mem_nil, or_false] at hcall
      rcases hcall with rfl | rfl | rfl | rfl
      · trivial
      · trivial
      · exact ⟨by decide, by decide⟩
      · exact ⟨by decide, by decide⟩)
  cases hrun
  exact absurd hind.1.starts (by decide +kernel)

end DssSdk.Framework
