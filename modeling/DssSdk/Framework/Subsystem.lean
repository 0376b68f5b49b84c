import Mathlib.Tactic

/-!
# Setting up and destroying a subsystem

The table `module_initializers` of `dfly_subsystem.cpp` and the calls that read and edit it.

* `ModuleType`, `ModInit`, `Table`: the modules and the entries of the table;
* `dfSubsystemParseConf`: the settings of a subsystem from the configuration file;
* `processNext`: one call of `_dfly_subsystem_process_next`, which starts or stops one module and
  waits for its completion, or finishes;
* `processAll`: the calls up to the end, where every module calls its completion once;
* `dflySubsystemInit`, `dflySubsystemDestroy`.

`none` stands for a failed assertion and for a use of a missing pointer. A failed allocation and the
opening of the block devices are left out.
-/

namespace DssSdk.Framework

/-- `dss_module_type_t`, between `DSS_MODULE_START_INIT` and `DSS_MODULE_END`. -/
inductive ModuleType
  | lock
  | fuse
  | net
  | io
  | kvtrans
  | list
  | wal
  deriving DecidableEq, Repr

/-- The modules in the order of their numbers `1, …, 7`. -/
def ModuleType.order : List ModuleType := [.lock, .fuse, .net, .io, .kvtrans, .list, .wal]

/-- `dss_net_mod_dev_info_t`. -/
structure NetDevInfo where
  numNwThreads : ℕ
  ip : String
  devName : String
  deriving DecidableEq, Repr

/-- What the argument of a module points to. -/
inductive Arg
  | ioOps (ops : ℕ)
  | netConfig (devList : List NetDevInfo)
  | fuseConf
  | listConf
  | walConf
  deriving DecidableEq, Repr

/-- The fields of `df_ss_mod_init_s` that change. -/
structure ModInit where
  arg : Option Arg
  modEnabled : Bool
  deriving DecidableEq, Repr

/-- `module_initializers`. -/
abbrev Table := ModuleType → ModInit

namespace Table

/-- The table before the first call. -/
def initial : Table
  | .lock => ⟨none, true⟩
  | .fuse => ⟨none, false⟩
  | .net => ⟨none, false⟩
  | .io => ⟨none, true⟩
  | .kvtrans => ⟨none, true⟩
  | .list => ⟨none, false⟩
  | .wal => ⟨none, false⟩

/-- An assignment to `mod_enabled`. -/
def enable (t : Table) (m : ModuleType) (b : Bool) : Table :=
  Function.update t m { t m with modEnabled := b }

/-- An assignment to `arg`. -/
def setArg (t : Table) (m : ModuleType) (a : Option Arg) : Table :=
  Function.update t m { t m with arg := a }

/-- The loop that resets the arguments. -/
def resetArgs (t : Table) : Table := fun m => { t m with arg := none }

end Table

/-- The global configuration that the calls read. -/
structure GlobalConf where
  targetPoolEnabled : Bool
  numNwThreads : ℕ
  fuseEnabled : Bool
  listEnabled : Bool
  walCacheEnabled : Bool
  deriving DecidableEq, Repr

/-- The fields of `spdk_nvmf_subsystem` that the calls read. -/
structure NvmfSubsystem where
  id : ℕ
  nvme : Bool
  subnqn : String
  listeners : List String
  deriving DecidableEq, Repr

/-- The fields of `dfly_subsystem`: its settings, and the modules with a context in `mlist`. -/
structure DflySubsystem where
  dssEnabled : Bool
  dssKvMode : Bool
  dssIopsPerfMode : Bool
  initialized : Bool
  mlist : ModuleType → Bool

/-- The global state. -/
structure State where
  moduleInitializers : Table
  subsystems : ℕ → DflySubsystem
  ossTargetEnabled : ℕ → Bool
  fuseNqnName : String

/-- `MAX_SS`. -/
def maxSs : ℕ := 64

/-- Zero-initialised memory and the initial table. -/
def State.initial : State :=
  ⟨Table.initial, fun _ => ⟨false, false, false, false, fun _ => false⟩, fun _ => false, ""⟩

/-- An assignment to a subsystem. -/
def State.modify (s : State) (id : ℕ) (f : DflySubsystem → DflySubsystem) : State :=
  { s with subsystems := Function.update s.subsystems id (f (s.subsystems id)) }

/-- The settings of a subsystem in the configuration file. -/
structure Section where
  dssEnabled : Bool
  dssKvMode : Bool
  dssIopsPerfMode : Bool
  deriving DecidableEq, Repr

/-- `df_subsys_update_dss_enable`. -/
def updateDssEnable (g : GlobalConf) (ssDssEnabled : Bool) : Bool :=
  if (ssDssEnabled && !g.targetPoolEnabled) || (!ssDssEnabled && g.targetPoolEnabled) then
    if g.targetPoolEnabled = false then false else ssDssEnabled
  else ssDssEnabled

/-- `df_subsystem_parse_conf`. -/
def dfSubsystemParseConf (g : GlobalConf) (s : State) (id : ℕ) (sp : Section) : State :=
  s.modify id fun ss => { ss with
    dssEnabled := updateDssEnable g sp.dssEnabled
    dssKvMode := sp.dssKvMode
    dssIopsPerfMode := sp.dssIopsPerfMode }

/-! ### One module after the other -/

/-- What a call does to the outside: it starts or stops a module, or calls `cb`. -/
inductive Action
  | start (id : ℕ) (m : ModuleType) (arg : Option Arg)
  | stop (id : ℕ) (m : ModuleType)
  | callback (id : ℕ)
  deriving DecidableEq, Repr

/-- `df_subsys_process_event_s`; `toInitialize` is its field `initialize`. -/
structure ProcessEvent where
  subsys : NvmfSubsystem
  toInitialize : Bool
  currModule : ℕ
  deriving DecidableEq, Repr

/-- `dss_enable_net_module`. -/
def dssEnableNetModule (ss : DflySubsystem) : Bool := ss.dssEnabled && !ss.dssIopsPerfMode

/-- `dss_fill_dss_net_dev_info`. -/
def dssFillDssNetDevInfo (g : GlobalConf) (listeners : List String) : List NetDevInfo :=
  listeners.map fun traddr => ⟨g.numNwThreads, traddr, traddr⟩

/-- The flags of the modules of a subsystem, at `DSS_MODULE_START_INIT`. -/
def configure (g : GlobalConf) (ss : DflySubsystem) (nvmf : NvmfSubsystem) (t : Table) :
    Option Table :=
  if ss.dssEnabled then do
    let t ←
      if dssEnableNetModule ss then
        -- `DSS_ASSERT(listener_count != 0)`
        if nvmf.listeners.length = 0 then none
        else
          some ((t.enable .net true).setArg .net
            (some (.netConfig (dssFillDssNetDevInfo g nvmf.listeners))))
      else some t
    some ((((t.enable .io (!ss.dssIopsPerfMode)).enable .wal false).enable .fuse false).enable
      .lock false)
  else some (t.enable .net false)

/-- The loop over `module_initializers` up to the first enabled module, with its number. -/
def nextModule (t : Table) : ℕ → List ModuleType → Option (ℕ × ModuleType)
  | _, [] => none
  | i, m :: ms => if (t m).modEnabled = false then nextModule t (i + 1) ms else some (i, m)

/-- The modules whose `mod_init_fn` uses its argument. -/
def needsArg : ModuleType → Bool
  | .net => true
  | .fuse => true
  | _ => false

/-- The modules with a `mod_deinit_fn`. -/
def hasDeinit : ModuleType → Bool
  | .fuse => false
  | .wal => false
  | _ => true

/-- The rest of `_dfly_subsystem_process_next` behind the set-up of the flags: the state, the actions
and, when a module was started or stopped, the event that waits for it. -/
def advance (s : State) (ev : ProcessEvent) : Option (State × List Action × Option ProcessEvent) :=
  let id := ev.subsys.id
  match nextModule s.moduleInitializers (ev.currModule + 1)
      (ModuleType.order.drop ev.currModule) with
  | some (modIndex, m) =>
      let next : ProcessEvent := { ev with currModule := modIndex }
      if ev.toInitialize then
        let arg := (s.moduleInitializers m).arg
        if needsArg m = true ∧ arg = none then none
        else
          some (s.modify id (fun ss => { ss with mlist := Function.update ss.mlist m true }),
            [.start id m arg], some next)
      else if hasDeinit m = true ∧ (s.subsystems id).mlist m = true then
        some (s.modify id (fun ss => { ss with mlist := Function.update ss.mlist m false }),
          [.stop id m], some next)
      else none
  | none =>
      -- `DSS_MODULE_END`
      if ev.toInitialize then
        some ({ s with moduleInitializers := s.moduleInitializers.resetArgs }.modify id
          (fun ss => { ss with initialized := true }), [.callback id], none)
      else some (s.modify id (fun ss => { ss with initialized := false }), [.callback id], none)

/-- `_dfly_subsystem_process_next`. -/
def processNext (g : GlobalConf) (s : State) (ev : ProcessEvent) :
    Option (State × List Action × Option ProcessEvent) :=
  if ev.currModule = 0 ∧ ev.toInitialize = true then do
    let t ← configure g (s.subsystems ev.subsys.id) ev.subsys s.moduleInitializers
    advance { s with moduleInitializers := t } ev
  else advance s ev

/-- The calls of `_dfly_subsystem_process_next` for an event: every module that is started or stopped
calls its completion once. -/
def processAll (g : GlobalConf) : ℕ → State → ProcessEvent → Option (State × List Action)
  | 0, _, _ => none
  | fuel + 1, s, ev => do
      match ← processNext g s ev with
      | (s, acts, none) => some (s, acts)
      | (s, acts, some ev) =>
          let (s, rest) ← processAll g fuel s ev
          some (s, acts ++ rest)

/-! ### The calls -/

/-- The codes `DFLY_INIT_DONE`, …, `DFLY_DEINIT_PENDING`. -/
inductive Reply
  | initDone
  | initPending
  | deinitDone
  | deinitPending
  deriving DecidableEq, Repr

/-- The edits of the table at the end of `dfly_subsystem_init`. -/
def enableModules (g : GlobalConf) (kvMode : Bool) (ioOps : Option Arg) (t : Table) : Table :=
  let t := t.setArg .io ioOps
  let t := if kvMode = false then t.enable .kvtrans false else t
  let t := if g.fuseEnabled then (t.setArg .fuse (some .fuseConf)).enable .fuse true else t
  let t := if g.listEnabled then (t.enable .list true).setArg .list (some .listConf) else t
  if g.walCacheEnabled then (t.enable .wal true).setArg .wal (some .walConf) else t

/-- `dfly_subsystem_init`. -/
def dflySubsystemInit (g : GlobalConf) (s : State) (nvmf : NvmfSubsystem) (ioOps : Option Arg) :
    Option (State × Reply × List Action) :=
  let id := nvmf.id
  if id ≥ maxSs then none
  else if (s.subsystems id).dssEnabled && nvmf.nvme then
    let s := { s with ossTargetEnabled := Function.update s.ossTargetEnabled id true }
    let ss := s.subsystems id
    if ss.initialized then some (s, .initDone, [])
    else do
      let s := { s with
        moduleInitializers := enableModules g ss.dssKvMode ioOps s.moduleInitializers
        fuseNqnName := if g.fuseEnabled then nvmf.subnqn else s.fuseNqnName }
      let (s, acts) ← processAll g (ModuleType.order.length + 1) s ⟨nvmf, true, 0⟩
      some (s, .initPending, acts)
  else
    some ({ s with ossTargetEnabled := Function.update s.ossTargetEnabled id false }, .initDone, [])

/-- `dfly_subsystem_destroy`. -/
def dflySubsystemDestroy (g : GlobalConf) (s : State) (nvmf : NvmfSubsystem) :
    Option (State × Reply × List Action) :=
  let id := nvmf.id
  if id ≥ maxSs then none
  else if s.ossTargetEnabled id = false then some (s, .deinitDone, [])
  else if (s.subsystems id).initialized = false then some (s, .deinitDone, [])
  else do
    let (s, acts) ← processAll g (ModuleType.order.length + 1) s ⟨nvmf, false, 0⟩
    some (s, .deinitPending, acts)

end DssSdk.Framework
