import DssSdk.Framework.Subsystem
import DssSdk.Lib.Run

/-!
# Network modules that subsystems share

`dss_net_module.c`: a network device has one module, which every subsystem that listens on the
device refers to.

* `dssNetModuleInit`, `dssNetModuleDestroy`: a reference to the module of a device is taken or given
  back, and the module is made or removed with the first and the last one;
* `initNext`, `destroyNext`: the two chains, which go on at once for a shared module and wait for the
  framework when a module is started or stopped;
* `Action`, `step`: the calls and what the framework does in between, with a history of both;
  `State.record` writes the calls into it.

The functions run on the one thread that sets the subsystems up: `dfly_module_start` and
`dfly_module_stop` send their completion to the thread that called them, as a message. No allocation
fails. `none` stands for a failed assertion and for a use of freed or missing memory. The addresses of
net modules and of the framework's modules are numbers that are given out once; the list of a
subsystem and the event of a callback have the number of the call that allocates them. `refCnt` is a
natural number, as there is a node in memory for each reference.
-/

namespace DssSdk.Net.Sharing

open Framework (NetDevInfo)

/-- The values of `dss_module_status_t` in use. -/
inductive ModuleStatus
  | success
  | modCreated
  | initialized
  | modDestroyed
  | modDestroyPending
  | error
  deriving DecidableEq, Repr

/-- `dss_net_module_s` at its address. -/
structure NetModule where
  addr : ℕ
  module : Option ℕ
  devName : String
  ip : String
  refCnt : ℕ
  deriving DecidableEq, Repr

/-- `dss_net_module_ss_node_s`. -/
structure SsNode where
  module : Option ℕ
  deriving DecidableEq, Repr

/-- `async_load.state` of a module that was started. -/
inductive LoadState
  | loading
  | loaded
  | unloading
  deriving DecidableEq, Repr

/-- The fields of `dfly_module_t` in use. -/
structure DflyModule where
  ctx : ℕ
  state : LoadState
  deriving DecidableEq, Repr

/-- `dss_net_module_init_event_t`; `rest` is `cfg->dev_list` from `current_index` on. -/
structure InitEvent where
  ss : ℕ
  rest : List NetDevInfo
  nmSubsys : ℕ
  cbEvent : ℕ
  deriving DecidableEq, Repr

/-- `dss_net_module_destroy_event_t`. -/
structure DestroyEvent where
  nmSubsys : ℕ
  cbEvent : ℕ
  deriving DecidableEq, Repr

/-- A function with its argument, as a message to the thread. -/
inductive Msg
  | initNext (e : InitEvent)
  | destroyNext (e : DestroyEvent)
  | callback (cbEvent : ℕ)
  deriving DecidableEq, Repr

/-- A call of `dss_net_module_subsys_start`, or of `dss_net_module_subsys_stop` with the list that the
subsystem has. -/
inductive Call
  | start (ss : ℕ) (devList : List NetDevInfo)
  | stop (nmSubsys : ℕ)
  deriving DecidableEq, Repr

/-- The memory, the messages and the history.

* `netModList`: `g_net_mod_mgr.net_mod_list`; `modules`: the modules of the framework; `brk`: the
  next address;
* `subsysLists`: the lists `module_list`, `none` before they are allocated and after `free`;
  `subsysCtx`: what `dss_module_set_subsys_ctx` stores;
* `held`: the modules that are starting or stopping, with the message for the end; `posted`: the
  messages that were sent;
* `calls`, `called`: the calls and the callbacks so far; `started`, `stopped`: the modules that
  `dfly_module_start` and `dfly_module_stop` were called for. -/
structure State where
  netModList : List NetModule
  modules : ℕ → Option DflyModule
  brk : ℕ
  subsysLists : ℕ → Option (List SsNode)
  subsysCtx : ℕ → Option ℕ
  held : List (ℕ × Msg)
  posted : List Msg
  calls : List Call
  called : List ℕ
  started : List (ℕ × String)
  stopped : List ℕ

/-- No subsystem was started. -/
def State.initial : State :=
  ⟨[], fun _ => none, 0, fun _ => none, fun _ => none, [], [], [], [], [], []⟩

/-- A write to the net module at an address. -/
def State.modifyNet (s : State) (addr : ℕ) (f : NetModule → NetModule) : State :=
  { s with netModList := s.netModList.map fun nm => if nm.addr = addr then f nm else nm }

/-- The net module at an address. -/
def State.netModule (s : State) (addr : ℕ) : Option NetModule :=
  s.netModList.find? fun nm => nm.addr = addr

/-- A write to the list of a subsystem. -/
def State.setList (s : State) (l : ℕ) (nodes : Option (List SsNode)) : State :=
  { s with subsysLists := Function.update s.subsysLists l nodes }

/-- `_dss_net_module_get`. -/
def dssNetModuleGet (nm : NetModule) : NetModule := { nm with refCnt := nm.refCnt + 1 }

/-- `_dss_net_module_put` without its result. -/
def dssNetModulePut (nm : NetModule) : NetModule := { nm with refCnt := nm.refCnt - 1 }

/-- `dss_net_module_init`: `*net_module` and the status. -/
def dssNetModuleInit (s : State) (netDevName ip : String) : State × ℕ × ModuleStatus :=
  match s.netModList.find? fun nm => nm.devName = netDevName with
  | some nm => (s.modifyNet nm.addr dssNetModuleGet, nm.addr, .success)
  | none =>
      let s' : State :=
        { s with netModList := s.netModList ++ [⟨s.brk, none, netDevName, ip, 0⟩], brk := s.brk + 1 }
      (s'.modifyNet s.brk dssNetModuleGet, s.brk, .modCreated)

/-- `dss_net_module_destroy`. -/
def dssNetModuleDestroy (s : State) (netModule : ℕ) : Option (State × ModuleStatus) :=
  (s.netModule netModule).bind fun nm =>
    -- `DSS_ASSERT(m->ref_cnt)`
    if nm.refCnt = 0 then none
    else
      let s' := s.modifyNet netModule dssNetModulePut
      if nm.refCnt - 1 = 0 then
        some ({ s' with netModList := s'.netModList.filter fun nm => nm.addr ≠ netModule },
          .modDestroyed)
      else some (s', .success)

/-- `dfly_module_start` for the device `devName`: the new module. -/
def dflyModuleStart (s : State) (devName : String) (ctx : ℕ) (cb : Msg) : State × ℕ :=
  ({ s with
    modules := Function.update s.modules s.brk (some ⟨ctx, .loading⟩)
    brk := s.brk + 1
    held := s.held ++ [(s.brk, cb)]
    started := s.started ++ [(s.brk, devName)] }, s.brk)

/-- `dfly_module_stop`. -/
def dflyModuleStop (s : State) (m : ℕ) (cb : Msg) : Option State :=
  match s.modules m with
  | some ⟨ctx, .loaded⟩ =>
      some { s with
        modules := Function.update s.modules m (some ⟨ctx, .unloading⟩)
        held := s.held ++ [(m, cb)]
        stopped := s.stopped ++ [m] }
  -- `DSS_ASSERT` on the state `DSS_MODULE_LOADED`
  | _ => none

/-- `df_ss_cb_event_complete`. -/
def cbEventComplete (s : State) (cbEvent : ℕ) : State :=
  { s with posted := s.posted ++ [.callback cbEvent] }

/-- `dss_net_module_init_next` for the devices that are left. -/
def initNextFrom (ss nmSubsys cbEvent : ℕ) :
    State → List NetDevInfo → Option (State × ModuleStatus)
  | s, [] =>
      -- `current_index == cfg->count`
      let s := { s with subsysCtx := Function.update s.subsysCtx ss (some nmSubsys) }
      some (cbEventComplete s cbEvent, .initialized)
  | s, d :: rest =>
      let (s, netModule, rc) := dssNetModuleInit s d.devName d.ip
      let s :=
        if rc = .modCreated then
          let (s, m) := dflyModuleStart s d.devName netModule
            (.initNext ⟨ss, rest, nmSubsys, cbEvent⟩)
          s.modifyNet netModule fun nm => { nm with module := some m }
        else s
      (s.netModule netModule).bind fun nm =>
        (s.subsysLists nmSubsys).bind fun nodes =>
          let s := s.setList nmSubsys (some (nodes ++ [⟨nm.module⟩]))
          if rc = .success then initNextFrom ss nmSubsys cbEvent s rest else some (s, .success)

/-- `dss_net_module_init_next`. -/
def initNext (s : State) (e : InitEvent) : Option (State × ModuleStatus) :=
  initNextFrom e.ss e.nmSubsys e.cbEvent s e.rest

/-- `dss_net_module_destroy_next` for the nodes in the list. -/
def destroyNextFrom (nmSubsys cbEvent : ℕ) : State → List SsNode → Option (State × ModuleStatus)
  | s, [] => some ((cbEventComplete s cbEvent).setList nmSubsys none, .success)
  | s, node :: nodes =>
      let s := s.setList nmSubsys (some nodes)
      node.module.bind fun m =>
        (s.modules m).bind fun dm =>
          (dssNetModuleDestroy s dm.ctx).bind fun (s, rc) =>
            if rc = .modDestroyed then
              (dflyModuleStop s m (.destroyNext ⟨nmSubsys, cbEvent⟩)).map fun s =>
                (s, .modDestroyPending)
            else destroyNextFrom nmSubsys cbEvent s nodes

/-- `dss_net_module_destroy_next`. -/
def destroyNext (s : State) (e : DestroyEvent) : Option (State × ModuleStatus) :=
  (s.subsysLists e.nmSubsys).bind fun nodes => destroyNextFrom e.nmSubsys e.cbEvent s nodes

/-- `dss_net_module_subsys_start`; the list and the events that it allocates have the number `n`. -/
def dssNetModuleSubsysStart (s : State) (n ss : ℕ) (devList : List NetDevInfo) :
    Option (State × ModuleStatus) :=
  (initNext (s.setList n (some [])) ⟨ss, devList, n, n⟩).map fun (s, rc) =>
    if rc = .success ∨ rc = .initialized then (s, .success) else (s.setList n none, .error)

/-- `dss_net_module_subsys_stop`; the events that it allocates have the number `n`. -/
def dssNetModuleSubsysStop (s : State) (n ss : ℕ) : Option State :=
  (s.subsysCtx ss).bind fun l => (destroyNext s ⟨l, n⟩).map Prod.fst

/-- A module has started or stopped: the last of its tasks sends the message. -/
def completeModule (s : State) (i : ℕ) : Option State :=
  s.held[i]?.bind fun (m, msg) =>
    let s' := { s with held := s.held.eraseIdx i, posted := s.posted ++ [msg] }
    match s.modules m with
    | some ⟨ctx, .loading⟩ =>
        some { s' with modules := Function.update s.modules m (some ⟨ctx, .loaded⟩) }
    | some ⟨_, .unloading⟩ => some { s' with modules := Function.update s.modules m none }
    | _ => none

/-- A message is executed. -/
def deliver (s : State) (i : ℕ) : Option State :=
  s.posted[i]?.bind fun msg =>
    let s' := { s with posted := s.posted.eraseIdx i }
    match msg with
    | .initNext e => (initNext s' e).map Prod.fst
    | .destroyNext e => (destroyNext s' e).map Prod.fst
    | .callback cbEvent => some { s' with called := s.called ++ [cbEvent] }

/-- A call, or a step of the framework: the module at a place among those that are starting or
stopping gets done, the message at a place is executed. -/
inductive Action
  | subsysStart (ss : ℕ) (devList : List NetDevInfo)
  | subsysStop (ss : ℕ)
  | complete (i : ℕ)
  | deliver (i : ℕ)
  deriving DecidableEq, Repr

/-- The call that an action makes. -/
def Action.call (s : State) : Action → Option Call
  | .subsysStart ss devList => some (.start ss devList)
  | .subsysStop ss => (s.subsysCtx ss).map Call.stop
  | _ => none

/-- The history with the call of an action. -/
def State.record (s : State) (a : Action) : State :=
  { s with calls := s.calls ++ (a.call s).toList }

/-- One action: a call goes into the history and is made, with the next number. -/
def step (s : State) (a : Action) : Option State :=
  match a with
  | .subsysStart ss devList =>
      (dssNetModuleSubsysStart (s.record a) s.calls.length ss devList).map Prod.fst
  | .subsysStop ss => dssNetModuleSubsysStop (s.record a) s.calls.length ss
  | .complete i => completeModule s i
  | .deliver i => Sharing.deliver s i

/-- A step of the framework that can be taken. -/
def Runs (s : State) : Action → Prop
  | .complete i => i < s.held.length
  | .deliver i => i < s.posted.length
  | _ => False

/-- A subsystem is stopped after its start has completed, and once for each start. -/
def Legal (s : State) : Action → Prop
  | .subsysStop ss => ∃ l ∈ s.subsysCtx ss, Call.stop l ∉ s.calls
  | .subsysStart _ _ => True
  | a => Runs s a

instance (s : State) : ∀ a, Decidable (Legal s a)
  | .subsysStart _ _ => isTrue trivial
  | .subsysStop ss =>
      match h : s.subsysCtx ss with
      | none => isFalse fun ⟨l, hl, _⟩ => by rw [h] at hl; cases hl
      | some l =>
          decidable_of_iff (Call.stop l ∉ s.calls)
            ⟨fun hc => ⟨l, h, hc⟩, fun ⟨l', hl', hc⟩ => by rw [h] at hl'; cases hl'; exact hc⟩
  | .complete i => inferInstanceAs (Decidable (i < s.held.length))
  | .deliver i => inferInstanceAs (Decidable (i < s.posted.length))

end DssSdk.Net.Sharing
