import DssSdk.Lib.Run

/-!
# Starting and stopping a module

`dfly_module.cpp` starts the instances of a module one after the other, each on its core, and each
event sends the next one. With asynchronous loading a count of pending tasks decides when the module
is loaded: the chain of events holds one reference, the tasks of the instances the others.

* `moduleStart`, `moduleStop`, `beginInstance`, `loadDevice`, `endInstance`, `stopInstance`,
  `decAsyncPendingTask`: the source, cut where another core can come in between;
* `kvtransDevices`, `kvtransConfig`: the initializer of the key-value translation module, which
  reads the module from its context;
* `Action`, `step`: the caller, the cores and the tasks in any order;
* `handshake_iff`: for which runs the callbacks and states come as they should.

`none` stands for a failed assertion, a use of a missing pointer and an access out of bounds. Each
pending task is a request in memory, so that their count is a natural number. The pointer to the module
counts where an initializer reads it, which is at its first device: an initializer without devices may
come before the pointer is stored. The locks are left out, and with them that the end of a stop unlocks
the mutex of a module that it has freed.
-/

namespace DssSdk.Framework.ModuleHandshake

/-- `async_load.state`. -/
inductive LoadState
  | uninitialized
  | loading
  | loaded
  | unloading
  | unloaded
  deriving DecidableEq, Repr

/-- `df_module_event_complete_s`: the callback of the start or of the stop. -/
inductive CmplEvt
  | start
  | stop
  deriving DecidableEq, Repr

/-- `async_load`. -/
structure AsyncLoad where
  asyncLoadEnabled : Bool
  state : LoadState
  pendingLoadCount : ℕ
  cmplEvtInfo : Option CmplEvt
  deriving DecidableEq, Repr

/-- `MAX_CPU`, the length of `active_thread_arr`. -/
abbrev maxCpu : ℕ := 256

/-- A module: its instances, and the devices that `module_init_instance_context` loads for an
instance, with a task for each. Without asynchronous loading there are no tasks. -/
structure Config where
  numCores : ℕ
  asyncLoadEnabled : Bool
  devices : ℕ → List ℕ
  sync : asyncLoadEnabled = false → ∀ k, devices k = []

/-- The loop of `dss_kvtrans_thread_instance_init` from `i` on. -/
def kvtransLoop (numDevices numThreads : ℕ) : ℕ → ℕ → List ℕ
  | 0, _ => []
  | fuel + 1, i =>
      if i < numDevices then i :: kvtransLoop numDevices numThreads fuel (i + numThreads) else []

/-- The devices of an instance in `dss_kvtrans_thread_instance_init`. -/
def kvtransDevices (numDevices numThreads instIndex : ℕ) : List ℕ :=
  kvtransLoop numDevices numThreads numDevices instIndex

/-- The module of `dss_kvtrans_module_subsystem_start`. -/
def kvtransConfig (numIoDevices numKvtThreads : ℕ) : Config :=
  let numThreads := if numIoDevices < numKvtThreads then numIoDevices else numKvtThreads
  ⟨numThreads, true, kvtransDevices numIoDevices numThreads, nofun⟩

/-- Where the caller is: before `dfly_module_start`, behind it, behind the assignment of its result
to the module context, and behind `dfly_module_stop`. -/
inductive Caller
  | idle
  | returned
  | published
  | stopping
  deriving DecidableEq, Repr

/-- An event for the core of an instance, with the callback for the end. -/
inductive Event
  | start (inst : ℕ) (cbEvent : CmplEvt)
  | stop (inst : ℕ) (cbEvent : CmplEvt)
  deriving DecidableEq, Repr

/-- The module and what happens around it.

* `numThreads`: the instances that have started; `event`: the event that was sent;
* `running`: the instance in `dfly_module_thread_start`, with the devices that are left to load;
* `openTasks`: the tasks that are registered and not finished; `stopped`: the number of instances
  that have stopped;
* `posted`: the callbacks that were sent; `states`: the values that `state` has taken. -/
structure State where
  caller : Caller
  asyncLoad : AsyncLoad
  numThreads : ℕ
  event : Option Event
  running : Option (ℕ × List ℕ × CmplEvt)
  openTasks : List ℕ
  stopped : ℕ
  posted : List CmplEvt
  states : List LoadState
  deriving DecidableEq

/-- Zeroed memory. -/
def State.initial : State := ⟨.idle, ⟨false, .uninitialized, 0, none⟩, 0, none, none, [], 0, [], []⟩

/-- The module context has the pointer to the module. -/
def State.moduleStored (s : State) : Bool :=
  match s.caller with
  | .idle => false
  | .returned => false
  | .published => true
  | .stopping => true

/-- An assignment to `async_load.state`. -/
def State.setLoadState (s : State) (ls : LoadState) : State :=
  { s with asyncLoad := { s.asyncLoad with state := ls }, states := s.states ++ [ls] }

/-- An assignment to `async_load.pending_load_count`. -/
def State.setCount (s : State) (n : ℕ) : State :=
  { s with asyncLoad := { s.asyncLoad with pendingLoadCount := n } }

/-- `dss_module_init_async_load`. -/
def initAsyncLoad (s : State) (isLoading : Bool) (evt : CmplEvt) : State :=
  let s :=
    if isLoading then
      State.setLoadState { s with asyncLoad := { s.asyncLoad with asyncLoadEnabled := true } } .loading
    else s.setLoadState .unloading
  let s := s.setCount 0
  { s with asyncLoad := { s.asyncLoad with cmplEvtInfo := some evt } }

/-- `dss_module_inc_async_pending_task`. -/
def incAsyncPendingTask (s : State) : State := s.setCount (s.asyncLoad.pendingLoadCount + 1)

/-- `dfly_module_event_processed`. -/
def eventProcessed (s : State) (evt : Option CmplEvt) : Option State :=
  evt.map fun evt => { s with posted := s.posted ++ [evt] }

/-- `dss_module_dec_async_pending_task`. -/
def decAsyncPendingTask (s : State) : Option State :=
  -- `DSS_ASSERT(m->async_load.pending_load_count > 0)`
  if s.asyncLoad.pendingLoadCount = 0 then none
  else
    let n := s.asyncLoad.pendingLoadCount - 1
    let s := s.setCount n
    if n = 0 then
      match s.asyncLoad.state with
      | .loading => eventProcessed (s.setLoadState .loaded) s.asyncLoad.cmplEvtInfo
      | .unloading => eventProcessed (s.setLoadState .unloaded) s.asyncLoad.cmplEvtInfo
      | _ => none
    else some s

section

variable (c : Config)

/-- `dfly_module_start`. -/
def moduleStart (s : State) : Option State :=
  -- `m_inst[0]` is in the array
  if c.numCores = 0 then none
  else
    let s := if c.asyncLoadEnabled then incAsyncPendingTask (initAsyncLoad s true .start) else s
    some { s with event := some (.start 0 .start), caller := .returned }

/-- `dfly_module_stop`. -/
def moduleStop (s : State) : Option State :=
  if s.asyncLoad.asyncLoadEnabled then
    -- `DSS_ASSERT` on the state `DSS_MODULE_LOADED`
    if s.asyncLoad.state = .loaded then
      let s := incAsyncPendingTask (initAsyncLoad s false .stop)
      some { s with event := some (.stop 0 .stop), caller := .stopping }
    else none
  else some { s with event := some (.stop 0 .stop), caller := .stopping }

/-- `dfly_module_thread_start` up to the initializer, which gets `num_threads` as its index. -/
def beginInstance (s : State) : Option State :=
  match s.event with
  | some (.start k evt) =>
      some { s with event := none, running := some (k, c.devices s.numThreads, evt) }
  | _ => none

/-- The initializer loads a device: it reads the module from the context and registers a task. -/
def loadDevice (s : State) : Option State :=
  match s.running with
  | some (k, i :: devices, evt) =>
      -- `dss_kvtrans_initiate_loading` reads `m->ctx`
      if s.moduleStored = true then
        some { incAsyncPendingTask s with
          running := some (k, devices, evt)
          openTasks := s.openTasks ++ [i] }
      else none
  | _ => none

/-- `dfly_module_thread_start` behind the initializer. -/
def endInstance (s : State) : Option State :=
  match s.running with
  | some (k, [], evt) =>
      if s.numThreads < maxCpu then
        let s := { s with running := none, numThreads := s.numThreads + 1 }
        if k + 1 < c.numCores then some { s with event := some (.start (k + 1) evt) }
        else if s.asyncLoad.asyncLoadEnabled = false then eventProcessed s (some evt)
        else decAsyncPendingTask s
      else none
  | _ => none

/-- `dfly_module_thread_stop`. -/
def stopInstance (s : State) : Option State :=
  match s.event with
  | some (.stop k evt) =>
      let s := { s with event := none, stopped := s.stopped + 1 }
      if k + 1 < c.numCores then some { s with event := some (.stop (k + 1) evt) }
      else if s.asyncLoad.asyncLoadEnabled = false then eventProcessed s (some evt)
      else decAsyncPendingTask s
  | _ => none

/-- A task comes to its end. -/
def taskDone (s : State) (i : ℕ) : Option State :=
  if i < s.openTasks.length then
    decAsyncPendingTask { s with openTasks := s.openTasks.eraseIdx i }
  else none

/-- What the caller, the cores and the tasks do. -/
inductive Action
  | callStart
  | store
  | callStop
  | beginInstance
  | loadDevice
  | endInstance
  | stopInstance
  | taskDone (i : ℕ)
  deriving DecidableEq, Repr

/-- One action. -/
def step (s : State) : Action → Option State
  | .callStart => moduleStart c s
  | .store => some { s with caller := .published }
  | .callStop => moduleStop s
  | .beginInstance => ModuleHandshake.beginInstance c s
  | .loadDevice => ModuleHandshake.loadDevice s
  | .endInstance => ModuleHandshake.endInstance c s
  | .stopInstance => ModuleHandshake.stopInstance c s
  | .taskDone i => ModuleHandshake.taskDone s i

end

/-- What can happen in a state that is not up to the caller. -/
def Runs (s : State) : Action → Prop
  | .beginInstance => ∃ k evt, s.event = some (.start k evt)
  | .loadDevice => ∃ k i devices evt, s.running = some (k, i :: devices, evt)
  | .endInstance => ∃ k evt, s.running = some (k, [], evt)
  | .stopInstance => ∃ k evt, s.event = some (.stop k evt)
  | .taskDone i => i < s.openTasks.length
  | _ => False

instance decidableRuns (s : State) : ∀ a, Decidable (Runs s a)
  | .beginInstance =>
      match h : s.event with
      | some (.start k evt) => isTrue ⟨k, evt, h⟩
      | some (.stop _ _) => isFalse fun ⟨_, _, he⟩ => by rw [h] at he; cases he
      | none => isFalse fun ⟨_, _, he⟩ => by rw [h] at he; cases he
  | .loadDevice =>
      match h : s.running with
      | some (k, i :: devices, evt) => isTrue ⟨k, i, devices, evt, h⟩
      | some (_, [], _) => isFalse fun ⟨_, _, _, _, he⟩ => by rw [h] at he; cases he
      | none => isFalse fun ⟨_, _, _, _, he⟩ => by rw [h] at he; cases he
  | .endInstance =>
      match h : s.running with
      | some (k, [], evt) => isTrue ⟨k, evt, h⟩
      | some (_, _ :: _, _) => isFalse fun ⟨_, _, he⟩ => by rw [h] at he; cases he
      | none => isFalse fun ⟨_, _, he⟩ => by rw [h] at he; cases he
  | .stopInstance =>
      match h : s.event with
      | some (.stop k evt) => isTrue ⟨k, evt, h⟩
      | some (.start _ _) => isFalse fun ⟨_, _, he⟩ => by rw [h] at he; cases he
      | none => isFalse fun ⟨_, _, he⟩ => by rw [h] at he; cases he
  | .taskDone i => inferInstanceAs (Decidable (i < s.openTasks.length))
  | .callStart => isFalse fun h => h
  | .store => isFalse fun h => h
  | .callStop => isFalse fun h => h

/-- The caller starts the module, stores the pointer, and stops the module when it was called back. -/
def Legal (s : State) : Action → Prop
  | .callStart => s.caller = .idle
  | .store => s.caller = .returned
  | .callStop => s.caller = .published ∧ CmplEvt.start ∈ s.posted
  | a => Runs s a

instance (s : State) : ∀ a, Decidable (Legal s a)
  | .callStart => inferInstanceAs (Decidable (s.caller = .idle))
  | .store => inferInstanceAs (Decidable (s.caller = .returned))
  | .callStop => inferInstanceAs (Decidable (s.caller = .published ∧ CmplEvt.start ∈ s.posted))
  | .beginInstance => decidableRuns s .beginInstance
  | .loadDevice => decidableRuns s .loadDevice
  | .endInstance => decidableRuns s .endInstance
  | .stopInstance => decidableRuns s .stopInstance
  | .taskDone i => decidableRuns s (.taskDone i)

/-- The callbacks and states of a module.

* `start`, `stop`: each callback is posted at most once, after the last instance was started or
  stopped, and with no task left;
* `states`: the states come in their order, and the start is called back when the module is loaded;
* `quiet`: when nothing is left to happen, the calls were called back. -/
structure Handshake (c : Config) (s : State) : Prop where
  start : s.posted.count .start ≤ 1 ∧
    (.start ∈ s.posted → s.numThreads = c.numCores ∧ s.openTasks = [])
  stop : s.posted.count .stop ≤ 1 ∧
    (.stop ∈ s.posted → .start ∈ s.posted ∧ s.stopped = c.numCores ∧ s.openTasks = [])
  states : c.asyncLoadEnabled = true → s.states <+: [.loading, .loaded, .unloading, .unloaded] ∧
    (.loaded ∈ s.states ↔ .start ∈ s.posted) ∧ (.unloaded ∈ s.states ↔ .stop ∈ s.posted)
  quiet : (∀ a, ¬ Runs s a) →
    (s.caller ≠ .idle → .start ∈ s.posted) ∧ (s.caller = .stopping → .stop ∈ s.posted)

section

variable (c : Config)

/-- A bound on what is left from the start of an instance on. -/
def Config.left (k : ℕ) : ℕ :=
  (((List.range c.numCores).drop k).map fun j => 2 * (c.devices j).length + 2).sum

/-- A bound on what is left to happen. -/
def State.work (s : State) : ℕ :=
  (match s.event with
    | some (.start k _) => c.left k
    | some (.stop k _) => c.numCores - k
    | none => 0) +
  (match s.running with
    | some (k, devices, _) => 2 * devices.length + 1 + c.left (k + 1)
    | none => 0) +
  s.openTasks.length

/-- What an action has to do: it comes to its end, the callbacks and states are right, and less is
left to happen. -/
def Good (s : State) (a : Action) : Prop :=
  ∃ s', step c s a = some s' ∧ Handshake c s' ∧ (Runs s a → s'.work c < s.work c)

/-- When an action is good: there is an instance, the instances have room, and the pointer to the
module is stored before an initializer reads it. -/
def Kept (s : State) : Action → Prop
  | .callStart => 0 < c.numCores
  | .loadDevice => s.moduleStored = true
  | .endInstance => s.numThreads < maxCpu
  | _ => True

instance (s : State) : ∀ a, Decidable (Kept c s a)
  | .callStart => inferInstanceAs (Decidable (0 < c.numCores))
  | .loadDevice => inferInstanceAs (Decidable (s.moduleStored = true))
  | .endInstance => inferInstanceAs (Decidable (s.numThreads < maxCpu))
  | .store => isTrue trivial
  | .callStop => isTrue trivial
  | .beginInstance => isTrue trivial
  | .stopInstance => isTrue trivial
  | .taskDone _ => isTrue trivial

end

/-! ### The invariant -/

/-- `async_load` of a module that was started. -/
def Config.asyncLoad (c : Config) (ls : LoadState) (n : ℕ) (evt : CmplEvt) : AsyncLoad :=
  if c.asyncLoadEnabled then ⟨true, ls, n, some evt⟩ else ⟨false, .uninitialized, 0, none⟩

/-- The states of a module that was started. -/
def Config.states (c : Config) (l : List LoadState) : List LoadState :=
  if c.asyncLoadEnabled then l else []

/-- The states that can be reached.

* `starting`, `initializing`: the chain of starts, between two instances and in one of them; it holds
  a reference;
* `waiting`: all instances have started, and tasks are left;
* `loaded`, `stopping`, `stopped`. -/
inductive Inv (c : Config) : State → Prop
  | idle : Inv c .initial
  | starting (caller : Caller) (k : ℕ) (tasks : List ℕ)
      (hcaller : caller = .returned ∨ caller = .published) (hk : k < c.numCores)
      (hsync : c.asyncLoadEnabled = false → tasks = []) :
      Inv c ⟨caller, c.asyncLoad .loading (tasks.length + 1) .start, k, some (.start k .start), none,
        tasks, 0, [], c.states [.loading]⟩
  | initializing (caller : Caller) (k : ℕ) (devices tasks : List ℕ)
      (hcaller : caller = .returned ∨ caller = .published) (hk : k < c.numCores)
      (hsync : c.asyncLoadEnabled = false → devices = [] ∧ tasks = []) :
      Inv c ⟨caller, c.asyncLoad .loading (tasks.length + 1) .start, k, none,
        some (k, devices, .start), tasks, 0, [], c.states [.loading]⟩
  | waiting (caller : Caller) (tasks : List ℕ) (hcaller : caller = .returned ∨ caller = .published)
      (hpos : 0 < c.numCores) (htasks : tasks ≠ []) (hasync : c.asyncLoadEnabled = true) :
      Inv c ⟨caller, c.asyncLoad .loading tasks.length .start, c.numCores, none, none, tasks, 0, [],
        c.states [.loading]⟩
  | loaded (caller : Caller) (hcaller : caller = .returned ∨ caller = .published)
      (hpos : 0 < c.numCores) :
      Inv c ⟨caller, c.asyncLoad .loaded 0 .start, c.numCores, none, none, [], 0, [.start],
        c.states [.loading, .loaded]⟩
  | stopping (k : ℕ) (hk : k < c.numCores) :
      Inv c ⟨.stopping, c.asyncLoad .unloading 1 .stop, c.numCores, some (.stop k .stop), none, [], k,
        [.start], c.states [.loading, .loaded, .unloading]⟩
  | stopped :
      Inv c ⟨.stopping, c.asyncLoad .unloaded 0 .stop, c.numCores, none, none, [], c.numCores,
        [.start, .stop], c.states [.loading, .loaded, .unloading, .unloaded]⟩

section

variable {c : Config} {s : State}

theorem Inv.handshake (h : Inv c s) : Handshake c s := by
  cases h with
  | idle =>
    refine ⟨by simp [State.initial], by simp [State.initial], fun _ => ?_, fun _ => ?_⟩
    · simp [State.initial]
    · exact ⟨fun hne => absurd rfl hne, nofun⟩
  | starting caller k tasks hcaller hk hsync =>
    refine ⟨by simp, by simp, fun hasync => ?_, fun hquiet => ?_⟩
    · simp [Config.states, hasync]
    · exact absurd ⟨k, .start, rfl⟩ (hquiet .beginInstance)
  | initializing caller k devices tasks hcaller hk hsync =>
    refine ⟨by simp, by simp, fun hasync => ?_, fun hquiet => ?_⟩
    · simp [Config.states, hasync]
    · cases devices with
      | nil => exact absurd ⟨k, .start, rfl⟩ (hquiet .endInstance)
      | cons i devices => exact absurd ⟨k, i, devices, .start, rfl⟩ (hquiet .loadDevice)
  | waiting caller tasks hcaller hpos htasks hasync =>
    refine ⟨by simp, by simp, fun hasync => ?_, fun hquiet => ?_⟩
    · simp [Config.states, hasync]
    · exact absurd (List.length_pos_iff.2 htasks) (hquiet (.taskDone 0))
  | loaded caller hcaller hpos =>
    refine ⟨by simp, by simp, fun hasync => ?_, fun _ => ⟨by simp, fun hstop => ?_⟩⟩
    · simp [Config.states, hasync]
    · rcases hcaller with rfl | rfl <;> cases hstop
  | stopping k hk =>
    refine ⟨by simp, by simp, fun hasync => ?_, fun hquiet => ?_⟩
    · simp [Config.states, hasync]
    · exact absurd ⟨k, .stop, rfl⟩ (hquiet .stopInstance)
  | stopped =>
    refine ⟨by simp, by simp, fun hasync => ?_, fun _ => by simp⟩
    simp [Config.states, hasync]

theorem Config.left_eq {k : ℕ} (hk : k < c.numCores) :
    c.left k = 2 * (c.devices k).length + 2 + c.left (k + 1) := by
  have hk' : k < (List.range c.numCores).length := by rwa [List.length_range]
  unfold Config.left
  rw [List.drop_eq_getElem_cons hk', List.map_cons, List.sum_cons, List.getElem_range]

/-- The result of an action: a state with the invariant and less left to happen. -/
def Next (c : Config) (s : State) (a : Action) : Prop :=
  ∃ s', step c s a = some s' ∧ Inv c s' ∧ (Runs s a → s'.work c < s.work c)

/-- `dfly_module_start`. -/
theorem next_callStart (hpos : 0 < c.numCores) : Next c .initial .callStart := by
  refine ⟨_, ?_, .starting .returned 0 [] (.inl rfl) hpos (fun _ => rfl), fun hr => hr.elim⟩
  have hne : c.numCores ≠ 0 := hpos.ne'
  cases hasync : c.asyncLoadEnabled with
  | true => simp [step, moduleStart, hne, hasync, Config.asyncLoad, Config.states, State.initial,
      initAsyncLoad, incAsyncPendingTask, State.setLoadState, State.setCount]
  | false => simp [step, moduleStart, hne, hasync, Config.asyncLoad, Config.states, State.initial]

theorem next_store (h : Inv c s) (hcaller : s.caller = .returned) : Next c s .store := by
  cases h with
  | idle => cases hcaller
  | starting caller k tasks hc hk hsync =>
    exact ⟨_, rfl, .starting .published k tasks (.inr rfl) hk hsync, fun hr => hr.elim⟩
  | initializing caller k devices tasks hc hk hsync =>
    exact ⟨_, rfl, .initializing .published k devices tasks (.inr rfl) hk hsync, fun hr => hr.elim⟩
  | waiting caller tasks hc hpos htasks hasync =>
    exact ⟨_, rfl, .waiting .published tasks (.inr rfl) hpos htasks hasync, fun hr => hr.elim⟩
  | loaded caller hc hpos => exact ⟨_, rfl, .loaded .published (.inr rfl) hpos, fun hr => hr.elim⟩
  | stopping k hk => cases hcaller
  | stopped => cases hcaller

/-- `dfly_module_stop`. -/
theorem next_callStop (h : Inv c s) (hcaller : s.caller = .published) (hpost : .start ∈ s.posted) :
    Next c s .callStop := by
  cases h with
  | idle => cases hcaller
  | starting caller k tasks hc hk hsync => cases hpost
  | initializing caller k devices tasks hc hk hsync => cases hpost
  | waiting caller tasks hc hpos htasks hasync => cases hpost
  | loaded caller hc hpos =>
    refine ⟨_, ?_, .stopping 0 hpos, fun hr => hr.elim⟩
    cases hasync : c.asyncLoadEnabled with
    | true => simp [step, moduleStop, hasync, Config.asyncLoad, Config.states, initAsyncLoad,
        incAsyncPendingTask, State.setLoadState, State.setCount]
    | false => simp [step, moduleStop, hasync, Config.asyncLoad, Config.states]
  | stopping k hk => cases hcaller
  | stopped => cases hcaller

theorem next_beginInstance (h : Inv c s) (hr : Runs s .beginInstance) : Next c s .beginInstance := by
  obtain ⟨k', evt, hevent⟩ := hr
  cases h with
  | starting caller k tasks hc hk hsync =>
    refine ⟨_, rfl, .initializing caller k (c.devices k) tasks hc hk
      (fun hasync => ⟨c.sync hasync k, hsync hasync⟩), fun _ => ?_⟩
    simp only [State.work, c.left_eq hk]
    omega
  | stopping k hk => cases hevent
  | _ => cases hevent

theorem next_loadDevice (h : Inv c s) (hr : Runs s .loadDevice) (hstored : s.moduleStored = true) :
    Next c s .loadDevice := by
  obtain ⟨k', i, devices', evt, hrunning⟩ := hr
  cases h with
  | initializing caller k devices tasks hc hk hsync =>
    cases hrunning
    have hasync : c.asyncLoadEnabled = true := by
      by_contra hne
      exact absurd (hsync (by simpa using hne)).1 (by simp)
    have hcount : (tasks ++ [i]).length + 1 = tasks.length + 1 + 1 := by
      rw [List.length_append, List.length_singleton]
    refine ⟨_, ?_, .initializing caller k' devices' (tasks ++ [i]) hc hk ?_, fun _ => ?_⟩
    · refine (if_pos hstored).trans ?_
      simp only [incAsyncPendingTask, State.setCount, Config.asyncLoad, hasync, if_true, hcount]
    · intro hne
      rw [hasync] at hne
      cases hne
    · simp only [State.work, List.length_append, List.length_cons, List.length_nil]
      omega
  | _ => cases hrunning

theorem dec_guard (hasync : c.asyncLoadEnabled = true) (hpos : 0 < c.numCores) {caller : Caller}
    (hcaller : caller = .returned ∨ caller = .published) (tasks : List ℕ) :
    ∃ s', decAsyncPendingTask ⟨caller, c.asyncLoad .loading (tasks.length + 1) .start, c.numCores, none,
        none, tasks, 0, [], c.states [.loading]⟩ = some s' ∧ Inv c s' ∧
      s'.work c = tasks.length := by
  cases tasks with
  | nil =>
    refine ⟨_, ?_, .loaded caller hcaller hpos, rfl⟩
    simp [decAsyncPendingTask, Config.asyncLoad, Config.states, hasync, State.setCount,
      State.setLoadState, eventProcessed]
  | cons i tasks =>
    refine ⟨_, ?_, .waiting caller (i :: tasks) hcaller hpos (by simp) hasync, by simp [State.work]⟩
    simp [decAsyncPendingTask, Config.asyncLoad, hasync, State.setCount]

theorem next_endInstance (h : Inv c s) (hr : Runs s .endInstance) (hroom : s.numThreads < maxCpu) :
    Next c s .endInstance := by
  obtain ⟨k', evt, hrunning⟩ := hr
  cases h with
  | initializing caller k devices tasks hc hk hsync =>
    cases hrunning
    by_cases hlast : k' + 1 < c.numCores
    · refine ⟨_, ?_, .starting caller (k' + 1) tasks hc hlast fun hne => (hsync hne).2, fun _ => ?_⟩
      · simp only [step, endInstance, if_pos hroom, if_pos hlast]
      · simp only [State.work, List.length_nil]
        omega
    · have hn : k' + 1 = c.numCores := by omega
      cases hasync : c.asyncLoadEnabled with
      | true =>
        obtain ⟨s', hs', hinv, hwork⟩ := dec_guard hasync (by omega) hc tasks
        refine ⟨s', ?_, hinv, fun _ => ?_⟩
        · have hen : ∀ ls n e, (c.asyncLoad ls n e).asyncLoadEnabled = true := by
            simp [Config.asyncLoad, hasync]
          simp only [step, endInstance, if_pos hroom, hen, Bool.true_eq_false, if_false, hn,
            lt_self_iff_false]
          exact hs'
        · rw [hwork]
          simp only [State.work]
          omega
      | false =>
        obtain ⟨-, rfl⟩ := hsync hasync
        refine ⟨_, ?_, .loaded caller hc (by omega), fun _ => ?_⟩
        · simp [step, endInstance, hroom, Config.asyncLoad, Config.states, hasync,
            eventProcessed, hn]
        · simp only [State.work, List.length_nil]
          omega
  | _ => cases hrunning

theorem next_stopInstance (h : Inv c s) (hr : Runs s .stopInstance) : Next c s .stopInstance := by
  obtain ⟨k', evt, hevent⟩ := hr
  cases h with
  | stopping k hk =>
    by_cases hlast : k + 1 < c.numCores
    · refine ⟨_, ?_, .stopping (k + 1) hlast, fun _ => ?_⟩
      · simp only [step, stopInstance, if_pos hlast]
      · simp only [State.work]
        omega
    · have hn : k + 1 = c.numCores := by omega
      refine ⟨_, ?_, .stopped, fun _ => ?_⟩
      · cases hasync : c.asyncLoadEnabled with
        | true => simp [step, stopInstance, Config.asyncLoad, Config.states, hasync,
            decAsyncPendingTask, State.setCount, State.setLoadState, eventProcessed, hn]
        | false => simp [step, stopInstance, Config.asyncLoad, Config.states, hasync,
            eventProcessed, hn]
      · simp only [State.work, List.length_nil]
        omega
  | starting caller k tasks hc hk hsync => cases hevent
  | _ => cases hevent

theorem dec_task (hasync : c.asyncLoadEnabled = true) {s : State} {n : ℕ}
    (hload : s.asyncLoad = c.asyncLoad .loading (n + 1 + 1) .start) :
    decAsyncPendingTask s = some { s with asyncLoad := c.asyncLoad .loading (n + 1) .start } := by
  simp [decAsyncPendingTask, hload, Config.asyncLoad, hasync, State.setCount]

theorem next_taskDone (h : Inv c s) {i : ℕ} (hr : Runs s (.taskDone i)) : Next c s (.taskDone i) := by
  have hi : i < s.openTasks.length := hr
  have hlen : (s.openTasks.eraseIdx i).length + 1 = s.openTasks.length := by
    rw [List.length_eraseIdx_of_lt hi]
    omega
  have hstep : step c s (.taskDone i) =
      decAsyncPendingTask { s with openTasks := s.openTasks.eraseIdx i } := if_pos hi
  have hasync : (c.asyncLoadEnabled = false → s.openTasks = []) → c.asyncLoadEnabled = true := by
    intro hsync
    by_contra hoff
    rw [hsync (by simpa using hoff)] at hi
    cases hi
  cases h with
  | idle => cases hi
  | starting caller k tasks hc hk hsync =>
    refine ⟨_, hstep.trans (dec_task (n := (tasks.eraseIdx i).length) (hasync hsync) ?_),
      .starting caller k (tasks.eraseIdx i) hc hk fun hoff => ?_, fun _ => ?_⟩
    · simp only [← hlen]
    · rw [hasync hsync] at hoff
      cases hoff
    · simp only [State.work, ← hlen]
      omega
  | initializing caller k devices tasks hc hk hsync =>
    have hsync' := hasync fun hoff => (hsync hoff).2
    refine ⟨_, hstep.trans (dec_task (n := (tasks.eraseIdx i).length) hsync' ?_),
      .initializing caller k devices (tasks.eraseIdx i) hc hk fun hoff => ?_, fun _ => ?_⟩
    · simp only [← hlen]
    · rw [hsync'] at hoff
      cases hoff
    · simp only [State.work, ← hlen]
      omega
  | waiting caller tasks hc hpos htasks hasync' =>
    simp only at hlen
    by_cases hrest : tasks.eraseIdx i = []
    · have hone : tasks.length = 1 := by
        rw [← hlen, hrest, List.length_nil]
      refine ⟨_, hstep.trans ?_, .loaded caller hc hpos, fun _ => ?_⟩
      · simp [decAsyncPendingTask, Config.asyncLoad, Config.states, hasync', State.setCount,
          State.setLoadState, eventProcessed, hrest, hone]
      · simp only [State.work, List.length_nil]
        omega
    · obtain ⟨n, hn⟩ := Nat.exists_eq_succ_of_ne_zero (mt List.length_eq_zero_iff.1 hrest)
      have hinv := Inv.waiting caller (tasks.eraseIdx i) hc hpos hrest hasync'
      rw [hn] at hinv
      refine ⟨_, hstep.trans (dec_task (n := n) hasync' ?_), hinv, fun _ => ?_⟩
      · simp only [← hlen, hn]
      · simp only [State.work, ← hlen]
        omega
  | loaded caller hc hpos => cases hi
  | stopping k hk => cases hi
  | stopped => cases hi

/-! ### Runs -/

theorem next_of_kept (h : Inv c s) {a : Action} (ha : Legal s a) (hkept : Kept c s a) :
    Next c s a := by
  cases a with
  | callStart =>
    cases h with
    | idle => exact next_callStart hkept
    | stopping k hk => cases ha
    | stopped => cases ha
    | starting caller k tasks hc =>
      change caller = .idle at ha
      rcases hc with rfl | rfl <;> cases ha
    | initializing caller k devices tasks hc =>
      change caller = .idle at ha
      rcases hc with rfl | rfl <;> cases ha
    | waiting caller tasks hc =>
      change caller = .idle at ha
      rcases hc with rfl | rfl <;> cases ha
    | loaded caller hc =>
      change caller = .idle at ha
      rcases hc with rfl | rfl <;> cases ha
  | store => exact next_store h ha
  | callStop => exact next_callStop h ha.1 ha.2
  | beginInstance => exact next_beginInstance h ha
  | loadDevice => exact next_loadDevice h ha hkept
  | endInstance => exact next_endInstance h ha hkept
  | stopInstance => exact next_stopInstance h ha
  | taskDone i => exact next_taskDone h ha

theorem kept_of_step {s' : State} {a : Action} (ha : Legal s a) (hs : step c s a = some s') :
    Kept c s a := by
  cases a with
  | callStart =>
    by_contra hpos
    have hzero : c.numCores = 0 := Nat.eq_zero_of_not_pos hpos
    rw [step, moduleStart, if_pos hzero] at hs
    cases hs
  | loadDevice =>
    obtain ⟨k, i, devices, evt, hrunning⟩ := ha
    by_contra hstored
    change ¬ s.moduleStored = true at hstored
    rw [step, loadDevice, hrunning] at hs
    simp only at hs
    rw [if_neg hstored] at hs
    cases hs
  | endInstance =>
    obtain ⟨k, evt, hrunning⟩ := ha
    by_contra hroom
    change ¬ s.numThreads < maxCpu at hroom
    rw [step, endInstance, hrunning] at hs
    simp only at hs
    rw [if_neg hroom] at hs
    cases hs
  | store => exact trivial
  | callStop => exact trivial
  | beginInstance => exact trivial
  | stopInstance => exact trivial
  | taskDone i => exact trivial

end

/-- The callbacks are posted once and the states come in their order in a run of the caller, the cores
and the tasks just when it keeps the condition: there is an instance, `active_thread_arr` has room,
and the caller has stored the pointer before an initializer reads it. -/
theorem handshake_iff (c : Config) {acts : List Action}
    (hlegal : Run.Admissible (step c) Legal .initial acts) :
    Run.Admissible (step c) (Good c) .initial acts ↔ Run.Admissible (step c) (Kept c) .initial acts := by
  refine Run.admissible_iff (fun s a (hinv : Inv c s) ha => ⟨⟨?_, fun hkept => ?_⟩, ?_⟩) .idle hlegal
  · rintro ⟨s', hs, -⟩
    exact kept_of_step ha hs
  · obtain ⟨s', hs, hinv', hwork⟩ := next_of_kept hinv ha hkept
    exact ⟨s', hs, hinv'.handshake, hwork⟩
  · rintro ⟨s₁, hs₁, -⟩ s' hs
    obtain ⟨s₂, hs₂, hinv', -⟩ := next_of_kept hinv ha (kept_of_step ha hs)
    rw [hs] at hs₂
    cases hs₂
    exact hinv'

/-- Two devices on two instances, up to the end of the stop. -/
theorem handshake_two :
    Run.Admissible (step (kvtransConfig 2 2)) (Good (kvtransConfig 2 2)) .initial
      [.callStart, .beginInstance, .store, .loadDevice, .endInstance, .taskDone 0, .beginInstance,
        .loadDevice, .endInstance, .taskDone 0, .callStop, .stopInstance, .stopInstance] :=
  (handshake_iff (kvtransConfig 2 2) (by decide)).2 (by decide)

/-- The first instance loads its device before the caller has stored the pointer. -/
theorem not_handshake_early :
    Run.Admissible (step (kvtransConfig 1 1)) Legal .initial [.callStart, .beginInstance, .loadDevice] ∧
      ¬ Run.Admissible (step (kvtransConfig 1 1)) (Good (kvtransConfig 1 1)) .initial
        [.callStart, .beginInstance, .loadDevice] := by
  refine ⟨by decide, ?_⟩
  rintro ⟨-, h⟩
  obtain ⟨-, h⟩ := h _ rfl
  obtain ⟨⟨s', hs, -⟩, -⟩ := h _ rfl
  cases hs

end DssSdk.Framework.ModuleHandshake
