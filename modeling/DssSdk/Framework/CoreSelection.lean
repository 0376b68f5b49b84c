import DssSdk.Lib.Run

/-!
# The cores of a CPU group

`dfly_numa.cpp`: a connection is given a core of a group, and gives it back. With peer addresses the group
counts for each peer how many of its connections every core has.

* `CpuGroup`: the cores with their usage, the peers with their counts, and `max_usage`;
* `getNextAvailableCpu`, `updateConnUsage`: `dfly_get_next_available_cpu`, `dfly_update_conn_usage`;
* `ConnCall`, `coreStep`: one connect or disconnect, with a record of the cores that were handed out.

`none` is a failed assertion. The counters have 32 bits in the source and do not wrap here.
-/

namespace DssSdk.Framework

/-- `dfly_cpu_info_t`. -/
structure CpuInfo where
  cpuId : ℕ
  usage : ℤ
  deriving DecidableEq, Repr

/-- `struct dfly_peer_alloc_s`. -/
structure PeerAlloc where
  peerId : List UInt8
  currentUsage : ℤ
  peerCpuUsage : List ℤ
  deriving DecidableEq, Repr

/-- `dfly_cpu_group_context_t`; `num_cpus` is the length of `cpu_list`. -/
structure CpuGroup where
  maxUsage : ℤ
  cpuList : List CpuInfo
  peerList : List PeerAlloc
  deriving DecidableEq, Repr

/-- `dfly_allocate_cpu_group`, with the cores that it found. -/
def allocateCpuGroup (ids : List ℕ) : CpuGroup := ⟨0, ids.map fun id => ⟨id, 0⟩, []⟩

/-- `strndup(peer_addr, INET6_ADDRSTRLEN)`: the part of an address that is compared. -/
def peerKey (addr : List UInt8) : List UInt8 := addr.take 46

/-- A new entry of `peer_list`. -/
def PeerAlloc.new (addr : List UInt8) (numCpus : ℕ) : PeerAlloc :=
  ⟨peerKey addr, 0, List.replicate numCpus 0⟩

/-! ### Connects -/

/-- The loop over the counts of a peer: the first core whose count is at most `current_usage`, and whether
no core behind it has that count. -/
def selectCore (cur : ℤ) : List ℤ → Option (Option (ℕ × Bool))
  | [] => some none
  | u :: us =>
      if u ≤ cur then
        if u = cur then some (some (0, !us.any fun v => v = cur)) else none
      else (selectCore cur us).map fun r => r.map fun x => (x.1 + 1, x.2)

/-- The choice of a core for a peer: its index, and whether `current_usage` grows. -/
def PeerAlloc.next (p : PeerAlloc) : Option (PeerAlloc × ℕ × Bool) :=
  match selectCore p.currentUsage p.peerCpuUsage with
  | none => none
  | some (some (i, inc)) =>
      some ({ p with
        peerCpuUsage := p.peerCpuUsage.modify i (· + 1)
        currentUsage := if inc then p.currentUsage + 1 else p.currentUsage }, i, inc)
  | some none =>
      some ({ p with
        currentUsage := p.currentUsage + 1
        peerCpuUsage := p.peerCpuUsage.modify 0 (· + 1) }, 0, true)

/-- Work on the first entry of the peer. -/
def atPeer {β : Type} (addr : List UInt8) (f : PeerAlloc → Option (PeerAlloc × β)) :
    List PeerAlloc → Option (List PeerAlloc × β)
  | [] => none
  | p :: ps =>
      if p.peerId = peerKey addr then (f p).map fun x => (x.1 :: ps, x.2)
      else (atPeer addr f ps).map fun x => (p :: x.1, x.2)

/-- The entries with one for the peer. -/
def addPeer (g : CpuGroup) (addr : List UInt8) : List PeerAlloc :=
  if g.peerList.any fun p => p.peerId = peerKey addr then g.peerList
  else g.peerList ++ [PeerAlloc.new addr g.cpuList.length]

/-- `usage++` for the core at an index. -/
def useCore (g : CpuGroup) (i : ℕ) : Option (CpuGroup × ℕ) :=
  match g.cpuList[i]? with
  | none => none
  | some c =>
      some ({ g with cpuList := g.cpuList.modify i fun c => { c with usage := c.usage + 1 } }, c.cpuId)

/-- `dfly_get_next_available_cpu`: the group and the id of the core. -/
def getNextAvailableCpu (g : CpuGroup) : Option (List UInt8) → Option (CpuGroup × ℕ)
  | some addr =>
      if addr = [] then none
      else
        match atPeer addr PeerAlloc.next (addPeer g addr) with
        | none => none
        | some (peers, i, inc) =>
            useCore { g with
              peerList := peers, maxUsage := if inc then g.maxUsage + 1 else g.maxUsage } i
  | none =>
      if g.peerList ≠ [] then none
      else
        match g.cpuList.findIdx? fun c => c.usage ≤ g.maxUsage with
        | some i => useCore g i
        | none => useCore { g with maxUsage := g.maxUsage + 1 } 0

/-! ### Disconnects -/

/-- The largest usage in the loop of `dfly_update_conn_usage`. -/
def largestUsage (cs : List CpuInfo) : ℤ := cs.foldl (fun m c => max m c.usage) 0

/-- `peer_cpu_usage[cpu_index]--`, and whether `current_usage` falls; both it and `max_usage` must be
positive then. -/
def PeerAlloc.release (maxUsage : ℤ) (i : ℕ) (p : PeerAlloc) : Option (PeerAlloc × Bool) :=
  let counts := p.peerCpuUsage.modify i (· - 1)
  if counts.getD i 0 < p.currentUsage then
    if 0 < p.currentUsage ∧ 0 < maxUsage then
      some ({ p with peerCpuUsage := counts, currentUsage := p.currentUsage - 1 }, true)
    else none
  else some ({ p with peerCpuUsage := counts }, false)

/-- `dfly_update_conn_usage`. -/
def updateConnUsage (g : CpuGroup) (core : ℕ) (peer : Option (List UInt8)) : Option CpuGroup :=
  let cpus := g.cpuList.map fun c => if c.cpuId = core then { c with usage := c.usage - 1 } else c
  let i := g.cpuList.findIdx fun c => c.cpuId = core
  match peer with
  | some addr =>
      if addr = [] ∨ ¬ i < g.cpuList.length then none
      else
        match atPeer addr (PeerAlloc.release g.maxUsage i) g.peerList with
        | none => none
        | some (peers, dec) =>
            some ⟨if dec then g.maxUsage - 1 else g.maxUsage, cpus, peers⟩
  | none =>
      if g.peerList ≠ [] ∨ ¬ i < g.cpuList.length then none
      else if largestUsage cpus < g.maxUsage then
        if largestUsage cpus = g.maxUsage - 1 then some { g with maxUsage := g.maxUsage - 1, cpuList := cpus }
        else none
      else some { g with cpuList := cpus }

/-! ### Runs -/

/-- A call on the group. -/
inductive ConnCall
  | connect (peer : Option (List UInt8))
  | disconnect (peer : Option (List UInt8)) (core : ℕ)
  deriving DecidableEq, Repr

/-- The group, and the cores that peers have been handed and have not given back. -/
structure CoreState where
  group : CpuGroup
  handed : List (Option (List UInt8) × ℕ)
  deriving DecidableEq, Repr

/-- One call. -/
def coreStep (s : CoreState) : ConnCall → Option CoreState
  | .connect peer =>
      (getNextAvailableCpu s.group peer).map fun x => ⟨x.1, (peer.map peerKey, x.2) :: s.handed⟩
  | .disconnect peer core =>
      (updateConnUsage s.group core peer).map fun g => ⟨g, s.handed.erase (peer.map peerKey, core)⟩

/-- A disconnect is for a core that was handed to the peer; an address is not empty. -/
def LegalCall (s : CoreState) : ConnCall → Prop
  | .connect peer => peer ≠ some []
  | .disconnect peer core => peer ≠ some [] ∧ (peer.map peerKey, core) ∈ s.handed

/-- All calls come with a peer address, or none does. -/
def ConnCall.hasPeer : ConnCall → Bool
  | .connect peer => peer.isSome
  | .disconnect peer _ => peer.isSome

end DssSdk.Framework
